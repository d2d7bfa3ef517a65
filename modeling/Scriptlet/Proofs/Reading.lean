import Scriptlet.Proofs.Scanning

/-! What one lexeme reads, as a function of the characters ahead. -/
namespace Scriptlet.Scanner

/-- What is found at the beginning of some characters. Only a bracket and a character that begins no
lexeme know where they stand. -/
inductive Found where
  | nothing
  | token (kind : Token.Kind) (value : Value)
  | bracket (kind : Token.Kind) (c : Char)
  | flaw (fault : Fault)
  | unrecognized (c : Char)

namespace Found

def ofExcept (kind : Token.Kind) : Except Fault Value → Found
  | .ok value => .token kind value
  | .error fault => .flaw fault

/-- A keyword or an identifier. -/
def ofWord (chars : List Char) : Found :=
  .token ((Token.keywords.lookup (String.ofList chars)).getD .identifier)
    (.str (String.ofList chars))

/-- The tokens of what is found behind the given characters. -/
def tokens (before : List Char) : Found → Except Fault (List Token)
  | nothing => .ok []
  | token kind value => .ok [.plain kind value]
  | bracket kind c =>
    .ok [.placed kind (.str c.toString) (lineAfter before) (columnAfter before)]
  | flaw fault => .error fault
  | unrecognized c =>
    .error (.unrecognized c before.length (lineAfter before) (columnAfter before))

end Found

/-- The characters that a lexeme takes, those that it leaves, and what it is. -/
structure Reading where
  taken : List Char
  left : List Char
  found : Found

namespace Reading

/-- How reading ends behind the given characters. -/
def outcome (before : List Char) (r : Reading) : EStateM.Result Fault Scanner (List Token) :=
  match r.found.tokens before with
  | .ok tokens => .ok tokens (between (before ++ r.taken) r.left)
  | .error fault => .error fault (between (before ++ r.taken) r.left)

/-- The longest run of a class. -/
def span (p : Char → Bool) (found : List Char → Found) (ahead : List Char) : Reading :=
  ⟨ahead.takeWhile p, ahead.dropWhile p, found (ahead.takeWhile p)⟩

def integer (digits : List Char) : Found :=
  .ofExcept .number (.int <$> Decimal.readInteger (String.ofList digits))

def decimal (chars : List Char) : Found :=
  .ofExcept .float (.float <$> Decimal.readFloat (String.ofList chars))

def number (ahead : List Char) : Reading :=
  let whole := ahead.takeWhile Text.isDigit
  let rest := ahead.dropWhile Text.isDigit
  if rest.head? = some '.' then
    let fraction := rest.tail.takeWhile Text.isDigit
    ⟨whole ++ '.' :: fraction, rest.tail.dropWhile Text.isDigit,
      decimal (whole ++ '.' :: fraction)⟩
  else
    ⟨whole, rest, integer whole⟩

end Reading

/-- The inside of a string literal: the text that it stands for, its characters, and what is left
from its closing quote on. -/
structure Inside where
  text : List Char
  taken : List Char
  left : List Char

/-- The inside of a string literal at the beginning of some characters. -/
def inside : List Char → Inside
  | [] => ⟨[], [], []⟩
  | c :: ahead =>
    if c = Text.doubleQuote then ⟨[], [], c :: ahead⟩
    else if c = '\\' then
      match ahead with
      | [] => ⟨[c], [c], []⟩
      | d :: ahead =>
        let rest := inside ahead
        ⟨escaped d :: rest.text, c :: d :: rest.taken, rest.left⟩
    else
      let rest := inside ahead
      ⟨c :: rest.text, c :: rest.taken, rest.left⟩

theorem inside_quote (ahead : List Char) :
    inside (Text.doubleQuote :: ahead) = ⟨[], [], Text.doubleQuote :: ahead⟩ := by
  rw [inside.eq_def]
  exact if_pos rfl

theorem inside_escape (c : Char) (ahead : List Char) :
    inside ('\\' :: c :: ahead) =
      ⟨escaped c :: (inside ahead).text, '\\' :: c :: (inside ahead).taken,
        (inside ahead).left⟩ := by
  rw [inside.eq_def]
  rfl

theorem inside_plain {c : Char} (hquote : c ≠ Text.doubleQuote) (hslash : c ≠ '\\')
    (ahead : List Char) :
    inside (c :: ahead) =
      ⟨c :: (inside ahead).text, c :: (inside ahead).taken, (inside ahead).left⟩ := by
  rw [inside.eq_def]
  exact (if_neg hquote).trans (if_neg hslash)

namespace Reading

/-- A string literal whose opening quote has been read. -/
def string (ahead : List Char) : Reading :=
  let i := inside ahead
  match i.left with
  | [] => ⟨Text.doubleQuote :: i.taken, [], .flaw .unclosedString⟩
  | c :: left =>
    ⟨Text.doubleQuote :: (i.taken ++ [c]), left, .token .string (.str (String.ofList i.text))⟩

def sign (c : Char) (ahead : List Char) : Reading :=
  match Token.brackets.lookup c, Token.signs.lookup c with
  | some kind, _ => ⟨[c], ahead, .bracket kind c⟩
  | none, some kind => ⟨[c], ahead, .token kind (.str c.toString)⟩
  | none, none =>
    if c = '=' then
      if ahead.head? = some '=' then
        ⟨['=', '='], ahead.tail, .token .equals (.str "==")⟩
      else ⟨['='], ahead, .token .assign (.str "=")⟩
    else ⟨[], c :: ahead, .unrecognized c⟩

end Reading

/-- The lexeme at the beginning of some characters. -/
def reading : List Char → Reading
  | [] => ⟨[], [], .nothing⟩
  | c :: ahead =>
    if Text.isBlank c then .span Text.isBlank (fun _ => .nothing) (c :: ahead)
    else if c = '/' ∧ ahead.head? = some '/' then
      .span (· != '\n') (fun _ => .nothing) (c :: ahead)
    else if beginsWord c then
      .span continuesWord .ofWord (c :: ahead)
    else if Text.isDigit c then .number (c :: ahead)
    else if c = Text.doubleQuote then .string ahead
    else .sign c ahead

section Run

variable (before ahead : List Char)

theorem number_reads :
    (do return [← number] : Scan (List Token)).run (between before ahead) =
      (Reading.number ahead).outcome before := by
  rw [number, bind_assoc, run_bind_of_ok (run_takeWhile before ahead Text.isDigit), bind_assoc,
    run_get_bind, Reading.number]
  by_cases hpoint : (ahead.dropWhile Text.isDigit).head? = some '.'
  · obtain ⟨rest, hrest⟩ := List.head?_eq_some_iff.mp hpoint
    rw [if_pos hpoint, if_pos (by exact hpoint), hrest, bind_assoc,
      run_bind_of_ok (run_shift _ rest '.'), bind_assoc,
      run_bind_of_ok (run_takeWhile _ rest Text.isDigit), List.append_assoc, List.append_assoc]
    simp only [Reading.outcome, Reading.decimal, List.singleton_append, List.append_assoc,
      List.tail_cons]
    cases Decimal.readFloat (String.ofList (ahead.takeWhile Text.isDigit ++
      '.' :: rest.takeWhile Text.isDigit)) <;> rfl
  · rw [if_neg hpoint, if_neg (by exact hpoint)]
    simp only [Reading.outcome, Reading.integer]
    cases Decimal.readInteger (String.ofList (ahead.takeWhile Text.isDigit)) <;> rfl

/-- A backslash that ends the source stands for itself. -/
theorem run_stringChar_last :
    stringChar.run (between before ['\\']) = .ok ['\\'] (between (before ++ ['\\']) []) := by
  have houtside : ¬ (between before ['\\']).position + 1 <
      (between before ['\\']).source.size := by
    rw [size_between]
    exact Int.lt_irrefl _
  rw [stringChar, run_get_bind, if_neg (by simp [houtside])]
  exact run_shift before [] '\\'

section Inside

abbrev insideLoop : Nat → Scan (List (List Char)) :=
  collectWhile (holds (· != Text.doubleQuote)) stringChar

variable {before}

theorem run_inside_round {c : Char} {ahead part taken left : List Char} {i : Inside} {rounds : Nat}
    (hc : c ≠ Text.doubleQuote)
    (hpart : stringChar.run (between before (c :: ahead)) =
      .ok part (between (before ++ taken) left))
    (hleft : ∃ parts, (insideLoop rounds).run (between (before ++ taken) left) =
      .ok parts (between (before ++ taken ++ i.taken) i.left) ∧ parts.flatten = i.text) :
    ∃ parts, (insideLoop (rounds + 1)).run (between before (c :: ahead)) =
      .ok parts (between (before ++ (taken ++ i.taken)) i.left) ∧
        parts.flatten = part ++ i.text := by
  obtain ⟨parts, hparts, hflat⟩ := hleft
  refine ⟨part :: parts, ?_, by rw [List.flatten_cons, hflat]⟩
  rw [insideLoop, collectWhile_round (by simpa [holds] using hc), run_bind_of_ok hpart,
    run_bind_of_ok hparts, EStateM.run_pure, List.append_assoc]

theorem run_inside (before ahead : List Char) (rounds : Nat) (h : ahead.length ≤ rounds) :
    ∃ parts, (insideLoop rounds).run (between before ahead) =
      .ok parts (between (before ++ (inside ahead).taken) (inside ahead).left) ∧
        parts.flatten = (inside ahead).text := by
  fun_induction inside ahead generalizing before rounds with
  | case1 => exact ⟨[], by rw [insideLoop, collectWhile_stop rfl, List.append_nil], rfl⟩
  | case2 ahead => exact ⟨[], by rw [insideLoop, collectWhile_stop rfl, List.append_nil], rfl⟩
  | case3 hc =>
    obtain ⟨rounds, rfl⟩ := Nat.exists_eq_add_one_of_ne_zero (Nat.ne_zero_of_lt h)
    exact run_inside_round (i := ⟨[], [], []⟩) hc (run_stringChar_last before)
      ⟨[], by rw [insideLoop, collectWhile_stop rfl, List.append_nil], rfl⟩
  | case4 d ahead _ hc ih =>
    obtain ⟨rounds, rfl⟩ := Nat.exists_eq_add_one_of_ne_zero (Nat.ne_zero_of_lt h)
    simp only [List.length_cons] at h
    exact run_inside_round hc (run_stringChar_escape before ahead d) (ih _ _ (by omega))
  | case5 c ahead hc hslash _ ih =>
    obtain ⟨rounds, rfl⟩ := Nat.exists_eq_add_one_of_ne_zero (Nat.ne_zero_of_lt h)
    exact run_inside_round hc (run_stringChar_plain before ahead hslash)
      (ih _ _ (Nat.le_of_succ_le_succ h))

end Inside

theorem inside_left_head {c : Char} {left : List Char} (h : (inside ahead).left = c :: left) :
    c = Text.doubleQuote := by
  fun_induction inside ahead with
  | case1 => cases h
  | case2 ahead => cases h; rfl
  | case3 hc => cases h
  | case4 d ahead _ hc ih => exact ih h
  | case5 d ahead hc hslash _ ih => exact ih h

theorem string_reads :
    (do return [← string] : Scan (List Token)).run (between before (Text.doubleQuote :: ahead)) =
      (Reading.string ahead).outcome before := by
  obtain ⟨parts, hparts, hflat⟩ := run_inside (before ++ [Text.doubleQuote]) ahead _
    (length_le_togo (before ++ [Text.doubleQuote]) ahead)
  rw [string, bind_assoc, run_bind_of_ok (run_advance before ahead _), bind_assoc, run_get_bind,
    bind_assoc, run_bind_of_ok hparts, bind_assoc, run_get_bind, Reading.string]
  rw [List.append_assoc, List.singleton_append]
  cases hleft : (inside ahead).left with
  | nil => rfl
  | cons c left =>
    obtain rfl := inside_left_head ahead hleft
    rw [if_pos (by rfl), bind_assoc, run_bind_of_ok (run_advance _ left _), hflat,
      List.append_assoc, List.cons_append]
    rfl

theorem sign_reads (c : Char) :
    (do return [← sign c] : Scan (List Token)).run (between before (c :: ahead)) =
      (Reading.sign c ahead).outcome before := by
  rw [sign, bind_assoc, run_get_bind, Reading.sign]
  cases hbracket : Token.brackets.lookup c with
  | some kind =>
    simp only
    rw [bind_assoc, run_bind_of_ok (run_advance before ahead c)]
    rfl
  | none =>
    cases hsign : Token.signs.lookup c with
    | some kind =>
      simp only
      rw [bind_assoc, run_bind_of_ok (run_advance before ahead c)]
      rfl
    | none =>
      simp only
      by_cases hc : c = '='
      · subst hc
        rw [if_pos rfl, if_pos rfl, bind_assoc, run_bind_of_ok (run_advance before ahead '='),
          bind_assoc, run_get_bind]
        by_cases hnext : ahead.head? = some '='
        · obtain ⟨rest, rfl⟩ := List.head?_eq_some_iff.mp hnext
          rw [if_pos (by rfl), if_pos (by rfl), bind_assoc, run_bind_of_ok (run_advance _ rest _),
            List.append_assoc]
          rfl
        · rw [if_neg (by exact hnext), if_neg hnext]
          rfl
      · rw [if_neg hc, if_neg hc, Reading.outcome, List.append_nil]
        rfl

/-- A lexeme is read as the characters ahead tell. -/
theorem run_lexeme : lexeme.run (between before ahead) = (reading ahead).outcome before := by
  rw [lexeme, run_get_bind, current_between]
  cases ahead with
  | nil => rw [reading, Reading.outcome, List.append_nil]; rfl
  | cons c ahead =>
    rw [List.head?_cons, reading]
    simp only
    by_cases hblank : Text.isBlank c = true
    · rw [if_pos hblank, if_pos hblank, skipBlanks, bind_assoc,
        run_bind_of_ok (run_takeWhile before _ Text.isBlank)]
      rfl
    rw [if_neg hblank, if_neg hblank, beginsComment_between, run_bind_of_ok (run_lift_ok _ _)]
    have hdecide : (decide (c = '/') && decide (ahead.head? = some '/')) = true ↔
        c = '/' ∧ ahead.head? = some '/' := by
      rw [Bool.and_eq_true, decide_eq_true_iff, decide_eq_true_iff]
    by_cases hcomment : c = '/' ∧ ahead.head? = some '/'
    · rw [if_pos (hdecide.mpr hcomment), if_pos hcomment]
      obtain ⟨rfl, hnext⟩ := hcomment
      obtain ⟨rest, rfl⟩ := List.head?_eq_some_iff.mp hnext
      rw [run_bind_of_ok (run_advance before _ '/'), run_bind_of_ok (run_advance _ rest '/'),
        skipComment, bind_assoc, run_bind_of_ok (run_takeWhile _ rest (· != '\n')),
        List.append_assoc, List.append_assoc]
      rfl
    rw [if_neg (mt hdecide.mp hcomment), if_neg hcomment]
    by_cases hword : beginsWord c = true
    · rw [if_pos hword, if_pos hword, run_bind_of_ok (run_word before (c :: ahead))]
      rfl
    rw [if_neg hword, if_neg hword]
    by_cases hdigit : Text.isDigit c = true
    · rw [if_pos hdigit, if_pos hdigit]
      exact number_reads before (c :: ahead)
    rw [if_neg hdigit, if_neg hdigit]
    by_cases hquote : c = Text.doubleQuote
    · rw [if_pos hquote, if_pos hquote, hquote]
      exact string_reads before ahead
    rw [if_neg hquote, if_neg hquote]
    exact sign_reads before ahead c

end Run

section Laws

theorem inside_taken_append_left (ahead : List Char) :
    (inside ahead).taken ++ (inside ahead).left = ahead := by
  fun_induction inside ahead with
  | case1 => rfl
  | case2 ahead => rfl
  | case3 hc => rfl
  | case4 d ahead _ hc ih => rw [List.cons_append, List.cons_append, ih]
  | case5 c ahead hc hslash _ ih => rw [List.cons_append, ih]

theorem Reading.number_taken_append_left (ahead : List Char) :
    (Reading.number ahead).taken ++ (Reading.number ahead).left = ahead := by
  rw [Reading.number]
  split
  · next hpoint =>
    obtain ⟨rest, hrest⟩ := List.head?_eq_some_iff.mp hpoint
    rw [hrest, List.tail_cons, List.append_assoc, List.cons_append,
      List.takeWhile_append_dropWhile, ← hrest, List.takeWhile_append_dropWhile]
  · exact List.takeWhile_append_dropWhile

theorem Reading.string_taken_append_left (ahead : List Char) :
    (Reading.string ahead).taken ++ (Reading.string ahead).left = Text.doubleQuote :: ahead := by
  have h := inside_taken_append_left ahead
  rw [Reading.string]
  cases hleft : (inside ahead).left with
  | nil =>
    rw [hleft] at h
    exact congrArg (Text.doubleQuote :: ·) h
  | cons c left =>
    rw [hleft] at h
    simp only [List.cons_append, List.append_assoc, List.nil_append, h]

theorem Reading.sign_taken_append_left (c : Char) (ahead : List Char) :
    (Reading.sign c ahead).taken ++ (Reading.sign c ahead).left = c :: ahead := by
  rw [Reading.sign]
  split
  · rfl
  · rfl
  · split
    · next hc =>
      subst hc
      split
      · next hnext =>
        obtain ⟨rest, rfl⟩ := List.head?_eq_some_iff.mp hnext
        rfl
      · rfl
    · rfl

theorem taken_append_left (ahead : List Char) :
    (reading ahead).taken ++ (reading ahead).left = ahead := by
  cases ahead with
  | nil => rfl
  | cons c ahead =>
    rw [reading]
    split
    · exact List.takeWhile_append_dropWhile
    split
    · exact List.takeWhile_append_dropWhile
    split
    · exact List.takeWhile_append_dropWhile
    split
    · exact Reading.number_taken_append_left _
    split
    · next hquote =>
      rw [hquote]
      exact Reading.string_taken_append_left ahead
    · exact Reading.sign_taken_append_left c ahead

theorem continuesWord_of_beginsWord {c : Char} (h : beginsWord c = true) :
    continuesWord c = true := by
  rw [beginsWord, Bool.or_eq_true] at h
  rw [continuesWord, Bool.or_eq_true, Bool.or_eq_true]
  exact h.imp_left .inl

/-- Only a character that begins no lexeme is not taken. -/
theorem found_of_taken_nil {c : Char} {ahead : List Char}
    (h : (reading (c :: ahead)).taken = []) :
    (reading (c :: ahead)).found = .unrecognized c := by
  have hspan : ∀ (p : Char → Bool) (found : List Char → Found), p c = true →
      (Reading.span p found (c :: ahead)).taken ≠ [] := by
    intro p found hp
    rw [Reading.span, List.takeWhile_cons_of_pos hp]
    exact List.cons_ne_nil _ _
  rw [reading] at h ⊢
  split at h
  · next hblank => exact absurd h (hspan _ _ hblank)
  next hblank =>
  rw [if_neg hblank]
  split at h
  · next hcomment => exact absurd h (hspan _ _ (by rw [hcomment.1]; rfl))
  next hcomment =>
  rw [if_neg hcomment]
  split at h
  · next hword => exact absurd h (hspan _ _ (continuesWord_of_beginsWord hword))
  next hword =>
  rw [if_neg hword]
  split at h
  · next hdigit =>
    rw [Reading.number, List.takeWhile_cons_of_pos hdigit] at h
    split at h <;> cases h
  next hdigit =>
  rw [if_neg hdigit]
  split at h
  · rw [Reading.string] at h
    split at h <;> cases h
  next hquote =>
  rw [if_neg hquote]
  rw [Reading.sign] at h ⊢
  split at h
  · cases h
  · cases h
  · split at h
    · split at h <;> cases h
    · next hequals => rw [if_neg hequals]

theorem left_length_lt {c : Char} {before ahead : List Char} {ts : List Token}
    (h : (reading (c :: ahead)).found.tokens before = .ok ts) :
    (reading (c :: ahead)).left.length < (c :: ahead).length := by
  have htaken : (reading (c :: ahead)).taken ≠ [] := by
    intro hnil
    rw [found_of_taken_nil hnil] at h
    cases h
  have hall := congrArg List.length (taken_append_left (c :: ahead))
  rw [List.length_append] at hall
  have := List.length_pos_iff.mpr htaken
  omega

end Laws

end Scriptlet.Scanner
