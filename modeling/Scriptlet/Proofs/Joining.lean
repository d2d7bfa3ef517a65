import Scriptlet.Proofs.Lexing

/-! Sources with a line feed between them. The first one is read as it is alone, whatever it ends
with, and the second one as it is alone, only further down: its tokens, or the way in which it
fails. -/
namespace Scriptlet

/-- The token that many lines further down. -/
def Token.lowered (lines : Nat) : Token → Token
  | ⟨[label, value, .int line, column]⟩ => ⟨[label, value, .int (line + lines), column]⟩
  | token => token

/-- The fault that many characters and lines further down. -/
def Fault.lowered (chars lines : Nat) : Fault → Fault
  | .unrecognized c position line column => .unrecognized c (position + chars) (line + lines) column
  | fault => fault

theorem Decimal.lowered_of_readInteger {text : String} {fault : Fault}
    (h : readInteger text = .error fault) (chars lines : Nat) :
    fault.lowered chars lines = fault := by
  obtain rfl | ⟨count, rfl⟩ := readInteger_error h
  · rfl
  · rfl

theorem Decimal.lowered_of_readFloat {text : String} {fault : Fault}
    (h : readFloat text = .error fault) (chars lines : Nat) :
    fault.lowered chars lines = fault := by
  obtain rfl := readFloat_error h
  rfl

namespace Scanner

/-- The scanner with other characters and a line feed in front of its source. -/
def behind (front : List Char) (s : Scanner) : Scanner :=
  { s with
    source := (front ++ '\n' :: s.source.toList).toArray
    position := s.position + (front.length + 1)
    line := s.line + lineAfter front }

/-- How reading ends with other characters and a line feed in front of the source. -/
def lowered (front : List Char) :
    EStateM.Result Fault Scanner (List Token) → EStateM.Result Fault Scanner (List Token)
  | .ok ts s => .ok (ts.map (Token.lowered (lineAfter front))) (s.behind front)
  | .error fault s => .error (fault.lowered (front.length + 1) (lineAfter front)) (s.behind front)

section Behind

variable (front before ahead : List Char)

theorem lineAfter_behind :
    lineAfter (front ++ '\n' :: before) = lineAfter before + lineAfter front := by
  simp only [lineAfter, List.count_append, List.count_cons_self]
  omega

theorem columnAfter_behind : columnAfter (front ++ '\n' :: before) = columnAfter before := by
  rw [columnAfter, columnAfter, List.reverse_append, List.reverse_cons, List.append_assoc]
  congr 2
  generalize before.reverse = chars
  induction chars with
  | nil => rfl
  | cons c chars ih => rw [List.cons_append, List.takeWhile_cons, List.takeWhile_cons, ih]

theorem length_behind :
    ((front ++ '\n' :: before).length : Int) = before.length + (front.length + 1) := by
  rw [List.length_append, List.length_cons]
  omega

theorem behind_between :
    (between before ahead).behind front = between (front ++ '\n' :: before) ahead := by
  simp only [behind, between, lineAfter_behind, columnAfter_behind, length_behind,
    List.append_assoc, List.cons_append]

variable {before ahead}

theorem Found.tokens_behind {found : Found} {ts : List Token} (h : found.tokens before = .ok ts) :
    found.tokens (front ++ '\n' :: before) = .ok (ts.map (Token.lowered (lineAfter front))) := by
  cases found with
  | nothing => cases h; rfl
  | token kind value => cases h; rfl
  | bracket kind c =>
    cases h
    rw [tokens, lineAfter_behind, columnAfter_behind]
    rfl
  | flaw fault => cases h
  | unrecognized c => cases h

theorem Found.ofExcept_flaw {α : Type} {kind : Token.Kind} {f : α → Value} {x : Except Fault α}
    {fault : Fault} (h : Found.ofExcept kind (f <$> x) = .flaw fault) : x = .error fault := by
  cases x with
  | ok a => cases h
  | error e =>
    cases h
    rfl

theorem Reading.number_flaw {fault : Fault} (h : (Reading.number ahead).found = .flaw fault) :
    (∃ text, Decimal.readInteger text = .error fault) ∨
      ∃ text, Decimal.readFloat text = .error fault := by
  simp only [Reading.number, apply_ite Reading.found] at h
  split at h
  · exact .inr ⟨_, Found.ofExcept_flaw h⟩
  · exact .inl ⟨_, Found.ofExcept_flaw h⟩

/-- A flaw is a number that cannot be read or a string literal without end. -/
theorem reading_flaw {fault : Fault} (h : (reading ahead).found = .flaw fault) :
    fault = .unclosedString ∨ (∃ text, Decimal.readInteger text = .error fault) ∨
      ∃ text, Decimal.readFloat text = .error fault := by
  cases ahead with
  | nil => cases h
  | cons c ahead =>
    rw [reading] at h
    split at h
    · cases h
    split at h
    · cases h
    split at h
    · cases h
    split at h
    · exact .inr (Reading.number_flaw h)
    split at h
    · rw [Reading.string] at h
      split at h
      · cases h
        exact .inl rfl
      · cases h
    · rw [Reading.sign] at h
      split at h
      · cases h
      · cases h
      · split at h
        · split at h <;> cases h
        · cases h

theorem lowered_of_flaw {fault : Fault} (h : (reading ahead).found = .flaw fault)
    (chars lines : Nat) : fault.lowered chars lines = fault := by
  rcases reading_flaw h with rfl | ⟨text, hread⟩ | ⟨text, hread⟩
  · rfl
  · exact Decimal.lowered_of_readInteger hread chars lines
  · exact Decimal.lowered_of_readFloat hread chars lines

theorem tokens_behind_of_error {fault : Fault}
    (h : (reading ahead).found.tokens before = .error fault) :
    (reading ahead).found.tokens (front ++ '\n' :: before) =
      .error (fault.lowered (front.length + 1) (lineAfter front)) := by
  cases hfound : (reading ahead).found with
  | flaw flaw =>
    rw [hfound] at h
    cases h
    rw [lowered_of_flaw hfound]
    rfl
  | unrecognized c =>
    rw [hfound] at h
    cases h
    rw [Found.tokens, lineAfter_behind, columnAfter_behind, length_behind]
    rfl
  | _ =>
    rw [hfound] at h
    cases h

/-- Behind other lines reading ends as it does without them, further down. -/
theorem lexemes_behind (front before ahead : List Char) :
    lexemes.run (between (front ++ '\n' :: before) ahead) =
      lowered front (lexemes.run (between before ahead)) := by
  induction hn : ahead.length using Nat.strong_induction_on generalizing before ahead with
  | _ n ih =>
    cases ahead with
    | nil => rw [lexemes_nil, lexemes_nil, lowered, behind_between, List.map_nil]
    | cons c ahead =>
      cases hts : (reading (c :: ahead)).found.tokens before with
      | error fault =>
        rw [lexemes_of_error hts, lexemes_of_error (tokens_behind_of_error front hts), lowered,
          behind_between, List.append_assoc, List.cons_append]
      | ok ts =>
        rw [lexemes_of_ok hts, lexemes_of_ok (Found.tokens_behind front hts), EStateM.run_bind,
          EStateM.run_bind, List.append_assoc, List.cons_append,
          ih _ (hn ▸ left_length_lt hts) _ _ rfl]
        cases lexemes.run
          (between (before ++ (reading (c :: ahead)).taken) (reading (c :: ahead)).left) with
        | ok rest s => simp only [lowered, EStateM.run_pure, List.map_append]
        | error fault s => rfl

end Behind

theorem reading_blank {c : Char} (hc : Text.isBlank c = true) (ahead : List Char) :
    reading (c :: ahead) =
      ⟨c :: ahead.takeWhile Text.isBlank, ahead.dropWhile Text.isBlank, .nothing⟩ := by
  rw [reading, if_pos hc, Reading.span, List.takeWhile_cons_of_pos hc,
    List.dropWhile_cons_of_pos hc]

theorem lexemes_of_blank {c : Char} (hc : Text.isBlank c = true) (before ahead : List Char) :
    lexemes.run (between before (c :: ahead)) =
      lexemes.run (between (before ++ c :: ahead.takeWhile Text.isBlank)
        (ahead.dropWhile Text.isBlank)) := by
  have hfound : (reading (c :: ahead)).found.tokens before = .ok [] := by
    rw [reading_blank hc]
    rfl
  rw [lexemes_of_ok hfound, reading_blank hc]
  simp only [List.nil_append, bind_pure]

/-- It makes no difference whether a blank is read alone or with those behind it. -/
theorem lexemes_blank {c : Char} (hc : Text.isBlank c = true) (before ahead : List Char) :
    lexemes.run (between before (c :: ahead)) = lexemes.run (between (before ++ [c]) ahead) := by
  rw [lexemes_of_blank hc]
  cases ahead with
  | nil => rfl
  | cons d ahead =>
    by_cases hd : Text.isBlank d = true
    · rw [lexemes_of_blank hd, List.takeWhile_cons_of_pos hd, List.dropWhile_cons_of_pos hd,
        List.append_assoc, List.singleton_append]
    · rw [List.takeWhile_cons_of_neg hd, List.dropWhile_cons_of_neg hd]

theorem lexemes_blanks {blanks : List Char} (hblanks : ∀ c ∈ blanks, Text.isBlank c = true)
    (before ahead : List Char) :
    lexemes.run (between before (blanks ++ ahead)) =
      lexemes.run (between (before ++ blanks) ahead) := by
  induction blanks generalizing before with
  | nil => rw [List.append_nil, List.nil_append]
  | cons c blanks ih =>
    obtain ⟨hc, hblanks⟩ := List.forall_mem_cons.mp hblanks
    rw [List.cons_append, lexemes_blank hc, ih hblanks, List.append_assoc, List.singleton_append]

theorem Lexes.blanks {blanks before ahead : List Char} {ts : List Token}
    (hblanks : ∀ c ∈ blanks, Text.isBlank c = true) (h : Lexes (before ++ blanks) ahead ts) :
    Lexes before (blanks ++ ahead) ts := by
  have hrun := lexemes_blanks hblanks before ahead
  rw [h.run_lexemes] at hrun
  exact (lexemes_ok_iff.mp hrun).1

/-- The same lexeme before more characters. -/
def Reading.extend (r : Reading) (more : List Char) : Reading :=
  { r with left := r.left ++ more }

section Newline

variable (ahead rest : List Char)

theorem span_newline {p : Char → Bool} (hp : p '\n' = false) :
    (ahead ++ '\n' :: rest).takeWhile p = ahead.takeWhile p ∧
      (ahead ++ '\n' :: rest).dropWhile p = ahead.dropWhile p ++ '\n' :: rest := by
  induction ahead with
  | nil => simp [hp]
  | cons c ahead ih =>
    rw [List.cons_append, List.takeWhile_cons, List.takeWhile_cons, List.dropWhile_cons,
      List.dropWhile_cons, ih.1, ih.2]
    cases p c <;> exact ⟨rfl, rfl⟩

theorem head?_newline {d : Char} (hd : d ≠ '\n') :
    (ahead ++ '\n' :: rest).head? = some d ↔ ahead.head? = some d := by
  cases ahead with
  | nil => simp [Ne.symm hd]
  | cons c ahead => rfl

theorem Reading.span_newline {p : Char → Bool} (hp : p '\n' = false) (found : List Char → Found) :
    Reading.span p found (ahead ++ '\n' :: rest) =
      (Reading.span p found ahead).extend ('\n' :: rest) := by
  obtain ⟨htake, hdrop⟩ := Scanner.span_newline ahead rest hp
  rw [Reading.span, Reading.span, htake, hdrop, Reading.extend]

theorem not_isDigit_newline : Text.isDigit '\n' = false := by
  decide +kernel

theorem not_continuesWord_newline : continuesWord '\n' = false := by
  decide +kernel

theorem Reading.number_newline :
    Reading.number (ahead ++ '\n' :: rest) = (Reading.number ahead).extend ('\n' :: rest) := by
  obtain ⟨htake, hdrop⟩ := Scanner.span_newline ahead rest not_isDigit_newline
  rw [Reading.number, Reading.number, htake, hdrop]
  simp only [head?_newline _ rest (d := '.') (by decide)]
  by_cases hpoint : (ahead.dropWhile Text.isDigit).head? = some '.'
  · obtain ⟨left, hleft⟩ := List.head?_eq_some_iff.mp hpoint
    obtain ⟨htake, hdrop⟩ := Scanner.span_newline left rest not_isDigit_newline
    rw [if_pos hpoint, if_pos hpoint, hleft, List.cons_append, List.tail_cons, List.tail_cons,
      htake, hdrop, Reading.extend]
  · rw [if_neg hpoint, if_neg hpoint, Reading.extend]

theorem inside_append {ahead : List Char} (h : (inside ahead).left ≠ []) (more : List Char) :
    inside (ahead ++ more) = { inside ahead with left := (inside ahead).left ++ more } := by
  fun_induction inside ahead with
  | case1 => exact absurd rfl h
  | case2 ahead => exact inside_quote (ahead ++ more)
  | case3 hc => exact absurd rfl h
  | case4 d ahead _ hc ih => rw [List.cons_append, List.cons_append, inside_escape, ih h]
  | case5 c ahead hc hslash _ ih => rw [List.cons_append, inside_plain hc hslash, ih h]

theorem Reading.string_append {before ts} (h : (Reading.string ahead).found.tokens before = .ok ts)
    (more : List Char) : Reading.string (ahead ++ more) = (Reading.string ahead).extend more := by
  cases hleft : (inside ahead).left with
  | nil =>
    rw [Reading.string, hleft] at h
    cases h
  | cons c left =>
    rw [Reading.string, Reading.string, inside_append (by simp [hleft]), hleft]
    rfl

theorem Reading.sign_newline (c : Char) :
    Reading.sign c (ahead ++ '\n' :: rest) = (Reading.sign c ahead).extend ('\n' :: rest) := by
  rw [Reading.sign, Reading.sign]
  split
  · rfl
  · rfl
  · simp only [head?_newline ahead rest (d := '=') (by decide)]
    split
    · split
      · next hnext =>
        obtain ⟨left, rfl⟩ := List.head?_eq_some_iff.mp hnext
        rfl
      · rfl
    · rfl

/-- A lexeme other than blanks is read as it is when a line feed follows. -/
theorem reading_newline {c : Char} (hc : Text.isBlank c ≠ true) {before : List Char}
    {ts : List Token} (h : (reading (c :: ahead)).found.tokens before = .ok ts) :
    reading (c :: ahead ++ '\n' :: rest) = (reading (c :: ahead)).extend ('\n' :: rest) := by
  rw [List.cons_append]
  rw [reading, if_neg hc] at h ⊢
  rw [reading, if_neg hc]
  simp only [head?_newline ahead rest (d := '/') (by decide)]
  rw [← List.cons_append]
  split
  · exact Reading.span_newline _ rest rfl _
  next hcomment =>
  rw [if_neg hcomment] at h
  split
  · exact Reading.span_newline _ rest not_continuesWord_newline _
  next hword =>
  rw [if_neg hword] at h
  split
  · exact Reading.number_newline _ rest
  next hdigit =>
  rw [if_neg hdigit] at h
  split
  · next hquote =>
    rw [if_pos hquote] at h
    exact Reading.string_append ahead h _
  · exact Reading.sign_newline ahead rest c

end Newline

/-- What is read before a line feed is read as if the source ended there, and reading goes on from
the line feed. -/
theorem lexemes_append {before ahead : List Char} {ts : List Token} (h : Lexes before ahead ts)
    (rest : List Char) :
    lexemes.run (between before (ahead ++ '\n' :: rest)) =
      (do return ts ++ (← lexemes)).run (between (before ++ ahead) ('\n' :: rest)) := by
  induction h with
  | nil before => simp only [List.nil_append, List.append_nil, bind_pure]
  | @cons before ahead c ts ts' hts _ ih =>
    rw [append_taken_append_left] at ih
    by_cases hc : Text.isBlank c = true
    · -- blanks are read together with those behind the line feed
      have hall := taken_append_left (c :: ahead)
      rw [reading_blank hc] at hts ih hall
      cases hts
      have hblanks : ∀ d ∈ c :: ahead.takeWhile Text.isBlank, Text.isBlank d = true :=
        List.forall_mem_cons.mpr ⟨hc, fun d => List.mem_takeWhile_imp⟩
      rw [← hall, List.append_assoc, lexemes_blanks hblanks, ih, hall, List.nil_append]
    · have hextend := reading_newline ahead rest hc hts
      have hfound : (reading (c :: (ahead ++ '\n' :: rest))).found.tokens before = .ok ts := by
        rw [← List.cons_append, hextend]
        exact hts
      rw [List.cons_append, lexemes_of_ok hfound, ← List.cons_append, hextend, Reading.extend,
        EStateM.run_bind, ih, ← EStateM.run_bind]
      simp only [bind_assoc, pure_bind, List.append_assoc]

section Joined

variable {first second : List Char} {ts : List Token} (h : Lexes [] first ts)

include h

theorem lexemes_newline (second : List Char) :
    lexemes.run (between [] (first ++ '\n' :: second)) =
      (do return ts ++ (← lexemes)).run (between (first ++ ['\n']) second) := by
  rw [lexemes_append h, EStateM.run_bind, lexemes_blank (by rfl), ← EStateM.run_bind,
    List.nil_append]

/-- A source behind a line feed has the tokens that it has alone, further down. -/
theorem lexemes_newline_of_ok {ts' : List Token} {s : Scanner}
    (h' : lexemes.run (between [] second) = .ok ts' s) :
    lexemes.run (between [] (first ++ '\n' :: second)) =
      .ok (ts ++ ts'.map (Token.lowered (lineAfter first))) (s.behind first) := by
  have hbehind := lexemes_behind first [] second
  rw [h', lowered] at hbehind
  rw [lexemes_newline h, run_bind_of_ok hbehind, EStateM.run_pure]

/-- A source behind a line feed fails as it does alone, further down. -/
theorem lexemes_newline_of_error {fault : Fault} {s : Scanner}
    (h' : lexemes.run (between [] second) = .error fault s) :
    lexemes.run (between [] (first ++ '\n' :: second)) =
      .error (fault.lowered (first.length + 1) (lineAfter first)) (s.behind first) := by
  have hbehind := lexemes_behind first [] second
  rw [h', lowered] at hbehind
  rw [lexemes_newline h, EStateM.run_bind, hbehind]

end Joined

theorem toList_newline (first second : String) :
    (first ++ "\n" ++ second).toList = first.toList ++ '\n' :: second.toList := by
  rw [String.toList_append, String.toList_append, List.append_assoc]
  rfl

theorem run_tokenize_none (source : String) :
    (tokenize none).run (ofSource source) = lexemes.run (between [] source.toList) := by
  rw [← ofSource_eq_between]
  rfl

end Scanner

/-- A source with another one behind a line feed has the tokens of both, those of the second one
further down. -/
theorem Token.ofSource_newline {first second : String} {ts ts' : List Token}
    (h : Token.ofSource first = .ok ts) (h' : Token.ofSource second = .ok ts') :
    Token.ofSource (first ++ "\n" ++ second) =
      .ok (ts ++ ts'.map (Token.lowered (Scanner.lineAfter first.toList))) := by
  rw [Token.ofSource_ok_iff] at h h'
  rw [Token.ofSource, Scanner.ofSource_eq_between, Scanner.toList_newline,
    Scanner.lexemes_newline_of_ok h h'.run_lexemes]

namespace Scanner

/-- Two sources with a line feed between them, of which the first one has tokens, have tokens
exactly if the second one has, and these behind those of the first one. Where the second one fails,
both together fail in the same way. What comes from the second one stands further down by the
characters and the lines of the first one and the line feed, in the same columns. -/
theorem tokenize_newline (first second : String) (ts : List Token) (s : Scanner)
    (h : (tokenize none).run (ofSource first) = .ok ts s) :
    ((∃ us u, (tokenize none).run (ofSource (first ++ "\n" ++ second)) = .ok us u) ↔
      ∃ ts' t, (tokenize none).run (ofSource second) = .ok ts' t) ∧
    (∀ ts' t, (tokenize none).run (ofSource second) = .ok ts' t →
      ∃ u, (tokenize none).run (ofSource (first ++ "\n" ++ second)) =
        .ok (ts ++ ts'.map (Token.lowered (1 + first.toList.count '\n'))) u) ∧
    ∀ fault t, (tokenize none).run (ofSource second) = .error fault t →
      ∃ u, (tokenize none).run (ofSource (first ++ "\n" ++ second)) =
          .error (fault.lowered (first.length + 1) (1 + first.toList.count '\n')) u ∧
        u.position = t.position + (first.length + 1) ∧
        u.line = t.line + (1 + first.toList.count '\n') ∧ u.column = t.column := by
  simp only [run_tokenize_none, toList_newline] at h ⊢
  have hlexes := (lexemes_ok_iff.mp h).1
  have hok := @lexemes_newline_of_ok _ second.toList _ hlexes
  have herror := @lexemes_newline_of_error _ second.toList _ hlexes
  rw [String.length_toList] at herror
  refine ⟨⟨?_, ?_⟩, ?_, ?_⟩
  · rintro ⟨us, u, hus⟩
    cases hsecond : lexemes.run (between [] second.toList) with
    | ok ts' t => exact ⟨ts', t, rfl⟩
    | error fault t =>
      rw [herror hsecond] at hus
      cases hus
  · rintro ⟨ts', t, hsecond⟩
    exact ⟨_, _, hok hsecond⟩
  · intro ts' t hsecond
    exact ⟨_, hok hsecond⟩
  · intro fault t hsecond
    refine ⟨t.behind first.toList, herror hsecond, ?_, rfl, rfl⟩
    rw [behind, String.length_toList]

/-- The fault that reading ends with. -/
def faultOf? : EStateM.Result Fault Scanner (List Token) → Option Fault
  | .ok .. => none
  | .error fault _ => some fault

theorem exists_ok_of_faultOf? {r : EStateM.Result Fault Scanner (List Token)}
    (h : faultOf? r = none) : ∃ ts s, r = .ok ts s := by
  cases r with
  | ok ts s => exact ⟨ts, s, rfl⟩
  | error fault s => cases h

theorem exists_error_of_faultOf? {r : EStateM.Result Fault Scanner (List Token)} {fault : Fault}
    (h : faultOf? r = some fault) : ∃ s, r = .error fault s := by
  cases r with
  | ok ts s => cases h
  | error fault s =>
    cases h
    exact ⟨s, rfl⟩

/-- A comment ends with its line, and a line feed in a string literal counts. -/
theorem tokenize_newline_comment :
    ∃ ts s t u, (tokenize none).run (ofSource "x = \"a\nb\" // c") = .ok ts s ∧
      (tokenize none).run (ofSource "( @") = .error (.unrecognized '@' 2 1 3) t ∧
      (tokenize none).run (ofSource ("x = \"a\nb\" // c" ++ "\n" ++ "( @")) =
        .error (.unrecognized '@' 17 3 3) u ∧
      u.position = t.position + 15 ∧ u.line = t.line + 2 ∧ u.column = t.column := by
  have hfirst : faultOf? ((tokenize none).run (ofSource "x = \"a\nb\" // c")) = none := by
    decide +kernel
  have hsecond : faultOf? ((tokenize none).run (ofSource "( @")) =
      some (.unrecognized '@' 2 1 3) := by
    decide +kernel
  obtain ⟨ts, s, hfirst⟩ := exists_ok_of_faultOf? hfirst
  obtain ⟨t, hsecond⟩ := exists_error_of_faultOf? hsecond
  obtain ⟨u, hu⟩ := (tokenize_newline _ "( @" ts s hfirst).2.2 _ t hsecond
  exact ⟨ts, s, t, u, hfirst, hsecond, hu⟩

end Scanner

end Scriptlet
