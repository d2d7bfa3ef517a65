import Scriptlet.Proofs.Step
import Scriptlet.Token.Scanner

/-! What the scanner reads, as equations on lists of characters. A scanner that no one has moved
from outside is determined by the characters before it and those ahead of it, and every step of
reading takes characters from the one list to the other. -/
namespace Scriptlet.Scanner

/-- The line behind the given characters. -/
def lineAfter (before : List Char) : Nat :=
  1 + before.count '\n'

/-- The column behind the given characters. -/
def columnAfter (before : List Char) : Nat :=
  1 + (before.reverse.takeWhile (· != '\n')).length

/-- The scanner between the characters that it has read and those ahead of it. -/
def between (before ahead : List Char) : Scanner where
  source := (before ++ ahead).toArray
  position := before.length
  line := lineAfter before
  column := columnAfter before
  current := ahead.head?
  tokens := []

@[simp] theorem source_stepped (s : Scanner) : s.stepped.source = s.source := by
  unfold stepped
  split <;> rfl

@[simp] theorem position_stepped (s : Scanner) : s.stepped.position = s.position + 1 := by
  unfold stepped
  split <;> rfl

@[simp] theorem current_stepped (s : Scanner) : s.stepped.current = s.current := by
  unfold stepped
  split <;> rfl

variable (before ahead : List Char)

theorem ofSource_eq_between (source : String) : ofSource source = between [] source.toList := by
  simp [ofSource, between, lineAfter, columnAfter, List.head?_eq_getElem?]

@[simp] theorem current_between : (between before ahead).current = ahead.head? := rfl

theorem stepped_between (c : Char) : (between before (c :: ahead)).stepped =
    { between (before ++ [c]) ahead with current := some c } := by
  by_cases h : c = '\n'
  · simp [stepped, between, h, lineAfter, columnAfter, Nat.add_assoc]
  · simp [stepped, between, h, lineAfter, columnAfter, Nat.add_comm]

theorem charAt_natCast (s : Scanner) (n : Nat) : s.charAt n = .ok s.source[n]? := by
  rw [charAt, if_pos (Int.natCast_nonneg n), Int.toNat_natCast]

theorem run_advance (c : Char) :
    advance.run (between before (c :: ahead)) = .ok () (between (before ++ [c]) ahead) := by
  have hchar : (between before (c :: ahead)).stepped.charAt (before ++ [c]).length =
      .ok ahead.head? := by
    rw [charAt_natCast, stepped_between]
    simp [between, List.head?_eq_getElem?, List.getElem?_append_right]
  have hposition : (between before (c :: ahead)).stepped.position = (before ++ [c]).length := by
    rw [stepped_between]
    rfl
  simp only [EStateM.run, advance, hposition, hchar]
  rw [stepped_between]
  rfl

theorem run_shift (c : Char) :
    shift.run (between before (c :: ahead)) = .ok [c] (between (before ++ [c]) ahead) := by
  rw [shift, run_get_bind, run_bind_of_ok (run_advance before ahead c)]
  rfl

theorem size_between : (between before ahead).source.size = before.length + ahead.length := by
  rw [between, List.size_toArray, List.length_append]

theorem position_lt_size (c d : Char) :
    (between before (c :: d :: ahead)).position + 1 <
      (between before (c :: d :: ahead)).source.size := by
  rw [size_between, List.length_cons, List.length_cons]
  change (before.length : Int) + 1 < _
  omega

theorem togo_between (c : Char) : (between before (c :: ahead)).togo = ahead.length + 2 := by
  have hcurrent : (between before (c :: ahead)).current.isSome = true := rfl
  rw [togo, if_pos hcurrent, size_between, List.length_cons]
  change (_ - (before.length : Int)).toNat + 1 = _
  omega

theorem length_le_togo : ahead.length ≤ (between before ahead).togo := by
  cases ahead with
  | nil => exact Nat.zero_le _
  | cons c ahead =>
    rw [togo_between, List.length_cons]
    omega

/-- A run of characters of a class is read to its end. -/
theorem run_takeWhile (p : Char → Bool) :
    (takeWhile p).run (between before ahead) =
      .ok (ahead.takeWhile p) (between (before ++ ahead.takeWhile p) (ahead.dropWhile p)) := by
  have hloop : ∀ rounds before, ahead.length ≤ rounds →
      (collectWhile (holds p) shift rounds).run (between before ahead) =
        .ok ((ahead.takeWhile p).map fun c => [c])
          (between (before ++ ahead.takeWhile p) (ahead.dropWhile p)) := by
    induction ahead with
    | nil =>
      intro rounds before _
      rw [collectWhile_stop rfl]
      simp
    | cons c ahead ih =>
      intro rounds before hrounds
      cases hp : p c with
      | false =>
        rw [collectWhile_stop (by simp [holds, hp])]
        simp [hp]
      | true =>
        obtain ⟨rounds, rfl⟩ : ∃ n, rounds = n + 1 := ⟨rounds - 1, by simp at hrounds; omega⟩
        rw [collectWhile_round (by simp [holds, hp]), run_bind_of_ok (run_shift before ahead c),
          run_bind_of_ok (ih rounds _ (by simpa using hrounds)), EStateM.run_pure]
        simp [hp]
  rw [takeWhile, run_get_bind, run_bind_of_ok (hloop _ before (length_le_togo before ahead)),
    EStateM.run_pure]
  simp [← List.flatMap_def]

theorem run_word :
    word.run (between before ahead) =
      .ok (Token.ofWord (String.ofList (ahead.takeWhile continuesWord)))
        (between (before ++ ahead.takeWhile continuesWord) (ahead.dropWhile continuesWord)) := by
  rw [word, run_bind_of_ok (run_takeWhile before ahead continuesWord), EStateM.run_pure]

theorem run_number_integer {z : Int}
    (hpoint : (ahead.dropWhile Text.isDigit).head? ≠ some '.')
    (hz : Decimal.readInteger (String.ofList (ahead.takeWhile Text.isDigit)) = .ok z) :
    number.run (between before ahead) = .ok (Token.plain .number (.int z))
      (between (before ++ ahead.takeWhile Text.isDigit) (ahead.dropWhile Text.isDigit)) := by
  rw [number, run_bind_of_ok (run_takeWhile before ahead Text.isDigit), run_get_bind,
    if_neg (by exact hpoint), hz, run_bind_of_ok (run_lift_ok z _), EStateM.run_pure]

theorem run_stringChar_plain {c : Char} (hc : c ≠ '\\') :
    stringChar.run (between before (c :: ahead)) = .ok [c] (between (before ++ [c]) ahead) := by
  rw [stringChar, run_get_bind, if_neg (by simp [hc])]
  exact run_shift before ahead c

theorem run_stringChar_escape (c : Char) :
    stringChar.run (between before ('\\' :: c :: ahead)) =
      .ok [escaped c] (between (before ++ ['\\', c]) ahead) := by
  have hinside : ((between before ('\\' :: c :: ahead)).current = some '\\' &&
      (between before ('\\' :: c :: ahead)).position + 1 <
        (between before ('\\' :: c :: ahead)).source.size) = true :=
    Bool.and_eq_true_iff.mpr
      ⟨decide_eq_true rfl, decide_eq_true (position_lt_size before ahead _ c)⟩
  rw [stringChar, run_get_bind, if_pos hinside, run_bind_of_ok (run_advance before _ '\\'),
    run_bind_of_ok (run_shift _ ahead c), EStateM.run_pure]
  simp

theorem run_bracket {c : Char} {kind : Token.Kind} (hc : Token.brackets.lookup c = some kind) :
    (sign c).run (between before (c :: ahead)) =
      .ok (Token.placed kind (.str c.toString) (lineAfter before) (columnAfter before))
        (between (before ++ [c]) ahead) := by
  rw [sign, run_get_bind]
  simp only [hc]
  rw [run_bind_of_ok (run_advance before ahead c), EStateM.run_pure]
  rfl

theorem run_sign {c : Char} {kind : Token.Kind} (hb : Token.brackets.lookup c = none)
    (hc : Token.signs.lookup c = some kind) :
    (sign c).run (between before (c :: ahead)) =
      .ok (Token.plain kind (.str c.toString)) (between (before ++ [c]) ahead) := by
  rw [sign, run_get_bind]
  simp only [hb, hc]
  rw [run_bind_of_ok (run_advance before ahead c), EStateM.run_pure]

theorem run_sign_assign (h : ahead.head? ≠ some '=') :
    (sign '=').run (between before ('=' :: ahead)) =
      .ok (Token.plain .assign (.str "=")) (between (before ++ ['=']) ahead) := by
  rw [sign, run_get_bind]
  change (do advance; if (← get).current = some '=' then _ else _ : Scan Token).run _ = _
  rw [run_bind_of_ok (run_advance before ahead '='), run_get_bind, if_neg (by exact h),
    EStateM.run_pure]

theorem run_sign_equals :
    (sign '=').run (between before ('=' :: '=' :: ahead)) =
      .ok (Token.plain .equals (.str "==")) (between (before ++ ['=', '=']) ahead) := by
  rw [sign, run_get_bind]
  change (do advance; if (← get).current = some '=' then _ else _ : Scan Token).run _ = _
  rw [run_bind_of_ok (run_advance before _ '='), run_get_bind, if_pos (by rfl),
    run_bind_of_ok (run_advance _ ahead '='), EStateM.run_pure]
  simp

theorem beginsComment_between (c : Char) :
    (between before (c :: ahead)).beginsComment =
      .ok (decide (c = '/') && decide (ahead.head? = some '/')) := by
  have hnext : (between before (c :: ahead)).charAt ((between before (c :: ahead)).position + 1) =
      .ok ahead.head? := by
    have := charAt_natCast (between before (c :: ahead)) (before.length + 1)
    simpa [between, List.head?_eq_getElem?, List.getElem?_append_right] using this
  rw [beginsComment, hnext]
  cases ahead with
  | nil => simp [between]; rfl
  | cons d ahead =>
    by_cases hc : c = '/'
    · have hinside : ((between before (c :: d :: ahead)).current = some '/' &&
          (between before (c :: d :: ahead)).position + 1 <
            (between before (c :: d :: ahead)).source.size) = true :=
        Bool.and_eq_true_iff.mpr
          ⟨decide_eq_true (congrArg some hc), decide_eq_true (position_lt_size before ahead c d)⟩
      rw [if_pos hinside, hc]
      rfl
    · simp [hc]
      rfl

section Lexeme

variable {before ahead}

theorem run_lexeme_blank {c : Char} (hc : Text.isBlank c = true) :
    lexeme.run (between before (c :: ahead)) =
      .ok [] (between (before ++ (c :: ahead).takeWhile Text.isBlank)
        ((c :: ahead).dropWhile Text.isBlank)) := by
  rw [lexeme, run_get_bind]
  simp only [current_between, List.head?_cons, hc, if_true]
  rw [skipBlanks, bind_assoc, run_bind_of_ok (run_takeWhile before _ Text.isBlank)]
  rfl

/-- Behind blanks and comments the first character tells which rule reads a token. -/
theorem run_lexeme_token {c : Char} {token : Token} {s : Scanner}
    (hblank : Text.isBlank c = false) (hcomment : c = '/' → ahead.head? ≠ some '/')
    (h : (if beginsWord c then word else if Text.isDigit c then number
      else if c = Text.doubleQuote then string else sign c).run (between before (c :: ahead)) =
        .ok token s) :
    lexeme.run (between before (c :: ahead)) = .ok [token] s := by
  have hnone : (decide (c = '/') && decide (ahead.head? = some '/')) = false := by
    simpa using hcomment
  rw [lexeme, run_get_bind]
  simp only [current_between, List.head?_cons, hblank, Bool.false_eq_true, if_false]
  rw [beginsComment_between, hnone, run_bind_of_ok (run_lift_ok false _),
    if_neg Bool.false_ne_true]
  split at h
  · next hw => rw [if_pos hw, run_bind_of_ok h]; rfl
  · next hw =>
    rw [if_neg hw]
    split at h
    · next hd => rw [if_pos hd, run_bind_of_ok h]; rfl
    · next hd =>
      rw [if_neg hd]
      split at h
      · next hq => rw [if_pos hq, run_bind_of_ok h]; rfl
      · next hq => rw [if_neg hq, run_bind_of_ok h]; rfl

end Lexeme

end Scriptlet.Scanner
