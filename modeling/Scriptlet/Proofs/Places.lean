import Scriptlet.Proofs.Lexing

/-! Where a scanner stands. Whatever is asked of a scanner, in any order and however it ends, the
held character, the line and the column are those of the position, also behind the end of the
source. So a character that begins no lexeme is reported where it stands. -/
namespace Scriptlet

/-- The index of the first character of the line that the characters end in: none of those behind
it is a line feed, and it is zero or stands right behind one. -/
def BeginsLine (chars : List Char) (start : Nat) : Prop :=
  '\n' ∉ chars.drop start ∧ (start = 0 ∨ chars[start - 1]? = some '\n')

/-- The line and the column of a position, both counted from one. -/
structure IsPlace (source : List Char) (position line column : Nat) : Prop where
  line : line = 1 + (source.take position).count '\n'
  column : ∃ start, BeginsLine (source.take position) start ∧ column = position - start + 1

section Place

variable {source chars : List Char} {position line column start : Nat}

theorem BeginsLine.le_length (h : BeginsLine chars start) : start ≤ chars.length := by
  rcases h.2 with rfl | hnewline
  · exact Nat.zero_le _
  · obtain ⟨hlt, -⟩ := List.getElem?_eq_some_iff.mp hnewline
    omega

/-- The same line goes on with any character but a line feed. -/
theorem BeginsLine.snoc (h : BeginsLine chars start) {c : Char} (hc : c ≠ '\n') :
    BeginsLine (chars ++ [c]) start := by
  have hle := h.le_length
  constructor
  · rw [List.drop_append_of_le_length hle, List.mem_append, List.mem_singleton, not_or]
    exact ⟨h.1, Ne.symm hc⟩
  · refine h.2.imp_right fun hnewline => ?_
    rw [List.getElem?_append_left (List.getElem?_eq_some_iff.mp hnewline).1]
    exact hnewline

theorem BeginsLine.newline (chars : List Char) :
    BeginsLine (chars ++ ['\n']) (chars.length + 1) := by
  constructor
  · rw [List.drop_of_length_le (by rw [List.length_append, List.length_singleton])]
    exact List.not_mem_nil
  · right
    rw [Nat.add_sub_cancel, List.getElem?_append_right (Nat.le_refl _), Nat.sub_self]
    rfl

theorem isPlace_zero (source : List Char) : IsPlace source 0 1 1 := by
  refine ⟨rfl, 0, ⟨?_, .inl rfl⟩, rfl⟩
  rw [List.take_zero, List.drop_nil]
  exact List.not_mem_nil

theorem take_succ_of_getElem? {c : Char} (hc : source[position]? = some c) :
    source.take (position + 1) = source.take position ++ [c] := by
  rw [List.take_add_one, hc, Option.toList_some]

/-- Behind a line feed the next line begins. -/
theorem IsPlace.newline (h : IsPlace source position line column)
    (hc : source[position]? = some '\n') : IsPlace source (position + 1) (line + 1) 1 := by
  obtain ⟨hlt, -⟩ := List.getElem?_eq_some_iff.mp hc
  have hbegins := BeginsLine.newline (source.take position)
  rw [List.length_take_of_le (Nat.le_of_lt hlt)] at hbegins
  refine ⟨?_, position + 1, ?_, by rw [Nat.sub_self]⟩
  · rw [take_succ_of_getElem? hc, List.count_append, h.line]
    rfl
  · rw [take_succ_of_getElem? hc]
    exact hbegins

/-- Behind any other character, and behind the end of the source, the line goes on. -/
theorem IsPlace.next (h : IsPlace source position line column)
    (hc : source[position]? ≠ some '\n') :
    IsPlace source (position + 1) line (column + 1) := by
  obtain ⟨start, hbegins, hcolumn⟩ := h.column
  have hstart : start ≤ position :=
    Nat.le_trans hbegins.le_length (List.length_take_le position source)
  have hcolumn' : column + 1 = position + 1 - start + 1 := by omega
  cases hnext : source[position]? with
  | none =>
    have hlength : source.length ≤ position := List.getElem?_eq_none_iff.mp hnext
    have htake : source.take (position + 1) = source.take position := by
      rw [List.take_of_length_le hlength, List.take_of_length_le (Nat.le_succ_of_le hlength)]
    refine ⟨?_, start, ?_, hcolumn'⟩
    · rw [htake]
      exact h.line
    · rw [htake]
      exact hbegins
  | some c =>
    have hne : c ≠ '\n' := fun hnewline => hc (hnext.trans (congrArg some hnewline))
    refine ⟨?_, start, ?_, hcolumn'⟩
    · rw [take_succ_of_getElem? hnext, List.count_append, List.count_singleton, h.line,
        if_neg (by simpa using hne), Nat.add_zero]
    · rw [take_succ_of_getElem? hnext]
      exact hbegins.snoc hne

end Place

namespace Scanner

variable {α β : Type} {s : Scanner}

/-- A scanner that knows where it stands: at a position of the source or behind its end, with the
character there and its line and column. -/
def Placed (s : Scanner) : Prop :=
  ∃ position : Nat, s.position = position ∧ s.current = s.source[position]? ∧
    IsPlace s.source.toList position s.line s.column

theorem placed_ofSource (source : String) : (ofSource source).Placed :=
  ⟨0, rfl, rfl, isPlace_zero _⟩

/-- One step further a scanner knows where it stands, also behind the end of the source. -/
theorem Placed.advance (hs : s.Placed) : ∃ t, Scanner.advance.run s = .ok () t ∧ t.Placed := by
  obtain ⟨position, hposition, hcurrent, hplace⟩ := hs
  have hstepped : s.stepped.position = (position + 1 : Nat) := by
    rw [position_stepped, hposition]
    rfl
  have hchar : s.stepped.charAt s.stepped.position = .ok s.source[position + 1]? := by
    rw [hstepped, charAt_natCast, source_stepped]
  have hnext : IsPlace s.source.toList (position + 1) s.stepped.line s.stepped.column := by
    have hheld : s.source.toList[position]? = s.current := by
      rw [hcurrent, Array.getElem?_toList]
    rw [stepped]
    split
    · next hnewline => exact hplace.newline (hheld.trans hnewline)
    · next hother => exact hplace.next (hheld ▸ hother)
  refine ⟨{ s.stepped with current := s.source[position + 1]? }, ?_, position + 1, hstepped, ?_, ?_⟩
  · rw [EStateM.run, Scanner.advance, hchar]
  · rw [source_stepped]
  · rw [source_stepped]
    exact hnext

end Scanner

/-- Whether a fault that tells a place tells that of the scanner and the character that it holds. -/
def Fault.PointsAt (s : Scanner) : Fault → Prop
  | .unrecognized c position line column =>
    s.current = some c ∧ position = s.position ∧ line = s.line ∧ column = s.column
  | _ => True

theorem Decimal.pointsAt_of_readInteger {text : String} {fault : Fault}
    (h : readInteger text = .error fault) (s : Scanner) : fault.PointsAt s := by
  obtain rfl | ⟨count, rfl⟩ := readInteger_error h
  · trivial
  · trivial

theorem Decimal.pointsAt_of_readFloat {text : String} {fault : Fault}
    (h : readFloat text = .error fault) (s : Scanner) : fault.PointsAt s := by
  obtain rfl := readFloat_error h
  trivial

namespace Scanner

/-- The step leaves a scanner that knows where it stands, and a fault tells the place where it
does. -/
structure Guides (x : Scan α) (s : Scanner) : Prop where
  ends : match x.run s with
    | .ok _ t => t.Placed
    | .error fault t => t.Placed ∧ fault.PointsAt t

namespace Guides

theorem pure (hs : s.Placed) (a : α) : Guides (pure a) s := ⟨hs⟩

theorem throw (hs : s.Placed) {fault : Fault} (h : fault.PointsAt s) :
    Guides (throw fault : Scan α) s :=
  ⟨hs, h⟩

theorem lift (hs : s.Placed) {x : Except Fault α}
    (h : ∀ fault, x = .error fault → fault.PointsAt s) : Guides (liftM x : Scan α) s := by
  cases x with
  | ok a => exact ⟨hs⟩
  | error fault => exact ⟨hs, h fault rfl⟩

/-- A plain result leaves the scanner where it is. -/
theorem lift_bind (hs : s.Placed) {x : Except Fault α} {f : α → Scan β}
    (h : ∀ fault, x = .error fault → fault.PointsAt s) (hf : ∀ a, Guides (f a) s) :
    Guides (liftM x >>= f) s := by
  cases x with
  | ok a => exact ⟨(hf a).ends⟩
  | error fault => exact ⟨hs, h fault rfl⟩

theorem bind {x : Scan α} {f : α → Scan β} (hx : Guides x s)
    (hf : ∀ a t, t.Placed → Guides (f a) t) : Guides (x >>= f) s := by
  have hends := hx.ends
  constructor
  rw [EStateM.run_bind]
  cases hr : x.run s with
  | ok a t =>
    rw [hr] at hends
    exact (hf a t hends).ends
  | error fault t =>
    rw [hr] at hends
    exact hends

theorem get {f : Scanner → Scan α} (h : Guides (f s) s) : Guides (get >>= f) s := ⟨h.ends⟩

theorem put {t : Scanner} {x : Scan α} (h : Guides x t) : Guides (do set t; x) s := ⟨h.ends⟩

theorem advance (hs : s.Placed) : Guides advance s := by
  obtain ⟨t, hrun, ht⟩ := hs.advance
  constructor
  rw [hrun]
  exact ht

theorem collectWhile {more : Scanner → Bool} {step : Scan α}
    (hstep : ∀ t, t.Placed → Guides step t) (rounds : Nat) (hs : s.Placed) :
    Guides (collectWhile more step rounds) s := by
  induction rounds generalizing s with
  | zero => exact pure hs []
  | succ rounds ih =>
    refine get ?_
    split
    · exact bind (hstep s hs) fun first t ht => bind (ih ht) fun rest u hu => pure hu _
    · exact pure hs []

theorem shift (hs : s.Placed) : Guides shift s :=
  get (bind (advance hs) fun _ _ ht => pure ht _)

theorem takeWhile (p : Char → Bool) (hs : s.Placed) : Guides (takeWhile p) s :=
  get (bind (collectWhile (fun _ => shift) _ hs) fun _ _ ht => pure ht _)

theorem skipBlanks (hs : s.Placed) : Guides skipBlanks s :=
  bind (takeWhile _ hs) fun _ _ ht => pure ht _

theorem skipComment (hs : s.Placed) : Guides skipComment s :=
  bind (takeWhile _ hs) fun _ _ ht => pure ht _

theorem word (hs : s.Placed) : Guides word s :=
  bind (takeWhile _ hs) fun _ _ ht => pure ht _

theorem number (hs : s.Placed) : Guides number s := by
  refine bind (takeWhile _ hs) fun whole t ht => get ?_
  split
  · refine bind (shift ht) fun point u hu => bind (takeWhile _ hu) fun fraction v hv => ?_
    exact bind (lift hv fun _ h => Decimal.pointsAt_of_readFloat h v) fun _ _ hw => pure hw _
  · exact bind (lift ht fun _ h => Decimal.pointsAt_of_readInteger h t) fun _ _ hu => pure hu _

theorem stringChar (hs : s.Placed) : Guides stringChar s := by
  refine get ?_
  split
  · exact bind (advance hs) fun _ _ ht => bind (shift ht) fun _ _ hu => pure hu _
  · exact shift hs

theorem string (hs : s.Placed) : Guides string s := by
  refine bind (advance hs) fun _ t ht => get ?_
  refine bind (collectWhile (fun _ => stringChar) _ ht) fun chars u hu => get ?_
  split
  · exact bind (advance hu) fun _ _ hv => pure hv _
  · exact throw hu trivial

/-- Only a held character that is no sign is reported. -/
theorem sign {c : Char} (hs : s.Placed) (hc : s.current = some c) : Guides (sign c) s := by
  refine get ?_
  split
  · exact bind (advance hs) fun _ _ ht => pure ht _
  · exact bind (advance hs) fun _ _ ht => pure ht _
  · split
    · refine bind (advance hs) fun _ t ht => get ?_
      split
      · exact bind (advance ht) fun _ _ hu => pure hu _
      · exact pure ht _
    · exact throw hs ⟨hc, rfl, rfl, rfl⟩

theorem beginsComment {fault : Fault} (h : s.beginsComment = .error fault) :
    fault.PointsAt s := by
  rw [Scanner.beginsComment] at h
  split at h
  · cases hchar : s.charAt (s.position + 1) with
    | ok c =>
      rw [hchar] at h
      cases h
    | error other =>
      rw [hchar] at h
      cases h
      rw [charAt] at hchar
      split at hchar
      · cases hchar
      · split at hchar
        · cases hchar
        · cases hchar
          trivial
  · cases h

theorem lexeme (hs : s.Placed) : Guides lexeme s := by
  refine get ?_
  cases hc : s.current with
  | none => exact pure hs []
  | some c =>
    simp only
    split
    · exact bind (skipBlanks hs) fun _ _ ht => pure ht _
    refine lift_bind hs (fun _ => beginsComment) fun comment => ?_
    split
    · exact bind (advance hs) fun _ _ ht => bind (advance ht) fun _ _ hu =>
        bind (skipComment hu) fun _ _ hv => pure hv _
    split
    · exact bind (word hs) fun _ _ ht => pure ht _
    split
    · exact bind (number hs) fun _ _ ht => pure ht _
    split
    · exact bind (string hs) fun _ _ ht => pure ht _
    · exact bind (sign hs hc) fun _ _ ht => pure ht _

theorem lexemes (hs : s.Placed) : Guides lexemes s :=
  get (bind (collectWhile (fun _ => lexeme) _ hs) fun _ _ ht => pure ht _)

theorem tokenize (source : Option String) (hs : s.Placed) : Guides (tokenize source) s := by
  cases source with
  | none => exact lexemes hs
  | some text =>
    by_cases htext : text = ""
    · have hsame : Scanner.tokenize (some text) = Scanner.lexemes := by
        rw [Scanner.tokenize, if_neg (not_not.mpr htext)]
      rw [hsame]
      exact lexemes hs
    · have hentered : Scanner.tokenize (some text) = (do set (ofSource text); Scanner.lexemes) := by
        rw [Scanner.tokenize, if_pos htext]
      rw [hentered]
      exact put (lexemes (placed_ofSource text))

end Guides

/-- What may be asked of a scanner. -/
inductive Call where
  | advance
  | skipBlanks
  | skipComment
  | word
  | number
  | string
  | tokenize (source : Option String)

/-- The step that a call takes. -/
def Call.step : Call → Scan Unit
  | .advance => Scanner.advance
  | .skipBlanks => Scanner.skipBlanks
  | .skipComment => Scanner.skipComment
  | .word => do let _ ← Scanner.word
  | .number => do let _ ← Scanner.number
  | .string => do let _ ← Scanner.string
  | .tokenize source => do let _ ← Scanner.tokenize source

/-- The scanner behind the calls, however each of them ends. -/
def after (calls : List Call) (s : Scanner) : Scanner :=
  calls.foldl (fun s call => stateOf (call.step.run s)) s

theorem Call.guides (call : Call) (hs : s.Placed) : Guides call.step s := by
  cases call with
  | advance => exact .advance hs
  | skipBlanks => exact .skipBlanks hs
  | skipComment => exact .skipComment hs
  | word => exact .bind (.word hs) fun _ _ ht => .pure ht _
  | number => exact .bind (.number hs) fun _ _ ht => .pure ht _
  | string => exact .bind (.string hs) fun _ _ ht => .pure ht _
  | tokenize source => exact .bind (.tokenize source hs) fun _ _ ht => .pure ht _

theorem Guides.placed {x : Scan α} (h : Guides x s) : (stateOf (x.run s)).Placed := by
  have hends := h.ends
  cases hr : x.run s with
  | ok a t =>
    rw [hr] at hends
    exact hends
  | error fault t =>
    rw [hr] at hends
    exact hends.1

theorem Placed.after (hs : s.Placed) (calls : List Call) : (after calls s).Placed := by
  induction calls generalizing s with
  | nil => exact hs
  | cons call calls ih => exact ih (call.guides hs).placed

/-- After any calls, in any order and however each of them has ended, a scanner holds the character
at its position, or none behind the end of the source, and its line and column are those of the
position. A character that the next call reports stands where the message tells. -/
theorem placed_after_calls (source : String) (calls : List Call) :
    (after calls (ofSource source)).Placed ∧
      ∀ (call : Call) (c : Char) (position : Int) (line column : Nat) (t : Scanner),
        call.step.run (after calls (ofSource source)) =
            .error (.unrecognized c position line column) t →
          ∃ n : Nat, position = n ∧ t.source[n]? = some c ∧
            IsPlace t.source.toList n line column ∧
            (Fault.unrecognized c position line column).message =
              s!"Unrecognized character: '{c}' at position {n}, line {line}, column {column}" := by
  have hplaced := (placed_ofSource source).after calls
  refine ⟨hplaced, fun call c position line column t hrun => ?_⟩
  have hends := (call.guides hplaced).ends
  rw [hrun] at hends
  obtain ⟨⟨n, hposition, hcurrent, hplace⟩, hc, rfl, rfl, rfl⟩ := hends
  refine ⟨n, hposition, hcurrent.symm.trans hc, hplace, ?_⟩
  rw [hposition]
  rfl

/-- Behind a string literal that is never closed, a step over the end and a number that is none, a
character is reported in the second line of another source. -/
theorem placed_after_calls_unclosed :
    ∃ (t : Scanner) (n : Nat),
      (Call.tokenize (some "\"a\nb\" @")).step.run
          (after [.tokenize (some "\n\"a"), .advance, .number] (ofSource "x")) =
        .error (.unrecognized '@' 6 2 4) t ∧
      (6 : Int) = n ∧ t.source[n]? = some '@' ∧ IsPlace t.source.toList n 2 4 := by
  have hfault : resultOf ((Call.tokenize (some "\"a\nb\" @")).step.run
      (after [.tokenize (some "\n\"a"), .advance, .number] (ofSource "x"))) =
        .error (.unrecognized '@' 6 2 4) := by
    decide +kernel
  have hrun := eq_error_of_resultOf hfault
  obtain ⟨n, hn, hchar, hplace, -⟩ := (placed_after_calls _ _).2 _ _ _ _ _ _ hrun
  exact ⟨_, n, hrun, hn, hchar, hplace⟩

end Scanner

end Scriptlet
