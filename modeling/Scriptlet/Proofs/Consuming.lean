import Scriptlet.Proofs.History
import Scriptlet.Proofs.Joining
import Scriptlet.Proofs.Places

/-! Reading goes forward from every scanner, also from one whose position was set from outside, so
that it lies before the start of the source or does not fit the held character. Every turn of a
loop over characters takes one, and a lexeme takes one or is refused on the spot. So no loop of the
reader goes on forever, and one that succeeds has read its source to the end. -/
namespace Scriptlet

namespace Scanner

variable {α β : Type} {s t u : Scanner}

/-- Whatever index is asked for, a character is found exactly before the end of the source. -/
theorem isSome_charAt {index : Int} {c : Option Char} (h : s.charAt index = .ok c) :
    c.isSome = true ↔ index < s.source.size := by
  unfold charAt at h
  split at h
  · cases h
    rw [Option.isSome_iff_ne_none, Ne, Array.getElem?_eq_none_iff]
    omega
  split at h
  · cases h
    rw [Option.isSome_iff_ne_none, Ne, Array.getElem?_eq_none_iff]
    omega
  · cases h

theorem charAt_error {index : Int} {fault : Fault} (h : s.charAt index = .error fault) :
    index < 0 := by
  unfold charAt at h
  split at h
  · cases h
  · omega

/-- Only behind the end of the source is no character held. -/
def HoldsToEnd (s : Scanner) : Prop :=
  s.current = none → s.source.size ≤ s.position

/-- The second scanner stands further on in the source of the first, and is not left with a
character behind the end. -/
structure Further (s t : Scanner) : Prop where
  source : t.source = s.source
  position : s.position < t.position
  inside : t.current.isSome = true → t.position < t.source.size
  holdsToEnd : s.HoldsToEnd → t.HoldsToEnd

theorem Further.trans (hst : s.Further t) (htu : t.Further u) : s.Further u where
  source := htu.source.trans hst.source
  position := Int.lt_trans hst.position htu.position
  inside := htu.inside
  holdsToEnd := fun hs => htu.holdsToEnd (hst.holdsToEnd hs)

/-- Also a step that finds no index in the source has gone forward. -/
theorem further_advance (s : Scanner) : s.Further (stateOf (advance.run s)) := by
  have hlt : s.position < s.stepped.position := by
    rw [position_stepped]
    omega
  rw [EStateM.run, advance]
  cases hchar : s.stepped.charAt s.stepped.position with
  | ok c =>
    have hfound := isSome_charAt hchar
    refine ⟨source_stepped s, hlt, hfound.mp, fun _ hnone => ?_⟩
    change c = none at hnone
    subst hnone
    exact Int.not_lt.mp fun hinside => Bool.false_ne_true (hfound.mpr hinside)
  | error fault =>
    -- only an index before the source is refused, and the held character is then the old one
    have hnegative := charAt_error hchar
    refine ⟨source_stepped s, hlt, fun _ => ?_, fun hs hnone => ?_⟩
    · change s.stepped.position < s.stepped.source.size
      omega
    · have hend := hs ((current_stepped s).symm.trans hnone)
      omega

section Keeping

variable {I : Scanner → Prop} (h : Maintains I advance)
include h

theorem maintains_shift : Maintains I shift :=
  .get fun _ => h.bind fun _ => .pure _

theorem maintains_takeWhile (p : Char → Bool) : Maintains I (takeWhile p) :=
  .get fun s =>
    (Maintains.collectWhile (fun _ _ ht => maintains_shift h ht) s.togo).bind fun _ => .pure _

theorem maintains_skipBlanks : Maintains I skipBlanks :=
  (maintains_takeWhile h _).bind fun _ => .pure _

theorem maintains_skipComment : Maintains I skipComment :=
  (maintains_takeWhile h _).bind fun _ => .pure _

theorem maintains_word : Maintains I word :=
  (maintains_takeWhile h _).bind fun _ => .pure _

/-- What holds behind the digits holds behind the number. -/
theorem number_keeps (hs : I (stateOf ((takeWhile Text.isDigit).run s))) :
    I (stateOf (number.run s)) := by
  refine stateOf_bind hs fun whole => .get fun t => ?_
  split
  · exact (maintains_shift h).bind fun _ => (maintains_takeWhile h _).bind fun _ =>
      (Maintains.lift _).bind fun _ => .pure _
  · exact (Maintains.lift _).bind fun _ => .pure _

theorem maintains_stringChar : Maintains I stringChar := by
  refine .get fun s => ?_
  split
  · exact h.bind fun _ => (maintains_shift h).bind fun _ => .pure _
  · exact maintains_shift h

/-- What holds behind the opening quote holds behind the literal. -/
theorem string_keeps (hs : I (stateOf (advance.run s))) : I (stateOf (string.run s)) := by
  refine stateOf_bind hs fun _ => .get fun t => ?_
  refine (Maintains.collectWhile (fun _ _ hu => maintains_stringChar h hu) t.togo).bind fun _ => ?_
  refine .get fun u => ?_
  split
  · exact h.bind fun _ => .pure _
  · exact .throw _

end Keeping

/-- What is further on stays so. -/
theorem maintains_further (s : Scanner) : Maintains s.Further advance :=
  fun t ht => ht.trans (further_advance t)

theorem further_shift (s : Scanner) : s.Further (stateOf (shift.run s)) := by
  rw [shift, run_get_bind]
  exact stateOf_bind (further_advance s) fun _ => .pure _

theorem further_stringChar (s : Scanner) : s.Further (stateOf (stringChar.run s)) := by
  rw [stringChar, run_get_bind]
  split
  · exact stateOf_bind (further_advance s) fun _ =>
      (maintains_shift (maintains_further s)).bind fun _ => .pure _
  · exact further_shift s

theorem current_of_holds {p : Char → Bool} (h : holds p s = true) : s.current.isSome = true := by
  obtain ⟨c, hc, -⟩ := (Option.any_eq_true ..).mp h
  rw [hc]
  rfl

theorem togo_pos (h : s.current.isSome = true) : 0 < s.togo := by
  rw [togo, if_pos h]
  exact Nat.succ_pos _

/-- A run of characters that begins with the held one takes it. -/
theorem further_takeWhile {p : Char → Bool} (h : holds p s = true) :
    s.Further (stateOf ((takeWhile p).run s)) := by
  obtain ⟨rounds, hrounds⟩ := Nat.exists_eq_add_one_of_ne_zero
    (Nat.ne_of_gt (togo_pos (current_of_holds h)))
  rw [takeWhile, run_get_bind, hrounds]
  refine stateOf_bind ?_ fun _ => .pure _
  rw [collectWhile_round h]
  -- the first round takes the held character, and the others go on from there
  refine stateOf_bind (further_shift s) fun _ => ?_
  exact (Maintains.collectWhile
    (fun _ _ ht => maintains_shift (maintains_further s) ht) rounds).bind fun _ => .pure _

/-- The step takes a character, or it is refused where the scanner stands. -/
def TakesOrRefuses (x : Scan α) (s : Scanner) : Prop :=
  (∃ fault, x.run s = .error fault s) ∨ s.Further (stateOf (x.run s))

theorem TakesOrRefuses.bind {x : Scan α} {f : α → Scan β} (hx : TakesOrRefuses x s)
    (hf : ∀ a, Maintains s.Further (f a)) : TakesOrRefuses (x >>= f) s := by
  rcases hx with ⟨fault, hrun⟩ | hfurther
  · left
    refine ⟨fault, ?_⟩
    rw [EStateM.run_bind, hrun]
  · exact .inr (stateOf_bind hfurther hf)

theorem sign_takes (c : Char) (s : Scanner) : TakesOrRefuses (sign c) s := by
  have hkeep := maintains_further s
  rw [TakesOrRefuses, sign, run_get_bind]
  split
  · exact .inr (stateOf_bind (further_advance s) fun _ => .pure _)
  · exact .inr (stateOf_bind (further_advance s) fun _ => .pure _)
  split
  · refine .inr (stateOf_bind (further_advance s) fun _ => .get fun t => ?_)
    split
    · exact hkeep.bind fun _ => .pure _
    · exact .pure _
  · exact .inl ⟨_, rfl⟩

/-- The test that chooses a rule does not have to be the test of the rule's loop: it is enough that
the loop takes every character that it is chosen for. -/
theorem lexeme_takes {c : Char} (hc : s.current = some c) : TakesOrRefuses lexeme s := by
  have hkeep := maintains_further s
  have hholds : ∀ p : Char → Bool, p c = true → holds p s = true := by
    intro p hp
    rw [holds, hc]
    exact hp
  rw [TakesOrRefuses, lexeme, run_get_bind]
  simp only [hc]
  split
  · next hblank =>
    right
    refine stateOf_bind (stateOf_bind (further_takeWhile (hholds _ hblank)) fun _ => .pure _) ?_
    exact fun _ => .pure _
  cases hcomment : s.beginsComment with
  | error fault => exact .inl ⟨fault, rfl⟩
  | ok comment =>
    rw [run_bind_of_ok (run_lift_ok comment s)]
    split
    · exact .inr (stateOf_bind (further_advance s) fun _ => hkeep.bind fun _ =>
        (maintains_skipComment hkeep).bind fun _ => .pure _)
    split
    · next hword =>
      have hcontinues := hholds _ (continuesWord_of_beginsWord hword)
      right
      exact stateOf_bind (stateOf_bind (further_takeWhile hcontinues) fun _ => .pure _)
        fun _ => .pure _
    split
    · next hdigit =>
      right
      exact stateOf_bind (number_keeps hkeep (further_takeWhile (hholds _ hdigit)))
        fun _ => .pure _
    split
    · exact .inr (stateOf_bind (string_keeps hkeep (further_advance s)) fun _ => .pure _)
    · exact (sign_takes c s).bind fun _ => .pure _

theorem further_of_lexeme {ts : List Token} (hs : s.current.isSome = true)
    (h : lexeme.run s = .ok ts t) : s.Further t := by
  obtain ⟨c, hc⟩ := Option.isSome_iff_exists.mp hs
  rcases lexeme_takes hc with ⟨fault, hfault⟩ | hfurther
  · rw [hfault] at h
    cases h
  · rwa [h] at hfurther

theorem Further.togo_lt (h : s.Further t) (hs : s.current.isSome = true) : t.togo < s.togo := by
  cases ht : t.current.isSome with
  | false =>
    -- where nothing is held nothing is to go, also if the scanner stood behind the end before
    rw [togo, if_neg (ne_true_of_eq_false ht)]
    exact togo_pos hs
  | true =>
    have hinside := h.inside ht
    have hlt := h.position
    rw [h.source] at hinside
    rw [togo, togo, if_pos ht, if_pos hs, h.source]
    omega

/-- From every scanner the loop without a bound on its rounds ends, after at most as many of them as
there are characters to go, and as the loop with that many rounds does. -/
def Finishes (more : Scanner → Bool) (turn : Scan α) : Prop :=
  ∀ s : Scanner, ∃ rounds ≤ s.togo,
    Repeats more turn s rounds ((collectWhile more turn s.togo).run s)

theorem finishes_of_further {more : Scanner → Bool} {turn : Scan α}
    (hmore : ∀ s, more s = true → s.current.isSome = true)
    (hturn : ∀ s a t, more s = true → turn.run s = .ok a t → s.Further t) :
    Finishes more turn := fun _ =>
  repeats_collectWhile (fun s hs => togo_pos (hmore s hs))
    (fun s a t hs hrun => (hturn s a t hs hrun).togo_lt (hmore s hs)) (Nat.le_refl _)

theorem finishes_lexeme : Finishes (·.current.isSome) lexeme :=
  finishes_of_further (fun _ hs => hs) fun _ _ _ => further_of_lexeme

/-- A loop goes forward: each of its turns does, whether it succeeds or fails, and it ends. -/
structure GoesForward (more : Scanner → Bool) (turn : Scan α) : Prop where
  turns : ∀ s, more s = true → s.position < (stateOf (turn.run s)).position
  finishes : Finishes more turn

/-- A loop over characters goes forward if its turns take one. -/
theorem goesForward_of_further {turn : Scan α}
    (hturn : ∀ s : Scanner, s.Further (stateOf (turn.run s))) (p : Char → Bool) :
    GoesForward (holds p) turn where
  turns s _ := (hturn s).position
  finishes := finishes_of_further (fun _ => current_of_holds) fun s a t _ hrun => by
    have hfurther := hturn s
    rwa [hrun] at hfurther

/-- The parts that a loop has collected as one list. -/
def joined {ε σ : Type} : EStateM.Result ε σ (List (List α)) → EStateM.Result ε σ (List α)
  | .ok parts t => .ok parts.flatten t
  | .error e t => .error e t

theorem run_lexemes (s : Scanner) : lexemes.run s = joined ((lexemeLoop s.togo).run s) := by
  rw [lexemes, run_get_bind, EStateM.run_bind]
  cases (lexemeLoop s.togo).run s <;> rfl

/-- Without a source reading goes on as it does with an empty one. -/
theorem run_tokenize_entered (source : Option String) (s : Scanner) :
    (tokenize source).run s = lexemes.run (s.entered (source.getD "")) := by
  cases source with
  | none => rfl
  | some text => exact run_tokenize text s

theorem maintains_holdsToEnd : Maintains HoldsToEnd advance :=
  fun s hs => (further_advance s).holdsToEnd hs

theorem TakesOrRefuses.holdsToEnd {x : Scan α} (h : TakesOrRefuses x s) (hs : s.HoldsToEnd) :
    (stateOf (x.run s)).HoldsToEnd := by
  rcases h with ⟨fault, hrun⟩ | hfurther
  · rw [hrun]
    exact hs
  · exact hfurther.holdsToEnd hs

theorem lexemes_holdsToEnd : Maintains HoldsToEnd lexemes := by
  refine .get fun s => (Maintains.collectWhile ?_ s.togo).bind fun _ => .pure _
  intro t ht hend
  obtain ⟨c, hc⟩ := Option.isSome_iff_exists.mp ht
  exact (lexeme_takes hc).holdsToEnd hend

theorem holdsToEnd_ofSource (source : String) : (ofSource source).HoldsToEnd := by
  intro hnone
  exact Int.ofNat_le.mpr (Array.getElem?_eq_none_iff.mp hnone)

theorem tokenize_holdsToEnd (source : Option String) : Maintains HoldsToEnd (tokenize source) := by
  intro s hs
  rw [run_tokenize_entered]
  refine lexemes_holdsToEnd ?_
  rw [entered]
  split
  · exact hs
  · exact holdsToEnd_ofSource _

theorem Call.holdsToEnd (call : Call) : Maintains HoldsToEnd call.step := by
  have hkeep := maintains_holdsToEnd
  cases call with
  | advance => exact hkeep
  | skipBlanks => exact maintains_skipBlanks hkeep
  | skipComment => exact maintains_skipComment hkeep
  | word => exact (maintains_word hkeep).bind fun _ => .pure _
  | number =>
    exact Maintains.bind (fun _ hs => number_keeps hkeep (maintains_takeWhile hkeep _ hs))
      fun _ => .pure _
  | string => exact Maintains.bind (fun _ hs => string_keeps hkeep (hkeep hs)) fun _ => .pure _
  | tokenize source => exact (tokenize_holdsToEnd source).bind fun _ => .pure _

/-- A scanner that no one has moved: it comes from a source by calls, however they end, and by
changes to what does not say where it stands. -/
inductive Unmoved : Scanner → Prop
  | start (source : String) : Unmoved (ofSource source)
  | call {s : Scanner} (call : Call) : Unmoved s → Unmoved (stateOf (call.step.run s))
  | change {s t : Scanner} : Unmoved s → t.source = s.source → t.position = s.position →
      t.current = s.current → Unmoved t

theorem Unmoved.holdsToEnd (h : Unmoved s) : s.HoldsToEnd := by
  induction h with
  | start source => exact holdsToEnd_ofSource source
  | call call _ ih => exact call.holdsToEnd ih
  | change _ hsource hposition hcurrent ih =>
    intro hnone
    rw [hsource, hposition]
    exact ih (hcurrent.symm.trans hnone)

/-- Reading that has succeeded holds no character any more. -/
theorem current_of_lexemes {ts : List Token} (h : lexemes.run s = .ok ts t) : t.current = none := by
  obtain ⟨rounds, -, hrepeats⟩ := finishes_lexeme s
  rw [run_lexemes] at h
  change Repeats _ _ s rounds ((lexemeLoop s.togo).run s) at hrepeats
  generalize (lexemeLoop s.togo).run s = r at h hrepeats
  cases r with
  | ok parts u =>
    cases h
    exact Option.isNone_iff_eq_none.mp (Option.isSome_eq_false_iff.mp (hrepeats.done rfl))
  | error fault u => cases h

/-- The loops over the characters of a class, by which blanks, comments, words and digits are read,
and the one over the characters of a string literal go forward from every scanner. A lexeme that
succeeds where a character is held has gone forward, so reading ends from every scanner, as its loop
without a bound on the rounds does. If it succeeds from a scanner that no one has moved, it ends
behind the source and holds no character. -/
theorem reads_to_end :
    (∀ p : Char → Bool, GoesForward (holds p) shift) ∧
    GoesForward (holds (· != Text.doubleQuote)) stringChar ∧
    (∀ (s : Scanner) (ts : List Token) (t : Scanner), s.current.isSome = true →
      lexeme.run s = .ok ts t → s.position < t.position) ∧
    (∀ (source : Option String) (s : Scanner),
      ∃ rounds ≤ (s.entered (source.getD "")).togo, ∃ r,
        Repeats (·.current.isSome) lexeme (s.entered (source.getD "")) rounds r ∧
          (tokenize source).run s = joined r) ∧
    ∀ (s : Scanner) (source : Option String) (ts : List Token) (t : Scanner), Unmoved s →
      (tokenize source).run s = .ok ts t → t.source.size ≤ t.position ∧ t.current = none := by
  refine ⟨goesForward_of_further further_shift, goesForward_of_further further_stringChar _,
    fun s ts t hs hrun => (further_of_lexeme hs hrun).position, fun source s => ?_,
    fun s source ts t hs hrun => ?_⟩
  · obtain ⟨rounds, hrounds, hrepeats⟩ := finishes_lexeme (s.entered (source.getD ""))
    refine ⟨rounds, hrounds, _, hrepeats, ?_⟩
    rw [run_tokenize_entered, run_lexemes]
  · have hend := tokenize_holdsToEnd source hs.holdsToEnd
    rw [hrun] at hend
    rw [run_tokenize_entered] at hrun
    have hnone := current_of_lexemes hrun
    exact ⟨hend hnone, hnone⟩

/-- A scanner that is set back before the start of its source goes forward from there with the
character that it still holds. One that was not reads to the end what a fault has left. -/
theorem reads_to_end_set_back :
    (∃ ts t, lexeme.run { ofSource "a;" with position := -3 } = .ok ts t ∧ -3 < t.position) ∧
    ∃ ts t, Unmoved (after [.tokenize (some "@ ;"), .advance] (ofSource "a")) ∧
      (tokenize none).run (after [.tokenize (some "@ ;"), .advance] (ofSource "a")) = .ok ts t ∧
      t.source.size ≤ t.position ∧ t.current = none := by
  have hback : faultOf? (lexeme.run { ofSource "a;" with position := -3 }) = none := by
    decide +kernel
  have hleft : faultOf? ((tokenize none).run
      (after [.tokenize (some "@ ;"), .advance] (ofSource "a"))) = none := by
    decide +kernel
  obtain ⟨ts, t, hback⟩ := exists_ok_of_faultOf? hback
  obtain ⟨us, u, hleft⟩ := exists_ok_of_faultOf? hleft
  have hunmoved : Unmoved (after [.tokenize (some "@ ;"), .advance] (ofSource "a")) :=
    .call .advance (.call (.tokenize (some "@ ;")) (.start "a"))
  obtain ⟨-, -, hlexeme, -, hend⟩ := reads_to_end
  exact ⟨⟨ts, t, hback, hlexeme _ ts t rfl hback⟩, us, u, hunmoved, hleft,
    hend _ none us u hunmoved hleft⟩

end Scanner

end Scriptlet
