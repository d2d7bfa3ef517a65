import Scriptlet.Proofs.Step
import Scriptlet.Tree.Grammar

/-! The cursor only moves forward, token by token, and every rule of the grammar that succeeds has
passed a token. This holds of tokens of any shape, and where a rule fails as well. -/
namespace Scriptlet

/-- The second cursor stands further along the same tokens, or at the same place. -/
def Cursor.Reaches (c d : Cursor) : Prop :=
  ∃ passed, c.rest = passed ++ d.rest ∧ d.position = c.position + passed.length

theorem Cursor.Reaches.refl (c : Cursor) : c.Reaches c := ⟨[], rfl, rfl⟩

theorem Cursor.Reaches.trans {c d e : Cursor} (h : c.Reaches d) (h' : d.Reaches e) :
    c.Reaches e := by
  obtain ⟨first, hfirst, hd⟩ := h
  obtain ⟨second, hsecond, he⟩ := h'
  refine ⟨first ++ second, by rw [hfirst, hsecond, List.append_assoc], ?_⟩
  rw [he, hd, List.length_append, Nat.add_assoc]

namespace Parse

variable {α β : Type} {x : Parse α} {f : α → Parse β} {c : Cursor}

/-- From the given cursor the step moves forward, however it ends. -/
def Walks (x : Parse α) (c : Cursor) : Prop :=
  c.Reaches (stateOf (x.run c))

/-- The step moves forward, and if it succeeds it has passed a token. -/
structure Strides (x : Parse α) (c : Cursor) : Prop where
  walks : Walks x c
  passes : ∀ ⦃a d⦄, x.run c = .ok a d → c.position < d.position

theorem Walks.position_le (h : Walks x c) {a : α} {d : Cursor} (hx : x.run c = .ok a d) :
    c.position ≤ d.position := by
  obtain ⟨passed, -, hd⟩ := h
  rw [hx] at hd
  exact hd ▸ Nat.le_add_right _ _

theorem walks_pure (a : α) : Walks (pure a) c := .refl c

theorem walks_throw (fault : Fault) : Walks (throw fault : Parse α) c := .refl c

theorem walks_lift (x : Except Fault α) : Walks (liftM x : Parse α) c := by
  cases x <;> exact .refl c

theorem Walks.bind (hx : Walks x c) (hf : ∀ a d, x.run c = .ok a d → Walks (f a) d) :
    Walks (x >>= f) c := by
  rw [Walks, EStateM.run_bind]
  rw [Walks] at hx
  cases hr : x.run c with
  | ok a d =>
    rw [hr] at hx
    exact hx.trans (hf a d hr)
  | error fault d => rwa [hr] at hx

theorem Strides.bind (hx : Strides x c) (hf : ∀ a d, x.run c = .ok a d → Walks (f a) d) :
    Strides (x >>= f) c := by
  refine ⟨hx.walks.bind hf, fun b e h => ?_⟩
  obtain ⟨a, d, hd, he⟩ := run_bind_ok_iff.mp h
  exact Nat.lt_of_lt_of_le (hx.passes hd) ((hf a d hd).position_le he)

theorem Walks.stride (hx : Walks x c) (hf : ∀ a d, x.run c = .ok a d → Strides (f a) d) :
    Strides (x >>= f) c := by
  refine ⟨hx.bind fun a d h => (hf a d h).walks, fun b e h => ?_⟩
  obtain ⟨a, d, hd, he⟩ := run_bind_ok_iff.mp h
  exact Nat.lt_of_le_of_lt (hx.position_le hd) ((hf a d hd).passes he)

theorem Strides.length_lt {x : Parse α} {c d : Cursor} {a : α} (h : Strides x c)
    (hx : x.run c = .ok a d) : d.rest.length < c.rest.length := by
  obtain ⟨passed, hpassed, hposition⟩ := h.walks
  have hlt := h.passes hx
  rw [hx] at hpassed hposition
  simp only [stateOf] at hpassed hposition
  rw [hpassed, List.length_append]
  omega

theorem strides_throw (fault : Fault) : Strides (throw fault : Parse α) c :=
  ⟨.refl c, fun _ _ h => by cases h⟩

theorem strides_advance (h : c.rest ≠ []) : Strides advance c := by
  obtain ⟨position, rest⟩ := c
  cases rest with
  | nil => exact absurd rfl h
  | cons t rest => exact ⟨⟨[t], rfl, rfl⟩, fun a d h => by cases h; exact Nat.lt_succ_self _⟩

theorem walks_collectWhile {more : Cursor → Bool} {step : Parse α}
    (hstep : ∀ c, more c = true → Walks step c) (rounds : Nat) (c : Cursor) :
    Walks (collectWhile more step rounds) c :=
  Maintains.collectWhile (fun d hd h => h.trans (hstep d hd)) rounds (Cursor.Reaches.refl c)

/-- A loop with a round for each token ends where there is no more. -/
theorem collectWhile_done {more : Cursor → Bool} {step : Parse α}
    (hmore : ∀ c, c.rest = [] → more c = false) (hstep : ∀ c, more c = true → Strides step c)
    {rounds : Nat} {c d : Cursor} {as : List α}
    (h : (collectWhile more step rounds).run c = .ok as d) (hrounds : c.rest.length ≤ rounds) :
    more d = false := by
  have hpositive : ∀ c, more c = true → 0 < c.rest.length := fun c hc => by
    refine List.length_pos_iff.mpr fun hnil => ?_
    rw [hmore c hnil] at hc
    cases hc
  obtain ⟨n, -, hrepeats⟩ := repeats_collectWhile hpositive
    (fun _ _ _ hc hrun => (hstep _ hc).length_lt hrun) hrounds
  exact hrepeats.done h

theorem walks_get {f : Cursor → Parse α} (h : Walks (f c) c) : Walks (get >>= f) c := h

theorem strides_get {f : Cursor → Parse α} (h : Strides (f c) c) : Strides (get >>= f) c :=
  ⟨h.walks, h.passes⟩

theorem rest_ne_nil_of_current? {t : Token} (h : c.current? = some t) : c.rest ≠ [] := by
  intro hnil
  rw [Cursor.current?, hnil] at h
  cases h

theorem rest_ne_nil_of_token? {t : Token} (h : c.token? = some t) : c.rest ≠ [] :=
  rest_ne_nil_of_current? (Option.eq_some_of_filter_eq_some h)

theorem rest_ne_nil_of_isAt {kind : Token.Kind} (h : c.isAt kind = true) : c.rest ≠ [] := by
  obtain ⟨t, ht, -⟩ := (Option.any_eq_true ..).mp h
  exact rest_ne_nil_of_token? ht

theorem strides_expect (label : Value) (c : Cursor) : Strides (expect label) c := by
  refine strides_get ?_
  cases ht : c.current? with
  | none => exact strides_throw _
  | some t =>
    simp only
    split
    · exact (strides_advance (rest_ne_nil_of_current? ht)).bind fun _ _ _ => walks_pure _
    · exact (walks_lift _).stride fun _ _ _ => (walks_lift _).stride fun _ _ _ =>
        (walks_lift _).stride fun _ _ _ => (walks_lift _).stride fun _ _ _ =>
        (walks_lift _).stride fun _ _ _ => strides_throw _

theorem strides_expectKind (kind : Token.Kind) (c : Cursor) : Strides (expectKind kind) c :=
  strides_expect _ c

theorem strides_name (c : Cursor) : Strides name c :=
  (strides_expectKind _ c).bind fun _ _ _ => walks_lift _

section List

variable {item : Parse α} (hitem : ∀ c, Strides item c)

include hitem

theorem walks_commaList (c : Cursor) : Walks (commaList item) c := by
  refine walks_get ?_
  split
  · refine (hitem c).walks.bind fun first d _ => walks_get ?_
    refine (walks_collectWhile (fun e he => ?_) _ d).bind fun _ _ _ => walks_pure _
    exact (strides_advance (rest_ne_nil_of_isAt he)).walks.bind fun _ u _ => (hitem u).walks
  · exact walks_pure _

theorem strides_parenthesized (h : c.rest ≠ []) : Strides (parenthesized item) c :=
  (strides_advance h).bind fun _ d _ => (walks_commaList hitem d).bind fun _ e _ =>
    (strides_expectKind _ e).walks.bind fun _ _ _ => walks_pure _

theorem walks_optionalList (c : Cursor) : Walks (optionalList item) c := by
  refine walks_get ?_
  split
  · next h => exact (strides_parenthesized hitem (rest_ne_nil_of_isAt h)).walks
  · exact walks_pure _

end List

theorem token_ok_iff {t : Token} {d : Cursor} :
    token.run c = .ok t d ↔ c = d ∧ c.token? = some t := by
  obtain ⟨position, rest⟩ := c
  match rest with
  | [] => exact iff_of_false nofun nofun
  | ⟨[]⟩ :: rest => exact iff_of_false nofun nofun
  | ⟨v :: fields⟩ :: rest =>
    constructor
    · intro h
      cases h
      exact ⟨rfl, rfl⟩
    · rintro ⟨rfl, h⟩
      cases h
      rfl

theorem walks_token (c : Cursor) : Walks token c := by
  refine walks_get ?_
  cases c.current? with
  | none => exact walks_throw _
  | some t => exact (walks_lift _).bind fun _ _ _ => walks_pure _

theorem strides_value {t : Token} {f : Value → Parse α} (h : c.rest ≠ [])
    (hf : ∀ v d, Walks (f v) d) :
    Strides (do
      let value ← t.value
      let _ ← advance
      f value) c := by
  refine (walks_lift _).stride fun v d hd => ?_
  obtain ⟨-, rfl⟩ := run_lift_ok_iff.mp hd
  exact (strides_advance h).bind fun _ e _ => hf v e

theorem strides_expression (depth : Nat) :
    (∀ c, Strides (expression depth) c) ∧ (∀ c, Strides (sum depth) c) ∧
      ∀ c, Strides (operand depth) c := by
  induction depth with
  | zero => exact ⟨fun _ => strides_throw _, fun _ => strides_throw _, fun _ => strides_throw _⟩
  | succ depth ih =>
    obtain ⟨hexpression, hsum, hoperand⟩ := ih
    refine ⟨fun c => hsum c, fun c => ?_, fun c => ?_⟩
    · refine (hoperand c).bind fun left d _ => walks_get ?_
      cases ht : d.token? with
      | none => exact walks_pure _
      | some t =>
        simp only
        split
        · exact (strides_advance (rest_ne_nil_of_token? ht)).walks.bind fun _ e _ =>
            (hsum e).walks.bind fun _ _ _ => walks_pure _
        · exact walks_pure _
    · refine (walks_token c).stride fun t d hd => ?_
      obtain ⟨rfl, ht⟩ := token_ok_iff.mp hd
      have hrest := rest_ne_nil_of_token? ht
      split
      · exact (strides_advance hrest).bind fun _ d _ => (hexpression d).walks.bind fun _ e _ =>
          (strides_expectKind _ e).walks.bind fun _ _ _ => walks_pure _
      split
      · exact strides_value hrest fun _ _ => walks_pure _
      split
      · exact strides_value hrest fun _ _ => walks_pure _
      split
      · refine strides_value hrest fun v d => walks_get ?_
        split
        · next hat =>
          exact (strides_parenthesized hexpression (rest_ne_nil_of_isAt hat)).walks.bind
            fun _ _ _ => walks_pure _
        · exact walks_pure _
      · exact (walks_lift _).stride fun _ _ _ => (walks_lift _).stride fun _ _ _ =>
          (walks_lift _).stride fun _ _ _ => (walks_lift _).stride fun _ _ _ => strides_throw _

section Depth

variable (depth : Nat) (c : Cursor)

theorem strides_printed : Strides (printed depth) c := by
  have he := (strides_expression depth).1
  refine strides_get ?_
  split
  · exact (strides_expectKind _ c).bind fun _ d _ => (he d).walks.bind fun _ e _ =>
      (strides_expectKind _ e).walks.bind fun _ _ _ => walks_pure _
  · exact he c

theorem strides_printStatement (keyword : Token.Kind) (newline : Bool) :
    Strides (printStatement depth keyword newline) c :=
  (strides_expectKind _ c).bind fun _ d _ => (strides_printed depth d).walks.bind fun _ e _ =>
    (strides_expectKind _ e).walks.bind fun _ _ _ => walks_pure _

theorem strides_callStatement : Strides (callStatement depth) c :=
  (strides_expectKind _ c).bind fun _ d _ => (strides_name d).walks.bind fun _ e _ =>
    (walks_optionalList (strides_expression depth).1 e).bind fun _ u _ =>
      (strides_expectKind _ u).walks.bind fun _ _ _ => walks_pure _

theorem strides_assignment : Strides (assignment depth) c :=
  (strides_expectKind _ c).bind fun _ d _ => (strides_name d).walks.bind fun _ e _ =>
    (strides_expectKind _ e).walks.bind fun _ u _ =>
      ((strides_expression depth).1 u).walks.bind fun _ v _ =>
        (strides_expectKind _ v).walks.bind fun _ _ _ => walks_pure _

theorem strides_unexpected (t : Token) : Strides (unexpected t : Parse α) c :=
  (walks_lift _).stride fun _ _ _ => strides_throw _

theorem strides_statement : Strides (statement depth) c := by
  refine strides_get ?_
  cases c.token? with
  | none => exact strides_throw _
  | some t =>
    simp only
    split
    · exact strides_printStatement depth c _ _
    split
    · exact strides_printStatement depth c _ _
    split
    · exact strides_callStatement depth c
    split
    · exact strides_assignment depth c
    split
    · exact strides_throw _
    · exact strides_unexpected c t

theorem strides_block : Strides (block depth) c :=
  (strides_expectKind _ c).bind fun _ d _ => walks_get <|
    (walks_collectWhile (fun e _ => (strides_statement depth e).walks) _ d).bind fun _ e _ =>
      (strides_expectKind _ e).walks.bind fun _ _ _ => walks_pure _

theorem strides_functionDeclaration : Strides (functionDeclaration depth) c :=
  (strides_expectKind _ c).bind fun _ d _ => (strides_expectKind _ d).walks.bind fun _ e _ =>
    (strides_expectKind _ e).walks.bind fun _ u _ => (walks_optionalList strides_name u).bind
      fun _ v _ => (strides_block depth v).walks.bind fun _ _ _ =>
        (walks_lift _).bind fun _ _ _ => walks_pure _

theorem strides_entryBlock : Strides (entryBlock depth) c :=
  (strides_expectKind _ c).bind fun _ d _ => (strides_block depth d).walks.bind fun _ _ _ =>
    walks_pure _

theorem strides_declaration : Strides (declaration depth) c := by
  refine strides_get ?_
  cases c.token? with
  | none => exact strides_throw _
  | some t =>
    simp only
    split
    · exact strides_functionDeclaration depth c
    split
    · exact strides_entryBlock depth c
    · exact strides_unexpected c t

theorem walks_program : Walks (program depth) c :=
  walks_get <| (walks_collectWhile (fun e _ => (strides_declaration depth e).walks) _ c).bind
    fun _ _ _ => walks_pure _

theorem suffix_of_program : (stateOf ((program depth).run c)).rest <:+ c.rest := by
  obtain ⟨passed, hpassed, -⟩ := walks_program depth c
  exact ⟨passed, hpassed.symm⟩

theorem maintains_program (P : Token → Prop) :
    Maintains (fun c : Cursor => ∀ t ∈ c.rest, P t) (program depth) :=
  fun c hc t ht => hc t ((suffix_of_program depth c).subset ht)

end Depth

/-- A program that is read has no tokens left. -/
theorem program_done {depth : Nat} {d : Cursor} {program : Program}
    (h : (Parse.program depth).run c = .ok program d) (hbare : ∀ t ∈ c.rest, t.isBare = false) :
    d.rest = [] := by
  have hsuffix := suffix_of_program depth c
  rw [h] at hsuffix
  rw [Parse.program, run_get_bind] at h
  obtain ⟨body, u, hbody, h⟩ := run_bind_ok_iff.mp h
  obtain ⟨-, rfl⟩ := run_pure_ok_iff.mp h
  have hnone := collectWhile_done (fun c hc => by rw [Cursor.token?, Cursor.current?, hc]; rfl)
    (fun c _ => strides_declaration depth c) hbody (Nat.le_refl _)
  obtain ⟨position, rest⟩ := u
  cases rest with
  | nil => rfl
  | cons t rest =>
    have ht := hbare t (hsuffix.subset List.mem_cons_self)
    simp [Cursor.token?, Cursor.current?, ht] at hnone

end Parse

end Scriptlet
