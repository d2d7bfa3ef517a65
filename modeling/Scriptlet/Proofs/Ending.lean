import Scriptlet.Proofs.Rules
import Scriptlet.Proofs.Visiting

/-! How runs end. What values are put to ends with faults of a few kinds only, whatever the values
are, and a step that keeps an invariant and ends with permitted stops may be put together from
others that do. -/
namespace Scriptlet

variable {α β : Type}

namespace Fault

/-- Whether a fault tells of a node that the grammar does not build: one without a field, of a type
or with an operator that there is no rule for, or with a field of the wrong kind. -/
def ofNode : Fault → Bool
  | missingField _ | missingMember .. | unknownNode _ | unknownOperator _ | noFields _ | textField
  | listField | noItems _ | noLength _ | noName _ => true
  | _ => false

/-- Whether a fault tells of what is computed: of names without entries, or of values that do not
fit what is done with them. -/
def computed (fault : Fault) : Bool :=
  fault.kind ∈ [Kind.name, .type, .value, .overflow] && !fault.ofNode

end Fault

/-- A computation that ends as wanted, or with a fault of what it computes. -/
inductive Yields (post : α → Prop) : Except Fault α → Prop
  | ok {a : α} : post a → Yields post (.ok a)
  | error {fault : Fault} : fault.computed = true → Yields post (.error fault)

theorem Yields.bind {post : α → Prop} {post' : β → Prop} {x : Except Fault α}
    {f : α → Except Fault β} (hx : Yields post x) (hf : ∀ a, post a → Yields post' (f a)) :
    Yields post' (x >>= f) := by
  cases hx with
  | ok ha => exact hf _ ha
  | error hfault => exact .error hfault

/-- A computation that ends with no fault but one of what it computes. -/
abbrev Computes (x : Except Fault α) : Prop :=
  Yields (fun _ => True) x

namespace Value

theorem computes_integerText (z : Int) : Computes (integerText z) := by
  rw [integerText]
  generalize tooManyDigits = bound
  split
  · exact .error rfl
  · exact .ok trivial

mutual

theorem computes_quoted : ∀ v : Value, Computes v.quoted
  | .null | .bool true | .bool false | .float _ | .str _ => by
    rw [quoted]
    exact .ok trivial
  | .int z => by
    rw [quoted]
    exact computes_integerText z
  | .list values => by
    rw [quoted]
    exact (computes_quotedItems values).bind fun _ _ => .ok trivial
  | .record entries => by
    rw [quoted]
    exact (computes_quotedFields entries).bind fun _ _ => .ok trivial

theorem computes_quotedItems : ∀ values : List Value, Computes (quotedItems values)
  | [] => by
    rw [quotedItems]
    exact .ok trivial
  | value :: rest => by
    rw [quotedItems]
    exact (computes_quoted value).bind fun _ _ =>
      (computes_quotedItems rest).bind fun _ _ => .ok trivial

theorem computes_quotedFields :
    ∀ entries : List (String × Value), Computes (quotedFields entries)
  | [] => by
    rw [quotedFields]
    exact .ok trivial
  | (name, value) :: rest => by
    rw [quotedFields]
    exact (computes_quoted value).bind fun _ _ =>
      (computes_quotedFields rest).bind fun _ _ => .ok trivial

end

theorem computes_display (v : Value) : Computes v.display := by
  cases v with
  | str s => exact .ok trivial
  | _ => exact computes_quoted _

theorem computes_readInteger (s : String) : Computes (Decimal.readInteger s) := by
  rw [Decimal.readInteger]
  dsimp only
  split
  · exact .error rfl
  · split
    · exact .error rfl
    · split
      · exact .ok trivial
      · exact .error rfl

theorem computes_readFloat (s : String) : Computes (Decimal.readFloat s) := by
  rw [Decimal.readFloat]
  dsimp only
  split
  · exact .error rfl
  · split
    · exact .ok trivial
    · exact .error rfl

theorem computes_truncate (x : Float) : Computes (truncate x) := by
  rw [truncate]
  split
  · exact .ok trivial
  · split <;> exact .error rfl

theorem computes_toInteger (v : Value) : Computes v.toInteger := by
  cases v with
  | str s => exact computes_readInteger s
  | float x => exact computes_truncate x
  | bool b => exact .ok trivial
  | int z => exact .ok trivial
  | _ => exact .error rfl

theorem computes_numberToFloat (number : Number) : Computes number.toFloat := by
  cases number with
  | float x => exact .ok trivial
  | int z =>
    rw [Number.toFloat]
    cases Binary64.ofInt? z with
    | none => exact .error rfl
    | some x => exact .ok trivial

theorem computes_toFloat (v : Value) : Computes v.toFloat := by
  cases v with
  | str s => exact computes_readFloat s
  | bool b => exact computes_numberToFloat (.int _)
  | int z => exact computes_numberToFloat (.int z)
  | float x => exact computes_numberToFloat (.float x)
  | _ => exact .error rfl

/-- The system refuses a pause only where the clock can count it and cannot show its end. -/
theorem computes_checkPause_or [Clock] (seconds : Float) :
    Computes (checkPause seconds) ∨ ∃ length,
      checkPause seconds = .error (.pauseRefused length) ∧ Clock.Refuses length := by
  rw [checkPause]
  split
  · exact .inl (.error rfl)
  split
  · exact .inl (.error rfl)
  split
  · exact .inl (.error rfl)
  split
  · exact .inl (.error rfl)
  split
  · next length _ hcounted hnegative hshown =>
    simp only [Bool.or_eq_true, decide_eq_true_eq] at hcounted
    exact .inr ⟨length.toNat, rfl, by omega, hshown⟩
  · exact .inl (.ok trivial)

theorem computes_toPause_or [Clock] (v : Value) :
    Computes v.toPause ∨ ∃ length, v.toPause = .error (.pauseRefused length) ∧
      Clock.Refuses length := by
  have hseconds := computes_toFloat v
  rw [toPause]
  revert hseconds
  cases v.toFloat with
  | error fault =>
    rintro (_ | hcomputed)
    exact .inl (.error hcomputed)
  | ok seconds => exact fun _ => computes_checkPause_or seconds

theorem computes_combineNumbers (a b : Number) : Computes (combineNumbers .plus a b) := by
  cases a with
  | float x => exact (computes_numberToFloat b).bind fun _ _ => .ok trivial
  | int z =>
    cases b with
    | int z' => exact .ok trivial
    | float x => exact (computes_numberToFloat (.int z)).bind fun _ _ => .ok trivial

theorem computes_combineOthers (v w : Value) : Computes (combineOthers .plus v w) := by
  cases v with
  | str s =>
    cases w with
    | str s' => exact .ok trivial
    | _ => exact .error rfl
  | list items =>
    cases w with
    | list items' => exact .ok trivial
    | _ => exact .error rfl
  | _ => exact .error rfl

theorem computes_sum (v w : Value) : Computes (combine .plus v w) := by
  rw [combine]
  split
  · exact computes_combineNumbers _ _
  · exact computes_combineOthers v w

end Value

namespace Machine

variable {I : Machine → Prop} {E : Stop → Prop} {x : Run α} {f : α → Run β} {post : α → Prop}
  {post' : β → Prop}

/-- From every machine with the invariant the step ends in one with it, with a result as wanted or
with a stop that is permitted. -/
def Ends (I : Machine → Prop) (E : Stop → Prop) (x : Run α) (post : α → Prop) : Prop :=
  ∀ ⦃m⦄, I m → match x.run m with
    | .ok a m' => I m' ∧ post a
    | .error stop m' => I m' ∧ E stop

namespace Ends

theorem pure {a : α} (ha : post a) : Ends I E (pure a) post := fun _ hm => ⟨hm, ha⟩

theorem throw {stop : Stop} (h : E stop) : Ends I E (throw stop : Run α) post :=
  fun _ hm => ⟨hm, h⟩

theorem bind (hx : Ends I E x post) (hf : ∀ a, post a → Ends I E (f a) post') :
    Ends I E (x >>= f) post' := by
  intro m hm
  have h := hx hm
  rw [EStateM.run_bind]
  cases hr : x.run m with
  | ok a u =>
    rw [hr] at h
    exact hf a h.2 h.1
  | error stop u =>
    rw [hr] at h
    exact h

theorem error (hx : Ends I E x post) {m m' : Machine} (hm : I m) {stop : Stop}
    (h : x.run m = .error stop m') : E stop := by
  have hends := hx hm
  rw [h] at hends
  exact hends.2

theorem mono {wanted : α → Prop} (hx : Ends I E x post) (h : ∀ a, post a → wanted a) :
    Ends I E x wanted := by
  rw [← bind_pure x]
  exact bind hx fun a ha => pure (h a ha)

theorem restoring (hx : Ends I E x post)
    (hI : ∀ {m u : Machine}, I m → I u → I { u with scope := m.scope }) :
    Ends I E (restoring x) post := by
  intro m hm
  have h := hx hm
  rw [run_restoring]
  cases hr : x.run m with
  | ok a u =>
    rw [hr] at h
    exact ⟨hI hm h.1, h.2⟩
  | error stop u =>
    rw [hr] at h
    exact h

section List

variable {visit : Visitor} {P : Value → Prop}

theorem mapM {ι : Type} {step : ι → Run Value} {items : List ι}
    (h : ∀ item ∈ items, Ends I E (step item) P) :
    Ends I E (items.mapM step) fun vs => ∀ v ∈ vs, P v := by
  induction items with
  | nil => exact pure nofun
  | cons item rest ih =>
    obtain ⟨hitem, hrest⟩ := List.forall_mem_cons.mp h
    rw [List.mapM_cons]
    refine bind hitem fun v hv => bind (ih hrest) fun vs hvs => pure ?_
    exact List.forall_mem_cons.mpr ⟨hv, hvs⟩

theorem values {nodes : List Value} (h : ∀ node ∈ nodes, Ends I E (visit node) P) :
    Ends I E (values visit nodes) fun vs => ∀ v ∈ vs, P v :=
  mapM h

theorem runAll {nodes : List Value} (hnull : P .null)
    (h : ∀ node ∈ nodes, Ends I E (visit node) P) : Ends I E (runAll visit nodes) P := by
  have hloop : ∀ start, P start →
      Ends I E (nodes.foldlM (fun _ node => visit node) start) P := by
    induction nodes with
    | nil => exact fun start hstart => pure hstart
    | cons node rest ih =>
      intro start hstart
      obtain ⟨hnode, hrest⟩ := List.forall_mem_cons.mp h
      rw [List.foldlM_cons]
      exact bind hnode (ih hrest)
  exact hloop .null hnull

end List

end Ends

/-- An invariant that does not depend on the log, and stops that programs of any kind may end
with. -/
structure Permits [Clock] (I : Machine → Prop) (E : Stop → Prop) : Prop where
  log {m : Machine} (log : Array Event) : I m → I { m with log := log }
  computed {fault : Fault} : fault.computed = true → E (.fault fault)
  refused {length : Nat} : Clock.Refuses length → E (.fault (.pauseRefused length))
  leave (code : Int) : E (.leave code)

namespace Permits

variable [Clock] (h : Permits I E)

include h

theorem lift {y : Except Fault α} (hy : Yields post y) : Ends I E (liftM y : Run α) post := by
  cases hy with
  | ok ha => exact .pure ha
  | error hfault => exact .throw (h.computed hfault)

theorem emit (event : Event) : Ends I E (emit event) fun _ => True :=
  fun m hm => ⟨h.log (m.log.push event) hm, trivial⟩

theorem write (separator ending : String) (vs : List Value) :
    Ends I E (write separator ending vs) fun _ => True := by
  induction vs with
  | nil => exact h.emit _
  | cons v rest ih =>
    have hdisplay := h.lift v.computes_display
    cases rest with
    | nil => exact .bind hdisplay fun _ _ => .bind (h.emit _) fun _ _ => h.emit _
    | cons w rest =>
      exact .bind hdisplay fun _ _ => .bind (h.emit _) fun _ _ => .bind (h.emit _) fun _ _ => ih

theorem pause (v : Value) : Ends I E (liftM v.toPause : Run Float) fun _ => True := by
  obtain hcomputes | ⟨length, hrefused, hlength⟩ := v.computes_toPause_or
  · exact h.lift hcomputes
  · rw [hrefused]
    exact .throw (h.refused hlength)

theorem builtin (b : Builtin) (vs : List Value) : Ends I E (b.run vs) (· = .null) := by
  cases b with
  | print => exact .bind (h.write _ _ vs) fun _ _ => .pure rfl
  | println => exact .bind (h.write _ _ vs) fun _ _ => .pure rfl
  | sleep =>
    cases vs with
    | nil => exact .throw (h.computed rfl)
    | cons v rest =>
      exact .bind (h.pause v) fun _ _ => .bind (h.emit _) fun _ _ => .pure rfl
  | exit =>
    cases vs with
    | nil => exact .throw (h.leave 0)
    | cons v rest => exact .bind (h.lift v.computes_toInteger) fun code _ => .throw (h.leave code)

end Permits

end Machine

end Scriptlet
