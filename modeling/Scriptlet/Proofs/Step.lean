import Scriptlet.Fault

/-! Laws of steps. A step that binds two others succeeds exactly if both do, and a loop that has
succeeded is a chain of successful rounds. -/
namespace Scriptlet

variable {ε σ α β : Type}

/-- The state that a step ends in, however it ends. -/
def stateOf : EStateM.Result ε σ α → σ
  | .ok _ s => s
  | .error _ s => s

/-- How a step ends, without its state. -/
def resultOf : EStateM.Result ε σ α → Except ε α
  | .ok a _ => .ok a
  | .error e _ => .error e

theorem eq_error_of_resultOf {r : EStateM.Result ε σ α} {e : ε} (h : resultOf r = .error e) :
    r = .error e (stateOf r) := by
  cases r with
  | ok a s => cases h
  | error e s =>
    cases h
    rfl

theorem run_bind_ok_iff {x : EStateM ε σ α} {f : α → EStateM ε σ β} {s t : σ} {b : β} :
    (x >>= f).run s = .ok b t ↔ ∃ a u, x.run s = .ok a u ∧ (f a).run u = .ok b t := by
  rw [EStateM.run_bind]
  cases h : x.run s with
  | ok a u => simp [and_assoc]
  | error e u => simp

theorem run_bind_error_iff {x : EStateM ε σ α} {f : α → EStateM ε σ β} {s t : σ} {e : ε} :
    (x >>= f).run s = .error e t ↔
      x.run s = .error e t ∨ ∃ a u, x.run s = .ok a u ∧ (f a).run u = .error e t := by
  rw [EStateM.run_bind]
  cases h : x.run s with
  | ok a u => simp [and_assoc]
  | error e u => simp

theorem run_bind_of_ok {x : EStateM ε σ α} {f : α → EStateM ε σ β} {s t : σ} {a : α}
    (h : x.run s = .ok a t) : (x >>= f).run s = (f a).run t := by
  rw [EStateM.run_bind, h]

theorem run_pure_ok_iff {a b : α} {s t : σ} :
    (pure a : EStateM ε σ α).run s = .ok b t ↔ a = b ∧ s = t := by
  rw [EStateM.run_pure]
  simp only [EStateM.Result.ok.injEq]

@[simp] theorem run_get_bind (f : σ → EStateM ε σ β) (s : σ) :
    (get >>= f).run s = (f s).run s := rfl

@[simp] theorem run_throw (e : ε) (s : σ) : (throw e : EStateM ε σ α).run s = .error e s := rfl

@[simp] theorem run_lift_ok (a : α) (s : σ) :
    (liftM (.ok a : Except ε α) : EStateM ε σ α).run s = .ok a s := rfl

theorem run_lift_ok_iff {x : Except ε α} {a : α} {s t : σ} :
    (liftM x : EStateM ε σ α).run s = .ok a t ↔ x = .ok a ∧ s = t := by
  cases x with
  | ok b => rw [run_lift_ok, EStateM.Result.ok.injEq, Except.ok.injEq]
  | error e => exact iff_of_false nofun fun h => nomatch h.1

theorem run_lift_bind_ok_iff {x : Except ε α} {f : α → EStateM ε σ β} {s t : σ} {b : β} :
    (liftM x >>= f).run s = .ok b t ↔ ∃ a, x = .ok a ∧ (f a).run s = .ok b t := by
  rw [run_bind_ok_iff]
  constructor
  · rintro ⟨a, u, hx, hf⟩
    obtain ⟨rfl, rfl⟩ := run_lift_ok_iff.mp hx
    exact ⟨a, rfl, hf⟩
  · rintro ⟨a, rfl, hf⟩
    exact ⟨a, s, rfl, hf⟩

theorem run_ite (p : Prop) [Decidable p] (x y : EStateM ε σ α) (s : σ) :
    (if p then x else y).run s = if p then x.run s else y.run s := by
  split <;> rfl

/-- What holds before the step holds behind it, however it ends. -/
def Maintains (I : σ → Prop) (x : EStateM ε σ α) : Prop :=
  ∀ ⦃s⦄, I s → I (stateOf (x.run s))

theorem Maintains.pure {I : σ → Prop} (a : α) : Maintains I (pure a : EStateM ε σ α) :=
  fun _ hs => hs

theorem Maintains.throw {I : σ → Prop} (e : ε) : Maintains I (throw e : EStateM ε σ α) :=
  fun _ hs => hs

theorem Maintains.lift {I : σ → Prop} (x : Except ε α) :
    Maintains I (liftM x : EStateM ε σ α) := by
  cases x <;> exact fun _ hs => hs

theorem Maintains.get {I : σ → Prop} {f : σ → EStateM ε σ α} (hf : ∀ s, Maintains I (f s)) :
    Maintains I (get >>= f) :=
  fun s hs => hf s hs

theorem stateOf_bind {I : σ → Prop} {x : EStateM ε σ α} {f : α → EStateM ε σ β} {s : σ}
    (hx : I (stateOf (x.run s))) (hf : ∀ a, Maintains I (f a)) :
    I (stateOf ((x >>= f).run s)) := by
  rw [EStateM.run_bind]
  cases hr : x.run s with
  | ok a t =>
    rw [hr] at hx
    exact hf a hx
  | error e t => rwa [hr] at hx

theorem Maintains.bind {I : σ → Prop} {x : EStateM ε σ α} {f : α → EStateM ε σ β}
    (hx : Maintains I x) (hf : ∀ a, Maintains I (f a)) : Maintains I (x >>= f) :=
  fun _ hs => stateOf_bind (hx hs) hf

section Loop

variable {more : σ → Bool} {step : EStateM ε σ α}

theorem collectWhile_stop {s : σ} (h : more s = false) (rounds : Nat) :
    (collectWhile more step rounds).run s = .ok [] s := by
  cases rounds with
  | zero => rfl
  | succ rounds => rw [collectWhile, run_get_bind, h]; rfl

theorem collectWhile_round {s : σ} (h : more s = true) (rounds : Nat) :
    (collectWhile more step (rounds + 1)).run s = (do
      let first ← step
      let rest ← collectWhile more step rounds
      return first :: rest).run s := by
  rw [collectWhile, run_get_bind, h]
  rfl

theorem Maintains.collectWhile {I : σ → Prop}
    (hstep : ∀ s, more s = true → I s → I (stateOf (step.run s))) (rounds : Nat) :
    Maintains I (collectWhile more step rounds) := by
  induction rounds with
  | zero => exact .pure _
  | succ rounds ih =>
    intro s hs
    cases hmore : more s with
    | false => rwa [collectWhile_stop hmore]
    | true =>
      rw [collectWhile_round hmore]
      exact stateOf_bind (hstep s hmore hs) fun _ => ih.bind fun _ => .pure _

/-- The loop that has no bound on its rounds ends after so many of them, and how. -/
inductive Repeats (more : σ → Bool) (step : EStateM ε σ α) :
    σ → Nat → EStateM.Result ε σ (List α) → Prop
  | stop {s : σ} : more s = false → Repeats more step s 0 (.ok [] s)
  | fail {s t : σ} {e : ε} : more s = true → step.run s = .error e t →
      Repeats more step s 1 (.error e t)
  | round {s t u : σ} {a : α} {as : List α} {n : Nat} : more s = true → step.run s = .ok a t →
      Repeats more step t n (.ok as u) → Repeats more step s (n + 1) (.ok (a :: as) u)
  | failLater {s t u : σ} {a : α} {e : ε} {n : Nat} : more s = true → step.run s = .ok a t →
      Repeats more step t n (.error e u) → Repeats more step s (n + 1) (.error e u)

/-- A loop that has ended well stands where there is no more. -/
theorem Repeats.done {s t : σ} {n : Nat} {as : List α} {r : EStateM.Result ε σ (List α)}
    (h : Repeats more step s n r) (hr : r = .ok as t) : more t = false := by
  induction h generalizing as with
  | stop hs =>
    cases hr
    exact hs
  | fail _ _ => cases hr
  | round _ _ _ ih =>
    cases hr
    exact ih rfl
  | failLater _ _ _ _ => cases hr

/-- A loop whose rounds take something from a finite size ends, and a bound that is not below that
size makes no difference to it. -/
theorem repeats_collectWhile {size : σ → Nat} (hmore : ∀ s, more s = true → 0 < size s)
    (hstep : ∀ ⦃s a t⦄, more s = true → step.run s = .ok a t → size t < size s) {rounds : Nat}
    {s : σ} (hrounds : size s ≤ rounds) :
    ∃ n ≤ size s, Repeats more step s n ((collectWhile more step rounds).run s) := by
  induction rounds generalizing s with
  | zero =>
    have hs : more s = false := Bool.eq_false_iff.mpr fun hs =>
      Nat.not_le.mpr (hmore s hs) hrounds
    exact ⟨0, Nat.zero_le _, .stop hs⟩
  | succ rounds ih =>
    cases hs : more s with
    | false =>
      rw [collectWhile_stop hs]
      exact ⟨0, Nat.zero_le _, .stop hs⟩
    | true =>
      rw [collectWhile_round hs, EStateM.run_bind]
      cases hrun : step.run s with
      | error e t => exact ⟨1, hmore s hs, .fail hs hrun⟩
      | ok a t =>
        have hlt := hstep hs hrun
        obtain ⟨n, hn, hrest⟩ := ih (Nat.le_of_lt_succ (Nat.lt_of_lt_of_le hlt hrounds))
        refine ⟨n + 1, Nat.lt_of_le_of_lt hn hlt, ?_⟩
        dsimp only
        rw [EStateM.run_bind]
        generalize (collectWhile more step rounds).run t = r at hrest ⊢
        cases r with
        | ok as u => exact .round hs hrun hrest
        | error e u => exact .failLater hs hrun hrest

end Loop

end Scriptlet
