import Scriptlet.Proofs.Rules
import Scriptlet.Proofs.Tables

/-! Runs among more functions. A run finds functions by their names and declares none, so one that
ends normally does the same when further names are declared. -/
namespace Scriptlet

namespace Table

variable {α : Type}

theorem get?_of_same (table : Table α) {name other : Name} (h : name.same other = true) :
    table.get? name = table.get? other := by
  induction table with
  | nil => rfl
  | cons head rest ih =>
    have hiff : head.1.same name = true ↔ head.1.same other = true :=
      ⟨fun hn => Name.same_trans hn h, fun ho => Name.same_trans ho (Name.same_symm h)⟩
    rw [get?, get?, ih]
    simp only [hiff]

theorem get?_set_of_not_same (table : Table α) {name other : Name} (entry : α)
    (h : name.same other = false) : (table.set name entry).get? other = table.get? other := by
  induction table with
  | nil => simp [set, get?, h]
  | cons head rest ih =>
    obtain ⟨first, old⟩ := head
    rw [set]
    cases hfirst : first.same name with
    | true =>
      have hother : first.same other = false := Bool.eq_false_iff.mpr fun ho => by
        simp [Name.same_trans (Name.same_symm hfirst) ho] at h
      rw [if_pos rfl, get?, get?, if_neg (by simp [hother]), if_neg (by simp [hother])]
    | false => rw [if_neg Bool.false_ne_true, get?, get?, ih]

theorem get?_set (table : Table α) (name other : Name) (entry : α) :
    (table.set name entry).get? other =
      if name.same other = true then some entry else table.get? other := by
  cases h : name.same other with
  | true =>
    have hself := Name.same_trans h (Name.same_symm h)
    rw [if_pos rfl, ← get?_of_same _ h, get?_set_self table entry hself]
  | false => rw [if_neg Bool.false_ne_true, get?_set_of_not_same table entry h]

/-- Whatever the first table has an entry for, the second one has the same entry for. -/
def Within (table table' : Table α) : Prop :=
  ∀ ⦃name entry⦄, table.get? name = some entry → table'.get? name = some entry

theorem within_setAll (table entries : Table α)
    (h : ∀ name ∈ entries.names, table.get? name = none) : table.Within (table.setAll entries) := by
  intro other old hother
  have hdistinct : ∀ entry ∈ entries, entry.1.same other = false := by
    intro entry hentry
    refine Bool.eq_false_iff.mpr fun hsame => ?_
    have hnone := h entry.1 (List.mem_map_of_mem hentry)
    rw [get?_of_same table hsame, hother] at hnone
    cases hnone
  clear h
  rw [← hother]
  generalize table = start
  induction entries generalizing start with
  | nil => rfl
  | cons entry rest ih =>
    rw [setAll, List.foldl_cons, ← setAll, ih fun e he => hdistinct e (List.mem_cons_of_mem _ he)]
    exact get?_set_of_not_same _ _ (hdistinct entry List.mem_cons_self)

end Table

namespace Machine

variable {α : Type}

/-- A step that declares no function when it succeeds, and does the same among more functions. -/
def Widens (x : Run α) : Prop :=
  ∀ ⦃m a m'⦄, x.run m = .ok a m' → m'.functions = m.functions ∧
    ∀ ⦃functions⦄, m.functions.Within functions →
      x.run { m with functions := functions } = .ok a { m' with functions := functions }

theorem Widens.bind {β : Type} {x : Run α} {f : α → Run β} (hx : Widens x)
    (hf : ∀ a, Widens (f a)) : Widens (x >>= f) := by
  intro m b m' h
  obtain ⟨a, u, hu, hm'⟩ := run_bind_ok_iff.mp h
  obtain ⟨hfunctions, hwide⟩ := hx hu
  obtain ⟨hfunctions', hwide'⟩ := hf a hm'
  refine ⟨hfunctions'.trans hfunctions, fun functions hwithin => ?_⟩
  rw [run_bind_of_ok (hwide hwithin)]
  exact hwide' (hfunctions.symm ▸ hwithin)

theorem widens : Pervasive @Widens where
  pure a := by
    rintro m _ _ ⟨⟩
    exact ⟨rfl, fun _ _ => rfl⟩
  throw stop := nofun
  bind := Widens.bind
  emit event := by
    rintro m _ _ ⟨⟩
    exact ⟨rfl, fun _ _ => rfl⟩
  assign name value := by
    rintro m _ _ ⟨⟩
    exact ⟨rfl, fun _ _ => rfl⟩
  lookUp node := by
    intro m v m' h
    obtain ⟨name, key, hname, hkey, hv, rfl⟩ := lookUp_ok_iff.mp h
    exact ⟨rfl, fun functions _ => lookUp_ok_iff.mpr ⟨name, key, hname, hkey, hv, rfl⟩⟩
  functionNode name node := by
    intro m function m' h
    obtain ⟨key, hkey, hfunction, rfl⟩ := functionNode_ok_iff.mp h
    exact ⟨rfl, fun functions hwithin =>
      functionNode_ok_iff.mpr ⟨key, hkey, hwithin hfunction, rfl⟩⟩
  restoring hx := by
    intro m a m' h
    obtain ⟨u, hu, rfl⟩ := run_restoring_ok_iff.mp h
    obtain ⟨hfunctions, hwide⟩ := hx hu
    exact ⟨hfunctions, fun functions hwithin =>
      run_restoring_ok_iff.mpr ⟨_, hwide hwithin, rfl⟩⟩

end Machine

end Scriptlet
