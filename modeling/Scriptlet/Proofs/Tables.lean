import Scriptlet.Table

/-! What setting entries does to a table, one by one and many at once. -/
namespace Scriptlet

theorem Name.same_iff {a b : Name} : a.same b = true ↔ ∃ k, a.key? = some k ∧ b.key? = some k := by
  unfold same
  cases a.key? <;> cases b.key? <;> simp [eq_comm]

theorem Name.same_symm {a b : Name} (h : a.same b = true) : b.same a = true := by
  obtain ⟨k, ha, hb⟩ := same_iff.mp h
  exact same_iff.mpr ⟨k, hb, ha⟩

theorem Name.same_trans {a b c : Name} (h : a.same b = true) (h' : b.same c = true) :
    a.same c = true := by
  obtain ⟨k, ha, hb⟩ := same_iff.mp h
  obtain ⟨l, hb', hc⟩ := same_iff.mp h'
  obtain rfl : k = l := Option.some.inj (hb.symm.trans hb')
  exact same_iff.mpr ⟨k, ha, hc⟩

namespace Table

variable {α : Type}

/-- The table with a new entry for `name`: in the place of the old one, or at the end if there is
none. -/
def updated (table : Table α) (name : Name) (entry : α) : Table α :=
  match table.findIdx? fun old => old.1.same name with
  | some i => table.modify i fun old => (old.1, entry)
  | none => table ++ [(name, entry)]

theorem set_eq_updated (table : Table α) (name : Name) (entry : α) :
    table.set name entry = table.updated name entry := by
  induction table with
  | nil => rfl
  | cons head rest ih =>
    obtain ⟨other, old⟩ := head
    rw [set, updated, List.findIdx?_cons]
    by_cases hsame : other.same name = true
    · simp [hsame]
    · rw [if_neg hsame, if_neg hsame, ih, updated]
      cases rest.findIdx? fun old => old.1.same name <;> simp

/-- Sets entries one after the other. -/
def setAll (table entries : Table α) : Table α :=
  entries.foldl (fun t entry => t.set entry.1 entry.2) table

theorem setAll_append (table entries others : Table α) :
    table.setAll (entries ++ others) = (table.setAll entries).setAll others :=
  List.foldl_append

theorem get?_eq_find? (table : Table α) (name : Name) :
    table.get? name = (table.find? fun entry => entry.1.same name).map Prod.snd := by
  induction table with
  | nil => rfl
  | cons head rest ih =>
    obtain ⟨other, old⟩ := head
    rw [get?, List.find?_cons]
    cases h : other.same name with
    | true => simp
    | false => simpa using ih

/-- Settings of the first name change its entry to the last of them; all others pass it by. -/
theorem setAll_cons (k : Name) (old : α) (rest entries : Table α) :
    setAll ((k, old) :: rest) entries =
      (k, ((entries.reverse.find? fun entry => k.same entry.1).map Prod.snd).getD old) ::
        rest.setAll (entries.filter fun entry => !k.same entry.1) := by
  induction entries generalizing old rest with
  | nil => rfl
  | cons entry entries ih =>
    obtain ⟨n, v⟩ := entry
    rw [setAll, List.foldl_cons, ← setAll, set]
    cases h : k.same n with
    | true =>
      rw [if_pos rfl, ih]
      cases hlater : entries.reverse.find? fun entry => k.same entry.1 <;>
        simp [List.find?_append, h, hlater]
    | false =>
      rw [if_neg Bool.false_ne_true, ih]
      simp [List.find?_append, h, setAll]

/-- The entry that is set last under a name. -/
def last? (entries : Table α) (name : Name) : Option α :=
  get? entries.reverse name

theorem last?_of_same {k name : Name} (h : k.same name = true) (entries : Table α) :
    entries.last? name = (entries.reverse.find? fun entry => k.same entry.1).map Prod.snd := by
  rw [last?, get?_eq_find?]
  congr 2
  funext entry
  rw [Bool.eq_iff_iff]
  constructor
  · intro hn
    exact Name.same_trans h (Name.same_symm hn)
  · intro hk
    exact Name.same_trans (Name.same_symm hk) h

theorem last?_filter {k name : Name} (h : k.same name = false) (entries : Table α) :
    last? (entries.filter fun entry => !k.same entry.1) name = entries.last? name := by
  rw [last?, last?, get?_eq_find?, get?_eq_find?, ← List.filter_reverse, List.find?_filter]
  congr 2
  funext entry
  cases hn : entry.1.same name with
  | false => simp
  | true =>
    -- an entry that is the same as both names would make them the same
    have hk : k.same entry.1 = false :=
      Bool.eq_false_iff.mpr fun hk => by simp [Name.same_trans hk hn] at h
    simp [hk]

/-- Settings leave a table as it is exactly if each name that is set has the entry that it is set to
last. -/
theorem setAll_eq_self_iff (table entries : Table α) :
    table.setAll entries = table ↔
      ∀ name ∈ entries.names, ∃ v, table.get? name = some v ∧ entries.last? name = some v := by
  induction table generalizing entries with
  | nil =>
    cases entries with
    | nil => simp [setAll, names]
    | cons entry entries =>
      rw [setAll, List.foldl_cons, ← setAll, set, setAll_cons]
      refine iff_of_false (List.cons_ne_nil _ _) fun h => ?_
      obtain ⟨v, hv, -⟩ := h entry.1 List.mem_cons_self
      cases hv
  | cons head rest ih =>
    obtain ⟨k, old⟩ := head
    rw [setAll_cons, List.cons.injEq, ih, Prod.mk.injEq]
    constructor
    · rintro ⟨⟨-, hlast⟩, hrest⟩ name hname
      obtain ⟨⟨n, v⟩, hentry, rfl⟩ := List.mem_map.mp hname
      cases hk : k.same n with
      | true =>
        refine ⟨old, by rw [get?, if_pos hk], ?_⟩
        rw [last?_of_same hk]
        cases hfind : entries.reverse.find? fun entry => k.same entry.1 with
        | none =>
          have hnone := List.find?_eq_none.mp hfind (n, v) (List.mem_reverse.mpr hentry)
          exact absurd hk hnone
        | some entry => simpa [hfind] using hlast
      | false =>
        obtain ⟨w, hget, hset⟩ := hrest n (List.mem_map.mpr ⟨(n, v), by simp [hentry, hk], rfl⟩)
        exact ⟨w, by rwa [get?, if_neg (by simp [hk])], by rwa [last?_filter hk] at hset⟩
    · intro h
      refine ⟨⟨rfl, ?_⟩, fun name hname => ?_⟩
      · cases hfind : entries.reverse.find? fun entry => k.same entry.1 with
        | none => rfl
        | some entry =>
          have hk := List.find?_some hfind
          have hmem := List.mem_reverse.mp (List.mem_of_find?_eq_some hfind)
          obtain ⟨v, hget, hset⟩ := h entry.1 (List.mem_map.mpr ⟨entry, hmem, rfl⟩)
          rw [get?, if_pos hk] at hget
          rw [last?_of_same hk, hfind] at hset
          exact Option.some.inj (hset.trans hget.symm)
      · obtain ⟨entry, hentry, rfl⟩ := List.mem_map.mp hname
        obtain ⟨hmem, hk⟩ := List.mem_filter.mp hentry
        have hk : k.same entry.1 = false := by simpa using hk
        obtain ⟨v, hget, hset⟩ := h entry.1 (List.mem_map.mpr ⟨entry, hmem, rfl⟩)
        exact ⟨v, by rwa [get?, if_neg (by simp [hk])] at hget, by rwa [last?_filter hk]⟩

section Entries

variable {P : α → Prop} {table : Table α}

theorem forall_set (h : ∀ entry ∈ table, P entry.2) (name : Name) {a : α} (ha : P a) :
    ∀ entry ∈ table.set name a, P entry.2 := by
  induction table with
  | nil =>
    intro entry hentry
    rwa [List.mem_singleton.mp hentry]
  | cons head rest ih =>
    obtain ⟨other, old⟩ := head
    obtain ⟨hhead, hrest⟩ := List.forall_mem_cons.mp h
    rw [set]
    split
    · exact List.forall_mem_cons.mpr ⟨ha, hrest⟩
    · exact List.forall_mem_cons.mpr ⟨hhead, ih hrest⟩

theorem forall_setAll (h : ∀ entry ∈ table, P entry.2) {entries : Table α}
    (hentries : ∀ entry ∈ entries, P entry.2) : ∀ entry ∈ table.setAll entries, P entry.2 := by
  induction entries generalizing table with
  | nil => exact h
  | cons entry rest ih =>
    obtain ⟨hentry, hrest⟩ := List.forall_mem_cons.mp hentries
    exact ih (forall_set h entry.1 hentry) hrest

theorem of_get? (h : ∀ entry ∈ table, P entry.2) {name : Name} {a : α}
    (ha : table.get? name = some a) : P a := by
  rw [get?_eq_find?] at ha
  obtain ⟨entry, hfind, rfl⟩ := Option.map_eq_some_iff.mp ha
  exact h entry (List.mem_of_find?_eq_some hfind)

end Entries

end Table

end Scriptlet
