import Scriptlet.Name

/-!
# Tables

A table maps names to entries and keeps the order in which the names were first set: setting a
name again keeps its place and its spelling.
-/
namespace Scriptlet

/-- Names with their entries, in the order of their first setting. -/
abbrev Table (α : Type) := List (Name × α)

namespace Table

variable {α : Type}

def get? : Table α → Name → Option α
  | [], _ => none
  | (other, entry) :: rest, name => if other.same name then some entry else get? rest name

/-- Sets the entry of `name`, in its place or at the end. -/
def set : Table α → Name → α → Table α
  | [], name, entry => [(name, entry)]
  | (other, old) :: rest, name, entry =>
    if other.same name then (other, entry) :: rest else (other, old) :: set rest name entry

def names (table : Table α) : List Name :=
  table.map Prod.fst

/-- What was set last is found. -/
theorem get?_set_self (table : Table α) {name : Name} (entry : α) (h : name.same name = true) :
    (table.set name entry).get? name = some entry := by
  induction table with
  | nil => simp [set, get?, h]
  | cons head rest ih =>
    obtain ⟨other, old⟩ := head
    by_cases ho : other.same name = true
    · simp [set, get?, ho]
    · simpa [set, get?, ho] using ih

/-- Setting a text leaves the entries of other texts alone. -/
theorem get?_set_text_of_ne (table : Table α) {name query : String} (entry : α)
    (h : query ≠ name) :
    (table.set (.text name) entry).get? (.text query) = table.get? (.text query) := by
  induction table with
  | nil => simp [set, get?, Ne.symm h]
  | cons head rest ih =>
    obtain ⟨other, old⟩ := head
    by_cases ho : other.same (.text name) = true
    · have hq : other.same (.text query) = false := Name.not_same_text_of_same_text ho h
      simp [set, get?, ho, hq]
    · by_cases hq : other.same (.text query) = true
      · simp [set, get?, ho, hq]
      · simpa [set, get?, ho, hq] using ih

end Table

end Scriptlet
