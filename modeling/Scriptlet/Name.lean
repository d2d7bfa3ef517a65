import Scriptlet.Number.Binary64
import Scriptlet.Value

/-!
# Names

Variables and functions are filed under names. A name is mostly a text, but any value other than a
list or a record will do. Two names are the same if they are equal as texts or as numbers: a number
counts by its value, whatever its kind, and a truth value counts as one or zero. What is no number
is the same as nothing.
-/
namespace Scriptlet

/-- A value that things are filed under. -/
inductive Name where
  | null
  | bool (b : Bool)
  | int (z : Int)
  | float (x : Float)
  | text (s : String)

/-- What makes two names the same. -/
inductive Name.Key where
  | null
  | text (s : String)
  | integer (z : Int)
  | real (bits : UInt64)
  deriving DecidableEq, Repr

namespace Name

/-- The key of a binary64 number: an integer if it is one. -/
def floatKey? (x : Float) : Option Key :=
  match Binary64.parts? x with
  | some parts => some ((parts.integer?).elim (.real x.toBits) .integer)
  | none => if x.isNaN then none else some (.real x.toBits)

/-- The key of a name; what is no number has none. -/
def key? : Name → Option Key
  | null => some .null
  | bool b => some (.integer (if b then 1 else 0))
  | int z => some (.integer z)
  | float x => floatKey? x
  | text s => some (.text s)

def same (a b : Name) : Bool :=
  match a.key?, b.key? with
  | some k, some l => k = l
  | _, _ => false

def toValue : Name → Value
  | null => .null
  | bool b => .bool b
  | int z => .int z
  | float x => .float x
  | text s => .str s

/-- The name that a value is; lists and records are none. -/
def ofValue : Value → Except Fault Name
  | .null => .ok null
  | .bool b => .ok (bool b)
  | .int z => .ok (int z)
  | .float x => .ok (float x)
  | .str s => .ok (text s)
  | other => .error (.noName other.kindName)

@[simp] theorem same_text (a b : String) : (text a).same (text b) = decide (a = b) := by
  simp [same, key?]

/-- A name is not the same as two different texts. -/
theorem not_same_text_of_same_text {name : Name} {a b : String}
    (h : name.same (text a) = true) (hb : b ≠ a) : name.same (text b) = false := by
  cases hk : name.key? with
  | none => simp only [same, hk]
  | some k =>
    have hka : k = .text a := by
      simp only [same, hk] at h
      simpa [key?] using h
    simp only [same, hk, hka]
    simp [key?, Ne.symm hb]

end Name

namespace Value

mutual

/-- Whether two values are equal: names by their keys, lists item by item, and records field by
field in any order. -/
def same : Value → Value → Bool
  | list a, list b => sameItems a b
  | record a, record b => a.length == b.length && sameFields a b
  | a, b =>
    match Name.ofValue a, Name.ofValue b with
    | .ok m, .ok n => m.same n
    | _, _ => false

def sameItems : List Value → List Value → Bool
  | [], [] => true
  | a :: as, b :: bs => same a b && sameItems as bs
  | _, _ => false

/-- Whether each of the fields is among the others, with an equal value. -/
def sameFields : List (String × Value) → List (String × Value) → Bool
  | [], _ => true
  | (name, a) :: rest, others =>
    (match others.lookup name with
      | some b => same a b
      | none => false) && sameFields rest others

end

end Value

end Scriptlet
