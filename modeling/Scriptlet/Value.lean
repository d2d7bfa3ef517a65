import Scriptlet.Fault

/-!
# Values

The values that programs compute with and that syntax trees are made of. A record is a node of a
syntax tree: named fields in a fixed order.
-/
namespace Scriptlet

inductive Value where
  | null
  | bool (b : Bool)
  | int (z : Int)
  | float (x : Float)
  | str (s : String)
  | list (items : List Value)
  | record (fields : List (String × Value))
  deriving Inhabited

namespace Value

/-- The name of the kind of a value, as messages give it. -/
def kindName : Value → String
  | null => "NoneType"
  | bool _ => "bool"
  | int _ => "int"
  | float _ => "float"
  | str _ => "str"
  | list _ => "list"
  | record _ => "dict"

/-- Whether a value counts as true: nothing, zero and what is empty do not. -/
def isTrue : Value → Bool
  | null => false
  | bool b => b
  | int z => z != 0
  | float x => x != 0.0
  | str s => s != ""
  | list items => !items.isEmpty
  | record fields => !fields.isEmpty

def isText (text : String) : Value → Bool
  | str s => s == text
  | _ => false

/-- The field of a node; only a record has fields. -/
def field (name : String) : Value → Except Fault Value
  | record fields =>
    match List.lookup name fields with
    | some value => .ok value
    | none => .error (.missingField name)
  | str _ => .error .textField
  | list _ => .error .listField
  | other => .error (.noFields other.kindName)

/-- The field of a node, or `none` where there is no such field. -/
def field? (name : String) : Value → Option Value
  | record fields => List.lookup name fields
  | _ => none

/-- The items of a value: those of a list, the characters of a text, the field names of a
record. -/
def items : Value → Except Fault (List Value)
  | list values => .ok values
  | str s => .ok (s.toList.map fun c => str c.toString)
  | record fields => .ok (fields.map fun entry => str entry.1)
  | other => .error (.noItems other.kindName)

def length (value : Value) : Except Fault Nat :=
  match value.items with
  | .ok values => .ok values.length
  | .error _ => .error (.noLength value.kindName)

end Value

end Scriptlet
