import Scriptlet.Number.Reader
import Scriptlet.Number.Shortest
import Scriptlet.Value

/-!
# The texts of values

A value on its own is displayed plainly; inside a list, a record or a token it is shown with its
texts quoted. An integer of more than `Decimal.maxDigits` digits has no text.
-/
namespace Scriptlet.Value

/-- The least magnitude that has too many digits to be shown. -/
def tooManyDigits : Nat := Nat.pow 10 Decimal.maxDigits

def integerText (z : Int) : Except Fault String :=
  if tooManyDigits ≤ z.natAbs then .error .digitsToShow else .ok (toString z)

mutual

/-- The text of a value that stands inside another one. -/
def quoted : Value → Except Fault String
  | null => .ok "None"
  | bool true => .ok "True"
  | bool false => .ok "False"
  | int z => integerText z
  | float x => .ok (Decimal.text x)
  | str s => .ok (Text.quoted s)
  | list values => do return "[" ++ ", ".intercalate (← quotedItems values) ++ "]"
  | record entries => do
    return "\x7b" ++ ", ".intercalate (← quotedFields entries) ++ "\x7d"

def quotedItems : List Value → Except Fault (List String)
  | [] => .ok []
  | value :: rest => do return (← quoted value) :: (← quotedItems rest)

def quotedFields : List (String × Value) → Except Fault (List String)
  | [] => .ok []
  | (name, value) :: rest => do
    return (Text.quoted name ++ ": " ++ (← quoted value)) :: (← quotedFields rest)

end

/-- The text of a value on its own. -/
def display : Value → Except Fault String
  | str s => .ok s
  | other => quoted other

end Scriptlet.Value
