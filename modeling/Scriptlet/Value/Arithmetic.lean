import Scriptlet.Number.Binary64
import Scriptlet.Value

/-!
# Arithmetic

The four operators. Truth values count as the integers one and zero. Where one operand is a
binary64 number the other is converted to one first; the quotient of two integers is always
one, rounded once. Texts and lists are joined by `+` and repeated by `*`.
-/
namespace Scriptlet

/-- The operators that values are combined by. -/
inductive Operator where
  | plus | minus | times | divide
  deriving DecidableEq, Repr

def Operator.sign : Operator → String
  | plus => "+"
  | minus => "-"
  | times => "*"
  | divide => "/"

def Operator.ofSign? (sign : String) : Option Operator :=
  [plus, minus, times, divide].find? fun operator => operator.sign = sign

/-- A number that arithmetic works on. -/
inductive Number where
  | int (z : Int)
  | float (x : Float)

def Number.toFloat : Number → Except Fault Float
  | .int z => (Binary64.ofInt? z).elim (.error .integerTooLarge) .ok
  | .float x => .ok x

namespace Value

/-- The number that a value counts as. -/
def number? : Value → Option Number
  | bool b => some (.int (if b then 1 else 0))
  | int z => some (.int z)
  | float x => some (.float x)
  | _ => none

/-- The integer that a value counts as. -/
def integer? : Value → Option Int
  | bool b => some (if b then 1 else 0)
  | int z => some z
  | _ => none

/-- The quotient of two integers, rounded once. -/
def quotient (a b : Int) : Except Fault Value :=
  if b = 0 then .error .divisionByZero
  else match Binary64.ofRatio? a.natAbs b.natAbs with
    | some x => .ok (float (if decide (a < 0) != decide (b < 0) then -x else x))
    | none => .error .quotientTooLarge

def combineFloats : Operator → Float → Float → Except Fault Value
  | .plus, a, b => .ok (float (a + b))
  | .minus, a, b => .ok (float (a - b))
  | .times, a, b => .ok (float (a * b))
  | .divide, a, b => if b == 0.0 then .error .floatDivisionByZero else .ok (float (a / b))

def combineIntegers : Operator → Int → Int → Except Fault Value
  | .plus, a, b => .ok (int (a + b))
  | .minus, a, b => .ok (int (a - b))
  | .times, a, b => .ok (int (a * b))
  | .divide, a, b => quotient a b

def combineNumbers (operator : Operator) : Number → Number → Except Fault Value
  | .int a, .int b => combineIntegers operator a b
  | a, b => do combineFloats operator (← a.toFloat) (← b.toFloat)

/-- The greatest length that a repeated text or list is built with. -/
def maxLength : Int := Nat.pow 2 36

/-- The least count or size that is too large for a repetition. -/
def maxSize : Int := Nat.pow 2 63

def isSequence : Value → Bool
  | str _ | list _ => true
  | _ => false

/-- Repeats a text or a list; a negative count counts as zero. -/
def repeated (sequence : Value) (count : Int) : Except Fault Value :=
  if count < -maxSize || maxSize ≤ count then .error .repetitionCount
  else match sequence with
    | str s =>
      let size := s.length * count
      if s.isEmpty || count ≤ 0 then .ok (str "")
      else if maxSize ≤ size then .error .repeatedText
      else if maxLength < size then .error .memory
      else .ok (str (String.join (List.replicate count.toNat s)))
    | list values =>
      if values.isEmpty || count ≤ 0 then .ok (list [])
      else if maxLength < values.length * count then .error .memory
      else .ok (list (List.replicate count.toNat values).flatten)
    | other => .error (.repetition other.kindName)

/-- Combines two values that are not both numbers: texts and lists are joined and repeated. -/
def combineOthers : Operator → Value → Value → Except Fault Value
  | .plus, str a, str b => .ok (str (a ++ b))
  | .plus, list a, list b => .ok (list (a ++ b))
  | .plus, left, right =>
    if left.isSequence then .error (.concatenation left.kindName right.kindName)
    else .error (.operands "+" left.kindName right.kindName)
  | .times, left, right =>
    if left.isSequence then
      (right.integer?).elim (.error (.repetition right.kindName)) (repeated left)
    else if right.isSequence then
      (left.integer?).elim (.error (.repetition left.kindName)) (repeated right)
    else .error (.operands "*" left.kindName right.kindName)
  | operator, left, right => .error (.operands operator.sign left.kindName right.kindName)

def combine (operator : Operator) (left right : Value) : Except Fault Value :=
  match left.number?, right.number? with
  | some a, some b => combineNumbers operator a b
  | _, _ => combineOthers operator left right

end Value

end Scriptlet
