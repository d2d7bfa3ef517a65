import Scriptlet.Number.Binary64

/-!
# Shortest decimals

The decimal with the fewest digits that reads back as a given binary64 number, and of several such
decimals the nearest one. For each number of digits only the two neighbours of the value on that
decimal grid can be the answer.
-/
namespace Scriptlet.Decimal

open Binary64

/-- A decimal `digits * 10 ^ exponent`. -/
structure Scaled where
  digits : Nat
  exponent : Int

/-- The exponent of the first digit of the ratio `n / d`: the greatest `k` with
`10 ^ k ≤ n / d`. -/
def leading (n d : Nat) : Int :=
  let guess : Int := ((n.log2 : Int) - (d.log2 : Int)) * 30103 / 100000 - 1
  let reaches (k : Int) : Bool :=
    let scaled := scaleTen n d k
    scaled.2 ≤ scaled.1
  if reaches (guess + 2) then guess + 2
  else if reaches (guess + 1) then guess + 1
  else guess

/-- Whether the decimal reads back as the magnitude `x`. -/
def Scaled.readsAs (s : Scaled) (x : Float) : Bool :=
  let ratio := scaleTen s.digits 1 (-s.exponent)
  match ofRatio? ratio.1 ratio.2 with
  | some y => y.toBits == x.toBits
  | none => false

/-- The decimal of the grid `10 ^ unit` that reads back as the magnitude `x = n / d`: of the two
neighbours the nearer one, and in a tie the even one. -/
def onGrid? (x : Float) (n d : Nat) (unit : Int) : Option Scaled :=
  let scaled := scaleTen n d unit
  let below : Scaled := ⟨scaled.1 / scaled.2, unit⟩
  let above : Scaled := ⟨scaled.1 / scaled.2 + 1, unit⟩
  match below.readsAs x, above.readsAs x with
  | true, false => some below
  | false, true => some above
  | false, false => none
  | true, true => some ⟨roundDiv scaled.1 scaled.2, unit⟩

/-- Removes zeros from the end of the digits, at most `fuel` of them. -/
def Scaled.trim : Nat → Scaled → Scaled
  | 0, s => s
  | fuel + 1, s =>
    if s.digits % 10 = 0 && s.digits ≠ 0 then trim fuel ⟨s.digits / 10, s.exponent + 1⟩ else s

/-- The decimal with the fewest digits that reads back as the magnitude `x` with the given
parts; seventeen digits are always enough. -/
def shortest (x : Float) (p : Parts) : Scaled :=
  let (n, d) := p.ratio
  let k := leading n d
  let found := (List.range 17).findSome? fun (count : Nat) => onGrid? x n d (k - count)
  (found.getD ⟨0, 0⟩).trim 17

/-- The exponents that are written without an exponent mark: the first digit stands at most four
places behind the point and at most sixteen before it. -/
def isPositional (exponent : Int) : Bool :=
  -4 ≤ exponent && exponent < 16

/-- Writes the digits with a point and, outside the positional range, an exponent of at least two
digits. -/
def layout (s : Scaled) : String :=
  let digits := Nat.toDigits 10 s.digits
  let exponent : Int := s.exponent + digits.length - 1
  if isPositional exponent then
    if exponent < 0 then
      "0." ++ String.ofList (List.replicate (-exponent - 1).toNat '0' ++ digits)
    else
      let whole := digits.take (exponent.toNat + 1)
      let rest := digits.drop (exponent.toNat + 1)
      String.ofList (whole ++ List.replicate (exponent.toNat + 1 - whole.length) '0') ++ "." ++
        (if rest.isEmpty then "0" else String.ofList rest)
  else
    let rest := digits.drop 1
    let size := Nat.toDigits 10 exponent.natAbs
    String.ofList (digits.take 1) ++ (if rest.isEmpty then "" else "." ++ String.ofList rest) ++
      (if exponent < 0 then "e-" else "e+") ++
      String.ofList (List.replicate (2 - size.length) '0' ++ size)

def text (x : Float) : String :=
  match parts? x with
  | none => if x.isNaN then "nan" else if x < 0 then "-inf" else "inf"
  | some p =>
    let magnitude := if p.significand = 0 then "0.0" else layout (shortest x.abs p)
    if p.negative then "-" ++ magnitude else magnitude

end Scriptlet.Decimal
