/-!
# Binary64 numbers

The double-precision numbers as exact ratios: taking one apart into a significand and a power of
two, and rounding a ratio of natural numbers to the nearest one, a tie to the even significand.
-/
namespace Scriptlet.Binary64

/-- `n / d` rounded to the nearest natural number, a tie to the even one. -/
def roundDiv (n d : Nat) : Nat :=
  let quotient := n / d
  let twice := 2 * (n % d)
  if twice < d then quotient
  else if d < twice then quotient + 1
  else quotient + quotient % 2

/-- The ratio `n / d` divided by `2 ^ e`. -/
def scaleTwo (n d : Nat) (e : Int) : Nat × Nat :=
  if 0 ≤ e then (n, d * Nat.pow 2 e.toNat) else (n * Nat.pow 2 (-e).toNat, d)

/-- The ratio `n / d` divided by `10 ^ e`. -/
def scaleTen (n d : Nat) (e : Int) : Nat × Nat :=
  if 0 ≤ e then (n, d * Nat.pow 10 e.toNat) else (n * Nat.pow 10 (-e).toNat, d)

/-- The power of two that is the unit of the last place of a number near `n / d`. -/
def unitOf (n d : Nat) : Int :=
  let guess : Int := (n.log2 : Int) - (d.log2 : Int) - 52
  let scaled := scaleTwo n d guess
  max (if scaled.1 / scaled.2 < Nat.pow 2 52 then guess - 1 else guess) (-1074)

/-- The magnitude with significand `m` and unit `2 ^ e`, for `m < 2 ^ 53` and `-1074 ≤ e ≤ 971`;
a significand below `2 ^ 52` has the least unit. -/
def ofParts (m : Nat) (e : Int) : Float :=
  if m < Nat.pow 2 52 then Float.ofBits m.toUInt64
  else Float.ofBits ((e + 1075).toNat * Nat.pow 2 52 + (m - Nat.pow 2 52)).toUInt64

/-- The number nearest to `n / d`, or `none` where it exceeds the largest finite one. -/
def ofRatio? (n d : Nat) : Option Float :=
  if n = 0 then some 0.0
  else
    let e := unitOf n d
    let scaled := scaleTwo n d e
    let m := roundDiv scaled.1 scaled.2
    let (m, e) := if m = Nat.pow 2 53 then (Nat.pow 2 52, e + 1) else (m, e)
    if 971 < e then none else some (ofParts m e)

/-- The number nearest to `z`, or `none` where it exceeds the largest finite one. -/
def ofInt? (z : Int) : Option Float :=
  (ofRatio? z.natAbs 1).map fun x => if z < 0 then -x else x

/-- A finite number as a sign, a significand and a unit: its value is
`± significand * 2 ^ unit`. -/
structure Parts where
  negative : Bool
  significand : Nat
  unit : Int

/-- The parts of `x`, or `none` for an infinity and for what is no number. -/
def parts? (x : Float) : Option Parts :=
  let bits : Nat := x.toBits.toNat
  let exponent : Nat := bits / Nat.pow 2 52 % 2048
  let fraction : Nat := bits % Nat.pow 2 52
  let negative := decide (Nat.pow 2 63 ≤ bits)
  if exponent = 2047 then none
  else if exponent = 0 then some ⟨negative, fraction, -1074⟩
  else some ⟨negative, Nat.pow 2 52 + fraction, (exponent : Int) - 1075⟩

/-- The magnitude of a finite number as a ratio. -/
def Parts.ratio (p : Parts) : Nat × Nat :=
  scaleTwo p.significand 1 (-p.unit)

/-- The integer part of a finite number: its fraction is dropped. -/
def Parts.truncate (p : Parts) : Int :=
  let magnitude :=
    if 0 ≤ p.unit then p.significand * Nat.pow 2 p.unit.toNat
    else p.significand / Nat.pow 2 (-p.unit).toNat
  if p.negative then -(magnitude : Int) else magnitude

/-- The integer of the least magnitude that is not nearer to zero than a finite number. -/
def Parts.roundAway (p : Parts) : Int :=
  let magnitude := (p.ratio.1 + p.ratio.2 - 1) / p.ratio.2
  if p.negative then -(magnitude : Int) else magnitude

/-- The integer that a finite number is, if it is one. -/
def Parts.integer? (p : Parts) : Option Int :=
  if 0 ≤ p.unit || p.significand % Nat.pow 2 (-p.unit).toNat = 0 then some p.truncate else none

end Scriptlet.Binary64
