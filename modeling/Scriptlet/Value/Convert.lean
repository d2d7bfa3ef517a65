import Scriptlet.Number.Reader
import Scriptlet.Value.Arithmetic

/-!
# Conversions

What the built-in functions make of their argument: a pause takes a binary64 number of seconds, and
leaving the program takes an integer.

A pause is measured by a clock that counts nanoseconds. It ends when the clock shows what it showed
at the start with the length of the pause added to it, so a pause that the clock can count is still
refused where that sum is more than it can show.
-/
namespace Scriptlet

/-- A clock, by the nanoseconds that it shows. It is taken to stand still while a program runs. -/
class Clock where
  reading : Nat

/-- The clock where no other one is given: it has just been started. -/
instance Clock.started : Clock := ⟨0⟩

/-- The least number of nanoseconds that no clock can show. -/
def Clock.limit : Nat := Nat.pow 2 63

/-- Whether a pause of so many nanoseconds can be counted, but its end not shown. -/
def Clock.Refuses [Clock] (length : Nat) : Prop :=
  length < Clock.limit ∧ Clock.limit ≤ Clock.reading + length

namespace Value

/-- A value as a binary64 number; a text is read. -/
def toFloat : Value → Except Fault Float
  | str s => Decimal.readFloat s
  | other => (other.number?).elim (.error (.noFloat other.kindName)) Number.toFloat

def truncate (x : Float) : Except Fault Int :=
  match Binary64.parts? x with
  | some parts => .ok parts.truncate
  | none => .error (if x.isNaN then .nanInteger else .infiniteInteger)

/-- A value as an integer; a text is read and a fraction is dropped. -/
def toInteger : Value → Except Fault Int
  | str s => Decimal.readInteger s
  | float x => truncate x
  | other => (other.integer?).elim (.error (.noInteger other.kindName)) .ok

/-- A number of seconds in nanoseconds, a fraction of one counting as a whole one. -/
def nanoseconds? (seconds : Float) : Option Int :=
  (Binary64.parts? (seconds * 1e9)).map Binary64.Parts.roundAway

/-- The seconds of a pause: they are not negative, the clock can count them, and it can show when
they are over. -/
def checkPause [Clock] (seconds : Float) : Except Fault Float :=
  if seconds.isNaN then .error .nanPause
  else match nanoseconds? seconds with
    | none => .error .pauseRange
    | some length =>
      if length < -Clock.limit || Clock.limit ≤ length then .error .pauseRange
      else if length < 0 then .error .negativePause
      else if Clock.limit ≤ Clock.reading + length.toNat then .error (.pauseRefused length.toNat)
      else .ok seconds

def toPause [Clock] (value : Value) : Except Fault Float := do
  checkPause (← value.toFloat)

end Value

end Scriptlet
