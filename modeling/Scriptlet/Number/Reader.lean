import Scriptlet.Fault
import Scriptlet.Number.Binary64
import Scriptlet.Text.Character

/-!
# Numbers from texts

The decimals of every script are read by their value, blanks around a number are ignored, and a
single underscore may stand between two digits. An integer has at most `maxDigits` digits, zeros
in front included.
-/
namespace Scriptlet.Decimal

/-- The greatest number of digits of an integer that is read or shown. -/
def maxDigits : Nat := 4300

/-- Replaces a decimal of any script by the plain digit of its value and a blank by a plain space;
what cannot be part of a number becomes a question mark. -/
def plainChar (c : Char) : Char :=
  if c.toNat < 127 then c
  else if Text.isBlank c then ' '
  else match Text.decimalValue? c with
    | some value => Char.ofNat (48 + value)
    | none => '?'

/-- The blanks that may stand around a number. -/
def isOuterBlank (c : Char) : Bool :=
  c == ' ' || (9 ≤ c.toNat && c.toNat ≤ 13)

/-- Digits with single underscores between them, and what follows. Where a digit is `needed`, at
the beginning and behind an underscore, there must be one. -/
def digitRun? (needed : Bool) : List Char → Option (List Nat × List Char)
  | [] => if needed then none else some ([], [])
  | c :: rest =>
    if c.isDigit then
      (digitRun? false rest).map fun (digits, others) => ((c.toNat - 48) :: digits, others)
    else if needed then none
    else if c = '_' then digitRun? true rest
    else some ([], c :: rest)

def ofDigits (digits : List Nat) : Nat :=
  digits.foldl (fun n digit => 10 * n + digit) 0

/-- An optional sign and what follows: whether it is a minus. -/
def signed : List Char → Bool × List Char
  | '-' :: rest => (true, rest)
  | '+' :: rest => (false, rest)
  | rest => (false, rest)

def readInteger (text : String) : Except Fault Int :=
  let (negative, rest) := signed ((text.toList.map plainChar).dropWhile isOuterBlank)
  match digitRun? true rest with
  | none => .error (.notInteger text)
  | some (digits, others) =>
    if maxDigits < digits.length then .error (.digitsToRead digits.length)
    else if others.all isOuterBlank then
      let n := ofDigits digits
      .ok (if negative then -(n : Int) else n)
    else .error (.notInteger text)

/-- Removes the underscores, each of which must stand between two digits; `previous` tells
whether a digit stands before the text. -/
def dropUnderscores? (previous : Bool) : List Char → Option (List Char)
  | [] => some []
  | '_' :: rest =>
    match rest with
    | next :: _ => if previous && next.isDigit then dropUnderscores? false rest else none
    | [] => none
  | c :: rest => (dropUnderscores? c.isDigit rest).map (c :: ·)

/-- A decimal without its sign: digits, digits behind the point, and an exponent. -/
structure Numeral where
  whole : List Nat
  fraction : List Nat
  exponent : Int

/-- The plain digits that a text begins with, and what follows. -/
def plainDigits (cs : List Char) : List Nat × List Char :=
  ((cs.takeWhile Char.isDigit).map fun c => c.toNat - 48, cs.dropWhile Char.isDigit)

/-- The exponent that ends a decimal: nothing, or a mark and a signed number. -/
def exponent? : List Char → Option Int
  | [] => some 0
  | mark :: rest =>
    if mark == 'e' || mark == 'E' then
      let (negative, rest) := signed rest
      match plainDigits rest with
      | ([], _) => none
      | (digits, []) =>
        let n := ofDigits digits
        some (if negative then -(n : Int) else n)
      | _ => none
    else none

def numeral? (cs : List Char) : Option Numeral :=
  let (whole, rest) := plainDigits cs
  let (fraction, rest) :=
    match rest with
    | '.' :: rest => plainDigits rest
    | rest => ([], rest)
  if whole.isEmpty && fraction.isEmpty then none
  else (exponent? rest).map fun exponent => ⟨whole, fraction, exponent⟩

/-- The number nearest to a decimal; one that is too large is infinite. A decimal whose first
digit is far outside the range of the numbers is not computed. -/
def Numeral.toFloat (d : Numeral) : Float :=
  let digits := (d.whole ++ d.fraction).dropWhile (· == 0)
  let exponent := d.exponent - d.fraction.length
  let leading := exponent + digits.length
  let infinite := 1.0 / 0.0
  if digits.isEmpty || leading < -400 then 0.0
  else if 400 < leading then infinite
  else
    let ratio := Binary64.scaleTen (ofDigits digits) 1 (-exponent)
    (Binary64.ofRatio? ratio.1 ratio.2).getD infinite

/-- The value of a name of a number that is no decimal. -/
def namedNumber? (cs : List Char) : Option Float :=
  let name := String.ofList (cs.map Char.toLower)
  if name = "inf" || name = "infinity" then some (1.0 / 0.0)
  else if name = "nan" then some (0.0 / 0.0)
  else none

def readFloat (text : String) : Except Fault Float :=
  let inner := (text.toList.map plainChar).dropWhile isOuterBlank
  let inner := (inner.reverse.dropWhile isOuterBlank).reverse
  let magnitude? (cs : List Char) : Option Float :=
    (namedNumber? cs).or ((numeral? cs).map Numeral.toFloat)
  match dropUnderscores? false inner with
  | none => .error (.notDecimal text)
  | some plain =>
    let (negative, rest) := signed plain
    match magnitude? rest with
    | some x => .ok (if negative then -x else x)
    | none => .error (.notDecimal text)

end Scriptlet.Decimal
