import Scriptlet.Fault

/-!
# Text from bytes

Strict UTF-8: every sequence must be the shortest one of its character, and surrogates have none. A
flaw is reported with the bytes that make it up: those of a sequence as far as they fit together.
-/
namespace Scriptlet.Utf8

/-- Whether a byte may continue a sequence. -/
def continues (byte : UInt8) : Bool :=
  0x80 ≤ byte && byte < 0xC0

/-- Whether `second` may follow `first`, which begins a sequence: it continues it, and the sequence
is neither too long for its character nor that of a surrogate nor beyond the last character. -/
def follows (first second : UInt8) : Bool :=
  continues second &&
    !(first == 0xE0 && second < 0xA0) && !(first == 0xED && 0xA0 ≤ second) &&
    !(first == 0xF0 && second < 0x90) && !(first == 0xF4 && 0x90 ≤ second)

/-- The length of the sequence that a byte begins. -/
def sequenceLength? (first : UInt8) : Option Nat :=
  if first < 0x80 then some 1
  else if first < 0xC2 then none
  else if first < 0xE0 then some 2
  else if first < 0xF0 then some 3
  else if first < 0xF5 then some 4
  else none

/-- The number of bytes at the beginning of `rest` that continue a sequence of `length` bytes begun
by `first`. -/
def continuation (first : UInt8) (length : Nat) (rest : List UInt8) : Nat :=
  match rest with
  | [] => 0
  | second :: others =>
    if follows first second then 1 + ((others.take (length - 2)).takeWhile continues).length else 0

def character (first : UInt8) (rest : List UInt8) : Char :=
  let lead :=
    match rest.length with
    | 0 => first.toNat
    | 1 => first.toNat % 0x20
    | 2 => first.toNat % 0x10
    | _ => first.toNat % 0x08
  Char.ofNat (rest.foldl (fun code byte => code * 64 + byte.toNat % 64) lead)

/-- Reads characters; `position` bytes stand before these, and `rounds` bounds their number. -/
def decodeFrom (position : Nat) : Nat → List UInt8 → Except Fault (List Char)
  | 0, _ => .ok []
  | _, [] => .ok []
  | rounds + 1, first :: rest =>
    match sequenceLength? first with
    | none => .error (.notUtf8 .start first position (position + 1))
    | some length =>
      let fitting := if length = 1 then 0 else continuation first length rest
      if fitting + 1 = length then do
        let others ← decodeFrom (position + length) rounds (rest.drop fitting)
        return character first (rest.take fitting) :: others
      else
        let flaw := if fitting = rest.length then .ending else .continuation
        .error (.notUtf8 flaw first position (position + fitting + 1))

def decode (bytes : List UInt8) : Except Fault (List Char) :=
  decodeFrom 0 bytes.length bytes

/-- Ends every line with a line feed: a carriage return ends a line as well, and one before a line
feed belongs to it. -/
def joinLineEnds : List Char → List Char
  | [] => []
  | '\r' :: '\n' :: rest => '\n' :: joinLineEnds rest
  | '\r' :: rest => '\n' :: joinLineEnds rest
  | c :: rest => c :: joinLineEnds rest

def text (bytes : List UInt8) : Except Fault String := do
  return String.ofList (joinLineEnds (← decode bytes))

end Scriptlet.Utf8
