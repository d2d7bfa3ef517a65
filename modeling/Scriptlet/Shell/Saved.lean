import Scriptlet.Value.Display

/-!
# Saved trees

The text that a syntax tree is saved as: JSON, indented by two blanks a level, in plain ASCII.
-/
namespace Scriptlet.Saved

/-- A code unit of sixteen bits as an escape. -/
def unit (n : Nat) : String :=
  "\\u" ++ Text.hex 4 n

/-- A character between double quotes. A character beyond the first plane is written as its two
surrogates. -/
def charText (c : Char) : String :=
  if c == Text.doubleQuote || c == '\\' then String.ofList ['\\', c]
  else if c == '\n' then "\\n"
  else if c == '\r' then "\\r"
  else if c == '\t' then "\\t"
  else if c == '\x08' then "\\b"
  else if c == '\x0c' then "\\f"
  else if 0x20 ≤ c.toNat && c.toNat ≤ 0x7E then c.toString
  else if c.toNat < 0x10000 then unit c.toNat
  else
    let n := c.toNat - 0x10000
    unit (0xD800 + n / 0x400) ++ unit (0xDC00 + n % 0x400)

def stringText (s : String) : String :=
  "\"" ++ String.join (s.toList.map charText) ++ "\""

def floatText (x : Float) : String :=
  if x.isNaN then "NaN"
  else if x.isInf then (if x < 0 then "-Infinity" else "Infinity")
  else Decimal.text x

/-- Items between brackets, each on a line of its own, inside a level of the given depth. -/
def block (left right : String) (depth : Nat) (items : List String) : String :=
  if items.isEmpty then left ++ right
  else
    let line (depth : Nat) : String := "\n" ++ String.ofList (List.replicate (2 * depth) ' ')
    left ++ line (depth + 1) ++ ("," ++ line (depth + 1)).intercalate items ++ line depth ++ right

mutual

/-- The text of a value inside a level of the given depth. -/
def valueText (depth : Nat) : Value → Except Fault String
  | .null => .ok "null"
  | .bool b => .ok (if b then "true" else "false")
  | .int z => Value.integerText z
  | .float x => .ok (floatText x)
  | .str s => .ok (stringText s)
  | .list items => do return block "[" "]" depth (← itemTexts (depth + 1) items)
  | .record fields => do
    return block "\x7b" "\x7d" depth (← fieldTexts (depth + 1) fields)

def itemTexts (depth : Nat) : List Value → Except Fault (List String)
  | [] => .ok []
  | value :: rest => do return (← valueText depth value) :: (← itemTexts depth rest)

def fieldTexts (depth : Nat) : List (String × Value) → Except Fault (List String)
  | [] => .ok []
  | (name, value) :: rest => do
    return (stringText name ++ ": " ++ (← valueText depth value)) :: (← fieldTexts depth rest)

end

/-- The text that a tree is saved as. -/
def text (tree : Value) : Except Fault String :=
  valueText 0 tree

end Scriptlet.Saved
