import Scriptlet.Text.Printable

/-!
# Quoted texts

How a text is shown inside a list, a table or a message: between quotes, on one line, every
character that could not be seen written as an escape.
-/
namespace Scriptlet.Text

def singleQuote : Char := '\x27'

def doubleQuote : Char := '\x22'

/-- `n` in hexadecimal, filled up with zeros to `width` digits. -/
def hex (width n : Nat) : String :=
  let digits := Nat.toDigits 16 n
  String.ofList (List.replicate (width - digits.length) '0' ++ digits)

/-- The quote that goes around `s`: a double one only where `s` holds a single one and no double
one. -/
def quoteOf (s : String) : Char :=
  if s.toList.contains singleQuote && !s.toList.contains doubleQuote then doubleQuote
  else singleQuote

/-- One character of a text that stands between two `quote`s. -/
def quotedChar (quote c : Char) : String :=
  if c == quote || c == '\\' then String.ofList ['\\', c]
  else if c == '\n' then "\\n"
  else if c == '\r' then "\\r"
  else if c == '\t' then "\\t"
  else if isPrintable c then c.toString
  else if c.toNat < 0x100 then "\\x" ++ hex 2 c.toNat
  else if c.toNat < 0x10000 then "\\u" ++ hex 4 c.toNat
  else "\\U" ++ hex 8 c.toNat

def quoted (s : String) : String :=
  let quote := quoteOf s
  quote.toString ++ String.join (s.toList.map (quotedChar quote)) ++ quote.toString

end Scriptlet.Text
