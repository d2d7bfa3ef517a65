import Scriptlet.Number.Reader
import Scriptlet.Text.Letter
import Scriptlet.Token

/-!
# Reading tokens from a source

A scanner stands at a position of a source and holds the character that it reads next, together
with the line and the column of that position. The position may also be set from outside: it may be
negative, and then counts from the end of the source, and the held character stays as it was.

`Scanner.tokenize` reads lexemes until no character is left. A failing step leaves the scanner where
it failed, and the next reading goes on from there.
-/
namespace Scriptlet

/-- The words of the language, with the kinds of their tokens. -/
def Token.keywords : List (String × Token.Kind) :=
  [("func", .func), ("enter", .enter), ("call", .call), ("print", .print), ("println", .println),
   ("if", .ifWord), ("else", .elseWord), ("while", .whileWord), ("for", .forWord),
   ("return", .returnWord), ("assign", .assign)]

/-- The signs of one character whose tokens do not know where they stand. -/
def Token.signs : List (Char × Token.Kind) :=
  [(';', .semicolon), (',', .comma), ('+', .plus), ('-', .minus), ('*', .multiply),
   ('/', .divide), (':', .colon)]

/-- The brackets, whose tokens know where they stand. -/
def Token.brackets : List (Char × Token.Kind) :=
  [('\x7b', .leftBrace), ('\x7d', .rightBrace), ('(', .leftParen), (')', .rightParen)]

def Token.ofWord (word : String) : Token :=
  Token.plain ((Token.keywords.lookup word).getD .identifier) (.str word)

/-- A source and the place where reading stands. -/
structure Scanner where
  source : Array Char := #[]
  position : Int := 0
  line : Nat := 1
  column : Nat := 1
  current : Option Char := none
  tokens : List Token := []

abbrev Scan := EStateM Fault Scanner

namespace Scanner

/-- A scanner at the start of a source. -/
def ofSource (source : String) : Scanner :=
  let chars := source.toList.toArray
  { source := chars, current := chars[0]? }

/-- The character at an index, `none` behind the end. A negative index counts from the end of the
source and must not lie before its start. -/
def charAt (s : Scanner) (index : Int) : Except Fault (Option Char) :=
  if 0 ≤ index then .ok s.source[index.toNat]?
  else if 0 ≤ index + s.source.size then .ok s.source[(index + s.source.size).toNat]?
  else .error .sourceIndex

/-- A bound on the number of characters still to be read. -/
def togo (s : Scanner) : Nat :=
  if s.current.isSome then (s.source.size - s.position).toNat + 1 else 0

/-- The scanner one position further; the line and the column are those behind the held
character. -/
def stepped (s : Scanner) : Scanner :=
  if s.current = some '\n' then
    { s with line := s.line + 1, column := 1, position := s.position + 1 }
  else
    { s with column := s.column + 1, position := s.position + 1 }

/-- Goes one position further and holds the character there. -/
def advance : Scan Unit := fun s =>
  let t := s.stepped
  match t.charAt t.position with
  | .ok c => .ok () { t with current := c }
  | .error fault => .error fault t

/-- Whether the held character is in a class. -/
def holds (p : Char → Bool) (s : Scanner) : Bool :=
  s.current.any p

/-- Reads the held character. -/
def shift : Scan (List Char) := do
  let s ← get
  advance
  return s.current.toList

/-- Reads the longest run of characters of a class. -/
def takeWhile (p : Char → Bool) : Scan (List Char) := do
  let s ← get
  let chars ← collectWhile (holds p) shift s.togo
  return chars.flatten

def skipBlanks : Scan Unit := do
  let _ ← takeWhile Text.isBlank

/-- Skips the rest of a line. -/
def skipComment : Scan Unit := do
  let _ ← takeWhile (· != '\n')

def beginsWord (c : Char) : Bool :=
  Text.isLetter c || c == '_'

def continuesWord (c : Char) : Bool :=
  Text.isLetter c || Text.isNumeral c || c == '_'

/-- Reads a word: a keyword or an identifier. -/
def word : Scan Token := do
  let chars ← takeWhile continuesWord
  return Token.ofWord (String.ofList chars)

/-- Reads a number: digits, and with a point behind them a binary64 number. -/
def number : Scan Token := do
  let whole ← takeWhile Text.isDigit
  if (← get).current = some '.' then
    let point ← shift
    let fraction ← takeWhile Text.isDigit
    let x ← (Decimal.readFloat (String.ofList (whole ++ point ++ fraction)) : Except Fault Float)
    return Token.plain .float (.float x)
  else
    let z ← (Decimal.readInteger (String.ofList whole) : Except Fault Int)
    return Token.plain .number (.int z)

/-- The character that a backslash and `c` stand for. -/
def escaped (c : Char) : Char :=
  if c = 'n' then '\n' else if c = 't' then '\t' else c

/-- Reads one character of a string literal, or two that stand for one. A backslash that ends the
source stands for itself. -/
def stringChar : Scan (List Char) := do
  let s ← get
  if s.current = some '\\' && s.position + 1 < s.source.size then
    advance
    let chars ← shift
    return chars.map escaped
  else
    shift

/-- Reads a string literal, from its opening quote to its closing one. -/
def string : Scan Token := do
  advance
  let s ← get
  let chars ← collectWhile (holds (· != Text.doubleQuote)) stringChar s.togo
  if (← get).current = some Text.doubleQuote then
    advance
    return Token.plain .string (.str (String.ofList chars.flatten))
  else
    throw .unclosedString

/-- Whether two slashes begin here. -/
def beginsComment (s : Scanner) : Except Fault Bool :=
  if s.current = some '/' && s.position + 1 < s.source.size then do
    return (← s.charAt (s.position + 1)) = some '/'
  else
    return false

/-- Reads a bracket or an operator sign. -/
def sign (c : Char) : Scan Token := do
  let s ← get
  match Token.brackets.lookup c, Token.signs.lookup c with
  | some kind, _ =>
    advance
    return Token.placed kind (.str c.toString) s.line s.column
  | none, some kind =>
    advance
    return Token.plain kind (.str c.toString)
  | none, none =>
    if c = '=' then
      advance
      if (← get).current = some '=' then
        advance
        return Token.plain .equals (.str "==")
      else
        return Token.plain .assign (.str "=")
    else
      throw (.unrecognized c s.position s.line s.column)

/-- Reads one lexeme; blanks and comments make no token. -/
def lexeme : Scan (List Token) := do
  let s ← get
  match s.current with
  | none => return []
  | some c =>
    if Text.isBlank c then
      skipBlanks
      return []
    else if ← s.beginsComment then
      advance
      advance
      skipComment
      return []
    else if beginsWord c then
      return [← word]
    else if Text.isDigit c then
      return [← number]
    else if c = Text.doubleQuote then
      return [← string]
    else
      return [← sign c]

/-- Reads lexemes until no character is held. -/
def lexemes : Scan (List Token) := do
  let s ← get
  let tokens ← collectWhile (·.current.isSome) lexeme s.togo
  return tokens.flatten

/-- Reads the tokens of a source. Without a source, or with an empty one, the scanner goes on from
where it stands. -/
def tokenize (source : Option String) : Scan (List Token) := do
  match source with
  | some text => if text ≠ "" then set (ofSource text)
  | none => pure ()
  lexemes

/-- The token of the held list at the scanner's position; a negative position counts from the end
of the list. -/
def nextToken (s : Scanner) : Except Fault (Option Token) :=
  if 0 ≤ s.position then .ok s.tokens[s.position.toNat]?
  else if 0 ≤ s.position + s.tokens.length then
    .ok s.tokens[(s.position + s.tokens.length).toNat]?
  else .error .tokenListIndex

end Scanner

def Token.ofSource (source : String) : Except Fault (List Token) :=
  match Scanner.lexemes.run (Scanner.ofSource source) with
  | .ok tokens _ => .ok tokens
  | .error fault _ => .error fault

end Scriptlet
