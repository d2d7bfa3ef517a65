import Scriptlet.Fault
import Scriptlet.Text.Character
import Scriptlet.Text.Letter
import Scriptlet.Token

/-!
# The vocabulary

The words and signs of the language as editors know them, and a check that brackets are balanced.
-/
namespace Scriptlet.Vocabulary

/-- The words that no name may be, in alphabetical order. -/
def keywords : List String :=
  ["call", "else", "enter", "for", "func", "if", "print", "println", "return", "while"]

/-- The signs of operators, ordered by their characters. -/
def operators : List String :=
  ["!=", "*", "+", "-", "/", "<", "<=", "=", "==", ">", ">="]

/-- The signs that divide, ordered by their characters. -/
def delimiters : List String :=
  ["(", ")", ",", ":", ";", "\x7b", "\x7d"]

def isKeyword (text : String) : Bool :=
  keywords.contains text

def isOperator (text : String) : Bool :=
  operators.contains text

def isDelimiter (text : String) : Bool :=
  delimiters.contains text

/-- Whether a text may be a name: letters, numerals and underscores, no digit first, and no
keyword. -/
def isIdentifier (text : String) : Bool :=
  match text.toList with
  | [] => false
  | first :: rest =>
    !Text.isDigit first &&
      (first :: rest).all (fun c => Text.isLetter c || Text.isNumeral c || c == '_') &&
      !isKeyword text

/-- Whether a text is a literal: digits only, or at least two characters of which the first and the
last are double quotes. -/
def isLiteral (text : String) : Bool :=
  let chars := text.toList
  !chars.isEmpty &&
    (chars.all Text.isDigit ||
      (2 ≤ chars.length && chars.head? == some Text.doubleQuote &&
        chars.getLast? == some Text.doubleQuote))

/-- The brackets that are open, the innermost first. -/
abbrev Open := List Token.Kind

/-- Closes the innermost bracket, which must be of the given kind. -/
def close (kind : Token.Kind) : Open → Option Open
  | innermost :: rest => if innermost = kind then some rest else none
  | [] => none

/-- The brackets that are open behind a token, or `none` where it closes what is not open. -/
def afterToken (opened : Open) (token : Token) : Option Open :=
  if token.isOf .leftParen then some (.leftParen :: opened)
  else if token.isOf .rightParen then close .leftParen opened
  else if token.isOf .leftBrace then some (.leftBrace :: opened)
  else if token.isOf .rightBrace then close .leftBrace opened
  else some opened

/-- Whether the brackets among tokens are balanced, with the given ones open in front. Each token
that is looked at must be a pair. -/
def balancedFrom (opened : Open) : List Token → Except Fault Bool
  | [] => .ok opened.isEmpty
  | token :: rest =>
    if token.fields.length = 2 then
      match afterToken opened token with
      | some opened => balancedFrom opened rest
      | none => .ok false
    else .error (.notPair token.fields.length)

def balanced (tokens : List Token) : Except Fault Bool :=
  balancedFrom [] tokens

end Scriptlet.Vocabulary
