import Scriptlet.Name
import Scriptlet.Value.Display

/-!
# Tokens

A token is a short row of values: its kind, its value and, for brackets, the line and the column
where it stands. Rows from outside may be of any length and hold any values, and each access says
what happens where a value is missing.
-/
namespace Scriptlet

/-- The kinds of tokens that sources are made of. -/
inductive Token.Kind where
  | func | enter | call | print | println | ifWord | elseWord | whileWord | forWord | returnWord
  | assign | identifier | number | float | string
  | leftBrace | rightBrace | leftParen | rightParen
  | semicolon | comma | colon | plus | minus | multiply | divide | equals
  deriving DecidableEq, Repr

/-- The word that stands for a kind in a token. -/
def Token.Kind.label : Token.Kind → String
  | func => "FUNC"
  | enter => "ENTER"
  | call => "CALL"
  | print => "PRINT"
  | println => "PRINTLN"
  | ifWord => "IF"
  | elseWord => "ELSE"
  | whileWord => "WHILE"
  | forWord => "FOR"
  | returnWord => "RETURN"
  | assign => "ASSIGN"
  | identifier => "IDENTIFIER"
  | number => "NUMBER"
  | float => "FLOAT"
  | string => "STRING"
  | leftBrace => "LBRACE"
  | rightBrace => "RBRACE"
  | leftParen => "LPAREN"
  | rightParen => "RPAREN"
  | semicolon => "SEMICOLON"
  | comma => "COMMA"
  | colon => "COLON"
  | plus => "PLUS"
  | minus => "MINUS"
  | multiply => "MULTIPLY"
  | divide => "DIVIDE"
  | equals => "EQUALS"

/-- A token: its kind, its value, its line and its column, as far as they are known. -/
structure Token where
  fields : List Value

namespace Token

/-- A token that does not know where it stands. -/
def plain (kind : Kind) (value : Value) : Token :=
  ⟨[.str kind.label, value]⟩

def placed (kind : Kind) (value : Value) (line column : Nat) : Token :=
  ⟨[.str kind.label, value, .int line, .int column]⟩

/-- Whether the first field is equal to the given label. -/
def hasLabel (label : Value) (token : Token) : Bool :=
  token.fields.head?.any label.same

def isOf (kind : Kind) (token : Token) : Bool :=
  token.hasLabel (.str kind.label)

/-- Whether the token has no fields at all; such a token counts as missing. -/
def isBare (token : Token) : Bool :=
  token.fields.isEmpty

/-- The first field. -/
def label : Token → Except Fault Value
  | ⟨label :: _⟩ => .ok label
  | _ => .error .tokenField

/-- The second field. -/
def value : Token → Except Fault Value
  | ⟨_ :: value :: _⟩ => .ok value
  | _ => .error .tokenField

/-- What stands in place of a line or a column that is not known. -/
def unknown : Value :=
  .str "unknown"

def line : Token → Value
  | ⟨_ :: _ :: line :: _⟩ => line
  | _ => unknown

def column : Token → Value
  | ⟨_ :: _ :: _ :: column :: _⟩ => column
  | _ => unknown

/-- The text of a token: its fields between parentheses, a single one with a comma behind it. -/
def quoted (token : Token) : Except Fault String := do
  match ← Value.quotedItems token.fields with
  | [only] => return "(" ++ only ++ ",)"
  | fields => return "(" ++ ", ".intercalate fields ++ ")"

end Token

end Scriptlet
