import Scriptlet.Token

/-!
# Walking along tokens

A cursor stands before the rest of a list of tokens and counts the tokens that it has passed. A
token without fields counts as missing.
-/
namespace Scriptlet

/-- A place in a list of tokens: the number of tokens before it, and those behind it. -/
structure Cursor where
  position : Nat := 0
  rest : List Token := []

/-- A step of parsing. A failing step leaves the cursor where it failed. -/
abbrev Parse := EStateM Fault Cursor

namespace Cursor

/-- The cursor before the first of the tokens. -/
def ofTokens (tokens : List Token) : Cursor :=
  ⟨0, tokens⟩

/-- The token behind the cursor. -/
def current? (c : Cursor) : Option Token :=
  c.rest.head?

/-- The token after the one behind the cursor. -/
def following? (c : Cursor) : Option Token :=
  c.rest.tail.head?

def next (c : Cursor) : Cursor :=
  ⟨c.position + 1, c.rest.tail⟩

/-- The token behind the cursor, unless it is missing. -/
def token? (c : Cursor) : Option Token :=
  c.current?.filter fun token => !token.isBare

/-- Whether the cursor stands before a token of the kind. -/
def isAt (kind : Token.Kind) (c : Cursor) : Bool :=
  c.token?.any (Token.isOf kind)

/-- Whether the cursor stands before a token of any other kind. -/
def isBefore (kind : Token.Kind) (c : Cursor) : Bool :=
  c.token?.any fun token => !token.isOf kind

end Cursor

namespace Parse

/-- Goes one token further and returns the token there. -/
def advance : Parse (Option Token) := do
  modify Cursor.next
  return (← get).current?

/-- Passes a token whose first field is the given label, and fails before any other one. -/
def expect (label : Value) : Parse Token := do
  match (← get).current? with
  | none => throw (.noLength Value.null.kindName)
  | some token =>
    if token.hasLabel label then
      let _ ← advance
      return token
    else
      throw (.expected (← label.display) (← (← token.label).display) (← token.line.display)
        (← token.column.display))

def expectKind (kind : Token.Kind) : Parse Token :=
  expect (.str kind.label)

/-- The token behind the cursor, which must be there. -/
def token : Parse Token := do
  match (← get).current? with
  | none => throw (.noFields Value.null.kindName)
  | some token =>
    let _ ← token.label
    return token

/-- Fails at a token that begins nothing. -/
def unexpected {α : Type} (token : Token) : Parse α := do
  throw (.unexpectedToken (← token.quoted))

end Parse

end Scriptlet
