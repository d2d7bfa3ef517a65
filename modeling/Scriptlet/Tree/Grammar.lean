import Scriptlet.Tree
import Scriptlet.Tree.Cursor

/-!
# The grammar

One function for each rule of the grammar, reading tokens and building syntax trees:

* a program is a sequence of function declarations and entry blocks;
* a block is a sequence of statements between braces;
* a statement prints, calls or assigns;
* an expression is an operand, or an operand, a plus and an expression.

Expressions nest, and `depth` bounds how many rules of expressions may be open at once.
-/
namespace Scriptlet.Parse

/-- How many rules of expressions may be open at once when a source is parsed. -/
def maxDepth : Nat := 985

/-- Items with commas between them, up to a closing parenthesis; none before one. -/
def commaList {α : Type} (item : Parse α) : Parse (List α) := do
  if (← get).isBefore .rightParen then
    let first ← item
    let another : Parse α := do
      let _ ← advance
      item
    let others ← collectWhile (Cursor.isAt .comma) another (← get).rest.length
    return first :: others
  else
    return []

/-- Items between parentheses, of which the opening one is behind the cursor. -/
def parenthesized {α : Type} (item : Parse α) : Parse (List α) := do
  let _ ← advance
  let items ← commaList item
  let _ ← expectKind .rightParen
  return items

/-- Items between parentheses, or nothing at all. -/
def optionalList {α : Type} (item : Parse α) : Parse (List α) := do
  if (← get).isAt .leftParen then parenthesized item else return []

/-- The name that an identifier token holds. -/
def name : Parse Value := do
  (← expectKind .identifier).value

mutual

def expression : Nat → Parse Expr
  | 0 => throw .tooDeep
  | depth + 1 => sum depth

/-- An operand, and what is added to it. -/
def sum : Nat → Parse Expr
  | 0 => throw .tooDeep
  | depth + 1 => do
    let left ← operand depth
    match (← get).token? with
    | some token =>
      if token.isOf .plus then
        let _ ← advance
        let right ← sum depth
        return .sum left right token.line
      else
        return left
    | none => return left

/-- An operand: an expression in parentheses, a literal, a variable or a call. -/
def operand : Nat → Parse Expr
  | 0 => throw .tooDeep
  | depth + 1 => do
    let token ← token
    if token.isOf .leftParen then
      let _ ← advance
      let inner ← expression depth
      let _ ← expectKind .rightParen
      return inner
    else if token.isOf .string then
      let value ← token.value
      let _ ← advance
      return .string value token.line
    else if token.isOf .number then
      let value ← token.value
      let _ ← advance
      return .number value token.line
    else if token.isOf .identifier then
      let value ← token.value
      let _ ← advance
      if (← get).isAt .leftParen then
        return .call value (← parenthesized (expression depth)) token.line
      else
        return .var value token.line
    else
      throw (.notExpression (← (← token.label).display) (← token.line.display)
        (← token.column.display))

end

/-- What a print statement prints. An opening parenthesis right behind the keyword encloses all of
it. -/
def printed (depth : Nat) : Parse Expr := do
  if (← get).isAt .leftParen then
    let _ ← expectKind .leftParen
    let inner ← expression depth
    let _ ← expectKind .rightParen
    return inner
  else
    expression depth

/-- A statement that prints, with or without ending the line. -/
def printStatement (depth : Nat) (keyword : Token.Kind) (newline : Bool) : Parse Stmt := do
  let token ← expectKind keyword
  let inner ← printed depth
  let _ ← expectKind .semicolon
  return .print inner newline token.line

def callStatement (depth : Nat) : Parse Stmt := do
  let _ ← expectKind .call
  let function ← name
  let arguments ← optionalList (expression depth)
  let _ ← expectKind .semicolon
  return .call function arguments

def assignment (depth : Nat) : Parse Stmt := do
  let token ← expectKind .assign
  let target ← name
  let _ ← expectKind .assign
  let value ← expression depth
  let _ ← expectKind .semicolon
  return .assign target value token.line

/-- The kinds that begin a statement without a rule, with the name of the rule that is missing. -/
def missingRules : List (Token.Kind × String) :=
  [(.ifWord, "parse_if_statement"), (.whileWord, "parse_while_statement"),
   (.forWord, "parse_for_statement"), (.returnWord, "parse_return_statement"),
   (.identifier, "parse_assignment")]

def statement (depth : Nat) : Parse Stmt := do
  match (← get).token? with
  | none => throw .unexpectedEnd
  | some token =>
    if token.isOf .print then printStatement depth .print false
    else if token.isOf .println then printStatement depth .println true
    else if token.isOf .call then callStatement depth
    else if token.isOf .assign then assignment depth
    else match missingRules.find? fun entry => token.isOf entry.1 with
      | some (_, rule) => throw (.noStatementRule rule)
      | none => unexpected token

/-- Statements between braces. -/
def block (depth : Nat) : Parse (List Stmt) := do
  let _ ← expectKind .leftBrace
  let body ← collectWhile (Cursor.isBefore .rightBrace) (statement depth) (← get).rest.length
  let _ ← expectKind .rightBrace
  return body

def functionDeclaration (depth : Nat) : Parse Decl := do
  let _ ← expectKind .func
  let _ ← expectKind .colon
  let token ← expectKind .identifier
  let params ← optionalList name
  let body ← block depth
  return .function (← token.value) params body

def entryBlock (depth : Nat) : Parse Decl := do
  let _ ← expectKind .enter
  return .entry (← block depth)

def declaration (depth : Nat) : Parse Decl := do
  match (← get).token? with
  | none => throw .unexpectedEnd
  | some token =>
    if token.isOf .func then functionDeclaration depth
    else if token.isOf .enter then entryBlock depth
    else unexpected token

/-- Declarations until no token is left. -/
def program (depth : Nat) : Parse Program := do
  let body ← collectWhile (·.token?.isSome) (declaration depth) (← get).rest.length
  return ⟨body⟩

/-- The program of a list of tokens. Without tokens the cursor goes on from where it stands. -/
def parse (depth : Nat) (tokens : List Token) : Parse Program := do
  if !tokens.isEmpty then set (Cursor.ofTokens tokens)
  program depth

end Scriptlet.Parse

namespace Scriptlet

/-- The program of a list of tokens, read from its beginning. -/
def Program.ofTokens (depth : Nat) (tokens : List Token) : Except Fault Program :=
  match (Parse.program depth).run (Cursor.ofTokens tokens) with
  | .ok program _ => .ok program
  | .error fault _ => .error fault

end Scriptlet
