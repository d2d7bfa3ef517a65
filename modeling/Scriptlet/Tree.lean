import Scriptlet.Value

/-!
# Syntax trees

Programs as the grammar builds them, and their nodes: the same trees as records with named fields,
which is the form that is run, saved and shown. Names and literals are values, because they come
from the fields of tokens.
-/
namespace Scriptlet

inductive Expr where
  | string (value line : Value)
  | number (value line : Value)
  | var (name line : Value)
  | call (name : Value) (arguments : List Expr) (line : Value)
  | sum (left right : Expr) (line : Value)

inductive Stmt where
  | assign (name : Value) (value : Expr) (line : Value)
  | print (expression : Expr) (newline : Bool) (line : Value)
  | call (name : Value) (arguments : List Expr)

/-- A declaration: a function, or a block that is run when the program is entered. -/
inductive Decl where
  | function (name : Value) (params : List Value) (body : List Stmt)
  | entry (body : List Stmt)

structure Program where
  body : List Decl

mutual

def Expr.toNode : Expr → Value
  | .string value line =>
    .record [("type", .str "StringLiteral"), ("value", value), ("line", line)]
  | .number value line =>
    .record [("type", .str "NumericLiteral"), ("value", value), ("line", line)]
  | .var name line =>
    .record [("type", .str "Identifier"), ("name", name), ("line", line)]
  | .call name arguments line =>
    .record [("type", .str "FunctionCall"), ("name", name),
      ("arguments", .list (Expr.toNodes arguments)), ("line", line)]
  | .sum left right line =>
    .record [("type", .str "BinaryExpression"), ("operator", .str "+"), ("left", left.toNode),
      ("right", right.toNode), ("line", line)]

def Expr.toNodes : List Expr → List Value
  | [] => []
  | e :: rest => e.toNode :: Expr.toNodes rest

end

def Stmt.toNode : Stmt → Value
  | .assign name value line =>
    .record [("type", .str "AssignmentStatement"), ("name", name), ("value", value.toNode),
      ("line", line)]
  | .print expression newline line =>
    .record [("type", .str "PrintStatement"), ("expression", expression.toNode),
      ("newline", .bool newline), ("line", line)]
  | .call name arguments =>
    .record [("type", .str "CallStatement"), ("name", name),
      ("arguments", .list (Expr.toNodes arguments))]

def Stmt.blockNode (body : List Stmt) : Value :=
  .list (body.map Stmt.toNode)

def Decl.toNode : Decl → Value
  | .function name params body =>
    .record [("type", .str "FunctionDeclaration"), ("name", name), ("params", .list params),
      ("body", Stmt.blockNode body)]
  | .entry body =>
    .record [("type", .str "EntryPoint"), ("body", Stmt.blockNode body)]

def Program.toNode (program : Program) : Value :=
  .record [("type", .str "Program"), ("body", .list (program.body.map Decl.toNode))]

end Scriptlet
