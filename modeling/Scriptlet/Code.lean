import Scriptlet.Value.Display

/-!
# Stack code

Trees of literals and binary operations become code for a stack machine: a literal is loaded, and an
operation follows the code of its two operands. What is no node cannot be compiled, a missing node
makes no code, and neither does a node of any other type.
-/
namespace Scriptlet

/-- An instruction of the stack machine; operands are texts. -/
inductive Instruction where
  | load (operand : String)
  | apply (operator : String)
  deriving DecidableEq, Repr

def Instruction.text : Instruction → String
  | load operand => "LOAD_CONST " ++ operand
  | apply operator => "BINARY_OP " ++ operator

/-- A tree to be compiled: a plain value, or a node with the text that it is shown as and its
members. -/
inductive CodeTree where
  | plain (value : Value)
  | node (text : String) (members : List (String × CodeTree))
  deriving Inhabited

namespace CodeTree

/-- The text of a tree that is used as an operand. -/
def display : CodeTree → Except Fault String
  | plain value => value.display
  | node text _ => .ok text

def isText (text : String) : CodeTree → Bool
  | plain value => value.isText text
  | node .. => false

/-- The member of a tree; only a node has members. -/
def member (name : String) : CodeTree → Except Fault CodeTree
  | plain value => .error (.missingMember value.kindName name)
  | node _ members =>
    match members.lookup name with
    | some tree => .ok tree
    | none => .error (.missingMember "Node" name)

end CodeTree

/-- A step of compiling: it adds to the code, and keeps what is there when it fails. -/
abbrev Emit := EStateM Fault (List Instruction)

namespace Emit

/-- How deeply operations may nest when a tree is compiled. -/
def maxDepth : Nat := 990

def add (instruction : Instruction) : Emit Unit :=
  modify (· ++ [instruction])

def tree : Nat → CodeTree → Emit Unit
  | 0, _ => throw .tooDeep
  | _ + 1, .plain .null => return ()
  | depth + 1, node => do
    let type ← node.member "type"
    if type.isText "Literal" then
      add (.load (← (← node.member "value").display))
    else if type.isText "BinaryOperation" then
      tree depth (← node.member "left")
      tree depth (← node.member "right")
      add (.apply (← (← node.member "operator").display))

/-- Compiles a tree to code of its own. -/
def compile (depth : Nat) (node : CodeTree) : Emit (List Instruction) := do
  set ([] : List Instruction)
  tree depth node
  get

end Emit

end Scriptlet
