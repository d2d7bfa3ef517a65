import Scriptlet.Machine

/-!
# Running nodes

One rule for each type of node. The rules take the functions that visit the nodes inside as
parameters, `visit` for a node that stands alone and `inner` for one that stands in a list, and
`bind` for the way in which parameters are bound. `Machine.visit` closes the circle: `depth` bounds
how deeply visits may nest. A visit takes two levels, and one in a list takes three.

A call runs the body of a function in the caller's scope, and the scope is put back when the body
has ended; a body that does not end leaves its own scope. A call statement binds the parameters
to the values of the arguments, as far as there are both. A call inside an expression does not look
at its arguments.
-/
namespace Scriptlet.Machine

/-- How deeply visits may nest when a program is run. -/
def maxDepth : Nat := 990

/-- A way to visit a node. -/
abbrev Visitor := Value → Run Value

def field (name : String) (node : Value) : Run Value :=
  node.field name

/-- Visits nodes in order and collects their values. -/
def values (visit : Visitor) (nodes : List Value) : Run (List Value) :=
  nodes.mapM visit

/-- Visits nodes in order; the value is that of the last one. -/
def runAll (visit : Visitor) (nodes : List Value) : Run Value :=
  nodes.foldlM (fun _ node => visit node) .null

def runBlock (visit : Visitor) (block : Value) : Run Value := do
  runAll visit (← block.items)

def print (visit : Visitor) : Visitor := fun node => do
  let value ← visit (← field "expression" node)
  let newline ← field "newline" node
  write " " (if newline.isTrue then "\n" else "") [value]
  return .null

/-- Pauses for as long as the first argument says. -/
def pause [Clock] : List Value → Run Value
  | [] => throw (.fault .pauseLength)
  | seconds :: _ => do
    emit (.pause (← seconds.toPause))
    return .null

/-- Leaves the program with the first argument as its code, or with zero. -/
def leave : List Value → Run Value
  | [] => throw (.leave 0)
  | code :: _ => do
    throw (.leave (← code.toInteger))

inductive Builtin where
  | print | println | sleep | exit

def Builtin.ofName? (name : Value) : Option Builtin :=
  if name.isText "print" then some .print
  else if name.isText "println" then some .println
  else if name.isText "sleep" then some .sleep
  else if name.isText "exit" then some .exit
  else none

/-- The built-in functions that a call statement reaches: those that print are statements of their
own. -/
def Builtin.ofStatement? (name : Value) : Option Builtin :=
  match Builtin.ofName? name with
  | some .sleep => some .sleep
  | some .exit => some .exit
  | _ => none

def Builtin.run [Clock] : Builtin → List Value → Run Value
  | .print, arguments => do
    write " " "" arguments
    return .null
  | .println, arguments => do
    write " " "\n" arguments
    return .null
  | .sleep, arguments => pause arguments
  | .exit, arguments => leave arguments

/-- The node of a declared function; `node` is the call, which tells the line. -/
def functionNode (name node : Value) : Run Value := do
  match (← get).functions.get? (← Name.ofValue name) with
  | some function => return function
  | none =>
    let line := (node.field? "line").getD (.str "unknown")
    throw (.fault (.undefinedFunction (← name.display) (← line.display)))

/-- Runs the body of a function and puts the scope back to `scope` when it has ended. -/
def runBody (inner : Visitor) (scope : Table Value) (function : Value) : Run Value := do
  let result ← runBlock inner (← field "body" function)
  modify fun m => { m with scope := scope }
  return result

/-- A way to bind parameters to values. -/
abbrev Binder := List Value → List Value → Run Unit

/-- Binds parameters to values, as far as there are both. -/
def bindAll : Binder := fun params values =>
  (params.zip values).forM fun (param, value) => do assign (← Name.ofValue param) value

/-- Binds the parameters of a function to the arguments of a call, if there are both. -/
def bindArguments (bind : Binder) (inner : Visitor) (node function : Value) : Run Unit := do
  let arguments := (node.field? "arguments").getD .null
  if arguments.isTrue then
    let params ← field "params" function
    if (← params.length) > 0 then
      let values ← values inner (← arguments.items)
      bind (← params.items) values

def callStatement [Clock] (bind : Binder) (inner : Visitor) : Visitor := fun node => do
  let name ← field "name" node
  match Builtin.ofStatement? name with
  | some builtin =>
    let arguments ← match node.field? "arguments" with
      | some arguments => values inner (← arguments.items)
      | none => pure []
    builtin.run arguments
  | none =>
    let function ← functionNode name node
    let scope := (← get).scope
    bindArguments bind inner node function
    runBody inner scope function

def functionCall [Clock] (inner : Visitor) : Visitor := fun node => do
  let name ← field "name" node
  match Builtin.ofName? name with
  | some builtin =>
    let arguments ← field "arguments" node
    builtin.run (← values inner (← arguments.items))
  | none =>
    let function ← functionNode name node
    runBody inner (← get).scope function

def lookUp : Visitor := fun node => do
  let name ← field "name" node
  match (← get).scope.get? (← Name.ofValue name) with
  | some value => return value
  | none => throw (.fault (.undefinedVariable (← name.display)))

def operator (node : Value) : Run Operator := do
  let sign ← field "operator" node
  match sign with
  | .str text =>
    match Operator.ofSign? text with
    | some operator => return operator
    | none => throw (.fault (.unknownOperator text))
  | other => throw (.fault (.unknownOperator (← other.display)))

def binary (visit : Visitor) : Visitor := fun node => do
  let left ← visit (← field "left" node)
  let right ← visit (← field "right" node)
  Value.combine (← operator node) left right

def assignment (visit : Visitor) : Visitor := fun node => do
  let name ← field "name" node
  let value ← visit (← field "value" node)
  assign (← Name.ofValue name) value
  return value

/-- The rule for nodes of a type. A node of the type `node` is visited again. -/
def rule? [Clock] (bind : Binder) (visit inner : Visitor) (type : String) : Option Visitor :=
  if type = "node" then some visit
  else if type = "FunctionDeclaration" then some fun _ => return .null
  else if type = "EntryPoint" then some fun node => do runBlock inner (← field "body" node)
  else if type = "PrintStatement" then some (print visit)
  else if type = "CallStatement" then some (callStatement bind inner)
  else if type = "FunctionCall" then some (functionCall inner)
  else if type = "StringLiteral" then some (field "value")
  else if type = "NumericLiteral" then some (field "value")
  else if type = "Identifier" then some lookUp
  else if type = "BinaryExpression" then some (binary visit)
  else if type = "AssignmentStatement" then some (assignment visit)
  else none

/-- Runs the rule for a type, if there is one. -/
def runRule (type : String) : Option Visitor → Visitor
  | some rule => rule
  | none => fun _ => throw (.fault (.unknownNode type))

/-- Runs the rule for the type of a node. -/
def dispatch [Clock] (bind : Binder) (visit inner : Visitor) : Visitor := fun node => do
  let type ← (← field "type" node).display
  runRule type (rule? bind visit inner type) node

/-- Visits a node, if there is depth for it. -/
def visit [Clock] : Nat → Visitor
  | depth + 3, node => dispatch bindAll (visit (depth + 1)) (visit depth) node
  | _, _ => throw (.fault .tooDeep)

def execute [Clock] (depth : Nat) (statements : Value) : Run Value :=
  runBlock (visit depth) statements

/-- What a machine makes of a tree: a program leaves it with variables, any other node has a
value. -/
inductive Answer where
  | scope (table : Table Value)
  | value (value : Value)

def declareAll (nodes : List Value) : Run Unit :=
  nodes.forM fun node => do
    if (← field "type" node).isText "FunctionDeclaration" then
      declare (← Name.ofValue (← field "name" node)) node

def enterAll (visit : Visitor) (nodes : List Value) : Run Unit :=
  nodes.forM fun node => do
    if (← field "type" node).isText "EntryPoint" then
      let _ ← runBlock visit (← field "body" node)

/-- Runs a tree. A program declares all its functions before its entry blocks are run in order. -/
def runTree (visit : Visitor) (tree : Value) : Run Answer := do
  if (← field "type" tree).isText "Program" then
    declareAll (← (← field "body" tree).items)
    enterAll visit (← (← field "body" tree).items)
    return .scope (← get).scope
  else
    return .value (← visit tree)

/-- Runs a tree with visits that nest at most so deeply. -/
def interpret [Clock] (depth : Nat) : Value → Run Answer :=
  runTree (visit depth)

end Scriptlet.Machine
