import Scriptlet.Machine.Visit
import Scriptlet.Proofs.Step
import Scriptlet.Tree

/-! The rule that runs each node of a syntax tree, as an equation. -/
namespace Scriptlet

theorem Expr.toNodes_eq_map (es : List Expr) : Expr.toNodes es = es.map Expr.toNode := by
  induction es with
  | nil => rw [toNodes, List.map_nil]
  | cons e rest ih => rw [toNodes, List.map_cons, ih]

namespace Machine

section Visit

variable [Clock] (depth : Nat)

/-- A visit that succeeds has three levels to go. -/
theorem exists_depth_of_ok {depth : Nat} {node v : Value} {m m' : Machine}
    (h : (visit depth node).run m = .ok v m') : ∃ d, depth = d + 3 := by
  match depth with
  | 0 | 1 | 2 => cases h
  | d + 3 => exact ⟨d, rfl⟩

theorem visit_string (v line : Value) : visit (depth + 3) (Expr.string v line).toNode = pure v := by
  rw [Expr.toNode]
  rfl

theorem visit_number (v line : Value) : visit (depth + 3) (Expr.number v line).toNode = pure v := by
  rw [Expr.toNode]
  rfl

theorem visit_var (name line : Value) :
    visit (depth + 3) (Expr.var name line).toNode = lookUp (Expr.var name line).toNode := by
  rw [Expr.toNode]
  rfl

theorem visit_sum (left right : Expr) (line : Value) :
    visit (depth + 3) (Expr.sum left right line).toNode = (do
      let a ← visit (depth + 1) left.toNode
      let b ← visit (depth + 1) right.toNode
      Value.combine .plus a b) := by
  rw [Expr.toNode]
  rfl

theorem visit_call (name : Value) (arguments : List Expr) (line : Value) :
    visit (depth + 3) (Expr.call name arguments line).toNode =
      functionCall (visit depth) (Expr.call name arguments line).toNode := by
  rw [Expr.toNode]
  rfl

theorem visit_print (e : Expr) (newline : Bool) (line : Value) :
    visit (depth + 3) (Stmt.print e newline line).toNode = (do
      let value ← visit (depth + 1) e.toNode
      write " " (if newline then "\n" else "") [value]
      return .null) :=
  rfl

theorem visit_assign (name : Value) (e : Expr) (line : Value) :
    visit (depth + 3) (Stmt.assign name e line).toNode = (do
      let value ← visit (depth + 1) e.toNode
      assign (← Name.ofValue name) value
      return value) :=
  rfl

theorem visit_callStatement (name : Value) (arguments : List Expr) :
    visit (depth + 3) (Stmt.call name arguments).toNode =
      callStatement bindAll (visit depth) (Stmt.call name arguments).toNode :=
  rfl

end Visit

section Call

variable {inner : Visitor} {node name : Value} {builtin : Builtin} {nodes : List Value}

theorem liftM_ok_bind {α β : Type} (a : α) (f : α → Run β) :
    ((liftM (.ok a : Except Fault α) : Run α) >>= f) = f a :=
  rfl

theorem functionCall_builtin [Clock] (hname : node.field "name" = .ok name)
    (hbuiltin : Builtin.ofName? name = some builtin)
    (harguments : node.field "arguments" = .ok (.list nodes)) :
    functionCall inner node = (do builtin.run (← values inner nodes)) := by
  rw [functionCall, field, hname, liftM_ok_bind]
  simp only [hbuiltin]
  rw [field, harguments]
  rfl

theorem functionCall_declared [Clock] (hname : node.field "name" = .ok name)
    (hbuiltin : Builtin.ofName? name = none) :
    functionCall inner node = (do
      let function ← functionNode name node
      runBody inner (← get).scope function) := by
  rw [functionCall, field, hname, liftM_ok_bind]
  simp only [hbuiltin]

theorem bindArguments_eq {function : Value} {params : List Value} (bind : Binder) (inner : Visitor)
    (harguments : node.field? "arguments" = some (.list nodes))
    (hparams : function.field "params" = .ok (.list params)) :
    bindArguments bind inner node function =
      (if nodes = [] ∨ params = [] then pure ()
      else do bind params (← values inner nodes)) := by
  rw [bindArguments, harguments]
  cases nodes with
  | nil => rfl
  | cons argument arguments =>
    rw [field, hparams]
    cases params with
    | nil => rfl
    | cons param params => rfl

theorem callStatement_builtin [Clock] (bind : Binder) (hname : node.field "name" = .ok name)
    (hbuiltin : Builtin.ofStatement? name = some builtin)
    (harguments : node.field? "arguments" = some (.list nodes)) :
    callStatement bind inner node = (do builtin.run (← values inner nodes)) := by
  rw [callStatement, field, hname, liftM_ok_bind]
  simp only [hbuiltin, harguments]
  rfl

theorem callStatement_declared [Clock] (bind : Binder) (hname : node.field "name" = .ok name)
    (hbuiltin : Builtin.ofStatement? name = none) :
    callStatement bind inner node = (do
      let function ← functionNode name node
      let scope := (← get).scope
      bindArguments bind inner node function
      runBody inner scope function) := by
  rw [callStatement, field, hname, liftM_ok_bind]
  simp only [hbuiltin]

end Call

section Node

variable (name line : Value) (arguments : List Expr)

theorem field_name_call : (Expr.call name arguments line).toNode.field "name" = .ok name := by
  rw [Expr.toNode]
  rfl

theorem field_arguments_call :
    (Expr.call name arguments line).toNode.field "arguments" =
      .ok (.list (arguments.map Expr.toNode)) := by
  rw [Expr.toNode, ← Expr.toNodes_eq_map]
  rfl

theorem field?_arguments_callStatement :
    (Stmt.call name arguments).toNode.field? "arguments" =
      some (.list (arguments.map Expr.toNode)) := by
  rw [← Expr.toNodes_eq_map]
  rfl

end Node

section Program

variable (visit : Visitor)

theorem runTree_program (program : Program) :
    runTree visit program.toNode = (do
      declareAll (program.body.map Decl.toNode)
      enterAll visit (program.body.map Decl.toNode)
      return .scope (← get).scope) :=
  rfl

theorem enterAll_entry (body : List Stmt) (nodes : List Value) :
    enterAll visit ((Decl.entry body).toNode :: nodes) = (do
      let _ ← runBlock visit (Stmt.blockNode body)
      enterAll visit nodes) := by
  change ((runBlock visit (Stmt.blockNode body) >>= fun _ => pure ()) >>= fun _ => _) = _
  rw [bind_assoc]
  rfl

theorem enterAll_function (name : Value) (params : List Value) (body : List Stmt)
    (nodes : List Value) :
    enterAll visit ((Decl.function name params body).toNode :: nodes) = enterAll visit nodes :=
  rfl

end Program

theorem interpret_program [Clock] (depth : Nat) (program : Program) :
    interpret depth program.toNode = (do
      declareAll (program.body.map Decl.toNode)
      enterAll (visit depth) (program.body.map Decl.toNode)
      return .scope (← get).scope) :=
  runTree_program (visit depth) program

end Machine

end Scriptlet
