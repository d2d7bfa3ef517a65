import Scriptlet.Machine.Visit
import Scriptlet.Proofs.Step

/-! What holds of every visit. A property of steps that the primitive ones have, and that binding
and putting the scope back keep, holds of each rule, and so of every visit at any depth. -/
namespace Scriptlet.Machine

variable {α β : Type}

theorem run_liftM_ok_iff {x : Except Fault α} {a : α} {m m' : Machine} :
    (liftM x : Run α).run m = .ok a m' ↔ x = .ok a ∧ m = m' := by
  cases x with
  | ok b => exact ⟨fun h => by cases h; exact ⟨rfl, rfl⟩, fun ⟨h, hm⟩ => by cases h; cases hm; rfl⟩
  | error fault => exact iff_of_false nofun fun h => nomatch h.1

theorem lookUp_ok_iff {node v : Value} {m m' : Machine} :
    (lookUp node).run m = .ok v m' ↔ ∃ name key, node.field "name" = .ok name ∧
      Name.ofValue name = .ok key ∧ m.scope.get? key = some v ∧ m = m' := by
  constructor
  · intro h
    obtain ⟨name, u, hu, h⟩ := run_bind_ok_iff.mp h
    obtain ⟨hname, rfl⟩ := run_liftM_ok_iff.mp hu
    rw [run_get_bind] at h
    obtain ⟨key, u, hu, h⟩ := run_bind_ok_iff.mp h
    obtain ⟨hkey, rfl⟩ := run_liftM_ok_iff.mp hu
    refine ⟨name, key, hname, hkey, ?_⟩
    split at h
    · next hv =>
      obtain ⟨rfl, rfl⟩ := run_pure_ok_iff.mp h
      exact ⟨hv, rfl⟩
    · obtain ⟨_, _, -, h⟩ := run_bind_ok_iff.mp h
      cases h
  · rintro ⟨name, key, hname, hkey, hv, rfl⟩
    refine run_bind_ok_iff.mpr ⟨name, m, run_liftM_ok_iff.mpr ⟨hname, rfl⟩, ?_⟩
    rw [run_get_bind]
    refine run_bind_ok_iff.mpr ⟨key, m, run_liftM_ok_iff.mpr ⟨hkey, rfl⟩, ?_⟩
    simp only [hv]
    rfl

theorem functionNode_ok_iff {name node function : Value} {m m' : Machine} :
    (functionNode name node).run m = .ok function m' ↔
      ∃ key, Name.ofValue name = .ok key ∧ m.functions.get? key = some function ∧ m = m' := by
  rw [functionNode, run_get_bind]
  constructor
  · intro h
    obtain ⟨key, u, hu, h⟩ := run_bind_ok_iff.mp h
    obtain ⟨hkey, rfl⟩ := run_liftM_ok_iff.mp hu
    refine ⟨key, hkey, ?_⟩
    split at h
    · next hfunction =>
      obtain ⟨rfl, rfl⟩ := run_pure_ok_iff.mp h
      exact ⟨hfunction, rfl⟩
    · obtain ⟨_, _, -, h⟩ := run_bind_ok_iff.mp h
      obtain ⟨_, _, -, h⟩ := run_bind_ok_iff.mp h
      cases h
  · rintro ⟨key, hkey, hfunction, rfl⟩
    refine run_bind_ok_iff.mpr ⟨key, m, run_liftM_ok_iff.mpr ⟨hkey, rfl⟩, ?_⟩
    simp only [hfunction]
    rfl

/-- Runs a step and puts the scope back when it has ended. -/
def restoring (x : Run α) : Run α := do
  let scope := (← get).scope
  let a ← x
  modify fun m => { m with scope := scope }
  return a

theorem run_restoring (x : Run α) (m : Machine) :
    (restoring x).run m = match x.run m with
      | .ok a u => .ok a { u with scope := m.scope }
      | .error stop u => .error stop u := by
  rw [restoring, run_get_bind, EStateM.run_bind]
  cases x.run m <;> rfl

theorem run_restoring_ok_iff {x : Run α} {a : α} {m m' : Machine} :
    (restoring x).run m = .ok a m' ↔
      ∃ u, x.run m = .ok a u ∧ { u with scope := m.scope } = m' := by
  rw [run_restoring]
  cases x.run m <;> simp [and_assoc]

theorem run_restoring_error_iff {x : Run α} {stop : Stop} {m m' : Machine} :
    (restoring x).run m = .error stop m' ↔ x.run m = .error stop m' := by
  rw [run_restoring]
  cases x.run m <;> simp

/-- A call of a declared function inside an expression, once its node is found. -/
theorem runBody_eq_restoring (inner : Visitor) (function : Value) :
    (do runBody inner (← get).scope function : Run Value) =
      restoring (do runBlock inner (← field "body" function)) := by
  simp only [runBody, restoring, bind_assoc]

/-- A call statement that reaches a declared function, once its node is found. -/
theorem bindArguments_runBody_eq_restoring (bind : Binder) (inner : Visitor)
    (node function : Value) :
    (do
      let scope := (← get).scope
      bindArguments bind inner node function
      runBody inner scope function : Run Value) =
      restoring (do
        bindArguments bind inner node function
        runBlock inner (← field "body" function)) := by
  simp only [runBody, restoring, bind_assoc]

/-- The types that there are rules for. -/
def ruleTypes : List String :=
  ["node", "FunctionDeclaration", "EntryPoint", "PrintStatement", "CallStatement", "FunctionCall",
    "StringLiteral", "NumericLiteral", "Identifier", "BinaryExpression", "AssignmentStatement"]

section Cases

variable {motive : String → Option Visitor → Prop} {type name : String}

theorem rule?_cases_ite {rule : Visitor} {other : Option Visitor} (hrule : motive name (some rule))
    (hother : type ≠ name → motive type other) :
    motive type (if type = name then some rule else other) := by
  split
  · next h => exact h ▸ hrule
  · next h => exact hother h

/-- What holds of each rule with its type, and of no rule with any other type, holds of the rule for
every type. -/
theorem rule?_cases [Clock] {bind : Binder} {visit inner : Visitor}
    (hnode : motive "node" (some visit))
    (hdeclaration : motive "FunctionDeclaration" (some fun _ => return .null))
    (hentry : motive "EntryPoint" (some fun node => do runBlock inner (← field "body" node)))
    (hprint : motive "PrintStatement" (some (print visit)))
    (hstatement : motive "CallStatement" (some (callStatement bind inner)))
    (hcall : motive "FunctionCall" (some (functionCall inner)))
    (hliteral : ∀ name ∈ ["StringLiteral", "NumericLiteral"], motive name (some (field "value")))
    (hvariable : motive "Identifier" (some lookUp))
    (hbinary : motive "BinaryExpression" (some (binary visit)))
    (hassignment : motive "AssignmentStatement" (some (assignment visit)))
    (hother : ∀ type, type ∉ ruleTypes → motive type none) :
    motive type (rule? bind visit inner type) := by
  have hstring := hliteral _ List.mem_cons_self
  have hnumber := hliteral _ (List.mem_cons_of_mem _ List.mem_cons_self)
  refine rule?_cases_ite hnode fun h₁ => rule?_cases_ite hdeclaration fun h₂ => ?_
  refine rule?_cases_ite hentry fun h₃ => rule?_cases_ite hprint fun h₄ => ?_
  refine rule?_cases_ite hstatement fun h₅ => rule?_cases_ite hcall fun h₆ => ?_
  refine rule?_cases_ite hstring fun h₇ => rule?_cases_ite hnumber fun h₈ => ?_
  refine rule?_cases_ite hvariable fun h₉ => rule?_cases_ite hbinary fun h₁₀ => ?_
  refine rule?_cases_ite hassignment fun h₁₁ => hother type ?_
  simp [ruleTypes, *]

end Cases

/-- A property of steps that do not look at the machine. -/
structure Elementary (P : ∀ {α : Type}, Run α → Prop) : Prop where
  pure {α : Type} (a : α) : P (pure a)
  throw {α : Type} (stop : Stop) : P (throw stop : Run α)
  bind {α β : Type} {x : Run α} {f : α → Run β} : P x → (∀ a, P (f a)) → P (x >>= f)
  emit (event : Event) : P (emit event)

namespace Elementary

variable {P : ∀ {α : Type}, Run α → Prop} (hP : Elementary P)

include hP

theorem lift (x : Except Fault α) : P (liftM x : Run α) := by
  cases x with
  | ok a => exact hP.pure a
  | error fault => exact hP.throw _

theorem write (separator ending : String) (vs : List Value) : P (write separator ending vs) := by
  induction vs with
  | nil => exact hP.emit _
  | cons v rest ih =>
    cases rest with
    | nil => exact hP.bind (hP.lift _) fun _ => hP.bind (hP.emit _) fun _ => hP.emit _
    | cons w rest =>
      exact hP.bind (hP.lift _) fun _ => hP.bind (hP.emit _) fun _ =>
        hP.bind (hP.emit _) fun _ => ih

theorem builtin [Clock] (b : Builtin) (arguments : List Value) : P (b.run arguments) := by
  cases b with
  | print => exact hP.bind (hP.write _ _ _) fun _ => hP.pure _
  | println => exact hP.bind (hP.write _ _ _) fun _ => hP.pure _
  | sleep =>
    cases arguments with
    | nil => exact hP.throw _
    | cons v rest => exact hP.bind (hP.lift _) fun _ => hP.bind (hP.emit _) fun _ => hP.pure _
  | exit =>
    cases arguments with
    | nil => exact hP.throw _
    | cons v rest => exact hP.bind (hP.lift _) fun _ => hP.throw _

theorem operator (node : Value) : P (operator node) := by
  refine hP.bind (hP.lift _) fun sign => ?_
  split
  · split
    · exact hP.pure _
    · exact hP.throw _
  · exact hP.bind (hP.lift _) fun _ => hP.throw _

end Elementary

/-- A property of the primitive steps that larger ones inherit. -/
structure Pervasive (P : ∀ {α : Type}, Run α → Prop) : Prop extends Elementary P where
  assign (name : Name) (value : Value) : P (assign name value)
  lookUp (node : Value) : P (lookUp node)
  functionNode (name node : Value) : P (functionNode name node)
  restoring {α : Type} {x : Run α} : P x → P (restoring x)

namespace Pervasive

variable {P : ∀ {α : Type}, Run α → Prop} (hP : Pervasive P)

include hP

theorem bindAll (params vs : List Value) : P (bindAll params vs) := by
  rw [Machine.bindAll]
  induction params.zip vs with
  | nil => exact hP.pure _
  | cons entry rest ih => exact hP.bind (hP.bind (hP.lift _) fun _ => hP.assign _ _) fun _ => ih

section Visitor

variable {bind : Binder} (hbind : ∀ params vs, P (bind params vs)) {visit : Visitor}
  (hvisit : ∀ node, P (visit node))

include hvisit

theorem values (nodes : List Value) : P (values visit nodes) := by
  induction nodes with
  | nil => exact hP.pure _
  | cons node rest ih =>
    rw [Machine.values, List.mapM_cons]
    exact hP.bind (hvisit node) fun v => hP.bind ih fun vs => hP.pure _

theorem runBlock (block : Value) : P (runBlock visit block) := by
  refine hP.bind (hP.lift _) fun nodes => ?_
  rw [runAll]
  generalize Value.null = start
  induction nodes generalizing start with
  | nil => exact hP.pure _
  | cons node rest ih =>
    rw [List.foldlM_cons]
    exact hP.bind (hvisit node) ih

include hbind in
theorem bindArguments (node function : Value) : P (bindArguments bind visit node function) := by
  rw [Machine.bindArguments]
  split
  · refine hP.bind (hP.lift _) fun params => hP.bind (hP.lift _) fun n => ?_
    split
    · exact hP.bind (hP.lift _) fun nodes => hP.bind (hP.values hvisit nodes) fun vs =>
        hP.bind (hP.lift _) fun params => hbind _ _
    · exact hP.pure _
  · exact hP.pure _

include hbind in
theorem callStatement [Clock] (node : Value) : P (callStatement bind visit node) := by
  refine hP.bind (hP.lift _) fun name => ?_
  cases Builtin.ofStatement? name with
  | some builtin =>
    cases node.field? "arguments" with
    | some arguments =>
      exact hP.bind (hP.lift _) fun nodes =>
        hP.bind (hP.values hvisit nodes) (hP.builtin builtin)
    | none => exact hP.builtin builtin []
  | none =>
    refine hP.bind (hP.functionNode name node) fun function => ?_
    rw [bindArguments_runBody_eq_restoring]
    exact hP.restoring (hP.bind (hP.bindArguments hbind hvisit node function) fun _ =>
      hP.bind (hP.lift _) (hP.runBlock hvisit))

theorem functionCall [Clock] (node : Value) : P (functionCall visit node) := by
  refine hP.bind (hP.lift _) fun name => ?_
  cases Builtin.ofName? name with
  | some builtin =>
    exact hP.bind (hP.lift _) fun arguments => hP.bind (hP.lift _) fun nodes =>
      hP.bind (hP.values hvisit nodes) (hP.builtin builtin)
  | none =>
    refine hP.bind (hP.functionNode name node) fun function => ?_
    rw [runBody_eq_restoring]
    exact hP.restoring (hP.bind (hP.lift _) (hP.runBlock hvisit))

theorem print (node : Value) : P (print visit node) :=
  hP.bind (hP.lift _) fun e => hP.bind (hvisit e) fun _ => hP.bind (hP.lift _) fun _ =>
    hP.bind (hP.write _ _ _) fun _ => hP.pure _

theorem binary (node : Value) : P (binary visit node) :=
  hP.bind (hP.lift _) fun left => hP.bind (hvisit left) fun _ => hP.bind (hP.lift _) fun right =>
    hP.bind (hvisit right) fun _ => hP.bind (hP.operator node) fun _ => hP.lift _

theorem assignment (node : Value) : P (assignment visit node) :=
  hP.bind (hP.lift _) fun _ => hP.bind (hP.lift _) fun e => hP.bind (hvisit e) fun _ =>
    hP.bind (hP.lift _) fun _ => hP.bind (hP.assign _ _) fun _ => hP.pure _

include hbind in
theorem dispatch [Clock] {inner : Visitor} (hinner : ∀ node, P (inner node)) (node : Value) :
    P (dispatch bind visit inner node) := by
  refine hP.bind (hP.lift _) fun type => hP.bind (hP.lift _) fun type => ?_
  apply rule?_cases (motive := fun type rule => P (runRule type rule node))
  case hnode => exact hvisit node
  case hdeclaration => exact hP.pure _
  case hentry => exact hP.bind (hP.lift _) (hP.runBlock hinner)
  case hprint => exact hP.print hvisit node
  case hstatement => exact hP.callStatement hbind hinner node
  case hcall => exact hP.functionCall hinner node
  case hliteral => exact fun _ _ => hP.lift _
  case hvariable => exact hP.lookUp node
  case hbinary => exact hP.binary hvisit node
  case hassignment => exact hP.assignment hvisit node
  case hother => exact fun _ _ => hP.throw _

theorem enterAll (nodes : List Value) : P (enterAll visit nodes) := by
  induction nodes with
  | nil => exact hP.pure _
  | cons node rest ih =>
    refine hP.bind (hP.bind (hP.lift _) fun type => ?_) fun _ => ih
    cases type.isText "EntryPoint" with
    | true =>
      exact hP.bind (hP.lift _) fun body => hP.bind (hP.runBlock hvisit body) fun _ => hP.pure _
    | false => exact hP.pure _

end Visitor

theorem visit [Clock] (depth : Nat) : ∀ node, P (visit depth node) := by
  induction depth using Nat.strongRecOn with
  | ind depth ih =>
    intro node
    match depth with
    | 0 | 1 | 2 => exact hP.throw _
    | d + 3 => exact hP.dispatch hP.bindAll (ih (d + 1) (by omega)) (ih d (by omega)) node

theorem execute [Clock] (depth : Nat) (statements : Value) : P (execute depth statements) :=
  hP.runBlock (hP.visit depth) statements

end Pervasive

end Scriptlet.Machine
