import Scriptlet.Proofs.Frame

/-! What a run that fails leaves in the scope. A call puts the scope of its caller back only when
its body has ended, so a failure leaves the settings of every call that was still running:
parameters that were bound and variables that were assigned, in the order in which they were set. -/
namespace Scriptlet.Machine

/-- The settings of variables that a step makes and does not take back, from each machine. -/
abbrev Settings := Machine → Table Value

variable {α β : Type}

/-- However the step ends, the scope is the one before it with the settings made. -/
def Sets (x : Run α) (settings : Settings) : Prop :=
  ∀ m, scopeOf (x.run m) = m.scope.setAll (settings m)

/-- What is set behind a step, if it succeeds. -/
def after (x : Run α) (settings : α → Settings) (m : Machine) : Table Value :=
  match x.run m with
  | .ok a m' => settings a m'
  | .error _ _ => []

/-- What is set if a step fails; one that succeeds takes it back. -/
def unlessDone (x : Run α) (settings : Settings) (m : Machine) : Table Value :=
  match x.run m with
  | .ok _ _ => []
  | .error _ _ => settings m

/-- Parameters with their values, up to one that is no name. -/
def bindings : List (Value × Value) → Table Value
  | [] => []
  | (param, value) :: rest =>
    match Name.ofValue param with
    | .ok name => (name, value) :: bindings rest
    | .error _ => []

section Rules

variable (visit : Visitor) (settings : Value → Settings)

/-- The settings of nodes that are visited in order, as far as they succeed. -/
def settingsOfAll : List Value → Settings
  | [] => fun _ => []
  | node :: rest => fun m =>
    settings node m ++ after (visit node) (fun _ => settingsOfAll rest) m

def settingsOfBlock (block : Value) : Settings :=
  after (liftM block.items : Run (List Value)) (settingsOfAll visit settings)

def settingsOfBody (function : Value) : Settings :=
  after (field "body" function) (settingsOfBlock visit settings)

/-- The settings of the arguments of a call, and the parameters that are bound to their values. -/
def settingsOfArguments (node function : Value) : Settings :=
  let arguments := (node.field? "arguments").getD .null
  if arguments.isTrue then
    after (field "params" function) fun params =>
      after (liftM params.length : Run Nat) fun n =>
        if n > 0 then
          after (liftM arguments.items : Run (List Value)) fun nodes m =>
            settingsOfAll visit settings nodes m ++ after (values visit nodes) (fun vs =>
              after (liftM params.items : Run (List Value)) fun params _ =>
                bindings (params.zip vs)) m
        else fun _ => []
  else fun _ => []

/-- The settings of a call statement that has not ended: its arguments, its parameters, its body. -/
def settingsOfCall (node function : Value) : Settings := fun m =>
  settingsOfArguments visit settings node function m ++
    after (bindArguments bindAll visit node function)
      (fun _ => settingsOfBody visit settings function) m

def settingsOfCallStatement (node : Value) : Settings :=
  after (field "name" node) fun name =>
    match Builtin.ofStatement? name with
    | some _ =>
      (node.field? "arguments").elim (fun _ => []) (settingsOfBlock visit settings)
    | none => after (functionNode name node) fun function m =>
      unlessDone (do bindArguments bindAll visit node function; runBody visit m.scope function)
        (settingsOfCall visit settings node function) m

def settingsOfFunctionCall (node : Value) : Settings :=
  after (field "name" node) fun name =>
    match Builtin.ofName? name with
    | some _ => after (field "arguments" node) (settingsOfBlock visit settings)
    | none => after (functionNode name node) fun function m =>
      unlessDone (runBody visit m.scope function) (settingsOfBody visit settings function) m

def settingsOfBinary (node : Value) : Settings :=
  after (field "left" node) fun left m =>
    settings left m ++ after (visit left) (fun _ => after (field "right" node) settings) m

def settingsOfAssignment (node : Value) : Settings :=
  after (field "name" node) fun name =>
    after (field "value" node) fun e m =>
      settings e m ++ after (visit e) (fun v _ => bindings [(name, v)]) m

end Rules

/-- The settings of the rule for nodes of a type. -/
def settingsOfRule (visit inner : Visitor) (settings settingsInner : Value → Settings)
    (type : String) : Value → Settings :=
  if type = "node" then settings
  else if type = "EntryPoint" then fun node =>
    after (field "body" node) (settingsOfBlock inner settingsInner)
  else if type = "PrintStatement" then fun node => after (field "expression" node) settings
  else if type = "CallStatement" then settingsOfCallStatement inner settingsInner
  else if type = "FunctionCall" then settingsOfFunctionCall inner settingsInner
  else if type = "BinaryExpression" then settingsOfBinary visit settings
  else if type = "AssignmentStatement" then settingsOfAssignment visit settings
  else fun _ _ => []

theorem settingsOfRule_of_not_mem {visit inner : Visitor}
    {settings settingsInner : Value → Settings} {type : String} (h : type ∉ ruleTypes)
    (node : Value) :
    settingsOfRule visit inner settings settingsInner type node = fun _ => [] := by
  simp only [ruleTypes, List.mem_cons, not_or] at h
  simp [settingsOfRule, h]

/-- The settings that a visit makes and does not take back: none of a call that has ended, and those
of arguments, parameters and body of one that has not. -/
def settings [Clock] : Nat → Value → Settings
  | depth + 3, node =>
    after (field "type" node) fun type => after (liftM type.display : Run String) fun type =>
      settingsOfRule (visit (depth + 1)) (visit depth) (settings (depth + 1)) (settings depth)
        type node
  | _, _ => fun _ => []

namespace Sets

variable {x : Run α} {f : α → Run β} {σ : Settings} {τ : α → Settings}

theorem of_still (h : Still x) : Sets x fun _ => [] := h

theorem bind (hx : Sets x σ) (hf : ∀ a, Sets (f a) (τ a)) :
    Sets (x >>= f) fun m => σ m ++ after x τ m := by
  intro m
  have h := hx m
  simp only [EStateM.run_bind, after, Table.setAll_append]
  cases hr : x.run m with
  | ok a m₁ =>
    rw [hr] at h
    exact (hf a m₁).trans (congrArg (Table.setAll · _) h)
  | error stop m₁ => rwa [hr] at h

/-- A step that leaves the scope alone, and another one behind it. -/
theorem behind (hx : Still x) (hf : ∀ a, Sets (f a) (τ a)) : Sets (x >>= f) (after x τ) :=
  bind (of_still hx) hf

/-- A step with others behind it that leave the scope alone. -/
theorem before (hx : Sets x σ) (hf : ∀ a, Still (f a)) : Sets (x >>= f) σ := by
  have hnone : ∀ m, after x (fun _ _ => []) m = [] := by
    intro m
    unfold after
    split <;> rfl
  have h := bind hx fun a => of_still (hf a)
  simpa only [hnone, List.append_nil] using h

theorem ite {p : Prop} [Decidable p] {x y : Run α} {σ τ : Settings} (hx : Sets x σ)
    (hy : Sets y τ) : Sets (if p then x else y) (if p then σ else τ) := by
  split
  · exact hx
  · exact hy

theorem assign (name : Name) (v : Value) : Sets (Machine.assign name v) fun _ => [(name, v)] :=
  fun _ => rfl

theorem bindAll (entries : List (Value × Value)) :
    Sets (entries.forM fun (param, value) => do Machine.assign (← Name.ofValue param) value)
      fun _ => bindings entries := by
  induction entries with
  | nil => exact of_still (Still.pure _)
  | cons entry rest ih =>
    obtain ⟨param, value⟩ := entry
    intro m
    simp only [List.forM, bindings]
    cases hname : Name.ofValue param with
    | ok name => exact bind (assign name value) (fun _ => ih) m
    | error fault => rfl

/-- A step that takes its settings back when it succeeds. -/
theorem takenBack {m : Machine}
    (hok : ∀ a m', x.run m = .ok a m' → m'.scope = m.scope)
    (herror : ∀ stop m', x.run m = .error stop m' → m'.scope = m.scope.setAll (σ m)) :
    scopeOf (x.run m) = m.scope.setAll (unlessDone x σ m) := by
  unfold unlessDone
  cases hr : x.run m with
  | ok a m' => exact hok a m' hr
  | error stop m' => exact herror stop m' hr

theorem scope_of_error {m m' : Machine} {stop : Stop} (hx : Sets x σ)
    (h : x.run m = .error stop m') : m'.scope = m.scope.setAll (σ m) := by
  have := hx m
  rwa [h] at this

/-- A body that fails does so before the scope is put back. -/
theorem run_runBody_error {visit : Visitor} {scope : Table Value} {function : Value}
    {m m' : Machine} {stop : Stop} (h : (runBody visit scope function).run m = .error stop m') :
    (do Machine.runBlock visit (← field "body" function) : Run Value).run m = .error stop m' := by
  obtain h | ⟨body, m₁, hbody, h⟩ := run_bind_error_iff.mp h
  · exact run_bind_error_iff.mpr (.inl h)
  obtain h | ⟨result, m₂, -, h⟩ := run_bind_error_iff.mp h
  · exact run_bind_error_iff.mpr (.inr ⟨body, m₁, hbody, h⟩)
  · cases h

theorem run_call_error {visit : Visitor} {node function : Value} {scope : Table Value}
    {m m' : Machine} {stop : Stop}
    (h : (do
      Machine.bindArguments Machine.bindAll visit node function
      runBody visit scope function : Run Value).run m = .error stop m') :
    (do
      Machine.bindArguments Machine.bindAll visit node function
      Machine.runBlock visit (← field "body" function) : Run Value).run m = .error stop m' := by
  obtain h | ⟨_, m₁, hbind, h⟩ := run_bind_error_iff.mp h
  · exact run_bind_error_iff.mpr (.inl h)
  · exact run_bind_error_iff.mpr (.inr ⟨(), m₁, hbind, run_runBody_error h⟩)

section Rules

variable {visit : Visitor} {settings : Value → Settings}
  (h : ∀ node, Sets (visit node) (settings node))

include h

theorem values (nodes : List Value) :
    Sets (values visit nodes) (settingsOfAll visit settings nodes) := by
  induction nodes with
  | nil => exact of_still (Still.pure _)
  | cons node rest ih =>
    rw [Machine.values, List.mapM_cons]
    exact bind (h node) fun v => before ih fun vs => Still.pure _

theorem runAll (nodes : List Value) :
    Sets (runAll visit nodes) (settingsOfAll visit settings nodes) := by
  have hloop : ∀ start, Sets (nodes.foldlM (fun _ node => visit node) start)
      (settingsOfAll visit settings nodes) := by
    induction nodes with
    | nil => exact fun start => of_still (Still.pure _)
    | cons node rest ih =>
      intro start
      rw [List.foldlM_cons]
      exact bind (h node) ih
  exact hloop .null

theorem runBlock (block : Value) :
    Sets (runBlock visit block) (settingsOfBlock visit settings block) :=
  behind (Still.lift _) (runAll h)

theorem bindArguments (node function : Value) :
    Sets (bindArguments Machine.bindAll visit node function)
      (settingsOfArguments visit settings node function) := by
  refine ite ?_ (of_still (Still.pure _))
  refine behind (Still.lift _) fun params => behind (Still.lift _) fun n => ?_
  refine ite ?_ (of_still (Still.pure _))
  refine behind (Still.lift _) fun nodes => bind (values h nodes) fun vs => ?_
  exact behind (Still.lift _) fun ps => bindAll _

theorem body (function : Value) :
    Sets (do Machine.runBlock visit (← field "body" function) : Run Value)
      (settingsOfBody visit settings function) :=
  behind (Still.lift _) (runBlock h)

theorem declaredCall (function : Value) :
    Sets (do runBody visit (← get).scope function : Run Value) fun m =>
      unlessDone (runBody visit m.scope function) (settingsOfBody visit settings function) m := by
  intro m
  rw [run_get_bind]
  refine takenBack (fun v m' hok => scope_of_runBody_ok hok) fun stop m' herror => ?_
  exact (body h function).scope_of_error (run_runBody_error herror)

theorem call (node function : Value) :
    Sets (do
      Machine.bindArguments Machine.bindAll visit node function
      Machine.runBlock visit (← field "body" function) : Run Value)
      (settingsOfCall visit settings node function) :=
  bind (bindArguments h node function) fun _ => body h function

theorem declaredStatement (node function : Value) :
    Sets (do
      let scope := (← get).scope
      Machine.bindArguments Machine.bindAll visit node function
      runBody visit scope function : Run Value) fun m =>
        unlessDone (do
          Machine.bindArguments Machine.bindAll visit node function
          runBody visit m.scope function) (settingsOfCall visit settings node function) m := by
  intro m
  rw [run_get_bind]
  refine takenBack (fun v m' hok => ?_) fun stop m' herror => ?_
  · obtain ⟨_, m₁, -, hok⟩ := run_bind_ok_iff.mp hok
    exact scope_of_runBody_ok hok
  · exact (call h node function).scope_of_error (run_call_error herror)

theorem callStatement [Clock] (node : Value) :
    Sets (callStatement Machine.bindAll visit node)
      (settingsOfCallStatement visit settings node) := by
  refine behind (Still.lift _) fun name => ?_
  cases Builtin.ofStatement? name with
  | some builtin =>
    cases node.field? "arguments" with
    | some arguments =>
      exact behind (Still.lift _) fun nodes =>
        before (values h nodes) (Still.elementary.builtin builtin)
    | none => exact of_still (Still.elementary.builtin builtin [])
  | none => exact behind (Still.functionNode name node) (declaredStatement h node)

theorem functionCall [Clock] (node : Value) :
    Sets (functionCall visit node) (settingsOfFunctionCall visit settings node) := by
  refine behind (Still.lift _) fun name => ?_
  cases Builtin.ofName? name with
  | some builtin =>
    refine behind (Still.lift _) fun arguments => ?_
    exact behind (Still.lift _) fun nodes =>
      before (values h nodes) (Still.elementary.builtin builtin)
  | none => exact behind (Still.functionNode name node) (declaredCall h)

theorem print (node : Value) :
    Sets (print visit node) (after (field "expression" node) settings) := by
  refine behind (Still.lift _) fun e => before (h e) fun v => ?_
  exact .bind (.lift _) fun newline => .bind (Still.elementary.write _ _ _) fun _ => .pure _

theorem binary (node : Value) :
    Sets (binary visit node) (settingsOfBinary visit settings node) := by
  refine behind (Still.lift _) fun left => bind (h left) fun a => ?_
  refine behind (Still.lift _) fun right => before (h right) fun b => ?_
  exact .bind (Still.elementary.operator node) fun operator => .lift _

theorem assignment (node : Value) :
    Sets (assignment visit node) (settingsOfAssignment visit settings node) := by
  refine behind (Still.lift _) fun name => behind (Still.lift _) fun e => bind (h e) fun v => ?_
  intro m
  simp only [bindings]
  cases Name.ofValue name with
  | ok key => rfl
  | error fault => rfl

theorem dispatch [Clock] {inner : Visitor} {settingsInner : Value → Settings}
    (hinner : ∀ node, Sets (inner node) (settingsInner node)) (node : Value) :
    Sets (dispatch Machine.bindAll visit inner node)
      (after (field "type" node) fun type => after (liftM type.display : Run String) fun type =>
        settingsOfRule visit inner settings settingsInner type node) := by
  refine behind (Still.lift _) fun _ => behind (Still.lift _) fun type => ?_
  apply rule?_cases (motive := fun type rule => Sets (runRule type rule node)
    (settingsOfRule visit inner settings settingsInner type node))
  case hnode => exact h node
  case hdeclaration => exact of_still (Still.pure _)
  case hentry => exact behind (Still.lift _) (runBlock hinner)
  case hprint => exact print h node
  case hstatement => exact callStatement hinner node
  case hcall => exact functionCall hinner node
  case hliteral =>
    refine List.forall_mem_cons.mpr ⟨of_still (Still.lift _), List.forall_mem_cons.mpr ⟨?_, nofun⟩⟩
    exact of_still (Still.lift _)
  case hvariable => exact of_still (Still.lookUp node)
  case hbinary => exact binary h node
  case hassignment => exact assignment h node
  case hother =>
    intro type htype
    rw [settingsOfRule_of_not_mem htype]
    exact of_still (Still.throw _)

end Rules

end Sets

/-- However a visit ends, the scope is the one before it with the settings that were made and not
taken back. -/
theorem sets_visit [Clock] (depth : Nat) :
    ∀ node, Sets (visit depth node) (settings depth node) := by
  induction depth using Nat.strongRecOn with
  | ind depth ih =>
    intro node
    match depth with
    | 0 | 1 | 2 => exact Sets.of_still (Still.throw _)
    | d + 3 =>
      exact Sets.dispatch (ih (d + 1) (by omega)) (ih d (by omega)) node

/-- A node that calls the function declared under its name. -/
structure Calls (m : Machine) (node name function : Value) : Prop where
  hasName : node.field "name" = .ok name
  declared : ∃ key, Name.ofValue name = .ok key ∧ m.functions.get? key = some function

theorem Calls.run_functionNode {m : Machine} {node name function : Value}
    (h : Calls m node name function) : (functionNode name node).run m = .ok function m := by
  obtain ⟨key, hkey, hfunction⟩ := h.declared
  rw [functionNode, run_get_bind, hkey, liftM_ok_bind]
  simp only [hfunction]
  rfl

section Call

variable {depth : Nat} {node name function : Value} {m : Machine}

theorem run_visit_callStatement [Clock] (htype : node.field "type" = .ok (.str "CallStatement"))
    (hcall : Calls m node name function) (hbuiltin : Builtin.ofStatement? name = none) :
    (visit (depth + 3) node).run m = (do
      bindArguments bindAll (visit depth) node function
      runBody (visit depth) m.scope function : Run Value).run m := by
  have hvisit : visit (depth + 3) node = callStatement bindAll (visit depth) node := by
    rw [visit, dispatch, field, htype]
    rfl
  rw [hvisit, callStatement_declared _ hcall.hasName hbuiltin,
    run_bind_of_ok hcall.run_functionNode, run_get_bind]

theorem run_visit_functionCall [Clock] (htype : node.field "type" = .ok (.str "FunctionCall"))
    (hcall : Calls m node name function) (hbuiltin : Builtin.ofName? name = none) :
    (visit (depth + 3) node).run m = (runBody (visit depth) m.scope function).run m := by
  have hvisit : visit (depth + 3) node = functionCall (visit depth) node := by
    rw [visit, dispatch, field, htype]
    rfl
  rw [hvisit, functionCall_declared hcall.hasName hbuiltin, run_bind_of_ok hcall.run_functionNode,
    run_get_bind]

end Call

/-- A call that fails leaves the scope with the settings of all that it has not ended: its
arguments, its parameters and its body, those of the failing calls inside included. So the scope
is as it was before the call exactly if each name that was set had the value that it was set to
last. -/
theorem scope_of_failed_call [Clock] (depth : Nat) (node name function : Value) (m m' : Machine)
    (stop : Stop) (hcall : Calls m node name function)
    (h : (visit (depth + 3) node).run m = .error stop m') :
    (node.field "type" = .ok (.str "CallStatement") → Builtin.ofStatement? name = none →
      let left := settingsOfCall (visit depth) (settings depth) node function m
      m'.scope = m.scope.setAll left ∧ (m'.scope = m.scope ↔
        ∀ x ∈ left.names, ∃ v, m.scope.get? x = some v ∧ left.last? x = some v)) ∧
    (node.field "type" = .ok (.str "FunctionCall") → Builtin.ofName? name = none →
      let left := settingsOfBody (visit depth) (settings depth) function m
      m'.scope = m.scope.setAll left ∧ (m'.scope = m.scope ↔
        ∀ x ∈ left.names, ∃ v, m.scope.get? x = some v ∧ left.last? x = some v)) := by
  refine ⟨fun htype hbuiltin => ?_, fun htype hbuiltin => ?_⟩
  · rw [run_visit_callStatement htype hcall hbuiltin] at h
    have hscope := (Sets.call (sets_visit depth) node function).scope_of_error
      (Sets.run_call_error h)
    refine ⟨hscope, ?_⟩
    rw [hscope]
    exact Table.setAll_eq_self_iff _ _
  · rw [run_visit_functionCall htype hcall hbuiltin] at h
    have hscope := (Sets.body (sets_visit depth) function).scope_of_error
      (Sets.run_runBody_error h)
    refine ⟨hscope, ?_⟩
    rw [hscope]
    exact Table.setAll_eq_self_iff _ _

/-- `func:f(x) { call g(2); } func:g(y) { assign z = 3; call h; }`, with no function `h`. -/
def failing : List (String × Decl) :=
  [("f", .function (.str "f") [.str "x"] [.call (.str "g") [.number (.int 2) Token.unknown]]),
    ("g", .function (.str "g") [.str "y"]
      [.assign (.str "z") (.number (.int 3) Token.unknown) Token.unknown, .call (.str "h") []])]

/-- The machine with these functions in which `x` is 7. -/
def failingMachine : Machine where
  scope := [(.text "x", .int 7)]
  functions := failing.map fun entry => (.text entry.1, entry.2.toNode)

/-- The call of `f` fails in the body of `g` and leaves the parameters and locals of both. -/
theorem scope_of_failed_call_nested :
    ∃ function stop m',
      Calls failingMachine (Stmt.call (.str "f") [.number (.int 1) Token.unknown]).toNode (.str "f")
        function ∧
      (visit 20 (Stmt.call (.str "f") [.number (.int 1) Token.unknown]).toNode).run failingMachine =
        .error stop m' ∧
      m'.scope = failingMachine.scope.setAll
        [(.text "x", .int 1), (.text "y", .int 2), (.text "z", .int 3)] := by
  have hcall : Calls failingMachine (Stmt.call (.str "f") [.number (.int 1) Token.unknown]).toNode
      (.str "f") _ := ⟨rfl, .text "f", rfl, rfl⟩
  have hrun : (visit 20 (Stmt.call (.str "f") [.number (.int 1) Token.unknown]).toNode).run
      failingMachine = .error _ _ := rfl
  exact ⟨_, _, _, hcall, hrun, ((scope_of_failed_call 17 _ _ _ _ _ _ hcall hrun).1 rfl rfl).1⟩

/-- It is not so that a failing call puts the scope of its caller back. -/
theorem not_restored_of_failed_call :
    ¬ ∀ (depth : Nat) (node name function : Value) (m m' : Machine) (stop : Stop),
      Calls m node name function → node.field "type" = .ok (.str "CallStatement") →
      Builtin.ofStatement? name = none → (visit depth node).run m = .error stop m' →
      m'.scope = m.scope := by
  intro h
  have hcall : Calls failingMachine (Stmt.call (.str "f") [.number (.int 1) Token.unknown]).toNode
      (.str "f") _ := ⟨rfl, .text "f", rfl, rfl⟩
  have hscope := h 20 _ _ _ _ _ _ hcall rfl rfl rfl
  exact absurd (congrArg List.length hscope) (by decide)

end Scriptlet.Machine
