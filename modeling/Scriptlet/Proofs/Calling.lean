import Scriptlet.Proofs.Unwinding
import Scriptlet.Proofs.Widening

/-! The two ways of calling. A call inside an expression runs the body of the function as a call
statement without arguments does. A call statement with arguments evaluates them, binds the
parameters and then does what the call inside an expression does. -/
namespace Scriptlet.Machine

/-- A node of a type that calls a name with arguments. -/
structure CallNode (type : String) (name : Value) (arguments : List Value) (node : Value) :
    Prop where
  hasType : node.field "type" = .ok (.str type)
  hasName : node.field "name" = .ok name
  hasArguments : node.field? "arguments" = some (.list arguments)

theorem callNode_call (name line : Value) (arguments : List Expr) :
    CallNode "FunctionCall" name (arguments.map Expr.toNode)
      (Expr.call name arguments line).toNode := by
  rw [← Expr.toNodes_eq_map, Expr.toNode]
  exact ⟨rfl, rfl, rfl⟩

theorem callNode_statement (name : Value) (arguments : List Expr) :
    CallNode "CallStatement" name (arguments.map Expr.toNode)
      (Stmt.call name arguments).toNode := by
  rw [← Expr.toNodes_eq_map]
  exact ⟨rfl, rfl, rfl⟩

theorem Builtin.ofStatement?_eq_none {name : Value} (h : Builtin.ofName? name = none) :
    Builtin.ofStatement? name = none := by
  rw [ofStatement?, h]

section Call

variable {name function node : Value} {arguments params : List Value} {m : Machine}

theorem CallNode.calls {type : String} (h : CallNode type name arguments node) {key : Name}
    (hkey : Name.ofValue name = .ok key) (hfunction : m.functions.get? key = some function) :
    Calls m node name function :=
  ⟨h.hasName, key, hkey, hfunction⟩

theorem run_bindAll {params : List Value}
    (hnames : ∀ param ∈ params, ∃ x, Name.ofValue param = .ok x) (vs : List Value) (m : Machine) :
    (bindAll params vs).run m =
      .ok () { m with scope := m.scope.setAll (bindings (params.zip vs)) } := by
  induction params generalizing vs m with
  | nil => rfl
  | cons param params ih =>
    cases vs with
    | nil => rfl
    | cons v vs =>
      obtain ⟨x, hx⟩ := hnames param List.mem_cons_self
      have hrest := ih fun other ho => hnames other (List.mem_cons_of_mem _ ho)
      rw [bindAll, List.zip_cons_cons, List.forM, bindings]
      simp only [hx]
      exact hrest vs _

theorem run_runBody (inner : Visitor) (scope : Table Value) (function : Value) (m : Machine) :
    (runBody inner scope function).run m =
      match (do runBlock inner (← field "body" function) : Run Value).run m with
      | .ok v u => .ok v { u with scope := scope }
      | .error stop u => .error stop u := by
  rw [runBody, EStateM.run_bind, EStateM.run_bind]
  cases (field "body" function).run m with
  | error stop u => rfl
  | ok body u =>
    simp only
    rw [EStateM.run_bind]
    cases (runBlock inner body).run u <;> rfl

end Call

section Both

variable {name function call statement : Value} {arguments params : List Value} {m : Machine}
  {key : Name} (hbuiltin : Builtin.ofName? name = none) (hkey : Name.ofValue name = .ok key)
  (hfunction : m.functions.get? key = some function)
  (hparams : function.field "params" = .ok (.list params))
  (hcall : CallNode "FunctionCall" name arguments call)
  (hstatement : CallNode "CallStatement" name arguments statement)

include hbuiltin hkey hfunction hcall

theorem run_visit_call_eq [Clock] {others : List Value} {bare : Value}
    (hbare : CallNode "CallStatement" name others bare)
    (hnothing : ∀ inner, bindArguments bindAll inner bare function = pure ()) (depth : Nat) :
    (visit depth call).run m = (visit depth bare).run m := by
  match depth with
  | 0 | 1 | 2 => rfl
  | depth + 3 =>
    rw [run_visit_functionCall hcall.hasType (hcall.calls hkey hfunction) hbuiltin,
      run_visit_callStatement hbare.hasType (hbare.calls hkey hfunction)
        (Builtin.ofStatement?_eq_none hbuiltin), hnothing, pure_bind]

/-- A body that runs behind a step in the scope before it, as a call behind that step. -/
theorem run_runBody_behind [Clock] {x : Run Unit} (hx : Widens x) (depth : Nat) :
    (do x; runBody (visit depth) m.scope function : Run Value).run m =
      (restoring do x; visit (depth + 3) call).run m := by
  rw [run_restoring, EStateM.run_bind, EStateM.run_bind]
  cases hu : x.run m with
  | error stop u => rfl
  | ok _ u =>
    -- the function is still declared behind the step
    have hfunction' : u.functions.get? key = some function := (hx hu).1 ▸ hfunction
    simp only [run_visit_functionCall hcall.hasType (hcall.calls hkey hfunction') hbuiltin,
      run_runBody]
    cases (do runBlock (visit depth) (← field "body" function) : Run Value).run u <;> rfl

include hparams hstatement

theorem run_visit_callStatement_eq [Clock] (depth : Nat) (harguments : arguments ≠ [])
    (hparams' : params ≠ []) :
    (visit (depth + 3) statement).run m =
      (restoring do
        bindAll params (← values (visit depth) arguments)
        visit (depth + 3) call).run m := by
  have hbinds : Widens (do bindAll params (← values (visit depth) arguments)) :=
    widens.bind (widens.values (widens.visit depth) arguments) fun vs => widens.bindAll params vs
  rw [run_visit_callStatement hstatement.hasType (hstatement.calls hkey hfunction)
    (Builtin.ofStatement?_eq_none hbuiltin), bindArguments_eq _ _ hstatement.hasArguments hparams,
    if_neg (not_or.mpr ⟨harguments, hparams'⟩),
    run_runBody_behind hbuiltin hkey hfunction hcall hbinds, bind_assoc]

/-- Where the arguments and the parameters change nothing, the statement does what the call does. -/
theorem run_visit_callStatement_eq_of_idle [Clock] {depth : Nat} (harguments : arguments ≠ [])
    (hparams' : params ≠ [])
    (hidle : (do bindAll params (← values (visit depth) arguments)).run m = .ok () m) :
    (visit (depth + 3) call).run m = (visit (depth + 3) statement).run m := by
  rw [run_visit_callStatement hstatement.hasType (hstatement.calls hkey hfunction)
    (Builtin.ofStatement?_eq_none hbuiltin), bindArguments_eq _ _ hstatement.hasArguments hparams,
    if_neg (not_or.mpr ⟨harguments, hparams'⟩), run_bind_of_ok hidle,
    run_visit_functionCall hcall.hasType (hcall.calls hkey hfunction) hbuiltin]

end Both

/-- What a call inside an expression and a call statement do alike, and what not. The arguments of a
call inside an expression make no difference. A call statement whose function has parameters
evaluates the arguments, binds the parameters to their values and does then what the call inside an
expression does; so the two agree where there is nothing to bind, and where the arguments do nothing
but have values that the parameters have already. -/
theorem calls_agree_up_to_binding [Clock] (depth : Nat) (m : Machine)
    (name function call statement : Value) (key : Name) (arguments params : List Value)
    (hbuiltin : Builtin.ofName? name = none) (hkey : Name.ofValue name = .ok key)
    (hfunction : m.functions.get? key = some function)
    (hparams : function.field "params" = .ok (.list params))
    (hcall : CallNode "FunctionCall" name arguments call)
    (hstatement : CallNode "CallStatement" name arguments statement) :
    (∀ bare, CallNode "CallStatement" name [] bare →
      (visit depth call).run m = (visit depth bare).run m) ∧
    (arguments = [] ∨ params = [] → (visit depth call).run m = (visit depth statement).run m) ∧
    ∀ inner, depth = inner + 3 → arguments ≠ [] → params ≠ [] →
      (visit depth statement).run m =
        (restoring do
          bindAll params (← values (visit inner) arguments)
          visit depth call).run m ∧
      ∀ vs, (values (visit inner) arguments).run m = .ok vs m →
        (∀ param ∈ params, ∃ x, Name.ofValue param = .ok x) →
        (∀ x ∈ (bindings (params.zip vs)).names, ∃ v, m.scope.get? x = some v ∧
          (bindings (params.zip vs)).last? x = some v) →
        (visit depth call).run m = (visit depth statement).run m := by
  refine ⟨fun bare hbare => ?_, fun hnothing => ?_, ?_⟩
  · refine run_visit_call_eq hbuiltin hkey hfunction hcall hbare (fun inner => ?_) depth
    rw [bindArguments_eq _ inner hbare.hasArguments hparams, if_pos (.inl rfl)]
  · refine run_visit_call_eq hbuiltin hkey hfunction hcall hstatement (fun inner => ?_) depth
    rw [bindArguments_eq _ inner hstatement.hasArguments hparams, if_pos hnothing]
  · rintro inner rfl harguments hparams'
    refine ⟨run_visit_callStatement_eq hbuiltin hkey hfunction hparams hcall hstatement inner
      harguments hparams', fun vs hvs hnames hsame => ?_⟩
    refine run_visit_callStatement_eq_of_idle hbuiltin hkey hfunction hparams hcall hstatement
      harguments hparams' ?_
    rw [run_bind_of_ok hvs, run_bindAll hnames, (Table.setAll_eq_self_iff _ _).mpr hsame]

/-- `func:f(x) { println x; }`. -/
def printing : Decl :=
  .function (.str "f") [.str "x"] [.print (.var (.str "x") Token.unknown) true Token.unknown]

/-- The machine with this function and the variables. -/
def printingMachine (scope : Table Value) : Machine where
  scope := scope
  functions := [(.text "f", printing.toNode)]

/-- Where `x` is `"a"` already, `f("a")` and `call f("a");` do the same, because the binding that
the first one leaves out changes nothing. -/
theorem calls_agree_up_to_binding_shadowed :
    let m := printingMachine [(.text "x", .str "a")]
    let argument := Expr.string (.str "a") Token.unknown
    let call := (Expr.call (.str "f") [argument] Token.unknown).toNode
    let statement := (Stmt.call (.str "f") [argument]).toNode
    CallNode "FunctionCall" (.str "f") [argument.toNode] call ∧
    CallNode "CallStatement" (.str "f") [argument.toNode] statement ∧
    (visit 20 call).run m = (visit 20 (Stmt.call (.str "f") []).toNode).run m ∧
    (visit 20 statement).run m =
      (restoring do
        bindAll [.str "x"] (← values (visit 17) [argument.toNode])
        visit 20 call).run m ∧
    (visit 20 call).run m = (visit 20 statement).run m := by
  have hcall := callNode_call (.str "f") Token.unknown [.string (.str "a") Token.unknown]
  have hstatement := callNode_statement (.str "f") [.string (.str "a") Token.unknown]
  obtain ⟨hbare, -, hbinding⟩ := calls_agree_up_to_binding 20
    (printingMachine [(.text "x", .str "a")]) (.str "f") printing.toNode _ _ (.text "f") _ _ rfl rfl
    rfl rfl hcall hstatement
  obtain ⟨hrun, hagree⟩ := hbinding 17 rfl (List.cons_ne_nil _ _) (List.cons_ne_nil _ _)
  have hname : ∀ param ∈ [Value.str "x"], ∃ x, Name.ofValue param = .ok x := by
    intro param hparam
    exact ⟨.text "x", List.mem_singleton.mp hparam ▸ rfl⟩
  have hbound : ∀ x ∈ [Name.text "x"], ∃ v, (printingMachine [(.text "x", .str "a")]).scope.get? x =
      some v ∧ Table.last? [(Name.text "x", Value.str "a")] x = some v := by
    intro x hx
    obtain rfl := List.mem_singleton.mp hx
    exact ⟨.str "a", rfl, rfl⟩
  exact ⟨hcall, hstatement, hbare _ (callNode_statement (.str "f") []), hrun,
    hagree [.str "a"] rfl hname hbound⟩

/-- It is not so that a call inside an expression does what the call statement does: where `x` is
not in scope, `f("a")` fails and `call f("a");` prints. -/
theorem not_calls_agree :
    ¬ ∀ (depth : Nat) (m : Machine) (name function call statement : Value) (key : Name)
      (arguments : List Value), Builtin.ofName? name = none → Name.ofValue name = .ok key →
      m.functions.get? key = some function → CallNode "FunctionCall" name arguments call →
      CallNode "CallStatement" name arguments statement →
      (visit depth call).run m = (visit depth statement).run m := by
  intro h
  have hrun := h 20 (printingMachine []) (.str "f") printing.toNode _ _ (.text "f") _ rfl rfl rfl
    (callNode_call (.str "f") Token.unknown [.string (.str "a") Token.unknown])
    (callNode_statement (.str "f") [.string (.str "a") Token.unknown])
  have hcall : (visit 20 (Expr.call (.str "f") [.string (.str "a") Token.unknown]
      Token.unknown).toNode).run (printingMachine []) = .error _ _ := rfl
  have hstatement : (visit 20 (Stmt.call (.str "f")
      [.string (.str "a") Token.unknown]).toNode).run (printingMachine []) = .ok _ _ := rfl
  rw [hcall, hstatement] at hrun
  cases hrun

end Scriptlet.Machine
