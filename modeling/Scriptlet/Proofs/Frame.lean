import Scriptlet.Proofs.Rules
import Scriptlet.Proofs.Tables
import Scriptlet.Proofs.Visiting
import Scriptlet.Token

/-! What runs do to the variables in scope. Expressions leave them alone, whatever functions they
call, and a statement sets at most the variable that it assigns to. -/
namespace Scriptlet

namespace Machine

variable {α β : Type} {x : Run α} {f : α → Run β}

/-- The scope that a run ends in. -/
def scopeOf : EStateM.Result Stop Machine α → Table Value
  | .ok _ m => m.scope
  | .error _ m => m.scope

/-- A step that leaves the scope alone, however it ends. -/
def Still (x : Run α) : Prop :=
  ∀ m, scopeOf (x.run m) = m.scope

namespace Still

theorem pure (a : α) : Still (pure a) := fun _ => rfl

theorem throw (stop : Stop) : Still (throw stop : Run α) := fun _ => rfl

theorem get : Still get := fun _ => rfl

theorem emit (event : Event) : Still (emit event) := fun _ => rfl

theorem lift (x : Except Fault α) : Still (liftM x : Run α) := by
  intro m
  cases x <;> rfl

theorem bind (hx : Still x) (hf : ∀ a, Still (f a)) : Still (x >>= f) := by
  intro m
  have h := hx m
  rw [EStateM.run_bind]
  cases hr : x.run m with
  | ok a m₁ =>
    rw [hr] at h
    exact (hf a m₁).trans h
  | error stop m₁ => rwa [hr] at h

theorem elementary : Elementary @Still where
  pure := pure
  throw := throw
  bind := bind
  emit := emit

theorem functionNode (name node : Value) : Still (functionNode name node) := by
  refine bind get fun m => bind (lift _) fun key => ?_
  cases m.functions.get? key with
  | some function => exact pure function
  | none => exact bind (lift _) fun _ => bind (lift _) fun _ => throw _

theorem lookUp (node : Value) : Still (lookUp node) := by
  refine bind (lift _) fun name => bind get fun m => bind (lift _) fun key => ?_
  cases m.scope.get? key with
  | some value => exact pure value
  | none => exact bind (lift _) fun _ => throw _

theorem declareAll (nodes : List Value) : Still (declareAll nodes) := by
  induction nodes with
  | nil => exact pure _
  | cons node rest ih =>
    refine bind (bind (lift _) fun type => ?_) fun _ => ih
    cases type.isText "FunctionDeclaration" with
    | true => exact bind (lift _) fun name => bind (lift _) fun key => fun _ => rfl
    | false => exact pure _

end Still

/-- A step that leaves the scope as it was when it succeeds. -/
def Keeps (x : Run α) : Prop :=
  ∀ ⦃m a m'⦄, x.run m = .ok a m' → m'.scope = m.scope

theorem Still.keeps (h : Still x) : Keeps x := by
  intro m a m' hr
  have := h m
  rwa [hr] at this

namespace Keeps

theorem bind (hx : Keeps x) (hf : ∀ a, Keeps (f a)) : Keeps (x >>= f) := by
  intro m b m' h
  obtain ⟨a, m₁, h₁, h₂⟩ := run_bind_ok_iff.mp h
  exact (hf a h₂).trans (hx h₁)

theorem values {visit : Visitor} {nodes : List Value} (h : ∀ node ∈ nodes, Keeps (visit node)) :
    Keeps (values visit nodes) := by
  induction nodes with
  | nil => exact (Still.pure _).keeps
  | cons node rest ih =>
    have hrest := ih fun other ho => h other (List.mem_cons_of_mem node ho)
    rw [Machine.values, List.mapM_cons]
    exact bind (h node List.mem_cons_self) fun v => bind hrest fun vs => (Still.pure _).keeps

theorem values_map {visit : Visitor} (h : ∀ e : Expr, Keeps (visit e.toNode)) (es : List Expr) :
    Keeps (Machine.values visit (es.map Expr.toNode)) := by
  refine values fun node hnode => ?_
  obtain ⟨e, -, rfl⟩ := List.mem_map.mp hnode
  exact h e

end Keeps

/-- A body that ends puts the given scope back. -/
theorem scope_of_runBody_ok {inner : Visitor} {scope : Table Value} {function v : Value}
    {m m' : Machine} (h : (runBody inner scope function).run m = .ok v m') : m'.scope = scope := by
  obtain ⟨body, m₁, -, h⟩ := run_bind_ok_iff.mp h
  obtain ⟨result, m₂, -, h⟩ := run_bind_ok_iff.mp h
  cases h
  rfl

/-- The evaluation of an expression leaves the scope alone, at any depth and in any machine. -/
theorem keeps_visit_expr [Clock] (depth : Nat) : ∀ e : Expr, Keeps (visit depth e.toNode) := by
  induction depth using Nat.strongRecOn with
  | ind depth ih =>
    intro e m v m' h
    obtain ⟨d, rfl⟩ := exists_depth_of_ok h
    -- sums take one level off and arguments three; bodies of functions may do what they like
    have hsum : ∀ e : Expr, Keeps (visit (d + 1) e.toNode) := ih (d + 1) (by omega)
    have harguments := Keeps.values_map (ih d (by omega))
    cases e with
    | string value line =>
      rw [visit_string] at h
      exact (Still.pure value).keeps h
    | number value line =>
      rw [visit_number] at h
      exact (Still.pure value).keeps h
    | var name line =>
      rw [visit_var] at h
      exact (Still.lookUp _).keeps h
    | sum left right line =>
      rw [visit_sum] at h
      exact ((hsum left).bind fun a => (hsum right).bind fun b => (Still.lift _).keeps) h
    | call name arguments line =>
      cases hname : Builtin.ofName? name with
      | some builtin =>
        rw [visit_call, functionCall_builtin (field_name_call ..) hname
          (field_arguments_call ..)] at h
        exact ((harguments arguments).bind fun vs => (Still.elementary.builtin builtin vs).keeps) h
      | none =>
        rw [visit_call, functionCall_declared (field_name_call ..) hname] at h
        obtain ⟨function, m₁, hfunction, h⟩ := run_bind_ok_iff.mp h
        rw [run_get_bind] at h
        rw [scope_of_runBody_ok h]
        exact (Still.functionNode _ _).keeps hfunction

/-- An assignment sets its variable to the value of its expression, and returns that value. -/
theorem visit_assign_ok [Clock] {depth : Nat} {name v line : Value} {e : Expr} {m m' : Machine}
    (h : (visit depth (Stmt.assign name e line).toNode).run m = .ok v m') :
    ∃ d key m₁, (visit d e.toNode).run m = .ok v m₁ ∧ Name.ofValue name = .ok key ∧
      m' = { m₁ with scope := m.scope.updated key v } := by
  obtain ⟨d, rfl⟩ := exists_depth_of_ok h
  rw [visit_assign] at h
  obtain ⟨value, m₁, hvalue, h⟩ := run_bind_ok_iff.mp h
  have hscope := keeps_visit_expr (d + 1) e hvalue
  cases hkey : Name.ofValue name with
  | error fault => rw [hkey] at h; cases h
  | ok key =>
    rw [hkey] at h
    cases h
    exact ⟨d + 1, key, m₁, hvalue, rfl, by rw [← hscope, ← Table.set_eq_updated]⟩

theorem keeps_visit_print [Clock] (depth : Nat) (e : Expr) (newline : Bool) (line : Value) :
    Keeps (visit depth (Stmt.print e newline line).toNode) := by
  intro m v m' h
  obtain ⟨d, rfl⟩ := exists_depth_of_ok h
  rw [visit_print] at h
  refine ((keeps_visit_expr (d + 1) e).bind fun value => ?_) h
  exact (Still.bind (Still.elementary.write _ _ _) fun _ => Still.pure _).keeps

theorem keeps_visit_callStatement [Clock] (depth : Nat) (name : Value) (arguments : List Expr) :
    Keeps (visit depth (Stmt.call name arguments).toNode) := by
  intro m v m' h
  obtain ⟨d, rfl⟩ := exists_depth_of_ok h
  cases hname : Builtin.ofStatement? name with
  | some builtin =>
    rw [visit_callStatement, callStatement_builtin _ rfl hname
      (field?_arguments_callStatement ..)] at h
    have harguments := Keeps.values_map (keeps_visit_expr d) arguments
    exact (harguments.bind fun vs => (Still.elementary.builtin builtin vs).keeps) h
  | none =>
    rw [visit_callStatement, callStatement_declared _ rfl hname] at h
    obtain ⟨function, m₁, hfunction, h⟩ := run_bind_ok_iff.mp h
    rw [run_get_bind] at h
    obtain ⟨_, m₂, -, h⟩ := run_bind_ok_iff.mp h
    rw [scope_of_runBody_ok h]
    exact (Still.functionNode _ _).keeps hfunction

/-- The scope after a statement that has returned the value. -/
def scopeAfter (scope : Table Value) : Stmt × Value → Table Value
  | (.assign name _ _, v) =>
    match Name.ofValue name with
    | .ok key => scope.updated key v
    | .error _ => scope
  | _ => scope

theorem scope_of_visit_ok [Clock] {depth : Nat} {s : Stmt} {v : Value} {m m' : Machine}
    (h : (visit depth s.toNode).run m = .ok v m') : m'.scope = scopeAfter m.scope (s, v) := by
  cases s with
  | assign name e line =>
    obtain ⟨d, key, m₁, -, hkey, rfl⟩ := visit_assign_ok h
    simp only [scopeAfter, hkey]
  | print e newline line => exact keeps_visit_print depth e newline line h
  | call name arguments => exact keeps_visit_callStatement depth name arguments h

/-- The statements run one after the other, each with the value that it returns. -/
inductive Executes [Clock] (depth : Nat) : Machine → List (Stmt × Value) → Machine → Prop
  | nil (m : Machine) : Executes depth m [] m
  | cons {m m₁ m' : Machine} {s : Stmt} {v : Value} {steps : List (Stmt × Value)} :
      (visit depth s.toNode).run m = .ok v m₁ → Executes depth m₁ steps m' →
      Executes depth m ((s, v) :: steps) m'

namespace Executes

variable [Clock] {depth : Nat} {m m₁ m' : Machine} {steps steps' : List (Stmt × Value)}

theorem append (h : Executes depth m steps m₁) (h' : Executes depth m₁ steps' m') :
    Executes depth m (steps ++ steps') m' := by
  induction h with
  | nil m => exact h'
  | cons hs _ ih => exact .cons hs (ih h')

theorem scope (h : Executes depth m steps m') : m'.scope = steps.foldl scopeAfter m.scope := by
  induction h with
  | nil m => rfl
  | cons hs _ ih => rw [List.foldl_cons, ← scope_of_visit_ok hs, ih]

theorem of_execute {body : List Stmt} {v : Value}
    (h : (execute depth (Stmt.blockNode body)).run m = .ok v m') :
    ∃ steps, steps.map Prod.fst = body ∧ Executes depth m steps m' := by
  have hloop : ∀ start m, ((body.map Stmt.toNode).foldlM
      (fun _ node => visit depth node) start).run m = .ok v m' →
      ∃ steps, steps.map Prod.fst = body ∧ Executes depth m steps m' := by
    clear h
    induction body with
    | nil =>
      intro start m h
      cases h
      exact ⟨[], rfl, .nil _⟩
    | cons s body ih =>
      intro start m h
      rw [List.map_cons, List.foldlM_cons] at h
      obtain ⟨value, m₁, hs, h⟩ := run_bind_ok_iff.mp h
      obtain ⟨steps, rfl, hsteps⟩ := ih value m₁ h
      exact ⟨(s, value) :: steps, rfl, .cons hs hsteps⟩
  exact hloop .null m h

end Executes

end Machine

/-- The statements that a declaration runs when the program is entered. -/
def Decl.entered : Decl → List Stmt
  | .function _ _ _ => []
  | .entry body => body

/-- The statements that stand directly in the entry blocks of a program, in order. -/
def Program.entered (program : Program) : List Stmt :=
  program.body.flatMap Decl.entered

namespace Machine

theorem Executes.of_enterAll [Clock] {depth : Nat} {body : List Decl} {m m' : Machine}
    (h : (enterAll (visit depth) (body.map Decl.toNode)).run m = .ok () m') :
    ∃ steps, steps.map Prod.fst = body.flatMap Decl.entered ∧ Executes depth m steps m' := by
  induction body generalizing m with
  | nil =>
    cases h
    exact ⟨[], rfl, .nil _⟩
  | cons d body ih =>
    rw [List.map_cons] at h
    cases d with
    | function name params statements =>
      rw [enterAll_function] at h
      exact ih h
    | entry statements =>
      rw [enterAll_entry] at h
      obtain ⟨v, m₁, hentry, h⟩ := run_bind_ok_iff.mp h
      obtain ⟨steps, hsteps, hrun⟩ := of_execute hentry
      obtain ⟨steps', hsteps', hrun'⟩ := ih h
      refine ⟨steps ++ steps', ?_, hrun.append hrun'⟩
      rw [List.map_append, hsteps, hsteps', List.flatMap_cons, Decl.entered]

/-- A program that ends normally leaves the scope with the assignments that stand directly in its
entry blocks, in order, each with the value that it has returned. Whatever functions are called,
no other statement and no expression changes the scope. -/
theorem scope_of_interpret [Clock] (depth : Nat) (program : Program) (m m' : Machine)
    (answer : Answer)
    (h : (interpret depth program.toNode).run m = .ok answer m') :
    answer = .scope m'.scope ∧
    (∃ m₀ steps, (declareAll (program.body.map Decl.toNode)).run m = .ok () m₀ ∧
      m₀.scope = m.scope ∧ Executes depth m₀ steps m' ∧ steps.map Prod.fst = program.entered ∧
      m'.scope = steps.foldl scopeAfter m.scope) ∧
    (∀ d name e line m₁ v m₂, (visit d (Stmt.assign name e line).toNode).run m₁ = .ok v m₂ →
      ∃ d' key m₃, (visit d' e.toNode).run m₁ = .ok v m₃ ∧ Name.ofValue name = .ok key ∧
        m₂ = { m₃ with scope := m₁.scope.updated key v }) ∧
    (∀ d e newline line, Keeps (visit d (Stmt.print e newline line).toNode)) ∧
    (∀ d name arguments, Keeps (visit d (Stmt.call name arguments).toNode)) ∧
    ∀ d (e : Expr), Keeps (visit d e.toNode) := by
  rw [interpret_program] at h
  obtain ⟨⟨⟩, m₀, hdeclare, h⟩ := run_bind_ok_iff.mp h
  obtain ⟨⟨⟩, m₁, henter, h⟩ := run_bind_ok_iff.mp h
  cases h
  have hscope := (Still.declareAll _).keeps hdeclare
  obtain ⟨steps, hsteps, hrun⟩ := Executes.of_enterAll henter
  refine ⟨rfl, ⟨m₀, steps, hdeclare, hscope, hrun, hsteps, ?_⟩, ?_, keeps_visit_print,
    keeps_visit_callStatement, keeps_visit_expr⟩
  · rw [← hscope]
    exact hrun.scope
  · intro d name e line m₁ v m₂ hassign
    exact visit_assign_ok hassign

/-- `func:f(x) { assign y = 5; } enter { assign y = 1; call f(2); assign x = f(); }`, where the
function binds and assigns the names of its caller. -/
def shadowing : Program :=
  ⟨[.function (.str "f") [.str "x"]
      [.assign (.str "y") (.number (.int 5) Token.unknown) Token.unknown],
    .entry
      [.assign (.str "y") (.number (.int 1) Token.unknown) Token.unknown,
        .call (.str "f") [.number (.int 2) Token.unknown],
        .assign (.str "x") (.call (.str "f") [] Token.unknown) Token.unknown]]⟩

theorem scope_of_interpret_shadowing :
    ∃ m' m₀ steps,
      (interpret 20 shadowing.toNode).run { scope := [(.text "x", .int 7)] } =
        .ok (.scope m'.scope) m' ∧
      m'.scope = [(.text "x", .int 5), (.text "y", .int 1)] ∧
      Executes 20 m₀ steps m' ∧ steps.map Prod.fst = shadowing.entered ∧
      m'.scope = steps.foldl scopeAfter [(.text "x", .int 7)] := by
  have hrun : (interpret 20 shadowing.toNode).run { scope := [(.text "x", .int 7)] } =
      .ok _ _ := rfl
  obtain ⟨-, ⟨m₀, steps, -, -, hexecutes, hsteps, hscope⟩, -⟩ := scope_of_interpret _ _ _ _ _ hrun
  exact ⟨_, m₀, steps, hrun, rfl, hexecutes, hsteps, hscope⟩

end Machine

end Scriptlet
