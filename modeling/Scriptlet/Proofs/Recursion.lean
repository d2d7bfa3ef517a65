import Mathlib.Logic.Relation
import Scriptlet.Proofs.Calling

/-! Recursion. The language has no choices, so a body that is run to its end makes all the calls
that it is made of, and a function whose calls lead back to it never returns: each return would need
another one with fewer levels. -/
namespace Scriptlet

open Machine (Builtin)
open Relation (ReflTransGen TransGen)

mutual

/-- The names of the functions that the evaluation of an expression calls, apart from those that are
built in. The arguments of a built-in function are evaluated, those of any other one are not. -/
def Expr.callees : Expr → List Value
  | .string _ _ | .number _ _ | .var _ _ => []
  | .call name arguments _ =>
    if (Builtin.ofName? name).isSome then Expr.calleesOfAll arguments else [name]
  | .sum left right _ => left.callees ++ right.callees

def Expr.calleesOfAll : List Expr → List Value
  | [] => []
  | e :: rest => e.callees ++ Expr.calleesOfAll rest

end

theorem Expr.mem_calleesOfAll {es : List Expr} {name : Value} :
    name ∈ Expr.calleesOfAll es ↔ ∃ e ∈ es, name ∈ e.callees := by
  induction es with
  | nil => simp [calleesOfAll]
  | cons e rest ih => simp [calleesOfAll, ih]

/-- Whether there are parameters to bind in a call of a name. -/
def Table.takesArguments (functions : Table Value) (name : Value) : Bool :=
  match Name.ofValue name with
  | .ok key => ((functions.get? key).bind (Value.field? "params")).any Value.isTrue
  | .error _ => false

/-- The names of the functions that a statement calls, apart from those that are built in. A call
statement evaluates its arguments if the function is built in or has parameters. -/
def Stmt.callees (functions : Table Value) : Stmt → List Value
  | .assign _ value _ => value.callees
  | .print expression _ _ => expression.callees
  | .call name arguments =>
    if (Builtin.ofStatement? name).isSome then Expr.calleesOfAll arguments
    else if functions.takesArguments name then name :: Expr.calleesOfAll arguments
    else [name]

/-- Running the body of `f` evaluates a call of the function `g`. -/
def Table.Invokes (functions : Table Value) (f g : Name) : Prop :=
  (functions.get? g).isSome ∧
    ∃ name params body, functions.get? f = some (Decl.function name params body).toNode ∧
      ∃ s ∈ body, ∃ callee ∈ s.callees functions, ∃ key, Name.ofValue callee = .ok key ∧
        key.same g = true

/-- The entries are nodes of functions. -/
def Table.Functions (functions : Table Value) : Prop :=
  ∀ entry ∈ functions, ∃ name params body, entry.2 = (Decl.function name params body).toNode

theorem Table.Functions.of_get? {functions : Table Value} (h : functions.Functions) {key : Name}
    {function : Value} (hget : functions.get? key = some function) :
    ∃ name params body, function = (Decl.function name params body).toNode :=
  Table.of_get? (P := fun node => ∃ name params body,
    node = (Decl.function name params body).toNode) h hget

theorem Table.takesArguments_iff {functions : Table Value} {name n : Value} {key : Name}
    {params : List Value} {body : List Stmt} (hkey : Name.ofValue name = .ok key)
    (hget : functions.get? key = some (Decl.function n params body).toNode) :
    functions.takesArguments name = true ↔ params ≠ [] := by
  rw [takesArguments, hkey]
  simp only [hget]
  change (!params.isEmpty) = true ↔ _
  rw [Bool.not_eq_true', List.isEmpty_eq_false_iff]

/-- From `f` calls lead to a function that leads to itself. -/
def Table.Recursive (functions : Table Value) (f : Name) : Prop :=
  ∃ g, ReflTransGen functions.Invokes f g ∧ TransGen functions.Invokes g g

namespace Machine

variable [Clock]

/-- The body of a function. -/
def body (depth : Nat) (function : Value) : Run Value := do
  runBlock (visit depth) (← field "body" function)

/-- The body of the function `f` has come to its end, in some machine with these functions. -/
def Returns (functions : Table Value) (depth : Nat) (f : Name) : Prop :=
  ∃ function m v m', functions.get? f = some function ∧ m.functions = functions ∧
    (body depth function).run m = .ok v m'

variable {functions : Table Value} {depth : Nat} {f g : Name} {m m' : Machine} {v : Value}

theorem Returns.of_same (h : Returns functions depth f) (hsame : f.same g = true) :
    Returns functions depth g := by
  obtain ⟨function, m, v, m', hfunction, hrun⟩ := h
  exact ⟨function, m, v, m', Table.get?_of_same functions hsame ▸ hfunction, hrun⟩

/-- A step that succeeds leaves the functions as they are. -/
theorem functions_of_visit {node : Value} (h : (visit depth node).run m = .ok v m') :
    m'.functions = m.functions :=
  (widens.visit depth node h).1

theorem exists_run_of_values {es : List Expr} {vs : List Value}
    (h : (values (visit depth) (es.map Expr.toNode)).run m = .ok vs m') {e : Expr} (he : e ∈ es) :
    ∃ m₁ w m₂, m₁.functions = m.functions ∧ (visit depth e.toNode).run m₁ = .ok w m₂ := by
  induction es generalizing m m' vs with
  | nil => cases he
  | cons first rest ih =>
    rw [values, List.map_cons, List.mapM_cons, ← values] at h
    obtain ⟨w, u, hfirst, h⟩ := run_bind_ok_iff.mp h
    obtain ⟨ws, u', hrest, -⟩ := run_bind_ok_iff.mp h
    rcases List.mem_cons.mp he with rfl | he
    · exact ⟨m, w, u, rfl, hfirst⟩
    · obtain ⟨m₁, w', m₂, hfunctions, hrun⟩ := ih hrest he
      exact ⟨m₁, w', m₂, hfunctions.trans (functions_of_visit hfirst), hrun⟩

theorem Executes.exists_run {steps : List (Stmt × Value)} (h : Executes depth m steps m')
    {s : Stmt} (hs : s ∈ steps.map Prod.fst) :
    ∃ m₁ w m₂, m₁.functions = m.functions ∧ (visit depth s.toNode).run m₁ = .ok w m₂ := by
  induction h with
  | nil m => cases hs
  | @cons m₀ m₁ m₂ first w rest hfirst _ ih =>
    rcases List.mem_cons.mp hs with rfl | hs
    · exact ⟨m₀, w, m₁, rfl, hfirst⟩
    · obtain ⟨u, w', u', hfunctions, hrun⟩ := ih hs
      exact ⟨u, w', u', hfunctions.trans (functions_of_visit hfirst), hrun⟩

/-- What is called inside a call that takes `depth` levels has returned, with fewer levels. -/
def CalleeReturns (functions : Table Value) (depth : Nat) (callee : Value) : Prop :=
  ∃ key d, Name.ofValue callee = .ok key ∧ d < depth ∧ Returns functions d key

theorem CalleeReturns.mono {callee : Value} {depth' : Nat}
    (h : CalleeReturns functions depth callee) (hle : depth ≤ depth') :
    CalleeReturns functions depth' callee := by
  obtain ⟨key, d, hkey, hlt, hreturns⟩ := h
  exact ⟨key, d, hkey, Nat.lt_of_lt_of_le hlt hle, hreturns⟩

theorem calleeReturns_of_functionCall {name : Value} {arguments : List Expr} {line : Value}
    (hbuiltin : Builtin.ofName? name = none)
    (h : (visit (depth + 3) (Expr.call name arguments line).toNode).run m = .ok v m') :
    CalleeReturns m.functions (depth + 1) name := by
  rw [visit_call, functionCall_declared (field_name_call ..) hbuiltin] at h
  obtain ⟨function, u, hfunction, h⟩ := run_bind_ok_iff.mp h
  obtain ⟨key, hkey, hget, rfl⟩ := functionNode_ok_iff.mp hfunction
  rw [runBody_eq_restoring] at h
  obtain ⟨w, hbody, -⟩ := run_restoring_ok_iff.mp h
  exact ⟨key, depth, hkey, Nat.lt_succ_self depth, function, m, v, w, hget, rfl, hbody⟩

/-- A call inside an expression that has been evaluated has returned. -/
theorem calleeReturns_of_expr (depth : Nat) :
    ∀ {e : Expr} {m m' : Machine} {v callee : Value},
      (visit depth e.toNode).run m = .ok v m' → callee ∈ e.callees →
      CalleeReturns m.functions depth callee := by
  induction depth using Nat.strongRecOn with
  | ind depth ih =>
    intro e m m' v callee h hcallee
    obtain ⟨d, rfl⟩ := exists_depth_of_ok h
    cases e with
    | string value line => simp [Expr.callees] at hcallee
    | number value line => simp [Expr.callees] at hcallee
    | var name line => simp [Expr.callees] at hcallee
    | sum left right line =>
      rw [Expr.callees] at hcallee
      rw [visit_sum] at h
      obtain ⟨a, u, hleft, h⟩ := run_bind_ok_iff.mp h
      obtain ⟨b, u', hright, -⟩ := run_bind_ok_iff.mp h
      rcases List.mem_append.mp hcallee with hcallee | hcallee
      · exact (ih (d + 1) (by omega) hleft hcallee).mono (by omega)
      · rw [← functions_of_visit hleft]
        exact (ih (d + 1) (by omega) hright hcallee).mono (by omega)
    | call name arguments line =>
      rw [Expr.callees] at hcallee
      cases hbuiltin : Builtin.ofName? name with
      | none =>
        rw [hbuiltin] at hcallee
        obtain rfl := List.mem_singleton.mp hcallee
        exact (calleeReturns_of_functionCall hbuiltin h).mono (by omega)
      | some b =>
        rw [hbuiltin] at hcallee
        obtain ⟨e, he, hcallee⟩ := Expr.mem_calleesOfAll.mp hcallee
        rw [visit_call, functionCall_builtin (field_name_call ..) hbuiltin
          (field_arguments_call ..)] at h
        obtain ⟨vs, u, hvalues, -⟩ := run_bind_ok_iff.mp h
        obtain ⟨m₁, w, m₂, hfunctions, hrun⟩ := exists_run_of_values hvalues he
        rw [← hfunctions]
        exact (ih d (by omega) hrun hcallee).mono (by omega)

/-- A call inside a statement that has been run has returned. -/
theorem calleeReturns_of_stmt {s : Stmt} {callee : Value}
    (hfunctions : m.functions.Functions) (h : (visit depth s.toNode).run m = .ok v m')
    (hcallee : callee ∈ s.callees m.functions) :
    CalleeReturns m.functions depth callee := by
  obtain ⟨d, rfl⟩ := exists_depth_of_ok h
  cases s with
  | assign name value line =>
    rw [visit_assign] at h
    obtain ⟨w, u, hvalue, -⟩ := run_bind_ok_iff.mp h
    exact (calleeReturns_of_expr (d + 1) hvalue hcallee).mono (by omega)
  | print expression newline line =>
    rw [visit_print] at h
    obtain ⟨w, u, hexpression, -⟩ := run_bind_ok_iff.mp h
    exact (calleeReturns_of_expr (d + 1) hexpression hcallee).mono (by omega)
  | call name arguments =>
    have hvalues : ∀ {vs u}, (values (visit d) (arguments.map Expr.toNode)).run m = .ok vs u →
        callee ∈ Expr.calleesOfAll arguments → CalleeReturns m.functions (d + 3) callee := by
      intro vs u hvs hcallee
      obtain ⟨e, he, hcallee⟩ := Expr.mem_calleesOfAll.mp hcallee
      obtain ⟨m₁, w, m₂, hsame, hrun⟩ := exists_run_of_values hvs he
      rw [← hsame]
      exact (calleeReturns_of_expr d hrun hcallee).mono (by omega)
    have hnode := field?_arguments_callStatement name arguments
    rw [Stmt.callees] at hcallee
    rw [visit_callStatement] at h
    cases hbuiltin : Builtin.ofStatement? name with
    | some b =>
      rw [hbuiltin] at hcallee
      rw [callStatement_builtin _ rfl hbuiltin hnode] at h
      obtain ⟨vs, u, hvs, -⟩ := run_bind_ok_iff.mp h
      exact hvalues hvs hcallee
    | none =>
      rw [hbuiltin] at hcallee
      rw [callStatement_declared _ rfl hbuiltin] at h
      obtain ⟨function, u, hfunction, h⟩ := run_bind_ok_iff.mp h
      obtain ⟨key, hkey, hget, rfl⟩ := functionNode_ok_iff.mp hfunction
      rw [bindArguments_runBody_eq_restoring] at h
      obtain ⟨w, h, -⟩ := run_restoring_ok_iff.mp h
      obtain ⟨_, u, hbind, hbody⟩ := run_bind_ok_iff.mp h
      have hname : CalleeReturns m.functions (d + 3) name := by
        have hsame := (widens.bindArguments widens.bindAll (widens.visit d) _ function hbind).1
        exact ⟨key, d, hkey, by omega, function, u, v, w, hget, hsame, hbody⟩
      cases htakes : m.functions.takesArguments name with
      | false =>
        rw [htakes] at hcallee
        obtain rfl := List.mem_singleton.mp hcallee
        exact hname
      | true =>
        rw [htakes] at hcallee
        rcases List.mem_cons.mp hcallee with rfl | hcallee
        · exact hname
        · obtain ⟨n, params, statements, rfl⟩ := hfunctions.of_get? hget
          have hparams := (Table.takesArguments_iff hkey hget).mp htakes
          rw [bindArguments_eq _ _ hnode rfl] at hbind
          split at hbind
          · next hnone =>
            have harguments := List.map_eq_nil_iff.mp (hnone.resolve_right hparams)
            simp [harguments, Expr.calleesOfAll] at hcallee
          · obtain ⟨vs, u', hvs, -⟩ := run_bind_ok_iff.mp hbind
            exact hvalues hvs hcallee

/-- A function that returns has had every function returned that it invokes. -/
theorem Returns.invokes (hfunctions : functions.Functions) (h : Returns functions depth f)
    (hinvokes : functions.Invokes f g) : ∃ d < depth, Returns functions d g := by
  obtain ⟨function, m, v, m', hget, rfl, hbody⟩ := h
  obtain ⟨-, name, params, statements, hget', s, hs, callee, hcallee, key, hkey, hsame⟩ := hinvokes
  obtain rfl := Option.some.inj (hget.symm.trans hget')
  have hexecute : (execute depth (Stmt.blockNode statements)).run m = .ok v m' := hbody
  obtain ⟨steps, hsteps, hexecutes⟩ := Executes.of_execute hexecute
  obtain ⟨m₁, w, m₂, hsame₁, hrun⟩ := hexecutes.exists_run (hsteps ▸ hs)
  rw [← hsame₁] at hfunctions hcallee ⊢
  obtain ⟨key', d, hkey', hlt, hreturns⟩ := calleeReturns_of_stmt hfunctions hrun hcallee
  obtain rfl := Except.ok.inj (hkey.symm.trans hkey')
  exact ⟨d, hlt, hreturns.of_same hsame⟩

theorem Returns.transGen (hfunctions : functions.Functions) (h : Returns functions depth f)
    (hpath : TransGen functions.Invokes f g) : ∃ d < depth, Returns functions d g := by
  induction hpath with
  | single hstep => exact h.invokes hfunctions hstep
  | tail _ hstep ih =>
    obtain ⟨d, hlt, hreturns⟩ := ih
    obtain ⟨d', hlt', hreturns'⟩ := hreturns.invokes hfunctions hstep
    exact ⟨d', Nat.lt_trans hlt' hlt, hreturns'⟩

/-- A function that leads to itself would have to return with ever fewer levels. -/
theorem Returns.not_transGen_self (hfunctions : functions.Functions)
    (h : Returns functions depth f) : ¬ TransGen functions.Invokes f f := by
  intro hcycle
  induction depth using Nat.strongRecOn with
  | ind depth ih =>
    obtain ⟨d, hlt, hreturns⟩ := h.transGen hfunctions hcycle
    exact ih d hlt hreturns

theorem Returns.not_recursive (hfunctions : functions.Functions) (h : Returns functions depth f) :
    ¬ functions.Recursive f := by
  rintro ⟨g, hpath, hcycle⟩
  rcases Relation.reflTransGen_iff_eq_or_transGen.mp hpath with rfl | hpath
  · exact h.not_transGen_self hfunctions hcycle
  · obtain ⟨d, -, hreturns⟩ := h.transGen hfunctions hpath
    exact hreturns.not_transGen_self hfunctions hcycle

/-- A node that calls the declared function of a name. -/
inductive CallOf (name : Value) (arguments : List Expr) : Value → Prop
  | expression (line : Value) : Builtin.ofName? name = none →
      CallOf name arguments (Expr.call name arguments line).toNode
  | statement : Builtin.ofStatement? name = none →
      CallOf name arguments (Stmt.call name arguments).toNode

theorem CallOf.calleeReturns {name node v : Value} {arguments : List Expr} {m m' : Machine}
    (hfunctions : m.functions.Functions) (h : CallOf name arguments node)
    (hrun : (visit depth node).run m = .ok v m') : CalleeReturns m.functions depth name := by
  cases h with
  | expression line hbuiltin =>
    refine calleeReturns_of_expr depth hrun ?_
    rw [Expr.callees, hbuiltin]
    exact List.mem_cons_self
  | statement hbuiltin =>
    refine calleeReturns_of_stmt hfunctions hrun ?_
    rw [Stmt.callees, hbuiltin]
    cases m.functions.takesArguments name <;> exact List.mem_cons_self

end Machine

end Scriptlet
