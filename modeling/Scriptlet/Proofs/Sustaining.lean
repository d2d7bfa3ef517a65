import Scriptlet.Proofs.Calling
import Scriptlet.Proofs.Ending
import Scriptlet.Proofs.Plain

/-! Classes of values that plain programs never leave. Where the variables are of a class with the
literals of sources and with what sums make of its values, they stay of it while plain trees are
visited, and so is every value of a visit. -/
namespace Scriptlet

/-- The node of a plain function. -/
def Value.PlainFunction (node : Value) : Prop :=
  ∃ name params body, (Decl.function name params body).Plain ∧
    node = (Decl.function name params body).toNode

namespace Machine

variable [Clock]

/-- An invariant under which all variables are of a class and all functions plain, and which steps
on values of the class keep; the class has the values that plain programs begin with, and sums stay
in it. -/
structure Sustains (P : Value → Prop) (I : Machine → Prop) (E : Stop → Prop) : Prop
    extends Permits I E where
  null : P .null
  nat (n : Nat) : P (.int n)
  text (s : String) : P (.str s)
  sum {v w : Value} : P v → P w → Yields P (Value.combine .plus v w)
  scope {m : Machine} : I m → ∀ entry ∈ m.scope, P entry.2
  functions {m : Machine} : I m → ∀ entry ∈ m.functions, entry.2.PlainFunction
  set {m : Machine} {v : Value} (name : Name) : I m → P v →
    I { m with scope := m.scope.set name v }
  restore {m u : Machine} : I m → I u → I { u with scope := m.scope }
  tooDeep : E (.fault .tooDeep)

namespace Sustains

variable {P : Value → Prop} {I : Machine → Prop} {E : Stop → Prop} (h : Sustains P I E)

include h

theorem assign (name : Name) {v : Value} (hv : P v) : Ends I E (assign name v) fun _ => True :=
  fun _ hm => ⟨h.set name hm hv, trivial⟩

theorem call (b : Builtin) (vs : List Value) : Ends I E (b.run vs) P :=
  (h.builtin b vs).mono fun _ hv => hv ▸ h.null

theorem lookUp (name : String) (line : Value) :
    Ends I E (lookUp (Expr.var (.str name) line).toNode) P := by
  intro m hm
  have hnode : (Expr.var (.str name) line).toNode.field "name" = .ok (.str name) := by
    rw [Expr.toNode]
    rfl
  rw [Machine.lookUp, field, hnode, liftM_ok_bind, run_get_bind, Name.ofValue, liftM_ok_bind]
  cases hget : m.scope.get? (.text name) with
  | none => exact ⟨hm, h.computed rfl⟩
  | some v => exact ⟨hm, Table.of_get? (h.scope hm) hget⟩

theorem functionNode (name : String) (node : Value) :
    Ends I E (functionNode (.str name) node) Value.PlainFunction := by
  intro m hm
  rw [Machine.functionNode, run_get_bind, Name.ofValue, liftM_ok_bind]
  cases hget : m.functions.get? (.text name) with
  | some function => exact ⟨hm, Table.of_get? (h.functions hm) hget⟩
  | none =>
    have hline := h.lift ((node.field? "line").getD (.str "unknown")).computes_display
    have hthrow : Ends I E (do
        let line ← ((node.field? "line").getD (.str "unknown")).display
        throw (.fault (.undefinedFunction name line)) : Run Value) Value.PlainFunction :=
      .bind hline fun _ _ => .throw (h.computed rfl)
    exact hthrow hm

theorem bindAll {params vs : List Value} (hparams : ∀ param ∈ params, ∃ s, param = .str s)
    (hvs : ∀ v ∈ vs, P v) : Ends I E (bindAll params vs) fun _ => True := by
  induction params generalizing vs with
  | nil => exact .pure trivial
  | cons param params ih =>
    obtain ⟨⟨s, rfl⟩, hrest⟩ := List.forall_mem_cons.mp hparams
    cases vs with
    | nil => exact .pure trivial
    | cons v vs =>
      obtain ⟨hv, hvs⟩ := List.forall_mem_cons.mp hvs
      exact .bind (h.assign (.text s) hv) fun _ _ => ih hrest hvs

section Visitor

variable {visit : Visitor}

omit [Clock] h in
theorem values {es : List Expr} (hes : ∀ e ∈ es, Ends I E (visit e.toNode) P) :
    Ends I E (values visit (es.map Expr.toNode)) fun vs => ∀ v ∈ vs, P v :=
  Ends.values (List.forall_mem_map.mpr hes)

theorem runBlock {body : List Stmt} (hbody : ∀ s ∈ body, Ends I E (visit s.toNode) P) :
    Ends I E (runBlock visit (Stmt.blockNode body)) P :=
  Ends.runAll h.null (List.forall_mem_map.mpr hbody)

theorem body (hstmt : ∀ s : Stmt, s.Plain → Ends I E (visit s.toNode) P) {function : Value}
    (hfunction : function.PlainFunction) :
    Ends I E (do Machine.runBlock visit (← field "body" function)) P := by
  obtain ⟨name, params, body, hplain, rfl⟩ := hfunction
  cases hplain with
  | function name hparams hbody => exact h.runBlock fun s hs => hstmt s (hbody s hs)

theorem bindArguments (hexpr : ∀ e : Expr, e.Plain → Ends I E (visit e.toNode) P)
    {node function : Value} {arguments : List Expr}
    (hnode : node.field? "arguments" = some (.list (arguments.map Expr.toNode)))
    (harguments : ∀ e ∈ arguments, e.Plain) (hfunction : function.PlainFunction) :
    Ends I E (bindArguments Machine.bindAll visit node function) fun _ => True := by
  obtain ⟨name, params, body, hplain, rfl⟩ := hfunction
  cases hplain with
  | function name hparams hbody =>
    rw [bindArguments_eq _ visit hnode rfl]
    split
    · exact .pure trivial
    · exact .bind (values fun e he => hexpr e (harguments e he)) fun vs hvs =>
        h.bindAll hparams hvs

end Visitor

section Visit

variable {depth : Nat} {inner : Visitor}
  (hexpr : ∀ e : Expr, e.Plain → Ends I E (inner e.toNode) P)
  (hstmt : ∀ s : Stmt, s.Plain → Ends I E (inner s.toNode) P)

include hexpr hstmt

theorem functionCall (name : String) (line : Value) {arguments : List Expr}
    (harguments : ∀ e ∈ arguments, e.Plain) :
    Ends I E (functionCall inner (Expr.call (.str name) arguments line).toNode) P := by
  cases hbuiltin : Builtin.ofName? (.str name) with
  | some b =>
    rw [functionCall_builtin (field_name_call ..) hbuiltin (field_arguments_call ..)]
    exact .bind (values fun e he => hexpr e (harguments e he)) fun vs _ => h.call b vs
  | none =>
    rw [functionCall_declared (field_name_call ..) hbuiltin]
    refine .bind (h.functionNode name _) fun function hfunction => ?_
    rw [runBody_eq_restoring]
    exact (h.body hstmt hfunction).restoring h.restore

theorem callStatement (name : String) {arguments : List Expr}
    (harguments : ∀ e ∈ arguments, e.Plain) :
    Ends I E (callStatement Machine.bindAll inner (Stmt.call (.str name) arguments).toNode) P := by
  have hnode := field?_arguments_callStatement (.str name) arguments
  cases hbuiltin : Builtin.ofStatement? (.str name) with
  | some b =>
    rw [callStatement_builtin _ rfl hbuiltin hnode]
    exact .bind (values fun e he => hexpr e (harguments e he)) fun vs _ => h.call b vs
  | none =>
    rw [callStatement_declared _ rfl hbuiltin]
    refine .bind (h.functionNode name _) fun function hfunction => ?_
    rw [bindArguments_runBody_eq_restoring]
    exact (Ends.bind (h.bindArguments hexpr hnode harguments hfunction) fun _ _ =>
      h.body hstmt hfunction).restoring h.restore

end Visit

/-- Visits of plain trees keep the invariant and have values of the class, at any depth. -/
theorem visit (depth : Nat) :
    (∀ e : Expr, e.Plain → Ends I E (visit depth e.toNode) P) ∧
      ∀ s : Stmt, s.Plain → Ends I E (Machine.visit depth s.toNode) P := by
  induction depth using Nat.strongRecOn with
  | ind depth ih =>
    match depth with
    | 0 | 1 | 2 => exact ⟨fun _ _ => .throw h.tooDeep, fun _ _ => .throw h.tooDeep⟩
    | d + 3 =>
      obtain ⟨hexpr, hstmt⟩ := ih d (by omega)
      obtain ⟨hbelow, -⟩ := ih (d + 1) (by omega)
      constructor
      · intro e he
        cases he with
        | string s line =>
          rw [visit_string]
          exact .pure (h.text s)
        | number n line =>
          rw [visit_number]
          exact .pure (h.nat n)
        | var name line =>
          rw [visit_var]
          exact h.lookUp name line
        | call name line harguments =>
          rw [visit_call]
          exact h.functionCall hexpr hstmt name line harguments
        | sum line hleft hright =>
          rw [visit_sum]
          exact .bind (hbelow _ hleft) fun a ha => .bind (hbelow _ hright) fun b hb =>
            h.lift (h.sum ha hb)
      · intro s hs
        cases hs with
        | assign name line hvalue =>
          rw [visit_assign]
          refine .bind (hbelow _ hvalue) fun v hv => ?_
          rw [Name.ofValue, liftM_ok_bind]
          exact .bind (h.assign (.text name) hv) fun _ _ => .pure hv
        | print newline line hexpression =>
          rw [visit_print]
          exact .bind (hbelow _ hexpression) fun v _ => .bind (h.write _ _ [v]) fun _ _ =>
            .pure h.null
        | call name harguments =>
          rw [visit_callStatement]
          exact h.callStatement hexpr hstmt name harguments

end Sustains

end Machine

end Scriptlet
