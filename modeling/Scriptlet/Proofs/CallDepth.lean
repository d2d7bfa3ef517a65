import Mathlib.Data.Fintype.Card
import Scriptlet.Proofs.Ending
import Scriptlet.Proofs.Recursion

/-! How deeply calls nest. Where calls do not lead back to a function, each call inside its body
leads to fewer functions than the function itself, so the number of functions bounds how deeply
calls nest, and the functions alone say how many levels are enough. -/
namespace Scriptlet

open Machine (Builtin)
open Relation (ReflTransGen TransGen)

namespace Value

mutual

/-- How many levels of visits the nodes in a value may take, one inside the other. -/
def levels : Value → Nat
  | list items => levelsOfItems items
  | record fields => levelsOfFields fields + 3
  | _ => 0

def levelsOfItems : List Value → Nat
  | [] => 0
  | v :: rest => max v.levels (levelsOfItems rest)

def levelsOfFields : List (String × Value) → Nat
  | [] => 0
  | (_, v) :: rest => max v.levels (levelsOfFields rest)

end

theorem levels_le_of_mem {items : List Value} {v : Value} (h : v ∈ items) :
    v.levels ≤ levelsOfItems items := by
  induction items with
  | nil => cases h
  | cons first rest ih =>
    rw [levelsOfItems]
    rcases List.mem_cons.mp h with rfl | h
    · exact Nat.le_max_left _ _
    · exact (ih h).trans (Nat.le_max_right _ _)

theorem levels_le_of_lookup {fields : List (String × Value)} {name : String} {v : Value}
    (h : fields.lookup name = some v) : v.levels ≤ levelsOfFields fields := by
  induction fields with
  | nil => cases h
  | cons first rest ih =>
    obtain ⟨other, w⟩ := first
    rw [levelsOfFields]
    rw [List.lookup_cons] at h
    split at h
    · obtain rfl := Option.some.inj h
      exact Nat.le_max_left _ _
    · exact (ih h).trans (Nat.le_max_right _ _)

theorem levels_of_field {node v : Value} {name : String} (h : node.field? name = some v) :
    v.levels + 3 ≤ node.levels := by
  cases node with
  | record fields =>
    rw [levels]
    exact Nat.add_le_add_right (levels_le_of_lookup h) 3
  | _ => cases h

end Value

namespace Table

variable {functions : Table Value} {f g : Name}

/-- The most levels that the body of a function takes, apart from the calls in it. -/
def levels (functions : Table Value) : Nat :=
  Value.levelsOfItems (functions.map Prod.snd)

/-- How deeply visits may nest in a call that is not recursive. -/
def callDepth (functions : Table Value) : Nat :=
  functions.length * functions.levels

theorem exists_same_of_get? {function : Value} (h : functions.get? g = some function) :
    ∃ i : Fin functions.length, functions[i].1.same g = true := by
  rw [get?_eq_find?] at h
  obtain ⟨entry, hfind, -⟩ := Option.map_eq_some_iff.mp h
  have hsame := List.find?_some hfind
  obtain ⟨i, hi, rfl⟩ := List.getElem_of_mem (List.mem_of_find?_eq_some hfind)
  exact ⟨⟨i, hi⟩, hsame⟩

theorem same_self_of_get? {function : Value} (h : functions.get? g = some function) :
    g.same g = true := by
  obtain ⟨i, hsame⟩ := exists_same_of_get? h
  exact Name.same_trans (Name.same_symm hsame) hsame

theorem levels_of_get? {function : Value} (h : functions.get? g = some function) :
    function.levels ≤ functions.levels :=
  of_get? (P := fun node => node.levels ≤ functions.levels)
    (fun _ hentry => Value.levels_le_of_mem (List.mem_map_of_mem hentry)) h

theorem Invokes.of_same {g' : Name} (h : functions.Invokes f g) (hsame : g.same g' = true) :
    functions.Invokes f g' := by
  obtain ⟨hg, name, params, body, hf, s, hs, callee, hcallee, key, hkey, hkeyg⟩ := h
  refine ⟨get?_of_same functions hsame ▸ hg, name, params, body, hf, s, hs, callee, hcallee, key,
    hkey, Name.same_trans hkeyg hsame⟩

theorem transGen_of_same {g' : Name} (h : TransGen functions.Invokes f g)
    (hsame : g.same g' = true) : TransGen functions.Invokes f g' := by
  cases h with
  | single hstep => exact .single (hstep.of_same hsame)
  | tail hpath hstep => exact .tail hpath (hstep.of_same hsame)

open Classical in
/-- The places of the functions that calls from `f` lead to. -/
noncomputable def below (functions : Table Value) (f : Name) : Finset (Fin functions.length) :=
  Finset.univ.filter fun i => TransGen functions.Invokes f functions[i].1

theorem mem_below {i : Fin functions.length} :
    i ∈ functions.below f ↔ TransGen functions.Invokes f functions[i].1 := by
  simp [below]

theorem not_mem_below {i : Fin functions.length} (h : ¬ functions.Recursive f)
    (hsame : functions[i].1.same f = true) : i ∉ functions.below f :=
  fun hi => h ⟨f, .refl, transGen_of_same (mem_below.mp hi) hsame⟩

theorem card_below_lt {function : Value} (h : ¬ functions.Recursive f)
    (hf : functions.get? f = some function) : (functions.below f).card < functions.length := by
  obtain ⟨i, hsame⟩ := exists_same_of_get? hf
  have hlt := Finset.card_lt_univ_of_notMem (not_mem_below h hsame)
  rwa [Fintype.card_fin] at hlt

theorem Invokes.not_recursive (hstep : functions.Invokes f g) (h : ¬ functions.Recursive f) :
    ¬ functions.Recursive g :=
  fun ⟨k, hpath, hcycle⟩ => h ⟨k, .head hstep hpath, hcycle⟩

theorem Invokes.card_below_lt (hstep : functions.Invokes f g) (h : ¬ functions.Recursive f) :
    (functions.below g).card < (functions.below f).card := by
  obtain ⟨function, hg⟩ := Option.isSome_iff_exists.mp hstep.1
  obtain ⟨i, hsame⟩ := exists_same_of_get? hg
  refine Finset.card_lt_card (Finset.ssubset_iff_of_subset ?_ |>.mpr ⟨i, ?_, ?_⟩)
  · intro j hj
    exact mem_below.mpr (.head hstep (mem_below.mp hj))
  · exact mem_below.mpr (transGen_of_same (.single hstep) (Name.same_symm hsame))
  · exact not_mem_below (hstep.not_recursive h) hsame

end Table

namespace Machine

variable {α : Type} {functions : Table Value} {base depth : Nat}

/-- From every machine with these functions the step ends without nesting too deeply. -/
abbrev Shallow (functions : Table Value) (x : Run α) : Prop :=
  Ends (·.functions = functions) (· ≠ .fault .tooDeep) x fun _ => True

theorem permits_shallow [Clock] (functions : Table Value) :
    Permits (·.functions = functions) (· ≠ .fault .tooDeep) where
  log _ hm := hm
  computed := by
    rintro _ hcomputed ⟨⟩
    cases hcomputed
  refused _ := nofun
  leave _ := nofun

namespace Shallow

theorem lift {x : Except Fault α} (h : x ≠ .error .tooDeep) :
    Ends (·.functions = functions) (· ≠ .fault .tooDeep) (liftM x : Run α) (x = .ok ·) := by
  cases x with
  | ok a => exact .pure rfl
  | error cause => exact .throw fun hstop => h (congrArg _ (Stop.fault.inj hstop))

theorem ofValue_ne (v : Value) : Name.ofValue v ≠ .error .tooDeep := by
  cases v <;> exact nofun

theorem lookUp (name line : Value) :
    Shallow functions (lookUp (Expr.var name line).toNode) := by
  have hnode : (Expr.var name line).toNode.field "name" = .ok name := by
    rw [Expr.toNode]
    rfl
  rw [Machine.lookUp, field, hnode, liftM_ok_bind]
  intro m hm
  rw [run_get_bind]
  refine Ends.bind (lift (ofValue_ne name)) (fun key _ => ?_) hm
  cases m.scope.get? key with
  | some v => exact .pure trivial
  | none =>
    have hpermits := permits_shallow functions
    exact .bind (hpermits.lift name.computes_display) fun _ _ => .throw (hpermits.computed rfl)

theorem functionNode (name node : Value) :
    Ends (·.functions = functions) (· ≠ .fault .tooDeep) (functionNode name node) fun function =>
      ∃ key, Name.ofValue name = .ok key ∧ functions.get? key = some function := by
  rintro m rfl
  rw [Machine.functionNode, run_get_bind]
  refine Ends.bind (lift (ofValue_ne name)) (fun key hkey => ?_) rfl
  cases hget : m.functions.get? key with
  | some function => exact .pure ⟨key, hkey, hget⟩
  | none =>
    have hpermits := permits_shallow m.functions
    exact .bind (hpermits.lift name.computes_display) fun _ _ =>
      .bind (hpermits.lift (Value.computes_display _)) fun _ _ => .throw (hpermits.computed rfl)

theorem bindAll (params vs : List Value) : Shallow functions (bindAll params vs) := by
  rw [Machine.bindAll]
  induction params.zip vs with
  | nil => exact .pure trivial
  | cons entry rest ih =>
    have hassign : Shallow functions (do assign (← Name.ofValue entry.1) entry.2) :=
      .bind (lift (ofValue_ne entry.1)) fun _ _ => fun _ hm => ⟨hm, trivial⟩
    exact .bind hassign fun _ _ => ih

theorem restoring {x : Run α} (hx : Shallow functions x) : Shallow functions (restoring x) :=
  Ends.restoring hx fun _ hu => hu

end Shallow

/-- The function of the name, if there is one, may be called with `base` levels to go. -/
def Callable [Clock] (functions : Table Value) (base : Nat) (name : Value) : Prop :=
  ∀ ⦃key function⦄, Name.ofValue name = .ok key → functions.get? key = some function →
    ∀ ⦃depth⦄, base ≤ depth → Shallow functions (body depth function)

theorem Callable.functionCall [Clock] {name : Value} (h : Callable functions base name)
    (hbuiltin : Builtin.ofName? name = none) (arguments : List Expr) (line : Value)
    (hdepth : base ≤ depth) :
    Shallow functions (visit (depth + 3) (Expr.call name arguments line).toNode) := by
  rw [visit_call, functionCall_declared (field_name_call ..) hbuiltin]
  refine .bind (Shallow.functionNode name _) fun function hfunction => ?_
  obtain ⟨key, hkey, hget⟩ := hfunction
  rw [runBody_eq_restoring]
  exact Shallow.restoring (h hkey hget hdepth)

/-- There are three levels for the node itself, and those below are enough for what is inside. -/
theorem exists_depth_of_levels {node type : Value} (htype : node.field? "type" = some type)
    (h : base + node.levels ≤ depth) :
    ∃ d, depth = d + 3 ∧ ∀ {name v}, node.field? name = some v → base + v.levels ≤ d := by
  have hnode := Value.levels_of_field htype
  refine ⟨depth - 3, by omega, fun hv => ?_⟩
  have hfield := Value.levels_of_field hv
  omega

theorem exists_type_expr (e : Expr) : ∃ type, e.toNode.field? "type" = some type := by
  cases e <;> rw [Expr.toNode] <;> exact ⟨_, rfl⟩

theorem shallow_values [Clock]
    (ih : ∀ e : Expr, (∀ callee ∈ e.callees, Callable functions base callee) →
      base + e.toNode.levels ≤ depth → Shallow functions (visit depth e.toNode))
    {arguments : List Expr}
    (hcallees : ∀ callee ∈ Expr.calleesOfAll arguments, Callable functions base callee)
    (hdepth : base + (Value.list (arguments.map Expr.toNode)).levels ≤ depth) :
    Ends (·.functions = functions) (· ≠ .fault .tooDeep)
      (values (visit depth) (arguments.map Expr.toNode)) fun vs => ∀ v ∈ vs, True := by
  refine Ends.values (List.forall_mem_map.mpr fun e he => ih e (fun callee hcallee => ?_) ?_)
  · exact hcallees callee (Expr.mem_calleesOfAll.mpr ⟨e, he, hcallee⟩)
  · have hlevels := Value.levels_le_of_mem (List.mem_map_of_mem he : e.toNode ∈ _)
    rw [Value.levels] at hdepth
    omega

/-- An expression takes its own levels and those of the functions that it calls. -/
theorem shallow_expr [Clock] (depth : Nat) :
    ∀ e : Expr, (∀ callee ∈ e.callees, Callable functions base callee) →
      base + e.toNode.levels ≤ depth → Shallow functions (visit depth e.toNode) := by
  induction depth using Nat.strongRecOn with
  | ind depth ih =>
    intro e hcallees hdepth
    obtain ⟨type, htype⟩ := exists_type_expr e
    obtain ⟨d, rfl, hbelow⟩ := exists_depth_of_levels htype hdepth
    cases e with
    | string value line =>
      rw [visit_string]
      exact .pure trivial
    | number value line =>
      rw [visit_number]
      exact .pure trivial
    | var name line =>
      rw [visit_var]
      exact Shallow.lookUp name line
    | sum left right line =>
      rw [Expr.callees, List.forall_mem_append] at hcallees
      have hleft := hbelow (show (Expr.sum left right line).toNode.field? "left" = _ by
        rw [Expr.toNode]; rfl)
      have hright := hbelow (show (Expr.sum left right line).toNode.field? "right" = _ by
        rw [Expr.toNode]; rfl)
      rw [visit_sum]
      exact .bind (ih (d + 1) (by omega) left hcallees.1 (by omega)) fun a _ =>
        .bind (ih (d + 1) (by omega) right hcallees.2 (by omega)) fun b _ =>
          (permits_shallow functions).lift (Value.computes_sum a b)
    | call name arguments line =>
      have harguments := hbelow (callNode_call name line arguments).hasArguments
      rw [Expr.callees] at hcallees
      cases hbuiltin : Builtin.ofName? name with
      | some b =>
        rw [hbuiltin] at hcallees
        rw [visit_call, functionCall_builtin (field_name_call ..) hbuiltin
          (field_arguments_call ..)]
        exact .bind (shallow_values (ih d (by omega)) hcallees harguments) fun vs _ =>
          ((permits_shallow functions).builtin b vs).mono fun _ _ => trivial
      | none =>
        rw [hbuiltin] at hcallees
        exact (hcallees name List.mem_cons_self).functionCall hbuiltin arguments line (by omega)

/-- A statement takes its own levels and those of the functions that it calls. -/
theorem shallow_stmt [Clock] (hfunctions : functions.Functions) {s : Stmt}
    (hcallees : ∀ callee ∈ s.callees functions, Callable functions base callee)
    (hdepth : base + s.toNode.levels ≤ depth) : Shallow functions (visit depth s.toNode) := by
  obtain ⟨type, htype⟩ : ∃ type, s.toNode.field? "type" = some type := by
    cases s <;> exact ⟨_, rfl⟩
  obtain ⟨d, rfl, hbelow⟩ := exists_depth_of_levels htype hdepth
  cases s with
  | assign name value line =>
    have hvalue := hbelow (show (Stmt.assign name value line).toNode.field? "value" = _ from rfl)
    rw [visit_assign]
    exact .bind (shallow_expr (d + 1) value hcallees (by omega)) fun v _ =>
      .bind (Shallow.lift (Shallow.ofValue_ne name)) fun key _ =>
        .bind (fun _ hm => ⟨hm, trivial⟩) fun _ (_ : True) => .pure trivial
  | print expression newline line =>
    have hexpression := hbelow
      (show (Stmt.print expression newline line).toNode.field? "expression" = _ from rfl)
    rw [visit_print]
    exact .bind (shallow_expr (d + 1) expression hcallees (by omega)) fun v _ =>
      .bind ((permits_shallow functions).write _ _ [v]) fun _ _ => .pure trivial
  | call name arguments =>
    have hnode := field?_arguments_callStatement name arguments
    have harguments := hbelow hnode
    rw [Stmt.callees] at hcallees
    rw [visit_callStatement]
    cases hbuiltin : Builtin.ofStatement? name with
    | some b =>
      rw [hbuiltin] at hcallees
      rw [callStatement_builtin _ rfl hbuiltin hnode]
      exact .bind (shallow_values (shallow_expr d) hcallees harguments) fun vs _ =>
        ((permits_shallow functions).builtin b vs).mono fun _ _ => trivial
    | none =>
      rw [hbuiltin] at hcallees
      rw [callStatement_declared _ rfl hbuiltin]
      refine .bind (Shallow.functionNode name _) fun function hfunction => ?_
      obtain ⟨key, hkey, hget⟩ := hfunction
      obtain ⟨n, params, statements, rfl⟩ := hfunctions.of_get? hget
      have hname : Callable functions base name := by
        refine hcallees name ?_
        cases functions.takesArguments name <;> exact List.mem_cons_self
      rw [bindArguments_runBody_eq_restoring]
      refine Shallow.restoring (.bind ?_ fun _ (_ : True) => hname hkey hget (by omega))
      rw [bindArguments_eq _ _ hnode rfl]
      split
      · exact .pure trivial
      · next hboth =>
        have htakes := (Table.takesArguments_iff hkey hget).mpr (not_or.mp hboth).2
        rw [htakes] at hcallees
        exact .bind (shallow_values (shallow_expr d)
          (fun callee hcallee => hcallees callee (List.mem_cons_of_mem _ hcallee)) harguments)
          fun vs _ => Shallow.bindAll params vs

-- The induction is on how many functions calls lead to.
theorem shallow_body [Clock] (hfunctions : functions.Functions) {n : Nat} {f : Name}
    {function : Value} (h : ¬ functions.Recursive f) (hf : functions.get? f = some function)
    (hn : (functions.below f).card < n) (hdepth : n * functions.levels ≤ depth) :
    Shallow functions (body depth function) := by
  induction n generalizing f function depth with
  | zero => cases hn
  | succ n ih =>
    obtain ⟨name, params, statements, rfl⟩ := hfunctions.of_get? hf
    have hlevels := Table.levels_of_get? hf
    have hblock := Value.levels_of_field
      (show (Decl.function name params statements).toNode.field? "body" = _ from rfl)
    rw [Stmt.blockNode, Value.levels] at hblock
    rw [Nat.succ_mul] at hdepth
    refine Ends.runAll trivial (List.forall_mem_map.mpr fun s hs => ?_)
    have hstatement := Value.levels_le_of_mem (List.mem_map_of_mem hs : s.toNode ∈ _)
    refine shallow_stmt hfunctions (fun callee hcallee => ?_)
      (show n * functions.levels + s.toNode.levels ≤ depth by omega)
    intro key callee' hkey hget d hd
    have hinvokes : functions.Invokes f key :=
      ⟨hget ▸ rfl, name, params, statements, hf, s, hs, callee, hcallee, key, hkey,
        Table.same_self_of_get? hget⟩
    have hfewer := hinvokes.card_below_lt h
    exact ih (hinvokes.not_recursive h) hget (by omega) hd

/-- A call of a function that is not recursive needs no more levels than there are functions, each
with the levels of the largest one. -/
theorem callable_of_not_recursive [Clock] (hfunctions : functions.Functions) {f : Name}
    {name : Value} (hname : Name.ofValue name = .ok f) (h : ¬ functions.Recursive f) :
    Callable functions functions.callDepth name := by
  intro key function hkey hget d hd
  obtain rfl := Except.ok.inj (hname.symm.trans hkey)
  exact shallow_body hfunctions h hget (Table.card_below_lt h hget) hd

/-- A call statement goes too deep only in its arguments. -/
theorem Callable.callStatement [Clock] (hfunctions : functions.Functions) {name : Value}
    (h : Callable functions base name) (hbuiltin : Builtin.ofStatement? name = none)
    {arguments : List Expr} (hdepth : base ≤ depth) {m m' : Machine} (hm : m.functions = functions)
    (hrun : (visit (depth + 3) (Stmt.call name arguments).toNode).run m =
      .error (.fault .tooDeep) m') :
    functions.takesArguments name = true ∧
      (values (visit depth) (arguments.map Expr.toNode)).run m = .error (.fault .tooDeep) m' := by
  rw [visit_callStatement, callStatement_declared _ rfl hbuiltin] at hrun
  subst hm
  rcases run_bind_error_iff.mp hrun with hrun | ⟨function, u, hfunction, hrun⟩
  · exact absurd rfl ((Shallow.functionNode name _).error rfl hrun)
  · obtain ⟨key, hkey, hget, rfl⟩ := functionNode_ok_iff.mp hfunction
    obtain ⟨n, params, statements, rfl⟩ := hfunctions.of_get? hget
    rw [bindArguments_runBody_eq_restoring, run_restoring_error_iff] at hrun
    rcases run_bind_error_iff.mp hrun with hbind | ⟨_, u, hbind, hbody⟩
    · rw [bindArguments_eq _ _ (field?_arguments_callStatement name arguments) rfl] at hbind
      split at hbind
      · cases hbind
      · next hboth =>
        refine ⟨(Table.takesArguments_iff hkey hget).mpr (not_or.mp hboth).2, ?_⟩
        rcases run_bind_error_iff.mp hbind with hvalues | ⟨vs, u, hvalues, hbind⟩
        · exact hvalues
        · have hsame := (widens.values (widens.visit depth) _ hvalues).1
          exact absurd rfl ((Shallow.bindAll params vs).error hsame hbind)
    · have hsame := (widens.bindArguments widens.bindAll (widens.visit depth) _ _ hbind).1
      exact absurd rfl ((h hkey hget hdepth).error hsame hbody)

/-- Recursion never returns, and nothing else nests without bound. A call of a function that
returns, at whatever depth and in whatever scope, is not recursive. If the function is not
recursive, the functions alone say how many levels are enough: the call inside an expression does
not go too deep, and the call statement only if its arguments do, and are evaluated. -/
theorem recursion_dichotomy [Clock] (functions : Table Value) (hfunctions : functions.Functions)
    (f : Name) (name : Value) (hname : Name.ofValue name = .ok f) (m : Machine)
    (hm : m.functions = functions) (arguments : List Expr) :
    (∀ depth node v m', CallOf name arguments node → (visit depth node).run m = .ok v m' →
      ¬ functions.Recursive f) ∧
    (¬ functions.Recursive f → ∀ depth, functions.callDepth ≤ depth →
      (Builtin.ofName? name = none → ∀ line m',
        (visit (depth + 3) (Expr.call name arguments line).toNode).run m ≠
          .error (.fault .tooDeep) m') ∧
      (Builtin.ofStatement? name = none → ∀ m',
        (visit (depth + 3) (Stmt.call name arguments).toNode).run m = .error (.fault .tooDeep) m' →
        functions.takesArguments name = true ∧
          (values (visit depth) (arguments.map Expr.toNode)).run m =
            .error (.fault .tooDeep) m')) := by
  subst hm
  constructor
  · intro depth node v m' hcall hrun
    obtain ⟨key, d, hkey, -, hreturns⟩ := hcall.calleeReturns hfunctions hrun
    obtain rfl := Except.ok.inj (hname.symm.trans hkey)
    exact hreturns.not_recursive hfunctions
  · intro h depth hdepth
    have hcallable := callable_of_not_recursive hfunctions hname h
    refine ⟨fun hbuiltin line m' hrun => ?_, fun hbuiltin m' hrun => ?_⟩
    · exact (hcallable.functionCall hbuiltin arguments line hdepth).error rfl hrun rfl
    · exact hcallable.callStatement hfunctions hbuiltin hdepth rfl hrun

/-- `func:f(x) { call g; }`, `func:g { println x; }` and `func:r { call f("a"); call r; }`. -/
def threeFunctions : Table Value :=
  [(.text "f", (Decl.function (.str "f") [.str "x"] [.call (.str "g") []]).toNode),
    (.text "g", (Decl.function (.str "g") []
      [.print (.var (.str "x") Token.unknown) true Token.unknown]).toNode),
    (.text "r", (Decl.function (.str "r") []
      [.call (.str "f") [.string (.str "a") Token.unknown], .call (.str "r") []]).toNode)]

/-- A call of `f` returns, so `f` is not recursive and its calls end in every scope; `r` is, so no
call of it returns. -/
theorem recursion_dichotomy_threeFunctions :
    threeFunctions.Functions ∧ ¬ threeFunctions.Recursive (.text "f") ∧
    threeFunctions.Recursive (.text "r") ∧
    (∀ scope m', (visit (threeFunctions.callDepth + 3)
      (Expr.call (.str "f") [] Token.unknown).toNode).run
        { scope := scope, functions := threeFunctions } ≠ .error (.fault .tooDeep) m') ∧
    ∀ scope depth v m', (visit depth (Stmt.call (.str "r") []).toNode).run
      { scope := scope, functions := threeFunctions } ≠ .ok v m' := by
  have hfunctions : threeFunctions.Functions := by
    intro entry hentry
    simp only [threeFunctions, List.mem_cons, List.not_mem_nil, or_false] at hentry
    rcases hentry with rfl | rfl | rfl <;> exact ⟨_, _, _, rfl⟩
  have hf : ¬ threeFunctions.Recursive (.text "f") := by
    have hcall : CallOf (.str "f") [.string (.str "a") Token.unknown]
        (Stmt.call (.str "f") [.string (.str "a") Token.unknown]).toNode := .statement rfl
    exact (recursion_dichotomy threeFunctions hfunctions (.text "f") (.str "f") rfl
      { functions := threeFunctions } rfl _).1 20 _ .null _ hcall rfl
  have hr : threeFunctions.Recursive (.text "r") := by
    refine ⟨.text "r", .refl, .single ⟨rfl, _, _, _, rfl, .call (.str "r") [], ?_, .str "r", ?_,
      .text "r", rfl, rfl⟩⟩
    · exact List.mem_cons_of_mem _ List.mem_cons_self
    · exact List.mem_cons_self
  refine ⟨hfunctions, hf, hr, fun scope m' => ?_, fun scope depth v m' hrun => ?_⟩
  · obtain ⟨-, hends⟩ := recursion_dichotomy threeFunctions hfunctions (.text "f") (.str "f") rfl
      { scope := scope, functions := threeFunctions } rfl []
    exact (hends hf _ le_rfl).1 rfl _ m'
  · obtain ⟨hreturns, -⟩ := recursion_dichotomy threeFunctions hfunctions (.text "r") (.str "r") rfl
      { scope := scope, functions := threeFunctions } rfl []
    exact hreturns depth _ v m' (.statement rfl) hrun hr

end Machine

end Scriptlet
