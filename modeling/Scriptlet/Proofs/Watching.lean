import Scriptlet.Proofs.Safety

/-! Runs under watch. Every visit, and every binding of a parameter, is stopped with an alarm if it
finds or leaves a variable that is not a natural number, a text or nothing, or if the visit has such
a value. In every session of sources the alarm never rings: the run under watch is the run. -/
namespace Scriptlet

/-- Whether a value is a natural number, a text or nothing. -/
def Value.isPlain : Value → Bool
  | .null => true
  | .int z => decide (0 ≤ z)
  | .str _ => true
  | _ => false

theorem Value.Plain.isPlain {v : Value} (h : v.Plain) : v.isPlain = true := by
  cases h with
  | null => rfl
  | nat n => exact decide_eq_true (Int.natCast_nonneg n)
  | text s => rfl

namespace Machine

variable {α β : Type}

/-- Whether all variables are plain. -/
def isPlain (m : Machine) : Bool :=
  m.scope.all fun entry => entry.2.isPlain

theorem Plain.isPlain {m : Machine} (h : m.Plain) : m.isPlain = true :=
  List.all_eq_true.mpr fun entry hentry => (h.scope entry hentry).isPlain

/-- A step under watch, whose result must pass a check. However it ends, the alarm rings unless all
variables are plain before it and behind it. -/
def watched (alarm : Stop) (check : α → Bool) (x : Run α) : Run α := fun m =>
  if m.isPlain then
    match x.run m with
    | .ok a m' => if check a && m'.isPlain then .ok a m' else .error alarm m'
    | .error stop m' => .error (if m'.isPlain then stop else alarm) m'
  else .error alarm m

/-- `bindAll` under watch. -/
def watchedBindAll (alarm : Stop) : Binder := fun params values =>
  (params.zip values).forM fun (param, value) => do
    let name ← Name.ofValue param
    watched alarm (fun _ => true) (assign name value)

/-- `visit` under watch: every visit inside is watched, and so is every binding of a parameter. -/
def watchedVisit [Clock] (alarm : Stop) : Nat → Visitor
  | depth + 3, node => watched alarm Value.isPlain
    (dispatch (watchedBindAll alarm) (watchedVisit alarm (depth + 1)) (watchedVisit alarm depth)
      node)
  | _, _ => watched alarm Value.isPlain (throw (.fault .tooDeep))

/-- A variable that holds a negative number rings the alarm. -/
example (alarm : Stop) :
    (watchedBindAll alarm [.str "x"] [.int (-1)]).run {} =
      .error alarm { scope := [(.text "x", .int (-1))] } :=
  rfl

/-- The one step ends as the other does, from every plain machine. -/
def Follows (x y : Run α) : Prop :=
  ∀ ⦃m⦄, m.Plain → x.run m = y.run m

namespace Follows

variable {x y : Run α} {f g : α → Run β} {post : α → Prop} {E : Stop → Prop}

theorem refl (x : Run α) : Follows x x := fun _ _ => rfl

theorem bind (hsafe : Ends Plain E y post) (hx : Follows x y)
    (hf : ∀ a, post a → Follows (f a) (g a)) : Follows (x >>= f) (y >>= g) := by
  intro m hm
  have hends := hsafe hm
  rw [EStateM.run_bind, EStateM.run_bind, hx hm]
  cases hy : y.run m with
  | ok a u =>
    rw [hy] at hends
    exact hf a hends.2 hends.1
  | error stop u => rfl

theorem restoring (hx : Follows x y) : Follows (restoring x) (restoring y) := by
  intro m hm
  rw [run_restoring, run_restoring, hx hm]

/-- A step that keeps machines plain and has results that pass the check rings no alarm. -/
theorem watched (alarm : Stop) {check : α → Bool} (hsafe : Ends Plain E y post)
    (hcheck : ∀ a, post a → check a = true) (hx : Follows x y) :
    Follows (watched alarm check x) y := by
  intro m hm
  have hends := hsafe hm
  rw [EStateM.run, Machine.watched, if_pos hm.isPlain, hx hm]
  cases hy : y.run m with
  | ok a u =>
    rw [hy] at hends
    exact if_pos (Bool.and_eq_true_iff.mpr ⟨hcheck a hends.2, hends.1.isPlain⟩)
  | error stop u =>
    rw [hy] at hends
    exact congrArg (EStateM.Result.error · u) (if_pos hends.1.isPlain)

end Follows

variable [Clock]

/-- A visit under watch ends as the visit itself does, which is safe and has a plain value. -/
structure Shadows (x y : Run Value) : Prop where
  safe : Safe y Value.Plain
  follows : Follows x y

namespace Shadows

theorem refl {x : Run Value} (h : Safe x Value.Plain) : Shadows x x := ⟨h, .refl x⟩

theorem watched (alarm : Stop) {x y : Run Value} (h : Shadows x y) :
    Shadows (watched alarm Value.isPlain x) y :=
  ⟨h.safe, h.follows.watched alarm h.safe fun _ hv => hv.isPlain⟩

end Shadows

namespace Follows

section List

variable {watching visit : Visitor} {nodes : List Value}
  (h : ∀ node ∈ nodes, Shadows (watching node) (visit node))

include h

theorem values : Follows (values watching nodes) (values visit nodes) := by
  induction nodes with
  | nil => exact .refl _
  | cons node rest ih =>
    obtain ⟨hnode, hrest⟩ := List.forall_mem_cons.mp h
    rw [Machine.values, Machine.values, List.mapM_cons, List.mapM_cons]
    refine bind hnode.safe hnode.follows fun v _ => ?_
    exact bind (Ends.values fun n hn => (hrest n hn).safe) (ih hrest) fun vs _ => .refl _

theorem runAll : Follows (runAll watching nodes) (runAll visit nodes) := by
  have hloop : ∀ start, Follows (nodes.foldlM (fun _ node => watching node) start)
      (nodes.foldlM (fun _ node => visit node) start) := by
    induction nodes with
    | nil => exact fun start => .refl _
    | cons node rest ih =>
      intro start
      obtain ⟨hnode, hrest⟩ := List.forall_mem_cons.mp h
      rw [List.foldlM_cons, List.foldlM_cons]
      exact bind hnode.safe hnode.follows fun v _ => ih hrest v
  exact hloop .null

end List

theorem bindAll (alarm : Stop) {params vs : List Value}
    (hparams : ∀ param ∈ params, ∃ s, param = .str s) (hvs : ∀ v ∈ vs, v.Plain) :
    Follows (watchedBindAll alarm params vs) (bindAll params vs) := by
  induction params generalizing vs with
  | nil => exact .refl _
  | cons param params ih =>
    obtain ⟨⟨s, rfl⟩, hrest⟩ := List.forall_mem_cons.mp hparams
    cases vs with
    | nil => exact .refl _
    | cons v vs =>
      obtain ⟨hv, hvs⟩ := List.forall_mem_cons.mp hvs
      have hassign := sustains_plain.assign (.text s) hv
      exact bind hassign (watched alarm hassign (fun _ _ => rfl) (.refl _)) fun _ _ => ih hrest hvs

section Visitor

variable {watching inner : Visitor}
  (hexpr : ∀ e : Expr, e.Plain → Shadows (watching e.toNode) (inner e.toNode))
  (hstmt : ∀ s : Stmt, s.Plain → Shadows (watching s.toNode) (inner s.toNode))

include hstmt in
theorem runBlock {body : List Stmt} (hbody : ∀ s ∈ body, s.Plain) :
    Follows (runBlock watching (Stmt.blockNode body)) (runBlock inner (Stmt.blockNode body)) :=
  runAll (List.forall_mem_map.mpr fun s hs => hstmt s (hbody s hs))

include hstmt in
theorem body {function : Value} (hfunction : function.PlainFunction) :
    Follows (do Machine.runBlock watching (← field "body" function))
      (do Machine.runBlock inner (← field "body" function)) := by
  obtain ⟨name, params, body, hplain, rfl⟩ := hfunction
  cases hplain with
  | function name hparams hbody => exact runBlock hstmt hbody

include hexpr in
theorem arguments {arguments : List Expr} (h : ∀ e ∈ arguments, e.Plain) :
    Follows (Machine.values watching (arguments.map Expr.toNode))
      (Machine.values inner (arguments.map Expr.toNode)) :=
  values (List.forall_mem_map.mpr fun e he => hexpr e (h e he))

include hexpr in
theorem safe_arguments {arguments : List Expr} (h : ∀ e ∈ arguments, e.Plain) :
    Safe (Machine.values inner (arguments.map Expr.toNode)) fun vs => ∀ v ∈ vs, v.Plain :=
  Sustains.values fun e he => (hexpr e (h e he)).safe

include hexpr hstmt in
theorem functionCall (name : String) (line : Value) {arguments : List Expr}
    (harguments : ∀ e ∈ arguments, e.Plain) :
    Follows (functionCall watching (Expr.call (.str name) arguments line).toNode)
      (functionCall inner (Expr.call (.str name) arguments line).toNode) := by
  cases hbuiltin : Builtin.ofName? (.str name) with
  | some b =>
    rw [functionCall_builtin (field_name_call ..) hbuiltin (field_arguments_call ..),
      functionCall_builtin (field_name_call ..) hbuiltin (field_arguments_call ..)]
    exact bind (safe_arguments hexpr harguments) (Follows.arguments hexpr harguments)
      fun vs _ => .refl _
  | none =>
    rw [functionCall_declared (field_name_call ..) hbuiltin,
      functionCall_declared (field_name_call ..) hbuiltin]
    refine bind (sustains_plain.functionNode name _) (.refl _) fun function hfunction => ?_
    rw [runBody_eq_restoring, runBody_eq_restoring]
    exact restoring (body hstmt hfunction)

include hexpr in
theorem bindArguments (alarm : Stop) {node function : Value} {arguments : List Expr}
    (hnode : node.field? "arguments" = some (.list (arguments.map Expr.toNode)))
    (harguments : ∀ e ∈ arguments, e.Plain) (hfunction : function.PlainFunction) :
    Follows (bindArguments (watchedBindAll alarm) watching node function)
      (bindArguments Machine.bindAll inner node function) := by
  obtain ⟨name, params, body, hplain, rfl⟩ := hfunction
  cases hplain with
  | function name hparams hbody =>
    rw [bindArguments_eq _ inner hnode rfl, bindArguments_eq _ watching hnode rfl]
    split
    · exact .refl _
    · exact bind (safe_arguments hexpr harguments) (Follows.arguments hexpr harguments)
        fun vs hvs => bindAll alarm hparams hvs

include hexpr hstmt in
theorem callStatement (alarm : Stop) (name : String) {arguments : List Expr}
    (harguments : ∀ e ∈ arguments, e.Plain) :
    Follows (callStatement (watchedBindAll alarm) watching
        (Stmt.call (.str name) arguments).toNode)
      (callStatement Machine.bindAll inner (Stmt.call (.str name) arguments).toNode) := by
  have hnode := field?_arguments_callStatement (.str name) arguments
  cases hbuiltin : Builtin.ofStatement? (.str name) with
  | some b =>
    rw [callStatement_builtin _ rfl hbuiltin hnode, callStatement_builtin _ rfl hbuiltin hnode]
    exact bind (safe_arguments hexpr harguments) (Follows.arguments hexpr harguments)
      fun vs _ => .refl _
  | none =>
    rw [callStatement_declared _ rfl hbuiltin, callStatement_declared _ rfl hbuiltin]
    refine bind (sustains_plain.functionNode name _) (.refl _) fun function hfunction => ?_
    rw [bindArguments_runBody_eq_restoring, bindArguments_runBody_eq_restoring]
    have hsafe := sustains_plain.bindArguments (fun e he => (hexpr e he).safe) hnode harguments
      hfunction
    exact restoring (bind hsafe (bindArguments hexpr alarm hnode harguments hfunction)
      fun _ _ => body hstmt hfunction)

end Visitor

end Follows

section Visit

variable (alarm : Stop) {depth : Nat} {watching watchingInner : Visitor}
  (hbelow : ∀ e : Expr, e.Plain → Shadows (watching e.toNode) (visit (depth + 1) e.toNode))
  (hexpr : ∀ e : Expr, e.Plain → Shadows (watchingInner e.toNode) (visit depth e.toNode))
  (hstmt : ∀ s : Stmt, s.Plain → Shadows (watchingInner s.toNode) (visit depth s.toNode))

include hbelow hexpr hstmt

theorem follows_expr {e : Expr} (he : e.Plain) :
    Follows (dispatch (watchedBindAll alarm) watching watchingInner e.toNode)
      (visit (depth + 3) e.toNode) := by
  cases he with
  | string s line =>
    rw [visit_string, Expr.toNode]
    exact .refl (pure (Value.str s))
  | number n line =>
    rw [visit_number, Expr.toNode]
    exact .refl (pure (Value.int n))
  | var name line =>
    rw [visit_var, Expr.toNode]
    exact .refl _
  | call name line harguments =>
    rw [visit_call]
    have hcall := Follows.functionCall hexpr hstmt name line harguments
    rw [Expr.toNode] at hcall ⊢
    exact hcall
  | sum line hleft hright =>
    rw [visit_sum, Expr.toNode]
    have hsum := Follows.bind (hbelow _ hleft).safe (hbelow _ hleft).follows fun a _ =>
      .bind (hbelow _ hright).safe (hbelow _ hright).follows fun b _ =>
        .refl (liftM (Value.combine .plus a b) : Run Value)
    exact hsum

theorem follows_stmt {s : Stmt} (hs : s.Plain) :
    Follows (dispatch (watchedBindAll alarm) watching watchingInner s.toNode)
      (visit (depth + 3) s.toNode) := by
  cases hs with
  | assign name line hvalue =>
    rw [visit_assign]
    have hassign := Follows.bind (hbelow _ hvalue).safe (hbelow _ hvalue).follows fun v _ =>
      .refl (do assign (← Name.ofValue (.str name)) v; return v)
    exact hassign
  | print newline line hexpression =>
    rw [visit_print]
    have hvalue := hbelow _ hexpression
    have hprint := Follows.bind hvalue.safe hvalue.follows fun v _ =>
      .refl (do write " " (if newline then "\n" else "") [v]; return Value.null)
    exact hprint
  | call name harguments =>
    rw [visit_callStatement]
    exact Follows.callStatement hexpr hstmt alarm name harguments

end Visit

/-- Visits of plain trees under watch end as the visits themselves do, at any depth. -/
theorem shadows_visit (alarm : Stop) (depth : Nat) :
    (∀ e : Expr, e.Plain → Shadows (watchedVisit alarm depth e.toNode) (visit depth e.toNode)) ∧
      ∀ s : Stmt, s.Plain →
        Shadows (watchedVisit alarm depth s.toNode) (visit depth s.toNode) := by
  induction depth using Nat.strongRecOn with
  | ind depth ih =>
    obtain ⟨hsafe, hsafe'⟩ := sustains_plain.visit depth
    match depth with
    | 0 | 1 | 2 =>
      exact ⟨fun e he => (Shadows.refl (hsafe e he)).watched alarm,
        fun s hs => (Shadows.refl (hsafe' s hs)).watched alarm⟩
    | d + 3 =>
      obtain ⟨hexpr, hstmt⟩ := ih d (by omega)
      obtain ⟨hbelow, -⟩ := ih (d + 1) (by omega)
      constructor
      · intro e he
        exact Shadows.watched alarm ⟨hsafe e he, follows_expr alarm hbelow hexpr hstmt he⟩
      · intro s hs
        exact Shadows.watched alarm ⟨hsafe' s hs, follows_stmt alarm hbelow hexpr hstmt hs⟩

theorem follows_enterAll (alarm : Stop) (depth : Nat) {body : List Decl}
    (h : ∀ d ∈ body, d.Plain) :
    Follows (enterAll (watchedVisit alarm depth) (body.map Decl.toNode))
      (enterAll (visit depth) (body.map Decl.toNode)) := by
  induction body with
  | nil => exact .refl _
  | cons d rest ih =>
    obtain ⟨hd, hrest⟩ := List.forall_mem_cons.mp h
    cases hd with
    | function name hparams hbody => exact ih hrest
    | entry hbody =>
      have hstmt := (shadows_visit alarm depth).2
      have hsafe := sustains_plain.runBlock fun s hs => (hstmt s (hbody s hs)).safe
      rw [List.map_cons, enterAll_entry, enterAll_entry]
      exact .bind hsafe (Follows.runBlock hstmt hbody) fun _ _ => ih hrest

theorem follows_runTree (alarm : Stop) (depth : Nat) {program : Program}
    (h : program.Plain) :
    Follows (runTree (watchedVisit alarm depth) program.toNode)
      (interpret depth program.toNode) := by
  rw [runTree_program, interpret_program]
  exact .bind (safe_declareAll h) (.refl _) fun _ _ =>
    .bind (safe_enterAll depth h) (follows_enterAll alarm depth h) fun _ _ => .refl _

end Machine

namespace Session

/-- `eval` under watch. -/
def watchedEval [Clock] (alarm : Stop) (limits : Limits) (source : String) :
    Step Machine.Answer := do
  let program ← program limits source
  run (Machine.runTree (Machine.watchedVisit alarm limits.run) program.toNode)

/-- In every session, each variable is a natural number, a text or nothing, however the last source
ended. Under watch the next source is evaluated as it is without, whatever the alarm: so it never
rings, and at every point of the run the variables and the values of all visits are plain too. -/
theorem eval_values_plain [Clock] (limits : Limits) (history : List String) (source : String)
    (alarm : Stop) :
    let s := after limits history {}
    (∀ entry ∈ s.machine.scope, entry.2.Plain) ∧
      (watchedEval alarm limits source).run s = (eval limits source).run s := by
  intro s
  have hs : s.Plain := plain_fresh.after limits history
  refine ⟨hs.machine.scope, ?_⟩
  rw [watchedEval, eval, EStateM.run_bind, EStateM.run_bind]
  cases hread : (program limits source).run s with
  | error stop t => rfl
  | ok p t =>
    obtain ⟨hp, ht⟩ := hs.read hread
    have hfollows := Machine.follows_runTree alarm limits.run hp ht
    simp only [run, EStateM.run] at hfollows ⊢
    rw [hfollows]

end Session

end Scriptlet
