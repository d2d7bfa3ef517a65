import Scriptlet.Proofs.Visiting
import Scriptlet.Proofs.Widening
import Scriptlet.Token

/-! What a run depends on. Statements reach the functions that are named in calls in them, and
those that the bodies of these functions reach, and the variables that are named in any of them.
Two runs of the statements that begin alike on what they reach do the same and end alike on it,
however they end. -/
namespace Scriptlet

namespace Value

mutual

/-- A value and all values in it. -/
def nodes : Value → List Value
  | list items => list items :: nodesOfItems items
  | record fields => record fields :: nodesOfFields fields
  | v => [v]

def nodesOfItems : List Value → List Value
  | [] => []
  | v :: rest => v.nodes ++ nodesOfItems rest

def nodesOfFields : List (String × Value) → List Value
  | [] => []
  | (_, v) :: rest => v.nodes ++ nodesOfFields rest

end

theorem mem_nodes_self (v : Value) : v ∈ v.nodes := by
  cases v <;> simp [nodes]

theorem nodes_subset_of_item {items : List Value} {v : Value} (h : v ∈ items) :
    v.nodes ⊆ (list items).nodes := by
  have hitems : v.nodes ⊆ nodesOfItems items := by
    induction items with
    | nil => cases h
    | cons first rest ih =>
      rw [nodesOfItems]
      rcases List.mem_cons.mp h with rfl | h
      · exact List.subset_append_left _ _
      · exact List.Subset.trans (ih h) (List.subset_append_right _ _)
  rw [nodes]
  exact List.Subset.trans hitems (List.subset_cons_self _ _)

theorem nodes_subset_of_field {node v : Value} {name : String} (h : node.field name = .ok v) :
    v.nodes ⊆ node.nodes := by
  cases node with
  | record fields =>
    have hfields : v.nodes ⊆ nodesOfFields fields := by
      rw [field] at h
      split at h
      · next w hlookup =>
        obtain rfl := Except.ok.inj h
        clear h
        induction fields with
        | nil => cases hlookup
        | cons first rest ih =>
          obtain ⟨other, u⟩ := first
          rw [nodesOfFields]
          rw [List.lookup_cons] at hlookup
          split at hlookup
          · obtain rfl := Option.some.inj hlookup
            exact List.subset_append_left _ _
          · exact List.Subset.trans (ih hlookup) (List.subset_append_right _ _)
      · cases h
    rw [nodes]
    exact List.Subset.trans hfields (List.subset_cons_self _ _)
  | _ => cases h

theorem field_eq_ok_iff {node v : Value} {name : String} :
    node.field name = .ok v ↔ node.field? name = some v := by
  cases node with
  | record fields =>
    rw [field, field?]
    cases fields.lookup name <;> simp
  | _ => exact iff_of_false nofun nofun

/-- The name in a node, if it is of one of the types. -/
def nameIn (types : List String) (node : Value) : Option Value :=
  match (do (← node.field "type").display : Except Fault String) with
  | .ok type => if type ∈ types then node.field? "name" else none
  | .error _ => none

/-- The names in the nodes of the types. -/
def names (types : List String) (v : Value) : List Value :=
  v.nodes.filterMap (nameIn types)

theorem mem_names {types : List String} {type : String} {node name : Value}
    (htype : (do (← node.field "type").display) = .ok type) (hmem : type ∈ types)
    (hname : node.field "name" = .ok name) : name ∈ node.names types := by
  refine List.mem_filterMap.mpr ⟨node, mem_nodes_self node, ?_⟩
  rw [nameIn, htype]
  exact (if_pos hmem).trans (field_eq_ok_iff.mp hname)

/-- The names that calls inside a value give. -/
def calledNames (v : Value) : List Value :=
  v.names ["CallStatement", "FunctionCall"]

/-- The names of the variables inside a value. -/
def variableNames (v : Value) : List Value :=
  v.names ["Identifier"]

end Value

/-- The functions that statements reach: those that they call, and those that a function that they
reach calls in its body. -/
inductive Table.Reaches (functions : Table Value) (statements : Value) : Name → Prop
  | called {name : Value} {key : Name} : name ∈ statements.calledNames →
      Name.ofValue name = .ok key → Reaches functions statements key
  | within {f key : Name} {function block name : Value} : Reaches functions statements f →
      functions.get? f = some function → function.field "body" = .ok block →
      name ∈ block.calledNames → Name.ofValue name = .ok key → Reaches functions statements key

/-- The variables that statements reach: those in them and in the bodies of the functions that they
reach. -/
inductive Table.ReachesVariable (functions : Table Value) (statements : Value) : Name → Prop
  | direct {name : Value} {key : Name} : name ∈ statements.variableNames →
      Name.ofValue name = .ok key → ReachesVariable functions statements key
  | within {f key : Name} {function block name : Value} : functions.Reaches statements f →
      functions.get? f = some function → function.field "body" = .ok block →
      name ∈ block.variableNames → Name.ofValue name = .ok key →
      ReachesVariable functions statements key

namespace Machine

variable {α β : Type} {R V : Name → Prop}

/-- The calls in a value are of functions in `R`, and its variables are in `V`. -/
structure Confined (R V : Name → Prop) (v : Value) : Prop where
  called : ∀ ⦃name key⦄, name ∈ v.calledNames → Name.ofValue name = .ok key → R key
  mentioned : ∀ ⦃name key⦄, name ∈ v.variableNames → Name.ofValue name = .ok key → V key

namespace Confined

theorem mono {v w : Value} (h : Confined R V v) (hsub : w.nodes ⊆ v.nodes) : Confined R V w :=
  ⟨fun _ _ hname hkey => h.called (List.filterMap_subset _ hsub hname) hkey,
    fun _ _ hname hkey => h.mentioned (List.filterMap_subset _ hsub hname) hkey⟩

theorem field {node v : Value} {name : String} (h : Confined R V node)
    (hv : node.field name = .ok v) : Confined R V v :=
  h.mono (Value.nodes_subset_of_field hv)

/-- The name in a node for a call is of a function in `R`. -/
theorem called_of_type {node : Value} {type : String} (h : Confined R V node)
    (htype : (do (← node.field "type").display) = .ok type)
    (hmem : type ∈ ["CallStatement", "FunctionCall"]) ⦃name : Value⦄ ⦃key : Name⦄
    (hname : node.field "name" = .ok name) (hkey : Name.ofValue name = .ok key) : R key :=
  h.called (Value.mem_names htype hmem hname) hkey

/-- The name in a node for a variable is in `V`. -/
theorem mentioned_of_type {node : Value} {type : String} (h : Confined R V node)
    (htype : (do (← node.field "type").display) = .ok type) (hmem : type ∈ ["Identifier"])
    ⦃name : Value⦄ ⦃key : Name⦄ (hname : node.field "name" = .ok name)
    (hkey : Name.ofValue name = .ok key) : V key :=
  h.mentioned (Value.mem_names htype hmem hname) hkey

theorem str (s : String) : Confined R V (.str s) :=
  ⟨nofun, nofun⟩

theorem items {v w : Value} {values : List Value} (h : Confined R V v)
    (hvalues : v.items = .ok values) (hw : w ∈ values) : Confined R V w := by
  cases v with
  | list items =>
    obtain rfl := Except.ok.inj hvalues
    exact h.mono (Value.nodes_subset_of_item hw)
  | str s =>
    obtain rfl := Except.ok.inj hvalues
    obtain ⟨c, -, rfl⟩ := List.mem_map.mp hw
    exact str _
  | record fields =>
    obtain rfl := Except.ok.inj hvalues
    obtain ⟨entry, -, rfl⟩ := List.mem_map.mp hw
    exact str _
  | _ => cases hvalues

end Confined

/-- Two machines with the same functions in `R`, whose bodies are confined, and with the same values
of the variables in `V`. -/
structure Alike (R V : Name → Prop) (m n : Machine) : Prop where
  functions : ∀ ⦃key⦄, R key → m.functions.get? key = n.functions.get? key
  bodies : ∀ ⦃key⦄, R key → ∀ ⦃function block⦄, m.functions.get? key = some function →
    function.field "body" = .ok block → Confined R V block
  scope : ∀ ⦃key⦄, V key → m.scope.get? key = n.scope.get? key

/-- Two steps end in the same way, in machines that are alike, and have done the same to the
outside. -/
inductive Matches (R V : Name → Prop) (m n : Machine) (post : α → Prop) :
    EStateM.Result Stop Machine α → EStateM.Result Stop Machine α → Prop
  | ok {a : α} {m' n' : Machine} (events : Array Event) : post a → Alike R V m' n' →
      m'.log = m.log ++ events → n'.log = n.log ++ events →
      Matches R V m n post (.ok a m') (.ok a n')
  | error {stop : Stop} {m' n' : Machine} (events : Array Event) : Alike R V m' n' →
      m'.log = m.log ++ events → n'.log = n.log ++ events →
      Matches R V m n post (.error stop m') (.error stop n')

theorem Matches.observed {m n : Machine} {post : α → Prop}
    {r s : EStateM.Result Stop Machine α} (h : Matches R V m n post r s) :
    resultOf r = resultOf s ∧
      (∃ events, (stateOf r).log = m.log ++ events ∧ (stateOf s).log = n.log ++ events) ∧
      Alike R V (stateOf r) (stateOf s) := by
  cases h with
  | ok events _ halike hm hn => exact ⟨rfl, ⟨events, hm, hn⟩, halike⟩
  | error events halike hm hn => exact ⟨rfl, ⟨events, hm, hn⟩, halike⟩

/-- Runs of the step from machines that are alike match. -/
def Agrees (R V : Name → Prop) (x : Run α) (post : α → Prop) : Prop :=
  ∀ ⦃m n⦄, Alike R V m n → Matches R V m n post (x.run m) (x.run n)

namespace Agrees

variable {x : Run α} {f : α → Run β} {post : α → Prop} {post' : β → Prop}

theorem pure {a : α} (ha : post a) : Agrees R V (pure a) post :=
  fun _ _ h => .ok #[] ha h Array.append_empty.symm Array.append_empty.symm

theorem throw (stop : Stop) : Agrees R V (throw stop : Run α) post :=
  fun _ _ h => .error #[] h Array.append_empty.symm Array.append_empty.symm

theorem bind (hx : Agrees R V x post) (hf : ∀ a, post a → Agrees R V (f a) post') :
    Agrees R V (x >>= f) post' := by
  intro m n h
  rw [EStateM.run_bind, EStateM.run_bind]
  have hmatches := hx h
  revert hmatches
  generalize x.run m = r, x.run n = s
  intro hmatches
  cases hmatches with
  | error events halike hm hn => exact .error events halike hm hn
  | @ok a m' n' events ha halike hm hn =>
    have hnext := hf a ha halike
    dsimp only
    revert hnext
    generalize (f a).run m' = r, (f a).run n' = s
    intro hnext
    cases hnext with
    | ok events' hb halike' hm' hn' =>
      refine .ok (events ++ events') hb halike' ?_ ?_
      · rw [hm', hm, Array.append_assoc]
      · rw [hn', hn, Array.append_assoc]
    | error events' halike' hm' hn' =>
      refine .error (events ++ events') halike' ?_ ?_
      · rw [hm', hm, Array.append_assoc]
      · rw [hn', hn, Array.append_assoc]

theorem lift (y : Except Fault α) : Agrees R V (liftM y : Run α) (y = .ok ·) := by
  cases y with
  | ok a => exact pure rfl
  | error fault => exact throw _

theorem emit (event : Event) : Agrees R V (emit event) fun _ => True :=
  fun _ _ h => .ok #[event] trivial ⟨h.functions, h.bodies, h.scope⟩ rfl rfl

theorem assign (name : Name) (v : Value) : Agrees R V (assign name v) fun _ => True := by
  intro m n h
  refine .ok #[] trivial ⟨h.functions, h.bodies, fun key hkey => ?_⟩ Array.append_empty.symm
    Array.append_empty.symm
  rw [Table.get?_set, Table.get?_set, h.scope hkey]

theorem restoring (hx : Agrees R V x post) : Agrees R V (restoring x) post := by
  intro m n h
  rw [run_restoring, run_restoring]
  have hmatches := hx h
  revert hmatches
  generalize x.run m = r, x.run n = s
  intro hmatches
  cases hmatches with
  | error events halike hm hn => exact .error events halike hm hn
  | ok events ha halike hm hn =>
    exact .ok events ha ⟨halike.functions, halike.bodies, h.scope⟩ hm hn

/-- A variable in `V`. -/
theorem lookUp {node : Value}
    (hnode : ∀ ⦃name key⦄, node.field "name" = .ok name → Name.ofValue name = .ok key → V key) :
    Agrees R V (lookUp node) fun _ => True := by
  refine bind (lift _) fun name hname => ?_
  intro m n h
  rw [run_get_bind, run_get_bind]
  cases hkey : Name.ofValue name with
  | error fault => exact throw _ h
  | ok key =>
    rw [liftM_ok_bind, liftM_ok_bind, h.scope (hnode hname hkey)]
    cases n.scope.get? key with
    | some v => exact pure trivial h
    | none => exact bind (lift _) (fun _ _ => throw _) h

/-- A function in `R`. -/
theorem functionNode {name : Value} (hname : ∀ ⦃key⦄, Name.ofValue name = .ok key → R key)
    (node : Value) : Agrees R V (functionNode name node) fun function =>
      ∀ ⦃block⦄, function.field "body" = .ok block → Confined R V block := by
  intro m n h
  rw [Machine.functionNode, run_get_bind, run_get_bind]
  cases hkey : Name.ofValue name with
  | error fault => exact throw _ h
  | ok key =>
    rw [liftM_ok_bind, liftM_ok_bind, ← h.functions (hname hkey)]
    cases hget : m.functions.get? key with
    | some function => exact pure (fun block hblock => h.bodies (hname hkey) hget hblock) h
    | none => exact bind (lift _) (fun _ _ => bind (lift _) fun _ _ => throw _) h

theorem elementary : Elementary fun x => Agrees R V x fun _ => True where
  pure _ := pure trivial
  throw := throw
  bind hx hf := bind hx fun a _ => hf a
  emit := emit

theorem bindAll (params vs : List Value) : Agrees R V (bindAll params vs) fun _ => True := by
  rw [Machine.bindAll]
  induction params.zip vs with
  | nil => exact pure trivial
  | cons entry rest ih =>
    exact bind (bind (lift _) fun _ _ => assign _ _) fun _ _ => ih

section Visitor

variable {visit : Visitor}
  (hvisit : ∀ ⦃node⦄, Confined R V node → Agrees R V (visit node) fun _ => True)

include hvisit

theorem values {nodes : List Value} (hnodes : ∀ node ∈ nodes, Confined R V node) :
    Agrees R V (values visit nodes) fun _ => True := by
  induction nodes with
  | nil => exact pure trivial
  | cons node rest ih =>
    obtain ⟨hnode, hrest⟩ := List.forall_mem_cons.mp hnodes
    rw [Machine.values, List.mapM_cons]
    exact bind (hvisit hnode) fun v _ => bind (ih hrest) fun vs _ => pure trivial

theorem runBlock {block : Value} (hblock : Confined R V block) :
    Agrees R V (runBlock visit block) fun _ => True := by
  apply bind (lift _)
  intro nodes hnodes
  have hitems : ∀ node ∈ nodes, Confined R V node := fun node hnode => hblock.items hnodes hnode
  rw [runAll]
  generalize Value.null = start
  clear hnodes
  induction nodes generalizing start with
  | nil => exact pure trivial
  | cons node rest ih =>
    obtain ⟨hnode, hrest⟩ := List.forall_mem_cons.mp hitems
    rw [List.foldlM_cons]
    exact bind (hvisit hnode) fun v _ => ih hrest v

theorem body {function : Value}
    (hfunction : ∀ ⦃block⦄, function.field "body" = .ok block → Confined R V block) :
    Agrees R V (do Machine.runBlock visit (← field "body" function)) fun _ => True :=
  bind (lift _) fun _ hblock => runBlock hvisit (hfunction hblock)

theorem bindArguments {node : Value} (hnode : Confined R V node) (function : Value) :
    Agrees R V (bindArguments Machine.bindAll visit node function) fun _ => True := by
  rw [Machine.bindArguments]
  cases harguments : node.field? "arguments" with
  | none => exact pure trivial
  | some arguments =>
    have hconfined := hnode.field (Value.field_eq_ok_iff.mpr harguments)
    dsimp only [Option.getD_some]
    split
    · refine bind (lift _) fun params _ => bind (lift _) fun count _ => ?_
      split
      · apply bind (lift _)
        intro nodes hnodes
        apply bind (values hvisit fun node hnode => hconfined.items hnodes hnode)
        intro vs _
        exact bind (lift _) fun params _ => bindAll params vs
      · exact pure trivial
    · exact pure trivial

section Call

variable [Clock] {node : Value} (hnode : Confined R V node)
  (hname : ∀ ⦃name key⦄, node.field "name" = .ok name → Name.ofValue name = .ok key → R key)

include hnode hname

theorem callStatement :
    Agrees R V (callStatement Machine.bindAll visit node) fun _ => True := by
  apply bind (lift _)
  intro name hfield
  cases Builtin.ofStatement? name with
  | some builtin =>
    cases harguments : node.field? "arguments" with
    | none => exact elementary.builtin builtin []
    | some arguments =>
      have hconfined := hnode.field (Value.field_eq_ok_iff.mpr harguments)
      apply bind (lift _)
      intro nodes hnodes
      apply bind (values hvisit fun node hnode => hconfined.items hnodes hnode)
      exact fun vs _ => elementary.builtin builtin vs
  | none =>
    apply bind (functionNode (fun _ hkey => hname hfield hkey) node)
    intro function hfunction
    rw [bindArguments_runBody_eq_restoring]
    apply restoring
    exact bind (bindArguments hvisit hnode function) fun _ _ => body hvisit hfunction

theorem functionCall : Agrees R V (functionCall visit node) fun _ => True := by
  apply bind (lift _)
  intro name hfield
  cases Builtin.ofName? name with
  | some builtin =>
    apply bind (lift _)
    intro arguments harguments
    apply bind (lift _)
    intro nodes hnodes
    apply bind (values hvisit fun node' hnode' => (hnode.field harguments).items hnodes hnode')
    exact fun vs _ => elementary.builtin builtin vs
  | none =>
    apply bind (functionNode (fun _ hkey => hname hfield hkey) node)
    intro function hfunction
    rw [runBody_eq_restoring]
    exact restoring (body hvisit hfunction)

end Call

variable {node : Value} (hnode : Confined R V node)

include hnode

theorem print : Agrees R V (print visit node) fun _ => True := by
  apply bind (lift _)
  intro e he
  apply bind (hvisit (hnode.field he))
  intro v _
  exact bind (lift _) fun newline _ => bind (elementary.write _ _ _) fun _ _ => pure trivial

theorem binary : Agrees R V (binary visit node) fun _ => True := by
  apply bind (lift _)
  intro left hleft
  apply bind (hvisit (hnode.field hleft))
  intro a _
  apply bind (lift _)
  intro right hright
  apply bind (hvisit (hnode.field hright))
  intro b _
  exact bind (elementary.operator node) fun operator _ => elementary.lift _

theorem assignment : Agrees R V (assignment visit node) fun _ => True := by
  apply bind (lift _)
  intro name _
  apply bind (lift _)
  intro e he
  apply bind (hvisit (hnode.field he))
  intro v _
  exact bind (lift _) fun key _ => bind (assign key v) fun _ _ => pure trivial

end Visitor

theorem dispatch [Clock] {visit inner : Visitor} {node : Value}
    (hvisit : ∀ ⦃node⦄, Confined R V node → Agrees R V (visit node) fun _ => True)
    (hinner : ∀ ⦃node⦄, Confined R V node → Agrees R V (inner node) fun _ => True)
    (hnode : Confined R V node) :
    Agrees R V (dispatch Machine.bindAll visit inner node) fun _ => True := by
  apply bind (lift _)
  intro value hvalue
  apply bind (lift _)
  intro type htext
  have htype : (do (← node.field "type").display) = .ok type := by
    rw [hvalue]
    exact htext
  revert htype
  apply rule?_cases (motive := fun type rule =>
    (do (← node.field "type").display : Except Fault String) = .ok type →
      Agrees R V (runRule type rule node) fun _ => True)
  case hnode => exact fun _ => hvisit hnode
  case hdeclaration => exact fun _ => pure trivial
  case hentry =>
    exact fun _ => bind (lift _) fun block hblock => runBlock hinner (hnode.field hblock)
  case hprint => exact fun _ => print hvisit hnode
  case hstatement =>
    exact fun h => callStatement hinner hnode (hnode.called_of_type h List.mem_cons_self)
  case hcall =>
    exact fun h => functionCall hinner hnode
      (hnode.called_of_type h (List.mem_cons_of_mem _ List.mem_cons_self))
  case hliteral => exact fun _ _ _ => elementary.lift _
  case hvariable => exact fun h => lookUp (hnode.mentioned_of_type h List.mem_cons_self)
  case hbinary => exact fun _ => binary hvisit hnode
  case hassignment => exact fun _ => assignment hvisit hnode
  case hother => exact fun _ _ _ => throw _

theorem visit [Clock] (depth : Nat) :
    ∀ ⦃node⦄, Confined R V node → Agrees R V (visit depth node) fun _ => True := by
  induction depth using Nat.strongRecOn with
  | ind depth ih =>
    intro node hnode
    match depth with
    | 0 | 1 | 2 => exact throw _
    | d + 3 => exact dispatch (ih (d + 1) (by omega)) (ih d (by omega)) hnode

end Agrees

/-- Statements are confined to what they reach, and so are the bodies of the functions that they
reach. -/
theorem confined_reached (functions : Table Value) (statements : Value) :
    Confined (functions.Reaches statements) (functions.ReachesVariable statements) statements :=
  ⟨fun _ _ hname hkey => .called hname hkey, fun _ _ hname hkey => .direct hname hkey⟩

theorem confined_body {functions : Table Value} {statements function block : Value} {f : Name}
    (hf : functions.Reaches statements f) (hfunction : functions.get? f = some function)
    (hblock : function.field "body" = .ok block) :
    Confined (functions.Reaches statements) (functions.ReachesVariable statements) block :=
  ⟨fun _ _ hname hkey => .within hf hfunction hblock hname hkey,
    fun _ _ hname hkey => .within hf hfunction hblock hname hkey⟩

/-- A run depends only on what it can reach. If two machines have the same functions under the names
that the statements reach, and the same values of the variables that they reach, the runs of the
statements end in the same way, have done the same to the outside, and leave the variables that the
statements reach with the same values. -/
theorem execute_agrees_on_reached [Clock] (depth : Nat) (statements : Value) (m n : Machine)
    (hfunctions : ∀ key, m.functions.Reaches statements key →
      m.functions.get? key = n.functions.get? key)
    (hscope : ∀ key, m.functions.ReachesVariable statements key →
      m.scope.get? key = n.scope.get? key) :
    let r := (execute depth statements).run m
    let s := (execute depth statements).run n
    resultOf r = resultOf s ∧
    (∃ events, (stateOf r).log = m.log ++ events ∧ (stateOf s).log = n.log ++ events) ∧
    ∀ key, m.functions.ReachesVariable statements key →
      (stateOf r).scope.get? key = (stateOf s).scope.get? key := by
  intro r s
  have halike : Alike (m.functions.Reaches statements) (m.functions.ReachesVariable statements)
      m n := ⟨hfunctions, fun _ hf _ _ => confined_body hf, hscope⟩
  have hrun := Agrees.runBlock (Agrees.visit depth) (confined_reached m.functions statements)
  obtain ⟨hresult, hevents, hlater⟩ := (hrun halike).observed
  exact ⟨hresult, hevents, hlater.scope⟩

/-- `call f("a");`. -/
def interruptedBlock : Value :=
  Stmt.blockNode [.call (.str "f") [.string (.str "a") Token.unknown]]

/-- The machine with `func:f(y) { println x; call h; }` in which `x` is `"b"`, and with further
variables and functions. -/
def interrupted (scope functions : Table Value) : Machine where
  scope := (.text "x", .str "b") :: scope
  functions := (.text "f", (Decl.function (.str "f") [.str "y"]
    [.print (.var (.str "x") Token.unknown) true Token.unknown, .call (.str "h") []]).toNode) ::
      functions

/-- The call of `f` reaches `f`, `h` and `x` only, so another variable and another function make no
difference to it: it prints `x` and ends because there is no `h`. -/
theorem execute_agrees_on_reached_interrupted :
    let m := interrupted [(.text "z", .str "c")]
      [(.text "g", (Decl.function (.str "g") [] []).toNode)]
    let n := interrupted [] []
    (∀ key, m.functions.Reaches interruptedBlock key →
      m.functions.get? key = n.functions.get? key) ∧
    (∀ key, m.functions.ReachesVariable interruptedBlock key →
      m.scope.get? key = n.scope.get? key) ∧
    resultOf ((execute 20 interruptedBlock).run m) =
      resultOf ((execute 20 interruptedBlock).run n) ∧
    ∃ events, (stateOf ((execute 20 interruptedBlock).run m)).log = m.log ++ events ∧
      (stateOf ((execute 20 interruptedBlock).run n)).log = n.log ++ events := by
  intro m n
  have hreached : ∀ key, m.functions.Reaches interruptedBlock key →
      key = .text "f" ∨ key = .text "h" := by
    intro key hkey
    induction hkey with
    | called hname hkey =>
      obtain rfl := List.mem_singleton.mp hname
      exact .inl (Except.ok.inj hkey).symm
    | within _ hget hblock hname hkey ih =>
      rcases ih with rfl | rfl
      · obtain rfl := Option.some.inj hget
        obtain rfl := Except.ok.inj hblock
        obtain rfl := List.mem_singleton.mp hname
        exact .inr (Except.ok.inj hkey).symm
      · cases hget
  have hfunctions : ∀ key, m.functions.Reaches interruptedBlock key →
      m.functions.get? key = n.functions.get? key := by
    intro key hkey
    rcases hreached key hkey with rfl | rfl <;> rfl
  have hscope : ∀ key, m.functions.ReachesVariable interruptedBlock key →
      m.scope.get? key = n.scope.get? key := by
    intro key hkey
    cases hkey with
    | direct hname _ => cases hname
    | within hf hget hblock hname hkey =>
      rcases hreached _ hf with rfl | rfl
      · obtain rfl := Option.some.inj hget
        obtain rfl := Except.ok.inj hblock
        obtain rfl := List.mem_singleton.mp hname
        obtain rfl := Except.ok.inj hkey
        rfl
      · cases hget
  obtain ⟨hresult, hevents, -⟩ :=
    execute_agrees_on_reached 20 interruptedBlock m n hfunctions hscope
  exact ⟨hfunctions, hscope, hresult, hevents⟩

end Machine

end Scriptlet
