import Scriptlet.Proofs.Incremental

/-! Declarations are hoisted. A program declares all its functions before it enters a block, and a
run finds functions by their names, so where the declarations stand among the blocks makes no
difference, as long as those of one name keep their order. -/
namespace Scriptlet

/-- Whether a declaration is of a function under the name. -/
def Decl.declares (name : Name) : Decl → Bool
  | .function n _ _ =>
    match Name.ofValue n with
    | .ok key => key.same name
    | .error _ => false
  | .entry _ => false

def Decl.isEntry : Decl → Bool
  | .function .. => false
  | .entry _ => true

/-- The last declaration of a name in a program. -/
def Program.last? (program : Program) (name : Name) : Option Decl :=
  (program.body.filter (Decl.declares name)).getLast?

/-- A program with the same declarations, in which the entry blocks stand in the same order, and so
do the declarations of each name. -/
structure Program.Rearranges (p q : Program) : Prop where
  perm : p.body.Perm q.body
  entries : p.body.filter Decl.isEntry = q.body.filter Decl.isEntry
  declarations : ∀ name, p.body.filter (Decl.declares name) = q.body.filter (Decl.declares name)

namespace Table

theorem get?_setAll_declared_one (functions : Table Value) (d : Decl) (name : Name) :
    (functions.setAll d.declared).get? name =
      if d.declares name = true then some d.toNode else functions.get? name := by
  cases d with
  | entry statements => rfl
  | function n params statements =>
    rw [Decl.declared, Decl.declares]
    cases Name.ofValue n with
    | error fault => rfl
    | ok key => exact get?_set functions key name _

/-- Of the declarations of a name the last one counts. -/
theorem get?_setAll_declared (functions : Table Value) (body : List Decl) (name : Name) :
    (functions.setAll (body.flatMap Decl.declared)).get? name =
      ((body.filter (Decl.declares name)).getLast?.map Decl.toNode).or (functions.get? name) := by
  induction body generalizing functions with
  | nil => rfl
  | cons d body ih =>
    rw [List.flatMap_cons, setAll_append, ih, get?_setAll_declared_one, List.filter_cons]
    cases d.declares name with
    | false => rfl
    | true =>
      rw [if_pos rfl, if_pos rfl, List.getLast?_cons]
      cases (body.filter (Decl.declares name)).getLast? <;> rfl

end Table

namespace Machine

variable {α β : Type}

/-- The same end of a step, with other functions. -/
def withFunctions (functions : Table Value) :
    EStateM.Result Stop Machine α → EStateM.Result Stop Machine α
  | .ok a m => .ok a { m with functions := functions }
  | .error stop m => .error stop { m with functions := functions }

theorem resultOf_withFunctions (functions : Table Value) (r : EStateM.Result Stop Machine α) :
    resultOf (withFunctions functions r) = resultOf r := by
  cases r <;> rfl

theorem stateOf_withFunctions (functions : Table Value) (r : EStateM.Result Stop Machine α) :
    stateOf (withFunctions functions r) = { stateOf r with functions := functions } := by
  cases r <;> rfl

/-- A step that declares no function, and does the same with every table in which the same functions
are found, however it ends. -/
structure ByName (x : Run α) : Prop where
  declares : ∀ m, (stateOf (x.run m)).functions = m.functions
  finds : ∀ m functions, (∀ name, functions.get? name = m.functions.get? name) →
    x.run { m with functions := functions } = withFunctions functions (x.run m)

namespace ByName

variable {x : Run α}

theorem bind {f : α → Run β} (hx : ByName x) (hf : ∀ a, ByName (f a)) : ByName (x >>= f) := by
  constructor
  · intro m
    have hsame := hx.declares m
    rw [EStateM.run_bind]
    cases hr : x.run m with
    | error stop u => rwa [hr] at hsame
    | ok a u =>
      rw [hr] at hsame
      exact ((hf a).declares u).trans hsame
  · intro m functions hfunctions
    have hsame := hx.declares m
    rw [EStateM.run_bind, EStateM.run_bind, hx.finds m functions hfunctions]
    cases hr : x.run m with
    | error stop u => rfl
    | ok a u =>
      rw [hr] at hsame
      apply (hf a).finds u
      intro name
      rw [hfunctions, ← hsame]
      rfl

theorem elementary : Elementary @ByName where
  pure _ := ⟨fun _ => rfl, fun _ _ _ => rfl⟩
  throw _ := ⟨fun _ => rfl, fun _ _ _ => rfl⟩
  bind := bind
  emit _ := ⟨fun _ => rfl, fun _ _ _ => rfl⟩

/-- A step that looks at the machine, but not at how the functions are ordered. -/
theorem get {f : Machine → Run α} (hf : ∀ m, ByName (f m))
    (hsame : ∀ m functions, (∀ name, functions.get? name = m.functions.get? name) →
      f { m with functions := functions } = f m) : ByName (get >>= f) := by
  constructor
  · intro m
    rw [run_get_bind]
    exact (hf m).declares m
  · intro m functions hfunctions
    rw [run_get_bind, run_get_bind, hsame m functions hfunctions]
    exact (hf m).finds m functions hfunctions

theorem lookUp (node : Value) : ByName (lookUp node) := by
  apply bind (elementary.lift _)
  intro name
  apply get
  · intro m
    apply bind (elementary.lift _)
    intro key
    cases m.scope.get? key with
    | some v => exact elementary.pure v
    | none => exact bind (elementary.lift _) fun _ => elementary.throw _
  · intro m functions _
    rfl

theorem functionNode (name node : Value) : ByName (functionNode name node) := by
  apply get
  · intro m
    apply bind (elementary.lift _)
    intro key
    cases m.functions.get? key with
    | some function => exact elementary.pure function
    | none => exact bind (elementary.lift _) fun _ => bind (elementary.lift _) fun _ =>
        elementary.throw _
  · intro m functions hfunctions
    simp only [hfunctions]

theorem restoring (hx : ByName x) : ByName (restoring x) := by
  constructor
  · intro m
    have hsame := hx.declares m
    rw [run_restoring]
    cases hr : x.run m with
    | ok a u => rwa [hr] at hsame
    | error stop u => rwa [hr] at hsame
  · intro m functions hfunctions
    rw [run_restoring, run_restoring, hx.finds m functions hfunctions]
    cases x.run m <;> rfl

end ByName

theorem byName : Pervasive @ByName where
  toElementary := ByName.elementary
  assign _ _ := ⟨fun _ => rfl, fun _ _ _ => rfl⟩
  lookUp := ByName.lookUp
  functionNode := ByName.functionNode
  restoring := ByName.restoring

/-- Only the entry blocks are entered. -/
theorem enterAll_filter (visit : Visitor) (body : List Decl) :
    enterAll visit ((body.filter Decl.isEntry).map Decl.toNode) =
      enterAll visit (body.map Decl.toNode) := by
  induction body with
  | nil => rfl
  | cons d body ih =>
    cases d with
    | function name params statements =>
      rw [List.map_cons, enterAll_function]
      exact ih
    | entry statements =>
      rw [List.filter_cons_of_pos rfl, List.map_cons, List.map_cons, enterAll_entry, enterAll_entry,
        ih]

/-- A program enters its blocks in the machine with all its functions, and declares no others. -/
theorem run_interpret [Clock] {program : Program} (hnamed : ∀ d ∈ program.body, d.Named)
    (depth : Nat) (m : Machine) :
    (interpret depth program.toNode).run m =
      (do
        enterAll (visit depth) ((program.body.filter Decl.isEntry).map Decl.toNode)
        return .scope (← get).scope : Run Answer).run
        { m with functions := m.functions.setAll program.declared } := by
  rw [interpret_program, run_bind_of_ok (run_declareAll hnamed m), enterAll_filter]
  rfl

theorem byName_enter [Clock] (depth : Nat) (nodes : List Value) :
    ByName (do enterAll (visit depth) nodes; return .scope (← get).scope : Run Answer) := by
  apply (byName.enterAll (byName.visit depth) nodes).bind
  intro _
  apply ByName.get
  · exact fun m => ByName.elementary.pure _
  · exact fun m functions _ => rfl

/-- Declarations are hoisted. In whatever machine a program is run, a rearranged one has the same
result, leaves the same variables and has done the same to the outside; and however they end, each
name that they declare has its last declaration behind them, and any other name what it had. -/
theorem interpret_rearranged [Clock] (depth : Nat) (p q : Program) (hnamed : ∀ d ∈ p.body, d.Named)
    (h : p.Rearranges q) (m : Machine) :
    let r := (interpret depth p.toNode).run m
    let s := (interpret depth q.toNode).run m
    resultOf r = resultOf s ∧ (stateOf r).scope = (stateOf s).scope ∧
    (stateOf r).log = (stateOf s).log ∧
    ∀ name,
      (stateOf r).functions.get? name =
        ((p.last? name).map Decl.toNode).or (m.functions.get? name) ∧
      (stateOf s).functions.get? name = (stateOf r).functions.get? name := by
  intro r s
  have hnamed' : ∀ d ∈ q.body, d.Named := fun d hd => hnamed d (h.perm.mem_iff.mpr hd)
  have hfind : ∀ name, (m.functions.setAll q.declared).get? name =
      (m.functions.setAll p.declared).get? name := by
    intro name
    rw [Program.declared, Program.declared, Table.get?_setAll_declared, Table.get?_setAll_declared,
      h.declarations]
  have henter := byName_enter depth ((p.body.filter Decl.isEntry).map Decl.toNode)
  have hr : r = _ := run_interpret hnamed depth m
  have hs : s = withFunctions (m.functions.setAll q.declared) r := by
    rw [hr, ← henter.finds _ _ hfind, h.entries]
    exact run_interpret hnamed' depth m
  have hfunctions : (stateOf r).functions = m.functions.setAll p.declared := by
    rw [hr]
    exact henter.declares _
  rw [hs, resultOf_withFunctions, stateOf_withFunctions]
  refine ⟨rfl, rfl, rfl, fun name => ⟨?_, ?_⟩⟩
  · rw [hfunctions]
    exact Table.get?_setAll_declared m.functions p.body name
  · rw [hfunctions]
    exact hfind name

/-- `enter { call f("a"); }`. -/
def enterF : Decl :=
  .entry [.call (.str "f") [.string (.str "a") Token.unknown]]

/-- `func:f(x) { print x; }`. -/
def printingF : Decl :=
  .function (.str "f") [.str "x"] [.print (.var (.str "x") Token.unknown) false Token.unknown]

/-- `func:f(x) { call g; }`. -/
def callingF : Decl :=
  .function (.str "f") [.str "x"] [.call (.str "g") []]

/-- `func:g { println x; call exit; }`. -/
def leavingG : Decl :=
  .function (.str "g") []
    [.print (.var (.str "x") Token.unknown) true Token.unknown, .call (.str "exit") []]

/-- The second declaration of `f` counts, wherever the block and `g` stand, and it is there when the
program has left. -/
theorem interpret_rearranged_leaving :
    let p := Program.mk [enterF, printingF, leavingG, callingF]
    let q := Program.mk [printingF, enterF, callingF, leavingG]
    p.Rearranges q ∧
    resultOf ((interpret 20 p.toNode).run {}) = resultOf ((interpret 20 q.toNode).run {}) ∧
    (stateOf ((interpret 20 p.toNode).run {})).scope =
      (stateOf ((interpret 20 q.toNode).run {})).scope ∧
    (stateOf ((interpret 20 p.toNode).run {})).log =
      (stateOf ((interpret 20 q.toNode).run {})).log ∧
    (stateOf ((interpret 20 p.toNode).run {})).functions.get? (.text "f") =
      some callingF.toNode := by
  intro p q
  have hnamed : ∀ d ∈ p.body, d.Named := by
    intro d hd
    simp only [p, List.mem_cons, List.not_mem_nil, or_false] at hd
    rcases hd with rfl | rfl | rfl | rfl
    · trivial
    · exact ⟨"f", rfl⟩
    · exact ⟨"g", rfl⟩
    · exact ⟨"f", rfl⟩
  have hrearranges : p.Rearranges q := by
    refine ⟨(List.Perm.swap _ _ _).trans (.cons _ (.cons _ (.swap _ _ _))), rfl, fun name => ?_⟩
    have henter : Decl.declares name enterF = false := rfl
    have hprinting : Decl.declares name printingF = (Name.text "f").same name := rfl
    have hcalling : Decl.declares name callingF = (Name.text "f").same name := rfl
    have hleaving : Decl.declares name leavingG = (Name.text "g").same name := rfl
    cases hf : (Name.text "f").same name with
    | false => simp [p, q, List.filter_cons, henter, hprinting, hcalling, hf]
    | true =>
      have hg : (Name.text "g").same name = false := Bool.eq_false_iff.mpr fun hg =>
        absurd (Name.same_trans hf (Name.same_symm hg)) (by simp)
      simp [p, q, List.filter_cons, henter, hleaving, hg]
  obtain ⟨hresult, hscope, hlog, hfunctions⟩ := interpret_rearranged 20 p q hnamed hrearranges {}
  exact ⟨hrearranges, hresult, hscope, hlog, (hfunctions (.text "f")).1⟩

end Machine

end Scriptlet
