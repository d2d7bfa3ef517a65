import Scriptlet.Code
import Scriptlet.Proofs.Step

/-! Compiled code as postfix code. The code of a whole tree, one of literals and of operations on
two whole trees, builds the formula of the tree on a stack. Where an operation of the tree lacks an
operand, because a node is missing or of another type, the code takes an operand that is not
there. -/
namespace Scriptlet

/-- A formula: a constant or an operator with two operands, all of them texts. -/
inductive Formula where
  | constant (text : String)
  | operation (operator : String) (left right : Formula)
  deriving DecidableEq, Repr

namespace Formula

/-- How deeply the operations of a formula nest, its constants included. -/
def height : Formula → Nat
  | constant _ => 1
  | operation _ left right => max left.height right.height + 1

/-- The postfix code of a formula: the operands from left to right, then the operator. -/
def code : Formula → List Instruction
  | constant text => [.load text]
  | operation operator left right => left.code ++ right.code ++ [.apply operator]

end Formula

namespace Instruction

/-- The instruction that a text stands for. -/
def ofText? (text : String) : Option Instruction :=
  let chars := text.toList
  if "LOAD_CONST ".toList <+: chars then
    some (.load (String.ofList (chars.drop "LOAD_CONST ".length)))
  else if "BINARY_OP ".toList <+: chars then
    some (.apply (String.ofList (chars.drop "BINARY_OP ".length)))
  else
    none

/-- One instruction on a stack, whose top comes first. An operator takes its right operand and then
its left one, and there is no stack behind it where one of them is not there. -/
def step : Instruction → List Formula → Option (List Formula)
  | load operand, stack => some (.constant operand :: stack)
  | apply operator, right :: left :: stack => some (.operation operator left right :: stack)
  | apply _, _ => none

/-- Code on a stack, instruction by instruction. -/
def runAll (code : List Instruction) (stack : List Formula) : Option (List Formula) :=
  code.foldlM (fun stack instruction => instruction.step stack) stack

theorem ofText?_text (instruction : Instruction) : ofText? instruction.text = some instruction := by
  cases instruction with
  | load operand =>
    have hchars : (text (load operand)).toList = "LOAD_CONST ".toList ++ operand.toList :=
      String.toList_append
    rw [ofText?, hchars, if_pos (List.prefix_append _ _)]
    exact congrArg (fun chars => some (load chars)) String.ofList_toList
  | apply operator =>
    have hchars : (text (apply operator)).toList = "BINARY_OP ".toList ++ operator.toList :=
      String.toList_append
    have hload : ¬ "LOAD_CONST ".toList <+: "BINARY_OP ".toList ++ operator.toList := by
      intro h
      exact absurd (List.cons_prefix_cons.mp h).1 (by decide)
    rw [ofText?, hchars, if_neg hload, if_pos (List.prefix_append _ _)]
    exact congrArg (fun chars => some (apply chars)) String.ofList_toList

theorem mapM_ofText?_text (code : List Instruction) :
    (code.map text).mapM ofText? = some code := by
  induction code with
  | nil => rfl
  | cons instruction code ih =>
    rw [List.map_cons, List.mapM_cons, ofText?_text, ih]
    rfl

variable {code first second : List Instruction} {stack after : List Formula}

theorem runAll_append :
    runAll (first ++ second) stack = (runAll first stack).bind (runAll second) :=
  List.foldlM_append

theorem runAll_apply {operator : String} :
    runAll [apply operator] stack = (apply operator).step stack :=
  bind_pure _

/-- An operator leaves one entry less than it finds, and never none. -/
theorem length_of_step_apply {operator : String} (h : (apply operator).step stack = some after) :
    after.length + 1 = stack.length ∧ after ≠ [] := by
  rcases stack with _ | ⟨right, _ | ⟨left, stack⟩⟩
  · cases h
  · cases h
  · cases h
    exact ⟨rfl, List.cons_ne_nil _ _⟩

/-- The code leaves at most so many entries more than it finds. -/
def Grows (n : Nat) (code : List Instruction) : Prop :=
  ∀ ⦃stack after⦄, runAll code stack = some after → after.length ≤ stack.length + n

theorem runAll_operation {operator : String}
    (h : runAll (first ++ second ++ [apply operator]) stack = some after) :
    ∃ between behind, runAll first stack = some between ∧ runAll second between = some behind ∧
      after.length + 1 = behind.length ∧ after ≠ [] := by
  rw [runAll_append, runAll_append] at h
  obtain ⟨behind, hboth, hlast⟩ := Option.bind_eq_some_iff.mp h
  obtain ⟨between, hfirst, hsecond⟩ := Option.bind_eq_some_iff.mp hboth
  rw [runAll_apply] at hlast
  exact ⟨between, behind, hfirst, hsecond, length_of_step_apply hlast⟩

theorem grows_nil : Grows 0 [] := by
  rintro stack _ ⟨⟩
  exact Nat.le_refl _

theorem Grows.operation {m n : Nat} (hfirst : Grows m first) (hsecond : Grows n second)
    (operator : String) : Grows (m + n - 1) (first ++ second ++ [apply operator]) := by
  intro stack after h
  obtain ⟨between, behind, hbetween, hbehind, hlength, -⟩ := runAll_operation h
  have hmiddle := hfirst hbetween
  have hend := hsecond hbehind
  -- the operator takes two entries and leaves one
  omega

end Instruction

open Instruction (runAll runAll_append runAll_apply)

/-- The code of a formula puts the formula on the stack and leaves what is below. -/
theorem Formula.runAll_code (formula : Formula) (stack : List Formula) :
    runAll formula.code stack = some (formula :: stack) := by
  induction formula generalizing stack with
  | constant text => rfl
  | operation operator left right ihLeft ihRight =>
    rw [code, runAll_append, runAll_append, ihLeft, Option.bind_some, ihRight, Option.bind_some,
      runAll_apply]
    rfl

namespace CodeTree

/-- The type of a node is the given word. -/
def HasType (name : String) (tree : CodeTree) : Prop :=
  ∃ type, tree.member "type" = .ok type ∧ type.isText name = true

/-- A member of a node has the given text. -/
def HasText (name text : String) (tree : CodeTree) : Prop :=
  ∃ value, tree.member name = .ok value ∧ value.display = .ok text

/-- A literal whose value has the given text. -/
structure IsLiteral (tree : CodeTree) (text : String) : Prop where
  type : tree.HasType "Literal"
  value : tree.HasText "value" text

/-- An operation with the text of its operator and its operands, which may be anything. -/
structure IsOperation (tree : CodeTree) (operator : String) (left right : CodeTree) : Prop where
  type : tree.HasType "BinaryOperation"
  left : tree.member "left" = .ok left
  right : tree.member "right" = .ok right
  operator : tree.HasText "operator" operator

/-- A missing node, or one of a type for which there is no code. -/
inductive Silent : CodeTree → Prop
  | missing : Silent (.plain .null)
  | other {tree type : CodeTree} : tree.member "type" = .ok type →
      type.isText "Literal" = false → type.isText "BinaryOperation" = false → Silent tree

/-- A tree of literals and of operations on two such trees, and its formula: the same tree with the
texts of its values and operators. -/
inductive Denotes : CodeTree → Formula → Prop
  | literal {tree : CodeTree} {text : String} :
      tree.IsLiteral text → Denotes tree (.constant text)
  | operation {tree left right : CodeTree} {operator : String} {first second : Formula} :
      tree.IsOperation operator left right → Denotes left first → Denotes right second →
      Denotes tree (.operation operator first second)

/-- An operation that lacks an operand, or an operation with such an operand. -/
inductive Gapped : CodeTree → Prop
  | operand {tree left right : CodeTree} {operator : String} :
      tree.IsOperation operator left right → left.Silent ∨ right.Silent → Gapped tree
  | left {tree left right : CodeTree} {operator : String} :
      tree.IsOperation operator left right → Gapped left → Gapped tree
  | right {tree left right : CodeTree} {operator : String} :
      tree.IsOperation operator left right → Gapped right → Gapped tree

/-- The code of a tree, at any depth. -/
inductive Emits : CodeTree → List Instruction → Prop
  | silent {tree : CodeTree} : tree.Silent → Emits tree []
  | literal {tree : CodeTree} {text : String} : tree.IsLiteral text → Emits tree [.load text]
  | operation {tree left right : CodeTree} {operator : String} {first second : List Instruction} :
      tree.IsOperation operator left right → Emits left first → Emits right second →
      Emits tree (first ++ second ++ [.apply operator])

/-- A literal of a value. -/
def literal (value : Value) : CodeTree :=
  .node "literal" [("type", .plain (.str "Literal")), ("value", .plain value)]

/-- An operation on two trees. -/
def operation (operator : Value) (left right : CodeTree) : CodeTree :=
  .node "operation" [("type", .plain (.str "BinaryOperation")), ("left", left), ("right", right),
    ("operator", .plain operator)]

theorem isLiteral_literal {value : Value} {text : String} (h : value.display = .ok text) :
    (literal value).IsLiteral text :=
  ⟨⟨_, rfl, by decide⟩, _, rfl, h⟩

theorem isOperation_operation {operator : Value} {text : String} {left right : CodeTree}
    (h : operator.display = .ok text) :
    (operation operator left right).IsOperation text left right :=
  ⟨⟨_, rfl, by decide⟩, rfl, rfl, _, rfl, h⟩

section Unique

variable {tree left right left' right' : CodeTree} {a b : String}

theorem isText_unique (h : tree.isText a = true) (h' : tree.isText b = true) : a = b := by
  cases tree with
  | node text members => cases h
  | plain value =>
    cases value with
    | str s => exact (beq_iff_eq.mp h).symm.trans (beq_iff_eq.mp h')
    | _ => cases h

theorem HasType.unique (h : tree.HasType a) (h' : tree.HasType b) : a = b := by
  obtain ⟨type, hmember, hword⟩ := h
  obtain ⟨type', hmember', hword'⟩ := h'
  obtain rfl := Except.ok.inj (hmember.symm.trans hmember')
  exact isText_unique hword hword'

theorem HasText.unique {name : String} (h : tree.HasText name a) (h' : tree.HasText name b) :
    a = b := by
  obtain ⟨value, hmember, htext⟩ := h
  obtain ⟨value', hmember', htext'⟩ := h'
  obtain rfl := Except.ok.inj (hmember.symm.trans hmember')
  exact Except.ok.inj (htext.symm.trans htext')

theorem IsOperation.unique (h : tree.IsOperation a left right)
    (h' : tree.IsOperation b left' right') : a = b ∧ left = left' ∧ right = right' :=
  ⟨h.operator.unique h'.operator, Except.ok.inj (h.left.symm.trans h'.left),
    Except.ok.inj (h.right.symm.trans h'.right)⟩

theorem IsLiteral.not_operation (h : tree.IsLiteral a) : ¬ tree.IsOperation b left right :=
  fun h' => absurd (h.type.unique h'.type) (by decide)

theorem Silent.not_hasType (h : tree.Silent) (hword : a = "Literal" ∨ a = "BinaryOperation") :
    ¬ tree.HasType a := by
  rintro ⟨type, hmember, htype⟩
  cases h with
  | missing => cases hmember
  | other hmember' hliteral hoperation =>
    obtain rfl := Except.ok.inj (hmember.symm.trans hmember')
    rcases hword with rfl | rfl
    · exact Bool.eq_false_iff.mp hliteral htype
    · exact Bool.eq_false_iff.mp hoperation htype

end Unique

variable {tree : CodeTree} {code : List Instruction}

theorem Silent.code_eq (h : tree.Silent) (hcode : tree.Emits code) : code = [] := by
  cases hcode with
  | silent _ => rfl
  | literal hliteral => exact absurd hliteral.type (h.not_hasType (.inl rfl))
  | operation hoperation _ _ => exact absurd hoperation.type (h.not_hasType (.inr rfl))

theorem Emits.of_operation {left right : CodeTree} {operator : String} (h : tree.Emits code)
    (hoperation : tree.IsOperation operator left right) :
    ∃ first second, left.Emits first ∧ right.Emits second ∧
      code = first ++ second ++ [.apply operator] := by
  cases h with
  | silent hsilent => exact absurd hoperation.type (hsilent.not_hasType (.inr rfl))
  | literal hliteral => exact absurd hoperation hliteral.not_operation
  | operation hoperation' hfirst hsecond =>
    obtain ⟨rfl, rfl, rfl⟩ := hoperation.unique hoperation'
    exact ⟨_, _, hfirst, hsecond, rfl⟩

theorem Denotes.code_eq {formula : Formula} (h : tree.Denotes formula) (hcode : tree.Emits code) :
    code = formula.code := by
  induction h generalizing code with
  | literal hliteral =>
    cases hcode with
    | silent hsilent => exact absurd hliteral.type (hsilent.not_hasType (.inl rfl))
    | literal hliteral' =>
      obtain rfl := hliteral.value.unique hliteral'.value
      rfl
    | operation hoperation _ _ => exact absurd hoperation hliteral.not_operation
  | operation hoperation _ _ ihLeft ihRight =>
    obtain ⟨first, second, hfirst, hsecond, rfl⟩ := hcode.of_operation hoperation
    rw [ihLeft hfirst, ihRight hsecond, Formula.code]

theorem Emits.grows (h : tree.Emits code) : Instruction.Grows 1 code := by
  induction h with
  | silent _ => exact fun _ _ h => Nat.le_add_right_of_le (Instruction.grows_nil h)
  | literal _ =>
    rintro stack _ ⟨⟩
    exact Nat.le_refl _
  | operation _ _ _ ihLeft ihRight => exact ihLeft.operation ihRight _

/-- The code of a tree with a gap leaves no more than it finds, because some operator takes an
operand that the tree does not give it. -/
theorem Gapped.grows (h : tree.Gapped) (hcode : tree.Emits code) : Instruction.Grows 0 code := by
  induction h generalizing code with
  | operand hoperation hsilent =>
    obtain ⟨first, second, hfirst, hsecond, rfl⟩ := hcode.of_operation hoperation
    rcases hsilent with hsilent | hsilent
    · obtain rfl := hsilent.code_eq hfirst
      exact Instruction.grows_nil.operation hsecond.grows _
    · obtain rfl := hsilent.code_eq hsecond
      exact hfirst.grows.operation Instruction.grows_nil _
  | left hoperation _ ih =>
    obtain ⟨first, second, hfirst, hsecond, rfl⟩ := hcode.of_operation hoperation
    exact (ih hfirst).operation hsecond.grows _
  | right hoperation _ ih =>
    obtain ⟨first, second, hfirst, hsecond, rfl⟩ := hcode.of_operation hoperation
    exact hfirst.grows.operation (ih hsecond) _

theorem Gapped.isOperation (h : tree.Gapped) :
    ∃ operator left right, tree.IsOperation operator left right := by
  cases h with
  | operand hoperation _ => exact ⟨_, _, _, hoperation⟩
  | left hoperation _ => exact ⟨_, _, _, hoperation⟩
  | right hoperation _ => exact ⟨_, _, _, hoperation⟩

/-- On an empty stack the code of a tree with a gap takes an operand that is not there: it would
leave nothing, and its last operator leaves something. -/
theorem Gapped.runAll_eq_none (h : tree.Gapped) (hcode : tree.Emits code) :
    runAll code [] = none := by
  refine Option.eq_none_iff_forall_ne_some.mpr fun after hrun => ?_
  have hlength := h.grows hcode hrun
  obtain ⟨operator, left, right, hoperation⟩ := h.isOperation
  obtain ⟨first, second, -, -, rfl⟩ := hcode.of_operation hoperation
  obtain ⟨-, -, -, -, -, hne⟩ := Instruction.runAll_operation hrun
  exact hne (List.length_eq_zero_iff.mp (Nat.le_zero.mp hlength))

/-- A compiled tree makes no code, is whole or has a gap. -/
theorem Emits.cases (h : tree.Emits code) :
    tree.Silent ∨ (∃ formula, tree.Denotes formula) ∨ tree.Gapped := by
  induction h with
  | silent hsilent => exact .inl hsilent
  | literal hliteral => exact .inr (.inl ⟨_, .literal hliteral⟩)
  | operation hoperation _ _ ihLeft ihRight =>
    -- an operation is whole if both of its operands are
    refine .inr ?_
    rcases ihLeft with hleft | ⟨first, hfirst⟩ | hleft
    · exact .inr (.operand hoperation (.inl hleft))
    · rcases ihRight with hright | ⟨second, hsecond⟩ | hright
      · exact .inr (.operand hoperation (.inr hright))
      · exact .inl ⟨_, .operation hoperation hfirst hsecond⟩
      · exact .inr (.right hoperation hright)
    · exact .inr (.left hoperation hleft)

end CodeTree

namespace Emit

open CodeTree (literal operation isLiteral_literal isOperation_operation)

variable {node left right : CodeTree} {formula : Formula} {depth : Nat}
  {held after code : List Instruction}

/-- What is emitted for a node, by its type. -/
theorem tree_of_member {type : CodeTree} (h : node.member "type" = .ok type) (depth : Nat) :
    tree (depth + 1) node =
      if type.isText "Literal" then do
        add (.load (← (← node.member "value").display))
      else if type.isText "BinaryOperation" then do
        tree depth (← node.member "left")
        tree depth (← node.member "right")
        add (.apply (← (← node.member "operator").display))
      else pure () := by
  cases node with
  | plain value => cases h
  | node text members =>
    rw [tree, h]
    · rfl
    · rintro ⟨⟩

theorem run_literal {text : String} (h : node.IsLiteral text) :
    (tree (depth + 1) node).run held = .ok () (held ++ [.load text]) := by
  obtain ⟨⟨type, hmember, htype⟩, value, hvalue, htext⟩ := h
  rw [tree_of_member hmember, if_pos htype, hvalue, run_bind_of_ok (run_lift_ok value held), htext]
  rfl

theorem run_operation {operator : String} {between behind : List Instruction}
    (h : node.IsOperation operator left right) (hleft : (tree depth left).run held = .ok () between)
    (hright : (tree depth right).run between = .ok () behind) :
    (tree (depth + 1) node).run held = .ok () (behind ++ [.apply operator]) := by
  obtain ⟨⟨type, hmember, htype⟩, hfirst, hsecond, value, hvalue, htext⟩ := h
  have hliteral : ¬ type.isText "Literal" = true := fun hword =>
    absurd (CodeTree.isText_unique hword htype) (by decide)
  rw [tree_of_member hmember, if_neg hliteral, if_pos htype, hfirst,
    run_bind_of_ok (run_lift_ok left held), run_bind_of_ok hleft, hsecond,
    run_bind_of_ok (run_lift_ok right between), run_bind_of_ok hright, hvalue,
    run_bind_of_ok (run_lift_ok value behind), htext]
  rfl

/-- A tree with a formula is compiled at every depth that its formula fits in. -/
theorem run_of_denotes (h : node.Denotes formula) (hdepth : formula.height ≤ depth)
    (held : List Instruction) :
    (tree depth node).run held = .ok () (held ++ formula.code) := by
  induction h generalizing depth held with
  | literal hliteral =>
    cases depth with
    | zero => cases hdepth
    | succ depth => exact run_literal hliteral
  | operation hoperation _ _ ihLeft ihRight =>
    cases depth with
    | zero => cases hdepth
    | succ depth =>
      obtain ⟨hfirst, hsecond⟩ := Nat.max_le.mp (Nat.le_of_succ_le_succ hdepth)
      rw [run_operation hoperation (ihLeft hfirst held) (ihRight hsecond _), Formula.code]
      simp only [List.append_assoc]

theorem silent_of_no_type {fault : Fault} (h : node.member "type" = .error fault)
    (hrun : (tree (depth + 1) node).run held = .ok () after) : node.Silent ∧ after = held := by
  cases node with
  | node text members =>
    rw [tree, h] at hrun
    · cases hrun
    · rintro ⟨⟩
  | plain value =>
    -- of all that is no node, only what is missing is not refused
    cases value with
    | null =>
      cases hrun
      exact ⟨.missing, rfl⟩
    | _ => cases hrun

/-- The three ways in which a node is compiled. -/
theorem cases_of_run (h : (tree (depth + 1) node).run held = .ok () after) :
    node.Silent ∧ after = held ∨
      (∃ text, node.IsLiteral text ∧ after = held ++ [.load text]) ∨
      ∃ operator left right between behind, node.IsOperation operator left right ∧
        (tree depth left).run held = .ok () between ∧
        (tree depth right).run between = .ok () behind ∧ after = behind ++ [.apply operator] := by
  cases hmember : node.member "type" with
  | error fault => exact .inl (silent_of_no_type hmember h)
  | ok type =>
    rw [tree_of_member hmember] at h
    split at h
    · next hliteral =>
      obtain ⟨value, hvalue, h⟩ := run_lift_bind_ok_iff.mp h
      obtain ⟨text, htext, h⟩ := run_lift_bind_ok_iff.mp h
      cases h
      exact .inr (.inl ⟨text, ⟨⟨type, hmember, hliteral⟩, value, hvalue, htext⟩, rfl⟩)
    split at h
    · next hoperation =>
      obtain ⟨left, hleft, h⟩ := run_lift_bind_ok_iff.mp h
      obtain ⟨_, between, hfirst, h⟩ := run_bind_ok_iff.mp h
      obtain ⟨right, hright, h⟩ := run_lift_bind_ok_iff.mp h
      obtain ⟨_, behind, hsecond, h⟩ := run_bind_ok_iff.mp h
      obtain ⟨value, hvalue, h⟩ := run_lift_bind_ok_iff.mp h
      obtain ⟨operator, htext, h⟩ := run_lift_bind_ok_iff.mp h
      cases h
      exact .inr (.inr ⟨operator, left, right, between, behind,
        ⟨⟨type, hmember, hoperation⟩, hleft, hright, value, hvalue, htext⟩, hfirst, hsecond, rfl⟩)
    · next hliteral hoperation =>
      cases h
      exact .inl ⟨.other hmember (Bool.eq_false_iff.mpr hliteral)
        (Bool.eq_false_iff.mpr hoperation), rfl⟩

/-- A tree that is compiled adds its code to what is held. -/
theorem emits_of_run (h : (tree depth node).run held = .ok () after) :
    ∃ code, node.Emits code ∧ after = held ++ code := by
  induction depth generalizing node held after with
  | zero => cases h
  | succ depth ih =>
    obtain ⟨hsilent, rfl⟩ | ⟨text, hliteral, rfl⟩ |
      ⟨operator, left, right, between, behind, hoperation, hfirst, hsecond, rfl⟩ := cases_of_run h
    · exact ⟨[], .silent hsilent, (List.append_nil _).symm⟩
    · exact ⟨_, .literal hliteral, rfl⟩
    · obtain ⟨first, hleft, rfl⟩ := ih hfirst
      obtain ⟨second, hright, rfl⟩ := ih hsecond
      exact ⟨_, .operation hoperation hleft hright, by simp only [List.append_assoc]⟩

theorem run_compile_iff :
    (compile depth node).run held = .ok code after ↔
      (tree depth node).run [] = .ok () code ∧ code = after := by
  change (tree depth node >>= fun _ => get).run [] = .ok code after ↔ _
  rw [run_bind_ok_iff]
  constructor
  · rintro ⟨_, _, h, ⟨⟩⟩
    exact ⟨h, rfl⟩
  · rintro ⟨h, rfl⟩
    exact ⟨(), code, h, rfl⟩

/-- Compiled code decodes back: it builds the formula of the tree on an empty stack and nothing
else, its texts stand for its instructions, and what the compiler holds already stays in front of
it. -/
theorem compile_decodes (h : node.Denotes formula) (hdepth : formula.height ≤ depth) :
    ∃ code, (∀ held, (compile depth node).run held = .ok code code) ∧
      (code.map Instruction.text).mapM Instruction.ofText? = some code ∧
      runAll code [] = some [formula] ∧
      ∀ held, (tree depth node).run held = .ok () (held ++ code) := by
  have hrun := run_of_denotes h hdepth
  exact ⟨formula.code, fun held => run_compile_iff.mpr ⟨hrun [], rfl⟩,
    Instruction.mapM_ofText?_text _, formula.runAll_code [], hrun⟩

/-- Values of any kind are operands, and an operator may be any text. -/
theorem compile_decodes_nested :
    ∃ node formula, node = operation (.str "") (literal (.list [.null, .str "a b"]))
        (operation (.str "BINARY_OP -") (literal (.bool true)) (literal (.str "x"))) ∧
      formula = .operation "" (.constant "[None, 'a b']")
        (.operation "BINARY_OP -" (.constant "True") (.constant "x")) ∧
      node.Denotes formula ∧ formula.height ≤ maxDepth ∧
      ∃ code, (∀ held, (compile maxDepth node).run held = .ok code code) ∧
        (code.map Instruction.text).mapM Instruction.ofText? = some code ∧
        runAll code [] = some [formula] ∧
        ∀ held, (tree maxDepth node).run held = .ok () (held ++ code) := by
  have hlist : (Value.list [.null, .str "a b"]).display = .ok "[None, 'a b']" := by rfl
  have hinner : (operation (.str "BINARY_OP -") (literal (.bool true)) (literal (.str "x"))).Denotes
      (.operation "BINARY_OP -" (.constant "True") (.constant "x")) :=
    .operation (isOperation_operation rfl) (.literal (isLiteral_literal rfl))
      (.literal (isLiteral_literal rfl))
  have houter : (operation (.str "") (literal (.list [.null, .str "a b"]))
      (operation (.str "BINARY_OP -") (literal (.bool true)) (literal (.str "x")))).Denotes
      (.operation "" (.constant "[None, 'a b']") (.operation "BINARY_OP -" (.constant "True")
        (.constant "x"))) :=
    .operation (isOperation_operation rfl) (.literal (isLiteral_literal hlist)) hinner
  exact ⟨_, _, rfl, rfl, houter, by decide, compile_decodes houter (by decide)⟩

/-- What the code of a compiled tree does on an empty stack: a missing node and a node of another
type have no code, the code of a whole tree leaves one entry, and the code of a tree with a gap
takes an operand that is not there. Every tree that is compiled is one of these. -/
theorem stack_of_compile (h : (compile depth node).run held = .ok code after) :
    (node.Silent → code = []) ∧
      (∀ formula, node.Denotes formula → runAll code [] = some [formula]) ∧
      (node.Gapped → runAll code [] = none) ∧
      (node.Silent ∨ (∃ formula, node.Denotes formula) ∨ node.Gapped) := by
  obtain ⟨hrun, -⟩ := run_compile_iff.mp h
  obtain ⟨code, hcode, rfl⟩ := emits_of_run hrun
  refine ⟨fun hsilent => hsilent.code_eq hcode, fun formula hformula => ?_,
    fun hgapped => hgapped.runAll_eq_none hcode, hcode.cases⟩
  rw [hformula.code_eq hcode]
  exact formula.runAll_code []

/-- A node of another type deep in a tree is not noticed before the outermost operator. -/
theorem stack_of_compile_gap :
    (compile maxDepth (operation (.str "+") (literal (.str "1"))
        (operation (.str "*") (literal (.str "2"))
          (.node "variable" [("type", .plain (.str "Identifier"))])))).run [.load "0"] =
        .ok [.load "1", .load "2", .apply "*", .apply "+"]
          [.load "1", .load "2", .apply "*", .apply "+"] ∧
      runAll [.load "1", .load "2", .apply "*"] [] =
        some [.operation "*" (.constant "1") (.constant "2")] ∧
      runAll [.load "1", .load "2", .apply "*", .apply "+"] [] = none := by
  have hrun : (compile maxDepth (operation (.str "+") (literal (.str "1"))
      (operation (.str "*") (literal (.str "2"))
        (.node "variable" [("type", .plain (.str "Identifier"))])))).run [.load "0"] =
      .ok [.load "1", .load "2", .apply "*", .apply "+"]
        [.load "1", .load "2", .apply "*", .apply "+"] := rfl
  have hother : (CodeTree.node "variable" [("type", .plain (.str "Identifier"))]).Silent :=
    .other rfl (by decide) (by decide)
  refine ⟨hrun, rfl, (stack_of_compile hrun).2.2.1 ?_⟩
  exact .right (isOperation_operation rfl) (.operand (isOperation_operation rfl) (.inr hother))

/-- An operation on missing nodes is compiled, and its code takes operands that are not there. -/
theorem not_compile_balanced :
    ¬ ∀ (depth : Nat) (node : CodeTree) (held code after : List Instruction),
      (compile depth node).run held = .ok code after →
        (∃ formula, runAll code [] = some [formula]) ∨ node = .plain .null ∧ code = [] := by
  intro h
  have hmissing := h maxDepth (operation (.str "+") (.plain .null) (.plain .null)) []
    [.apply "+"] [.apply "+"] rfl
  obtain ⟨formula, hrun⟩ | ⟨hnode, -⟩ := hmissing
  · cases hrun
  · cases hnode

end Emit

end Scriptlet
