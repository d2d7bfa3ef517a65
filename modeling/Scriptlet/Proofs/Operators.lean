import Scriptlet.Machine.Visit
import Scriptlet.Proofs.Joining
import Scriptlet.Proofs.Lexical
import Scriptlet.Proofs.Parsing

/-! Operands with operators between them. A source of numbers, string literals and names with signs
of arithmetic between them always has tokens, but the grammar knows only sums of integers, string
literals and names: an expression ends before any other operator, and there is none that begins with
a decimal number. -/
namespace Scriptlet.Arithmetic

open Scriptlet.Scanner

/-- A lexeme that is read as one token wherever it stands. -/
structure Piece where
  lexical : Lexical
  chars : List Char
  kind : Token.Kind
  value : Value
  spells : Lexical.Spells lexical chars
  reads : ∀ before, lexical.tokens before chars = .ok [.plain kind value]

/-- A number, a string literal or a name. -/
structure Operand extends Piece where
  isOperand : kind ∈ [Token.Kind.number, .float, .string, .identifier]

/-- A sign of arithmetic. -/
structure Operator extends Piece where
  isOperator : kind ∈ [Token.Kind.plus, .minus, .multiply, .divide]

/-- An operator and an operand, with spaces before each of them and one at least. -/
structure Link where
  moreBefore : Nat
  operator : Operator
  moreBetween : Nat
  operand : Operand

/-- Operands with operators between them. -/
structure Chain where
  first : Operand
  links : List Link

/-- One space and that many more. -/
def spaces (more : Nat) : List Char :=
  List.replicate (more + 1) ' '

def Piece.token (piece : Piece) : Token :=
  .plain piece.kind piece.value

namespace Link

def chars (link : Link) : List Char :=
  spaces link.moreBefore ++
    (link.operator.chars ++ (spaces link.moreBetween ++ link.operand.chars))

def tokens (link : Link) : List Token :=
  [link.operator.token, link.operand.token]

def isPlus (link : Link) : Bool :=
  link.operator.kind == .plus

end Link

namespace Chain

variable (chain : Chain)

def source : String :=
  String.ofList (chain.first.chars ++ chain.links.flatMap Link.chars)

def tokens : List Token :=
  chain.first.token :: chain.links.flatMap Link.tokens

def operands : List Operand :=
  chain.first :: chain.links.map Link.operand

/-- The chain up to the first operator that is no plus. -/
def front : Chain :=
  ⟨chain.first, chain.links.takeWhile Link.isPlus⟩

/-- What is behind the front. -/
def back : List Link :=
  chain.links.dropWhile Link.isPlus

end Chain

/-- The tree of an operand that is no decimal number. -/
def Operand.tree (operand : Operand) : Expr :=
  match operand.kind with
  | .string => .string operand.value Token.unknown
  | .number => .number operand.value Token.unknown
  | _ => .var operand.value Token.unknown

/-- The sum of an operand and those of links, nested to the right. -/
def sumTree (first : Operand) : List Link → Expr
  | [] => first.tree
  | link :: links => .sum first.tree (sumTree link.operand links) Token.unknown

/-- The sum of the operands of a chain. -/
def Chain.tree (chain : Chain) : Expr :=
  sumTree chain.first chain.links

theorem forall_mem_spaces (more : Nat) : ∀ c ∈ spaces more, Text.isBlank c = true := by
  intro c hc
  obtain rfl := List.eq_of_mem_replicate hc
  rfl

theorem head?_spaces (more : Nat) (rest : List Char) :
    ∀ c ∈ (spaces more ++ rest).head?, c = ' ' := by
  intro c hc
  exact (Option.some.inj hc).symm

theorem head?_links (links : List Link) : ∀ c ∈ (links.flatMap Link.chars).head?, c = ' ' := by
  cases links with
  | nil =>
    intro c hc
    cases hc
  | cons link links =>
    rw [List.flatMap_cons, Link.chars, List.append_assoc]
    exact head?_spaces _ _

/-- A lexeme with a token does not go on with a space. -/
theorem Piece.not_goesOn_space (piece : Piece) : ¬ piece.lexical.GoesOn ' ' := by
  obtain ⟨lexical, chars, kind, value, -, reads⟩ := piece
  intro h
  cases lexical with
  | blanks => cases reads []
  | comment => cases reads []
  | word =>
    have hspace : continuesWord ' ' = false := by decide +kernel
    exact absurd h (Bool.eq_false_iff.mp hspace)
  | integer =>
    rcases h with h | h
    · exact absurd h (by decide)
    · exact absurd h (by decide)
  | decimal =>
    have hspace : Text.isDigit ' ' = false := by decide
    exact absurd h (Bool.eq_false_iff.mp hspace)
  | string meant => exact h
  | bracket kind => exact h
  | sign kind =>
    rcases h with ⟨-, h⟩ | ⟨-, h⟩
    · exact absurd h (by decide)
    · exact absurd h (by decide)

section Lexing

variable {before rest : List Char} {ts : List Token}

theorem Piece.lexes (piece : Piece) (hrest : ∀ c ∈ rest.head?, c = ' ')
    (h : Lexes (before ++ piece.chars) rest ts) :
    Lexes before (piece.chars ++ rest) (piece.token :: ts) := by
  have hstop : ∀ d ∈ rest.head?, ¬ piece.lexical.GoesOn d := by
    intro d hd
    obtain rfl := hrest d hd
    exact piece.not_goesOn_space
  obtain ⟨found, hreading, hfound⟩ := piece.spells.reading_eq hstop
  obtain ⟨c, chars, hchars⟩ := List.exists_cons_of_ne_nil piece.spells.ne_nil
  have hts : found.tokens before = .ok [piece.token] := (hfound before).trans (piece.reads before)
  rw [hchars, List.cons_append] at hreading ⊢
  rw [hchars] at h
  have hcons : Lexes before (c :: (chars ++ rest)) ([piece.token] ++ ts) := by
    refine .cons ?_ ?_
    · rw [hreading]
      exact hts
    · rw [hreading]
      exact h
  exact hcons

theorem Link.lexes (link : Link) (hrest : ∀ c ∈ rest.head?, c = ' ')
    (h : Lexes (before ++ link.chars) rest ts) :
    Lexes before (link.chars ++ rest) (link.tokens ++ ts) := by
  rw [Link.chars, ← List.append_assoc, ← List.append_assoc, ← List.append_assoc] at h
  rw [Link.chars, List.append_assoc, List.append_assoc, List.append_assoc]
  refine .blanks (forall_mem_spaces _) (link.operator.lexes (head?_spaces _ _) ?_)
  exact .blanks (forall_mem_spaces _) (link.operand.lexes hrest h)

theorem lexes_links (links : List Link) (before : List Char) :
    Lexes before (links.flatMap Link.chars) (links.flatMap Link.tokens) := by
  induction links generalizing before with
  | nil => exact .nil before
  | cons link links ih =>
    rw [List.flatMap_cons, List.flatMap_cons]
    exact link.lexes (head?_links links) (ih _)

/-- A chain has the tokens of its operands and operators. -/
theorem Chain.ofSource (chain : Chain) : Token.ofSource chain.source = .ok chain.tokens := by
  rw [Token.ofSource_ok_iff, source, String.toList_ofList]
  exact chain.first.lexes (head?_links chain.links) (lexes_links chain.links _)

end Lexing

section Parsing

variable {depth pos : Nat} {rest : List Token}

/-- The fault at a decimal number. -/
def decimalFault : Fault :=
  .notExpression "FLOAT" "unknown" "unknown"

theorem Piece.isOf_token (piece : Piece) (kind : Token.Kind) :
    piece.token.isOf kind = decide (piece.kind = kind) :=
  (Leaf.unplaced piece.kind piece.value).isOf_token kind

theorem Piece.token?_token (piece : Piece) :
    (Cursor.mk pos (piece.token :: rest)).token? = some piece.token :=
  Parse.token?_cons (Leaf.unplaced piece.kind piece.value).hasValue pos rest

theorem Operand.run_operand (o : Operand) (ho : o.kind ≠ .float)
    (hrest : Derivation.Avoids .leftParen rest) :
    (Parse.operand (depth + 1)).run ⟨pos, o.token :: rest⟩ = .ok o.tree ⟨pos + 1, rest⟩ := by
  obtain ⟨⟨lexical, chars, kind, value, spells, reads⟩, hkind⟩ := o
  simp only [List.mem_cons, List.not_mem_nil, or_false] at hkind
  rcases hkind with rfl | rfl | rfl | rfl
  · exact Parse.run_operand_number depth pos rest (.unplaced .number value)
  · exact absurd rfl ho
  · exact Parse.run_operand_string depth pos rest (.unplaced .string value)
  · refine (Parse.run_operand_identifier depth pos rest (.unplaced .identifier value)).trans ?_
    rw [Parse.isAt_eq_false hrest]
    rfl

theorem Operand.run_operand_float (o : Operand) (ho : o.kind = .float) :
    (Parse.operand (depth + 1)).run ⟨pos, o.token :: rest⟩ =
      .error decimalFault ⟨pos, o.token :: rest⟩ := by
  have htoken : Parse.token.run ⟨pos, o.token :: rest⟩ = .ok o.token ⟨pos, o.token :: rest⟩ :=
    Parse.run_token (Leaf.unplaced o.kind o.value).hasValue pos rest
  have hlabel : o.token.label = .ok (.str "FLOAT") := by
    rw [Piece.token, ho]
    rfl
  rw [Parse.operand, run_bind_of_ok htoken]
  simp only [o.isOf_token, ho, reduceCtorEq, decide_false, Bool.false_eq_true, if_false]
  rw [hlabel]
  rfl

theorem avoids_links (links : List Link) :
    Derivation.Avoids .leftParen (links.flatMap Link.tokens) := by
  cases links with
  | nil => exact Derivation.avoids_nil _
  | cons link links =>
    intro t ht
    obtain rfl : link.operator.token = t := Option.some.inj ht
    rw [link.operator.isOf_token, decide_eq_false_iff_not]
    intro hkind
    exact absurd (hkind ▸ link.operator.isOperator) (by decide)

theorem run_sum_float {o : Operand} (ho : o.kind = .float) :
    (Parse.sum (depth + 2)).run ⟨pos, o.token :: rest⟩ =
      .error decimalFault ⟨pos, o.token :: rest⟩ := by
  rw [Parse.sum, EStateM.run_bind, o.run_operand_float ho]

theorem run_sum_nil {o : Operand} (ho : o.kind ≠ .float) :
    (Parse.sum (depth + 2)).run ⟨pos, [o.token]⟩ = .ok o.tree ⟨pos + 1, []⟩ := by
  rw [Parse.sum, run_bind_of_ok (o.run_operand ho (Derivation.avoids_nil _)), run_get_bind]
  rfl

theorem run_sum_plus {o : Operand} (ho : o.kind ≠ .float) {link : Link} (links : List Link)
    (hplus : link.isPlus = true) :
    (Parse.sum (depth + 2)).run ⟨pos, o.token :: (link :: links).flatMap Link.tokens⟩ =
      (do return .sum o.tree (← Parse.sum (depth + 1)) Token.unknown : Parse Expr).run
        ⟨pos + 2, link.operand.token :: links.flatMap Link.tokens⟩ := by
  have hkind : link.operator.kind = .plus := beq_iff_eq.mp hplus
  rw [Parse.sum, run_bind_of_ok (o.run_operand ho (avoids_links _)), run_get_bind]
  simp only [List.flatMap_cons, Link.tokens, List.cons_append, link.operator.token?_token,
    link.operator.isOf_token, hkind, decide_true, if_true]
  rw [run_bind_of_ok (Parse.run_advance _ _ _)]
  rfl

theorem run_sum_other {o : Operand} (ho : o.kind ≠ .float) {link : Link} (links : List Link)
    (hplus : link.isPlus = false) :
    (Parse.sum (depth + 2)).run ⟨pos, o.token :: (link :: links).flatMap Link.tokens⟩ =
      .ok o.tree ⟨pos + 1, (link :: links).flatMap Link.tokens⟩ := by
  have hkind : link.operator.kind ≠ .plus := beq_eq_false_iff_ne.mp hplus
  rw [Parse.sum, run_bind_of_ok (o.run_operand ho (avoids_links _)), run_get_bind]
  simp only [List.flatMap_cons, Link.tokens, List.cons_append, link.operator.token?_token,
    link.operator.isOf_token, hkind, decide_false, Bool.false_eq_true, if_false]
  rfl

/-- A chain is read as a sum up to the first operator that is no plus, if no decimal number is in
between. -/
theorem run_sum_front {o : Operand} {links : List Link} (hdepth : links.length ≤ depth)
    (h : ∀ p ∈ o :: (links.takeWhile Link.isPlus).map Link.operand, p.kind ≠ .float) :
    (Parse.sum (depth + 2)).run ⟨pos, o.token :: links.flatMap Link.tokens⟩ =
      .ok (sumTree o (links.takeWhile Link.isPlus))
        ⟨pos + (2 * (links.takeWhile Link.isPlus).length + 1),
          (links.dropWhile Link.isPlus).flatMap Link.tokens⟩ := by
  induction links generalizing o depth pos with
  | nil => exact run_sum_nil (h o List.mem_cons_self)
  | cons link links ih =>
    obtain ⟨ho, hothers⟩ := List.forall_mem_cons.mp h
    obtain ⟨depth, rfl⟩ := Nat.exists_eq_add_one_of_ne_zero (Nat.ne_zero_of_lt hdepth)
    cases hplus : link.isPlus with
    | false =>
      rw [run_sum_other ho links hplus, List.takeWhile_cons_of_neg (by simp [hplus]),
        List.dropWhile_cons_of_neg (by simp [hplus])]
      rfl
    | true =>
      rw [List.takeWhile_cons_of_pos hplus, List.map_cons] at hothers
      have hlinks := @ih depth (pos + 2) link.operand (Nat.le_of_succ_le_succ hdepth) hothers
      rw [run_sum_plus ho links hplus, List.takeWhile_cons_of_pos hplus,
        List.dropWhile_cons_of_pos hplus, run_bind_of_ok hlinks, EStateM.run_pure, List.length_cons]
      simp only [sumTree, EStateM.Result.ok.injEq, Cursor.mk.injEq, true_and, and_true]
      omega

theorem findIdx_of_float {o : Operand} (ho : o.kind = .float) (rest : List Token) :
    (o.token :: rest).findIdx (Token.isOf .float) = 0 := by
  rw [List.findIdx_cons, o.isOf_token, ho]
  rfl

theorem findIdx_of_not_float {o : Operand} (ho : o.kind ≠ .float) (link : Link)
    (links : List Link) :
    (o.token :: (link :: links).flatMap Link.tokens).findIdx (Token.isOf .float) =
      (link.operand.token :: links.flatMap Link.tokens).findIdx (Token.isOf .float) + 2 := by
  have hoperator : link.operator.kind ≠ .float := by
    intro hkind
    exact absurd (hkind ▸ link.operator.isOperator) (by decide)
  rw [List.findIdx_cons, o.isOf_token, decide_eq_false ho, List.flatMap_cons, Link.tokens,
    List.cons_append, List.findIdx_cons, link.operator.isOf_token, decide_eq_false hoperator]
  rfl

/-- At a decimal number before the first operator that is no plus there is no expression. -/
theorem run_sum_decimal {o : Operand} {links : List Link} (hdepth : links.length ≤ depth)
    (h : ∃ p ∈ o :: (links.takeWhile Link.isPlus).map Link.operand, p.kind = .float) :
    (Parse.sum (depth + 2)).run ⟨pos, o.token :: links.flatMap Link.tokens⟩ =
      .error decimalFault
        ⟨pos + (o.token :: links.flatMap Link.tokens).findIdx (Token.isOf .float),
          (o.token :: links.flatMap Link.tokens).drop
            ((o.token :: links.flatMap Link.tokens).findIdx (Token.isOf .float))⟩ := by
  induction links generalizing o depth pos with
  | nil =>
    obtain ⟨p, hp, hfloat⟩ := h
    obtain rfl := List.mem_singleton.mp hp
    rw [findIdx_of_float hfloat]
    exact run_sum_float hfloat
  | cons link links ih =>
    by_cases ho : o.kind = .float
    · rw [findIdx_of_float ho]
      exact run_sum_float ho
    · obtain ⟨depth, rfl⟩ := Nat.exists_eq_add_one_of_ne_zero (Nat.ne_zero_of_lt hdepth)
      obtain ⟨p, hp, hfloat⟩ := h
      have hp' : p ∈ ((link :: links).takeWhile Link.isPlus).map Link.operand := by
        rcases List.mem_cons.mp hp with rfl | hp
        · exact absurd hfloat ho
        · exact hp
      cases hplus : link.isPlus with
      | false =>
        rw [List.takeWhile_cons_of_neg (by simp [hplus])] at hp'
        cases hp'
      | true =>
        rw [List.takeWhile_cons_of_pos hplus] at hp'
        have hlinks := @ih depth (pos + 2) link.operand (Nat.le_of_succ_le_succ hdepth)
          ⟨p, hp', hfloat⟩
        rw [run_sum_plus ho links hplus, EStateM.run_bind, hlinks, findIdx_of_not_float ho]
        rw [← Nat.add_assoc, Nat.add_right_comm]
        rfl

end Parsing

namespace Chain

variable (chain : Chain)

/-- How many tokens are before the first decimal number. -/
def beforeDecimal : Nat :=
  chain.tokens.findIdx (Token.isOf .float)

theorem length_tokens : chain.tokens.length = 2 * chain.links.length + 1 := by
  have hlinks : (chain.links.flatMap Link.tokens).length = 2 * chain.links.length := by
    simp [Link.tokens, List.length_flatMap, List.map_const', Nat.mul_comm]
  rw [tokens, List.length_cons, hlinks]

theorem back_eq_nil_iff : chain.back.flatMap Link.tokens = [] ↔
    ∀ link ∈ chain.links, link.operator.kind = .plus := by
  have hnil : chain.back.flatMap Link.tokens = [] ↔ chain.back = [] := by
    rw [List.flatMap_eq_nil_iff, List.eq_nil_iff_forall_not_mem]
    exact forall₂_congr fun link _ => iff_of_false (List.cons_ne_nil _ _) id
  rw [hnil, back, List.dropWhile_eq_nil_iff]
  exact forall₂_congr fun link _ => beq_iff_eq

theorem front_eq (h : ∀ link ∈ chain.links, link.operator.kind = .plus) : chain.front = chain := by
  have hall : chain.links.takeWhile Link.isPlus = chain.links :=
    List.takeWhile_eq_self_iff.mpr fun link hlink => beq_iff_eq.mpr (h link hlink)
  rw [front, hall]

section Expression

variable {depth : Nat} (hdepth : chain.links.length + 3 ≤ depth)
include hdepth

theorem exists_run_expression : ∃ more, chain.links.length ≤ more ∧
    (Parse.expression depth).run (Cursor.ofTokens chain.tokens) =
      (Parse.sum (more + 2)).run ⟨0, chain.tokens⟩ := by
  obtain ⟨more, rfl⟩ := Nat.exists_eq_add_of_le' (Nat.le_trans (Nat.le_add_left 3 _) hdepth)
  exact ⟨more, Nat.le_of_add_le_add_right hdepth, rfl⟩

theorem run_expression_front (h : ∀ o ∈ chain.front.operands, o.kind ≠ .float) :
    (Parse.expression depth).run (Cursor.ofTokens chain.tokens) =
      .ok chain.front.tree ⟨chain.front.tokens.length, chain.back.flatMap Link.tokens⟩ := by
  obtain ⟨more, hmore, hrun⟩ := chain.exists_run_expression hdepth
  rw [hrun, length_tokens, ← Nat.zero_add (2 * _ + 1)]
  exact run_sum_front hmore h

theorem run_expression_decimal (h : ∃ o ∈ chain.front.operands, o.kind = .float) :
    (Parse.expression depth).run (Cursor.ofTokens chain.tokens) =
      .error decimalFault ⟨chain.beforeDecimal, chain.tokens.drop chain.beforeDecimal⟩ := by
  obtain ⟨more, hmore, hrun⟩ := chain.exists_run_expression hdepth
  have hsum := @run_sum_decimal more 0 _ _ hmore h
  rw [Nat.zero_add] at hsum
  exact hrun.trans hsum

end Expression

/-- Every chain of operands and operators has tokens. All of them are read as one expression exactly
if the operands are no decimal numbers and the operators are pluses. Otherwise the expression ends
before the first other operator, or there is none because of a decimal number in front of it. -/
theorem reads_only_sums (depth : Nat) (hdepth : chain.links.length + 3 ≤ depth) :
    Token.ofSource chain.source = .ok chain.tokens ∧
    ((∃ e c, (Parse.expression depth).run (Cursor.ofTokens chain.tokens) = .ok e c ∧ c.rest = []) ↔
      (∀ o ∈ chain.operands, o.kind ≠ .float) ∧
        ∀ link ∈ chain.links, link.operator.kind = .plus) ∧
    ((∀ o ∈ chain.front.operands, o.kind ≠ .float) →
      (Parse.expression depth).run (Cursor.ofTokens chain.tokens) =
        .ok chain.front.tree ⟨chain.front.tokens.length, chain.back.flatMap Link.tokens⟩) ∧
    ((∃ o ∈ chain.front.operands, o.kind = .float) →
      (Parse.expression depth).run (Cursor.ofTokens chain.tokens) =
        .error decimalFault ⟨chain.beforeDecimal, chain.tokens.drop chain.beforeDecimal⟩) := by
  have hfront := chain.run_expression_front hdepth
  have hdecimal := chain.run_expression_decimal hdepth
  refine ⟨chain.ofSource, ⟨?_, ?_⟩, hfront, hdecimal⟩
  · rintro ⟨e, c, hrun, hrest⟩
    by_cases h : ∃ o ∈ chain.front.operands, o.kind = .float
    · cases hrun.symm.trans (hdecimal h)
    · have hnone : ∀ o ∈ chain.front.operands, o.kind ≠ .float := by
        intro o ho hkind
        exact h ⟨o, ho, hkind⟩
      cases hrun.symm.trans (hfront hnone)
      have hplus := chain.back_eq_nil_iff.mp hrest
      rw [chain.front_eq hplus] at hnone
      exact ⟨hnone, hplus⟩
  · rintro ⟨hnone, hplus⟩
    have hrun := hfront (by rwa [chain.front_eq hplus])
    exact ⟨_, _, hrun, chain.back_eq_nil_iff.mpr hplus⟩

end Chain

/-- A number of one digit. -/
def digit (c : Char) (z : Int) (hc : Text.isDigit c = true)
    (hz : Decimal.readInteger (String.ofList [c]) = .ok z) : Operand where
  lexical := .integer
  chars := [c]
  kind := .number
  value := .int z
  spells := .integer (List.cons_ne_nil c []) (List.forall_mem_singleton.mpr hc)
  reads := by
    intro before
    rw [Lexical.tokens, hz]
    rfl
  isOperand := List.mem_cons_self

/-- A name of one letter. -/
def letter (c : Char) (hc : beginsWord c = true)
    (hword : Token.ofWord (String.ofList [c]) = .plain .identifier (.str (String.ofList [c]))) :
    Operand where
  lexical := .word
  chars := [c]
  kind := .identifier
  value := .str (String.ofList [c])
  spells := .word hc (List.forall_mem_nil _)
  reads := by
    intro before
    rw [Lexical.tokens, hword]
  isOperand := by decide

/-- A sign of arithmetic as a lexeme. -/
def signOf (c : Char) (kind : Token.Kind) (hc : (c, kind) ∈ Token.signs)
    (hkind : kind ∈ [Token.Kind.plus, .minus, .multiply, .divide]) : Operator where
  lexical := .sign kind
  chars := [c]
  kind := kind
  value := .str (String.ofList [c])
  spells := .sign hc
  reads := fun _ => rfl
  isOperator := hkind

/-- The chain `1 + x - 2`. -/
def difference : Chain :=
  ⟨digit '1' 1 (by decide +kernel) (by decide +kernel),
    [⟨0, signOf '+' .plus (by decide) (by decide), 0, letter 'x' (by decide +kernel) (by rfl)⟩,
      ⟨0, signOf '-' .minus (by decide) (by decide), 0,
        digit '2' 2 (by decide +kernel) (by decide +kernel)⟩]⟩

/-- Of `1 + x - 2` the sum is read. -/
theorem Chain.reads_only_sums_difference :
    difference.source = "1 + x - 2" ∧ difference.links.length + 3 ≤ Parse.maxDepth ∧
    (Parse.expression Parse.maxDepth).run (Cursor.ofTokens difference.tokens) =
      .ok (.sum (.number (.int 1) Token.unknown) (.var (.str "x") Token.unknown) Token.unknown)
        ⟨3, [.plain .minus (.str "-"), .plain .number (.int 2)]⟩ := by
  have hdepth : difference.links.length + 3 ≤ Parse.maxDepth := by decide
  have hfront : ∀ o ∈ difference.front.operands, o.kind ≠ .float := by
    change ∀ o ∈ [_, _], _
    rw [List.forall_mem_cons, List.forall_mem_singleton]
    decide
  exact ⟨rfl, hdepth, (difference.reads_only_sums Parse.maxDepth hdepth).2.2.1 hfront⟩

/-- The chain `2 * 3`. -/
def product : Chain :=
  ⟨digit '2' 2 (by decide +kernel) (by decide +kernel),
    [⟨0, signOf '*' .multiply (by decide) (by decide), 0,
      digit '3' 3 (by decide +kernel) (by decide +kernel)⟩]⟩

/-- The node that `2 * 3` would have. -/
def productNode : Value :=
  .record [("type", .str "BinaryExpression"), ("operator", .str "*"),
    ("left", (Expr.number (.int 2) Token.unknown).toNode),
    ("right", (Expr.number (.int 3) Token.unknown).toNode), ("line", Token.unknown)]

/-- A product has tokens and its node can be run, but it is not read as one expression. -/
theorem not_reads_product :
    product.source = "2 * 3" ∧ Token.ofSource product.source = .ok product.tokens ∧
    (Machine.visit Machine.maxDepth productNode).run {} = .ok (.int 6) {} ∧
    ¬ ∃ e c, (Parse.expression Parse.maxDepth).run (Cursor.ofTokens product.tokens) = .ok e c ∧
      c.rest = [] := by
  refine ⟨rfl, product.ofSource, rfl, ?_⟩
  rintro ⟨e, c, hrun, hrest⟩
  have hnumber : (Parse.expression Parse.maxDepth).run (Cursor.ofTokens product.tokens) =
      .ok (.number (.int 2) Token.unknown) ⟨1, product.tokens.drop 1⟩ := rfl
  cases hrun.symm.trans hnumber
  cases hrest

end Scriptlet.Arithmetic
