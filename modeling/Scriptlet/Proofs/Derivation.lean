import Scriptlet.Token
import Scriptlet.Tree

/-! Derivations of the grammar, as trees whose leaves are tokens. A derivation has the tokens that
stand at its leaves, and a syntax tree is read off it. -/
namespace Scriptlet

theorem Name.floatKey?_ne_text (x : Float) (s : String) : Name.floatKey? x ≠ some (.text s) := by
  unfold Name.floatKey?
  split
  · next parts _ => cases parts.integer? <;> simp
  · split <;> simp

/-- Only an equal text is the same value as a text. -/
theorem Value.str_same_iff {s : String} {v : Value} : (Value.str s).same v = true ↔ v = .str s := by
  cases v with
  | float x =>
    have hx := Name.floatKey?_ne_text x s
    simp only [same, Name.ofValue, Name.same, Name.key?]
    cases hk : Name.floatKey? x with
    | none => simp
    | some k => simp_all [eq_comm]
  | _ => simp [same, Name.ofValue, Name.same, Name.key?, eq_comm]

theorem Token.Kind.label_injective {k l : Token.Kind} (h : k.label = l.label) : k = l := by
  cases k <;> cases l <;> first | rfl | simp [label] at h

theorem Token.isOf_iff {kind : Token.Kind} {token : Token} :
    token.isOf kind = true ↔ token.fields.head? = some (.str kind.label) := by
  unfold isOf hasLabel
  cases token.fields with
  | nil => simp
  | cons v rest => simp [Value.str_same_iff]

theorem Token.isOf_plain (kind : Token.Kind) (value : Value) :
    (Token.plain kind value).isOf kind = true :=
  Token.isOf_iff.mpr rfl

theorem Token.two_le_length_plain (kind : Token.Kind) (value : Value) :
    2 ≤ (Token.plain kind value).fields.length :=
  Nat.le_refl 2

/-- A token is of one kind at most. -/
theorem Token.isOf_eq_decide {k : Token.Kind} {token : Token} (h : token.isOf k = true)
    (l : Token.Kind) : token.isOf l = decide (k = l) := by
  rw [Bool.eq_iff_iff, Token.isOf_iff, Token.isOf_iff.mp h, decide_eq_true_iff]
  constructor
  · intro e
    exact Token.Kind.label_injective (by simpa using e)
  · rintro rfl
    rfl

/-- A leaf of a derivation: a token of the kind that the grammar asks for, with a value. -/
@[ext] structure Leaf (kind : Token.Kind) where
  token : Token
  isKind : token.isOf kind = true
  hasValue : 2 ≤ token.fields.length

namespace Leaf

variable {k l : Token.Kind}

/-- The second field of the token. -/
def value (leaf : Leaf k) : Value :=
  leaf.token.fields.get ⟨1, leaf.hasValue⟩

/-- The third field of the token, where there is one. -/
def line (leaf : Leaf k) : Value :=
  leaf.token.fields[2]?.getD (.str "unknown")

/-- A leaf whose token does not know where it stands. -/
def unplaced (kind : Token.Kind) (value : Value) : Leaf kind :=
  ⟨.plain kind value, Token.isOf_plain kind value, Token.two_le_length_plain kind value⟩

@[simp] theorem isOf_token (leaf : Leaf k) (l : Token.Kind) :
    leaf.token.isOf l = decide (k = l) :=
  Token.isOf_eq_decide leaf.isKind l

theorem value_token (leaf : Leaf k) : leaf.token.value = .ok leaf.value := by
  obtain ⟨⟨fields⟩, hk, hv⟩ := leaf
  match fields, hv with
  | _ :: _ :: _, _ => rfl

theorem line_token (leaf : Leaf k) : leaf.token.line = leaf.line := by
  obtain ⟨⟨fields⟩, hk, hv⟩ := leaf
  match fields, hv with
  | [_, _], _ => rfl
  | _ :: _ :: _ :: _, _ => rfl

theorem kind_eq {a : Leaf k} {b : Leaf l} (h : a.token = b.token) : k = l := by
  have hb := a.isOf_token l
  rw [h, b.isKind] at hb
  exact of_decide_eq_true hb.symm

theorem cons_inj {a b : Leaf k} {r₁ r₂ : List Token} (h : a.token :: r₁ = b.token :: r₂) :
    a = b ∧ r₁ = r₂ :=
  ⟨Leaf.ext (List.cons.inj h).1, (List.cons.inj h).2⟩

end Leaf

namespace Derivation

/-- `LPAREN [item (COMMA item)*] RPAREN`. -/
inductive Enclosed (δ : Type) where
  | empty (opening : Leaf .leftParen) (closing : Leaf .rightParen)
  | items (opening : Leaf .leftParen) (first : δ) (others : List (Leaf .comma × δ))
      (closing : Leaf .rightParen)

mutual

/-- `Expr = Primary [PLUS Expr]`. -/
inductive Expression where
  | operand (only : Operand)
  | sum (left : Operand) (plus : Leaf .plus) (right : Expression)

/-- `Primary = LPAREN Expr RPAREN | STRING | NUMBER | IDENTIFIER [arguments]`. -/
inductive Operand where
  | paren (opening : Leaf .leftParen) (inner : Expression) (closing : Leaf .rightParen)
  | string (leaf : Leaf .string)
  | number (leaf : Leaf .number)
  | var (leaf : Leaf .identifier)
  | call (name : Leaf .identifier) (arguments : Enclosed Expression)

end

mutual

/-- The tokens of an expression, in order. -/
def Expression.tokens : Expression → List Token
  | .operand only => only.tokens
  | .sum left plus right => left.tokens ++ plus.token :: right.tokens

def Operand.tokens : Operand → List Token
  | .paren opening inner closing => opening.token :: (inner.tokens ++ [closing.token])
  | .string leaf => [leaf.token]
  | .number leaf => [leaf.token]
  | .var leaf => [leaf.token]
  | .call name arguments => name.token :: Expression.tokensOfEnclosed arguments

def Expression.tokensOfEnclosed : Enclosed Expression → List Token
  | .empty opening closing => [opening.token, closing.token]
  | .items opening first others closing =>
    opening.token :: (first.tokens ++ (Expression.tokensOfOthers others ++ [closing.token]))

def Expression.tokensOfOthers : List (Leaf .comma × Expression) → List Token
  | [] => []
  | (comma, item) :: rest => comma.token :: (item.tokens ++ Expression.tokensOfOthers rest)

end

mutual

/-- The syntax tree of an expression: sums nest to the right, and parentheses leave no node. -/
def Expression.tree : Expression → Expr
  | .operand only => only.tree
  | .sum left plus right => .sum left.tree right.tree plus.line

def Operand.tree : Operand → Expr
  | .paren _ inner _ => inner.tree
  | .string leaf => .string leaf.value leaf.line
  | .number leaf => .number leaf.value leaf.line
  | .var leaf => .var leaf.value leaf.line
  | .call name arguments => .call name.value (Expression.treesOfEnclosed arguments) name.line

def Expression.treesOfEnclosed : Enclosed Expression → List Expr
  | .empty _ _ => []
  | .items _ first others _ => first.tree :: Expression.treesOfOthers others

def Expression.treesOfOthers : List (Leaf .comma × Expression) → List Expr
  | [] => []
  | (_, item) :: rest => item.tree :: Expression.treesOfOthers rest

end

/-- The tokens of a comma and the item behind it. -/
def further {δ : Type} (tokens : δ → List Token) (entry : Leaf .comma × δ) : List Token :=
  entry.1.token :: tokens entry.2

namespace Enclosed

variable {δ α : Type}

/-- The tokens of a list in parentheses, from those of its items. -/
def tokens (itemTokens : δ → List Token) : Enclosed δ → List Token
  | .empty opening closing => [opening.token, closing.token]
  | .items opening first others closing =>
    opening.token :: (itemTokens first ++ (others.flatMap (further itemTokens) ++ [closing.token]))

/-- What is read off the items of a list in parentheses. -/
def values (value : δ → α) : Enclosed δ → List α
  | .empty _ _ => []
  | .items _ first others _ => value first :: others.map fun entry => value entry.2

end Enclosed

theorem Expression.tokensOfOthers_eq (others : List (Leaf .comma × Expression)) :
    Expression.tokensOfOthers others = others.flatMap (further Expression.tokens) := by
  induction others with
  | nil => simp only [tokensOfOthers, List.flatMap_nil]
  | cons entry rest ih =>
    simp only [tokensOfOthers, List.flatMap_cons, further, ih, List.cons_append]

theorem Expression.tokensOfEnclosed_eq (arguments : Enclosed Expression) :
    Expression.tokensOfEnclosed arguments = arguments.tokens Expression.tokens := by
  cases arguments with
  | empty opening closing => simp only [tokensOfEnclosed, Enclosed.tokens]
  | items opening first others closing =>
    simp only [tokensOfEnclosed, Enclosed.tokens, tokensOfOthers_eq]

theorem Expression.treesOfOthers_eq (others : List (Leaf .comma × Expression)) :
    Expression.treesOfOthers others = others.map fun entry => entry.2.tree := by
  induction others with
  | nil => simp only [treesOfOthers, List.map_nil]
  | cons entry rest ih => simp only [treesOfOthers, List.map_cons, ih]

theorem Expression.treesOfEnclosed_eq (arguments : Enclosed Expression) :
    Expression.treesOfEnclosed arguments = arguments.values Expression.tree := by
  cases arguments with
  | empty opening closing => simp only [treesOfEnclosed, Enclosed.values]
  | items opening first others closing =>
    simp only [treesOfEnclosed, Enclosed.values, treesOfOthers_eq]

/-- What a print statement prints: `LPAREN Expr RPAREN`, or an expression that does not begin with
an opening parenthesis. -/
inductive Printed where
  | enclosed (opening : Leaf .leftParen) (inner : Expression) (closing : Leaf .rightParen)
  | bare (inner : Expression) (plain : ∀ t ∈ inner.tokens.head?, t.isOf .leftParen = false)

namespace Printed

def tokens : Printed → List Token
  | enclosed opening inner closing => opening.token :: (inner.tokens ++ [closing.token])
  | bare inner _ => inner.tokens

def tree : Printed → Expr
  | enclosed _ inner _ => inner.tree
  | bare inner _ => inner.tree

end Printed

/-- A list in parentheses, or nothing at all. -/
abbrev Optional (δ : Type) := Option (Enclosed δ)

namespace Optional

variable {δ α : Type}

def tokens (itemTokens : δ → List Token) (list : Optional δ) : List Token :=
  list.elim [] (Enclosed.tokens itemTokens)

def values (value : δ → α) (list : Optional δ) : List α :=
  list.elim [] (Enclosed.values value)

end Optional

/-- A statement. -/
inductive Statement where
  | print (keyword : Leaf .print) (printed : Printed) (semicolon : Leaf .semicolon)
  | println (keyword : Leaf .println) (printed : Printed) (semicolon : Leaf .semicolon)
  | call (keyword : Leaf .call) (name : Leaf .identifier) (arguments : Optional Expression)
      (semicolon : Leaf .semicolon)
  | assign (keyword : Leaf .assign) (name : Leaf .identifier) (sign : Leaf .assign)
      (value : Expression) (semicolon : Leaf .semicolon)

namespace Statement

def tokens : Statement → List Token
  | print keyword printed semicolon => keyword.token :: (printed.tokens ++ [semicolon.token])
  | println keyword printed semicolon => keyword.token :: (printed.tokens ++ [semicolon.token])
  | call keyword name arguments semicolon =>
    keyword.token :: name.token :: (arguments.tokens Expression.tokens ++ [semicolon.token])
  | assign keyword name sign value semicolon =>
    keyword.token :: name.token :: sign.token :: (value.tokens ++ [semicolon.token])

def tree : Statement → Stmt
  | print keyword printed _ => .print printed.tree false keyword.line
  | println keyword printed _ => .print printed.tree true keyword.line
  | call _ name arguments _ => .call name.value (arguments.values Expression.tree)
  | assign keyword name _ value _ => .assign name.value value.tree keyword.line

end Statement

/-- `Block = LBRACE Stmt* RBRACE`. -/
structure Block where
  opening : Leaf .leftBrace
  body : List Statement
  closing : Leaf .rightBrace

namespace Block

def tokens (block : Block) : List Token :=
  block.opening.token :: (block.body.flatMap Statement.tokens ++ [block.closing.token])

def trees (block : Block) : List Stmt :=
  block.body.map Statement.tree

end Block

/-- A function declaration or an entry block. -/
inductive Declaration where
  | function (keyword : Leaf .func) (colon : Leaf .colon) (name : Leaf .identifier)
      (params : Optional (Leaf .identifier)) (body : Block)
  | entry (keyword : Leaf .enter) (body : Block)

namespace Declaration

def tokens : Declaration → List Token
  | function keyword colon name params body =>
    keyword.token :: colon.token :: name.token ::
      (params.tokens (fun leaf => [leaf.token]) ++ body.tokens)
  | entry keyword body => keyword.token :: body.tokens

def tree : Declaration → Decl
  | function _ _ name params body => .function name.value (params.values Leaf.value) body.trees
  | entry _ body => .entry body.trees

end Declaration

end Derivation

/-- A derivation of a whole program: any number of declarations. -/
structure Derivation where
  declarations : List Derivation.Declaration

namespace Derivation

def tokens (d : Derivation) : List Token :=
  d.declarations.flatMap Declaration.tokens

/-- The program that is read off a derivation. -/
def program (d : Derivation) : Program :=
  ⟨d.declarations.map Declaration.tree⟩

end Derivation
end Scriptlet
