import Scriptlet.Proofs.Accepting
import Scriptlet.Token.Scanner
import Scriptlet.Vocabulary

/-! Brackets of programs. Every phrase of the grammar has nested brackets, and nested brackets
leave open what was open in front of them, so the check of brackets passes whatever the grammar
accepts. -/
namespace Scriptlet

/-- The kind of a closing bracket belongs to the kind of an opening one. -/
inductive Token.Kind.Closes : Token.Kind → Token.Kind → Prop
  | paren : Closes .rightParen .leftParen
  | brace : Closes .rightBrace .leftBrace

/-- Whether the token is a bracket. -/
def Token.isBracket (token : Token) : Bool :=
  Token.brackets.any fun entry => token.isOf entry.2

theorem Leaf.isBracket_token {k : Token.Kind} (leaf : Leaf k)
    (hk : k ∉ Token.brackets.map Prod.snd) : leaf.token.isBracket = false := by
  refine List.any_eq_false.mpr fun entry hentry => ?_
  rw [leaf.isOf_token, decide_eq_true_iff]
  rintro rfl
  exact hk (List.mem_map_of_mem hentry)

/-- Tokens in which every bracket has its counterpart, with nested tokens between the two. -/
inductive Nested : List Token → Prop
  | nil : Nested []
  | other {t : Token} {rest : List Token} :
      t.isBracket = false → Nested rest → Nested (t :: rest)
  | pair {k l : Token.Kind} {opening closing : Token} {inner rest : List Token} :
      l.Closes k → opening.isOf k = true → closing.isOf l = true → Nested inner → Nested rest →
      Nested (opening :: (inner ++ closing :: rest))

namespace Vocabulary

variable {t : Token} {k l : Token.Kind}

theorem afterToken_other (h : t.isBracket = false) (opened : Open) :
    afterToken opened t = some opened := by
  have hkinds : ∀ entry ∈ Token.brackets, ¬ t.isOf entry.2 = true := List.any_eq_false.mp h
  unfold afterToken
  rw [if_neg (hkinds ('(', .leftParen) (by decide)), if_neg (hkinds (')', .rightParen) (by decide)),
    if_neg (hkinds ('\x7b', .leftBrace) (by decide)),
    if_neg (hkinds ('\x7d', .rightBrace) (by decide))]

theorem afterToken_opening (hkinds : l.Closes k) (h : t.isOf k = true) (opened : Open) :
    afterToken opened t = some (k :: opened) := by
  unfold afterToken
  cases hkinds <;> simp [Token.isOf_eq_decide h]

theorem afterToken_closing (hkinds : l.Closes k) (h : t.isOf l = true) (opened : Open) :
    afterToken (k :: opened) t = some opened := by
  unfold afterToken
  cases hkinds <;> simp [Token.isOf_eq_decide h, close]

theorem balancedFrom_cons {opened opened' : Open} (hpair : t.fields.length = 2)
    (h : afterToken opened t = some opened') (rest : List Token) :
    balancedFrom opened (t :: rest) = balancedFrom opened' rest := by
  rw [balancedFrom, if_pos hpair, h]

/-- Behind nested tokens the same brackets are open as in front of them. -/
theorem balancedFrom_nested {ts : List Token} (h : Nested ts)
    (hpairs : ∀ t ∈ ts, t.fields.length = 2) (opened : Open) (rest : List Token) :
    balancedFrom opened (ts ++ rest) = balancedFrom opened rest := by
  induction h generalizing opened rest with
  | nil => rfl
  | @other t ts ht _ ih =>
    obtain ⟨hpair, hpairs⟩ := List.forall_mem_cons.mp hpairs
    rw [List.cons_append, balancedFrom_cons hpair (afterToken_other ht opened)]
    exact ih hpairs opened rest
  | @pair k l opening closing inner ts hkinds hopening hclosing _ _ ihInner ihRest =>
    obtain ⟨hfirst, hpairs⟩ := List.forall_mem_cons.mp hpairs
    obtain ⟨hinner, hpairs⟩ := List.forall_mem_append.mp hpairs
    obtain ⟨hlast, hpairs⟩ := List.forall_mem_cons.mp hpairs
    calc balancedFrom opened (opening :: (inner ++ closing :: ts) ++ rest)
        = balancedFrom (k :: opened) (inner ++ closing :: (ts ++ rest)) := by
          rw [List.cons_append, List.append_assoc, List.cons_append,
            balancedFrom_cons hfirst (afterToken_opening hkinds hopening opened)]
      _ = balancedFrom (k :: opened) (closing :: (ts ++ rest)) := ihInner hinner _ _
      _ = balancedFrom opened (ts ++ rest) :=
          balancedFrom_cons hlast (afterToken_closing hkinds hclosing opened) _
      _ = balancedFrom opened rest := ihRest hpairs opened rest

end Vocabulary

namespace Nested

variable {k l : Token.Kind} {δ : Type}

theorem append {ts us : List Token} (h : Nested ts) (hus : Nested us) : Nested (ts ++ us) := by
  induction h with
  | nil => exact hus
  | other ht _ ih => exact .other ht ih
  | pair hkinds hopening hclosing hinner _ _ ih =>
    rw [List.cons_append, List.append_assoc, List.cons_append]
    exact .pair hkinds hopening hclosing hinner ih

/-- A leaf that is no bracket, before nested tokens. -/
theorem leaf (leaf : Leaf k) {rest : List Token} (h : Nested rest)
    (hk : k ∉ Token.brackets.map Prod.snd := by decide) : Nested (leaf.token :: rest) :=
  .other (leaf.isBracket_token hk) h

/-- Nested tokens between brackets that belong together. -/
theorem between (hkinds : l.Closes k) (opening : Leaf k) (closing : Leaf l) {inner : List Token}
    (h : Nested inner) : Nested (opening.token :: (inner ++ [closing.token])) :=
  .pair hkinds opening.isKind closing.isKind h .nil

theorem flatMap {ds : List δ} {tokens : δ → List Token} (h : ∀ d ∈ ds, Nested (tokens d)) :
    Nested (ds.flatMap tokens) := by
  induction ds with
  | nil => exact .nil
  | cons d ds ih =>
    obtain ⟨hd, hds⟩ := List.forall_mem_cons.mp h
    rw [List.flatMap_cons]
    exact hd.append (ih hds)

end Nested

namespace Derivation

variable {δ : Type}

theorem Enclosed.nested {tokens : δ → List Token} (h : ∀ d, Nested (tokens d)) (e : Enclosed δ) :
    Nested (e.tokens tokens) := by
  cases e with
  | empty opening closing => exact .between .paren opening closing .nil
  | items opening first others closing =>
    rw [Enclosed.tokens, ← List.append_assoc]
    refine .between .paren opening closing ((h first).append (.flatMap fun entry _ => ?_))
    exact .leaf entry.1 (h entry.2)

theorem Optional.nested {tokens : δ → List Token} (h : ∀ d, Nested (tokens d))
    (list : Optional δ) : Nested (list.tokens tokens) := by
  cases list with
  | none => exact .nil
  | some e => exact e.nested h

mutual

theorem Expression.nested : ∀ e : Expression, Nested e.tokens
  | .operand only => by
    rw [Expression.tokens]
    exact only.nested
  | .sum left plus right => by
    rw [Expression.tokens]
    exact left.nested.append (.leaf plus right.nested)

theorem Operand.nested : ∀ o : Operand, Nested o.tokens
  | .paren opening inner closing => by
    rw [Operand.tokens]
    exact .between .paren opening closing inner.nested
  | .string leaf => .leaf leaf .nil
  | .number leaf => .leaf leaf .nil
  | .var leaf => .leaf leaf .nil
  | .call name arguments => by
    rw [Operand.tokens]
    exact .leaf name (Expression.nestedOfEnclosed arguments)

theorem Expression.nestedOfEnclosed :
    ∀ arguments : Enclosed Expression, Nested (Expression.tokensOfEnclosed arguments)
  | .empty opening closing => .between .paren opening closing .nil
  | .items opening first others closing => by
    rw [Expression.tokensOfEnclosed, ← List.append_assoc]
    exact .between .paren opening closing (first.nested.append (Expression.nestedOfOthers others))

theorem Expression.nestedOfOthers :
    ∀ others : List (Leaf .comma × Expression), Nested (Expression.tokensOfOthers others)
  | [] => .nil
  | (comma, item) :: rest => by
    rw [Expression.tokensOfOthers]
    exact .leaf comma (item.nested.append (Expression.nestedOfOthers rest))

end

theorem Printed.nested (p : Printed) : Nested p.tokens := by
  cases p with
  | enclosed opening inner closing => exact .between .paren opening closing inner.nested
  | bare inner _ => exact inner.nested

theorem Statement.nested (s : Statement) : Nested s.tokens := by
  cases s with
  | print keyword printed semicolon =>
    exact .leaf keyword (printed.nested.append (.leaf semicolon .nil))
  | println keyword printed semicolon =>
    exact .leaf keyword (printed.nested.append (.leaf semicolon .nil))
  | call keyword name arguments semicolon =>
    have harguments := Optional.nested Expression.nested arguments
    exact .leaf keyword (.leaf name (harguments.append (.leaf semicolon .nil)))
  | assign keyword name sign value semicolon =>
    exact .leaf keyword (.leaf name (.leaf sign (value.nested.append (.leaf semicolon .nil))))

theorem Block.nested (b : Block) : Nested b.tokens :=
  .between .brace b.opening b.closing (.flatMap fun s _ => s.nested)

theorem Declaration.nested (d : Declaration) : Nested d.tokens := by
  cases d with
  | function keyword colon name params body =>
    have hparams := Optional.nested (fun leaf : Leaf .identifier => .leaf leaf .nil) params
    exact .leaf keyword (.leaf colon (.leaf name (hparams.append body.nested)))
  | entry keyword body => exact .leaf keyword body.nested

/-- The brackets of every derivation are nested. -/
theorem nested (d : Derivation) : Nested d.tokens :=
  .flatMap fun declaration _ => declaration.nested

end Derivation

namespace Vocabulary

/-- Pairs that the grammar accepts pass the check of brackets. -/
theorem balanced_of_parse (tokens : List Token) (hpairs : ∀ t ∈ tokens, t.fields.length = 2)
    (depth : Nat) (program : Program) (c : Cursor)
    (h : (Parse.parse depth []).run (Cursor.ofTokens tokens) = .ok program c) :
    balanced tokens = .ok true := by
  have hvalued : Parse.Valued tokens := fun t ht => Nat.le_of_eq (hpairs t ht).symm
  obtain ⟨-, d, rfl, -⟩ := Parse.program_sound hvalued h
  have hbrackets := balancedFrom_nested d.nested hpairs [] []
  rw [List.append_nil] at hbrackets
  exact hbrackets

/-- The pairs of `func: f(a, b) { print (a + g((1), b)); } enter { call f(); }`. -/
def nestedCalls : List Token :=
  [.plain .func (.str "func"), .plain .colon (.str ":"), .plain .identifier (.str "f"),
   .plain .leftParen (.str "("), .plain .identifier (.str "a"), .plain .comma (.str ","),
   .plain .identifier (.str "b"), .plain .rightParen (.str ")"),
   .plain .leftBrace (.str "\x7b"), .plain .print (.str "print"), .plain .leftParen (.str "("),
   .plain .identifier (.str "a"), .plain .plus (.str "+"), .plain .identifier (.str "g"),
   .plain .leftParen (.str "("), .plain .leftParen (.str "("), .plain .number (.int 1),
   .plain .rightParen (.str ")"), .plain .comma (.str ","), .plain .identifier (.str "b"),
   .plain .rightParen (.str ")"), .plain .rightParen (.str ")"), .plain .semicolon (.str ";"),
   .plain .rightBrace (.str "\x7d"), .plain .enter (.str "enter"),
   .plain .leftBrace (.str "\x7b"), .plain .call (.str "call"), .plain .identifier (.str "f"),
   .plain .leftParen (.str "("), .plain .rightParen (.str ")"), .plain .semicolon (.str ";"),
   .plain .rightBrace (.str "\x7d")]

theorem balanced_of_parse_nestedCalls :
    (∀ t ∈ nestedCalls, t.fields.length = 2) ∧
      (∃ program c,
        (Parse.parse 40 []).run (Cursor.ofTokens nestedCalls) = .ok program c) ∧
      balanced nestedCalls = .ok true := by
  have hpairs : ∀ t ∈ nestedCalls, t.fields.length = 2 := by decide
  have hparse : (Parse.parse 40 []).run (Cursor.ofTokens nestedCalls) = .ok _ _ := rfl
  exact ⟨hpairs, ⟨_, _, hparse⟩, balanced_of_parse nestedCalls hpairs 40 _ _ hparse⟩

end Vocabulary

end Scriptlet
