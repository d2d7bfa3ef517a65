import Scriptlet.Proofs.Accepting
import Scriptlet.Proofs.History

/-! What programs of sources are made of. The tokens of a source are words, texts and natural
numbers, so the names of a program that is read from them are texts, and its literals are texts and
natural numbers. -/
namespace Scriptlet

/-- A value that programs of sources compute with. -/
inductive Value.Plain : Value → Prop
  | null : Plain .null
  | nat (n : Nat) : Plain (.int n)
  | text (s : String) : Plain (.str s)

inductive Expr.Plain : Expr → Prop
  | string (s : String) (line : Value) : Plain (.string (.str s) line)
  | number (n : Nat) (line : Value) : Plain (.number (.int n) line)
  | var (name : String) (line : Value) : Plain (.var (.str name) line)
  | call (name : String) (line : Value) {arguments : List Expr} :
      (∀ e ∈ arguments, e.Plain) → Plain (.call (.str name) arguments line)
  | sum (line : Value) {left right : Expr} :
      left.Plain → right.Plain → Plain (.sum left right line)

inductive Stmt.Plain : Stmt → Prop
  | assign (name : String) (line : Value) {value : Expr} :
      value.Plain → Plain (.assign (.str name) value line)
  | print (newline : Bool) (line : Value) {expression : Expr} :
      expression.Plain → Plain (.print expression newline line)
  | call (name : String) {arguments : List Expr} :
      (∀ e ∈ arguments, e.Plain) → Plain (.call (.str name) arguments)

inductive Decl.Plain : Decl → Prop
  | function (name : String) {params : List Value} {body : List Stmt} :
      (∀ param ∈ params, ∃ s, param = .str s) → (∀ s ∈ body, s.Plain) →
      Plain (.function (.str name) params body)
  | entry {body : List Stmt} : (∀ s ∈ body, s.Plain) → Plain (.entry body)

/-- A program whose names are texts and whose literals are texts and natural numbers. -/
def Program.Plain (program : Program) : Prop :=
  ∀ d ∈ program.body, d.Plain

/-- A token of a source that is no bracket has a value of the type of its kind. -/
theorem Token.Lexed.fits {kind : Token.Kind} {leaf : Leaf kind} (h : leaf.token.Lexed)
    (hkind : kind ∉ Token.brackets.map Prod.snd) : kind.Fits leaf.value := by
  obtain ⟨token, hlabel, hvalue⟩ := leaf
  have hhead := Token.isOf_iff.mp hlabel
  cases h with
  | @plain other value hfits =>
    obtain rfl := Token.Kind.label_injective (Value.str.inj (Option.some.inj hhead))
    exact hfits
  | @placed other c line column hbracket =>
    obtain rfl := Token.Kind.label_injective (Value.str.inj (Option.some.inj hhead))
    exact absurd (Scanner.mem_kinds_of_lookup hbracket) hkind

theorem Token.Lexed.identifier {leaf : Leaf .identifier} (h : leaf.token.Lexed) :
    ∃ text, leaf.value = .str text :=
  h.fits (by decide)

namespace Derivation

mutual

theorem Expression.plain :
    ∀ e : Expression, (∀ t ∈ e.tokens, t.Lexed) → e.tree.Plain
  | .operand only, h => by
    rw [Expression.tree]
    exact only.plain fun t ht => h t (by rwa [Expression.tokens])
  | .sum left plus right, h => by
    rw [Expression.tree]
    refine .sum _ (left.plain fun t ht => h t ?_) (right.plain fun t ht => h t ?_)
    · rw [Expression.tokens]
      exact List.mem_append_left _ ht
    · rw [Expression.tokens]
      exact List.mem_append_right _ (List.mem_cons_of_mem _ ht)

theorem Operand.plain :
    ∀ o : Operand, (∀ t ∈ o.tokens, t.Lexed) → o.tree.Plain
  | .paren opening inner closing, h => by
    rw [Operand.tree]
    refine inner.plain fun t ht => h t ?_
    rw [Operand.tokens]
    exact List.mem_cons_of_mem _ (List.mem_append_left _ ht)
  | .string leaf, h => by
    obtain ⟨s, hs⟩ := (h leaf.token (by simp [Operand.tokens])).fits (by decide)
    rw [Operand.tree, hs]
    exact .string s _
  | .number leaf, h => by
    obtain ⟨n, hn⟩ := (h leaf.token (by simp [Operand.tokens])).fits (by decide)
    rw [Operand.tree, hn]
    exact .number n _
  | .var leaf, h => by
    obtain ⟨name, hname⟩ := (h leaf.token (by simp [Operand.tokens])).identifier
    rw [Operand.tree, hname]
    exact .var name _
  | .call leaf arguments, h => by
    obtain ⟨name, hname⟩ := (h leaf.token (by simp [Operand.tokens])).identifier
    rw [Operand.tree, hname]
    refine .call name _ (Expression.plainOfEnclosed arguments fun t ht => h t ?_)
    rw [Operand.tokens]
    exact List.mem_cons_of_mem _ ht

theorem Expression.plainOfEnclosed :
    ∀ arguments : Enclosed Expression, (∀ t ∈ Expression.tokensOfEnclosed arguments, t.Lexed) →
      ∀ e ∈ Expression.treesOfEnclosed arguments, e.Plain
  | .empty opening closing, _ => by
    rw [Expression.treesOfEnclosed]
    exact fun e he => nomatch he
  | .items opening first others closing, h => by
    rw [Expression.tokensOfEnclosed] at h
    rw [Expression.treesOfEnclosed]
    intro e he
    rcases List.mem_cons.mp he with rfl | he
    · exact first.plain fun t ht => h t (List.mem_cons_of_mem _ (List.mem_append_left _ ht))
    · refine Expression.plainOfOthers others (fun t ht => h t ?_) e he
      exact List.mem_cons_of_mem _ (List.mem_append_right _ (List.mem_append_left _ ht))

theorem Expression.plainOfOthers :
    ∀ others : List (Leaf .comma × Expression), (∀ t ∈ Expression.tokensOfOthers others, t.Lexed) →
      ∀ e ∈ Expression.treesOfOthers others, e.Plain
  | [], _ => by
    rw [Expression.treesOfOthers]
    exact fun e he => nomatch he
  | (comma, item) :: rest, h => by
    rw [Expression.tokensOfOthers] at h
    rw [Expression.treesOfOthers]
    intro e he
    rcases List.mem_cons.mp he with rfl | he
    · exact item.plain fun t ht => h t (List.mem_cons_of_mem _ (List.mem_append_left _ ht))
    · refine Expression.plainOfOthers rest (fun t ht => h t ?_) e he
      exact List.mem_cons_of_mem _ (List.mem_append_right _ ht)

end

theorem Printed.plain (p : Printed) (h : ∀ t ∈ p.tokens, t.Lexed) : p.tree.Plain := by
  cases p with
  | enclosed opening inner closing =>
    exact inner.plain fun t ht => h t (List.mem_cons_of_mem _ (List.mem_append_left _ ht))
  | bare inner _ => exact inner.plain h

theorem Statement.plain (s : Statement) (h : ∀ t ∈ s.tokens, t.Lexed) : s.tree.Plain := by
  cases s with
  | print keyword printed semicolon =>
    exact .print _ _ (printed.plain fun t ht =>
      h t (List.mem_cons_of_mem _ (List.mem_append_left _ ht)))
  | println keyword printed semicolon =>
    exact .print _ _ (printed.plain fun t ht =>
      h t (List.mem_cons_of_mem _ (List.mem_append_left _ ht)))
  | call keyword leaf arguments semicolon =>
    obtain ⟨name, hname⟩ := (h leaf.token (by simp [Statement.tokens])).identifier
    rw [Statement.tree, hname]
    refine .call name ?_
    cases arguments with
    | none =>
      intro e he
      cases he
    | some arguments =>
      rw [Optional.values, Option.elim_some, ← Expression.treesOfEnclosed_eq]
      refine Expression.plainOfEnclosed arguments fun t ht => h t ?_
      rw [Expression.tokensOfEnclosed_eq] at ht
      exact List.mem_cons_of_mem _ (List.mem_cons_of_mem _ (List.mem_append_left _ ht))
  | assign keyword leaf sign value semicolon =>
    obtain ⟨name, hname⟩ := (h leaf.token (by simp [Statement.tokens])).identifier
    rw [Statement.tree, hname]
    refine .assign name _ (value.plain fun t ht => h t ?_)
    simp [Statement.tokens, ht]

theorem Block.plain (b : Block) (h : ∀ t ∈ b.tokens, t.Lexed) : ∀ s ∈ b.trees, s.Plain := by
  intro s hs
  obtain ⟨statement, hstatement, rfl⟩ := List.mem_map.mp hs
  refine statement.plain fun t ht => h t ?_
  exact List.mem_cons_of_mem _ (List.mem_append_left _ (List.mem_flatMap.mpr ⟨_, hstatement, ht⟩))

theorem Optional.texts (params : Optional (Leaf .identifier))
    (h : ∀ t ∈ params.tokens fun leaf => [leaf.token], t.Lexed) :
    ∀ param ∈ params.values Leaf.value, ∃ s, param = .str s := by
  intro param hparam
  cases params with
  | none => cases hparam
  | some list =>
    cases list with
    | empty opening closing => cases hparam
    | items opening first others closing =>
      rcases List.mem_cons.mp hparam with rfl | hparam
      · exact (h first.token (by simp [tokens, Enclosed.tokens])).identifier
      · obtain ⟨⟨comma, leaf⟩, hentry, rfl⟩ := List.mem_map.mp hparam
        have hmem : leaf.token ∈ others.flatMap (further fun leaf => [leaf.token]) :=
          List.mem_flatMap.mpr ⟨_, hentry, by simp [further]⟩
        exact (h leaf.token (by simp [tokens, Enclosed.tokens, hmem])).identifier

theorem Declaration.plain (d : Declaration) (h : ∀ t ∈ d.tokens, t.Lexed) : d.tree.Plain := by
  cases d with
  | entry keyword body => exact .entry (body.plain fun t ht => h t (List.mem_cons_of_mem _ ht))
  | function keyword colon leaf params body =>
    obtain ⟨name, hname⟩ := (h leaf.token (by simp [Declaration.tokens])).identifier
    rw [Declaration.tree, hname]
    refine .function name (params.texts fun t ht => h t ?_) (body.plain fun t ht => h t ?_)
    · simp [Declaration.tokens, ht]
    · simp [Declaration.tokens, ht]

end Derivation

/-- A program that is read from tokens of sources is plain, wherever the cursor stands. -/
theorem Program.plain_of_run {depth : Nat} {c d : Cursor} {program : Program}
    (hlexed : ∀ t ∈ c.rest, t.Lexed) (h : (Parse.program depth).run c = .ok program d) :
    program.Plain := by
  rw [Parse.program, run_get_bind] at h
  obtain ⟨body, u, hbody, h⟩ := run_bind_ok_iff.mp h
  obtain ⟨rfl, -⟩ := run_pure_ok_iff.mp h
  obtain ⟨position, tokens⟩ := c
  have hvalued : Parse.Valued tokens := fun t ht => (hlexed t ht).hasValue
  obtain ⟨ds, rest, rfl, rfl, -, -⟩ := Parse.collectWhile_sound
    (fun _ _ _ _ hv _ hd => Parse.declaration_sound depth hv hd) _ hvalued hbody
  intro decl hdecl
  obtain ⟨declaration, hmem, rfl⟩ := List.mem_map.mp hdecl
  refine declaration.plain fun t ht => hlexed t ?_
  exact List.mem_append_left _ (List.mem_flatMap.mpr ⟨_, hmem, ht⟩)

theorem Program.plain_of_ofTokens {depth : Nat} {tokens : List Token} {program : Program}
    (hlexed : ∀ t ∈ tokens, t.Lexed) (h : Program.ofTokens depth tokens = .ok program) :
    program.Plain := by
  rw [Program.ofTokens] at h
  split at h
  · next hrun =>
    obtain rfl := Except.ok.inj h
    exact plain_of_run hlexed hrun
  · cases h

end Scriptlet
