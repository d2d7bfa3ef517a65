import Scriptlet.Proofs.Derivation

/-! No two derivations have the same tokens. A phrase is found again from any list of tokens that
it begins, as long as what follows cannot go on with it: an expression is not followed by a plus,
and an operand is not followed by an opening parenthesis. -/
namespace Scriptlet.Derivation

variable {δ : Type} {k l : Token.Kind}

/-- The first of the tokens, if there is one, is not of the kind. -/
def Avoids (kind : Token.Kind) (rest : List Token) : Prop :=
  ∀ t ∈ rest.head?, t.isOf kind = false

@[simp] theorem avoids_nil (kind : Token.Kind) : Avoids kind [] := by simp [Avoids]

@[simp] theorem avoids_leaf (leaf : Leaf k) (rest : List Token) :
    Avoids l (leaf.token :: rest) ↔ k ≠ l := by simp [Avoids]

/-- Neither a plus nor an opening parenthesis follows. -/
def Ends (rest : List Token) : Prop :=
  Avoids .plus rest ∧ Avoids .leftParen rest

theorem ends_leaf (h : k ≠ .plus ∧ k ≠ .leftParen) (leaf : Leaf k) (rest : List Token) :
    Ends (leaf.token :: rest) := by simpa [Ends] using h

/-- Phrases of at most `bound` tokens are found again from their tokens and those behind them. -/
def Distinct (bound : Nat) (follow : List Token → Prop) (tokens : δ → List Token) : Prop :=
  ∀ d₁ d₂ r₁ r₂, (tokens d₁).length ≤ bound → follow r₁ → follow r₂ →
    tokens d₁ ++ r₁ = tokens d₂ ++ r₂ → d₁ = d₂ ∧ r₁ = r₂

theorem distinct_leaf (bound : Nat) (follow : List Token → Prop) :
    Distinct bound follow fun leaf : Leaf k => [leaf.token] := by
  intro a b r₁ r₂ _ _ _ h
  exact Leaf.cons_inj h

/-- A phrase and the token that closes it are found again together. -/
theorem Distinct.closed {bound : Nat} {follow : List Token → Prop} {tokens : δ → List Token}
    (hd : Distinct bound follow tokens) (hfollow : ∀ (c : Leaf k) r, follow (c.token :: r))
    {d₁ d₂ : δ} {c₁ c₂ : Leaf k} {r₁ r₂ : List Token} (hlen : (tokens d₁).length ≤ bound)
    (h : tokens d₁ ++ c₁.token :: r₁ = tokens d₂ ++ c₂.token :: r₂) :
    d₁ = d₂ ∧ c₁ = c₂ ∧ r₁ = r₂ := by
  obtain ⟨hphrase, hrest⟩ := hd d₁ d₂ _ _ hlen (hfollow c₁ r₁) (hfollow c₂ r₂) h
  exact ⟨hphrase, Leaf.cons_inj hrest⟩

/-- A sequence of phrases is found again if no phrase can begin where it ends. -/
theorem Distinct.flatMap {bound : Nat} {follow : List Token → Prop} {tokens : δ → List Token}
    {starts : Token → Bool} (hd : Distinct bound follow tokens)
    (hstart : ∀ d, ∃ t ts, tokens d = t :: ts ∧ starts t = true)
    (hfollow : ∀ d rest, follow (tokens d ++ rest)) :
    Distinct bound (fun rest => follow rest ∧ ∀ t ∈ rest.head?, starts t = false)
      (List.flatMap tokens) := by
  have hnext : ∀ (ds : List δ) rest, follow rest → follow (ds.flatMap tokens ++ rest) := by
    intro ds rest hrest
    cases ds with
    | nil => exact hrest
    | cons d ds =>
      rw [List.flatMap_cons, List.append_assoc]
      exact hfollow d _
  -- where one sequence has ended the other one cannot go on
  have hend : ∀ d (ds : List δ) rest other, (∀ t ∈ other.head?, starts t = false) →
      (d :: ds).flatMap tokens ++ rest ≠ other := by
    rintro d ds rest other hother rfl
    obtain ⟨t, ts, ht, hs⟩ := hstart d
    have := hother t (by simp [ht])
    simp [hs] at this
  intro ds₁
  induction ds₁ with
  | nil =>
    intro ds₂ r₁ r₂ _ h₁ h₂ h
    cases ds₂ with
    | nil => exact ⟨rfl, h⟩
    | cons d ds => exact absurd h.symm (hend d ds r₂ r₁ h₁.2)
  | cons d ds ih =>
    intro ds₂ r₁ r₂ hlen h₁ h₂ h
    cases ds₂ with
    | nil => exact absurd h (hend d ds r₁ r₂ h₂.2)
    | cons d' ds' =>
      simp only [List.flatMap_cons, List.append_assoc, List.length_append] at h hlen
      obtain ⟨rfl, hrest⟩ := hd d d' _ _ (by omega) (hnext ds r₁ h₁.1) (hnext ds' r₂ h₂.1) h
      obtain ⟨rfl, rfl⟩ := ih ds' r₁ r₂ (by omega) h₁ h₂ hrest
      exact ⟨rfl, rfl⟩

theorem Distinct.further {bound : Nat} {follow : List Token → Prop} {tokens : δ → List Token}
    (hd : Distinct bound follow tokens) : Distinct bound follow (further tokens) := by
  rintro ⟨c₁, d₁⟩ ⟨c₂, d₂⟩ r₁ r₂ hlen h₁ h₂ h
  simp only [Derivation.further, List.length_cons] at hlen
  obtain ⟨rfl, hrest⟩ := Leaf.cons_inj h
  obtain ⟨rfl, rfl⟩ := hd d₁ d₂ r₁ r₂ (by omega) h₁ h₂ hrest
  exact ⟨rfl, rfl⟩

/-- The tokens begin with one that does not close a list. -/
def StartsItem (tokens : List Token) : Prop :=
  ∃ (k : Token.Kind) (leaf : Leaf k) (rest : List Token),
    tokens = leaf.token :: rest ∧ k ≠ .rightParen

theorem startsItem_name (name : Leaf .identifier) : StartsItem [name.token] :=
  ⟨_, name, [], rfl, by decide⟩

/-- A list in parentheses is found again if its items are. -/
theorem Distinct.enclosed {bound : Nat} {tokens : δ → List Token} (hd : Distinct bound Ends tokens)
    (hstart : ∀ d, StartsItem (tokens d)) :
    Distinct (bound + 1) (fun _ => True) (Enclosed.tokens tokens) := by
  have hbegins : ∀ entry : Leaf .comma × δ,
      ∃ t ts, Derivation.further tokens entry = t :: ts ∧ t.isOf .comma = true :=
    fun entry => ⟨_, _, rfl, by simp⟩
  have hothers := hd.further.flatMap hbegins
    (fun entry rest => ends_leaf (by decide) entry.1 _)
  intro e₁ e₂ r₁ r₂ hlen _ _ h
  cases e₁ with
  | empty o₁ c₁ =>
    cases e₂ with
    | empty o₂ c₂ =>
      obtain ⟨rfl, hrest⟩ := Leaf.cons_inj h
      obtain ⟨rfl, rfl⟩ := Leaf.cons_inj hrest
      exact ⟨rfl, rfl⟩
    | items o₂ d₂ ds₂ c₂ =>
      obtain ⟨k, leaf, ts, ht, hk⟩ := hstart d₂
      simp only [Enclosed.tokens, ht, List.cons_append, List.cons.injEq] at h
      exact absurd (Leaf.kind_eq h.2.1).symm hk
  | items o₁ d₁ ds₁ c₁ =>
    cases e₂ with
    | empty o₂ c₂ =>
      obtain ⟨k, leaf, ts, ht, hk⟩ := hstart d₁
      simp only [Enclosed.tokens, ht, List.cons_append, List.cons.injEq] at h
      exact absurd (Leaf.kind_eq h.2.1) hk
    | items o₂ d₂ ds₂ c₂ =>
      have hcomma : ∀ (ds : List (Leaf .comma × δ)) (c : Leaf .rightParen) r,
          Ends (ds.flatMap (Derivation.further tokens) ++ c.token :: r) := by
        intro ds c r
        cases ds with
        | nil => exact ends_leaf (by decide) c r
        | cons entry ds => exact ends_leaf (by decide) entry.1 _
      simp only [Enclosed.tokens, List.cons_append, List.append_assoc, List.nil_append,
        List.length_cons, List.length_append] at h hlen
      obtain ⟨rfl, hitems⟩ := Leaf.cons_inj h
      obtain ⟨rfl, hmore⟩ := hd d₁ d₂ _ _ (by omega) (hcomma ds₁ c₁ r₁) (hcomma ds₂ c₂ r₂) hitems
      obtain ⟨rfl, rfl, rfl⟩ := hothers.closed (fun c r => ⟨hcomma [] c r, by simp⟩) (by omega)
        hmore
      exact ⟨rfl, rfl⟩

theorem Enclosed.not_avoids (e : Enclosed δ) {tokens : δ → List Token} (rest : List Token) :
    ¬ Avoids .leftParen (e.tokens tokens ++ rest) := by
  cases e <;> simp [Enclosed.tokens]

/-- The kind of the first token of an operand. -/
def Operand.firstKind : Operand → Token.Kind
  | .paren .. => .leftParen
  | .string _ => .string
  | .number _ => .number
  | .var _ => .identifier
  | .call .. => .identifier

theorem Operand.begins (o : Operand) :
    ∃ (leaf : Leaf o.firstKind) (ts : List Token), o.tokens = leaf.token :: ts := by
  cases o with
  | paren opening inner closing => exact ⟨opening, _, by rw [Operand.tokens]⟩
  | string leaf => exact ⟨leaf, _, by rw [Operand.tokens]⟩
  | number leaf => exact ⟨leaf, _, by rw [Operand.tokens]⟩
  | var leaf => exact ⟨leaf, _, by rw [Operand.tokens]⟩
  | call name arguments => exact ⟨name, _, by rw [Operand.tokens]⟩

theorem Operand.firstKind_eq {o₁ o₂ : Operand} {r₁ r₂ : List Token}
    (h : o₁.tokens ++ r₁ = o₂.tokens ++ r₂) : o₁.firstKind = o₂.firstKind := by
  obtain ⟨leaf₁, ts₁, h₁⟩ := o₁.begins
  obtain ⟨leaf₂, ts₂, h₂⟩ := o₂.begins
  rw [h₁, h₂] at h
  exact Leaf.kind_eq (List.cons.inj h).1

theorem Expression.begins (e : Expression) : StartsItem e.tokens := by
  have hkind : ∀ o : Operand, o.firstKind ≠ .rightParen := by
    intro o
    cases o <;> simp [Operand.firstKind]
  cases e with
  | operand only =>
    obtain ⟨leaf, ts, h⟩ := only.begins
    exact ⟨_, leaf, ts, by rw [Expression.tokens, h], hkind only⟩
  | sum left plus right =>
    obtain ⟨leaf, ts, h⟩ := left.begins
    exact ⟨_, leaf, _, by rw [Expression.tokens, h, List.cons_append], hkind left⟩

/-- An operand is found again if the expressions inside it are. -/
theorem Operand.distinct {bound : Nat} (he : Distinct bound Ends Expression.tokens) :
    Distinct (bound + 1) (Avoids .leftParen) Operand.tokens := by
  intro o₁ o₂ r₁ r₂ hlen h₁ h₂ h
  have hkind := firstKind_eq h
  cases o₁ with
  | paren a₁ e₁ b₁ =>
    cases o₂ with
    | paren a₂ e₂ b₂ =>
      simp only [Operand.tokens, List.cons_append, List.append_assoc, List.nil_append,
        List.length_cons, List.length_append] at h hlen
      obtain ⟨rfl, hinner⟩ := Leaf.cons_inj h
      obtain ⟨rfl, rfl, rfl⟩ := he.closed (ends_leaf (by decide)) (by omega) hinner
      exact ⟨rfl, rfl⟩
    | _ => cases hkind
  | string a₁ =>
    cases o₂ with
    | string a₂ =>
      simp only [Operand.tokens, List.cons_append, List.nil_append] at h
      obtain ⟨rfl, rfl⟩ := Leaf.cons_inj h
      exact ⟨rfl, rfl⟩
    | _ => cases hkind
  | number a₁ =>
    cases o₂ with
    | number a₂ =>
      simp only [Operand.tokens, List.cons_append, List.nil_append] at h
      obtain ⟨rfl, rfl⟩ := Leaf.cons_inj h
      exact ⟨rfl, rfl⟩
    | _ => cases hkind
  | var a₁ =>
    cases o₂ with
    | var a₂ =>
      simp only [Operand.tokens, List.cons_append, List.nil_append] at h
      obtain ⟨rfl, rfl⟩ := Leaf.cons_inj h
      exact ⟨rfl, rfl⟩
    | call a₂ e₂ =>
      simp only [Operand.tokens, Expression.tokensOfEnclosed_eq, List.cons_append, List.nil_append,
        List.cons.injEq] at h
      exact absurd (h.2 ▸ h₁) (e₂.not_avoids r₂)
    | _ => cases hkind
  | call a₁ e₁ =>
    cases o₂ with
    | var a₂ =>
      simp only [Operand.tokens, Expression.tokensOfEnclosed_eq, List.cons_append, List.nil_append,
        List.cons.injEq] at h
      exact absurd (h.2 ▸ h₂) (e₁.not_avoids r₁)
    | call a₂ e₂ =>
      simp only [Operand.tokens, Expression.tokensOfEnclosed_eq, List.cons_append,
        List.length_cons] at h hlen
      obtain ⟨rfl, harguments⟩ := Leaf.cons_inj h
      obtain ⟨rfl, rfl⟩ := he.enclosed Expression.begins e₁ e₂ r₁ r₂ (by omega) trivial trivial
        harguments
      exact ⟨rfl, rfl⟩
    | _ => cases hkind

/-- The induction is on the number of tokens, because operands hold expressions in lists. -/
theorem Expression.distinct (bound : Nat) : Distinct bound Ends Expression.tokens := by
  induction bound with
  | zero =>
    intro e₁ e₂ r₁ r₂ hlen
    obtain ⟨k, leaf, ts, ht, -⟩ := e₁.begins
    simp [ht] at hlen
  | succ bound ih =>
    have hoperand := Operand.distinct ih
    intro e₁ e₂ r₁ r₂ hlen h₁ h₂ h
    cases e₁ with
    | operand o₁ =>
      cases e₂ with
      | operand o₂ =>
        simp only [Expression.tokens] at h hlen
        obtain ⟨rfl, rfl⟩ := hoperand o₁ o₂ r₁ r₂ hlen h₁.2 h₂.2 h
        exact ⟨rfl, rfl⟩
      | sum o₂ p₂ e₂ =>
        simp only [Expression.tokens, List.append_assoc, List.cons_append] at h hlen
        obtain ⟨-, rfl⟩ := hoperand o₁ o₂ r₁ _ hlen h₁.2 (by simp) h
        simp [Ends] at h₁
    | sum o₁ p₁ e₁ =>
      cases e₂ with
      | operand o₂ =>
        simp only [Expression.tokens, List.append_assoc, List.cons_append,
          List.length_append] at h hlen
        obtain ⟨-, rfl⟩ := hoperand o₁ o₂ _ r₂ (by omega) (by simp) h₂.2 h
        simp [Ends] at h₂
      | sum o₂ p₂ e₂ =>
        simp only [Expression.tokens, List.append_assoc, List.cons_append, List.length_append,
          List.length_cons] at h hlen
        obtain ⟨rfl, hsum⟩ := hoperand o₁ o₂ (p₁.token :: (e₁.tokens ++ r₁))
          (p₂.token :: (e₂.tokens ++ r₂)) (by omega) (by simp) (by simp) h
        obtain ⟨rfl, hright⟩ := Leaf.cons_inj hsum
        obtain ⟨rfl, rfl⟩ := ih e₁ e₂ r₁ r₂ (by omega) h₁ h₂ hright
        exact ⟨rfl, rfl⟩

theorem Printed.distinct (bound : Nat) : Distinct bound Ends Printed.tokens := by
  intro p₁ p₂ r₁ r₂ hlen h₁ h₂ h
  have hbare : ∀ (opening : Leaf .leftParen) rest (e : Expression) r,
      (∀ t ∈ e.tokens.head?, t.isOf .leftParen = false) →
        opening.token :: rest ≠ e.tokens ++ r := by
    intro opening rest e r hplain h
    obtain ⟨k, leaf, ts, ht, -⟩ := e.begins
    rw [ht] at h
    have ho := opening.isKind
    rw [(List.cons.inj h).1, hplain leaf.token (by rw [ht, List.head?_cons]; rfl)] at ho
    cases ho
  cases p₁ with
  | enclosed a₁ e₁ b₁ =>
    cases p₂ with
    | enclosed a₂ e₂ b₂ =>
      simp only [Printed.tokens, List.cons_append, List.append_assoc, List.nil_append,
        List.length_cons, List.length_append] at h hlen
      obtain ⟨rfl, hinner⟩ := Leaf.cons_inj h
      obtain ⟨rfl, rfl, rfl⟩ :=
        (Expression.distinct bound).closed (ends_leaf (by decide)) (by omega) hinner
      exact ⟨rfl, rfl⟩
    | bare e₂ plain₂ => exact absurd h (hbare a₁ _ e₂ r₂ plain₂)
  | bare e₁ plain₁ =>
    cases p₂ with
    | enclosed a₂ e₂ b₂ => exact absurd h.symm (hbare a₂ _ e₁ r₁ plain₁)
    | bare e₂ plain₂ =>
      obtain ⟨rfl, rfl⟩ := Expression.distinct bound e₁ e₂ r₁ r₂ hlen h₁ h₂ h
      exact ⟨rfl, rfl⟩

theorem Distinct.optional {bound : Nat} {tokens : δ → List Token} (hd : Distinct bound Ends tokens)
    (hstart : ∀ d, StartsItem (tokens d)) :
    Distinct bound (Avoids .leftParen) (Optional.tokens tokens) := by
  intro o₁ o₂ r₁ r₂ hlen h₁ h₂ h
  cases o₁ with
  | none =>
    cases o₂ with
    | none => exact ⟨rfl, h⟩
    | some e₂ =>
      have ha : Avoids .leftParen (e₂.tokens tokens ++ r₂) := h ▸ h₁
      exact absurd ha (e₂.not_avoids r₂)
  | some e₁ =>
    cases o₂ with
    | none =>
      have ha : Avoids .leftParen (e₁.tokens tokens ++ r₁) := h ▸ h₂
      exact absurd ha (e₁.not_avoids r₁)
    | some e₂ =>
      obtain ⟨rfl, rfl⟩ := hd.enclosed hstart e₁ e₂ r₁ r₂ (Nat.le_succ_of_le hlen) trivial trivial h
      exact ⟨rfl, rfl⟩

theorem Statement.distinct (bound : Nat) : Distinct bound (fun _ => True) Statement.tokens := by
  intro d₁ d₂ r₁ r₂ hlen _ _ h
  cases d₁ with
  | print k₁ p₁ s₁ =>
    cases d₂ with
    | print k₂ p₂ s₂ =>
      simp only [Statement.tokens, List.cons_append, List.append_assoc, List.nil_append,
        List.length_cons, List.length_append] at h hlen
      obtain ⟨rfl, hprinted⟩ := Leaf.cons_inj h
      obtain ⟨rfl, rfl, rfl⟩ :=
        (Printed.distinct bound).closed (ends_leaf (by decide)) (by omega) hprinted
      exact ⟨rfl, rfl⟩
    | _ => cases Leaf.kind_eq (List.cons.inj h).1
  | println k₁ p₁ s₁ =>
    cases d₂ with
    | println k₂ p₂ s₂ =>
      simp only [Statement.tokens, List.cons_append, List.append_assoc, List.nil_append,
        List.length_cons, List.length_append] at h hlen
      obtain ⟨rfl, hprinted⟩ := Leaf.cons_inj h
      obtain ⟨rfl, rfl, rfl⟩ :=
        (Printed.distinct bound).closed (ends_leaf (by decide)) (by omega) hprinted
      exact ⟨rfl, rfl⟩
    | _ => cases Leaf.kind_eq (List.cons.inj h).1
  | call k₁ n₁ a₁ s₁ =>
    cases d₂ with
    | call k₂ n₂ a₂ s₂ =>
      simp only [Statement.tokens, List.cons_append, List.append_assoc, List.nil_append,
        List.length_cons, List.length_append] at h hlen
      obtain ⟨rfl, hname⟩ := Leaf.cons_inj h
      obtain ⟨rfl, harguments⟩ := Leaf.cons_inj hname
      have hd := (Expression.distinct bound).optional Expression.begins
      obtain ⟨rfl, rfl, rfl⟩ := hd.closed (by simp) (by omega) harguments
      exact ⟨rfl, rfl⟩
    | _ => cases Leaf.kind_eq (List.cons.inj h).1
  | assign k₁ n₁ g₁ e₁ s₁ =>
    cases d₂ with
    | assign k₂ n₂ g₂ e₂ s₂ =>
      simp only [Statement.tokens, List.cons_append, List.append_assoc, List.nil_append,
        List.length_cons, List.length_append] at h hlen
      obtain ⟨rfl, hname⟩ := Leaf.cons_inj h
      obtain ⟨rfl, hsign⟩ := Leaf.cons_inj hname
      obtain ⟨rfl, hvalue⟩ := Leaf.cons_inj hsign
      obtain ⟨rfl, rfl, rfl⟩ :=
        (Expression.distinct bound).closed (ends_leaf (by decide)) (by omega) hvalue
      exact ⟨rfl, rfl⟩
    | _ => cases Leaf.kind_eq (List.cons.inj h).1

/-- No statement begins with the token that ends a block. -/
theorem Statement.begins (d : Statement) :
    ∃ t ts, d.tokens = t :: ts ∧ (!t.isOf .rightBrace) = true := by
  cases d <;> exact ⟨_, _, rfl, by simp⟩

theorem Block.distinct (bound : Nat) : Distinct bound (fun _ => True) Block.tokens := by
  rintro ⟨o₁, body₁, c₁⟩ ⟨o₂, body₂, c₂⟩ r₁ r₂ hlen _ _ h
  simp only [Block.tokens, List.cons_append, List.append_assoc, List.nil_append, List.length_cons,
    List.length_append] at h hlen
  obtain ⟨rfl, hbody⟩ := Leaf.cons_inj h
  have hd := (Statement.distinct bound).flatMap Statement.begins (fun _ _ => trivial)
  obtain ⟨rfl, rfl, rfl⟩ := hd.closed (by simp) (by omega) hbody
  exact ⟨rfl, rfl⟩

theorem Declaration.distinct (bound : Nat) :
    Distinct bound (fun _ => True) Declaration.tokens := by
  intro d₁ d₂ r₁ r₂ hlen _ _ h
  cases d₁ with
  | function k₁ q₁ n₁ ps₁ b₁ =>
    cases d₂ with
    | function k₂ q₂ n₂ ps₂ b₂ =>
      simp only [Declaration.tokens, List.cons_append, List.append_assoc, List.length_cons,
        List.length_append] at h hlen
      obtain ⟨rfl, hcolon⟩ := Leaf.cons_inj h
      obtain ⟨rfl, hname⟩ := Leaf.cons_inj hcolon
      obtain ⟨rfl, hparams⟩ := Leaf.cons_inj hname
      have hd := (distinct_leaf bound Ends).optional startsItem_name
      obtain ⟨rfl, hblock⟩ := hd ps₁ ps₂ (b₁.tokens ++ r₁) (b₂.tokens ++ r₂) (by omega)
        (by simp [Block.tokens]) (by simp [Block.tokens]) hparams
      obtain ⟨rfl, rfl⟩ := Block.distinct bound b₁ b₂ r₁ r₂ (by omega) trivial trivial hblock
      exact ⟨rfl, rfl⟩
    | entry k₂ b₂ => cases Leaf.kind_eq (List.cons.inj h).1
  | entry k₁ b₁ =>
    cases d₂ with
    | function k₂ q₂ n₂ ps₂ b₂ => cases Leaf.kind_eq (List.cons.inj h).1
    | entry k₂ b₂ =>
      simp only [Declaration.tokens, List.cons_append, List.length_cons] at h hlen
      obtain ⟨rfl, hblock⟩ := Leaf.cons_inj h
      obtain ⟨rfl, rfl⟩ := Block.distinct bound b₁ b₂ r₁ r₂ (by omega) trivial trivial hblock
      exact ⟨rfl, rfl⟩

/-- The grammar is unambiguous. -/
theorem tokens_injective {d₁ d₂ : Derivation} (h : d₁.tokens = d₂.tokens) : d₁ = d₂ := by
  obtain ⟨ds₁⟩ := d₁
  obtain ⟨ds₂⟩ := d₂
  have hbegins : ∀ d : Declaration, ∃ t ts, d.tokens = t :: ts ∧ (fun _ => true) t = true := by
    intro d
    cases d <;> exact ⟨_, _, rfl, rfl⟩
  have hlists := (Declaration.distinct (ds₁.flatMap Declaration.tokens).length).flatMap hbegins
    (fun _ _ => trivial) ds₁ ds₂ [] [] (Nat.le_refl _) (by simp) (by simp)
    (by simpa only [List.append_nil, Derivation.tokens] using h)
  rw [hlists.1]

end Scriptlet.Derivation
