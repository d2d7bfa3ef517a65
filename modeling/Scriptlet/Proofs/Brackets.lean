import Scriptlet.Proofs.Nesting

/-! The language of brackets. The check of brackets keeps the brackets that are open, and what is
still to be read passes it exactly if it closes them one by one, with words of the language between
them. -/
namespace Scriptlet

/-- The kind of bracket that the token is, if it is one. -/
def Token.bracket? (token : Token) : Option Token.Kind :=
  (Token.brackets.map Prod.snd).find? token.isOf

/-- The kinds of the brackets among tokens, in order. -/
def Token.bracketsAmong (tokens : List Token) : List Token.Kind :=
  tokens.filterMap Token.bracket?

/-- `S = empty | LPAREN S RPAREN S | LBRACE S RBRACE S`. -/
inductive BracketWord : List Token.Kind → Prop
  | nil : BracketWord []
  | pair {k l : Token.Kind} {inner rest : List Token.Kind} :
      l.Closes k → BracketWord inner → BracketWord rest → BracketWord (k :: (inner ++ l :: rest))

/-- Brackets that close the open ones, the innermost first, with words between them. -/
inductive Completes : Vocabulary.Open → List Token.Kind → Prop
  | nil {word : List Token.Kind} : BracketWord word → Completes [] word
  | cons {k l : Token.Kind} {opened : Vocabulary.Open} {word rest : List Token.Kind} :
      BracketWord word → l.Closes k → Completes opened rest →
      Completes (k :: opened) (word ++ l :: rest)

namespace Token.Kind.Closes

variable {k l m : Token.Kind}

/-- A closing bracket is not an opening one. -/
theorem not_closes (h : l.Closes k) : ¬ m.Closes l := by
  cases h <;> nofun

theorem opening_unique (h : l.Closes k) (h' : l.Closes m) : k = m := by
  cases h <;> cases h' <;> rfl

end Token.Kind.Closes

section Words

variable {k l : Token.Kind} {opened : Vocabulary.Open} {word : List Token.Kind}

theorem BracketWord.not_closing_first (hkinds : l.Closes k) : ¬ BracketWord (l :: word) := by
  intro h
  cases h with
  | pair hcloses => exact hkinds.not_closes hcloses

theorem Completes.ne_nil (h : Completes (k :: opened) word) : word ≠ [] := by
  cases h with
  | cons => simp

theorem completes_nil_iff : Completes opened [] ↔ opened = [] := by
  constructor
  · intro h
    cases opened with
    | nil => rfl
    | cons k opened => exact absurd rfl h.ne_nil
  · rintro rfl
    exact .nil .nil

theorem completes_iff_bracketWord : Completes [] word ↔ BracketWord word := by
  constructor
  · intro h
    cases h with
    | nil hword => exact hword
  · exact .nil

/-- An opening bracket in front is one more that is open. -/
theorem completes_opening_iff (hkinds : l.Closes k) :
    Completes opened (k :: word) ↔ Completes (k :: opened) word := by
  constructor
  · intro h
    generalize hfirst : k :: word = ahead at h
    cases h with
    | nil hword =>
      subst hfirst
      cases hword with
      | pair hcloses hinner hrest => exact .cons hinner hcloses (.nil hrest)
    | @cons _ m opened first rest hword hcloses hcompletes =>
      -- the bracket in front begins the first word, since it does not close anything
      cases hword with
      | nil =>
        obtain ⟨rfl, -⟩ := List.cons.inj hfirst
        exact absurd hkinds hcloses.not_closes
      | @pair k' l' inner others hpair hinner hothers =>
        rw [List.cons_append, List.append_assoc, List.cons_append] at hfirst
        obtain ⟨rfl, rfl⟩ := List.cons.inj hfirst
        exact .cons hinner hpair (.cons hothers hcloses hcompletes)
  · intro h
    cases h with
    | @cons _ m _ inner rest hinner hcloses hrest =>
      cases hrest with
      | nil hword => exact .nil (.pair hcloses hinner hword)
      | @cons _ n opened first others hfirst hcloses' hothers =>
        have hword := BracketWord.pair hcloses hinner hfirst
        have hcompletes := Completes.cons hword hcloses' hothers
        rwa [List.cons_append, List.append_assoc, List.cons_append] at hcompletes

/-- A closing bracket in front belongs to the innermost one that is open. -/
theorem completes_closing_iff (hkinds : l.Closes k) :
    Completes opened (l :: word) ↔ ∃ others, opened = k :: others ∧ Completes others word := by
  constructor
  · intro h
    generalize hfirst : l :: word = ahead at h
    cases h with
    | nil hword =>
      subst hfirst
      exact absurd hword (BracketWord.not_closing_first hkinds)
    | @cons k' m opened first rest hword hcloses hcompletes =>
      cases hword with
      | nil =>
        obtain ⟨rfl, rfl⟩ := List.cons.inj hfirst
        obtain rfl := hkinds.opening_unique hcloses
        exact ⟨opened, rfl, hcompletes⟩
      | @pair k' l' inner others hpair hinner hothers =>
        obtain ⟨rfl, -⟩ := List.cons.inj hfirst
        exact absurd hpair hkinds.not_closes
  · rintro ⟨others, rfl, h⟩
    exact .cons .nil hkinds h

end Words

namespace Vocabulary

variable {t : Token} {k l : Token.Kind}

theorem bracket?_eq_none_iff : t.bracket? = none ↔ t.isBracket = false := by
  rw [Token.bracket?, Token.isBracket, List.find?_eq_none, List.any_eq_false, List.forall_mem_map]

/-- A bracket opens or closes. -/
theorem closes_of_bracket?_some (h : t.bracket? = some k) :
    t.isOf k = true ∧ ((∃ l : Token.Kind, l.Closes k) ∨ ∃ opening, k.Closes opening) := by
  rw [Token.bracket?] at h
  have hk := List.find?_some h
  refine ⟨hk, ?_⟩
  have hmem : k ∈ [.leftBrace, .rightBrace, .leftParen, .rightParen] := List.mem_of_find?_eq_some h
  simp only [List.mem_cons, List.not_mem_nil, or_false] at hmem
  rcases hmem with rfl | rfl | rfl | rfl
  · exact .inl ⟨_, .brace⟩
  · exact .inr ⟨_, .brace⟩
  · exact .inl ⟨_, .paren⟩
  · exact .inr ⟨_, .paren⟩

theorem afterToken_eq_close (hkinds : l.Closes k) (h : t.isOf l = true) (opened : Open) :
    afterToken opened t = close k opened := by
  unfold afterToken
  cases hkinds <;> simp [Token.isOf_eq_decide h]

/-- One step of the check at a closing bracket. -/
theorem balancedFrom_closing (hpair : t.fields.length = 2) (hkinds : l.Closes k)
    (h : t.isOf l = true) (opened : Open) (rest : List Token) :
    balancedFrom opened (t :: rest) = .ok false ∧ (∀ others, opened ≠ k :: others) ∨
      ∃ others, opened = k :: others ∧
        balancedFrom opened (t :: rest) = balancedFrom others rest := by
  have hafter := afterToken_eq_close hkinds h opened
  cases opened with
  | nil =>
    refine .inl ⟨?_, fun _ => nofun⟩
    rw [balancedFrom, if_pos hpair, hafter, close]
  | cons innermost others =>
    rw [close] at hafter
    split at hafter
    · next hmatch =>
      subst hmatch
      exact .inr ⟨others, rfl, balancedFrom_cons hpair hafter rest⟩
    · next hmismatch =>
      refine .inl ⟨?_, fun _ heq => hmismatch (List.cons.inj heq).1⟩
      rw [balancedFrom, if_pos hpair, hafter]

/-- With brackets open in front, the check passes exactly the pairs whose brackets complete
them. -/
theorem balancedFrom_iff_completes {tokens : List Token}
    (hpairs : ∀ t ∈ tokens, t.fields.length = 2) (opened : Open) :
    ∃ passes, balancedFrom opened tokens = .ok passes ∧
      (passes = true ↔ Completes opened (Token.bracketsAmong tokens)) := by
  induction tokens generalizing opened with
  | nil =>
    refine ⟨opened.isEmpty, rfl, ?_⟩
    rw [List.isEmpty_iff]
    exact completes_nil_iff.symm
  | cons t tokens ih =>
    obtain ⟨hpair, hpairs⟩ := List.forall_mem_cons.mp hpairs
    cases hbracket : t.bracket? with
    | none =>
      have hother := afterToken_other (bracket?_eq_none_iff.mp hbracket) opened
      rw [balancedFrom_cons hpair hother, Token.bracketsAmong, List.filterMap_cons_none hbracket]
      exact ih hpairs opened
    | some k =>
      rw [Token.bracketsAmong, List.filterMap_cons_some hbracket]
      obtain ⟨hk, ⟨l, hopens⟩ | ⟨opening, hcloses⟩⟩ := closes_of_bracket?_some hbracket
      · rw [balancedFrom_cons hpair (afterToken_opening hopens hk opened),
          completes_opening_iff hopens]
        exact ih hpairs (k :: opened)
      · rw [completes_closing_iff hcloses]
        obtain ⟨hfails, hother⟩ | ⟨others, rfl, hsteps⟩ :=
          balancedFrom_closing hpair hcloses hk opened tokens
        · refine ⟨false, hfails, iff_of_false Bool.false_ne_true ?_⟩
          rintro ⟨others, heq, -⟩
          exact hother others heq
        · obtain ⟨passes, hpasses, hiff⟩ := ih hpairs others
          refine ⟨passes, hsteps.trans hpasses, hiff.trans ?_⟩
          constructor
          · intro hcompletes
            exact ⟨others, rfl, hcompletes⟩
          · rintro ⟨_, heq, hcompletes⟩
            obtain ⟨-, rfl⟩ := List.cons.inj heq
            exact hcompletes

/-- The check of brackets answers for all pairs, and passes exactly those whose brackets are a word
of the language. -/
theorem balanced_iff_bracketWord (tokens : List Token)
    (hpairs : ∀ t ∈ tokens, t.fields.length = 2) :
    ∃ passes, balanced tokens = .ok passes ∧
      (passes = true ↔ BracketWord (Token.bracketsAmong tokens)) := by
  obtain ⟨passes, hpasses, hiff⟩ := balancedFrom_iff_completes hpairs []
  exact ⟨passes, hpasses, hiff.trans completes_iff_bracketWord⟩

/-- The pairs of `( x { ) }`, which close the parenthesis before the brace inside it. -/
def crossing : List Token :=
  [.plain .leftParen (.str "("), .plain .identifier (.str "x"), .plain .leftBrace (.str "\x7b"),
   .plain .rightParen (.str ")"), .plain .rightBrace (.str "\x7d")]

theorem balanced_iff_bracketWord_crossing :
    (∀ t ∈ crossing, t.fields.length = 2) ∧
      Token.bracketsAmong crossing = [.leftParen, .leftBrace, .rightParen, .rightBrace] ∧
      balanced crossing = .ok false ∧ ¬ BracketWord (Token.bracketsAmong crossing) := by
  have hpairs : ∀ t ∈ crossing, t.fields.length = 2 := by decide
  have hfails : balanced crossing = .ok false := rfl
  obtain ⟨passes, hpasses, hiff⟩ := balanced_iff_bracketWord crossing hpairs
  refine ⟨hpairs, rfl, hfails, fun hword => ?_⟩
  rw [hfails] at hpasses
  obtain rfl := Except.ok.inj hpasses
  exact Bool.false_ne_true (hiff.mpr hword)

end Vocabulary

end Scriptlet
