import Scriptlet.Proofs.Step
import Scriptlet.Proofs.Unambiguous
import Scriptlet.Tree.Grammar

/-! The rules of the grammar read exactly its derivations. Each rule is sound, since what it has
passed is a derivation of the tree that it returns, and complete, since it returns the tree of every
derivation that stands before what may follow. -/
namespace Scriptlet.Parse

open Scriptlet.Derivation

variable {α δ : Type} {k l : Token.Kind}

/-- Every token has a value. -/
def Valued (tokens : List Token) : Prop :=
  ∀ t ∈ tokens, 2 ≤ t.fields.length

theorem Valued.of_append {ts rest : List Token} (h : Valued (ts ++ rest)) : Valued rest :=
  fun t ht => h t (List.mem_append_right ts ht)

theorem Valued.of_cons {t : Token} {rest : List Token} (h : Valued (t :: rest)) : Valued rest :=
  fun u hu => h u (List.mem_cons_of_mem t hu)

/-- What a step returns is read off a derivation of the tokens that it has passed. -/
def Sound (step : Parse α) (tokens : δ → List Token) (value : δ → α) : Prop :=
  ∀ ⦃pos ts a c⦄, Valued ts → step.run ⟨pos, ts⟩ = .ok a c →
    ∃ d rest, ts = tokens d ++ rest ∧ a = value d ∧ c = ⟨pos + (tokens d).length, rest⟩

/-- A step passes every derivation of at most `bound` tokens and returns what is read off it. -/
def Complete (bound : Nat) (follow : List Token → Prop) (step : Parse α) (tokens : δ → List Token)
    (value : δ → α) : Prop :=
  ∀ d pos rest, (tokens d).length ≤ bound → follow rest →
    step.run ⟨pos, tokens d ++ rest⟩ = .ok (value d) ⟨pos + (tokens d).length, rest⟩

theorem token?_cons {t : Token} (ht : 2 ≤ t.fields.length) (pos : Nat) (rest : List Token) :
    (Cursor.mk pos (t :: rest)).token? = some t := by
  obtain ⟨fields⟩ := t
  match fields, ht with
  | _ :: _ :: _, _ => rfl

@[simp] theorem token?_leaf (leaf : Leaf k) (pos : Nat) (rest : List Token) :
    (Cursor.mk pos (leaf.token :: rest)).token? = some leaf.token :=
  token?_cons leaf.hasValue pos rest

@[simp] theorem isAt_leaf (leaf : Leaf k) (pos : Nat) (rest : List Token) :
    Cursor.isAt l ⟨pos, leaf.token :: rest⟩ = decide (k = l) := by
  simp [Cursor.isAt]

@[simp] theorem isBefore_leaf (leaf : Leaf k) (pos : Nat) (rest : List Token) :
    Cursor.isBefore l ⟨pos, leaf.token :: rest⟩ = !decide (k = l) := by
  simp [Cursor.isBefore]

theorem run_advance (pos : Nat) (t : Token) (rest : List Token) :
    advance.run ⟨pos, t :: rest⟩ = .ok rest.head? ⟨pos + 1, rest⟩ := rfl

theorem run_expectKind_leaf (leaf : Leaf k) (pos : Nat) (rest : List Token) :
    (expectKind k).run ⟨pos, leaf.token :: rest⟩ = .ok leaf.token ⟨pos + 1, rest⟩ := by
  have h : leaf.token.hasLabel (.str k.label) = true := leaf.isKind
  simp only [expectKind, expect, run_get_bind, Cursor.current?, List.head?_cons, h, if_true]
  rfl

theorem expectKind_sound : Sound (expectKind k) (fun leaf : Leaf k => [leaf.token]) Leaf.token := by
  intro pos ts t c hv h
  rw [expectKind, expect, run_get_bind] at h
  cases ts with
  | nil => simp [Cursor.current?] at h
  | cons u rest =>
    simp only [Cursor.current?, List.head?_cons] at h
    split at h
    · next hk =>
      obtain ⟨_, _, ha, hr⟩ := run_bind_ok_iff.mp h
      obtain ⟨rfl, rfl⟩ := run_pure_ok_iff.mp hr
      rw [run_advance] at ha
      obtain ⟨-, rfl⟩ := EStateM.Result.ok.inj ha
      exact ⟨⟨u, hk, hv u List.mem_cons_self⟩, rest, rfl, rfl, rfl⟩
    · simp only [run_bind_ok_iff, run_throw, reduceCtorEq, and_false, exists_false] at h

theorem exists_leaf_of_isAt {pos : Nat} {ts : List Token} (hv : Valued ts)
    (h : Cursor.isAt k ⟨pos, ts⟩ = true) :
    ∃ (leaf : Leaf k) (rest : List Token), ts = leaf.token :: rest := by
  cases ts with
  | nil => cases h
  | cons t rest =>
    have ht := hv t List.mem_cons_self
    rw [Cursor.isAt, token?_cons ht, Option.any_some] at h
    exact ⟨⟨t, h, ht⟩, rest, rfl⟩

theorem run_token {t : Token} (ht : 2 ≤ t.fields.length) (pos : Nat) (rest : List Token) :
    token.run ⟨pos, t :: rest⟩ = .ok t ⟨pos, t :: rest⟩ := by
  obtain ⟨fields⟩ := t
  match fields, ht with
  | _ :: _ :: _, _ => rfl

section Loop

variable {more : Cursor → Bool} {step : Parse α} {tokens : δ → List Token} {value : δ → α}

/-- A loop passes a sequence of phrases. It ends where no phrase begins, unless it has used up its
rounds. -/
theorem collectWhile_sound
    (hstep : ∀ ⦃pos ts a c⦄, Valued ts → more ⟨pos, ts⟩ = true → step.run ⟨pos, ts⟩ = .ok a c →
      ∃ d rest, ts = tokens d ++ rest ∧ a = value d ∧ c = ⟨pos + (tokens d).length, rest⟩)
    (rounds : Nat) {pos : Nat} {ts : List Token} {as : List α} {c : Cursor} (hv : Valued ts)
    (h : (collectWhile more step rounds).run ⟨pos, ts⟩ = .ok as c) :
    ∃ (ds : List δ) (rest : List Token), ts = ds.flatMap tokens ++ rest ∧ as = ds.map value ∧
      c = ⟨pos + (ds.flatMap tokens).length, rest⟩ ∧ (more c = true → ds.length = rounds) := by
  induction rounds generalizing pos ts as with
  | zero =>
    obtain ⟨rfl, rfl⟩ := run_pure_ok_iff.mp h
    exact ⟨[], ts, rfl, rfl, rfl, fun _ => rfl⟩
  | succ rounds ih =>
    cases hm : more ⟨pos, ts⟩ with
    | false =>
      rw [collectWhile_stop hm] at h
      obtain ⟨rfl, rfl⟩ := EStateM.Result.ok.inj h
      exact ⟨[], ts, rfl, rfl, rfl, fun ht => absurd (hm.symm.trans ht) Bool.false_ne_true⟩
    | true =>
      rw [collectWhile_round hm] at h
      obtain ⟨a, u, hs, hloop⟩ := run_bind_ok_iff.mp h
      obtain ⟨bs, v, hl, hr⟩ := run_bind_ok_iff.mp hloop
      obtain ⟨rfl, rfl⟩ := run_pure_ok_iff.mp hr
      obtain ⟨d, rest, rfl, rfl, rfl⟩ := hstep hv hm hs
      obtain ⟨ds, rest, rfl, rfl, rfl, hend⟩ := ih hv.of_append hl
      refine ⟨d :: ds, rest, ?_, rfl, ?_, fun ht => congrArg (· + 1) (hend ht)⟩
      · rw [List.flatMap_cons, List.append_assoc]
      · rw [List.flatMap_cons, List.length_append, Nat.add_assoc]

theorem collectWhile_complete {bound : Nat} {follow : List Token → Prop}
    (hstep : Complete bound follow step tokens value)
    (hmore : ∀ d pos rest, more ⟨pos, tokens d ++ rest⟩ = true)
    (hfollow : ∀ d rest, follow (tokens d ++ rest)) (hpos : ∀ d, 0 < (tokens d).length)
    (rounds : Nat) (ds : List δ) (pos : Nat) (rest : List Token)
    (hbound : (ds.flatMap tokens).length ≤ bound) (hrounds : (ds.flatMap tokens).length ≤ rounds)
    (hrest : follow rest) (hend : ∀ pos, more ⟨pos, rest⟩ = false) :
    (collectWhile more step rounds).run ⟨pos, ds.flatMap tokens ++ rest⟩ =
      .ok (ds.map value) ⟨pos + (ds.flatMap tokens).length, rest⟩ := by
  induction ds generalizing rounds pos with
  | nil => exact collectWhile_stop (hend pos) rounds
  | cons d ds ih =>
    have hd := hpos d
    simp only [List.flatMap_cons, List.append_assoc, List.length_append] at hbound hrounds ⊢
    obtain ⟨rounds, rfl⟩ : ∃ n, rounds = n + 1 := ⟨rounds - 1, by omega⟩
    have hnext : follow (ds.flatMap tokens ++ rest) := by
      cases ds with
      | nil => exact hrest
      | cons d' ds' =>
        rw [List.flatMap_cons, List.append_assoc]
        exact hfollow d' _
    rw [collectWhile_round (hmore d pos _), run_bind_of_ok (hstep d pos _ (by omega) hnext),
      run_bind_of_ok (ih rounds _ (by omega) (by omega)), EStateM.run_pure, List.map_cons,
      Nat.add_assoc]

end Loop

section Enclosed

variable {item : Parse α} {tokens : δ → List Token} {value : δ → α}

theorem further_sound (hi : Sound item tokens value) ⦃pos : Nat⦄ ⦃ts : List Token⦄ ⦃a : α⦄
    ⦃c : Cursor⦄ (hv : Valued ts) (hat : Cursor.isAt .comma ⟨pos, ts⟩ = true)
    (h : (do let _ ← advance; item : Parse α).run ⟨pos, ts⟩ = .ok a c) :
    ∃ (d : Leaf .comma × δ) (rest : List Token), ts = further tokens d ++ rest ∧ a = value d.2 ∧
      c = ⟨pos + (further tokens d).length, rest⟩ := by
  obtain ⟨comma, rest, rfl⟩ := exists_leaf_of_isAt hv hat
  rw [run_bind_of_ok (run_advance _ _ _)] at h
  obtain ⟨d, rest, hts, rfl, rfl⟩ := hi hv.of_cons h
  refine ⟨(comma, d), rest, ?_, rfl, ?_⟩
  · rw [further, List.cons_append, ← hts]
  · rw [further, List.length_cons, Nat.add_assoc, Nat.add_comm 1]

theorem parenthesized_sound (hi : Sound item tokens value) {pos : Nat} {ts : List Token}
    {as : List α} {c : Cursor} (hv : Valued ts) (hat : Cursor.isAt .leftParen ⟨pos, ts⟩ = true)
    (h : (parenthesized item).run ⟨pos, ts⟩ = .ok as c) :
    ∃ (d : Enclosed δ) (rest : List Token), ts = d.tokens tokens ++ rest ∧ as = d.values value ∧
      c = ⟨pos + (d.tokens tokens).length, rest⟩ := by
  obtain ⟨opening, rest, rfl⟩ := exists_leaf_of_isAt hv hat
  rw [parenthesized, run_bind_of_ok (run_advance _ _ _)] at h
  obtain ⟨items, u, hlist, h⟩ := run_bind_ok_iff.mp h
  obtain ⟨t, w, hclose, h⟩ := run_bind_ok_iff.mp h
  obtain ⟨rfl, rfl⟩ := run_pure_ok_iff.mp h
  rw [commaList, run_get_bind] at hlist
  split at hlist
  · obtain ⟨first, v, hfirst, hlist⟩ := run_bind_ok_iff.mp hlist
    obtain ⟨d, rest, hts, rfl, rfl⟩ := hi hv.of_cons hfirst
    rw [run_get_bind] at hlist
    obtain ⟨others, x, hothers, hlist⟩ := run_bind_ok_iff.mp hlist
    obtain ⟨rfl, rfl⟩ := run_pure_ok_iff.mp hlist
    have hrest : Valued rest := Valued.of_append (hts ▸ hv.of_cons)
    obtain ⟨ds, rest, rfl, rfl, rfl, -⟩ := collectWhile_sound (further_sound hi) _ hrest hothers
    obtain ⟨closing, rest, rfl, rfl, rfl⟩ := expectKind_sound hrest.of_append hclose
    refine ⟨.items opening d ds closing, rest, ?_, rfl, ?_⟩
    · simp [Enclosed.tokens, hts]
    · simp [Enclosed.tokens, Nat.add_assoc, Nat.add_comm, Nat.add_left_comm]
  · obtain ⟨rfl, rfl⟩ := run_pure_ok_iff.mp hlist
    obtain ⟨closing, rest, hts, rfl, rfl⟩ := expectKind_sound hv.of_cons hclose
    exact ⟨.empty opening closing, rest, by rw [hts]; rfl, rfl, rfl⟩

theorem optionalList_sound (hi : Sound item tokens value) :
    Sound (optionalList item) (Optional.tokens tokens) (Optional.values value) := by
  intro pos ts as c hv h
  rw [optionalList, run_get_bind] at h
  split at h
  · next hat =>
    obtain ⟨d, rest, hd⟩ := parenthesized_sound hi hv hat h
    exact ⟨some d, rest, hd⟩
  · obtain ⟨rfl, rfl⟩ := run_pure_ok_iff.mp h
    exact ⟨none, ts, rfl, rfl, rfl⟩

theorem further_complete {bound : Nat} {follow : List Token → Prop}
    (hi : Complete bound follow item tokens value) :
    Complete bound follow (do let _ ← advance; item : Parse α) (further tokens)
      fun d => value d.2 := by
  intro d pos rest hlen hrest
  rw [further, List.length_cons] at hlen
  rw [further, List.cons_append, run_bind_of_ok (run_advance _ _ _),
    hi d.2 (pos + 1) rest (by omega) hrest, List.length_cons, Nat.add_assoc, Nat.add_comm 1]

theorem commaList_complete {bound : Nat} (hi : Complete bound Ends item tokens value)
    (hstart : ∀ d, StartsItem (tokens d))
    (first : δ) (others : List (Leaf .comma × δ)) (closing : Leaf .rightParen) (pos : Nat)
    (rest : List Token)
    (hlen : (tokens first ++ others.flatMap (further tokens)).length ≤ bound) :
    (commaList item).run
        ⟨pos, tokens first ++ (others.flatMap (further tokens) ++ closing.token :: rest)⟩ =
      .ok (value first :: others.map fun entry => value entry.2)
        ⟨pos + (tokens first).length + (others.flatMap (further tokens)).length,
          closing.token :: rest⟩ := by
  have hends : Ends (closing.token :: rest) := ends_leaf (by decide) closing rest
  have hfurther : Ends (others.flatMap (further tokens) ++ closing.token :: rest) := by
    cases others with
    | nil => exact hends
    | cons entry others => exact ends_leaf (by decide) entry.1 _
  have hbefore : Cursor.isBefore .rightParen
      ⟨pos, tokens first ++ (others.flatMap (further tokens) ++ closing.token :: rest)⟩ = true := by
    obtain ⟨k, leaf, ts, ht, hk⟩ := hstart first
    rw [ht, List.cons_append, isBefore_leaf]
    simpa using hk
  rw [List.length_append] at hlen
  rw [commaList, run_get_bind, if_pos hbefore,
    run_bind_of_ok (hi first pos _ (by omega) hfurther), run_get_bind,
    run_bind_of_ok (collectWhile_complete (further_complete hi)
      (fun entry pos rest => isAt_leaf entry.1 pos _)
      (fun entry rest => ends_leaf (by decide) entry.1 _) (fun entry => Nat.succ_pos _)
      _ others _ _ (by omega) (by simp) hends (fun pos => isAt_leaf closing pos rest)),
    EStateM.run_pure]

theorem parenthesized_complete {bound : Nat} (hi : Complete bound Ends item tokens value)
    (hstart : ∀ d, StartsItem (tokens d)) :
    Complete (bound + 1) (fun _ => True) (parenthesized item) (Enclosed.tokens tokens)
      (Enclosed.values value) := by
  intro e pos rest hlen _
  rw [parenthesized]
  cases e with
  | empty opening closing =>
    have hnone : (commaList item).run ⟨pos + 1, closing.token :: rest⟩ =
        .ok [] ⟨pos + 1, closing.token :: rest⟩ := by
      rw [commaList, run_get_bind, isBefore_leaf]
      rfl
    rw [Enclosed.tokens, List.cons_append, run_bind_of_ok (run_advance _ _ _), List.cons_append,
      List.nil_append, run_bind_of_ok hnone, run_bind_of_ok (run_expectKind_leaf closing _ _)]
    rfl
  | items opening first others closing =>
    simp only [Enclosed.tokens, List.cons_append, List.append_assoc, List.nil_append,
      List.length_cons, List.length_append] at hlen ⊢
    rw [run_bind_of_ok (run_advance _ _ _), run_bind_of_ok (commaList_complete hi hstart first
      others closing _ rest (by rw [List.length_append]; omega)),
      run_bind_of_ok (run_expectKind_leaf closing _ _), EStateM.run_pure, Enclosed.values]
    simp only [EStateM.Result.ok.injEq, Cursor.mk.injEq, List.length_nil, and_true, true_and]
    omega

theorem optionalList_complete {bound : Nat} (hi : Complete bound Ends item tokens value)
    (hstart : ∀ d, StartsItem (tokens d)) :
    Complete bound (fun rest => ∀ pos, Cursor.isAt .leftParen ⟨pos, rest⟩ = false)
      (optionalList item) (Optional.tokens tokens) (Optional.values value) := by
  intro o pos rest hlen hrest
  rw [optionalList, run_get_bind]
  cases o with
  | none =>
    rw [if_neg]
    · rfl
    · rw [Optional.tokens, Option.elim_none, List.nil_append, hrest pos]
      exact Bool.false_ne_true
  | some e =>
    rw [if_pos]
    · exact parenthesized_complete hi hstart e pos rest (Nat.le_succ_of_le hlen) trivial
    · cases e <;> exact isAt_leaf _ _ _

end Enclosed

theorem sum_sound {depth : Nat} (ho : Sound (operand depth) Operand.tokens Operand.tree)
    (hs : Sound (sum depth) Expression.tokens Expression.tree) :
    Sound (sum (depth + 1)) Expression.tokens Expression.tree := by
  intro pos ts a c hv h
  rw [sum] at h
  obtain ⟨left, u, hleft, h⟩ := run_bind_ok_iff.mp h
  obtain ⟨o, rest, rfl, rfl, rfl⟩ := ho hv hleft
  have honly : ∀ {a c}, (pure o.tree : Parse Expr).run ⟨pos + o.tokens.length, rest⟩ = .ok a c →
      ∃ (e : Expression) (rest' : List Token), o.tokens ++ rest = e.tokens ++ rest' ∧
        a = e.tree ∧ c = ⟨pos + e.tokens.length, rest'⟩ := by
    intro a c h
    obtain ⟨rfl, rfl⟩ := run_pure_ok_iff.mp h
    refine ⟨.operand o, rest, ?_⟩
    simp only [Expression.tokens, Expression.tree, and_self]
  rw [run_get_bind] at h
  cases rest with
  | nil => exact honly h
  | cons t rest =>
    rw [token?_cons (hv.of_append t List.mem_cons_self)] at h
    by_cases hp : t.isOf .plus = true
    · simp only [hp, if_true, run_bind_of_ok (run_advance _ _ _)] at h
      obtain ⟨right, w, hright, h⟩ := run_bind_ok_iff.mp h
      obtain ⟨rfl, rfl⟩ := run_pure_ok_iff.mp h
      obtain ⟨e, rest, rfl, rfl, rfl⟩ := hs hv.of_append.of_cons hright
      let plus : Leaf .plus := ⟨t, hp, hv.of_append t List.mem_cons_self⟩
      refine ⟨.sum o plus e, rest, ?_, ?_, ?_⟩
      · simp only [Expression.tokens, List.append_assoc, List.cons_append, plus]
      · rw [Expression.tree, ← plus.line_token]
      · simp only [Expression.tokens, List.length_append, List.length_cons, Cursor.mk.injEq,
          and_true]
        omega
    · simp only [hp] at h
      exact honly h

section Operand

variable (depth pos : Nat) (rest : List Token)

theorem run_operand_paren (opening : Leaf .leftParen) :
    (operand (depth + 1)).run ⟨pos, opening.token :: rest⟩ =
      (do let inner ← expression depth
          let _ ← expectKind .rightParen
          return inner : Parse Expr).run ⟨pos + 1, rest⟩ := by
  rw [operand, run_bind_of_ok (run_token opening.hasValue _ _), opening.isOf_token,
    if_pos (by decide), run_bind_of_ok (run_advance _ _ _)]

theorem run_operand_string (leaf : Leaf .string) :
    (operand (depth + 1)).run ⟨pos, leaf.token :: rest⟩ =
      .ok (.string leaf.value leaf.line) ⟨pos + 1, rest⟩ := by
  rw [operand, run_bind_of_ok (run_token leaf.hasValue _ _)]
  simp only [leaf.isOf_token, reduceCtorEq, decide_false, Bool.false_eq_true, if_false, decide_true,
    if_true]
  rw [leaf.value_token, leaf.line_token, run_bind_of_ok (run_lift_ok _ _),
    run_bind_of_ok (run_advance _ _ _), EStateM.run_pure]

theorem run_operand_number (leaf : Leaf .number) :
    (operand (depth + 1)).run ⟨pos, leaf.token :: rest⟩ =
      .ok (.number leaf.value leaf.line) ⟨pos + 1, rest⟩ := by
  rw [operand, run_bind_of_ok (run_token leaf.hasValue _ _)]
  simp only [leaf.isOf_token, reduceCtorEq, decide_false, Bool.false_eq_true, if_false, decide_true,
    if_true]
  rw [leaf.value_token, leaf.line_token, run_bind_of_ok (run_lift_ok _ _),
    run_bind_of_ok (run_advance _ _ _), EStateM.run_pure]

theorem run_operand_identifier (leaf : Leaf .identifier) :
    (operand (depth + 1)).run ⟨pos, leaf.token :: rest⟩ =
      if Cursor.isAt .leftParen ⟨pos + 1, rest⟩ then
        (do return .call leaf.value (← parenthesized (expression depth)) leaf.line :
          Parse Expr).run ⟨pos + 1, rest⟩
      else .ok (.var leaf.value leaf.line) ⟨pos + 1, rest⟩ := by
  rw [operand, run_bind_of_ok (run_token leaf.hasValue _ _)]
  simp only [leaf.isOf_token, reduceCtorEq, decide_false, Bool.false_eq_true, if_false, decide_true,
    if_true]
  rw [leaf.value_token, leaf.line_token, run_bind_of_ok (run_lift_ok _ _),
    run_bind_of_ok (run_advance _ _ _), run_get_bind, run_ite, EStateM.run_pure]

end Operand

theorem operand_sound {depth : Nat}
    (he : Sound (expression depth) Expression.tokens Expression.tree) :
    Sound (operand (depth + 1)) Operand.tokens Operand.tree := by
  intro pos ts a c hv h
  cases ts with
  | nil => simp [operand, token, Cursor.current?] at h
  | cons t rest =>
    have hleaf : ∀ k, t.isOf k = true → ∃ leaf : Leaf k, leaf.token = t :=
      fun k hk => ⟨⟨t, hk, hv t List.mem_cons_self⟩, rfl⟩
    by_cases hparen : t.isOf .leftParen = true
    · obtain ⟨opening, rfl⟩ := hleaf _ hparen
      rw [run_operand_paren] at h
      obtain ⟨inner, u, hinner, h⟩ := run_bind_ok_iff.mp h
      obtain ⟨e, rest, rfl, rfl, rfl⟩ := he hv.of_cons hinner
      obtain ⟨close, w, hclose, h⟩ := run_bind_ok_iff.mp h
      obtain ⟨rfl, rfl⟩ := run_pure_ok_iff.mp h
      obtain ⟨closing, rest, rfl, rfl, rfl⟩ := expectKind_sound hv.of_cons.of_append hclose
      refine ⟨.paren opening e closing, rest, ?_, ?_, ?_⟩
      · simp only [Operand.tokens, List.cons_append, List.append_assoc]
      · rw [Operand.tree]
      · simp only [Operand.tokens, List.length_append, List.length_cons, List.length_nil,
          Cursor.mk.injEq, and_true]
        omega
    by_cases hstring : t.isOf .string = true
    · obtain ⟨leaf, rfl⟩ := hleaf _ hstring
      rw [run_operand_string] at h
      obtain ⟨rfl, rfl⟩ := EStateM.Result.ok.inj h
      exact ⟨.string leaf, rest, rfl, by rw [Operand.tree], rfl⟩
    by_cases hnumber : t.isOf .number = true
    · obtain ⟨leaf, rfl⟩ := hleaf _ hnumber
      rw [run_operand_number] at h
      obtain ⟨rfl, rfl⟩ := EStateM.Result.ok.inj h
      exact ⟨.number leaf, rest, rfl, by rw [Operand.tree], rfl⟩
    by_cases hname : t.isOf .identifier = true
    · obtain ⟨leaf, rfl⟩ := hleaf _ hname
      rw [run_operand_identifier] at h
      split at h
      · next hat =>
        obtain ⟨arguments, u, harguments, h⟩ := run_bind_ok_iff.mp h
        obtain ⟨rfl, rfl⟩ := run_pure_ok_iff.mp h
        obtain ⟨d, rest, rfl, rfl, rfl⟩ := parenthesized_sound he hv.of_cons hat harguments
        refine ⟨.call leaf d, rest, ?_, ?_, ?_⟩
        · rw [Operand.tokens, Expression.tokensOfEnclosed_eq, List.cons_append]
        · rw [Operand.tree, Expression.treesOfEnclosed_eq]
        · rw [Operand.tokens, Expression.tokensOfEnclosed_eq, List.length_cons, Nat.add_assoc,
            Nat.add_comm 1]
      · obtain ⟨rfl, rfl⟩ := EStateM.Result.ok.inj h
        exact ⟨.var leaf, rest, rfl, by rw [Operand.tree], rfl⟩
    · rw [operand, run_bind_of_ok (run_token (hv t List.mem_cons_self) _ _), if_neg hparen,
        if_neg hstring, if_neg hnumber, if_neg hname] at h
      simp only [run_bind_ok_iff, run_throw, reduceCtorEq, and_false, exists_false] at h

/-- The rules of expressions are sound at every depth. -/
theorem expression_sound (depth : Nat) :
    Sound (expression depth) Expression.tokens Expression.tree ∧
      Sound (sum depth) Expression.tokens Expression.tree ∧
        Sound (operand depth) Operand.tokens Operand.tree := by
  induction depth with
  | zero =>
    refine ⟨?_, ?_, ?_⟩ <;> intro pos ts a c hv h
    · rw [expression, run_throw] at h
      cases h
    · rw [sum, run_throw] at h
      cases h
    · rw [operand, run_throw] at h
      cases h
  | succ depth ih =>
    obtain ⟨hexpression, hsum, hoperand⟩ := ih
    exact ⟨by rwa [expression], sum_sound hoperand hsum, operand_sound hexpression⟩

theorem isAt_eq_false {pos : Nat} {rest : List Token} (h : Avoids k rest) :
    Cursor.isAt k ⟨pos, rest⟩ = false := by
  cases rest with
  | nil => rfl
  | cons t rest =>
    have ht : t.isOf k = false := h t rfl
    simp [Cursor.isAt, Cursor.token?, Cursor.current?, Option.any_filter, ht]

/-- An operand ends before any tokens, except that a name before an opening parenthesis begins a
call. -/
def EndsBefore (rest : List Token) : Operand → Prop
  | .var _ => Avoids .leftParen rest
  | _ => True

theorem endsBefore_of_avoids {rest : List Token} (h : Avoids .leftParen rest) (o : Operand) :
    EndsBefore rest o := by
  cases o with
  | var leaf => exact h
  | _ => trivial

theorem run_operand {bound depth : Nat}
    (he : Complete bound Ends (expression depth) Expression.tokens Expression.tree) (o : Operand)
    (pos : Nat) (rest : List Token) (hlen : o.tokens.length ≤ bound + 1)
    (hrest : EndsBefore rest o) :
    (operand (depth + 1)).run ⟨pos, o.tokens ++ rest⟩ =
      .ok o.tree ⟨pos + o.tokens.length, rest⟩ := by
  cases o with
  | paren opening inner closing =>
    simp only [Operand.tokens, Operand.tree, List.cons_append, List.append_assoc, List.nil_append,
      List.length_cons, List.length_append] at hlen ⊢
    rw [run_operand_paren, run_bind_of_ok (he inner (pos + 1) (closing.token :: rest) (by omega)
      (ends_leaf (by decide) closing rest)),
      run_bind_of_ok (run_expectKind_leaf closing _ _), EStateM.run_pure]
    simp only [EStateM.Result.ok.injEq, Cursor.mk.injEq, List.length_nil, and_true, true_and]
    omega
  | string leaf =>
    simp only [Operand.tokens, Operand.tree]
    exact run_operand_string depth pos rest leaf
  | number leaf =>
    simp only [Operand.tokens, Operand.tree]
    exact run_operand_number depth pos rest leaf
  | var leaf =>
    simp only [Operand.tokens, Operand.tree]
    rw [List.cons_append, List.nil_append, run_operand_identifier, isAt_eq_false hrest]
    rfl
  | call name arguments =>
    simp only [Operand.tokens, Operand.tree, Expression.tokensOfEnclosed_eq,
      Expression.treesOfEnclosed_eq, List.cons_append, List.length_cons] at hlen ⊢
    have hat : Cursor.isAt .leftParen
        ⟨pos + 1, arguments.tokens Expression.tokens ++ rest⟩ = true := by
      cases arguments <;> exact isAt_leaf _ _ _
    rw [run_operand_identifier, if_pos hat, run_bind_of_ok (parenthesized_complete he
      Expression.begins arguments (pos + 1) rest (by omega) trivial), EStateM.run_pure,
      Nat.add_assoc, Nat.add_comm 1]

theorem operand_complete {bound depth : Nat}
    (he : Complete bound Ends (expression depth) Expression.tokens Expression.tree) :
    Complete (bound + 1) (Avoids .leftParen) (operand (depth + 1)) Operand.tokens Operand.tree :=
  fun o pos rest hlen hrest => run_operand he o pos rest hlen (endsBefore_of_avoids hrest o)

section Sum

variable {depth pos : Nat} {c : Cursor} {left : Expr} {rest : List Token}

/-- A sum ends where no plus follows. -/
theorem run_sum_of_avoids (ho : (operand depth).run c = .ok left ⟨pos, rest⟩)
    (hrest : Avoids .plus rest) : (sum (depth + 1)).run c = .ok left ⟨pos, rest⟩ := by
  rw [sum, run_bind_of_ok ho, run_get_bind]
  split
  · next t ht =>
    have hplus : t.isOf .plus = false := hrest t (Option.filter_eq_some_iff.mp ht).1
    rw [hplus]
    rfl
  · rfl

/-- A sum goes on behind a plus. -/
theorem run_sum_of_plus {plus : Leaf .plus}
    (ho : (operand depth).run c = .ok left ⟨pos, plus.token :: rest⟩) :
    (sum (depth + 1)).run c =
      (do return .sum left (← sum depth) plus.line : Parse Expr).run ⟨pos + 1, rest⟩ := by
  rw [sum, run_bind_of_ok ho, run_get_bind]
  simp only [token?_leaf, plus.isOf_token, decide_true, if_true]
  rw [run_bind_of_ok (run_advance _ _ _), plus.line_token]

end Sum

theorem sum_complete {bound depth : Nat}
    (ho : Complete (bound + 1) (Avoids .leftParen) (operand depth) Operand.tokens Operand.tree)
    (hs : Complete bound Ends (sum depth) Expression.tokens Expression.tree) :
    Complete (bound + 1) Ends (sum (depth + 1)) Expression.tokens Expression.tree := by
  intro e pos rest hlen hrest
  cases e with
  | operand o =>
    simp only [Expression.tokens, Expression.tree] at hlen ⊢
    exact run_sum_of_avoids (ho o pos rest hlen hrest.2) hrest.1
  | sum o plus e =>
    simp only [Expression.tokens, Expression.tree, List.append_assoc, List.cons_append,
      List.length_append, List.length_cons] at hlen ⊢
    rw [run_sum_of_plus (ho o pos _ (by omega) (by simp)),
      run_bind_of_ok (hs e _ rest (by omega) hrest), EStateM.run_pure]
    simp only [EStateM.Result.ok.injEq, Cursor.mk.injEq, and_true, true_and]
    omega

/-- An expression is read at any depth of at least three times the number of its tokens and two
more. -/
theorem expression_complete (bound : Nat) :
    (∀ depth, 3 * bound + 2 ≤ depth →
      Complete bound Ends (expression depth) Expression.tokens Expression.tree) ∧
    (∀ depth, 3 * bound + 1 ≤ depth →
      Complete bound Ends (sum depth) Expression.tokens Expression.tree) := by
  induction bound with
  | zero =>
    have hnone : ∀ (step : Parse Expr), Complete 0 Ends step Expression.tokens Expression.tree := by
      intro step e pos rest hlen
      obtain ⟨k, leaf, ts, ht, -⟩ := e.begins
      simp [ht] at hlen
    exact ⟨fun depth _ => hnone _, fun depth _ => hnone _⟩
  | succ bound ih =>
    have hoperand : ∀ depth, 3 * bound + 3 ≤ depth →
        Complete (bound + 1) (Avoids .leftParen) (operand depth) Operand.tokens Operand.tree := by
      intro depth hdepth
      obtain ⟨depth, rfl⟩ : ∃ n, depth = n + 1 := ⟨depth - 1, by omega⟩
      exact operand_complete (ih.1 depth (by omega))
    have hsum : ∀ depth, 3 * bound + 4 ≤ depth →
        Complete (bound + 1) Ends (sum depth) Expression.tokens Expression.tree := by
      intro depth hdepth
      obtain ⟨depth, rfl⟩ : ∃ n, depth = n + 1 := ⟨depth - 1, by omega⟩
      exact sum_complete (hoperand depth (by omega)) (ih.2 depth (by omega))
    refine ⟨?_, fun depth hdepth => hsum depth (by omega)⟩
    intro depth hdepth
    obtain ⟨depth, rfl⟩ : ∃ n, depth = n + 1 := ⟨depth - 1, by omega⟩
    rw [expression]
    exact hsum depth (by omega)

end Scriptlet.Parse
