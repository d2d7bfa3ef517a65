import Scriptlet.Proofs.Extension
import Scriptlet.Proofs.Lookahead
import Scriptlet.Proofs.Parsing

/-! What print statements take. An expression that has been read before some tokens is read before
all others that do not go on with it. A print statement takes it whole, unless it goes on behind a
parenthesis that it begins with. -/
namespace Scriptlet

/-- The kind of the keyword that prints, with or without ending the line. -/
def Token.Kind.printing (newline : Bool) : Token.Kind :=
  if newline then .println else .print

namespace Parse

open Scriptlet.Derivation

variable {α : Type}

/-- A step that succeeds has passed the tokens before the cursor that it ends at. -/
theorem Walks.exists_passed {x : Parse α} {pos : Nat} {ts : List Token} {a : α} {c : Cursor}
    (hwalks : Walks x ⟨pos, ts⟩) (h : x.run ⟨pos, ts⟩ = .ok a c) :
    ∃ passed, ts = passed ++ c.rest ∧ c = ⟨pos + passed.length, c.rest⟩ := by
  rw [Walks, h] at hwalks
  obtain ⟨passed, hpassed, hposition⟩ := hwalks
  obtain ⟨position, rest⟩ := c
  exact ⟨passed, hpassed, congrArg (Cursor.mk · rest) hposition⟩

section Elsewhere

variable {x : Parse α} {pos : Nat} {passed rest : List Token} {a : α}

/-- Where the cursor stands in the list does not matter. -/
theorem Tracks.run_at (hx : Tracks Eq x x) (hwalks : ∀ c, Walks x c) {q : Nat}
    (h : x.run ⟨pos, passed ++ rest⟩ = .ok a ⟨q, rest⟩) (pos' : Nat) :
    x.run ⟨pos', passed ++ rest⟩ = .ok a ⟨pos' + passed.length, rest⟩ := by
  have hleads : Cursor.Leads [] ⟨pos, passed ++ rest⟩ ⟨pos', passed ++ rest⟩ :=
    Cursor.Leads.refl ⟨pos, passed ++ rest⟩
  obtain ⟨b, d, hd, rfl, hleft⟩ := (hx h).2 hleads fun _ => rfl
  obtain ⟨passed', hpassed, hposition⟩ := (hwalks ⟨pos', passed ++ rest⟩).exists_passed hd
  have hlength := hleft.length_eq
  rw [List.append_nil] at hlength
  obtain ⟨rfl, hrest⟩ := List.append_inj' hpassed hlength
  rw [hd, hposition, ← hrest]

/-- A step does the same before other tokens, of which the first one is the same. -/
theorem Decides.run_before {y : Parse α} {q : Nat} {rest' : List Token}
    (hx : Decides x y ⟨pos, passed ++ rest⟩) (h : x.run ⟨pos, passed ++ rest⟩ = .ok a ⟨q, rest⟩)
    (hhead : rest.head? = rest'.head?) : y.run ⟨pos, passed ++ rest'⟩ = .ok a ⟨q, rest'⟩ := by
  have hends := hx.ends ⟨pos, passed ++ rest'⟩ rest'
  rw [EndsAlike, h] at hends
  exact hends not_false ⟨passed, rfl, rfl, hhead⟩

/-- A step that ends with a token of its own does the same before any others. -/
theorem run_closed_before (hx : ∀ c, Decides x x c) {k : Token.Kind} {q : Nat}
    (h : (do let b ← x; let _ ← expectKind k; return b : Parse α).run ⟨pos, passed ++ rest⟩ =
      .ok a ⟨q, rest⟩) (rest' : List Token) :
    (do let b ← x; let _ ← expectKind k; return b : Parse α).run ⟨pos, passed ++ rest'⟩ =
      .ok a ⟨q, rest'⟩ := by
  obtain ⟨b, u, hb, h⟩ := run_bind_ok_iff.mp h
  obtain ⟨t, v, ht, h⟩ := run_bind_ok_iff.mp h
  obtain ⟨rfl, rfl⟩ := run_pure_ok_iff.mp h
  obtain ⟨hk, left, hleft, hv⟩ := expectKind_ok_iff.mp ht
  obtain ⟨rfl, rfl⟩ := Cursor.mk.inj hv
  obtain ⟨inner, hinner, hu⟩ := (hx ⟨pos, passed ++ rest⟩).walks.exists_passed hb
  rw [hleft] at hinner hu
  have hpassed : passed = inner ++ [t] := by
    rw [List.append_cons] at hinner
    exact List.append_cancel_right hinner
  subst hpassed
  rw [hu, List.append_assoc, List.singleton_append] at hb
  have hhead : (t :: rest).head? = (t :: rest').head? := rfl
  have hb' := (hx _).run_before hb hhead
  rw [List.append_assoc, List.singleton_append, run_bind_of_ok hb',
    run_bind_of_ok (expectKind_ok_iff.mpr ⟨hk, rest', rfl, rfl⟩), hu]
  rfl

theorem run_pure_before {b : α} {q : Nat} {rest' : List Token}
    (h : (pure b : Parse α).run ⟨pos, passed ++ rest⟩ = .ok a ⟨q, rest⟩) :
    (pure b : Parse α).run ⟨pos, passed ++ rest'⟩ = .ok a ⟨q, rest'⟩ := by
  obtain ⟨rfl, hc⟩ := run_pure_ok_iff.mp h
  obtain ⟨rfl, hrest⟩ := Cursor.mk.inj hc
  rw [List.append_left_eq_self.mp hrest]
  rfl

theorem run_value_before {t : Token} {f : Value → Parse α} {q : Nat} {rest' : List Token}
    (h : (do let value ← t.value; let _ ← advance; f value : Parse α).run
      ⟨pos, t :: (passed ++ rest)⟩ = .ok a ⟨q, rest⟩)
    (hf : ∀ v, (f v).run ⟨pos + 1, passed ++ rest⟩ = .ok a ⟨q, rest⟩ →
      (f v).run ⟨pos + 1, passed ++ rest'⟩ = .ok a ⟨q, rest'⟩) :
    (do let value ← t.value; let _ ← advance; f value : Parse α).run
      ⟨pos, t :: (passed ++ rest')⟩ = .ok a ⟨q, rest'⟩ := by
  obtain ⟨v, c, hread, h⟩ := run_bind_ok_iff.mp h
  obtain ⟨hv, rfl⟩ := run_lift_ok_iff.mp hread
  rw [run_bind_of_ok (run_advance _ _ _)] at h
  rw [hv, run_bind_of_ok (run_lift_ok v _), run_bind_of_ok (run_advance _ _ _)]
  exact hf v h

end Elsewhere

section Expression

variable {depth pos q : Nat} {ts rest rest' : List Token} {a : Expr}

theorem ends_of_isOf {k : Token.Kind} {t : Token} (ht : t.isOf k = true)
    (hk : k ≠ .plus ∧ k ≠ .leftParen) (rest : List Token) : Ends (t :: rest) := by
  constructor
  · rintro _ ⟨⟩
    rw [Token.isOf_eq_decide ht, decide_eq_false hk.1]
  · rintro _ ⟨⟩
    rw [Token.isOf_eq_decide ht, decide_eq_false hk.2]

theorem token?_of_isOf {k : Token.Kind} {t : Token} (ht : t.isOf k = true) :
    (Cursor.mk pos (t :: rest)).token? = some t := by
  obtain ⟨fields, hfields⟩ := List.head?_eq_some_iff.mp (Token.isOf_iff.mp ht)
  rw [Cursor.token?, Cursor.current?, List.head?_cons, Option.filter_some, Token.isBare, hfields]
  rfl

/-- An operand passes a token, which it looks at. -/
theorem exists_first_of_operand
    (h : (operand (depth + 1)).run ⟨pos, ts ++ rest⟩ = .ok a ⟨q, rest⟩) :
    ∃ t us, ts = t :: us ∧
      ∀ left, token.run ⟨pos, t :: left⟩ = .ok t ⟨pos, t :: left⟩ := by
  have hlength := ((strides_expression (depth + 1)).2.2 _).length_lt h
  cases ts with
  | nil => exact absurd hlength (Nat.lt_irrefl _)
  | cons t us =>
    rw [operand] at h
    obtain ⟨u, c, hu, -⟩ := run_bind_ok_iff.mp h
    obtain ⟨-, ht⟩ := token_ok_iff.mp hu
    have hbare := (Option.filter_eq_some_iff.mp ht).2
    obtain rfl : t = u := Option.some.inj (Option.filter_eq_some_iff.mp ht).1
    refine ⟨t, us, rfl, fun left => token_ok_iff.mpr ⟨rfl, ?_⟩⟩
    exact Option.filter_eq_some_iff.mpr ⟨rfl, hbare⟩

theorem arguments_before {u : Token} {as : List Expr}
    (h : (parenthesized (expression depth)).run ⟨pos, u :: (ts ++ rest)⟩ = .ok as ⟨q, rest⟩)
    (rest' : List Token) :
    (parenthesized (expression depth)).run ⟨pos, u :: (ts ++ rest')⟩ = .ok as ⟨q, rest'⟩ := by
  obtain ⟨he, -, -⟩ := decides_expression (Nat.le_refl depth)
  rw [parenthesized, run_bind_of_ok (run_advance _ _ _)] at h ⊢
  exact run_closed_before (decides_commaList he (strides_expression depth).1) h rest'

/-- A call or a variable, behind its name. -/
theorem named_before {v : Value} {t : Token}
    (h : (do
        if (← get).isAt .leftParen then
          return .call v (← parenthesized (expression depth)) t.line
        else
          return .var v t.line : Parse Expr).run ⟨pos, ts ++ rest⟩ = .ok a ⟨q, rest⟩)
    (hrest : Avoids .leftParen rest') :
    (do
        if (← get).isAt .leftParen then
          return .call v (← parenthesized (expression depth)) t.line
        else
          return .var v t.line : Parse Expr).run ⟨pos, ts ++ rest'⟩ = .ok a ⟨q, rest'⟩ := by
  rw [run_get_bind] at h ⊢
  split at h
  · next hat =>
    obtain ⟨as, c, has, h⟩ := run_bind_ok_iff.mp h
    obtain ⟨rfl, rfl⟩ := run_pure_ok_iff.mp h
    cases ts with
    | nil =>
      have hstrides := strides_parenthesized (strides_expression depth).1 (rest_ne_nil_of_isAt hat)
      exact absurd (hstrides.length_lt has) (Nat.lt_irrefl _)
    | cons u us =>
      have hat' : Cursor.isAt .leftParen ⟨pos, u :: us ++ rest'⟩ = true := hat
      rw [if_pos hat']
      exact run_bind_ok_iff.mpr ⟨as, _, arguments_before has rest', rfl⟩
  · obtain ⟨rfl, hc⟩ := run_pure_ok_iff.mp h
    obtain ⟨rfl, hts⟩ := Cursor.mk.inj hc
    rw [List.append_left_eq_self.mp hts, List.nil_append, isAt_eq_false hrest]
    rfl

theorem operand_before (h : (operand depth).run ⟨pos, ts ++ rest⟩ = .ok a ⟨q, rest⟩)
    (hrest : Avoids .leftParen rest') :
    (operand depth).run ⟨pos, ts ++ rest'⟩ = .ok a ⟨q, rest'⟩ := by
  cases depth with
  | zero => cases h
  | succ depth =>
    obtain ⟨t, us, rfl, ht⟩ := exists_first_of_operand h
    obtain ⟨he, -, -⟩ := decides_expression (Nat.le_refl depth)
    rw [List.cons_append] at h ⊢
    rw [operand, run_bind_of_ok (ht _)] at h ⊢
    split
    · next hparen =>
      rw [if_pos hparen, run_bind_of_ok (run_advance _ _ _)] at h
      rw [run_bind_of_ok (run_advance _ _ _)]
      exact run_closed_before he h rest'
    next hparen =>
    rw [if_neg hparen] at h
    split
    · next hstring =>
      rw [if_pos hstring] at h
      exact run_value_before h fun _ => run_pure_before
    next hstring =>
    rw [if_neg hstring] at h
    split
    · next hnumber =>
      rw [if_pos hnumber] at h
      exact run_value_before h fun _ => run_pure_before
    next hnumber =>
    rw [if_neg hnumber] at h
    split
    · next hname =>
      rw [if_pos hname] at h
      exact run_value_before h fun _ hv => named_before hv hrest
    · next hname =>
      rw [if_neg hname] at h
      simp only [run_bind_ok_iff, run_throw, reduceCtorEq, and_false, exists_false] at h

/-- Where a sum ends: behind an operand, or behind a plus and another sum. -/
theorem sum_cases {c d : Cursor} (h : (sum (depth + 1)).run c = .ok a d) :
    (operand depth).run c = .ok a d ∨
      ∃ left right plus p more, (operand depth).run c = .ok left ⟨p, plus :: more⟩ ∧
        plus.isOf .plus = true ∧ (sum depth).run ⟨p + 1, more⟩ = .ok right d ∧
          a = .sum left right plus.line := by
  rw [sum] at h
  obtain ⟨left, ⟨p, behind⟩, hleft, h⟩ := run_bind_ok_iff.mp h
  rw [run_get_bind] at h
  cases ht : (Cursor.mk p behind).token? with
  | none =>
    rw [ht] at h
    obtain ⟨rfl, rfl⟩ := run_pure_ok_iff.mp h
    exact .inl hleft
  | some plus =>
    rw [ht] at h
    simp only at h
    split at h
    · next hplus =>
      obtain ⟨more, rfl⟩ := List.head?_eq_some_iff.mp (Option.filter_eq_some_iff.mp ht).1
      rw [run_bind_of_ok (run_advance _ _ _)] at h
      obtain ⟨right, e, hright, h⟩ := run_bind_ok_iff.mp h
      obtain ⟨rfl, rfl⟩ := run_pure_ok_iff.mp h
      exact .inr ⟨left, right, plus, p, more, hleft, hplus, hright, rfl⟩
    · obtain ⟨rfl, rfl⟩ := run_pure_ok_iff.mp h
      exact .inl hleft

theorem run_sum_of_isOf {c d : Cursor} {left right : Expr} {plus : Token} {p : Nat}
    {more : List Token} (hleft : (operand depth).run c = .ok left ⟨p, plus :: more⟩)
    (hplus : plus.isOf .plus = true) (hright : (sum depth).run ⟨p + 1, more⟩ = .ok right d) :
    (sum (depth + 1)).run c = .ok (.sum left right plus.line) d := by
  rw [sum, run_bind_of_ok hleft, run_get_bind, token?_of_isOf hplus]
  simp only [hplus, if_true]
  rw [run_bind_of_ok (run_advance _ _ _), run_bind_of_ok hright]
  rfl

/-- A sum that has been read before some tokens is read before all others that do not go on with
it. -/
theorem sum_before (h : (sum depth).run ⟨pos, ts ++ rest⟩ = .ok a ⟨q, rest⟩) (hrest : Ends rest') :
    (sum depth).run ⟨pos, ts ++ rest'⟩ = .ok a ⟨q, rest'⟩ := by
  induction depth generalizing pos ts a with
  | zero => cases h
  | succ depth ih =>
    obtain ⟨-, hs, ho⟩ := decides_expression (Nat.le_refl depth)
    obtain hoperand | ⟨left, right, plus, p, more, hleft, hplus, hright, rfl⟩ := sum_cases h
    · exact run_sum_of_avoids (operand_before hoperand hrest.2) hrest.1
    · obtain ⟨first, hfirst, -⟩ := (ho _).walks.exists_passed hleft
      obtain ⟨second, hsecond, -⟩ := (hs _).walks.exists_passed hright
      dsimp only at hfirst hsecond
      subst hsecond
      rw [← List.cons_append, ← List.append_assoc] at hfirst
      obtain rfl := List.append_cancel_right hfirst
      rw [List.append_assoc, List.cons_append] at hleft ⊢
      -- the operand sees the plus in both places
      have hhead : (plus :: (second ++ rest)).head? = (plus :: (second ++ rest')).head? := rfl
      exact run_sum_of_isOf ((ho _).run_before hleft hhead) hplus (ih hright)

theorem expression_before (h : (expression depth).run ⟨pos, ts ++ rest⟩ = .ok a ⟨q, rest⟩)
    (hrest : Ends rest') (pos' : Nat) :
    (expression depth).run ⟨pos', ts ++ rest'⟩ = .ok a ⟨pos' + ts.length, rest'⟩ := by
  have hwalks : ∀ c, _ := fun c => ((strides_expression depth).1 c).walks
  have hmoved := (expression_tracks depth).1.run_at hwalks h pos'
  cases depth with
  | zero => cases h
  | succ depth => exact sum_before hmoved hrest

end Expression

section Printed

variable {depth pos : Nat} {tokens inner rest : List Token} {a : Expr}
  {opening closing keyword semicolon : Token}

/-- The tokens are an expression from the first one to the last one. -/
def IsExpression (depth : Nat) (tokens : List Token) (tree : Expr) : Prop :=
  (expression depth).run (Cursor.ofTokens tokens) = .ok tree ⟨tokens.length, []⟩

/-- An expression in parentheses and a plus behind it come first. -/
inductive OpensSum (depth : Nat) : List Token → Prop
  | mk {opening closing plus : Token} {inner : List Token} {left : Expr} (more : List Token)
      (hopening : opening.isOf .leftParen = true) (hinner : IsExpression depth inner left)
      (hclosing : closing.isOf .rightParen = true) (hplus : plus.isOf .plus = true) :
      OpensSum depth (opening :: (inner ++ closing :: plus :: more))

theorem IsExpression.run_before (h : IsExpression depth tokens a) (hrest : Ends rest) (pos : Nat) :
    (expression depth).run ⟨pos, tokens ++ rest⟩ = .ok a ⟨pos + tokens.length, rest⟩ := by
  have hend : (expression depth).run ⟨0, tokens ++ []⟩ = .ok a ⟨tokens.length, []⟩ := by
    rw [List.append_nil]
    exact h
  exact expression_before hend hrest pos

theorem IsExpression.ne_nil (h : IsExpression depth tokens a) : tokens ≠ [] := by
  rintro rfl
  exact absurd (((strides_expression depth).1 _).length_lt h) (Nat.lt_irrefl _)

/-- What stands in the parentheses of an operand is an expression, to which more depth is left. -/
theorem isExpression_of_operand {d : Cursor} (hopening : opening.isOf .leftParen = true)
    (h : (operand depth).run ⟨pos, opening :: tokens⟩ = .ok a d) :
    ∃ inner closing, tokens = inner ++ closing :: d.rest ∧ closing.isOf .rightParen = true ∧
      ∀ depth', depth ≤ depth' → IsExpression depth' inner a := by
  cases depth with
  | zero => cases h
  | succ depth =>
    rw [operand] at h
    obtain ⟨t, c, ht, h⟩ := run_bind_ok_iff.mp h
    obtain ⟨rfl, hsome⟩ := token_ok_iff.mp ht
    obtain rfl : opening = t := Option.some.inj (Option.filter_eq_some_iff.mp hsome).1
    rw [if_pos hopening, run_bind_of_ok (run_advance _ _ _)] at h
    obtain ⟨b, u, hb, h⟩ := run_bind_ok_iff.mp h
    obtain ⟨closing, v, hclosing, h⟩ := run_bind_ok_iff.mp h
    obtain ⟨rfl, rfl⟩ := run_pure_ok_iff.mp h
    obtain ⟨hk, rest, hrest, rfl⟩ := expectKind_ok_iff.mp hclosing
    obtain ⟨inner, rfl, hu⟩ := ((strides_expression depth).1 _).walks.exists_passed hb
    rw [hrest] at hb hu
    refine ⟨inner, closing, congrArg (inner ++ ·) hrest, hk, fun depth' hdepth => ?_⟩
    rw [hu] at hb
    have hinner := expression_before hb ⟨avoids_nil _, avoids_nil _⟩ 0
    have hdecides := (decides_expression (Nat.le_of_succ_le hdepth)).1 ⟨0, inner ++ []⟩
    have hdeeper := hdecides.run_before hinner rfl
    rwa [List.append_nil, Nat.zero_add] at hdeeper

/-- An expression that begins with a parenthesis ends at the one that closes it, or goes on behind
it with a plus. -/
theorem IsExpression.cases_of_opening (hopening : opening.isOf .leftParen = true)
    (h : IsExpression depth (opening :: tokens) a) :
    (∃ inner closing, tokens = inner ++ [closing] ∧ closing.isOf .rightParen = true ∧
      IsExpression depth inner a) ∨ OpensSum depth (opening :: tokens) := by
  cases depth with
  | zero => cases h
  | succ depth =>
    cases depth with
    | zero => cases h
    | succ depth =>
      have hdepth : depth ≤ depth + 2 := Nat.le_add_right depth 2
      rcases sum_cases h with h | ⟨left, right, plus, p, more, hleft, hplus, -, -⟩
      · obtain ⟨inner, closing, htokens, hclosing, hinner⟩ := isExpression_of_operand hopening h
        exact .inl ⟨inner, closing, htokens, hclosing, hinner _ hdepth⟩
      · obtain ⟨inner, closing, rfl, hclosing, hinner⟩ := isExpression_of_operand hopening hleft
        exact .inr (.mk more hopening (hinner _ hdepth) hclosing hplus)

theorem run_printed_of_avoids (h : IsExpression depth tokens a) (hfirst : Avoids .leftParen tokens)
    (hrest : Ends rest) (pos : Nat) :
    (printed depth).run ⟨pos, tokens ++ rest⟩ = .ok a ⟨pos + tokens.length, rest⟩ := by
  have hnot : Avoids .leftParen (tokens ++ rest) := by
    rwa [Avoids, List.head?_append_of_ne_nil tokens h.ne_nil]
  rw [printed, run_get_bind, isAt_eq_false hnot]
  exact h.run_before hrest pos

/-- An expression in parentheses is printed whole, whatever it is, and whatever follows. -/
theorem run_printed_of_opening (hopening : opening.isOf .leftParen = true)
    (h : IsExpression depth inner a) (hclosing : closing.isOf .rightParen = true) (pos : Nat)
    (rest : List Token) :
    (printed depth).run ⟨pos, opening :: (inner ++ closing :: rest)⟩ =
      .ok a ⟨pos + (inner.length + 2), rest⟩ := by
  have hat : Cursor.isAt .leftParen ⟨pos, opening :: (inner ++ closing :: rest)⟩ = true := by
    rw [Cursor.isAt, token?_of_isOf hopening]
    exact hopening
  have hends : Ends (closing :: rest) := ends_of_isOf hclosing (by decide) rest
  rw [printed, run_get_bind, if_pos hat,
    run_bind_of_ok (expectKind_ok_iff.mpr ⟨hopening, _, rfl, rfl⟩),
    run_bind_of_ok (h.run_before hends _),
    run_bind_of_ok (expectKind_ok_iff.mpr ⟨hclosing, _, rfl, rfl⟩), EStateM.run_pure]
  have hposition : pos + 1 + inner.length + 1 = pos + (inner.length + 2) := by omega
  exact congrArg (fun position => EStateM.Result.ok a (Cursor.mk position rest)) hposition

theorem IsExpression.run_printed (h : IsExpression depth tokens a)
    (hnot : ¬ OpensSum depth tokens) (hrest : Ends rest) (pos : Nat) :
    (printed depth).run ⟨pos, tokens ++ rest⟩ = .ok a ⟨pos + tokens.length, rest⟩ := by
  obtain ⟨first, tokens, rfl⟩ := List.exists_cons_of_ne_nil h.ne_nil
  cases hfirst : first.isOf .leftParen with
  | false =>
    refine run_printed_of_avoids h ?_ hrest pos
    rintro _ ⟨⟩
    exact hfirst
  | true =>
    obtain ⟨inner, closing, rfl, hclosing, hinner⟩ | hopens := h.cases_of_opening hfirst
    · rw [List.cons_append, List.append_assoc, List.singleton_append,
        run_printed_of_opening hfirst hinner hclosing, List.length_cons, List.length_append]
      rfl
    · exact absurd hopens hnot

end Printed

section Statement

variable {depth pos q : Nat} {tokens rest : List Token} {a : Expr} {newline : Bool}
  {keyword semicolon opening closing next : Token}

/-- A print statement begins with its keyword. -/
theorem run_statement_of_keyword (hkeyword : keyword.isOf (.printing newline) = true)
    (hprinted : (printed depth).run ⟨pos + 1, tokens⟩ = .ok a ⟨q, rest⟩) :
    (statement depth).run ⟨pos, keyword :: tokens⟩ =
      (do let _ ← expectKind .semicolon; return .print a newline keyword.line : Parse Stmt).run
        ⟨q, rest⟩ := by
  have hstatement : (statement depth).run ⟨pos, keyword :: tokens⟩ =
      (printStatement depth (.printing newline) newline).run ⟨pos, keyword :: tokens⟩ := by
    rw [statement, run_get_bind, token?_of_isOf hkeyword]
    simp only [Token.isOf_eq_decide hkeyword]
    cases newline <;> rfl
  rw [hstatement, printStatement, run_bind_of_ok (expectKind_ok_iff.mpr ⟨hkeyword, _, rfl, rfl⟩),
    run_bind_of_ok hprinted]

theorem run_semicolon {b : Stmt} (hsemicolon : semicolon.isOf .semicolon = true) :
    (do let _ ← expectKind .semicolon; return b : Parse Stmt).run ⟨q, semicolon :: rest⟩ =
      .ok b ⟨q + 1, rest⟩ :=
  run_bind_of_ok (expectKind_ok_iff.mpr ⟨hsemicolon, rest, rfl, rfl⟩)

/-- A step that expects another kind fails at a token, and says where it is, if that can be
written. -/
theorem expectKind_refuses {k l : Token.Kind} (hnext : next.isOf l = true) (hkl : l ≠ k)
    (pos : Nat) (rest : List Token) :
    ∃ fault, (expectKind k).run ⟨pos, next :: rest⟩ = .error fault ⟨pos, next :: rest⟩ ∧
      ∀ line column, next.line.display = .ok line → next.column.display = .ok column →
        fault = .expected k.label l.label line column := by
  have hlabel : next.hasLabel (.str k.label) = false :=
    (Token.isOf_eq_decide hnext k).trans (decide_eq_false hkl)
  have hgot : next.label = .ok (.str l.label) := by
    obtain ⟨fields⟩ := next
    obtain ⟨more, rfl⟩ := List.head?_eq_some_iff.mp (Token.isOf_iff.mp hnext)
    rfl
  rw [expectKind, expect, run_get_bind]
  simp only [Cursor.current?, List.head?_cons, hlabel, Bool.false_eq_true, if_false, hgot]
  cases hline : next.line.display with
  | error fault => exact ⟨fault, rfl, fun _ _ h => by cases h⟩
  | ok line =>
    cases hcolumn : next.column.display with
    | error fault => exact ⟨fault, rfl, fun _ _ _ h => by cases h⟩
    | ok column =>
      refine ⟨_, rfl, fun line' column' h h' => ?_⟩
      rw [Except.ok.inj h, Except.ok.inj h']

theorem run_print_whole (h : IsExpression depth tokens a)
    (hkeyword : keyword.isOf (.printing newline) = true)
    (hsemicolon : semicolon.isOf .semicolon = true) (hnot : ¬ OpensSum depth tokens) :
    (statement depth).run ⟨pos, keyword :: (tokens ++ semicolon :: rest)⟩ =
      .ok (.print a newline keyword.line) ⟨pos + (tokens.length + 2), rest⟩ := by
  have hends : Ends (semicolon :: rest) := ends_of_isOf hsemicolon (by decide) rest
  have hprinted := h.run_printed hnot hends (pos + 1)
  have hposition : pos + 1 + tokens.length + 1 = pos + (tokens.length + 2) := by omega
  rw [run_statement_of_keyword hkeyword hprinted, run_semicolon hsemicolon, hposition]

theorem run_print_enclosed (h : IsExpression depth tokens a)
    (hkeyword : keyword.isOf (.printing newline) = true)
    (hsemicolon : semicolon.isOf .semicolon = true) (hopening : opening.isOf .leftParen = true)
    (hclosing : closing.isOf .rightParen = true) :
    (statement depth).run ⟨pos, keyword :: opening :: (tokens ++ closing :: semicolon :: rest)⟩ =
      .ok (.print a newline keyword.line) ⟨pos + (tokens.length + 4), rest⟩ := by
  have hprinted := run_printed_of_opening hopening h hclosing (pos + 1) (semicolon :: rest)
  have hposition : pos + 1 + (tokens.length + 2) + 1 = pos + (tokens.length + 4) := by omega
  rw [run_statement_of_keyword hkeyword hprinted, run_semicolon hsemicolon, hposition]

/-- The parentheses are taken to enclose all that is printed, so nothing may follow them. -/
theorem run_print_refused (hkeyword : keyword.isOf (.printing newline) = true)
    (hopens : OpensSum depth tokens) :
    ∃ front plus back fault, tokens = front ++ plus :: back ∧ plus.isOf .plus = true ∧
      (statement depth).run ⟨pos, keyword :: (tokens ++ rest)⟩ =
        .error fault ⟨pos + (front.length + 1), plus :: (back ++ rest)⟩ ∧
      ∀ line column, plus.line.display = .ok line → plus.column.display = .ok column →
        fault = .expected "SEMICOLON" "PLUS" line column := by
  obtain @⟨opening, closing, plus, inner, left, more, hopening, hinner, hclosing, hplus⟩ := hopens
  have hprinted := run_printed_of_opening hopening hinner hclosing (pos + 1)
    (plus :: (more ++ rest))
  obtain ⟨fault, hfault, hexpected⟩ := expectKind_refuses hplus
    (by decide : Token.Kind.plus ≠ .semicolon) (pos + 1 + (inner.length + 2)) (more ++ rest)
  refine ⟨opening :: (inner ++ [closing]), plus, more, fault, ?_, hplus, ?_, hexpected⟩
  · rw [List.cons_append, List.append_assoc, List.singleton_append]
  · rw [List.cons_append, List.append_assoc, List.cons_append, List.cons_append,
      run_statement_of_keyword hkeyword hprinted, EStateM.run_bind, hfault]
    have hposition : pos + 1 + (inner.length + 2) =
        pos + ((opening :: (inner ++ [closing])).length + 1) := by
      rw [List.length_cons, List.length_append, List.length_singleton]
      omega
    rw [hposition]

/-- A print statement takes every expression, except those in which a plus follows the parenthesis
that closes the first one: there it fails at the plus. In parentheses of their own it takes those
too. -/
theorem run_print_of_isExpression (h : IsExpression depth tokens a)
    (hkeyword : keyword.isOf (.printing newline) = true)
    (hsemicolon : semicolon.isOf .semicolon = true) (pos : Nat) (rest : List Token) :
    (¬ OpensSum depth tokens →
      (statement depth).run ⟨pos, keyword :: (tokens ++ semicolon :: rest)⟩ =
        .ok (.print a newline keyword.line) ⟨pos + (tokens.length + 2), rest⟩) ∧
    (OpensSum depth tokens → ∃ front plus back fault, tokens = front ++ plus :: back ∧
      plus.isOf .plus = true ∧
      (statement depth).run ⟨pos, keyword :: (tokens ++ semicolon :: rest)⟩ =
        .error fault ⟨pos + (front.length + 1), plus :: (back ++ semicolon :: rest)⟩ ∧
      ∀ line column, plus.line.display = .ok line → plus.column.display = .ok column →
        fault = .expected "SEMICOLON" "PLUS" line column) ∧
    ∀ opening closing, opening.isOf .leftParen = true → closing.isOf .rightParen = true →
      (statement depth).run
          ⟨pos, keyword :: opening :: (tokens ++ closing :: semicolon :: rest)⟩ =
        .ok (.print a newline keyword.line) ⟨pos + (tokens.length + 4), rest⟩ :=
  ⟨run_print_whole h hkeyword hsemicolon, run_print_refused hkeyword,
    fun _ _ => run_print_enclosed h hkeyword hsemicolon⟩

/-- A number in parentheses, and another one that is added to it. -/
def parenthesizedSummand : List Token :=
  [.placed .leftParen (.str "(") 1 9, .plain .number (.int 1), .placed .rightParen (.str ")") 1 11,
    .plain .plus (.str "+"), .plain .number (.int 2)]

theorem isExpression_parenthesizedSummand :
    IsExpression maxDepth parenthesizedSummand
      (.sum (.number (.int 1) Token.unknown) (.number (.int 2) Token.unknown) Token.unknown) :=
  rfl

/-- Such a sum is refused at its plus, and printed in parentheses. -/
theorem run_print_of_isExpression_summand :
    IsExpression maxDepth parenthesizedSummand
      (.sum (.number (.int 1) Token.unknown) (.number (.int 2) Token.unknown) Token.unknown) ∧
    OpensSum maxDepth parenthesizedSummand ∧
    (∃ front plus back fault, parenthesizedSummand = front ++ plus :: back ∧
      plus.isOf .plus = true ∧
      (statement maxDepth).run ⟨0, .plain .println (.str "println") ::
          (parenthesizedSummand ++ [.plain .semicolon (.str ";")])⟩ =
        .error fault ⟨front.length + 1, plus :: (back ++ [.plain .semicolon (.str ";")])⟩) ∧
    (statement maxDepth).run ⟨0, .plain .println (.str "println") :: .plain .leftParen (.str "(") ::
        (parenthesizedSummand ++ [.plain .rightParen (.str ")"), .plain .semicolon (.str ";")])⟩ =
      .ok (.print (.sum (.number (.int 1) Token.unknown) (.number (.int 2) Token.unknown)
        Token.unknown) true Token.unknown) ⟨9, []⟩ := by
  have hinner : IsExpression maxDepth [.plain .number (.int 1)] (.number (.int 1) Token.unknown) :=
    rfl
  have hopens : OpensSum maxDepth parenthesizedSummand :=
    .mk [.plain .number (.int 2)] (by decide) hinner (by decide) (by decide)
  obtain ⟨-, hrefused, henclosed⟩ := run_print_of_isExpression isExpression_parenthesizedSummand
    (by decide : Token.isOf (.printing true) (.plain .println (.str "println")) = true)
    (by decide : Token.isOf .semicolon (.plain .semicolon (.str ";")) = true) 0 []
  obtain ⟨front, plus, back, fault, htokens, hplus, hrun, -⟩ := hrefused hopens
  rw [Nat.zero_add] at hrun
  exact ⟨isExpression_parenthesizedSummand, hopens,
    ⟨front, plus, back, fault, htokens, hplus, hrun⟩, henclosed _ _ (by decide) (by decide)⟩

/-- Not every expression is printed. -/
theorem not_print_of_isExpression :
    ¬ ∀ tokens a newline keyword semicolon, IsExpression maxDepth tokens a →
      keyword.isOf (.printing newline) = true → semicolon.isOf .semicolon = true →
      (statement maxDepth).run (Cursor.ofTokens (keyword :: (tokens ++ [semicolon]))) =
        .ok (.print a newline keyword.line) ⟨tokens.length + 2, []⟩ := by
  intro h
  have hprinted := h parenthesizedSummand _ true (.plain .println (.str "println"))
    (.plain .semicolon (.str ";")) isExpression_parenthesizedSummand (by decide) (by decide)
  cases hprinted

end Statement

end Parse

end Scriptlet
