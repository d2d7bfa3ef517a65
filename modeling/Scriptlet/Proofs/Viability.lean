import Scriptlet.Proofs.Accepting
import Scriptlet.Proofs.Lookahead

/-! Where tokens are refused. A rule that fails has passed the beginning of a phrase that it would
have read, so the tokens before the place where a program fails can be completed. Those up to and
with the token behind that place cannot, whatever follows. -/
namespace Scriptlet

/-- A token of a kind, with no more than a leaf needs. -/
def Leaf.plain (kind : Token.Kind) : Leaf kind :=
  ⟨.plain kind .null, Token.isOf_iff.mpr rfl, Nat.le_refl 2⟩

/-- A leaf as a phrase of its own. -/
def Leaf.tokens (kind : Token.Kind) (leaf : Leaf kind) : List Token :=
  [leaf.token]

namespace Parse

open Scriptlet.Derivation

variable {α β δ ε : Type} {k : Token.Kind}

/-- The tokens of two phrases, one behind the other. -/
def inTurn (tokens : δ → List Token) (tokens' : ε → List Token) (p : δ × ε) : List Token :=
  tokens p.1 ++ tokens' p.2

/-- There is a phrase whose tokens have values. -/
def Fillable (tokens : δ → List Token) : Prop :=
  ∃ d, Valued (tokens d)

theorem Fillable.leaf (kind : Token.Kind) : Fillable (Leaf.tokens kind) :=
  ⟨.plain kind, List.forall_mem_singleton.mpr (Leaf.plain kind).hasValue⟩

theorem Fillable.inTurn {tokens : δ → List Token} {tokens' : ε → List Token}
    (h : Fillable tokens) (h' : Fillable tokens') : Fillable (inTurn tokens tokens') := by
  obtain ⟨d, hd⟩ := h
  obtain ⟨e, he⟩ := h'
  exact ⟨(d, e), List.forall_mem_append.mpr ⟨hd, he⟩⟩

/-- The tokens before `left` are the beginning of a phrase, which at least one token completes. -/
def Begins (tokens : δ → List Token) (ts left : List Token) : Prop :=
  ∃ d passed more, tokens d = passed ++ more ∧ ts = passed ++ left ∧ more ≠ [] ∧ Valued more

namespace Begins

variable {tokens : δ → List Token} {tokens' : ε → List Token} {ts left : List Token}

theorem start (d : δ) (hne : tokens d ≠ []) (hv : Valued (tokens d)) : Begins tokens ts ts :=
  ⟨d, [], tokens d, rfl, rfl, hne, hv⟩

theorem map (h : Begins tokens ts left) (g : δ → ε) (hg : ∀ d, tokens' (g d) = tokens d) :
    Begins tokens' ts left := by
  obtain ⟨d, passed, more, hd, hts, hmore⟩ := h
  exact ⟨g d, passed, more, (hg d).trans hd, hts, hmore⟩

/-- The beginning of the first of two phrases. -/
theorem first (h : Begins tokens ts left) (hfill : Fillable tokens') :
    Begins (inTurn tokens tokens') ts left := by
  obtain ⟨d, passed, more, hd, hts, hne, hv⟩ := h
  obtain ⟨e, he⟩ := hfill
  refine ⟨(d, e), passed, more ++ tokens' e, ?_, hts, List.append_ne_nil_of_left_ne_nil hne _, ?_⟩
  · rw [inTurn, hd, List.append_assoc]
  · exact List.forall_mem_append.mpr ⟨hv, he⟩

/-- The first of two phrases and the beginning of the second one. -/
theorem second (d : δ) (h : Begins tokens' ts left) :
    Begins (inTurn tokens tokens') (tokens d ++ ts) left := by
  obtain ⟨e, passed, more, he, rfl, hmore⟩ := h
  refine ⟨(d, e), tokens d ++ passed, more, ?_, ?_, hmore⟩
  · rw [inTurn, he, List.append_assoc]
  · rw [List.append_assoc]

theorem cons (leaf : Leaf k) (h : Begins tokens ts left) :
    Begins (inTurn (Leaf.tokens k) tokens) (leaf.token :: ts) left :=
  h.second leaf

end Begins

/-- Where the step fails, and has not nested too deeply, it has passed the beginning of a phrase. -/
def Viable (step : Parse α) (tokens : δ → List Token) : Prop :=
  ∀ ⦃pos ts fault c⦄, Valued ts → step.run ⟨pos, ts⟩ = .error fault c → fault ≠ .tooDeep →
    Begins tokens ts c.rest

namespace Viable

variable {x : Parse α} {f : α → Parse β} {tokens : δ → List Token} {tokens' : ε → List Token}
  {value : δ → α}

theorem pure (a : α) (tokens : δ → List Token) : Viable (pure a) tokens := nofun

theorem map (h : Viable x tokens) (g : δ → ε) (hg : ∀ d, tokens' (g d) = tokens d) :
    Viable x tokens' :=
  fun _ _ _ _ hv hx hdeep => (h hv hx hdeep).map g hg

theorem get {f : Cursor → Parse α} (h : ∀ c, Viable (f c) tokens) : Viable (get >>= f) tokens :=
  fun pos ts _ _ hv hx hdeep => h ⟨pos, ts⟩ hv hx hdeep

/-- A phrase and another one, of which there is one to put where the first one fails. -/
theorem bind (hsound : Sound x tokens value) (hx : Viable x tokens) (hfill : Fillable tokens')
    (hf : ∀ d, Viable (f (value d)) tokens') : Viable (x >>= f) (inTurn tokens tokens') := by
  intro pos ts fault c hv h hdeep
  rcases run_bind_error_iff.mp h with h | ⟨a, u, hu, h⟩
  · exact (hx hv h hdeep).first hfill
  · obtain ⟨d, rest, rfl, rfl, rfl⟩ := hsound hv hu
    exact (hf d hv.of_append h hdeep).second d

/-- A phrase, and a step behind it that does not fail. -/
theorem done (hsound : Sound x tokens value) (hx : Viable x tokens)
    (hf : ∀ d c, ∃ b c', (f (value d)).run c = .ok b c') : Viable (x >>= f) tokens := by
  intro pos ts fault c hv h hdeep
  rcases run_bind_error_iff.mp h with h | ⟨a, u, hu, h⟩
  · exact hx hv h hdeep
  · obtain ⟨d, rest, rfl, rfl, rfl⟩ := hsound hv hu
    obtain ⟨b, c', hok⟩ := hf d ⟨pos + (tokens d).length, rest⟩
    rw [hok] at h
    cases h

end Viable

theorem eq_of_stays {x : Parse α} {c d : Cursor} {fault : Fault} (hstays : Maintains (· = c) x)
    (h : x.run c = .error fault d) : d = c := by
  have hd := hstays rfl
  rwa [h] at hd

theorem expectKind_error {c d : Cursor} {fault : Fault}
    (h : (expectKind k).run c = .error fault d) : d = c := by
  rw [expectKind, expect, run_get_bind] at h
  split at h
  · exact eq_of_stays (.throw _) h
  split at h
  · cases h
  · refine eq_of_stays ?_ h
    exact (Maintains.lift _).bind fun _ => (Maintains.lift _).bind fun _ =>
      (Maintains.lift _).bind fun _ => (Maintains.lift _).bind fun _ =>
        (Maintains.lift _).bind fun _ => .throw _

theorem expectKind_viable : Viable (expectKind k) (Leaf.tokens k) := by
  intro pos ts fault c hv h _
  rw [expectKind_error h]
  exact .start (Leaf.plain k) (List.cons_ne_nil _ _)
    (List.forall_mem_singleton.mpr (Leaf.plain k).hasValue)

theorem skip_viable (kind : Token.Kind) (a : α) :
    Viable (do let _ ← expectKind kind; return a) (Leaf.tokens kind) :=
  .done expectKind_sound expectKind_viable fun _ c => ⟨a, c, rfl⟩

theorem name_viable : Viable name (Leaf.tokens .identifier) := by
  refine .done expectKind_sound expectKind_viable fun leaf c => ⟨leaf.value, c, ?_⟩
  rw [leaf.value_token]
  rfl

section Loop

variable {more : Cursor → Bool} {step : Parse α} {tokens : δ → List Token} {value : δ → α}
  (hsound : ∀ ⦃pos ts a c⦄, Valued ts → more ⟨pos, ts⟩ = true → step.run ⟨pos, ts⟩ = .ok a c →
    ∃ d rest, ts = tokens d ++ rest ∧ a = value d ∧ c = ⟨pos + (tokens d).length, rest⟩)

include hsound

theorem collectWhile_sound_flatMap (rounds : Nat) :
    Sound (collectWhile more step rounds) (List.flatMap tokens) (List.map value) := by
  intro pos ts as c hv h
  obtain ⟨ds, rest, hts, has, hc, -⟩ := collectWhile_sound hsound rounds hv h
  exact ⟨ds, rest, hts, has, hc⟩

/-- A loop that fails has passed phrases, and the beginning of another one. -/
theorem collectWhile_viable
    (hstep : ∀ ⦃pos ts fault c⦄, Valued ts → more ⟨pos, ts⟩ = true →
      step.run ⟨pos, ts⟩ = .error fault c → fault ≠ .tooDeep → Begins tokens ts c.rest)
    (rounds : Nat) : Viable (collectWhile more step rounds) (List.flatMap tokens) := by
  induction rounds with
  | zero => exact .pure _ _
  | succ rounds ih =>
    intro pos ts fault c hv h hdeep
    cases hmore : more ⟨pos, ts⟩ with
    | false =>
      rw [collectWhile_stop hmore] at h
      cases h
    | true =>
      rw [collectWhile_round hmore] at h
      rcases run_bind_error_iff.mp h with h | ⟨a, u, hu, h⟩
      · exact (hstep hv hmore h hdeep).map (fun d => [d]) fun d => by simp
      · obtain ⟨d, rest, rfl, rfl, rfl⟩ := hsound hv hmore hu
        rcases run_bind_error_iff.mp h with h | ⟨as, u, -, h⟩
        · exact ((ih hv.of_append h hdeep).second d).map (fun p => p.1 :: p.2) fun p => rfl
        · cases h

end Loop

section List

variable {item : Parse α} {tokens : δ → List Token} {value : δ → α}

/-- The tokens of items with commas between them, if there are any. -/
def itemTokens (tokens : δ → List Token) : Option (δ × List (Leaf .comma × δ)) → List Token
  | none => []
  | some (first, others) => tokens first ++ others.flatMap (further tokens)

def itemValues (value : δ → α) : Option (δ × List (Leaf .comma × δ)) → List α
  | none => []
  | some (first, others) => value first :: others.map fun entry => value entry.2

theorem further_viable (hitem : Viable item tokens) ⦃pos : Nat⦄ ⦃ts : List Token⦄ ⦃fault : Fault⦄
    ⦃c : Cursor⦄ (hv : Valued ts) (hat : Cursor.isAt .comma ⟨pos, ts⟩ = true)
    (h : (do let _ ← advance; item : Parse α).run ⟨pos, ts⟩ = .error fault c)
    (hdeep : fault ≠ .tooDeep) : Begins (further tokens) ts c.rest := by
  obtain ⟨comma, rest, rfl⟩ := exists_leaf_of_isAt hv hat
  rw [run_bind_of_ok (run_advance _ _ _)] at h
  exact (hitem hv.of_cons h hdeep).cons comma

variable (hsound : Sound item tokens value)

include hsound

theorem commaList_sound : Sound (commaList item) (itemTokens tokens) (itemValues value) := by
  intro pos ts as c hv h
  rw [commaList, run_get_bind] at h
  split at h
  · obtain ⟨a, u, hfirst, h⟩ := run_bind_ok_iff.mp h
    obtain ⟨first, rest, rfl, rfl, rfl⟩ := hsound hv hfirst
    rw [run_get_bind] at h
    obtain ⟨bs, u, hothers, h⟩ := run_bind_ok_iff.mp h
    obtain ⟨rfl, rfl⟩ := run_pure_ok_iff.mp h
    obtain ⟨others, rest, rfl, rfl, rfl⟩ :=
      collectWhile_sound_flatMap (further_sound hsound) _ hv.of_append hothers
    refine ⟨some (first, others), rest, ?_, rfl, ?_⟩
    · rw [itemTokens, List.append_assoc]
    · rw [itemTokens, List.length_append, Nat.add_assoc]
  · obtain ⟨rfl, rfl⟩ := run_pure_ok_iff.mp h
    exact ⟨none, ts, rfl, rfl, rfl⟩

variable (hitem : Viable item tokens)

include hitem

theorem commaList_viable : Viable (commaList item) (itemTokens tokens) := by
  refine .get fun c => ?_
  split
  · have hothers := collectWhile_viable (further_sound hsound) (further_viable hitem)
    have hall : Viable (do
        let first ← item
        let others ← collectWhile (Cursor.isAt .comma) (do let _ ← advance; item)
          (← get).rest.length
        return first :: others) (inTurn tokens (List.flatMap (further tokens))) :=
      .bind hsound hitem ⟨[], List.forall_mem_nil _⟩ fun first => .get fun c =>
        .done (collectWhile_sound_flatMap (further_sound hsound) c.rest.length)
          (hothers c.rest.length) fun others c => ⟨_, c, rfl⟩
    exact hall.map some fun p => rfl
  · exact .pure _ _

/-- Where a list in parentheses fails, it has passed the beginning of one. -/
theorem parenthesized_viable {pos : Nat} {ts : List Token} {fault : Fault} {c : Cursor}
    (hv : Valued ts) (hat : Cursor.isAt .leftParen ⟨pos, ts⟩ = true)
    (h : (parenthesized item).run ⟨pos, ts⟩ = .error fault c) (hdeep : fault ≠ .tooDeep) :
    Begins (Enclosed.tokens tokens) ts c.rest := by
  obtain ⟨opening, rest, rfl⟩ := exists_leaf_of_isAt hv hat
  rw [parenthesized, run_bind_of_ok (run_advance _ _ _)] at h
  have hbody : Viable (do
      let items ← commaList item
      let _ ← expectKind .rightParen
      return items) (inTurn (itemTokens tokens) (Leaf.tokens .rightParen)) :=
    .bind (commaList_sound hsound) (commaList_viable hsound hitem) (.leaf .rightParen)
      fun items => skip_viable .rightParen _
  refine ((hbody hv.of_cons h hdeep).cons opening).map (fun p => p.2.1.elim (.empty p.1 p.2.2)
    fun items => .items p.1 items.1 items.2 p.2.2) ?_
  rintro ⟨opening, _ | ⟨first, others⟩, closing⟩
  · rfl
  · simp [Enclosed.tokens, inTurn, itemTokens, Leaf.tokens]

omit hsound hitem in
theorem Fillable.optional : Fillable (Optional.tokens tokens) :=
  ⟨none, List.forall_mem_nil _⟩

theorem optionalList_viable : Viable (optionalList item) (Optional.tokens tokens) := by
  intro pos ts fault c hv h hdeep
  rw [optionalList, run_get_bind] at h
  split at h
  · next hat =>
    exact (parenthesized_viable hsound hitem hv hat h hdeep).map some fun d => rfl
  · cases h

end List

theorem tokens_number (leaf : Leaf .number) :
    (Expression.operand (.number leaf)).tokens = Leaf.tokens .number leaf := by
  rw [Expression.tokens, Operand.tokens]
  rfl

theorem Fillable.expression : Fillable Expression.tokens := by
  obtain ⟨leaf, hleaf⟩ := Fillable.leaf .number
  exact ⟨.operand (.number leaf), tokens_number leaf ▸ hleaf⟩

theorem sum_viable {depth : Nat} (ho : Viable (operand depth) Operand.tokens)
    (hs : Viable (sum depth) Expression.tokens) :
    Viable (sum (depth + 1)) Expression.tokens := by
  intro pos ts fault c hv h hdeep
  rw [sum] at h
  rcases run_bind_error_iff.mp h with h | ⟨left, u, hleft, h⟩
  · exact (ho hv h hdeep).map .operand fun o => by rw [Expression.tokens]
  · obtain ⟨o, rest, rfl, rfl, rfl⟩ := (expression_sound depth).2.2 hv hleft
    rw [run_get_bind] at h
    cases rest with
    | nil => cases h
    | cons t rest =>
      rw [token?_cons (hv.of_append t List.mem_cons_self)] at h
      by_cases hplus : t.isOf .plus = true
      · simp only [hplus, if_true, run_bind_of_ok (run_advance _ _ _)] at h
        rcases run_bind_error_iff.mp h with h | ⟨right, u, -, h⟩
        · let plus : Leaf .plus := ⟨t, hplus, hv.of_append t List.mem_cons_self⟩
          have hright := (hs hv.of_append.of_cons h hdeep).cons plus
          exact (hright.second o).map (fun p => .sum p.1 p.2.1 p.2.2) fun p => by
            rw [Expression.tokens]
            rfl
        · cases h
      · simp only [hplus] at h
        cases h

/-- What stands in parentheses: an expression and the closing one. -/
theorem inner_viable {depth : Nat} (he : Viable (expression depth) Expression.tokens) :
    Viable (do
      let inner ← expression depth
      let _ ← expectKind .rightParen
      return inner) (inTurn Expression.tokens (Leaf.tokens .rightParen)) :=
  .bind (expression_sound depth).1 he (.leaf .rightParen) fun _ => skip_viable .rightParen _

theorem operand_viable {depth : Nat} (he : Viable (expression depth) Expression.tokens) :
    Viable (operand (depth + 1)) Operand.tokens := by
  intro pos ts fault c hv h hdeep
  have hsound := (expression_sound depth).1
  have hnumber : Begins Operand.tokens ts ts := by
    refine .start (.number (Leaf.plain .number)) ?_ ?_ <;> rw [Operand.tokens]
    · exact List.cons_ne_nil _ _
    · exact List.forall_mem_singleton.mpr (Leaf.plain .number).hasValue
  cases ts with
  | nil =>
    cases h
    exact hnumber
  | cons t rest =>
    have ht := hv t List.mem_cons_self
    have hleaf : ∀ k, t.isOf k = true → ∃ leaf : Leaf k, leaf.token = t :=
      fun k hk => ⟨⟨t, hk, ht⟩, rfl⟩
    by_cases hparen : t.isOf .leftParen = true
    · obtain ⟨opening, rfl⟩ := hleaf _ hparen
      rw [run_operand_paren] at h
      have hinner := inner_viable he hv.of_cons h hdeep
      exact (hinner.cons opening).map (fun p => .paren p.1 p.2.1 p.2.2) fun p => by
        rw [Operand.tokens]
        rfl
    by_cases hstring : t.isOf .string = true
    · obtain ⟨leaf, rfl⟩ := hleaf _ hstring
      rw [run_operand_string] at h
      cases h
    by_cases hnumeral : t.isOf .number = true
    · obtain ⟨leaf, rfl⟩ := hleaf _ hnumeral
      rw [run_operand_number] at h
      cases h
    by_cases hname : t.isOf .identifier = true
    · obtain ⟨leaf, rfl⟩ := hleaf _ hname
      rw [run_operand_identifier] at h
      split at h
      · next hat =>
        rcases run_bind_error_iff.mp h with h | ⟨arguments, u, -, h⟩
        · have harguments := parenthesized_viable hsound he hv.of_cons hat h hdeep
          exact (harguments.cons leaf).map (fun p => .call p.1 p.2) fun p => by
            rw [Operand.tokens, Expression.tokensOfEnclosed_eq]
            rfl
        · cases h
      · cases h
    · rw [operand, run_bind_of_ok (run_token ht _ _), if_neg hparen, if_neg hstring,
        if_neg hnumeral, if_neg hname] at h
      rw [eq_of_stays ((Maintains.lift _).bind fun _ => (Maintains.lift _).bind fun _ =>
        (Maintains.lift _).bind fun _ => (Maintains.lift _).bind fun _ => .throw _) h]
      exact hnumber

theorem expression_viable (depth : Nat) :
    Viable (expression depth) Expression.tokens ∧ Viable (sum depth) Expression.tokens ∧
      Viable (operand depth) Operand.tokens := by
  induction depth with
  | zero =>
    refine ⟨?_, ?_, ?_⟩ <;>
    · intro pos ts fault c _ h hdeep
      cases h
      exact absurd rfl hdeep
  | succ depth ih =>
    obtain ⟨hexpression, hsum, hoperand⟩ := ih
    exact ⟨hsum, sum_viable hoperand hsum, operand_viable hexpression⟩

theorem Fillable.printed : Fillable Printed.tokens := by
  obtain ⟨e, he⟩ := Fillable.expression
  let opening := Leaf.plain .leftParen
  let closing := Leaf.plain .rightParen
  refine ⟨.enclosed opening e closing, ?_⟩
  simp only [Printed.tokens, Valued, List.forall_mem_cons, List.forall_mem_append]
  exact ⟨opening.hasValue, he, closing.hasValue, List.forall_mem_nil _⟩

theorem printed_tokens_ne_nil (p : Printed) : p.tokens ≠ [] := by
  cases p with
  | enclosed opening inner closing => exact List.cons_ne_nil _ _
  | bare inner plain =>
    obtain ⟨k, leaf, ts, ht, -⟩ := inner.begins
    rw [Printed.tokens, ht]
    exact List.cons_ne_nil _ _

theorem printed_viable (depth : Nat) : Viable (printed depth) Printed.tokens := by
  obtain ⟨he, -, -⟩ := expression_viable depth
  have hsound := (expression_sound depth).1
  intro pos ts fault c hv h hdeep
  rw [printed, run_get_bind] at h
  split at h
  · have hall : Viable (do
        let _ ← expectKind .leftParen
        let inner ← expression depth
        let _ ← expectKind .rightParen
        return inner) (inTurn (Leaf.tokens .leftParen)
          (inTurn Expression.tokens (Leaf.tokens .rightParen))) :=
      .bind expectKind_sound expectKind_viable (.inTurn .expression (.leaf .rightParen))
        fun _ => inner_viable he
    exact (hall hv h hdeep).map (fun p => .enclosed p.1 p.2.1 p.2.2) fun p => rfl
  · next hat =>
    have hplain := avoids_of_isAt hv hat
    obtain ⟨e, passed, more, htokens, rfl, hmore⟩ := he hv h hdeep
    cases passed with
    | nil =>
      -- nothing of `e` is passed, and it may begin with a parenthesis
      obtain ⟨p, hp⟩ := Fillable.printed
      exact .start p (printed_tokens_ne_nil p) hp
    | cons t passed =>
      refine ⟨.bare e fun u hu => hplain u ?_, t :: passed, more, htokens, rfl, hmore⟩
      rw [htokens] at hu
      exact hu

section Depth

variable (depth : Nat)

theorem printStatement_viable (newline : Bool) :
    Viable (printStatement depth k newline)
      (inTurn (Leaf.tokens k) (inTurn Printed.tokens (Leaf.tokens .semicolon))) :=
  .bind expectKind_sound expectKind_viable (.inTurn .printed (.leaf .semicolon)) fun _ =>
    .bind (printed_sound depth) (printed_viable depth) (.leaf .semicolon) fun _ => skip_viable _ _

theorem callStatement_viable :
    Viable (callStatement depth)
      (inTurn (Leaf.tokens .call) (inTurn (Leaf.tokens .identifier)
        (inTurn (Optional.tokens Expression.tokens) (Leaf.tokens .semicolon)))) :=
  .bind expectKind_sound expectKind_viable
      (.inTurn (.leaf .identifier) (.inTurn .optional (.leaf .semicolon))) fun _ =>
    .bind name_sound name_viable (.inTurn .optional (.leaf .semicolon)) fun _ =>
      .bind (optionalList_sound (expression_sound depth).1)
        (optionalList_viable (expression_sound depth).1 (expression_viable depth).1)
        (.leaf .semicolon) fun _ => skip_viable _ _

theorem assignment_viable :
    Viable (assignment depth)
      (inTurn (Leaf.tokens .assign) (inTurn (Leaf.tokens .identifier) (inTurn (Leaf.tokens .assign)
        (inTurn Expression.tokens (Leaf.tokens .semicolon))))) := by
  have hvalue := Fillable.expression.inTurn (.leaf .semicolon)
  have hsign := (Fillable.leaf .assign).inTurn hvalue
  exact .bind expectKind_sound expectKind_viable (.inTurn (.leaf .identifier) hsign) fun _ =>
    .bind name_sound name_viable hsign fun _ =>
      .bind expectKind_sound expectKind_viable hvalue fun _ =>
        .bind (expression_sound depth).1 (expression_viable depth).1 (.leaf .semicolon) fun _ =>
          skip_viable _ _

theorem stays_unexpected (t : Token) (c : Cursor) : Maintains (· = c) (unexpected t : Parse α) :=
  (Maintains.lift _).bind fun _ => .throw _

theorem statement_viable : Viable (statement depth) Statement.tokens := by
  intro pos ts fault c hv h hdeep
  have hnone : Begins Statement.tokens ts ts := by
    obtain ⟨d, hd⟩ := (Fillable.leaf .print).inTurn (Fillable.printed.inTurn (.leaf .semicolon))
    exact .start (.print d.1 d.2.1 d.2.2) (List.cons_ne_nil _ _) hd
  rw [statement, run_get_bind] at h
  cases ts with
  | nil =>
    cases h
    exact hnone
  | cons t rest =>
    simp only [token?_cons (hv t List.mem_cons_self)] at h
    split at h
    · exact (printStatement_viable depth false hv h hdeep).map
        (fun d => .print d.1 d.2.1 d.2.2) fun d => rfl
    split at h
    · exact (printStatement_viable depth true hv h hdeep).map
        (fun d => .println d.1 d.2.1 d.2.2) fun d => rfl
    split at h
    · exact (callStatement_viable depth hv h hdeep).map
        (fun d => .call d.1 d.2.1 d.2.2.1 d.2.2.2) fun d => rfl
    split at h
    · exact (assignment_viable depth hv h hdeep).map
        (fun d => .assign d.1 d.2.1 d.2.2.1 d.2.2.2.1 d.2.2.2.2) fun d => rfl
    split at h
    · cases h
      exact hnone
    · rw [eq_of_stays (stays_unexpected t _) h]
      exact hnone

theorem Fillable.block : Fillable Block.tokens := by
  obtain ⟨d, hd⟩ := (Fillable.leaf .leftBrace).inTurn (.leaf .rightBrace)
  exact ⟨⟨d.1, [], d.2⟩, hd⟩

theorem block_viable : Viable (block depth) Block.tokens := by
  have hsound := fun ⦃pos ts a c⦄ (hv : Valued ts)
    (_ : Cursor.isBefore .rightBrace ⟨pos, ts⟩ = true)
    (h : (statement depth).run ⟨pos, ts⟩ = .ok a c) => statement_sound depth hv h
  have hbody := collectWhile_sound_flatMap hsound
  have hviable := collectWhile_viable hsound fun _ _ _ _ hv _ h hdeep =>
    statement_viable depth hv h hdeep
  have hall : Viable (block depth) (inTurn (Leaf.tokens .leftBrace)
      (inTurn (List.flatMap Statement.tokens) (Leaf.tokens .rightBrace))) :=
    .bind expectKind_sound expectKind_viable
        (.inTurn ⟨[], List.forall_mem_nil _⟩ (.leaf .rightBrace)) fun _ => .get fun c =>
      .bind (hbody c.rest.length) (hviable c.rest.length) (.leaf .rightBrace) fun _ =>
        skip_viable _ _
  exact hall.map (fun d => ⟨d.1, d.2.1, d.2.2⟩) fun d => rfl

theorem functionDeclaration_viable :
    Viable (functionDeclaration depth)
      (inTurn (Leaf.tokens .func) (inTurn (Leaf.tokens .colon) (inTurn (Leaf.tokens .identifier)
        (inTurn (Optional.tokens (Leaf.tokens .identifier)) Block.tokens)))) := by
  have hparams : Fillable (inTurn (Optional.tokens (Leaf.tokens .identifier)) Block.tokens) :=
    .inTurn .optional .block
  have hname := (Fillable.leaf .identifier).inTurn hparams
  exact .bind expectKind_sound expectKind_viable (.inTurn (.leaf .colon) hname) fun _ =>
    .bind expectKind_sound expectKind_viable hname fun _ =>
      .bind expectKind_sound expectKind_viable hparams fun leaf =>
        .bind (optionalList_sound name_sound) (optionalList_viable name_sound name_viable) .block
          fun _ => .done (block_sound depth) (block_viable depth) fun _ c => by
            rw [leaf.value_token]
            exact ⟨_, c, rfl⟩

theorem declaration_viable : Viable (declaration depth) Declaration.tokens := by
  intro pos ts fault c hv h hdeep
  have hnone : Begins Declaration.tokens ts ts := by
    obtain ⟨d, hd⟩ := (Fillable.leaf .enter).inTurn Fillable.block
    exact .start (.entry d.1 d.2) (List.cons_ne_nil _ _) hd
  rw [declaration, run_get_bind] at h
  cases ts with
  | nil =>
    cases h
    exact hnone
  | cons t rest =>
    simp only [token?_cons (hv t List.mem_cons_self)] at h
    split at h
    · exact (functionDeclaration_viable depth hv h hdeep).map
        (fun d => .function d.1 d.2.1 d.2.2.1 d.2.2.2.1 d.2.2.2.2) fun d => rfl
    split at h
    · have hentry : Viable (entryBlock depth) (inTurn (Leaf.tokens .enter) Block.tokens) :=
        .bind expectKind_sound expectKind_viable .block fun _ =>
          .done (block_sound depth) (block_viable depth) fun _ c => ⟨_, c, rfl⟩
      exact (hentry hv h hdeep).map (fun d => .entry d.1 d.2) fun d => rfl
    · rw [eq_of_stays (stays_unexpected t _) h]
      exact hnone

theorem program_viable : Viable (program depth) Derivation.tokens := by
  have hsound := fun ⦃pos ts a c⦄ (hv : Valued ts) (_ : (Cursor.mk pos ts).token?.isSome = true)
    (h : (declaration depth).run ⟨pos, ts⟩ = .ok a c) => declaration_sound depth hv h
  have hall : Viable (program depth) (List.flatMap Declaration.tokens) :=
    .get fun c => .done (collectWhile_sound_flatMap hsound c.rest.length)
      (collectWhile_viable hsound (fun _ _ _ _ hv _ h hdeep => declaration_viable depth hv h hdeep)
        c.rest.length) fun _ c => ⟨_, c, rfl⟩
  exact hall.map Derivation.mk fun ds => rfl

end Depth

/-- Tokens that are read to a program, at some depth. -/
def Accepts (tokens : List Token) : Prop :=
  ∃ depth program c, (parse depth []).run (Cursor.ofTokens tokens) = .ok program c

theorem accepts_of_derivation (d : Derivation) : Accepts d.tokens :=
  ⟨_, _, _, program_complete d (Nat.le_refl _)⟩

/-- A step ends in the same way where only its depth differs. -/
theorem Decides.run_eq {x y : Parse α} {c : Cursor} (h : Decides x y c)
    (hdeep : ¬ TooDeep (x.run c)) : y.run c = x.run c := by
  obtain ⟨passed, hpassed, -⟩ := h.walks
  have hy := h.ends c (stateOf (x.run c)).rest hdeep ⟨passed, hpassed, ?_, rfl⟩
  · rw [hy]
    cases x.run c <;> rfl
  · rw [← hpassed]

section Refused

variable {depth : Nat} {tokens : List Token} {fault : Fault} {c : Cursor}
  (h : (program depth).run (Cursor.ofTokens tokens) = .error fault c) (hdeep : fault ≠ .tooDeep)

include h

theorem rest_of_error : c.rest = tokens.drop c.position ∧ c.position ≤ tokens.length := by
  have hwalks := walks_program depth (Cursor.ofTokens tokens)
  rw [Walks, h] at hwalks
  obtain ⟨passed, hpassed, hposition⟩ := hwalks
  have hlen : c.position = passed.length := hposition.trans (Nat.zero_add _)
  have htokens : tokens = passed ++ c.rest := hpassed
  rw [hlen, htokens, List.drop_left, List.length_append]
  exact ⟨rfl, Nat.le_add_right _ _⟩

include hdeep

/-- The tokens before the failure and the one behind it are refused, whatever follows them. -/
theorem not_accepts_of_error {left : List Token} (hleft : left.head? = c.rest.head?) :
    ¬ Accepts (tokens.take c.position ++ left) := by
  rintro ⟨depth', p, d, haccepted⟩
  obtain ⟨hrest, -⟩ := rest_of_error h
  have htokens : tokens = tokens.take c.position ++ c.rest := by
    rw [hrest, List.take_append_drop]
  change (program depth').run _ = _ at haccepted
  have hlarge := (decides_program (Nat.le_max_right depth depth')
    (Cursor.ofTokens (tokens.take c.position ++ left))).run_eq
  rw [haccepted] at hlarge
  have hfails := (decides_program (Nat.le_max_left depth depth') (Cursor.ofTokens tokens)).ends
    (Cursor.ofTokens (tokens.take c.position ++ left)) left
  rw [EndsAlike, h] at hfails
  have hrun := hfails hdeep ⟨tokens.take c.position, htokens, rfl, hleft.symm⟩
  rw [hlarge not_false] at hrun
  cases hrun

end Refused

/-- Tokens are refused at the first impossible one. Those before it can be completed, and no tokens
that begin with those up to and with it are accepted. Where there is no such token, the tokens are
themselves the beginning of more that are accepted. -/
theorem parse_error_viable (depth : Nat) (tokens : List Token)
    (hv : ∀ t ∈ tokens, 2 ≤ t.fields.length) (fault : Fault) (c : Cursor)
    (h : (parse depth []).run (Cursor.ofTokens tokens) = .error fault c)
    (hdeep : fault ≠ .tooDeep) :
    c.position ≤ tokens.length ∧
      (∃ more, (∀ t ∈ more, 2 ≤ t.fields.length) ∧ Accepts (tokens.take c.position ++ more)) ∧
      (c.position < tokens.length → ∀ more, ¬ Accepts (tokens.take (c.position + 1) ++ more)) ∧
      (c.position = tokens.length →
        ∃ more, more ≠ [] ∧ (∀ t ∈ more, 2 ≤ t.fields.length) ∧ Accepts (tokens ++ more)) := by
  obtain ⟨hrest, hposition⟩ := rest_of_error h
  obtain ⟨d, passed, more, hd, hpassed, hne, hmore⟩ := program_viable depth hv h hdeep
  have hviable : Accepts (tokens.take c.position ++ more) := by
    rw [← List.take_append_drop c.position tokens, ← hrest] at hpassed
    rw [List.append_cancel_right hpassed, ← hd]
    exact accepts_of_derivation d
  refine ⟨hposition, ⟨more, hmore, hviable⟩, fun hlt more => ?_, fun hend => ?_⟩
  · rw [List.take_add_one, List.append_assoc]
    refine not_accepts_of_error h hdeep ?_
    rw [hrest, List.head?_drop, List.getElem?_eq_getElem hlt]
    rfl
  · rw [hend, List.take_length] at hviable
    exact ⟨more, hne, hmore, hviable⟩

/-- The tokens of `enter { print 1 + ; }`. -/
def missingOperand : List Token :=
  [.plain .enter (.str "enter"), .placed .leftBrace (.str "\x7b") 1 7, .plain .print (.str "print"),
   .plain .number (.int 1), .plain .plus (.str "+"), .plain .semicolon (.str ";"),
   .placed .rightBrace (.str "\x7d") 1 20]

theorem parse_missingOperand_viable :
    (∃ more, (∀ t ∈ more, 2 ≤ t.fields.length) ∧ Accepts (missingOperand.take 5 ++ more)) ∧
      ∀ more, ¬ Accepts (missingOperand.take 6 ++ more) := by
  have hv : ∀ t ∈ missingOperand, 2 ≤ t.fields.length := by decide
  have hparse : (parse 41 []).run (Cursor.ofTokens missingOperand) = .error _ _ := rfl
  obtain ⟨-, hviable, hrefused, -⟩ := parse_error_viable 41 missingOperand hv _ _ hparse nofun
  exact ⟨hviable, hrefused (by decide)⟩

end Parse

end Scriptlet
