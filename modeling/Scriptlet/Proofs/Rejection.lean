import Scriptlet.Proofs.History
import Scriptlet.Proofs.Lexical
import Scriptlet.Proofs.Viability

/-! What kind of fault a source is refused with. Two tokens decide it: the one behind the cursor,
and the last one before it, which tells whether a statement may begin there. -/
namespace Scriptlet

variable {α β : Type}

/-- Whether a statement may begin behind a token of the kind. -/
def Token.Kind.opensStatement (k : Token.Kind) : Bool :=
  decide (k = .leftBrace) || decide (k = .semicolon)

namespace Parse

/-- Whether a statement may begin behind the tokens. -/
def opensStatement (passed : List Token) : Bool :=
  passed.getLast?.any fun t => t.isOf .leftBrace || t.isOf .semicolon

/-- Whether there is no rule for the statements that begin with the token. -/
def lacksRule (t : Token) : Bool :=
  missingRules.any fun entry => t.isOf entry.1

/-- The kind of fault with which tokens are refused, from those before the cursor and those behind
it. -/
def refusal (passed left : List Token) : Fault.Kind :=
  match left.head? with
  | none => .type
  | some t => if opensStatement passed && lacksRule t then .member else .malformed

end Parse

namespace Token

/-- A field of the token is an integer of too many digits to be shown. -/
def Unwritten (t : Token) : Prop :=
  ∃ v ∈ t.fields, v.quoted = .error .digitsToShow

/-- The computation fails only for a field of the token that cannot be shown. -/
def Words (t : Token) (x : Except Fault α) : Prop :=
  ∀ fault, x = .error fault → fault = .digitsToShow ∧ t.Unwritten

theorem Words.ok (t : Token) (a : α) : Words t (.ok a) := nofun

theorem Words.bind {t : Token} {x : Except Fault α} {f : α → Except Fault β} (hx : Words t x)
    (hf : ∀ a, Words t (f a)) : Words t (x >>= f) := by
  intro fault h
  cases x with
  | ok a => exact hf a fault h
  | error other =>
    cases h
    exact hx fault rfl

end Token

namespace Value

theorem quoted_error_of_int {z : Int} {fault : Fault} (h : (Value.int z).quoted = .error fault) :
    fault = .digitsToShow ∧ tooManyDigits ≤ z.natAbs := by
  rw [quoted, integerText] at h
  split at h
  · next hz => exact ⟨(Except.error.inj h).symm, hz⟩
  · cases h

theorem quotedItems_error {values : List Value} {fault : Fault}
    (h : quotedItems values = .error fault) : ∃ v ∈ values, v.quoted = .error fault := by
  induction values with
  | nil => cases h
  | cons v rest ih =>
    rw [quotedItems] at h
    cases hv : v.quoted with
    | error other =>
      rw [hv] at h
      cases h
      exact ⟨v, List.mem_cons_self, hv⟩
    | ok text =>
      cases hrest : quotedItems rest with
      | error other =>
        rw [hv, hrest] at h
        cases h
        obtain ⟨w, hw, hquoted⟩ := ih hrest
        exact ⟨w, List.mem_cons_of_mem v hw, hquoted⟩
      | ok texts =>
        rw [hv, hrest] at h
        cases h

theorem display_error {v : Value} {fault : Fault} (h : v.display = .error fault) :
    v.quoted = .error fault := by
  cases v with
  | str s => cases h
  | _ => exact h

end Value

namespace Token.Lexed

variable {t : Token} (h : t.Lexed)

include h

/-- The fields of a token of a source are texts and numbers. -/
theorem field_cases {v : Value} (hv : v ∈ t.fields) :
    (∃ s, v = .str s) ∨ (∃ x, v = .float x) ∨ ∃ z, v = .int z := by
  cases h with
  | @plain kind value hfits =>
    rcases List.mem_pair.mp hv with rfl | rfl
    · exact .inl ⟨_, rfl⟩
    · cases kind with
      | number =>
        obtain ⟨n, rfl⟩ := hfits
        exact .inr (.inr ⟨n, rfl⟩)
      | float => exact .inr (.inl hfits)
      | _ => exact .inl hfits
  | placed line column _ =>
    simp only [Token.placed, List.mem_cons, List.not_mem_nil, or_false] at hv
    rcases hv with rfl | rfl | rfl | rfl
    · exact .inl ⟨_, rfl⟩
    · exact .inl ⟨_, rfl⟩
    · exact .inr (.inr ⟨_, rfl⟩)
    · exact .inr (.inr ⟨_, rfl⟩)

theorem words_field {v : Value} (hv : v ∈ t.fields) : Words t v.quoted := by
  intro fault hfault
  rcases h.field_cases hv with ⟨s, rfl⟩ | ⟨x, rfl⟩ | ⟨z, rfl⟩
  · cases hfault
  · cases hfault
  · obtain ⟨rfl, -⟩ := Value.quoted_error_of_int hfault
    exact ⟨rfl, _, hv, hfault⟩

theorem words_display {v : Value} (hv : v ∈ t.fields) : Words t v.display :=
  fun fault hfault => h.words_field hv fault (Value.display_error hfault)

theorem words_line : Words t t.line.display := by
  obtain ⟨fields⟩ := t
  match fields with
  | [] | [_] | [_, _] => exact .ok _ "unknown"
  | _ :: _ :: _ :: _ =>
    exact h.words_display (List.mem_cons_of_mem _ (List.mem_cons_of_mem _ List.mem_cons_self))

theorem words_column : Words t t.column.display := by
  obtain ⟨fields⟩ := t
  match fields with
  | [] | [_] | [_, _] | [_, _, _] => exact .ok _ "unknown"
  | _ :: _ :: _ :: _ :: _ =>
    exact h.words_display (List.mem_cons_of_mem _ (List.mem_cons_of_mem _
      (List.mem_cons_of_mem _ List.mem_cons_self)))

theorem words_quoted : Words t t.quoted := by
  refine Words.bind (fun fault hfault => ?_) fun texts => ?_
  · obtain ⟨v, hv, hquoted⟩ := Value.quotedItems_error hfault
    exact h.words_field hv fault hquoted
  · split <;> exact .ok t _

theorem exists_label : ∃ v ∈ t.fields, t.label = .ok v := by
  cases h <;> exact ⟨_, List.mem_cons_self, rfl⟩

theorem exists_value : ∃ v, t.value = .ok v := by
  cases h <;> exact ⟨_, rfl⟩

end Token.Lexed

namespace Parse

/-- The step fails where it stands, for the token or because the token cannot be written. -/
def Blames (t : Token) (x : Parse α) (c : Cursor) : Prop :=
  ∃ fault, x.run c = .error fault c ∧
    (fault.kind = .malformed ∨ fault = .digitsToShow ∧ t.Unwritten)

section Blames

variable {t : Token} {c : Cursor}

theorem Blames.throw {fault : Fault} (h : fault.kind = .malformed) :
    Blames t (throw fault : Parse α) c :=
  ⟨fault, rfl, .inl h⟩

theorem Blames.lift {x : Except Fault α} {f : α → Parse β} (hx : t.Words x)
    (hf : ∀ a, x = .ok a → Blames t (f a) c) : Blames t (liftM x >>= f) c := by
  cases x with
  | ok a => exact hf a rfl
  | error fault => exact ⟨fault, rfl, .inr (hx fault rfl)⟩

variable (ht : t.Lexed)

include ht

theorem Blames.label {f : String → Parse α} (hf : ∀ text, Blames t (f text) c) :
    Blames t (do f (← (← t.label).display)) c := by
  obtain ⟨v, hv, hlabel⟩ := ht.exists_label
  refine .lift (hlabel ▸ .ok t v) fun w hw => .lift (ht.words_display ?_) fun text _ => hf text
  rw [hlabel] at hw
  exact Except.ok.inj hw ▸ hv

theorem blames_place {f : String → String → Parse α}
    (hf : ∀ line column, Blames t (f line column) c) :
    Blames t (do f (← t.line.display) (← t.column.display)) c :=
  .lift ht.words_line fun line _ => .lift ht.words_column fun column _ => hf line column

theorem blames_unexpected : Blames t (unexpected t : Parse α) c :=
  .lift ht.words_quoted fun _ _ => .throw rfl

theorem blames_expectKind {k : Token.Kind} (hk : t.isOf k = false) (pos : Nat)
    (rest : List Token) : Blames t (expectKind k) ⟨pos, t :: rest⟩ := by
  have hlabel : t.hasLabel (.str k.label) = false := hk
  have h : Blames t (do
      throw (.expected (← (Value.str k.label).display) (← (← t.label).display) (← t.line.display)
        (← t.column.display)) : Parse Token) ⟨pos, t :: rest⟩ :=
    .lift (.ok t k.label) fun _ _ => .label ht fun _ => blames_place ht fun _ _ => .throw rfl
  rw [Blames, expectKind, expect, run_get_bind]
  simp only [Cursor.current?, List.head?_cons, hlabel, Bool.false_eq_true, if_false]
  exact h

end Blames

/-- The fault with which tokens are refused, unless the step has nested too deeply, or the token
behind the cursor cannot be written. -/
def Refused (passed left : List Token) (fault : Fault) : Prop :=
  fault = .tooDeep ∨ fault.kind = refusal passed left ∨
    fault = .digitsToShow ∧ ∃ t ∈ left.head?, t.Unwritten

/-- The step has ended before a statement or not, or has refused the tokens. -/
def Reported (post : Bool) (passed : List Token) : EStateM.Result Fault Cursor α → Prop
  | .ok _ _ => opensStatement passed = post
  | .error fault d => Refused passed d.rest fault

/-- Behind tokens that do or do not open a statement, the step passes others that do or do not, or
refuses them. -/
def Reports (pre post : Bool) (x : Parse α) (c : Cursor) : Prop :=
  ∀ before, opensStatement before = pre → (∀ t ∈ c.rest, t.Lexed) →
    ∃ passed, c.rest = passed ++ (stateOf (x.run c)).rest ∧
      Reported post (before ++ passed) (x.run c)

namespace Reports

variable {pre mid post : Bool} {x : Parse α} {f : α → Parse β} {c : Cursor}

theorem stay (h : ∀ before, opensStatement before = pre → (∀ t ∈ c.rest, t.Lexed) →
    Reported post before (x.run c) ∧ (stateOf (x.run c)).rest = c.rest) : Reports pre post x c := by
  intro before hbefore hlexed
  obtain ⟨hreported, hstate⟩ := h before hbefore hlexed
  refine ⟨[], hstate.symm, ?_⟩
  rwa [List.append_nil]

theorem pure (a : α) : Reports pre pre (pure a) c :=
  stay fun _ hbefore _ => ⟨hbefore, rfl⟩

theorem tooDeep : Reports pre post (throw .tooDeep : Parse α) c :=
  stay fun _ _ _ => ⟨.inl rfl, rfl⟩

theorem bind (hx : Reports pre mid x c) (hf : ∀ a d, x.run c = .ok a d → Reports mid post (f a) d) :
    Reports pre post (x >>= f) c := by
  intro before hbefore hlexed
  obtain ⟨passed, hpassed, hreported⟩ := hx before hbefore hlexed
  rw [EStateM.run_bind]
  cases hr : x.run c with
  | error fault d =>
    rw [hr] at hpassed hreported
    exact ⟨passed, hpassed, hreported⟩
  | ok a d =>
    rw [hr] at hpassed hreported
    have hlexed' : ∀ t ∈ d.rest, t.Lexed := fun t ht =>
      hlexed t (hpassed ▸ List.mem_append_right passed ht)
    obtain ⟨passed', hpassed', hreported'⟩ := hf a d hr (before ++ passed) hreported hlexed'
    refine ⟨passed ++ passed', ?_, ?_⟩
    · rw [hpassed, List.append_assoc]
      exact congrArg (passed ++ ·) hpassed'
    · rwa [← List.append_assoc]

theorem get {f : Cursor → Parse α} (h : Reports pre post (f c) c) :
    Reports pre post (get >>= f) c :=
  h

/-- The tokens of a source may be taken for granted. -/
theorem lexed (h : (∀ t ∈ c.rest, t.Lexed) → Reports pre post x c) : Reports pre post x c :=
  fun before hbefore hlexed => h hlexed before hbefore hlexed

theorem lift {y : Except Fault β} {b : β} {f : β → Parse α} (hy : y = .ok b)
    (h : Reports pre post (f b) c) : Reports pre post (liftM y >>= f) c := by
  subst hy
  exact h

/-- A fault at a token that no statement without a rule begins with, where one may begin. -/
theorem blame {t : Token} (h : t.Lexed → Blames t x c) (ht : c.rest.head? = some t)
    (hrule : pre = true → lacksRule t = false) : Reports pre post x c := by
  refine stay fun before hbefore hlexed => ?_
  obtain ⟨fault, hfault, hkind⟩ := h (hlexed t (List.mem_of_mem_head? ht))
  rw [hfault]
  refine ⟨.inr ?_, rfl⟩
  rcases hkind with hkind | ⟨rfl, hunwritten⟩
  · refine .inl ?_
    have hno : (opensStatement before && lacksRule t) = false := by
      rw [hbefore, Bool.and_eq_false_imp]
      exact hrule
    rw [hkind, refusal, ht]
    simp only [hno, Bool.false_eq_true, if_false]
  · exact .inr ⟨rfl, t, ht, hunwritten⟩

end Reports

theorem opensStatement_append {k : Token.Kind} {t : Token} (ht : t.isOf k = true)
    (before : List Token) : opensStatement (before ++ [t]) = k.opensStatement := by
  rw [opensStatement, List.getLast?_concat, Option.any_some, Token.isOf_eq_decide ht,
    Token.isOf_eq_decide ht]
  rfl

section Tokens

variable {pre : Bool} {k : Token.Kind} {c : Cursor}

theorem reports_advance {t : Token} (h : c.token? = some t) (ht : t.isOf k = true) :
    Reports pre k.opensStatement advance c := by
  intro before _ _
  obtain ⟨position, rest⟩ := c
  cases rest with
  | nil => cases h
  | cons u rest =>
    obtain rfl : u = t := Option.some.inj (Option.eq_some_of_filter_eq_some h)
    exact ⟨[u], rfl, opensStatement_append ht before⟩

/-- Where a statement may begin, a token is asked for that is there, or at the end. -/
theorem reports_expectKind (h : pre = true → c.isBefore k = false) :
    Reports pre k.opensStatement (expectKind k) c := by
  obtain ⟨position, rest⟩ := c
  cases rest with
  | nil => exact .stay fun _ _ _ => ⟨.inr (.inl rfl), rfl⟩
  | cons t rest =>
    refine .lexed fun hlexed => ?_
    have hvalue := (hlexed t List.mem_cons_self).hasValue
    cases hk : t.isOf k with
    | true =>
      intro before _ _
      rw [run_expectKind_leaf ⟨t, hk, hvalue⟩]
      exact ⟨[t], rfl, opensStatement_append hk before⟩
    | false =>
      refine .blame (fun ht => blames_expectKind ht hk position rest) rfl fun hpre => ?_
      have hbefore := h hpre
      rw [Cursor.isBefore, token?_cons hvalue, Option.any_some, hk] at hbefore
      cases hbefore

theorem reports_next (k : Token.Kind) : Reports false k.opensStatement (expectKind k) c :=
  reports_expectKind nofun

theorem reports_skip (k : Token.Kind) (a : α) :
    Reports false k.opensStatement (do let _ ← expectKind k; return a) c :=
  .bind (reports_next k) fun _ _ _ => .pure a

theorem mem_of_expectKind {t : Token} {d : Cursor} (h : (expectKind k).run c = .ok t d) :
    t ∈ c.rest := by
  rw [expectKind, expect, run_get_bind] at h
  cases hcurrent : c.current? with
  | none => rw [hcurrent] at h; cases h
  | some u =>
    rw [hcurrent] at h
    simp only at h
    split at h
    · cases h
      exact List.mem_of_mem_head? hcurrent
    · simp only [run_bind_ok_iff, run_throw, reduceCtorEq, and_false, exists_false] at h

theorem reports_name : Reports false false name c := by
  refine .lexed fun hlexed => .bind (reports_next .identifier) fun t d ht => ?_
  obtain ⟨v, hv⟩ := (hlexed t (mem_of_expectKind ht)).exists_value
  rw [hv]
  exact .pure v

theorem reports_token : Reports pre pre token c := by
  obtain ⟨position, rest⟩ := c
  cases rest with
  | nil => exact .stay fun _ _ _ => ⟨.inr (.inl rfl), rfl⟩
  | cons t rest =>
    refine .lexed fun hlexed => ?_
    obtain ⟨v, -, hv⟩ := (hlexed t List.mem_cons_self).exists_label
    exact .get (.lift hv (.pure t))

theorem reports_value {t : Token} {f : Value → Parse α} {post : Bool} (h : c.token? = some t)
    (ht : t.isOf k = true) (hf : ∀ v d, Reports k.opensStatement post (f v) d) :
    Reports pre post (do
      let value ← t.value
      let _ ← advance
      f value) c := by
  refine .lexed fun hlexed => ?_
  obtain ⟨v, hv⟩ := (hlexed t (List.mem_of_mem_head?
    (Option.eq_some_of_filter_eq_some h))).exists_value
  exact .lift hv (.bind (reports_advance h ht) fun _ d _ => hf v d)

end Tokens

theorem reports_collectWhile {b : Bool} {more : Cursor → Bool} {step : Parse α}
    (hstep : ∀ c, more c = true → Reports b b step c) (rounds : Nat) (c : Cursor) :
    Reports b b (collectWhile more step rounds) c := by
  induction rounds generalizing c with
  | zero => exact .pure _
  | succ rounds ih =>
    refine .get ?_
    split
    · next hmore => exact .bind (hstep c hmore) fun _ d _ => .bind (ih d) fun _ _ _ => .pure _
    · exact .pure _

theorem exists_token_of_isAt {k : Token.Kind} {c : Cursor} (h : c.isAt k = true) :
    ∃ t, c.token? = some t ∧ t.isOf k = true :=
  (Option.any_eq_true ..).mp h

section List

variable {item : Parse α} (hitem : ∀ c, Reports false false item c) (c : Cursor)

include hitem

theorem reports_commaList : Reports false false (commaList item) c := by
  refine .get ?_
  split
  · refine .bind (hitem c) fun _ d _ => .get ?_
    refine .bind (reports_collectWhile (fun e he => ?_) _ d) fun _ _ _ => .pure _
    obtain ⟨t, ht, hcomma⟩ := exists_token_of_isAt he
    exact .bind (reports_advance ht hcomma) fun _ u _ => hitem u
  · exact .pure _

theorem reports_parenthesized (h : c.isAt .leftParen = true) :
    Reports false false (parenthesized item) c := by
  obtain ⟨t, ht, hparen⟩ := exists_token_of_isAt h
  exact .bind (reports_advance ht hparen) fun _ d _ => .bind (reports_commaList hitem d)
    fun _ _ _ => reports_skip .rightParen _

theorem reports_optionalList : Reports false false (optionalList item) c := by
  refine .get ?_
  split
  · next h => exact reports_parenthesized hitem c h
  · exact .pure _

end List

theorem reports_sum {depth : Nat} (hoperand : ∀ c, Reports false false (operand depth) c)
    (hsum : ∀ c, Reports false false (sum depth) c) (c : Cursor) :
    Reports false false (sum (depth + 1)) c := by
  refine .bind (hoperand c) fun left d _ => .get ?_
  cases ht : d.token? with
  | none => exact .pure _
  | some t =>
    simp only
    split
    · next hplus =>
      exact .bind (reports_advance ht hplus) fun _ e _ => .bind (hsum e) fun _ _ _ => .pure _
    · exact .pure _

theorem reports_operand {depth : Nat} (hexpression : ∀ c, Reports false false (expression depth) c)
    (c : Cursor) : Reports false false (operand (depth + 1)) c := by
  refine .bind reports_token fun t d hd => ?_
  obtain ⟨rfl, ht⟩ := token_ok_iff.mp hd
  split
  · next hparen =>
    exact .bind (reports_advance ht hparen) fun _ d _ => .bind (hexpression d) fun _ _ _ =>
      reports_skip .rightParen _
  split
  · next hstring => exact reports_value ht hstring fun _ _ => .pure _
  split
  · next hnumber => exact reports_value ht hnumber fun _ _ => .pure _
  split
  · next hname =>
    refine reports_value ht hname fun v d => .get ?_
    split
    · next hat => exact .bind (reports_parenthesized hexpression d hat) fun _ _ _ => .pure _
    · exact .pure _
  · refine .blame (fun hlexed => ?_) (Option.eq_some_of_filter_eq_some ht) nofun
    exact .label hlexed fun _ => blames_place hlexed fun _ _ => .throw rfl

theorem reports_expression (depth : Nat) :
    (∀ c, Reports false false (expression depth) c) ∧ (∀ c, Reports false false (sum depth) c) ∧
      ∀ c, Reports false false (operand depth) c := by
  induction depth with
  | zero => exact ⟨fun _ => .tooDeep, fun _ => .tooDeep, fun _ => .tooDeep⟩
  | succ depth ih =>
    obtain ⟨hexpression, hsum, hoperand⟩ := ih
    exact ⟨hsum, reports_sum hoperand hsum, reports_operand hexpression⟩

section Depth

variable (depth : Nat) (c : Cursor)

theorem reports_printed : Reports false false (printed depth) c := by
  obtain ⟨he, -, -⟩ := reports_expression depth
  refine .get ?_
  split
  · exact .bind (reports_next .leftParen) fun _ d _ => .bind (he d) fun _ _ _ =>
      reports_skip .rightParen _
  · exact he c

variable {c} in
theorem isBefore_eq_false {k : Token.Kind} {t : Token} (h : c.token? = some t)
    (ht : t.isOf k = true) : c.isBefore k = false := by
  rw [Cursor.isBefore, h, Option.any_some, ht]
  rfl

theorem reports_printStatement {k : Token.Kind} (hk : k.opensStatement = false)
    (hat : c.isBefore k = false) (newline : Bool) :
    Reports true true (printStatement depth k newline) c := by
  refine .bind (reports_expectKind fun _ => hat) fun _ d _ => ?_
  rw [hk]
  exact .bind (reports_printed depth d) fun _ _ _ => reports_skip .semicolon _

theorem reports_callStatement (hat : c.isBefore .call = false) :
    Reports true true (callStatement depth) c :=
  .bind (reports_expectKind fun _ => hat) fun _ _ _ => .bind reports_name fun _ e _ =>
    .bind (reports_optionalList (reports_expression depth).1 e) fun _ _ _ =>
      reports_skip .semicolon _

theorem reports_assignment (hat : c.isBefore .assign = false) :
    Reports true true (assignment depth) c :=
  .bind (reports_expectKind fun _ => hat) fun _ _ _ => .bind reports_name fun _ _ _ =>
    .bind (reports_next .assign) fun _ u _ => .bind ((reports_expression depth).1 u) fun _ _ _ =>
      reports_skip .semicolon _

theorem lacksRule_eq_isSome (t : Token) :
    lacksRule t = (missingRules.find? fun entry => t.isOf entry.1).isSome := by
  rw [lacksRule, Bool.eq_iff_iff, List.any_eq_true, List.find?_isSome]

theorem reports_statement (h : c.isBefore .rightBrace = true) :
    Reports true true (statement depth) c := by
  obtain ⟨t, ht, -⟩ := (Option.any_eq_true ..).mp h
  have hhead : c.rest.head? = some t := Option.eq_some_of_filter_eq_some ht
  refine .get ?_
  rw [ht]
  simp only
  split
  · next hk => exact reports_printStatement depth c rfl (isBefore_eq_false ht hk) false
  split
  · next hk => exact reports_printStatement depth c rfl (isBefore_eq_false ht hk) true
  split
  · next hk => exact reports_callStatement depth c (isBefore_eq_false ht hk)
  split
  · next hk => exact reports_assignment depth c (isBefore_eq_false ht hk)
  split
  · next rule hrule =>
    refine .stay fun before hbefore _ => ⟨.inr (.inl ?_), rfl⟩
    have hlacks : lacksRule t = true := by
      rw [lacksRule_eq_isSome, hrule]
      rfl
    rw [refusal, hhead]
    simp only [hbefore, hlacks, Bool.and_self, if_true]
    rfl
  · next hnone =>
    refine .blame (fun hlexed => blames_unexpected hlexed) hhead fun _ => ?_
    rw [lacksRule_eq_isSome, hnone]
    rfl

theorem reports_block : Reports false false (block depth) c := by
  refine .bind (reports_next .leftBrace) fun _ d _ => .get ?_
  refine .bind (reports_collectWhile (fun e he => reports_statement depth e he) _ d)
    fun body e hbody => ?_
  -- a statement might begin here, but the loop has stopped before a closing brace or at the end
  have hend := collectWhile_done (isBefore_of_end .rightBrace)
    (fun u _ => strides_statement depth u) hbody (Nat.le_refl _)
  exact .bind (reports_expectKind fun _ => hend) fun _ _ _ => .pure _

theorem reports_functionDeclaration : Reports false false (functionDeclaration depth) c := by
  refine .bind (reports_next .func) fun _ d _ => .bind (reports_next .colon) fun _ e _ => ?_
  refine .lexed fun hlexed => .bind (reports_next .identifier) fun t u ht => ?_
  obtain ⟨v, hv⟩ := (hlexed t (mem_of_expectKind ht)).exists_value
  exact .bind (reports_optionalList (fun _ => reports_name) u) fun _ w _ =>
    .bind (reports_block depth w) fun _ _ _ => .lift hv (.pure _)

theorem reports_entryBlock : Reports false false (entryBlock depth) c :=
  .bind (reports_next .enter) fun _ d _ => .bind (reports_block depth d) fun _ _ _ => .pure _

theorem reports_declaration (h : c.token?.isSome = true) :
    Reports false false (declaration depth) c := by
  obtain ⟨t, ht⟩ := Option.isSome_iff_exists.mp h
  refine .get ?_
  rw [ht]
  simp only
  split
  · exact reports_functionDeclaration depth c
  split
  · exact reports_entryBlock depth c
  · have hhead : c.rest.head? = some t := Option.eq_some_of_filter_eq_some ht
    exact .blame (fun hlexed => blames_unexpected hlexed) hhead nofun

theorem reports_program : Reports false false (program depth) c :=
  .get (.bind (reports_collectWhile (fun d hd => reports_declaration depth d hd) _ c)
    fun _ _ _ => .pure _)

end Depth

/-- Where a program of tokens of sources fails, the tokens on both sides of the place decide why. -/
theorem refused_of_error {depth : Nat} {tokens : List Token} {fault : Fault} {c : Cursor}
    (hlexed : ∀ t ∈ tokens, t.Lexed)
    (h : (program depth).run (Cursor.ofTokens tokens) = .error fault c) :
    Refused (tokens.take c.position) (tokens.drop c.position) fault := by
  obtain ⟨passed, hpassed, hrefused⟩ := reports_program depth (Cursor.ofTokens tokens) [] rfl hlexed
  obtain ⟨hrest, -⟩ := rest_of_error h
  rw [h] at hpassed hrefused
  have htokens : tokens.take c.position ++ c.rest = passed ++ c.rest := by
    rw [hrest, List.take_append_drop, ← hrest]
    exact hpassed
  rw [List.append_cancel_right htokens, ← hrest]
  exact hrefused

end Parse

namespace Decimal

theorem digit_lt_of_digitRun? {needed : Bool} {cs : List Char} {digits : List Nat}
    {others : List Char} (h : digitRun? needed cs = some (digits, others)) :
    ∀ digit ∈ digits, digit < 10 := by
  induction cs generalizing needed digits with
  | nil =>
    rw [digitRun?] at h
    split at h
    · cases h
    · cases h
      exact List.forall_mem_nil _
  | cons c rest ih =>
    rw [digitRun?] at h
    split at h
    · next hc =>
      obtain ⟨⟨digits', others'⟩, hrest, hpair⟩ := Option.map_eq_some_iff.mp h
      cases hpair
      have hdigit := Text.toNat_of_isDigit hc
      exact List.forall_mem_cons.mpr ⟨by omega, ih hrest⟩
    split at h
    · cases h
    split at h
    · exact ih h
    · cases h
      exact List.forall_mem_nil _

theorem foldl_digits_lt {digits : List Nat} (h : ∀ digit ∈ digits, digit < 10) (n : Nat) :
    digits.foldl (fun n digit => 10 * n + digit) n < (n + 1) * Nat.pow 10 digits.length := by
  induction digits generalizing n with
  | nil => simp
  | cons digit rest ih =>
    obtain ⟨hdigit, hrest⟩ := List.forall_mem_cons.mp h
    calc (digit :: rest).foldl (fun n digit => 10 * n + digit) n
        < (10 * n + digit + 1) * Nat.pow 10 rest.length := ih hrest (10 * n + digit)
      _ ≤ ((n + 1) * 10) * Nat.pow 10 rest.length := Nat.mul_le_mul_right _ (by omega)
      _ = (n + 1) * Nat.pow 10 (digit :: rest).length := by
        rw [Nat.mul_assoc, Nat.mul_comm 10]
        rfl

/-- An integer that is read can be shown. -/
theorem natAbs_lt_of_readInteger {text : String} {z : Int} (h : readInteger text = .ok z) :
    z.natAbs < Value.tooManyDigits := by
  rw [readInteger] at h
  unfold Value.tooManyDigits
  generalize maxDigits = most at h ⊢
  split at h
  split at h
  · cases h
  · next digits others hdigits =>
    split at h
    · cases h
    · next hlength =>
      split at h
      · have habs : z.natAbs = ofDigits digits := by
          cases h
          split <;> simp
        calc z.natAbs = ofDigits digits := habs
          _ < (0 + 1) * Nat.pow 10 digits.length :=
            foldl_digits_lt (digit_lt_of_digitRun? hdigits) 0
          _ = Nat.pow 10 digits.length := by rw [Nat.zero_add, Nat.one_mul]
          _ ≤ Nat.pow 10 most := Nat.pow_le_pow_right (by decide) (Nat.le_of_not_lt hlength)
      · cases h

end Decimal

namespace Scanner

theorem lineAfter_le (before : List Char) : lineAfter before ≤ before.length + 1 := by
  rw [lineAfter, Nat.add_comm]
  exact Nat.add_le_add_right List.count_le_length 1

theorem columnAfter_le (before : List Char) : columnAfter before ≤ before.length + 1 := by
  have hlength := (List.takeWhile_sublist (· != '\n') (l := before.reverse)).length_le
  rw [List.length_reverse] at hlength
  rw [columnAfter, Nat.add_comm]
  exact Nat.add_le_add_right hlength 1

end Scanner

/-- An integer in a token of a source is short, or a place in the source. -/
theorem Lexical.Splits.natAbs_lt {before ahead : List Char} {ts : List Token}
    (h : Splits before ahead ts) :
    ∀ t ∈ ts, ∀ z, .int z ∈ t.fields →
      z.natAbs < Value.tooManyDigits ∨ z.natAbs ≤ before.length + ahead.length := by
  induction h with
  | nil before => exact List.forall_mem_nil _
  | @cons l before chars rest ts ts' hspells _ htokens _ ih =>
    have hne := List.length_pos_iff.mpr hspells.ne_nil
    refine List.forall_mem_append.mpr ⟨fun t ht z hz => ?_, fun t ht z hz => ?_⟩
    · cases l with
      | blanks | comment =>
        cases htokens
        cases ht
      | word | string meant | sign kind =>
        cases htokens
        obtain rfl := List.mem_singleton.mp ht
        simp [Token.plain, Token.ofWord] at hz
      | integer =>
        rw [tokens] at htokens
        cases hread : Decimal.readInteger (String.ofList chars) with
        | error fault =>
          rw [hread] at htokens
          cases htokens
        | ok n =>
          rw [hread] at htokens
          cases htokens
          obtain rfl := List.mem_singleton.mp ht
          obtain rfl : z = n := by simpa [Token.plain] using hz
          exact .inl (Decimal.natAbs_lt_of_readInteger hread)
      | decimal =>
        rw [tokens] at htokens
        cases hread : Decimal.readFloat (String.ofList chars) with
        | error fault =>
          rw [hread] at htokens
          cases htokens
        | ok x =>
          rw [hread] at htokens
          cases htokens
          obtain rfl := List.mem_singleton.mp ht
          simp [Token.plain] at hz
      | bracket kind =>
        cases htokens
        obtain rfl := List.mem_singleton.mp ht
        have hline := Scanner.lineAfter_le before
        have hcolumn := Scanner.columnAfter_le before
        have hplace : z = Scanner.lineAfter before ∨ z = Scanner.columnAfter before := by
          simpa [Token.placed] using hz
        rw [List.length_append]
        rcases hplace with rfl | rfl
        · exact .inr (by omega)
        · exact .inr (by omega)
    · have hz' := ih t ht z hz
      rw [List.length_append, Nat.add_assoc] at hz'
      rwa [List.length_append]

/-- A token of a source that cannot be written stands at a place with too many digits. -/
theorem Token.length_of_unwritten {source : String} {tokens : List Token}
    (hsource : Token.ofSource source = .ok tokens) {t : Token} (ht : t ∈ tokens)
    (h : t.Unwritten) : Value.tooManyDigits ≤ source.length := by
  have hlexes := Token.ofSource_ok_iff.mp hsource
  obtain ⟨v, hv, hquoted⟩ := h
  rcases (hlexes.lexed t ht).field_cases hv with ⟨s, rfl⟩ | ⟨x, rfl⟩ | ⟨z, rfl⟩
  · cases hquoted
  · cases hquoted
  · obtain ⟨-, hlarge⟩ := Value.quoted_error_of_int hquoted
    rcases hlexes.splits.natAbs_lt t ht z hv with hsmall | hplace
    · exact absurd hsmall (Nat.not_lt.mpr hlarge)
    · rw [List.length_nil, Nat.zero_add, String.length_toList] at hplace
      exact Nat.le_trans hlarge hplace

namespace Parse

/-- The tokens of a source that are refused are so for their end, for a statement without a rule or
for a token that does not belong there, and the kind of the fault tells which. There may be another
fault only in a source of so many characters that a place in it cannot be written. -/
theorem parse_error_kind (source : String) (tokens : List Token)
    (hsource : Token.ofSource source = .ok tokens) (depth : Nat) (fault : Fault) (c : Cursor)
    (h : (parse depth []).run (Cursor.ofTokens tokens) = .error fault c)
    (hdeep : fault ≠ .tooDeep) :
    fault.kind = refusal (tokens.take c.position) (tokens.drop c.position) ∨
      fault = .digitsToShow ∧ Value.tooManyDigits ≤ source.length := by
  have hlexed := (Token.ofSource_ok_iff.mp hsource).lexed
  rcases refused_of_error hlexed h with rfl | hkind | ⟨hfault, t, ht, hunwritten⟩
  · exact absurd rfl hdeep
  · exact .inl hkind
  · have hmem := List.mem_of_mem_drop (List.mem_of_mem_head? ht)
    exact .inr ⟨hfault, Token.length_of_unwritten hsource hmem hunwritten⟩

/-- The kind of fault that a source is refused with behind its tokens. -/
def refusedWith (depth : Nat) (source : String) : Option Fault.Kind :=
  match Token.ofSource source with
  | .error _ => none
  | .ok tokens =>
    match (parse depth []).run (Cursor.ofTokens tokens) with
    | .ok .. => none
    | .error fault _ => some fault.kind

theorem exists_of_refusedWith {depth : Nat} {source : String} {kind : Fault.Kind}
    (h : refusedWith depth source = some kind) :
    ∃ tokens fault c, Token.ofSource source = .ok tokens ∧
      (parse depth []).run (Cursor.ofTokens tokens) = .error fault c ∧ fault.kind = kind := by
  rw [refusedWith] at h
  split at h
  · cases h
  · next tokens hsource =>
    split at h
    · cases h
    · next fault c hrun => exact ⟨tokens, fault, c, hsource, hrun, Option.some.inj h⟩

/-- There is no rule for a statement that begins with a name. -/
theorem parse_error_kind_leading_name :
    ∃ tokens fault c, Token.ofSource "enter \x7b x = 1; \x7d" = .ok tokens ∧
      (parse maxDepth []).run (Cursor.ofTokens tokens) = .error fault c ∧ fault.kind = .member ∧
      (fault.kind = refusal (tokens.take c.position) (tokens.drop c.position) ∨
        fault = .digitsToShow ∧ Value.tooManyDigits ≤ "enter \x7b x = 1; \x7d".length) := by
  have hcheck : refusedWith maxDepth "enter \x7b x = 1; \x7d" = some .member := by decide +kernel
  obtain ⟨tokens, fault, c, hsource, hrun, hkind⟩ := exists_of_refusedWith hcheck
  have hdeep : fault ≠ .tooDeep := by
    rintro rfl
    cases hkind
  exact ⟨tokens, fault, c, hsource, hrun, hkind,
    parse_error_kind _ tokens hsource maxDepth fault c hrun hdeep⟩

/-- A source that ends too early is not refused as malformed. -/
theorem not_parse_error_malformed :
    ¬ ∀ source tokens fault c, Token.ofSource source = .ok tokens →
      (parse maxDepth []).run (Cursor.ofTokens tokens) = .error fault c →
      fault.kind = .malformed ∨ fault.kind = .depth := by
  intro h
  have hcheck : refusedWith maxDepth "enter" = some .type := by decide +kernel
  obtain ⟨tokens, fault, c, hsource, hrun, hkind⟩ := exists_of_refusedWith hcheck
  rcases h "enter" tokens fault c hsource hrun with hkind' | hkind' <;>
  · rw [hkind] at hkind'
    cases hkind'

end Parse

end Scriptlet
