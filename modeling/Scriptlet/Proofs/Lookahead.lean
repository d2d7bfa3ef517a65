import Scriptlet.Proofs.Progress

/-! The grammar looks one token ahead. How a rule ends is decided by the tokens that it passes and
the one behind them, and it ends so at any larger depth too, unless it has nested too deeply. -/
namespace Scriptlet

/-- The cursor `c'` stands before the tokens from `c` to `d`, and behind them before others, of
which the first one is that behind `d`. -/
def Cursor.Shares (c d c' : Cursor) (left : List Token) : Prop :=
  ∃ passed, c.rest = passed ++ d.rest ∧ c' = ⟨c.position, passed ++ left⟩ ∧
    d.rest.head? = left.head?

namespace Cursor.Shares

variable {c d e c' : Cursor} {left : List Token}

theorem current? (h : Shares c d c' left) : c'.current? = c.current? := by
  obtain ⟨passed, hc, rfl, hhead⟩ := h
  rw [Cursor.current?, Cursor.current?, hc, List.head?_append, List.head?_append, hhead]

theorem eq_of_same (h : Shares c c c' left) : c' = ⟨c.position, left⟩ := by
  obtain ⟨passed, hc, rfl, -⟩ := h
  rw [List.self_eq_append_left.mp hc, List.nil_append]

/-- Tokens that lead to one cursor by way of another. -/
theorem split (h : Shares c e c' left) (hd : c.Reaches d) (he : d.Reaches e) :
    ∃ between, Shares c d c' between ∧ Shares d e ⟨d.position, between⟩ left := by
  obtain ⟨passed, hc, rfl, hhead⟩ := h
  obtain ⟨first, hfirst, -⟩ := hd
  obtain ⟨second, hsecond, -⟩ := he
  have hpassed : passed = first ++ second := by
    rw [hfirst, hsecond, ← List.append_assoc] at hc
    exact (List.append_cancel_right hc).symm
  refine ⟨second ++ left, ⟨first, hfirst, ?_, ?_⟩, ⟨second, hsecond, rfl, hhead⟩⟩
  · rw [hpassed, List.append_assoc]
  · rw [hsecond, List.head?_append, List.head?_append, hhead]

end Cursor.Shares

namespace Parse

open Cursor

variable {α β : Type}

/-- The same end, before other tokens. -/
def before (left : List Token) :
    EStateM.Result Fault Cursor α → EStateM.Result Fault Cursor α
  | .ok a d => .ok a ⟨d.position, left⟩
  | .error fault d => .error fault ⟨d.position, left⟩

def TooDeep : EStateM.Result Fault Cursor α → Prop
  | .ok _ _ => False
  | .error fault _ => fault = .tooDeep

/-- At the second cursor the second step ends as the first one does at the first cursor, if both
stand before the same tokens, and unless the first one nests too deeply. -/
def EndsAlike (x y : Parse α) (c c' : Cursor) (left : List Token) : Prop :=
  ¬ TooDeep (x.run c) → Shares c (stateOf (x.run c)) c' left → y.run c' = before left (x.run c)

theorem EndsAlike.bind {x y : Parse α} {f g : α → Parse β} {c c' : Cursor} {left : List Token}
    (hwalks : Walks x c) (hwalks' : ∀ a d, x.run c = .ok a d → Walks (f a) d)
    (hx : ∀ between, EndsAlike x y c c' between)
    (hf : ∀ a d between, x.run c = .ok a d → Shares c d c' between →
      EndsAlike (f a) (g a) d ⟨d.position, between⟩ left) :
    EndsAlike (x >>= f) (y >>= g) c c' left := by
  intro hdeep hshares
  rw [Walks] at hwalks
  rw [EStateM.run_bind] at hdeep hshares ⊢
  rw [EStateM.run_bind]
  cases hr : x.run c with
  | error fault d =>
    rw [hr] at hdeep hshares
    have hy := hx left
    rw [EndsAlike, hr] at hy
    rw [hy hdeep hshares]
    rfl
  | ok a d =>
    rw [hr] at hdeep hshares hwalks
    -- the second step begins where the first one has ended
    obtain ⟨between, hfirst, hsecond⟩ := hshares.split hwalks (hwalks' a d hr)
    have hy := hx between
    rw [EndsAlike, hr] at hy
    rw [hy not_false hfirst]
    exact hf a d between hr hfirst hdeep hsecond

/-- How the first step ends at the cursor is decided by the tokens that it passes and the one behind
them, and the second step ends so too. -/
structure Decides (x y : Parse α) (c : Cursor) : Prop where
  walks : Walks x c
  ends : ∀ c' left, EndsAlike x y c c' left

namespace Decides

variable {x y : Parse α} {f g : α → Parse β} {c : Cursor}

theorem pure (a : α) : Decides (pure a) (pure a) c := by
  refine ⟨walks_pure a, fun c' left _ hshares => ?_⟩
  obtain rfl := hshares.eq_of_same
  rfl

theorem throw (fault : Fault) : Decides (throw fault : Parse α) (throw fault) c := by
  refine ⟨walks_throw fault, fun c' left _ hshares => ?_⟩
  obtain rfl := hshares.eq_of_same
  rfl

theorem lift (x : Except Fault α) : Decides (liftM x : Parse α) (liftM x) c := by
  cases x with
  | ok a => exact pure a
  | error fault => exact throw fault

theorem tooDeep (y : Parse α) : Decides (MonadExcept.throw Fault.tooDeep) y c :=
  ⟨walks_throw _, fun _ _ hdeep => absurd rfl hdeep⟩

theorem bind (hx : Decides x y c) (hf : ∀ a d, x.run c = .ok a d → Decides (f a) (g a) d) :
    Decides (x >>= f) (y >>= g) c where
  walks := hx.walks.bind fun a d hd => (hf a d hd).walks
  ends c' _ := .bind hx.walks (fun a d hd => (hf a d hd).walks) (hx.ends c')
    fun a d _ hd _ => (hf a d hd).ends _ _

theorem get {f g : Cursor → Parse α}
    (h : ∀ c', c'.current? = c.current? → Decides (f c) (g c') c) :
    Decides (get >>= f) (get >>= g) c := by
  refine ⟨walks_get (h c rfl).walks, fun c' left hdeep hshares => ?_⟩
  exact (h c' hshares.current?).ends c' left hdeep hshares

theorem ite {p : Cursor → Bool} (hp : ∀ c c' : Cursor, c'.current? = c.current? → p c' = p c)
    {x y x' y' : Parse α} (hx : p c = true → Decides x x' c) (hy : p c = false → Decides y y' c) :
    Decides (do if p (← MonadState.get) then x else y)
      (do if p (← MonadState.get) then x' else y') c := by
  refine get fun c' hc' => ?_
  rw [hp c c' hc']
  cases hpc : p c with
  | true => exact hx hpc
  | false => exact hy hpc

end Decides

section Cursor

variable {c c' : Cursor} (h : c'.current? = c.current?)

include h

theorem token?_congr : c'.token? = c.token? := by
  rw [Cursor.token?, Cursor.token?, h]

theorem isAt_congr (kind : Token.Kind) : c'.isAt kind = c.isAt kind := by
  rw [Cursor.isAt, Cursor.isAt, token?_congr h]

theorem isBefore_congr (kind : Token.Kind) : c'.isBefore kind = c.isBefore kind := by
  rw [Cursor.isBefore, Cursor.isBefore, token?_congr h]

end Cursor

variable {c : Cursor}

theorem decides_advance (h : c.rest ≠ []) : Decides advance advance c := by
  refine ⟨(strides_advance h).walks, fun c' left _ hshares => ?_⟩
  obtain ⟨position, rest⟩ := c
  obtain ⟨t, rest, rfl⟩ := List.exists_cons_of_ne_nil h
  obtain ⟨passed, hc, rfl, hhead⟩ := hshares
  obtain rfl : passed = [t] := List.append_cancel_right (hc.symm.trans (List.singleton_append ..))
  exact congrArg (EStateM.Result.ok · _) hhead.symm

theorem decides_expect (label : Value) (c : Cursor) : Decides (expect label) (expect label) c := by
  refine .get fun c' hc' => ?_
  rw [hc']
  cases ht : c.current? with
  | none => exact .throw _
  | some t =>
    simp only
    split
    · exact .bind (decides_advance (rest_ne_nil_of_current? ht)) fun _ _ _ => .pure _
    · exact .bind (.lift _) fun _ _ _ => .bind (.lift _) fun _ _ _ => .bind (.lift _) fun _ _ _ =>
        .bind (.lift _) fun _ _ _ => .bind (.lift _) fun _ _ _ => .throw _

theorem decides_expectKind (kind : Token.Kind) (c : Cursor) :
    Decides (expectKind kind) (expectKind kind) c :=
  decides_expect _ c

theorem decides_skip (kind : Token.Kind) (a : α) (c : Cursor) :
    Decides (do let _ ← expectKind kind; return a) (do let _ ← expectKind kind; return a) c :=
  .bind (decides_expectKind kind c) fun _ _ _ => .pure a

theorem decides_name (c : Cursor) : Decides name name c :=
  .bind (decides_expectKind _ c) fun _ _ _ => .lift _

theorem decides_token (c : Cursor) : Decides token token c := by
  refine .get fun c' hc' => ?_
  rw [hc']
  cases c.current? with
  | none => exact .throw _
  | some t => exact .bind (.lift _) fun _ _ _ => .pure _

section Loop

variable {more : Cursor → Bool} {step step' : Parse α}
  (hmore : ∀ c c' : Cursor, c'.current? = c.current? → more c' = more c)

include hmore

theorem collectWhile_stops_alike {c c' : Cursor} (hc : more c = false) (rounds rounds' : Nat)
    (left : List Token) :
    EndsAlike (collectWhile more step rounds) (collectWhile more step' rounds') c c' left := by
  intro _ hshares
  have hc' := hmore c c' hshares.current?
  rw [collectWhile_stop hc] at hshares ⊢
  obtain rfl := hshares.eq_of_same
  exact collectWhile_stop (hc'.trans hc) rounds'

variable (hend : ∀ c : Cursor, c.rest = [] → more c = false)
  (hstep : ∀ c, more c = true → Decides step step' c)
  (hstrides : ∀ c, more c = true → Strides step c)

include hend hstep hstrides

-- The second loop may have another number of rounds, since it may stand before more tokens.
theorem collectWhile_endsAlike {rounds rounds' : Nat} {c c' : Cursor}
    (hrounds : c.rest.length ≤ rounds) (hrounds' : c'.rest.length ≤ rounds') (left : List Token) :
    EndsAlike (collectWhile more step rounds) (collectWhile more step' rounds') c c' left := by
  induction rounds generalizing c c' rounds' left with
  | zero =>
    have hc := hend c (List.length_eq_zero_iff.mp (Nat.le_zero.mp hrounds))
    exact collectWhile_stops_alike hmore hc 0 rounds' left
  | succ rounds ih =>
    cases hc : more c with
    | false => exact collectWhile_stops_alike hmore hc (rounds + 1) rounds' left
    | true =>
      intro hdeep hshares
      have hc' := (hmore c c' hshares.current?).trans hc
      have hne : c'.rest ≠ [] := fun hnil => Bool.false_ne_true ((hend c' hnil).symm.trans hc')
      have hlength := List.length_pos_iff.mpr hne
      obtain ⟨rounds', rfl⟩ : ∃ n, rounds' = n + 1 := ⟨rounds' - 1, by omega⟩
      have hwalks := walks_collectWhile (fun d hd => (hstrides d hd).walks) rounds
      rw [collectWhile_round hc] at hdeep hshares ⊢
      rw [collectWhile_round hc']
      refine EndsAlike.bind (hstrides c hc).walks (fun a d _ => (hwalks d).bind fun _ _ _ =>
        walks_pure _) ((hstep c hc).ends c') (fun a d between hd hfirst => ?_) hdeep hshares
      have hlt := (hstrides c hc).length_lt hd
      have hlt' : between.length ≤ rounds' := by
        obtain ⟨passed, hpassed, rfl, -⟩ := hfirst
        rw [hpassed, List.length_append] at hlt
        rw [List.length_append] at hrounds'
        omega
      exact .bind (hwalks d) (fun _ _ _ => walks_pure _) (fun _ => ih (by omega) hlt' _)
        fun as e _ _ _ => (Decides.pure _).ends _ _

theorem decides_loop (c : Cursor) :
    Decides (do collectWhile more step (← get).rest.length)
      (do collectWhile more step' (← get).rest.length) c where
  walks := walks_get (walks_collectWhile (fun d hd => (hstrides d hd).walks) _ c)
  ends _ left := collectWhile_endsAlike hmore hend hstep hstrides (Nat.le_refl _) (Nat.le_refl _)
    left

theorem decides_loop_bind {f g : List α → Parse β} (hf : ∀ as d, Decides (f as) (g as) d)
    (c : Cursor) :
    Decides (do f (← collectWhile more step (← get).rest.length))
      (do g (← collectWhile more step' (← get).rest.length)) c := by
  have h := (decides_loop hmore hend hstep hstrides c).bind fun as d _ => hf as d
  rwa [bind_assoc, bind_assoc] at h

end Loop

theorem token?_of_end (c : Cursor) (h : c.rest = []) : c.token? = none := by
  rw [Cursor.token?, Cursor.current?, h]
  rfl

theorem isAt_of_end (kind : Token.Kind) (c : Cursor) (h : c.rest = []) : c.isAt kind = false := by
  rw [Cursor.isAt, token?_of_end c h]
  rfl

theorem isBefore_of_end (kind : Token.Kind) (c : Cursor) (h : c.rest = []) :
    c.isBefore kind = false := by
  rw [Cursor.isBefore, token?_of_end c h]
  rfl

section List

variable {item item' : Parse α} (hitem : ∀ c, Decides item item' c)
  (hstrides : ∀ c, Strides item c)

include hitem hstrides

theorem decides_commaList (c : Cursor) : Decides (commaList item) (commaList item') c := by
  refine .ite (fun _ _ h => isBefore_congr h _) (fun _ => ?_) fun _ => .pure _
  refine .bind (hitem c) fun first d _ => ?_
  refine decides_loop_bind (fun _ _ h => isAt_congr h _) (isAt_of_end _) (fun e he => ?_)
    (fun e he => ?_) (fun as e => .pure _) d
  · exact .bind (decides_advance (rest_ne_nil_of_isAt he)) fun _ u _ => hitem u
  · exact (strides_advance (rest_ne_nil_of_isAt he)).bind fun _ u _ => (hstrides u).walks

theorem decides_parenthesized {c : Cursor} (h : c.rest ≠ []) :
    Decides (parenthesized item) (parenthesized item') c :=
  .bind (decides_advance h) fun _ d _ => .bind (decides_commaList hitem hstrides d) fun as e _ =>
    decides_skip _ as e

theorem decides_optionalList (c : Cursor) :
    Decides (optionalList item) (optionalList item') c :=
  .ite (fun _ _ h => isAt_congr h _)
    (fun hat => decides_parenthesized hitem hstrides (rest_ne_nil_of_isAt hat)) fun _ => .pure _

end List

theorem decides_value {t : Token} {f g : Value → Parse α} (h : c.rest ≠ [])
    (hf : ∀ v d, Decides (f v) (g v) d) :
    Decides (do
        let value ← t.value
        let _ ← advance
        f value)
      (do
        let value ← t.value
        let _ ← advance
        g value) c := by
  refine .bind (.lift _) fun v d hd => ?_
  obtain ⟨-, rfl⟩ := run_lift_ok_iff.mp hd
  exact .bind (decides_advance h) fun _ e _ => hf v e

theorem decides_sum {depth depth' : Nat} (hsum : ∀ c, Decides (sum depth) (sum depth') c)
    (hoperand : ∀ c, Decides (operand depth) (operand depth') c) (c : Cursor) :
    Decides (sum (depth + 1)) (sum (depth' + 1)) c := by
  refine .bind (hoperand c) fun left d _ => .get fun d' hd' => ?_
  rw [token?_congr hd']
  cases ht : d.token? with
  | none => exact .pure _
  | some t =>
    simp only
    split
    · exact .bind (decides_advance (rest_ne_nil_of_token? ht)) fun _ e _ =>
        .bind (hsum e) fun _ _ _ => .pure _
    · exact .pure _

theorem decides_operand {depth depth' : Nat}
    (hexpression : ∀ c, Decides (expression depth) (expression depth') c) (c : Cursor) :
    Decides (operand (depth + 1)) (operand (depth' + 1)) c := by
  refine .bind (decides_token c) fun t d hd => ?_
  obtain ⟨rfl, ht⟩ := token_ok_iff.mp hd
  have hrest := rest_ne_nil_of_token? ht
  split
  · exact .bind (decides_advance hrest) fun _ d _ => .bind (hexpression d) fun inner e _ =>
      decides_skip _ inner e
  split
  · exact decides_value hrest fun _ _ => .pure _
  split
  · exact decides_value hrest fun _ _ => .pure _
  split
  · refine decides_value hrest fun v d => .ite (fun _ _ h => isAt_congr h _) (fun hat => ?_)
      fun _ => .pure _
    exact .bind (decides_parenthesized hexpression (strides_expression depth).1
      (rest_ne_nil_of_isAt hat)) fun _ _ _ => .pure _
  · exact .bind (.lift _) fun _ _ _ => .bind (.lift _) fun _ _ _ => .bind (.lift _) fun _ _ _ =>
      .bind (.lift _) fun _ _ _ => .throw _

theorem decides_expression {depth depth' : Nat} (h : depth ≤ depth') :
    (∀ c, Decides (expression depth) (expression depth') c) ∧
      (∀ c, Decides (sum depth) (sum depth') c) ∧
        ∀ c, Decides (operand depth) (operand depth') c := by
  induction depth generalizing depth' with
  | zero => exact ⟨fun _ => .tooDeep _, fun _ => .tooDeep _, fun _ => .tooDeep _⟩
  | succ depth ih =>
    obtain ⟨depth', rfl⟩ := Nat.exists_eq_add_one_of_ne_zero (Nat.ne_zero_of_lt h)
    obtain ⟨hexpression, hsum, hoperand⟩ := ih (Nat.le_of_succ_le_succ h)
    exact ⟨hsum, decides_sum hsum hoperand, decides_operand hexpression⟩

section Depth

variable {depth depth' : Nat} (h : depth ≤ depth') (c : Cursor)

include h

theorem decides_printed : Decides (printed depth) (printed depth') c := by
  have he := (decides_expression h).1
  refine .ite (fun _ _ h => isAt_congr h _) (fun _ => ?_) fun _ => he c
  exact .bind (decides_expectKind _ c) fun _ d _ => .bind (he d) fun inner e _ =>
    decides_skip _ inner e

theorem decides_printStatement (keyword : Token.Kind) (newline : Bool) :
    Decides (printStatement depth keyword newline) (printStatement depth' keyword newline) c :=
  .bind (decides_expectKind _ c) fun _ d _ => .bind (decides_printed h d) fun _ e _ =>
    decides_skip _ _ e

theorem decides_callStatement : Decides (callStatement depth) (callStatement depth') c :=
  .bind (decides_expectKind _ c) fun _ d _ => .bind (decides_name d) fun _ e _ =>
    .bind (decides_optionalList (decides_expression h).1 (strides_expression depth).1 e)
      fun _ u _ => decides_skip _ _ u

theorem decides_assignment : Decides (assignment depth) (assignment depth') c :=
  .bind (decides_expectKind _ c) fun _ d _ => .bind (decides_name d) fun _ e _ =>
    .bind (decides_expectKind _ e) fun _ u _ => .bind ((decides_expression h).1 u) fun _ v _ =>
      decides_skip _ _ v

omit h in
theorem decides_unexpected (t : Token) : Decides (unexpected t : Parse α) (unexpected t) c :=
  .bind (.lift _) fun _ _ _ => .throw _

theorem decides_statement : Decides (statement depth) (statement depth') c := by
  refine .get fun c' hc' => ?_
  rw [token?_congr hc']
  cases c.token? with
  | none => exact .throw _
  | some t =>
    simp only
    split
    · exact decides_printStatement h c _ _
    split
    · exact decides_printStatement h c _ _
    split
    · exact decides_callStatement h c
    split
    · exact decides_assignment h c
    split
    · exact .throw _
    · exact decides_unexpected c t

theorem decides_block : Decides (block depth) (block depth') c :=
  .bind (decides_expectKind _ c) fun _ d _ =>
    decides_loop_bind (fun _ _ hseen => isBefore_congr hseen _) (isBefore_of_end _)
      (fun e _ => decides_statement h e) (fun e _ => strides_statement depth e)
      (fun body e => decides_skip _ body e) d

theorem decides_functionDeclaration :
    Decides (functionDeclaration depth) (functionDeclaration depth') c :=
  .bind (decides_expectKind _ c) fun _ d _ => .bind (decides_expectKind _ d) fun _ e _ =>
    .bind (decides_expectKind _ e) fun _ u _ =>
      .bind (decides_optionalList decides_name strides_name u) fun _ v _ =>
        .bind (decides_block h v) fun _ _ _ => .bind (.lift _) fun _ _ _ => .pure _

theorem decides_entryBlock : Decides (entryBlock depth) (entryBlock depth') c :=
  .bind (decides_expectKind _ c) fun _ d _ => .bind (decides_block h d) fun _ _ _ => .pure _

theorem decides_declaration : Decides (declaration depth) (declaration depth') c := by
  refine .get fun c' hc' => ?_
  rw [token?_congr hc']
  cases c.token? with
  | none => exact .throw _
  | some t =>
    simp only
    split
    · exact decides_functionDeclaration h c
    split
    · exact decides_entryBlock h c
    · exact decides_unexpected c t

theorem decides_program : Decides (program depth) (program depth') c := by
  refine decides_loop_bind (fun _ _ hseen => ?_) (fun d hd => ?_)
    (fun e _ => decides_declaration h e) (fun e _ => strides_declaration depth e)
    (fun body e => .pure _) c
  · rw [token?_congr hseen]
  · rw [token?_of_end d hd]
    rfl

end Depth

end Parse

end Scriptlet
