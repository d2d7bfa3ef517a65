import Mathlib.Data.List.Forall2
import Scriptlet.Proofs.Derivation
import Scriptlet.Proofs.Progress
import Scriptlet.Token.Scanner

/-! What the grammar reads before other tokens. A rule that has closed its last bracket or passed
its semicolon does the same whatever follows, and where brackets stand makes no difference. -/
namespace Scriptlet

/-- The same token, or two brackets of one kind. -/
def Token.Alike (t t' : Token) : Prop :=
  t = t' ∨ ∃ kind ∈ Token.brackets.map Prod.snd, t.isOf kind = true ∧ t'.isOf kind = true

namespace Token.Alike

variable {t t' : Token}

theorem refl (t : Token) : Alike t t := .inl rfl

theorem isOf (h : Alike t t') (kind : Token.Kind) : t.isOf kind = t'.isOf kind := by
  obtain rfl | ⟨k, -, ht, ht'⟩ := h
  · rfl
  · rw [Token.isOf_eq_decide ht, Token.isOf_eq_decide ht']

theorem isBare (h : Alike t t') : t.isBare = t'.isBare := by
  obtain rfl | ⟨k, -, ht, ht'⟩ := h
  · rfl
  · rw [Token.isOf_iff] at ht ht'
    obtain ⟨fields, hfields⟩ := List.head?_eq_some_iff.mp ht
    obtain ⟨fields', hfields'⟩ := List.head?_eq_some_iff.mp ht'
    rw [Token.isBare, Token.isBare, hfields, hfields']
    rfl

theorem eq (h : Alike t t') {kind : Token.Kind} (ht : t.isOf kind = true)
    (hkind : kind ∉ Token.brackets.map Prod.snd) : t = t' := by
  obtain rfl | ⟨k, hk, hk', -⟩ := h
  · rfl
  · rw [Token.isOf_eq_decide hk', decide_eq_true_iff] at ht
    exact absurd (ht ▸ hk) hkind

end Token.Alike

namespace Cursor

/-- Before the second cursor stand tokens like those before the first one and others behind them. -/
def Leads (more : List Token) (c c' : Cursor) : Prop :=
  List.Forall₂ Token.Alike (c.rest ++ more) c'.rest

theorem Leads.refl (c : Cursor) : Leads [] c c := by
  rw [Leads, List.append_nil]
  exact List.forall₂_same.mpr fun t _ => .refl t

/-- Both cursors see alike tokens, unless the first one sees none and the second one does. -/
theorem Leads.token? {more : List Token} {c c' : Cursor} (h : Leads more c c')
    (hmore : c.rest = [] → more = []) : Option.Rel Token.Alike c.token? c'.token? := by
  obtain ⟨position, rest⟩ := c
  obtain ⟨position', rest'⟩ := c'
  cases rest with
  | nil =>
    obtain rfl := hmore rfl
    cases h
    exact .none
  | cons t rest =>
    cases h with
    | @cons _ t' _ rest' ht _ =>
      simp only [Cursor.token?, Cursor.current?, List.head?_cons, Option.filter_some, ht.isBare]
      cases t'.isBare with
      | true => exact .none
      | false => exact .some ht

/-- A test that alike tokens do not tell apart, and that fails where there is no token. -/
structure Sees (p : Cursor → Bool) : Prop where
  alike : ∀ ⦃c c'⦄, Option.Rel Token.Alike c.token? c'.token? → p c = p c'
  atEnd : ∀ ⦃c : Cursor⦄, c.rest = [] → p c = false

theorem sees_any (q : Token → Bool) (hq : ∀ ⦃t t'⦄, Token.Alike t t' → q t = q t') :
    Sees fun c => c.token?.any q := by
  refine ⟨fun c c' h => ?_, fun c h => ?_⟩
  · generalize c.token? = seen, c'.token? = seen' at h
    cases h with
    | some h => exact hq h
    | none => rfl
  · rw [Cursor.token?, Cursor.current?, h]
    rfl

theorem sees_isAt (kind : Token.Kind) : Sees (Cursor.isAt kind) :=
  sees_any _ fun _ _ h => h.isOf kind

theorem sees_isBefore (kind : Token.Kind) : Sees (Cursor.isBefore kind) :=
  sees_any _ fun _ _ h => congrArg not (h.isOf kind)

theorem sees_token : Sees fun c => c.token?.isSome := by
  have h := sees_any (fun _ => true) fun _ _ _ => rfl
  simpa only [Option.any_true] using h

end Cursor

namespace Parse

open Cursor

variable {α β γ δ : Type}

/-- What the first step does, the second one does before more tokens, with a result that is related
to the one of the first, if there are tokens left or no more. -/
def Tracks (R : α → β → Prop) (x : Parse α) (y : Parse β) : Prop :=
  ∀ ⦃c a d⦄, x.run c = .ok a d → d.rest <:+ c.rest ∧
    ∀ ⦃more c'⦄, Leads more c c' → (d.rest = [] → more = []) →
      ∃ b d', y.run c' = .ok b d' ∧ R a b ∧ Leads more d d'

/-- What the first step does, the second one does before more tokens. -/
def Closes (R : α → β → Prop) (x : Parse α) (y : Parse β) : Prop :=
  ∀ ⦃c a d⦄, x.run c = .ok a d → c.rest ≠ [] ∧ d.rest <:+ c.rest ∧
    ∀ ⦃more c'⦄, Leads more c c' → ∃ b d', y.run c' = .ok b d' ∧ R a b ∧ Leads more d d'

/-- What the first step does, the second one does at any cursor, and both leave the cursor where it
stands. -/
def Idle (R : α → β → Prop) (x : Parse α) (y : Parse β) : Prop :=
  ∀ ⦃c a d⦄, x.run c = .ok a d → d = c ∧ ∀ c', ∃ b, y.run c' = .ok b c' ∧ R a b

/-- A step that succeeds nowhere. -/
def Fails (x : Parse α) : Prop :=
  ∀ c a d, x.run c ≠ .ok a d

theorem Fails.throw (fault : Fault) : Fails (throw fault : Parse α) := fun _ _ _ h => by cases h

theorem Fails.bind {x : Parse α} {f : α → Parse β} (h : ∀ a, Fails (f a)) : Fails (x >>= f) := by
  intro c b e hrun
  obtain ⟨a, d, -, hf⟩ := run_bind_ok_iff.mp hrun
  exact h a d b e hf

section Rules

variable {R : α → β → Prop} {S : γ → δ → Prop} {x : Parse α} {y : Parse β} {f : α → Parse γ}
  {g : β → Parse δ}

theorem Closes.tracks (h : Closes R x y) : Tracks R x y :=
  fun _ _ _ hx => ⟨(h hx).2.1, fun _ _ hleads _ => (h hx).2.2 hleads⟩

theorem Tracks.of_fails (h : Fails x) : Tracks R x y := fun _ _ _ hx => absurd hx (h _ _ _)

theorem Closes.of_fails (h : Fails x) : Closes R x y := fun _ _ _ hx => absurd hx (h _ _ _)

theorem Idle.pure {a : α} {b : β} (h : R a b) : Idle R (pure a) (pure b) := by
  intro c a' d hx
  obtain ⟨rfl, rfl⟩ := run_pure_ok_iff.mp hx
  exact ⟨rfl, fun c' => ⟨b, rfl, h⟩⟩

theorem Idle.lift (x : Except Fault α) : Idle Eq (liftM x : Parse α) (liftM x) := by
  intro c a d hx
  obtain ⟨rfl, rfl⟩ := run_lift_ok_iff.mp hx
  exact ⟨rfl, fun c' => ⟨a, rfl, rfl⟩⟩

theorem Idle.bind (hx : Idle R x y) (hf : ∀ a b, R a b → Idle S (f a) (g b)) :
    Idle S (x >>= f) (y >>= g) := by
  intro c s e h
  obtain ⟨a, d, hd, he⟩ := run_bind_ok_iff.mp h
  obtain ⟨rfl, hy⟩ := hx hd
  obtain ⟨b₀, -, hb₀⟩ := hy d
  refine ⟨(hf a b₀ hb₀ he).1, fun c' => ?_⟩
  obtain ⟨b, hb, hab⟩ := hy c'
  obtain ⟨t, ht, hst⟩ := (hf a b hab he).2 c'
  exact ⟨t, run_bind_ok_iff.mpr ⟨b, c', hb, ht⟩, hst⟩

theorem Idle.tracks (h : Idle R x y) : Tracks R x y := by
  intro c a d hx
  obtain ⟨rfl, hy⟩ := h hx
  refine ⟨List.suffix_refl _, fun more c' hleads _ => ?_⟩
  obtain ⟨b, hb, hab⟩ := hy c'
  exact ⟨b, c', hb, hab, hleads⟩

theorem Tracks.exists_related (h : Tracks R x y) {c d : Cursor} {a : α} (hx : x.run c = .ok a d) :
    ∃ b, R a b := by
  obtain ⟨b, -, -, hb, -⟩ := (h hx).2 (.refl c) fun _ => rfl
  exact ⟨b, hb⟩

theorem Tracks.bind (hx : Tracks R x y) (hf : ∀ a b, R a b → Tracks S (f a) (g b)) :
    Tracks S (x >>= f) (y >>= g) := by
  intro c s e h
  obtain ⟨a, d, hd, he⟩ := run_bind_ok_iff.mp h
  obtain ⟨b₀, hb₀⟩ := hx.exists_related hd
  have hsuffix := (hf a b₀ hb₀ he).1
  refine ⟨hsuffix.trans (hx hd).1, fun more c' hleads hmore => ?_⟩
  -- what is left behind the second step was left behind the first one
  have hleft : d.rest = [] → more = [] := fun hnil =>
    hmore (List.suffix_nil.mp (hnil ▸ hsuffix))
  obtain ⟨b, d', hd', hb, hleads'⟩ := (hx hd).2 hleads hleft
  obtain ⟨t, e', he', ht, hleads''⟩ := (hf a b hb he).2 hleads' hmore
  exact ⟨t, e', run_bind_ok_iff.mpr ⟨b, d', hd', he'⟩, ht, hleads''⟩

theorem Tracks.closes (hx : Tracks R x y) (hf : ∀ a b, R a b → Closes S (f a) (g b)) :
    Closes S (x >>= f) (y >>= g) := by
  intro c s e h
  obtain ⟨a, d, hd, he⟩ := run_bind_ok_iff.mp h
  obtain ⟨b₀, hb₀⟩ := hx.exists_related hd
  obtain ⟨hrest, hsuffix, -⟩ := hf a b₀ hb₀ he
  have hc : c.rest ≠ [] := fun hnil => hrest (List.suffix_nil.mp (hnil ▸ (hx hd).1))
  refine ⟨hc, hsuffix.trans (hx hd).1, fun more c' hleads => ?_⟩
  obtain ⟨b, d', hd', hb, hleads'⟩ := (hx hd).2 hleads fun hnil => absurd hnil hrest
  obtain ⟨t, e', he', ht, hleads''⟩ := (hf a b hb he).2.2 hleads'
  exact ⟨t, e', run_bind_ok_iff.mpr ⟨b, d', hd', he'⟩, ht, hleads''⟩

theorem Tracks.seq {x : Parse α} {g : α → Parse δ} (hx : Tracks Eq x x)
    (hf : ∀ a, Tracks S (f a) (g a)) : Tracks S (x >>= f) (x >>= g) := by
  refine hx.bind fun a _ h => ?_
  subst h
  exact hf a

theorem Tracks.seqCloses {x : Parse α} {g : α → Parse δ} (hx : Tracks Eq x x)
    (hf : ∀ a, Closes S (f a) (g a)) : Closes S (x >>= f) (x >>= g) := by
  refine hx.closes fun a _ h => ?_
  subst h
  exact hf a

theorem Closes.idle (hx : Closes R x y) (hf : ∀ a b, R a b → Idle S (f a) (g b)) :
    Closes S (x >>= f) (y >>= g) := by
  intro c s e h
  obtain ⟨a, d, hd, he⟩ := run_bind_ok_iff.mp h
  obtain ⟨b₀, hb₀⟩ := hx.tracks.exists_related hd
  obtain ⟨rfl, -⟩ := hf a b₀ hb₀ he
  refine ⟨(hx hd).1, (hx hd).2.1, fun more c' hleads => ?_⟩
  obtain ⟨b, d', hd', hb, hleads'⟩ := (hx hd).2.2 hleads
  obtain ⟨t, ht, hst⟩ := (hf a b hb he).2 d'
  exact ⟨t, d', run_bind_ok_iff.mpr ⟨b, d', hd', ht⟩, hst, hleads'⟩

theorem Tracks.get {f g : Cursor → Parse γ} {T : γ → γ → Prop}
    (h : ∀ c c', Option.Rel Token.Alike c.token? c'.token? → Tracks T (f c) (g c')) :
    Tracks T (get >>= f) (get >>= g) := by
  intro c a d hx
  rw [run_get_bind] at hx
  have hsuffix := (h c c (Leads.refl c |>.token? fun _ => rfl) hx).1
  refine ⟨hsuffix, fun more c' hleads hmore => ?_⟩
  have hleft : c.rest = [] → more = [] := fun hnil =>
    hmore (List.suffix_nil.mp (hnil ▸ hsuffix))
  exact (h c c' (hleads.token? hleft) hx).2 hleads hmore

theorem Closes.get {f g : Cursor → Parse γ} {T : γ → γ → Prop}
    (h : ∀ c c', Option.Rel Token.Alike c.token? c'.token? → Closes T (f c) (g c')) :
    Closes T (get >>= f) (get >>= g) := by
  intro c a d hx
  rw [run_get_bind] at hx
  obtain ⟨hrest, hsuffix, -⟩ := h c c (Leads.refl c |>.token? fun _ => rfl) hx
  refine ⟨hrest, hsuffix, fun more c' hleads => ?_⟩
  exact (h c c' (hleads.token? fun hnil => absurd hnil hrest) hx).2.2 hleads

theorem Tracks.ite {p : Cursor → Bool} (hp : Sees p) {x y x' y' : Parse γ} {T : γ → γ → Prop}
    (hx : Tracks T x x') (hy : Tracks T y y') :
    Tracks T (do if p (← MonadState.get) then x else y)
      (do if p (← MonadState.get) then x' else y') := by
  refine Tracks.get fun c c' h => ?_
  rw [hp.alike h]
  split
  · exact hx
  · exact hy

end Rules

/-- Two alike tokens of a kind. -/
def AlikeOf (kind : Token.Kind) (t t' : Token) : Prop :=
  Token.Alike t t' ∧ t.isOf kind = true

theorem AlikeOf.eq {kind : Token.Kind} {t t' : Token} (h : AlikeOf kind t t')
    (hkind : kind ∉ Token.brackets.map Prod.snd) : t = t' :=
  h.1.eq h.2 hkind

theorem advance_tracks : Tracks (fun _ _ => True) advance advance := by
  rintro ⟨position, rest⟩ a d h
  cases h
  refine ⟨List.tail_suffix _, fun more c' hleads hmore => ⟨_, _, rfl, trivial, ?_⟩⟩
  cases rest with
  | nil =>
    obtain rfl := hmore rfl
    rw [Leads] at hleads
    rw [Leads, Cursor.next, Cursor.next, List.forall₂_nil_left_iff.mp hleads]
    exact .nil
  | cons t rest =>
    obtain ⟨t', rest', -, hrest, hc'⟩ := List.forall₂_cons_left_iff.mp hleads
    rw [Leads, Cursor.next, Cursor.next, hc']
    exact hrest

theorem expectKind_ok_iff {kind : Token.Kind} {c d : Cursor} {t : Token} :
    (expectKind kind).run c = .ok t d ↔
      t.isOf kind = true ∧ ∃ rest, c.rest = t :: rest ∧ d = ⟨c.position + 1, rest⟩ := by
  obtain ⟨position, rest⟩ := c
  rw [expectKind, expect, run_get_bind]
  cases rest with
  | nil => exact iff_of_false (fun h => by cases h) fun ⟨_, _, h, _⟩ => by cases h
  | cons u rest =>
    simp only [Cursor.current?, List.head?_cons]
    by_cases hu : u.hasLabel (.str kind.label) = true
    · rw [if_pos hu]
      constructor
      · intro h
        cases h
        exact ⟨hu, rest, rfl, rfl⟩
      · rintro ⟨-, _, ⟨⟩, rfl⟩
        rfl
    · rw [if_neg hu]
      refine iff_of_false ?_ ?_
      · exact Fails.bind (fun _ => .bind fun _ => .bind fun _ => .bind fun _ => .bind fun _ =>
          .throw _) _ _ _
      · rintro ⟨ht, _, ⟨⟩, -⟩
        exact hu ht

theorem expectKind_closes (kind : Token.Kind) :
    Closes (AlikeOf kind) (expectKind kind) (expectKind kind) := by
  intro c t d h
  obtain ⟨ht, rest, hc, rfl⟩ := expectKind_ok_iff.mp h
  refine ⟨by simp [hc], by simp [hc], fun more c' hleads => ?_⟩
  rw [Leads, hc] at hleads
  obtain ⟨t', rest', halike, hrest, hc'⟩ := List.forall₂_cons_left_iff.mp hleads
  have ht' : t'.isOf kind = true := halike.isOf kind ▸ ht
  exact ⟨t', _, expectKind_ok_iff.mpr ⟨ht', rest', hc', rfl⟩, ⟨halike, ht⟩, hrest⟩

theorem skip_closes (kind : Token.Kind) (a : α) :
    Closes Eq (do let _ ← expectKind kind; return a) (do let _ ← expectKind kind; return a) :=
  (expectKind_closes kind).idle fun _ _ _ => .pure rfl

theorem name_closes : Closes Eq name name := by
  refine (expectKind_closes _).idle fun t t' h => ?_
  obtain rfl := h.eq (by decide)
  exact .lift _

theorem token_tracks : Tracks Token.Alike token token := by
  intro c t d h
  obtain ⟨rfl, ht⟩ := token_ok_iff.mp h
  refine ⟨List.suffix_refl _, fun more c' hleads hmore => ?_⟩
  have hseen := hleads.token? hmore
  rw [ht] at hseen
  generalize ht' : c'.token? = seen at hseen
  cases hseen with
  | some halike => exact ⟨_, c', token_ok_iff.mpr ⟨rfl, ht'⟩, halike, hleads⟩

section Loop

variable {more : Cursor → Bool} {step : Parse α} (hmore : Sees more) (hstep : Tracks Eq step step)
  (hstrides : ∀ c, more c = true → Strides step c)

include hmore hstep hstrides

theorem collectWhile_tracks {rounds : Nat} {c d : Cursor} {as : List α}
    (h : (collectWhile more step rounds).run c = .ok as d) (hrounds : c.rest.length ≤ rounds) :
    d.rest <:+ c.rest ∧ ∀ ⦃others c'⦄, Leads others c c' → (d.rest = [] → others = []) →
      ∀ rounds', c'.rest.length ≤ rounds' →
        ∃ d', (collectWhile more step rounds').run c' = .ok as d' ∧ Leads others d d' := by
  induction rounds generalizing c as with
  | zero =>
    have hc := hmore.atEnd (List.length_eq_zero_iff.mp (Nat.le_zero.mp hrounds))
    cases h
    refine ⟨List.suffix_refl _, fun others c' hleads hothers rounds' _ => ?_⟩
    rw [hmore.alike (hleads.token? hothers)] at hc
    exact ⟨c', collectWhile_stop hc rounds', hleads⟩
  | succ rounds ih =>
    cases hc : more c with
    | false =>
      rw [collectWhile_stop hc] at h
      cases h
      refine ⟨List.suffix_refl _, fun others c' hleads hothers rounds' _ => ?_⟩
      rw [hmore.alike (hleads.token? hothers)] at hc
      exact ⟨c', collectWhile_stop hc rounds', hleads⟩
    | true =>
      rw [collectWhile_round hc] at h
      obtain ⟨a, u, hu, h⟩ := run_bind_ok_iff.mp h
      obtain ⟨as, v, hv, h⟩ := run_bind_ok_iff.mp h
      obtain ⟨rfl, rfl⟩ := run_pure_ok_iff.mp h
      have hlength := (hstrides c hc).length_lt hu
      obtain ⟨hsuffix, hloop⟩ := ih hv (by omega)
      have hrest := hsuffix.trans (hstep hu).1
      refine ⟨hrest, fun others c' hleads hothers rounds' hrounds' => ?_⟩
      have hleft : ∀ e : Cursor, v.rest <:+ e.rest → e.rest = [] → others = [] :=
        fun e he hnil => hothers (List.suffix_nil.mp (hnil ▸ he))
      have hc' : more c' = true := by rw [← hmore.alike (hleads.token? (hleft c hrest)), hc]
      obtain ⟨_, u', hu', rfl, hleads'⟩ := (hstep hu).2 hleads (hleft u hsuffix)
      have hlength' := (hstrides c' hc').length_lt hu'
      obtain ⟨rounds', rfl⟩ := Nat.exists_eq_add_one_of_ne_zero
        (Nat.ne_zero_of_lt (Nat.lt_of_lt_of_le hlength' hrounds'))
      obtain ⟨v', hv', hleads''⟩ := hloop hleads' hothers rounds' (by omega)
      refine ⟨v', ?_, hleads''⟩
      rw [collectWhile_round hc', run_bind_of_ok hu', run_bind_of_ok hv', EStateM.run_pure]

theorem loop_tracks :
    Tracks Eq (do collectWhile more step (← get).rest.length)
      (do collectWhile more step (← get).rest.length) := by
  intro c as d h
  obtain ⟨hsuffix, hloop⟩ := collectWhile_tracks hmore hstep hstrides h (Nat.le_refl _)
  refine ⟨hsuffix, fun others c' hleads hothers => ?_⟩
  obtain ⟨d', hd', hleads'⟩ := hloop hleads hothers _ (Nat.le_refl _)
  exact ⟨as, d', hd', rfl, hleads'⟩

theorem loop_bind {f : List α → Parse β} (hf : ∀ as, Tracks Eq (f as) (f as)) :
    Tracks Eq (do f (← collectWhile more step (← get).rest.length))
      (do f (← collectWhile more step (← get).rest.length)) := by
  have h := (loop_tracks hmore hstep hstrides).seq hf
  rwa [bind_assoc] at h

theorem loop_closes {f : List α → Parse β} (hf : ∀ as, Closes Eq (f as) (f as)) :
    Closes Eq (do f (← collectWhile more step (← get).rest.length))
      (do f (← collectWhile more step (← get).rest.length)) := by
  have h := (loop_tracks hmore hstep hstrides).seqCloses hf
  rwa [bind_assoc] at h

end Loop

section List

variable {item : Parse α} (hitem : Tracks Eq item item) (hstrides : ∀ c, Strides item c)

include hitem hstrides

theorem commaList_tracks : Tracks Eq (commaList item) (commaList item) := by
  refine Tracks.ite (sees_isBefore _) ?_ (Idle.pure rfl).tracks
  refine hitem.seq fun first => ?_
  refine loop_bind (sees_isAt _) (advance_tracks.bind fun _ _ _ => hitem) (fun c hc => ?_)
    fun as => (Idle.pure rfl).tracks
  exact (strides_advance (rest_ne_nil_of_isAt hc)).bind fun _ d _ => (hstrides d).walks

theorem parenthesized_closes : Closes Eq (parenthesized item) (parenthesized item) :=
  advance_tracks.closes fun _ _ _ =>
    (commaList_tracks hitem hstrides).seqCloses fun as => skip_closes _ as

theorem optionalList_tracks : Tracks Eq (optionalList item) (optionalList item) :=
  Tracks.ite (sees_isAt _) (parenthesized_closes hitem hstrides).tracks (Idle.pure rfl).tracks

end List

theorem enclosed_closes {item : Parse α} (hitem : Tracks Eq item item) :
    Closes Eq (do
        let inner ← item
        let _ ← expectKind .rightParen
        return inner)
      (do
        let inner ← item
        let _ ← expectKind .rightParen
        return inner) :=
  hitem.seqCloses fun inner => skip_closes _ inner

theorem value_tracks {t : Token} {f : Value → Parse α} (hf : ∀ v, Tracks Eq (f v) (f v)) :
    Tracks Eq (do
        let value ← t.value
        let _ ← advance
        f value)
      (do
        let value ← t.value
        let _ ← advance
        f value) :=
  (Idle.lift _).tracks.seq fun v => advance_tracks.bind fun _ _ _ => hf v

theorem expression_tracks (depth : Nat) :
    Tracks Eq (expression depth) (expression depth) ∧ Tracks Eq (sum depth) (sum depth) ∧
      Tracks Eq (operand depth) (operand depth) := by
  induction depth with
  | zero => exact ⟨.of_fails (.throw _), .of_fails (.throw _), .of_fails (.throw _)⟩
  | succ depth ih =>
    obtain ⟨hexpression, hsum, hoperand⟩ := ih
    refine ⟨hsum, ?_, ?_⟩
    · refine hoperand.seq fun left => Tracks.get fun c c' hseen => ?_
      generalize c.token? = seen, c'.token? = seen' at hseen
      cases hseen with
      | none => exact (Idle.pure rfl).tracks
      | @some t t' halike =>
        simp only [halike.isOf]
        split
        · next hplus =>
          rw [← halike.isOf] at hplus
          obtain rfl := halike.eq hplus (by decide)
          exact advance_tracks.bind fun _ _ _ => hsum.seq fun right => (Idle.pure rfl).tracks
        · exact (Idle.pure rfl).tracks
    · refine token_tracks.bind fun t t' halike => ?_
      simp only [halike.isOf]
      split
      · exact advance_tracks.bind fun _ _ _ => (enclosed_closes hexpression).tracks
      split
      · next hk =>
        rw [← halike.isOf] at hk
        obtain rfl := halike.eq hk (by decide)
        exact value_tracks fun v => (Idle.pure rfl).tracks
      split
      · next hk =>
        rw [← halike.isOf] at hk
        obtain rfl := halike.eq hk (by decide)
        exact value_tracks fun v => (Idle.pure rfl).tracks
      split
      · next hk =>
        rw [← halike.isOf] at hk
        obtain rfl := halike.eq hk (by decide)
        refine value_tracks fun v => Tracks.ite (sees_isAt _) ?_ (Idle.pure rfl).tracks
        exact (parenthesized_closes hexpression (strides_expression depth).1).tracks.seq
          fun as => (Idle.pure rfl).tracks
      · exact .of_fails (.bind fun _ => .bind fun _ => .bind fun _ => .bind fun _ => .throw _)

section Depth

variable (depth : Nat)

theorem printed_tracks : Tracks Eq (printed depth) (printed depth) := by
  have he := (expression_tracks depth).1
  exact Tracks.ite (sees_isAt _)
    ((expectKind_closes _).tracks.bind fun _ _ _ => (enclosed_closes he).tracks) he

theorem printStatement_closes {keyword : Token.Kind}
    (hkeyword : keyword ∉ Token.brackets.map Prod.snd) (newline : Bool) :
    Closes Eq (printStatement depth keyword newline) (printStatement depth keyword newline) := by
  refine (expectKind_closes _).tracks.closes fun t t' h => ?_
  obtain rfl := h.eq hkeyword
  exact (printed_tracks depth).seqCloses fun inner => skip_closes _ _

theorem callStatement_closes : Closes Eq (callStatement depth) (callStatement depth) :=
  (expectKind_closes _).tracks.closes fun _ _ _ => name_closes.tracks.seqCloses fun _ =>
    (optionalList_tracks (expression_tracks depth).1 (strides_expression depth).1).seqCloses
      fun _ => skip_closes _ _

theorem assignment_closes : Closes Eq (assignment depth) (assignment depth) := by
  refine (expectKind_closes _).tracks.closes fun t t' h => ?_
  obtain rfl := h.eq (by decide)
  exact name_closes.tracks.seqCloses fun _ => (expectKind_closes _).tracks.closes fun _ _ _ =>
    (expression_tracks depth).1.seqCloses fun _ => skip_closes _ _

theorem unexpected_fails (t : Token) : Fails (unexpected t : Parse α) := .bind fun _ => .throw _

theorem statement_tracks : Tracks Eq (statement depth) (statement depth) := by
  refine Tracks.get fun c c' hseen => ?_
  generalize c.token? = seen, c'.token? = seen' at hseen
  cases hseen with
  | none => exact .of_fails (.throw _)
  | @some t t' halike =>
    simp only [halike.isOf]
    split
    · exact (printStatement_closes depth (by decide) _).tracks
    split
    · exact (printStatement_closes depth (by decide) _).tracks
    split
    · exact (callStatement_closes depth).tracks
    split
    · exact (assignment_closes depth).tracks
    split
    · exact .of_fails (.throw _)
    · exact .of_fails (unexpected_fails _)

theorem block_closes : Closes Eq (block depth) (block depth) :=
  (expectKind_closes _).tracks.closes fun _ _ _ =>
    loop_closes (sees_isBefore _) (statement_tracks depth) (fun c _ => strides_statement depth c)
      fun _ => skip_closes _ _

theorem functionDeclaration_closes :
    Closes Eq (functionDeclaration depth) (functionDeclaration depth) := by
  refine (expectKind_closes _).tracks.closes fun _ _ _ =>
    (expectKind_closes _).tracks.closes fun _ _ _ =>
      (expectKind_closes _).tracks.closes fun t t' h => ?_
  obtain rfl := h.eq (by decide)
  refine (optionalList_tracks name_closes.tracks strides_name).seqCloses fun params => ?_
  refine (block_closes depth).idle fun body _ h => ?_
  subst h
  refine (Idle.lift _).bind fun v _ h => ?_
  subst h
  exact .pure rfl

theorem entryBlock_closes : Closes Eq (entryBlock depth) (entryBlock depth) :=
  (expectKind_closes _).tracks.closes fun _ _ _ =>
    (block_closes depth).idle fun _ _ h => .pure (congrArg Decl.entry h)

theorem declaration_closes : Closes Eq (declaration depth) (declaration depth) := by
  refine Closes.get fun c c' hseen => ?_
  generalize c.token? = seen, c'.token? = seen' at hseen
  cases hseen with
  | none => exact .of_fails (.throw _)
  | @some t t' halike =>
    simp only [halike.isOf]
    split
    · exact functionDeclaration_closes depth
    split
    · exact entryBlock_closes depth
    · exact .of_fails (unexpected_fails _)

end Depth

/-- A loop of steps that close what they read goes on before more tokens. -/
theorem collectWhile_append {more : Cursor → Bool} {step : Parse α} (hmore : Sees more)
    (hstep : Closes Eq step step) (hstrides : ∀ c, more c = true → Strides step c) {rounds : Nat}
    {c d : Cursor} {as : List α} (h : (collectWhile more step rounds).run c = .ok as d)
    (hrounds : c.rest.length ≤ rounds) {others : List Token} {c' : Cursor}
    (hleads : Leads others c c') {rounds' : Nat} (hrounds' : c'.rest.length ≤ rounds') :
    ∃ d' left, Leads others d d' ∧ d'.rest.length ≤ left ∧
      (collectWhile more step rounds').run c' =
        (do return as ++ (← collectWhile more step left)).run d' := by
  induction rounds generalizing c as c' rounds' with
  | zero =>
    cases h
    exact ⟨c', rounds', hleads, hrounds', by simp only [List.nil_append, bind_pure]⟩
  | succ rounds ih =>
    cases hc : more c with
    | false =>
      rw [collectWhile_stop hc] at h
      cases h
      exact ⟨c', rounds', hleads, hrounds', by simp only [List.nil_append, bind_pure]⟩
    | true =>
      rw [collectWhile_round hc] at h
      obtain ⟨a, u, hu, h⟩ := run_bind_ok_iff.mp h
      obtain ⟨as, v, hv, h⟩ := run_bind_ok_iff.mp h
      obtain ⟨rfl, rfl⟩ := run_pure_ok_iff.mp h
      obtain ⟨hrest, -, hclosed⟩ := hstep hu
      obtain ⟨_, u', hu', rfl, hleads'⟩ := hclosed hleads
      have hc' : more c' = true := by
        rw [← hmore.alike (hleads.token? fun hnil => absurd hnil hrest), hc]
      have hlength := (hstrides c hc).length_lt hu
      have hlength' := (hstrides c' hc').length_lt hu'
      obtain ⟨rounds', rfl⟩ := Nat.exists_eq_add_one_of_ne_zero
        (Nat.ne_zero_of_lt (Nat.lt_of_lt_of_le hlength' hrounds'))
      have hround : u'.rest.length ≤ rounds' := by omega
      obtain ⟨d', left, hd', hleft, hrun⟩ := ih hv (by omega) hleads' hround
      refine ⟨d', left, hd', hleft, ?_⟩
      rw [collectWhile_round hc', run_bind_of_ok hu', EStateM.run_bind, hrun, EStateM.run_bind,
        EStateM.run_bind]
      cases (collectWhile more step left).run d' <;> rfl

end Parse

theorem Program.ofTokens_ok_iff {depth : Nat} {tokens : List Token} {program : Program} :
    Program.ofTokens depth tokens = .ok program ↔
      ∃ c, (Parse.program depth).run (Cursor.ofTokens tokens) = .ok program c := by
  rw [Program.ofTokens]
  cases (Parse.program depth).run (Cursor.ofTokens tokens) <;> simp

/-- The tokens of two programs, one behind the other, make one program of all declarations. -/
theorem Program.ofTokens_append {depth : Nat} {first second second' : List Token}
    {program program' : Program} (hbare : ∀ t ∈ first, t.isBare = false)
    (h : Program.ofTokens depth first = .ok program)
    (h' : Program.ofTokens depth second = .ok program')
    (halike : List.Forall₂ Token.Alike second second') :
    Program.ofTokens depth (first ++ second') = .ok ⟨program.body ++ program'.body⟩ := by
  obtain ⟨c, hc⟩ := ofTokens_ok_iff.mp h
  have hend : c.rest = [] := Parse.program_done hc hbare
  obtain ⟨c', hc'⟩ := ofTokens_ok_iff.mp h'
  rw [Parse.program, run_get_bind] at hc hc'
  obtain ⟨body, d, hbody, hd⟩ := run_bind_ok_iff.mp hc
  obtain ⟨rfl, rfl⟩ := run_pure_ok_iff.mp hd
  obtain ⟨body', d', hbody', hd'⟩ := run_bind_ok_iff.mp hc'
  obtain ⟨rfl, rfl⟩ := run_pure_ok_iff.mp hd'
  have hstrides : ∀ c : Cursor, c.token?.isSome = true →
      Parse.Strides (Parse.declaration depth) c :=
    fun c _ => Parse.strides_declaration depth c
  have hclosed := Parse.declaration_closes depth
  have hboth : Cursor.Leads second (.ofTokens first) (.ofTokens (first ++ second')) :=
    List.rel_append (List.forall₂_same.mpr fun t _ => .refl t) halike
  obtain ⟨u, left, hu, hleft, hrun⟩ := Parse.collectWhile_append Cursor.sees_token hclosed hstrides
    hbody (Nat.le_refl _) hboth (Nat.le_refl _)
  have hbehind : Cursor.Leads [] (.ofTokens second) u := by
    rw [Cursor.Leads, hend, List.nil_append] at hu
    rw [Cursor.Leads, List.append_nil]
    exact hu
  obtain ⟨v, hv, -⟩ := (Parse.collectWhile_tracks Cursor.sees_token hclosed.tracks hstrides hbody'
    (Nat.le_refl _)).2 hbehind (fun _ => rfl) left hleft
  refine ofTokens_ok_iff.mpr ⟨v, ?_⟩
  rw [Parse.program, run_get_bind, EStateM.run_bind, hrun, run_bind_of_ok hv]
  rfl

end Scriptlet
