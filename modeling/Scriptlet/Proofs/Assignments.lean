import Mathlib.Data.List.Forall2
import Scriptlet.Proofs.Accepting
import Scriptlet.Proofs.Extension
import Scriptlet.Proofs.History
import Scriptlet.Proofs.Lexical
import Scriptlet.Proofs.Writing

/-! How assignments are spelled. The keyword and the sign of an assignment are of one kind, and the
grammar looks at kinds only. So each of the two may be spelled as the other one is, and the program
is the same. -/
namespace Scriptlet

namespace Token

/-- The tokens of the kind of assignments that sources have: the keyword and the sign. -/
def assigning : List Token :=
  ["assign", "="].map fun text => .plain .assign (.str text)

/-- The same token, two brackets of one kind, or two tokens of the kind of assignments that tell the
same line. -/
def Respelled (t t' : Token) : Prop :=
  Alike t t' ∨ t.isOf .assign = true ∧ t'.isOf .assign = true ∧ t.line = t'.line

namespace Respelled

variable {t t' : Token}

theorem refl (t : Token) : Respelled t t := .inl (.refl t)

theorem of_assigning (ht : t ∈ assigning) (ht' : t' ∈ assigning) : Respelled t t' := by
  obtain ⟨text, -, rfl⟩ := List.mem_map.mp ht
  obtain ⟨text', -, rfl⟩ := List.mem_map.mp ht'
  exact .inr ⟨isOf_plain _ _, isOf_plain _ _, rfl⟩

theorem isOf (h : Respelled t t') (kind : Kind) : t.isOf kind = t'.isOf kind := by
  obtain h | ⟨ht, ht', -⟩ := h
  · exact h.isOf kind
  · rw [isOf_eq_decide ht, isOf_eq_decide ht']

theorem isBare (h : Respelled t t') : t.isBare = t'.isBare := by
  obtain h | ⟨ht, ht', -⟩ := h
  · exact h.isBare
  · obtain ⟨fields, hfields⟩ := List.head?_eq_some_iff.mp (isOf_iff.mp ht)
    obtain ⟨fields', hfields'⟩ := List.head?_eq_some_iff.mp (isOf_iff.mp ht')
    rw [Token.isBare, Token.isBare, hfields, hfields']
    rfl

theorem eq (h : Respelled t t') {kind : Kind} (ht : t.isOf kind = true)
    (hkind : kind ∉ .assign :: brackets.map Prod.snd) : t = t' := by
  obtain ⟨hassign, hbracket⟩ := not_or.mp (List.mem_cons.not.mp hkind)
  obtain h | ⟨hof, -, -⟩ := h
  · exact h.eq ht hbracket
  · rw [isOf_eq_decide hof, decide_eq_true_iff] at ht
    exact absurd ht.symm hassign

theorem line (h : Respelled t t') (ht : t.isOf .assign = true) : t.line = t'.line := by
  obtain h | ⟨-, -, hline⟩ := h
  · rw [h.eq ht (by decide)]
  · exact hline

end Respelled

end Token

namespace Cursor

/-- The cursors stand before tokens that differ in their spelling only. -/
def Respelled (c c' : Cursor) : Prop :=
  List.Forall₂ Token.Respelled c.rest c'.rest

variable {c c' : Cursor}

theorem Respelled.token? (h : Respelled c c') : Option.Rel Token.Respelled c.token? c'.token? := by
  obtain ⟨position, rest⟩ := c
  obtain ⟨position', rest'⟩ := c'
  cases h with
  | nil => exact .none
  | @cons t t' rest rest' ht _ =>
    simp only [Cursor.token?, Cursor.current?, List.head?_cons, Option.filter_some, ht.isBare]
    cases t'.isBare with
    | true => exact .none
    | false => exact .some ht

theorem Respelled.any (h : Respelled c c') {q : Token → Bool}
    (hq : ∀ ⦃t t'⦄, Token.Respelled t t' → q t = q t') : c.token?.any q = c'.token?.any q := by
  have hseen := h.token?
  generalize c.token? = seen, c'.token? = seen' at hseen
  cases hseen with
  | none => rfl
  | some ht => exact hq ht

theorem Respelled.isAt (h : Respelled c c') (kind : Token.Kind) : c.isAt kind = c'.isAt kind :=
  h.any fun _ _ ht => ht.isOf kind

theorem Respelled.isBefore (h : Respelled c c') (kind : Token.Kind) :
    c.isBefore kind = c'.isBefore kind :=
  h.any fun _ _ ht => congrArg not (ht.isOf kind)

theorem Respelled.isSome (h : Respelled c c') : c.token?.isSome = c'.token?.isSome := by
  simpa only [Option.any_true] using h.any (q := fun _ => true) fun _ _ _ => rfl

end Cursor

namespace Parse

open Cursor

variable {α β γ δ : Type}

/-- What the first step does, the second one does where assignments are spelled otherwise, with a
result that is related to the one of the first. -/
def Follows (R : α → β → Prop) (x : Parse α) (y : Parse β) : Prop :=
  ∀ ⦃c a d⦄, x.run c = .ok a d → ∀ ⦃c'⦄, Respelled c c' →
    ∃ b d', y.run c' = .ok b d' ∧ R a b ∧ Respelled d d'

namespace Follows

variable {R : α → β → Prop} {S : γ → δ → Prop} {x : Parse α} {y : Parse β} {f : α → Parse γ}
  {g : β → Parse δ}

theorem of_fails (h : Fails x) : Follows R x y := fun _ _ _ hx => absurd hx (h _ _ _)

theorem pure {a : α} {b : β} (h : R a b) : Follows R (pure a) (pure b) := by
  intro c a' d hx c' hc
  obtain ⟨rfl, rfl⟩ := run_pure_ok_iff.mp hx
  exact ⟨b, c', rfl, h, hc⟩

theorem lift (x : Except Fault α) : Follows Eq (liftM x : Parse α) (liftM x) := by
  intro c a d hx c' hc
  obtain ⟨rfl, rfl⟩ := run_lift_ok_iff.mp hx
  exact ⟨a, c', rfl, rfl, hc⟩

theorem bind (hx : Follows R x y) (hf : ∀ a b, R a b → Follows S (f a) (g b)) :
    Follows S (x >>= f) (y >>= g) := by
  intro c s e h c' hc
  obtain ⟨a, d, hd, he⟩ := run_bind_ok_iff.mp h
  obtain ⟨b, d', hd', hab, hrest⟩ := hx hd hc
  obtain ⟨t, e', he', hst, hrest'⟩ := hf a b hab he hrest
  exact ⟨t, e', run_bind_ok_iff.mpr ⟨b, d', hd', he'⟩, hst, hrest'⟩

theorem seq {x : Parse α} {g : α → Parse δ} (hx : Follows Eq x x)
    (hf : ∀ a, Follows S (f a) (g a)) : Follows S (x >>= f) (x >>= g) := by
  refine hx.bind fun a _ h => ?_
  subst h
  exact hf a

theorem get {f g : Cursor → Parse γ} {T : γ → γ → Prop}
    (h : ∀ c c', Respelled c c' → Follows T (f c) (g c')) :
    Follows T (get >>= f) (get >>= g) :=
  fun c _ _ hx c' hc => h c c' hc hx hc

theorem ite {p : Cursor → Bool} (hp : ∀ ⦃c c'⦄, Respelled c c' → p c = p c') {x y : Parse γ}
    {T : γ → γ → Prop} (hx : Follows T x x) (hy : Follows T y y) :
    Follows T (do if p (← MonadState.get) then x else y)
      (do if p (← MonadState.get) then x else y) := by
  refine get fun c c' h => ?_
  rw [hp h]
  split
  · exact hx
  · exact hy

end Follows

theorem advance_follows : Follows (fun _ _ => True) advance advance := by
  rintro ⟨position, rest⟩ a d h ⟨position', rest'⟩ hc
  cases h
  refine ⟨_, _, rfl, trivial, ?_⟩
  cases hc with
  | nil => exact .nil
  | cons _ hrest => exact hrest

theorem expectKind_follows (kind : Token.Kind) :
    Follows (fun t t' => Token.Respelled t t' ∧ t.isOf kind = true) (expectKind kind)
      (expectKind kind) := by
  intro c t d h c' hc
  obtain ⟨ht, rest, hrest, rfl⟩ := expectKind_ok_iff.mp h
  rw [Cursor.Respelled, hrest] at hc
  obtain ⟨t', rest', hspelled, hbehind, hrest'⟩ := List.forall₂_cons_left_iff.mp hc
  have ht' : t'.isOf kind = true := hspelled.isOf kind ▸ ht
  exact ⟨t', _, expectKind_ok_iff.mpr ⟨ht', rest', hrest', rfl⟩, ⟨hspelled, ht⟩, hbehind⟩

theorem skip_follows (kind : Token.Kind) (a : α) :
    Follows Eq (do let _ ← expectKind kind; return a) (do let _ ← expectKind kind; return a) :=
  (expectKind_follows kind).bind fun _ _ _ => .pure rfl

theorem name_follows : Follows Eq name name := by
  refine (expectKind_follows _).bind fun t t' h => ?_
  obtain rfl := h.1.eq h.2 (by decide)
  exact .lift _

theorem token_follows : Follows Token.Respelled token token := by
  intro c t d h c' hc
  obtain ⟨rfl, ht⟩ := token_ok_iff.mp h
  have hseen := hc.token?
  rw [ht] at hseen
  generalize ht' : c'.token? = seen at hseen
  cases hseen with
  | some hspelled => exact ⟨_, c', token_ok_iff.mpr ⟨rfl, ht'⟩, hspelled, hc⟩

section Loop

variable {more : Cursor → Bool} {step : Parse α}
  (hmore : ∀ ⦃c c'⦄, Respelled c c' → more c = more c') (hstep : Follows Eq step step)

include hmore hstep

theorem collectWhile_follows (rounds : Nat) :
    Follows Eq (collectWhile more step rounds) (collectWhile more step rounds) := by
  induction rounds with
  | zero => exact .pure rfl
  | succ rounds ih =>
    rw [collectWhile]
    refine Follows.get fun c c' hc => ?_
    rw [hmore hc]
    split
    · exact hstep.seq fun first => ih.seq fun others => .pure rfl
    · exact .pure rfl

/-- As many rounds as there are tokens. -/
theorem loop_follows {f : List α → Parse β} (hf : ∀ as, Follows Eq (f as) (f as)) :
    Follows Eq (do f (← collectWhile more step (← get).rest.length))
      (do f (← collectWhile more step (← get).rest.length)) := by
  refine Follows.get fun c c' hc => ?_
  rw [List.Forall₂.length_eq hc]
  exact (collectWhile_follows hmore hstep _).seq hf

end Loop

section List

variable {item : Parse α} (hitem : Follows Eq item item)

include hitem

theorem commaList_follows : Follows Eq (commaList item) (commaList item) := by
  refine .ite (fun _ _ h => h.isBefore _) (hitem.seq fun first => ?_) (.pure rfl)
  exact loop_follows (fun _ _ h => h.isAt _) (advance_follows.bind fun _ _ _ => hitem)
    fun others => .pure rfl

theorem parenthesized_follows : Follows Eq (parenthesized item) (parenthesized item) :=
  advance_follows.bind fun _ _ _ => (commaList_follows hitem).seq fun as => skip_follows _ as

theorem optionalList_follows : Follows Eq (optionalList item) (optionalList item) :=
  .ite (fun _ _ h => h.isAt _) (parenthesized_follows hitem) (.pure rfl)

end List

theorem value_follows {t : Token} {f : Value → Parse α} (hf : ∀ v, Follows Eq (f v) (f v)) :
    Follows Eq (do
        let value ← t.value
        let _ ← advance
        f value)
      (do
        let value ← t.value
        let _ ← advance
        f value) :=
  (Follows.lift _).seq fun v => advance_follows.bind fun _ _ _ => hf v

theorem sum_follows {depth : Nat} (hsum : Follows Eq (sum depth) (sum depth))
    (hoperand : Follows Eq (operand depth) (operand depth)) :
    Follows Eq (sum (depth + 1)) (sum (depth + 1)) := by
  refine hoperand.seq fun left => Follows.get fun c c' hc => ?_
  have hseen := hc.token?
  generalize c.token? = seen, c'.token? = seen' at hseen
  cases hseen with
  | none => exact .pure rfl
  | @some t t' h =>
    simp only [h.isOf]
    split
    · next hplus =>
      obtain rfl := h.eq ((h.isOf _).trans hplus) (by decide)
      exact advance_follows.bind fun _ _ _ => hsum.seq fun right => .pure rfl
    · exact .pure rfl

theorem operand_follows {depth : Nat}
    (hexpression : Follows Eq (expression depth) (expression depth)) :
    Follows Eq (operand (depth + 1)) (operand (depth + 1)) := by
  refine token_follows.bind fun t t' h => ?_
  simp only [h.isOf]
  split
  · exact advance_follows.bind fun _ _ _ => hexpression.seq fun inner => skip_follows _ inner
  split
  · next hstring =>
    obtain rfl := h.eq ((h.isOf _).trans hstring) (by decide)
    exact value_follows fun v => .pure rfl
  split
  · next hnumber =>
    obtain rfl := h.eq ((h.isOf _).trans hnumber) (by decide)
    exact value_follows fun v => .pure rfl
  split
  · next hname =>
    obtain rfl := h.eq ((h.isOf _).trans hname) (by decide)
    refine value_follows fun v => .ite (fun _ _ h => h.isAt _) ?_ (.pure rfl)
    exact (parenthesized_follows hexpression).seq fun as => .pure rfl
  · exact .of_fails (.bind fun _ => .bind fun _ => .bind fun _ => .bind fun _ => .throw _)

theorem expression_follows (depth : Nat) :
    Follows Eq (expression depth) (expression depth) ∧ Follows Eq (sum depth) (sum depth) ∧
      Follows Eq (operand depth) (operand depth) := by
  induction depth with
  | zero => exact ⟨.of_fails (.throw _), .of_fails (.throw _), .of_fails (.throw _)⟩
  | succ depth ih =>
    obtain ⟨hexpression, hsum, hoperand⟩ := ih
    exact ⟨hsum, sum_follows hsum hoperand, operand_follows hexpression⟩

section Depth

variable (depth : Nat)

theorem printed_follows : Follows Eq (printed depth) (printed depth) := by
  have he := (expression_follows depth).1
  refine .ite (fun _ _ h => h.isAt _) ?_ he
  exact (expectKind_follows _).bind fun _ _ _ => he.seq fun inner => skip_follows _ inner

theorem printStatement_follows {keyword : Token.Kind}
    (hkeyword : keyword ∉ .assign :: Token.brackets.map Prod.snd) (newline : Bool) :
    Follows Eq (printStatement depth keyword newline) (printStatement depth keyword newline) := by
  refine (expectKind_follows _).bind fun t t' h => ?_
  obtain rfl := h.1.eq h.2 hkeyword
  exact (printed_follows depth).seq fun inner => skip_follows _ _

theorem callStatement_follows : Follows Eq (callStatement depth) (callStatement depth) :=
  (expectKind_follows _).bind fun _ _ _ => name_follows.seq fun _ =>
    (optionalList_follows (expression_follows depth).1).seq fun _ => skip_follows _ _

-- Of the keyword only the line is kept, and of the sign nothing.
theorem assignment_follows : Follows Eq (assignment depth) (assignment depth) := by
  refine (expectKind_follows _).bind fun t t' h => name_follows.seq fun target =>
    (expectKind_follows _).bind fun _ _ _ => (expression_follows depth).1.seq fun value => ?_
  rw [h.1.line h.2]
  exact skip_follows _ _

theorem statement_follows : Follows Eq (statement depth) (statement depth) := by
  refine Follows.get fun c c' hc => ?_
  have hseen := hc.token?
  generalize c.token? = seen, c'.token? = seen' at hseen
  cases hseen with
  | none => exact .of_fails (.throw _)
  | @some t t' h =>
    simp only [h.isOf]
    split
    · exact printStatement_follows depth (by decide) _
    split
    · exact printStatement_follows depth (by decide) _
    split
    · exact callStatement_follows depth
    split
    · exact assignment_follows depth
    split
    · exact .of_fails (.throw _)
    · exact .of_fails (unexpected_fails _)

theorem block_follows : Follows Eq (block depth) (block depth) :=
  (expectKind_follows _).bind fun _ _ _ =>
    loop_follows (fun _ _ h => h.isBefore _) (statement_follows depth) fun _ => skip_follows _ _

theorem functionDeclaration_follows :
    Follows Eq (functionDeclaration depth) (functionDeclaration depth) := by
  refine (expectKind_follows _).bind fun _ _ _ => (expectKind_follows _).bind fun _ _ _ =>
    (expectKind_follows _).bind fun t t' h => ?_
  obtain rfl := h.1.eq h.2 (by decide)
  exact (optionalList_follows name_follows).seq fun params => (block_follows depth).seq fun body =>
    (Follows.lift _).seq fun v => .pure rfl

theorem entryBlock_follows : Follows Eq (entryBlock depth) (entryBlock depth) :=
  (expectKind_follows _).bind fun _ _ _ => (block_follows depth).seq fun _ => .pure rfl

theorem declaration_follows : Follows Eq (declaration depth) (declaration depth) := by
  refine Follows.get fun c c' hc => ?_
  have hseen := hc.token?
  generalize c.token? = seen, c'.token? = seen' at hseen
  cases hseen with
  | none => exact .of_fails (.throw _)
  | @some t t' h =>
    simp only [h.isOf]
    split
    · exact functionDeclaration_follows depth
    split
    · exact entryBlock_follows depth
    · exact .of_fails (unexpected_fails _)

theorem program_follows : Follows Eq (program depth) (program depth) :=
  loop_follows (fun _ _ h => h.isSome) (declaration_follows depth) fun _ => .pure rfl

end Depth

end Parse

namespace Token

variable {t u : Token}

theorem Writable.lexed (h : t.Writable) : t.Lexed := by
  cases h with
  | @keyword word kind hmem =>
    have hkinds : ∀ entry ∈ keywords, entry.2 ∉ [Kind.number, .float] := by decide
    exact .plain (Scanner.fits_text (hkinds _ hmem) word)
  | identifier => exact .plain ⟨_, rfl⟩
  | number => exact .plain ⟨_, rfl⟩
  | string text => exact .plain ⟨text, rfl⟩
  | @bracket c kind line column hmem =>
    have hbrackets : ∀ entry ∈ brackets, brackets.lookup entry.1 = some entry.2 := by decide
    exact .placed line column (hbrackets _ hmem)
  | @sign c kind hmem =>
    have hkinds : ∀ entry ∈ signs, entry.2 ∉ [Kind.number, .float] := by decide
    exact .plain (Scanner.fits_text (hkinds _ hmem) _)
  | assign => exact .plain ⟨_, rfl⟩
  | equals => exact .plain ⟨_, rfl⟩

/-- A token of a source is of a kind, and a bracket if it has more than its kind and its value. -/
theorem Lexed.cases_of_content (h : t.Lexed) :
    ∃ kind, t.isOf kind = true ∧ (t = ⟨t.content⟩ ∨ kind ∈ brackets.map Prod.snd) := by
  cases h with
  | plain => exact ⟨_, isOf_plain _ _, .inl rfl⟩
  | placed line column hlookup =>
    exact ⟨_, isOf_iff.mpr rfl, .inr (Scanner.mem_kinds_of_lookup hlookup)⟩

theorem isOf_of_content (h : t.content = u.content) {kind : Kind} (ht : t.isOf kind = true) :
    u.isOf kind = true := by
  rw [isOf_iff] at ht ⊢
  rw [← ht]
  have hhead := congrArg List.head? h
  rw [content, content, List.head?_take, List.head?_take] at hhead
  exact hhead.symm

/-- Tokens of sources with the same kind and value are the same, but for the places of brackets. -/
theorem Lexed.alike_of_content (ht : t.Lexed) (hu : u.Lexed) (h : t.content = u.content) :
    Alike t u := by
  obtain ⟨kind, hkind, heq | hbracket⟩ := ht.cases_of_content
  · obtain ⟨kind', hkind', heq' | hbracket'⟩ := hu.cases_of_content
    · rw [heq, heq', h]
      exact .refl _
    · exact .inr ⟨kind', hbracket', isOf_of_content h.symm hkind', hkind'⟩
  · exact .inr ⟨kind, hbracket, hkind, isOf_of_content h hkind⟩

/-- The tokens that are read from the source of others differ in the places of brackets only. -/
theorem ofSource_sourceOf {ts : List Token} (h : ∀ t ∈ ts, t.Writable) :
    ∃ read, ofSource (sourceOf ts) = .ok read ∧ List.Forall₂ Alike ts read := by
  obtain ⟨ls, hvalid, htext, hcontent⟩ := exists_lexemes h
  have hsource := Scanner.ofSource_spaced hvalid
  rw [Scanner.spaced, htext] at hsource
  have hsame : List.Forall₂ Eq (ts.map content) ((Scanner.tokensOf [] ls).map content) := by
    rw [hcontent []]
    exact List.forall₂_refl _
  rw [List.forall₂_map_left_iff, List.forall₂_map_right_iff] at hsame
  have hwritten := (List.forall₂_and_left _ _).mpr ⟨fun t ht => (h t ht).lexed, hsame⟩
  have hread := (List.forall₂_and_left _ _).mpr ⟨(ofSource_ok_iff.mp hsource).lexed, hwritten.flip⟩
  exact ⟨_, hsource, hread.flip.imp fun t u hpair => hpair.2.1.alike_of_content hpair.1 hpair.2.2⟩

/-- A word is of the kind of assignments only if it is their keyword. -/
theorem ofWord_assigning {word : String}
    (h : (keywords.lookup word).getD .identifier = .assign) : ofWord word ∈ assigning := by
  have hkeywords : ∀ entry ∈ keywords, entry.2 = .assign → entry.1 = "assign" := by decide
  cases hlookup : keywords.lookup word with
  | none =>
    rw [hlookup] at h
    cases h
  | some kind =>
    rw [hlookup, Option.getD_some] at h
    obtain rfl : word = "assign" := hkeywords (word, kind) (Scanner.mem_of_lookup hlookup) h
    exact List.mem_map.mpr ⟨"assign", List.mem_cons_self, rfl⟩

end Token

/-- The tokens of the kind of assignments that a lexeme may have. -/
theorem Lexical.Spells.assigning {l : Lexical} {chars before : List Char} {ts : List Token}
    (h : Spells l chars) (hts : l.tokens before chars = .ok ts) :
    ∀ t ∈ ts, t.isOf .assign = true → t ∈ Token.assigning := by
  intro t ht hassign
  obtain ⟨kind, hkind, hof⟩ := isOf_kindOf hts ht
  rw [Token.isOf_eq_decide hassign, decide_eq_true_iff] at hof
  subst hof
  cases h with
  | word =>
    cases hts
    obtain rfl := List.mem_singleton.mp ht
    exact Token.ofWord_assigning (Option.some.inj hkind)
  | bracket hmem =>
    have hbrackets : ∀ entry ∈ Token.brackets, entry.2 ≠ .assign := by decide
    exact absurd (Option.some.inj hkind) (hbrackets _ hmem)
  | sign hmem =>
    have hsigns : ∀ entry ∈ Token.signs, entry.2 ≠ .assign := by decide
    exact absurd (Option.some.inj hkind) (hsigns _ hmem)
  | assign =>
    cases hts
    obtain rfl := List.mem_singleton.mp ht
    exact List.mem_map.mpr ⟨"=", List.mem_cons_of_mem _ List.mem_cons_self, rfl⟩
  | _ => cases hkind

theorem Lexical.Splits.assigning {before ahead : List Char} {ts : List Token}
    (h : Splits before ahead ts) : ∀ t ∈ ts, t.isOf .assign = true → t ∈ Token.assigning := by
  induction h with
  | nil => exact List.forall_mem_nil _
  | cons hspells _ hts _ ih => exact List.forall_mem_append.mpr ⟨hspells.assigning hts, ih⟩

namespace Derivation

/-- The statements of a declaration. -/
def Declaration.statements : Declaration → List Statement
  | .function _ _ _ _ body => body.body
  | .entry _ body => body.body

/-- The statements of all declarations. -/
def statements (d : Derivation) : List Statement :=
  d.declarations.flatMap Declaration.statements

theorem Block.mem_tokens {block : Block} {s : Statement} {t : Token} (hs : s ∈ block.body)
    (ht : t ∈ s.tokens) : t ∈ block.tokens := by
  refine List.mem_cons_of_mem _ (List.mem_append_left _ ?_)
  exact List.mem_flatMap.mpr ⟨s, hs, ht⟩

theorem mem_tokens_of_statement {d : Derivation} {s : Statement} {t : Token}
    (hs : s ∈ d.statements) (ht : t ∈ s.tokens) : t ∈ d.tokens := by
  obtain ⟨declaration, hmem, hs⟩ := List.mem_flatMap.mp hs
  refine List.mem_flatMap.mpr ⟨declaration, hmem, ?_⟩
  cases declaration with
  | function keyword colon name params body =>
    have hbody := Block.mem_tokens hs ht
    exact List.mem_cons_of_mem _ (List.mem_cons_of_mem _ (List.mem_cons_of_mem _
      (List.mem_append_right _ hbody)))
  | entry keyword body => exact List.mem_cons_of_mem _ (Block.mem_tokens hs ht)

end Derivation

namespace Program

variable {depth : Nat} {ts ts' : List Token} {program : Program}

/-- However assignments are spelled, the program is the same. -/
theorem ofTokens_respelled (h : ofTokens depth ts = .ok program)
    (hspelled : List.Forall₂ Token.Respelled ts ts') : ofTokens depth ts' = .ok program := by
  obtain ⟨c, hc⟩ := ofTokens_ok_iff.mp h
  have hcursors : Cursor.Respelled (.ofTokens ts) (.ofTokens ts') := hspelled
  obtain ⟨_, c', hc', rfl, -⟩ := Parse.program_follows depth hc hcursors
  exact ofTokens_ok_iff.mpr ⟨c', hc'⟩

/-- The keyword and the sign of every assignment of a source are each spelled in one of the two
ways, and in whichever: spelled otherwise, the tokens have the same program, and so has the source
that is written with them. -/
theorem assignments_of_source (source : String) (ts : List Token) (depth : Nat) (program : Program)
    (hsource : Token.ofSource source = .ok ts) (hprogram : ofTokens depth ts = .ok program) :
    ∃ d : Derivation, (∀ other : Derivation, other.tokens = ts ↔ other = d) ∧
      d.program = program ∧
      (∀ keyword name sign value semicolon,
        Derivation.Statement.assign keyword name sign value semicolon ∈ d.statements →
          keyword.token ∈ Token.assigning ∧ sign.token ∈ Token.assigning) ∧
      ∀ ts', List.Forall₂ Token.Respelled ts ts' → ofTokens depth ts' = .ok program ∧
        ((∀ t ∈ ts', t.Writable) → ∃ read, Token.ofSource (Token.sourceOf ts') = .ok read ∧
          ofTokens depth read = .ok program) := by
  have hlexes := Token.ofSource_ok_iff.mp hsource
  obtain ⟨c, hc⟩ := ofTokens_ok_iff.mp hprogram
  obtain ⟨-, d, rfl, rfl⟩ := Parse.program_sound (fun t ht => (hlexes.lexed t ht).hasValue) hc
  refine ⟨d, fun other => ?_, rfl, fun keyword name sign value semicolon hs => ?_,
    fun ts' hspelled => ?_⟩
  · constructor
    · exact Derivation.tokens_injective
    · rintro rfl
      rfl
  · have hassigning : ∀ leaf : Leaf .assign,
        leaf.token ∈ (Derivation.Statement.assign keyword name sign value semicolon).tokens →
          leaf.token ∈ Token.assigning := fun leaf hleaf =>
      hlexes.splits.assigning _ (Derivation.mem_tokens_of_statement hs hleaf) leaf.isKind
    exact ⟨hassigning keyword List.mem_cons_self, hassigning sign
      (List.mem_cons_of_mem _ (List.mem_cons_of_mem _ List.mem_cons_self))⟩
  · have hparsed := ofTokens_respelled hprogram hspelled
    refine ⟨hparsed, fun hwritable => ?_⟩
    obtain ⟨read, hread, halike⟩ := Token.ofSource_sourceOf hwritable
    exact ⟨read, hread, ofTokens_respelled hparsed (halike.imp fun t u h => .inl h)⟩

/-- An entry block with one assignment, whose keyword and whose sign are spelled as given. -/
def assignmentSpelled (keyword sign : String) : Derivation :=
  ⟨[.entry (.unplaced .enter (.str "enter"))
    ⟨⟨.placed .leftBrace (.str "\x7b") 1 7, Token.isOf_iff.mpr rfl, Nat.le_add_left 2 2⟩,
      [.assign (.unplaced .assign (.str keyword)) (.unplaced .identifier (.str "x"))
        (.unplaced .assign (.str sign)) (.operand (.number (.unplaced .number (.int 1))))
        (.unplaced .semicolon (.str ";"))],
      ⟨.placed .rightBrace (.str "\x7d") 1 24, Token.isOf_iff.mpr rfl, Nat.le_add_left 2 2⟩⟩]⟩

/-- The lexemes of such a block, with the sign first and the keyword behind the name. -/
def swappedLexemes : List Lexeme :=
  [.word "enter", .bracket '\x7b' .leftBrace, .assign, .word "x", .word "assign", .number 1,
    .sign ';' .semicolon, .bracket '\x7d' .rightBrace]

theorem ofSource_swapped :
    Token.ofSource "enter \x7b = x assign 1 ; \x7d" =
      .ok (assignmentSpelled "=" "assign").tokens := by
  have htext : String.ofList (Scanner.spaced swappedLexemes) =
      "enter \x7b = x assign 1 ; \x7d" := by
    decide
  have hvalid : ∀ l ∈ swappedLexemes, l.Valid := by decide
  have htokens : Scanner.tokensOf [] swappedLexemes = (assignmentSpelled "=" "assign").tokens := rfl
  rw [← htext, ← htokens]
  exact Scanner.ofSource_spaced hvalid

theorem ofTokens_swapped :
    ofTokens Parse.maxDepth (assignmentSpelled "=" "assign").tokens =
      .ok (assignmentSpelled "=" "assign").program :=
  rfl

/-- The sign and the keyword may change places. -/
theorem assignments_of_source_swapped :
    Token.ofSource "enter \x7b = x assign 1 ; \x7d" =
        .ok (assignmentSpelled "=" "assign").tokens ∧
      ofTokens Parse.maxDepth (assignmentSpelled "=" "assign").tokens =
        .ok (assignmentSpelled "=" "assign").program ∧
      ofTokens Parse.maxDepth (assignmentSpelled "assign" "=").tokens =
        .ok (assignmentSpelled "=" "assign").program := by
  obtain ⟨-, -, -, -, hspelled⟩ := assignments_of_source _ _ _ _ ofSource_swapped ofTokens_swapped
  have hassign : Token.plain .assign (.str "assign") ∈ Token.assigning := List.mem_cons_self
  have hsign : Token.plain .assign (.str "=") ∈ Token.assigning :=
    List.mem_cons_of_mem _ List.mem_cons_self
  have htokens : List.Forall₂ Token.Respelled (assignmentSpelled "=" "assign").tokens
      (assignmentSpelled "assign" "=").tokens :=
    .cons (.refl _) (.cons (.refl _) (.cons (.of_assigning hsign hassign) (.cons (.refl _)
      (.cons (.of_assigning hassign hsign) (List.forall₂_same.mpr fun t _ => .refl t)))))
  exact ⟨ofSource_swapped, ofTokens_swapped, (hspelled _ htokens).1⟩

/-- Not every assignment of a source is spelled with its keyword first and its sign second. -/
theorem not_assignments_documented :
    ¬ ∀ source ts program (d : Derivation), Token.ofSource source = .ok ts →
      ofTokens Parse.maxDepth ts = .ok program → d.tokens = ts → d.program = program →
      ∀ keyword name sign value semicolon,
        Derivation.Statement.assign keyword name sign value semicolon ∈ d.statements →
          keyword.value = .str "assign" ∧ sign.value = .str "=" := by
  intro h
  obtain ⟨hkeyword, -⟩ := h _ _ _ (assignmentSpelled "=" "assign") ofSource_swapped
    ofTokens_swapped rfl rfl _ _ _ _ _ List.mem_cons_self
  exact absurd (Value.str.inj hkeyword) (by decide)

end Program

end Scriptlet
