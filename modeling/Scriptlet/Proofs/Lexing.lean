import Mathlib.Data.List.TakeWhile
import Scriptlet.Proofs.Reading

/-! Reading a whole source, lexeme by lexeme, and what the tokens are that are read. -/
namespace Scriptlet

namespace Scanner

/-- The characters ahead are read to the end as the tokens, behind the given characters. -/
inductive Lexes : List Char → List Char → List Token → Prop
  | nil (before : List Char) : Lexes before [] []
  | cons {before ahead : List Char} {c : Char} {ts ts' : List Token} :
      (reading (c :: ahead)).found.tokens before = .ok ts →
      Lexes (before ++ (reading (c :: ahead)).taken) (reading (c :: ahead)).left ts' →
      Lexes before (c :: ahead) (ts ++ ts')

abbrev lexemeLoop : Nat → Scan (List (List Token)) :=
  collectWhile (·.current.isSome) lexeme

theorem append_taken_append_left (before ahead : List Char) :
    before ++ (reading ahead).taken ++ (reading ahead).left = before ++ ahead := by
  rw [List.append_assoc, taken_append_left]

section Loop

variable {before ahead : List Char} {ts : List Token}

/-- Rounds beyond the number of characters ahead make no difference. -/
theorem lexemeLoop_enough {rounds more : Nat} (hrounds : ahead.length ≤ rounds)
    (hmore : ahead.length ≤ more) :
    (lexemeLoop rounds).run (between before ahead) =
      (lexemeLoop more).run (between before ahead) := by
  induction rounds generalizing more before ahead with
  | zero =>
    obtain rfl := List.length_eq_zero_iff.mp (Nat.le_zero.mp hrounds)
    rw [lexemeLoop, collectWhile_stop rfl, collectWhile_stop rfl]
  | succ rounds ih =>
    cases ahead with
    | nil => rw [lexemeLoop, collectWhile_stop rfl, collectWhile_stop rfl]
    | cons c ahead =>
      obtain ⟨more, rfl⟩ := Nat.exists_eq_add_one_of_ne_zero (Nat.ne_zero_of_lt hmore)
      rw [lexemeLoop, collectWhile_round rfl, collectWhile_round rfl, EStateM.run_bind,
        EStateM.run_bind, run_lexeme, Reading.outcome]
      cases hts : (reading (c :: ahead)).found.tokens before with
      | error fault => rfl
      | ok ts =>
        have hlt := left_length_lt hts
        dsimp only
        rw [EStateM.run_bind, EStateM.run_bind, @ih _ _ more (by omega) (by omega)]

theorem lexemes_nil (before : List Char) :
    lexemes.run (between before []) = .ok [] (between before []) := by
  rw [lexemes, run_get_bind, run_bind_of_ok (collectWhile_stop rfl _)]
  rfl

/-- Behind a lexeme a scanner goes on with what is ahead. -/
theorem lexemes_of_ok {c : Char} (h : (reading (c :: ahead)).found.tokens before = .ok ts) :
    lexemes.run (between before (c :: ahead)) =
      (do return ts ++ (← lexemes)).run
        (between (before ++ (reading (c :: ahead)).taken) (reading (c :: ahead)).left) := by
  have hlt : (reading (c :: ahead)).left.length ≤ ahead.length + 1 :=
    Nat.le_of_lt (left_length_lt h)
  rw [lexemes, run_get_bind, togo_between, EStateM.run_bind, collectWhile_round rfl,
    EStateM.run_bind, run_lexeme, Reading.outcome, h, bind_assoc, run_get_bind, EStateM.run_bind]
  dsimp only
  rw [EStateM.run_bind, EStateM.run_bind, lexemeLoop_enough (length_le_togo _ _) hlt]
  cases (lexemeLoop (ahead.length + 1)).run
    (between (before ++ (reading (c :: ahead)).taken) (reading (c :: ahead)).left) <;> rfl

theorem lexemes_of_error {c : Char} {fault : Fault}
    (h : (reading (c :: ahead)).found.tokens before = .error fault) :
    lexemes.run (between before (c :: ahead)) =
      .error fault
        (between (before ++ (reading (c :: ahead)).taken) (reading (c :: ahead)).left) := by
  rw [lexemes, run_get_bind, togo_between, EStateM.run_bind, collectWhile_round rfl,
    EStateM.run_bind, run_lexeme, Reading.outcome, h]

theorem Lexes.of_lexemes {s : Scanner} (h : lexemes.run (between before ahead) = .ok ts s) :
    Lexes before ahead ts ∧ s = between (before ++ ahead) [] := by
  induction hn : ahead.length using Nat.strong_induction_on generalizing before ahead ts with
  | _ n ih =>
    cases ahead with
    | nil =>
      rw [lexemes_nil] at h
      cases h
      exact ⟨.nil before, by rw [List.append_nil]⟩
    | cons c ahead =>
      cases hts : (reading (c :: ahead)).found.tokens before with
      | error fault =>
        rw [lexemes_of_error hts] at h
        cases h
      | ok tokens =>
        rw [lexemes_of_ok hts] at h
        obtain ⟨rest, u, hrest, h⟩ := run_bind_ok_iff.mp h
        obtain ⟨rfl, rfl⟩ := run_pure_ok_iff.mp h
        obtain ⟨hlexes, rfl⟩ := ih _ (hn ▸ left_length_lt hts) hrest rfl
        exact ⟨.cons hts hlexes, by rw [append_taken_append_left]⟩

theorem Lexes.run_lexemes (h : Lexes before ahead ts) :
    lexemes.run (between before ahead) = .ok ts (between (before ++ ahead) []) := by
  induction h with
  | nil before => rw [lexemes_nil, List.append_nil]
  | cons hts _ ih =>
    rw [lexemes_of_ok hts, run_bind_of_ok ih, EStateM.run_pure, append_taken_append_left]

/-- A scanner reads all that is ahead of it, or fails. -/
theorem lexemes_ok_iff {s : Scanner} :
    lexemes.run (between before ahead) = .ok ts s ↔
      Lexes before ahead ts ∧ s = between (before ++ ahead) [] := by
  constructor
  · exact Lexes.of_lexemes
  · rintro ⟨h, rfl⟩
    exact h.run_lexemes

end Loop

end Scanner

theorem Token.ofSource_ok_iff {source : String} {ts : List Token} :
    Token.ofSource source = .ok ts ↔ Scanner.Lexes [] source.toList ts := by
  rw [Token.ofSource, Scanner.ofSource_eq_between]
  constructor
  · intro h
    split at h
    · next hrun =>
      cases h
      exact (Scanner.lexemes_ok_iff.mp hrun).1
    · cases h
  · intro h
    rw [Scanner.lexemes_ok_iff.mpr ⟨h, rfl⟩]

theorem Decimal.plainChar_ne_minus {c : Char} (h : c ≠ '-') : plainChar c ≠ '-' := by
  rw [plainChar]
  split
  · exact h
  split
  · decide
  split
  · next value hvalue =>
    obtain ⟨start, -, rfl⟩ := Option.map_eq_some_iff.mp hvalue
    have hdigits : ∀ digit < 10, Char.ofNat (48 + digit) ≠ '-' := by decide
    exact hdigits _ (Nat.mod_lt _ (by decide))
  · decide

theorem Decimal.signed_of_not_mem {cs : List Char} (h : '-' ∉ cs) : (signed cs).1 = false := by
  unfold signed
  split
  · exact absurd List.mem_cons_self h
  · rfl
  · rfl

/-- Digits without a sign make no negative integer. -/
theorem Decimal.exists_nat_of_readInteger {digits : List Char} {z : Int} (h : '-' ∉ digits)
    (hz : readInteger (String.ofList digits) = .ok z) : ∃ n : Nat, z = n := by
  have hplain : '-' ∉ (digits.map plainChar).dropWhile isOuterBlank := by
    intro hmem
    obtain ⟨c, hc, hminus⟩ := List.mem_map.mp (List.dropWhile_subset _ hmem)
    refine plainChar_ne_minus (fun hc' => ?_) hminus
    exact h (hc' ▸ hc)
  have hsigned := signed_of_not_mem hplain
  rw [readInteger, String.toList_ofList] at hz
  simp only [hsigned] at hz
  split at hz
  · cases hz
  · split at hz
    · cases hz
    · split at hz
      · exact ⟨_, (Except.ok.inj hz).symm⟩
      · cases hz

theorem Decimal.readInteger_error {text : String} {fault : Fault}
    (h : readInteger text = .error fault) :
    fault = .notInteger text ∨ ∃ count, fault = .digitsToRead count := by
  rw [readInteger] at h
  split at h
  split at h
  · exact .inl (Except.error.inj h).symm
  · split at h
    · exact .inr ⟨_, (Except.error.inj h).symm⟩
    · split at h
      · cases h
      · exact .inl (Except.error.inj h).symm

theorem Decimal.readFloat_error {text : String} {fault : Fault}
    (h : readFloat text = .error fault) : fault = .notDecimal text := by
  rw [readFloat] at h
  dsimp only at h
  split at h
  · exact (Except.error.inj h).symm
  · split at h
    · cases h
    · exact (Except.error.inj h).symm

/-- Whether a value is of the type that tokens of a kind have. -/
def Token.Kind.Fits : Token.Kind → Value → Prop
  | .number, value => ∃ n : Nat, value = .int n
  | .float, value => ∃ x, value = .float x
  | _, value => ∃ s, value = .str s

/-- A token of a source: a bracket at a place, or a value of the type of its kind. -/
inductive Token.Lexed : Token → Prop
  | plain {kind : Token.Kind} {value : Value} : kind.Fits value → Lexed (.plain kind value)
  | placed {kind : Token.Kind} {c : Char} (line column : Nat) :
      Token.brackets.lookup c = some kind → Lexed (.placed kind (.str c.toString) line column)

namespace Scanner

/-- What is found makes tokens of sources. -/
inductive Found.Proper : Found → Prop
  | nothing : Proper .nothing
  | token {kind : Token.Kind} {value : Value} : kind.Fits value → Proper (.token kind value)
  | bracket {kind : Token.Kind} {c : Char} : Token.brackets.lookup c = some kind →
      Proper (.bracket kind c)
  | flaw (fault : Fault) : Proper (.flaw fault)
  | unrecognized (c : Char) : Proper (.unrecognized c)

theorem Found.Proper.lexed {found : Found} (hfound : found.Proper) {before : List Char}
    {ts : List Token} (h : found.tokens before = .ok ts) : ∀ t ∈ ts, t.Lexed := by
  cases hfound with
  | nothing =>
    cases h
    exact fun t ht => nomatch ht
  | token hfits =>
    cases h
    exact fun t ht => List.mem_singleton.mp ht ▸ .plain hfits
  | bracket hkind =>
    cases h
    exact fun t ht => List.mem_singleton.mp ht ▸ .placed _ _ hkind
  | flaw fault => cases h
  | unrecognized c => cases h

theorem mem_kinds_of_lookup {β : Type} [BEq β] [LawfulBEq β] {table : List (β × Token.Kind)} {b : β}
    {kind : Token.Kind} (h : table.lookup b = some kind) : kind ∈ table.map Prod.snd := by
  obtain ⟨front, back, rfl, -⟩ := List.lookup_eq_some_iff.mp h
  simp

theorem fits_text {kind : Token.Kind} (h : kind ∉ [Token.Kind.number, .float]) (s : String) :
    kind.Fits (.str s) := by
  cases kind with
  | number => exact absurd (by decide) h
  | float => exact absurd (by decide) h
  | _ => exact ⟨s, rfl⟩

theorem Found.ofWord_proper (chars : List Char) : (Found.ofWord chars).Proper := by
  refine .token (fits_text ?_ _)
  cases h : Token.keywords.lookup (String.ofList chars) with
  | none => decide
  | some kind =>
    have hkinds : ∀ kind ∈ Token.keywords.map Prod.snd, kind ∉ [Token.Kind.number, .float] := by
      decide
    exact hkinds kind (mem_kinds_of_lookup h)

theorem Reading.integer_proper {digits : List Char} (h : '-' ∉ digits) :
    (Reading.integer digits).Proper := by
  rw [Reading.integer]
  cases hz : Decimal.readInteger (String.ofList digits) with
  | ok z =>
    obtain ⟨n, rfl⟩ := Decimal.exists_nat_of_readInteger h hz
    exact .token ⟨n, rfl⟩
  | error fault => exact .flaw fault

theorem Reading.decimal_proper (chars : List Char) : (Reading.decimal chars).Proper := by
  rw [Reading.decimal]
  cases Decimal.readFloat (String.ofList chars) with
  | ok x => exact .token ⟨x, rfl⟩
  | error fault => exact .flaw fault

theorem Reading.number_proper (ahead : List Char) : (Reading.number ahead).found.Proper := by
  simp only [Reading.number, apply_ite Reading.found]
  split
  · exact Reading.decimal_proper _
  · refine Reading.integer_proper fun hminus => ?_
    have hdigit := List.mem_takeWhile_imp hminus
    exact absurd hdigit (by decide)

theorem Reading.sign_proper (c : Char) (ahead : List Char) :
    (Reading.sign c ahead).found.Proper := by
  rw [Reading.sign]
  split
  · next kind hbracket => exact .bracket hbracket
  · next kind _ hsign =>
    have hkinds : ∀ kind ∈ Token.signs.map Prod.snd, kind ∉ [Token.Kind.number, .float] := by
      decide
    exact .token (fits_text (hkinds _ (mem_kinds_of_lookup hsign)) _)
  · split
    · split <;> exact .token ⟨_, rfl⟩
    · exact .unrecognized c

theorem reading_proper (ahead : List Char) : (reading ahead).found.Proper := by
  cases ahead with
  | nil => exact .nothing
  | cons c ahead =>
    rw [reading]
    split
    · exact .nothing
    split
    · exact .nothing
    split
    · exact Found.ofWord_proper _
    split
    · exact Reading.number_proper _
    split
    · rw [Reading.string]
      split
      · exact .flaw _
      · exact .token ⟨_, rfl⟩
    · exact Reading.sign_proper c ahead

theorem Lexes.lexed {before ahead : List Char} {ts : List Token} (h : Lexes before ahead ts) :
    ∀ t ∈ ts, t.Lexed := by
  induction h with
  | nil before => exact fun t ht => nomatch ht
  | cons hts _ ih =>
    intro t ht
    obtain ht | ht := List.mem_append.mp ht
    · exact (reading_proper _).lexed hts t ht
    · exact ih t ht

end Scanner

end Scriptlet
