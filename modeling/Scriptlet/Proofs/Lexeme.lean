import Scriptlet.Proofs.Scanning

/-! Lexemes and the texts that they are written as. Lexemes in any order, with single spaces between
them, are read back as their tokens. -/
namespace Scriptlet

namespace Text

theorem Ranges.exists_of_covers {ranges : Ranges} {n : Nat} (h : ranges.covers n = true) :
    ∃ r ∈ ranges, ∃ i < r.2 + 1 - r.1, n = r.1 + i := by
  induction ranges with
  | nil => simp [covers, startOf?] at h
  | cons r ranges ih =>
    obtain ⟨low, high⟩ := r
    by_cases hlow : n < low
    · simp [covers, startOf?, hlow] at h
    by_cases hhigh : n ≤ high
    · exact ⟨(low, high), List.mem_cons_self, n - low, by simp only; omega, by simp only; omega⟩
    · rw [covers, startOf?, if_neg hlow, if_neg hhigh] at h
      obtain ⟨r, hr, hi⟩ := ih h
      exact ⟨r, List.mem_cons_of_mem _ hr, hi⟩

theorem blanks_not_letters :
    ∀ r ∈ blankRanges, ∀ i < r.2 + 1 - r.1, letterRanges.covers (r.1 + i) = false := by
  decide +kernel

theorem not_isBlank_of_isLetter {c : Char} (h : isLetter c = true) : isBlank c = false := by
  rw [Bool.eq_false_iff]
  intro hb
  obtain ⟨r, hr, i, hi, hn⟩ := Ranges.exists_of_covers hb
  rw [isLetter, hn, blanks_not_letters r hr i hi] at h
  cases h

theorem Ranges.covers_cons_of_lt {low high n : Nat} {ranges : Ranges} (h : n < low) :
    Ranges.covers ((low, high) :: ranges) n = false := by
  rw [covers, startOf?, if_pos h, Option.isSome_none]

theorem Ranges.covers_cons_of_le {low high n : Nat} {ranges : Ranges} (h₁ : low ≤ n)
    (h₂ : n ≤ high) : Ranges.covers ((low, high) :: ranges) n = true := by
  rw [covers, startOf?, if_neg (Nat.not_lt.mpr h₁), if_pos h₂, Option.isSome_some]

section Digit

variable {c : Char}

theorem toNat_of_isDigit (h : c.isDigit = true) : 48 ≤ c.toNat ∧ c.toNat ≤ 57 := by
  rw [Char.isDigit, Bool.and_eq_true, decide_eq_true_iff, decide_eq_true_iff] at h
  exact ⟨UInt32.le_iff_toNat_le.mp h.1, UInt32.le_iff_toNat_le.mp h.2⟩

theorem isDigit_of_plain (h : c.isDigit = true) : isDigit c = true :=
  Ranges.covers_cons_of_le (toNat_of_isDigit h).1 (toNat_of_isDigit h).2

theorem not_isLetter_of_plain (h : c.isDigit = true) : isLetter c = false :=
  Ranges.covers_cons_of_lt (Nat.lt_of_le_of_lt (toNat_of_isDigit h).2 (by decide))

theorem not_isBlank_of_plain (h : c.isDigit = true) : isBlank c = false := by
  obtain ⟨hlow, hhigh⟩ := toNat_of_isDigit h
  have h₁ : ¬ c.toNat < 9 ∧ ¬ c.toNat ≤ 13 ∧ ¬ c.toNat < 28 ∧ ¬ c.toNat ≤ 32 ∧ c.toNat < 133 := by
    omega
  simp [isBlank, blankRanges, Ranges.covers, Ranges.startOf?, h₁]

end Digit

end Text

namespace Decimal

theorem digitRun?_digits {digits : List Char} (h : ∀ c ∈ digits, c.isDigit = true) :
    digitRun? false digits = some (digits.map fun c => c.toNat - 48, []) := by
  induction digits with
  | nil => rfl
  | cons c digits ih =>
    have hc : c.isDigit = true := h c List.mem_cons_self
    rw [digitRun?, if_pos hc, ih fun d hd => h d (List.mem_cons_of_mem c hd)]
    rfl

theorem plainChar_of_isDigit {c : Char} (h : c.isDigit = true) : plainChar c = c :=
  if_pos (Nat.lt_of_le_of_lt (Text.toNat_of_isDigit h).2 (by decide))

theorem not_isOuterBlank_of_isDigit {c : Char} (h : c.isDigit = true) :
    isOuterBlank c = false := by
  obtain ⟨hlow, hhigh⟩ := Text.toNat_of_isDigit h
  rw [isOuterBlank, Bool.or_eq_false_iff, beq_eq_false_iff_ne, Bool.and_eq_false_iff]
  refine ⟨?_, Or.inr (decide_eq_false (by omega))⟩
  rintro rfl
  cases h

theorem signed_digits {c : Char} {rest : List Char} (h : c.isDigit = true) :
    signed ((c :: rest).dropWhile isOuterBlank) = (false, c :: rest) := by
  rw [List.dropWhile_cons_of_neg (Bool.eq_false_iff.mp (not_isOuterBlank_of_isDigit h))]
  refine signed.eq_3 _ ?_ ?_
  · rintro _ ⟨⟩
    cases h
  · rintro _ ⟨⟩
    cases h

theorem isDigit_of_mem_toDigits {n : Nat} {c : Char} (h : c ∈ Nat.toDigits 10 n) :
    c.isDigit = true :=
  Nat.isDigit_of_mem_toDigits (by decide) (by decide) h

theorem exists_toDigits_eq_cons (n : Nat) :
    ∃ c rest, Nat.toDigits 10 n = c :: rest ∧ c.isDigit = true := by
  obtain ⟨c, rest, h⟩ := List.exists_cons_of_ne_nil (Nat.toDigits_ne_nil : Nat.toDigits 10 n ≠ [])
  exact ⟨c, rest, h, isDigit_of_mem_toDigits (h ▸ List.mem_cons_self)⟩

/-- An integer is read back from its decimal digits. -/
theorem readInteger_toDigits {n : Nat} (h : (Nat.toDigits 10 n).length ≤ maxDigits) :
    readInteger (String.ofList (Nat.toDigits 10 n)) = .ok (n : Int) := by
  have hplain : (Nat.toDigits 10 n).map plainChar = Nat.toDigits 10 n :=
    (List.map_congr_left fun c hc => plainChar_of_isDigit (isDigit_of_mem_toDigits hc)).trans
      (List.map_id _)
  have hvalue : ofDigits ((Nat.toDigits 10 n).map fun c => c.toNat - 48) = n := by
    rw [ofDigits, List.foldl_map]
    exact Nat.ofDigitChars_ten_toDigits
  obtain ⟨c, rest, hcons, hc⟩ := exists_toDigits_eq_cons n
  have hrun : digitRun? true (Nat.toDigits 10 n) =
      some ((Nat.toDigits 10 n).map fun c => c.toNat - 48, []) := by
    -- a digit is needed only at the beginning, where there is one
    rw [← digitRun?_digits fun c hc => isDigit_of_mem_toDigits hc, hcons, digitRun?, digitRun?,
      if_pos hc, if_pos hc]
  have hsigned : signed ((Nat.toDigits 10 n).dropWhile isOuterBlank) =
      (false, Nat.toDigits 10 n) := by
    rw [hcons]
    exact signed_digits hc
  rw [readInteger, String.toList_ofList, hplain, hsigned]
  simp [hrun, Nat.not_lt.mpr h, hvalue]

end Decimal

theorem takeWhile_append_of_head {α : Type} {p : α → Bool} {xs rest : List α}
    (hxs : ∀ x ∈ xs, p x = true) (hrest : ∀ x ∈ rest.head?, p x = false) :
    (xs ++ rest).takeWhile p = xs ∧ (xs ++ rest).dropWhile p = rest := by
  rw [List.takeWhile_append_of_pos hxs, List.dropWhile_append_of_pos hxs]
  cases rest with
  | nil => simp
  | cons x rest => simp [hrest x rfl]

/-- A lexeme that makes a token. -/
inductive Lexeme where
  | word (text : String)
  | number (n : Nat)
  | string (text : String)
  | bracket (c : Char) (kind : Token.Kind)
  | sign (c : Char) (kind : Token.Kind)
  | assign
  | equals

namespace Lexeme

/-- A character as it stands in a string literal: a double quote and a backslash stand behind a
backslash. -/
def escape (c : Char) : List Char :=
  if c = Text.doubleQuote ∨ c = '\\' then ['\\', c] else [c]

theorem escape_length_pos (c : Char) : 0 < (escape c).length := by
  unfold escape
  split <;> exact Nat.succ_pos _

/-- The characters that a lexeme is written as. -/
def text : Lexeme → List Char
  | word text => text.toList
  | number n => Nat.toDigits 10 n
  | string text => Text.doubleQuote :: (text.toList.flatMap escape ++ [Text.doubleQuote])
  | bracket c _ => [c]
  | sign c _ => [c]
  | assign => ['=']
  | equals => ['=', '=']

/-- Whether a lexeme is one of the language: a word has the characters of words, the digits of a
number are not too many, and signs are those with a kind. -/
def Valid : Lexeme → Prop
  | word text => text.toList.head?.any Scanner.beginsWord ∧ text.toList.all Scanner.continuesWord
  | number n => (Nat.toDigits 10 n).length ≤ Decimal.maxDigits
  | string _ => True
  | bracket c kind => Token.brackets.lookup c = some kind
  | sign c kind => Token.signs.lookup c = some kind
  | assign => True
  | equals => True

instance : DecidablePred Valid
  | word _ => inferInstanceAs (Decidable (_ ∧ _))
  | number _ => inferInstanceAs (Decidable (_ ≤ _))
  | string _ => .isTrue trivial
  | bracket _ _ => inferInstanceAs (Decidable (_ = _))
  | sign _ _ => inferInstanceAs (Decidable (_ = _))
  | assign => .isTrue trivial
  | equals => .isTrue trivial

/-- The token of a lexeme at a place. -/
def token (line column : Nat) : Lexeme → Token
  | word text => .ofWord text
  | number n => .plain .number (.int n)
  | string text => .plain .string (.str text)
  | bracket c kind => .placed kind (.str c.toString) line column
  | sign c kind => .plain kind (.str c.toString)
  | assign => .plain .assign (.str "=")
  | equals => .plain .equals (.str "==")

end Lexeme

namespace Scanner

variable {before rest : List Char}

theorem not_isBlank_of_beginsWord {c : Char} (h : beginsWord c = true) :
    Text.isBlank c = false := by
  rw [beginsWord, Bool.or_eq_true, beq_iff_eq] at h
  obtain h | rfl := h
  · exact Text.not_isBlank_of_isLetter h
  · rfl

theorem not_beginsWord_of_plain {c : Char} (h : c.isDigit = true) : beginsWord c = false := by
  rw [beginsWord, Text.not_isLetter_of_plain h, Bool.false_or, beq_eq_false_iff_ne]
  rintro rfl
  cases h

/-- A character that is no blank and begins no lexeme but a sign. -/
structure BeginsSign (c : Char) : Prop where
  notBlank : Text.isBlank c = false
  notWord : beginsWord c = false
  notDigit : Text.isDigit c = false
  notQuote : c ≠ Text.doubleQuote

instance (c : Char) : Decidable (BeginsSign c) :=
  decidable_of_iff (_ ∧ _ ∧ _ ∧ _)
    ⟨fun h => ⟨h.1, h.2.1, h.2.2.1, h.2.2.2⟩, fun h => ⟨h.1, h.2, h.3, h.4⟩⟩

theorem beginsSign_of_mem :
    ∀ entry ∈ ('=', .assign) :: (Token.brackets ++ Token.signs), BeginsSign entry.1 := by
  decide +kernel

theorem brackets_not_signs : ∀ entry ∈ Token.signs, Token.brackets.lookup entry.1 = none := by
  decide

theorem mem_of_lookup {β : Type} [BEq β] [LawfulBEq β] {table : List (β × Token.Kind)} {b : β}
    {kind : Token.Kind} (h : table.lookup b = some kind) : (b, kind) ∈ table := by
  obtain ⟨front, back, rfl, -⟩ := List.lookup_eq_some_iff.mp h
  exact List.mem_append_right front List.mem_cons_self

theorem run_lexeme_sign {c : Char} {ahead : List Char} {token : Token} {s : Scanner}
    (hc : BeginsSign c) (hcomment : c = '/' → ahead.head? ≠ some '/')
    (h : (sign c).run (between before (c :: ahead)) = .ok token s) :
    lexeme.run (between before (c :: ahead)) = .ok [token] s := by
  refine run_lexeme_token hc.notBlank hcomment ?_
  rwa [hc.notWord, hc.notDigit, if_neg Bool.false_ne_true, if_neg Bool.false_ne_true,
    if_neg hc.notQuote]

/-- A character of a string literal is read back, with its backslash if it has one. -/
theorem run_stringChar_written (c : Char) :
    stringChar.run (between before (Lexeme.escape c ++ rest)) =
      .ok [c] (between (before ++ Lexeme.escape c) rest) := by
  unfold Lexeme.escape
  split
  · next h =>
    have hc : escaped c = c := by rcases h with rfl | rfl <;> rfl
    rw [List.cons_append, List.singleton_append, run_stringChar_escape, hc]
  · next h => exact run_stringChar_plain _ _ (not_or.mp h).2

theorem holds_written (c : Char) :
    holds (· != Text.doubleQuote) (between before (Lexeme.escape c ++ rest)) = true := by
  unfold Lexeme.escape
  split
  · rfl
  · next h => simpa [holds] using (not_or.mp h).1

/-- A string literal is read back as the text between its quotes. -/
theorem run_string (text : List Char) :
    string.run (between before
        (Text.doubleQuote :: (text.flatMap Lexeme.escape ++ Text.doubleQuote :: rest))) =
      .ok (Token.plain .string (.str (String.ofList text))) (between
        (before ++ Text.doubleQuote :: (text.flatMap Lexeme.escape ++ [Text.doubleQuote]))
          rest) := by
  have hloop : ∀ rounds before, (text.flatMap Lexeme.escape).length ≤ rounds →
      (collectWhile (holds (· != Text.doubleQuote)) stringChar rounds).run
          (between before (text.flatMap Lexeme.escape ++ Text.doubleQuote :: rest)) =
        .ok (text.map fun c => [c])
          (between (before ++ text.flatMap Lexeme.escape) (Text.doubleQuote :: rest)) := by
    induction text with
    | nil =>
      intro rounds before _
      rw [collectWhile_stop rfl]
      simp
    | cons c text ih =>
      intro rounds before hrounds
      have hc := Lexeme.escape_length_pos c
      rw [List.flatMap_cons, List.length_append] at hrounds
      obtain ⟨rounds, rfl⟩ : ∃ n, rounds = n + 1 := ⟨rounds - 1, by omega⟩
      rw [List.flatMap_cons, List.append_assoc, collectWhile_round (holds_written c),
        run_bind_of_ok (run_stringChar_written c), run_bind_of_ok (ih rounds _ (by omega)),
        EStateM.run_pure]
      simp
  have htogo := length_le_togo (before ++ [Text.doubleQuote])
    (text.flatMap Lexeme.escape ++ Text.doubleQuote :: rest)
  rw [List.length_append] at htogo
  rw [string, run_bind_of_ok (run_advance before _ _), run_get_bind,
    run_bind_of_ok (hloop _ _ (by omega)), run_get_bind, if_pos (by rfl),
    run_bind_of_ok (run_advance _ rest _), EStateM.run_pure]
  simp [← List.flatMap_def]

variable {l : Lexeme}

theorem exists_word_eq_cons {text : String} (h : (Lexeme.word text).Valid) :
    ∃ c chars, text.toList = c :: chars ∧ beginsWord c = true := by
  obtain ⟨c, hc, hword⟩ := (Option.any_eq_true ..).mp h.1
  obtain ⟨chars, htext⟩ := List.head?_eq_some_iff.mp hc
  exact ⟨c, chars, htext, hword⟩

/-- The first character of a lexeme is no blank. -/
theorem exists_text_eq_cons (hl : l.Valid) :
    ∃ c chars, l.text = c :: chars ∧ Text.isBlank c = false := by
  cases l with
  | word text =>
    obtain ⟨c, chars, htext, hword⟩ := exists_word_eq_cons hl
    exact ⟨c, chars, htext, not_isBlank_of_beginsWord hword⟩
  | number n =>
    obtain ⟨c, chars, htext, hc⟩ := Decimal.exists_toDigits_eq_cons n
    exact ⟨c, chars, htext, Text.not_isBlank_of_plain hc⟩
  | bracket c kind =>
    exact ⟨c, [], rfl, (beginsSign_of_mem (c, kind) (by simp [mem_of_lookup hl])).notBlank⟩
  | sign c kind =>
    exact ⟨c, [], rfl, (beginsSign_of_mem (c, kind) (by simp [mem_of_lookup hl])).notBlank⟩
  | string text => exact ⟨_, _, rfl, rfl⟩
  | assign => exact ⟨_, _, rfl, rfl⟩
  | equals => exact ⟨_, _, rfl, rfl⟩

/-- A lexeme before a space or the end is read as its token. -/
theorem run_lexeme_text (hl : l.Valid) (hrest : ∀ c ∈ rest.head?, c = ' ') :
    lexeme.run (between before (l.text ++ rest)) =
      .ok [l.token (lineAfter before) (columnAfter before)] (between (before ++ l.text) rest) := by
  have hstops : ∀ p : Char → Bool, p ' ' = false → ∀ c ∈ rest.head?, p c = false := by
    intro p hp c hc
    rwa [hrest c hc]
  have hapart : ∀ c : Char, c ≠ ' ' → rest.head? ≠ some c := by
    intro c hc h
    exact hc (hrest c h)
  cases l with
  | word text =>
    obtain ⟨c, chars, htext, hword⟩ := exists_word_eq_cons hl
    obtain ⟨htake, hdrop⟩ := takeWhile_append_of_head (List.all_eq_true.mp hl.2)
      (hstops continuesWord rfl)
    have hrun := run_word before (text.toList ++ rest)
    rw [htake, hdrop, String.ofList_toList] at hrun
    simp only [Lexeme.text, Lexeme.token]
    rw [htext] at hrun ⊢
    refine run_lexeme_token (not_isBlank_of_beginsWord hword) ?_ ?_
    · rintro rfl
      cases hword
    · rwa [hword, if_pos rfl]
  | number n =>
    obtain ⟨c, chars, htext, hc⟩ := Decimal.exists_toDigits_eq_cons n
    obtain ⟨htake, hdrop⟩ := takeWhile_append_of_head
      (fun d hd => Text.isDigit_of_plain (Decimal.isDigit_of_mem_toDigits hd))
      (hstops Text.isDigit rfl)
    have hrun := run_number_integer before (Nat.toDigits 10 n ++ rest)
      (hdrop.symm ▸ hapart '.' (by decide)) (htake.symm ▸ Decimal.readInteger_toDigits hl)
    rw [htake, hdrop] at hrun
    simp only [Lexeme.text, Lexeme.token]
    rw [htext] at hrun ⊢
    refine run_lexeme_token (Text.not_isBlank_of_plain hc) ?_ ?_
    · rintro rfl
      cases hc
    · rwa [not_beginsWord_of_plain hc, Text.isDigit_of_plain hc, if_neg Bool.false_ne_true,
        if_pos rfl]
  | string text =>
    have hrun := @run_string before rest text.toList
    rw [String.ofList_toList] at hrun
    simp only [Lexeme.text, Lexeme.token, List.cons_append, List.append_assoc, List.nil_append]
    refine run_lexeme_token rfl (fun h => absurd h (by decide)) ?_
    rwa [if_neg (by decide), if_neg (by decide), if_pos rfl]
  | bracket c kind =>
    have hc := beginsSign_of_mem (c, kind) (by simp [mem_of_lookup hl])
    exact run_lexeme_sign hc (fun _ => hapart '/' (by decide)) (run_bracket before rest hl)
  | sign c kind =>
    have hmem := mem_of_lookup hl
    have hc := beginsSign_of_mem (c, kind) (by simp [hmem])
    exact run_lexeme_sign hc (fun _ => hapart '/' (by decide))
      (run_sign before rest (brackets_not_signs (c, kind) hmem) hl)
  | assign =>
    have hc := beginsSign_of_mem ('=', .assign) List.mem_cons_self
    exact run_lexeme_sign hc (fun h => absurd h (by decide))
      (run_sign_assign before rest (hapart '=' (by decide)))
  | equals =>
    have hc := beginsSign_of_mem ('=', .assign) List.mem_cons_self
    exact run_lexeme_sign hc (fun h => absurd h (by decide)) (run_sign_equals before rest)

/-- Reading on between the characters gives the tokens, in however many rounds. -/
def ReadsOn (before ahead : List Char) (tokens : List Token) : Prop :=
  ∀ rounds, ahead.length ≤ rounds → ∃ parts s,
    (collectWhile (·.current.isSome) lexeme rounds).run (between before ahead) = .ok parts s ∧
      parts.flatten = tokens

theorem ReadsOn.nil : ReadsOn before [] [] :=
  fun rounds _ => ⟨[], _, collectWhile_stop rfl rounds, rfl⟩

/-- One lexeme, and what is read behind it. -/
theorem ReadsOn.step {ahead before' ahead' : List Char} {tokens tokens' : List Token}
    (h : lexeme.run (between before ahead) = .ok tokens (between before' ahead'))
    (hlength : ahead'.length < ahead.length) (hon : ReadsOn before' ahead' tokens') :
    ReadsOn before ahead (tokens ++ tokens') := by
  intro rounds hrounds
  obtain ⟨rounds, rfl⟩ : ∃ n, rounds = n + 1 := ⟨rounds - 1, by omega⟩
  obtain ⟨parts, s, hparts, hflat⟩ := hon rounds (by omega)
  obtain ⟨c, chars, rfl⟩ := List.exists_cons_of_length_pos (Nat.zero_lt_of_lt hlength)
  refine ⟨tokens :: parts, s, ?_, by rw [List.flatten_cons, hflat]⟩
  rw [collectWhile_round rfl, run_bind_of_ok h, run_bind_of_ok hparts, EStateM.run_pure]

theorem ReadsOn.ofSource {source : String} {tokens : List Token}
    (h : ReadsOn [] source.toList tokens) : Token.ofSource source = .ok tokens := by
  obtain ⟨parts, s, hparts, rfl⟩ := h _ (length_le_togo [] source.toList)
  rw [Token.ofSource, ofSource_eq_between, lexemes, run_get_bind, run_bind_of_ok hparts]
  rfl

/-- Lexemes with single spaces between them. -/
def spaced (ls : List Lexeme) : List Char :=
  [' '].intercalate (ls.map Lexeme.text)

/-- The tokens of lexemes with single spaces between them, behind the given characters. -/
def tokensOf (before : List Char) : List Lexeme → List Token
  | [] => []
  | l :: ls =>
    l.token (lineAfter before) (columnAfter before) :: tokensOf (before ++ l.text ++ [' ']) ls

theorem spaced_cons_cons (l l' : Lexeme) (ls : List Lexeme) :
    spaced (l :: l' :: ls) = l.text ++ ' ' :: spaced (l' :: ls) := by
  rw [spaced, List.map_cons, List.map_cons, List.intercalate_cons_cons, List.append_assoc]
  rfl

theorem exists_spaced_eq_cons (hl : l.Valid) (ls : List Lexeme) :
    ∃ c chars, spaced (l :: ls) = c :: chars ∧ Text.isBlank c = false := by
  obtain ⟨c, chars, htext, hc⟩ := exists_text_eq_cons hl
  cases ls with
  | nil => exact ⟨c, chars, by simpa [spaced] using htext, hc⟩
  | cons l' ls => exact ⟨c, _, by rw [spaced_cons_cons, htext, List.cons_append], hc⟩

theorem ReadsOn.space {c : Char} {chars : List Char} {tokens : List Token}
    (hc : Text.isBlank c = false) (h : ReadsOn (before ++ [' ']) (c :: chars) tokens) :
    ReadsOn before (' ' :: c :: chars) tokens := by
  have hrun := @run_lexeme_blank before (c :: chars) ' ' rfl
  rw [List.takeWhile_cons_of_pos rfl, List.dropWhile_cons_of_pos rfl,
    List.takeWhile_cons_of_neg (by simp [hc]), List.dropWhile_cons_of_neg (by simp [hc])] at hrun
  exact .step hrun (Nat.lt_succ_self _) h

/-- Lexemes with single spaces between them are read as their tokens. -/
theorem readsOn_spaced {ls : List Lexeme} (hls : ∀ l ∈ ls, l.Valid) (before : List Char) :
    ReadsOn before (spaced ls) (tokensOf before ls) := by
  induction ls generalizing before with
  | nil => exact .nil
  | cons l ls ih =>
    have hl := hls l List.mem_cons_self
    obtain ⟨c, chars, htext, -⟩ := exists_text_eq_cons hl
    cases ls with
    | nil =>
      have hrun := @run_lexeme_text before [] l hl (fun c hc => by cases hc)
      rw [List.append_nil] at hrun
      rw [spaced, List.map_singleton, List.intercalate_singleton]
      exact .step hrun (by rw [htext]; exact Nat.succ_pos _) .nil
    | cons l' ls =>
      obtain ⟨d, rest, hrest, hd⟩ := exists_spaced_eq_cons (hls l' (by simp)) ls
      have hon := ih (fun x hx => hls x (List.mem_cons_of_mem l hx)) (before ++ l.text ++ [' '])
      have hrun := @run_lexeme_text before (' ' :: spaced (l' :: ls)) l hl
        (fun c hc => (Option.some.inj hc).symm)
      rw [spaced_cons_cons, tokensOf]
      rw [hrest] at hon hrun ⊢
      refine .step hrun ?_ (.space hd hon)
      simp only [htext, List.length_append, List.length_cons]
      omega

/-- Lexemes in any order, written with single spaces between them, are read back. -/
theorem ofSource_spaced {ls : List Lexeme} (hls : ∀ l ∈ ls, l.Valid) :
    Token.ofSource (String.ofList (spaced ls)) = .ok (tokensOf [] ls) := by
  refine ReadsOn.ofSource ?_
  rw [String.toList_ofList]
  exact readsOn_spaced hls []

end Scanner

end Scriptlet
