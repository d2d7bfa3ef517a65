import Scriptlet.Proofs.Failing
import Scriptlet.Vocabulary

/-! Names in the vocabulary and in the reader. What the reader takes for an identifier the
vocabulary calls one. The vocabulary says so of two kinds of texts more: the word `assign`, which
the reader has for a keyword, and words that begin with a numeral that is neither a letter nor a
digit, where the reader fails. -/
namespace Scriptlet

/-- A numeral that is neither a letter nor a digit, such as a fraction or a Roman numeral. -/
structure Text.LoneNumeral (c : Char) : Prop where
  numeral : isNumeral c = true
  notLetter : isLetter c = false
  notDigit : isDigit c = false

example : Text.LoneNumeral '½' := ⟨by decide, by decide, by decide⟩

/-- Lone numerals are what a word goes on with but neither begins with nor takes for a digit. -/
theorem Text.loneNumeral_iff {c : Char} :
    LoneNumeral c ↔ Scanner.continuesWord c = true ∧ Scanner.beginsWord c = false ∧
      isDigit c = false := by
  rw [Scanner.continuesWord, Scanner.beginsWord]
  constructor
  · intro h
    have hunderscore : (c == '_') = false := by
      rw [beq_eq_false_iff_ne]
      rintro rfl
      exact absurd h.numeral (by decide)
    rw [h.numeral, h.notLetter, h.notDigit, hunderscore]
    exact ⟨rfl, rfl, rfl⟩
  · rintro ⟨hcontinues, hbegins, hdigit⟩
    obtain ⟨hletter, hunderscore⟩ := Bool.or_eq_false_iff.mp hbegins
    rw [hletter, hunderscore, Bool.false_or, Bool.or_false] at hcontinues
    exact ⟨hcontinues, hletter, hdigit⟩

theorem Text.not_isBlank_of_isNumeral {c : Char} (h : isNumeral c = true) : isBlank c = false :=
  Ranges.not_covers_of_all_misses (by decide +kernel) h

namespace Vocabulary

variable {text : String}

/-- The reader has one keyword that the vocabulary does not have. -/
theorem lookup_keywords_eq_none_iff :
    Token.keywords.lookup text = none ↔ isKeyword text = false ∧ text ≠ "assign" := by
  have hreader :
      (Token.keywords.all fun entry => ("assign" :: keywords).contains entry.1) = true := by
    decide
  have hvocabulary :
      (("assign" :: keywords).all fun word => (Token.keywords.lookup word).isSome) = true := by
    decide
  rw [isKeyword, Bool.eq_false_iff, ne_eq, List.contains_iff_mem, and_comm, ← not_or,
    ← List.mem_cons]
  constructor
  · intro h hmem
    have hsome := List.all_eq_true.mp hvocabulary text hmem
    rw [h] at hsome
    cases hsome
  · intro h
    refine Option.eq_none_iff_forall_ne_some.mpr fun kind hkind => h ?_
    exact List.contains_iff_mem.mp
      (List.all_eq_true.mp hreader (text, kind) (Scanner.mem_of_lookup hkind))

theorem isIdentifier_cons_iff {c : Char} {rest : List Char} (htext : text.toList = c :: rest) :
    isIdentifier text = true ↔ Text.isDigit c = false ∧
      (∀ d ∈ c :: rest, Scanner.continuesWord d = true) ∧ isKeyword text = false := by
  rw [isIdentifier, htext]
  simp only [Bool.and_eq_true, Bool.not_eq_true', List.all_eq_true, and_assoc]
  rfl

end Vocabulary

open Scanner Lexical

section Word

variable {text : String} {c : Char} {rest : List Char}

/-- A text that is a word is one token. -/
theorem Token.ofSource_word (h : Spells .word text.toList) :
    Token.ofSource text = .ok [Token.ofWord text] := by
  have hstop : ∀ d ∈ ([] : List Char).head?, ¬ Lexical.word.GoesOn d := fun d hd => by cases hd
  obtain ⟨found, hreading, hfound⟩ := h.reading_eq hstop
  rw [List.append_nil] at hreading
  obtain ⟨c, rest, htext⟩ := List.exists_cons_of_ne_nil h.ne_nil
  have hlexes : Lexes [] (c :: rest) ([Token.ofWord text] ++ []) := by
    refine .cons ?_ ?_
    · rw [← htext, hreading, hfound, Lexical.tokens, String.ofList_toList]
    · rw [← htext, hreading]
      exact .nil _
  exact Token.ofSource_ok_iff.mpr (htext.symm ▸ hlexes)

/-- A lone numeral begins no lexeme. -/
theorem reading_loneNumeral (hc : Text.LoneNumeral c) (ahead : List Char) :
    reading (c :: ahead) = ⟨[], c :: ahead, .unrecognized c⟩ := by
  have hother : ∀ d, Text.isNumeral d = false → c ≠ d := by
    rintro d hd rfl
    cases hc.numeral.symm.trans hd
  obtain ⟨-, hword, -⟩ := Text.loneNumeral_iff.mp hc
  have hsigns :
      ((Token.brackets ++ Token.signs).any fun entry => Text.isNumeral entry.1) = false := by
    decide
  have hentry : ∀ kind, (c, kind) ∉ Token.brackets ++ Token.signs := fun kind hmem =>
    List.any_eq_false.mp hsigns (c, kind) hmem hc.numeral
  have hbracket : Token.brackets.lookup c = none :=
    Option.eq_none_iff_forall_ne_some.mpr fun kind hkind =>
      hentry kind (List.mem_append_left _ (mem_of_lookup hkind))
  have hsign : Token.signs.lookup c = none :=
    Option.eq_none_iff_forall_ne_some.mpr fun kind hkind =>
      hentry kind (List.mem_append_right _ (mem_of_lookup hkind))
  rw [reading, if_neg (Bool.eq_false_iff.mp (Text.not_isBlank_of_isNumeral hc.numeral)),
    if_neg (fun h => hother '/' (by decide) h.1), if_neg (Bool.eq_false_iff.mp hword),
    if_neg (Bool.eq_false_iff.mp hc.notDigit), if_neg (hother _ (by decide)), Reading.sign,
    hbracket, hsign]
  exact if_neg (hother '=' (by decide))

theorem Token.ofSource_loneNumeral (htext : text.toList = c :: rest) (hc : Text.LoneNumeral c) :
    Token.ofSource text = .error (.unrecognized c 0 1 1) := by
  have herror : (reading (c :: rest)).found.tokens [] = .error (.unrecognized c 0 1 1) := by
    rw [reading_loneNumeral hc]
    rfl
  rw [Token.ofSource, ofSource_eq_between, htext, lexemes_of_error herror]

theorem Token.lookup_of_identifier
    (h : (Token.keywords.lookup text).getD .identifier = .identifier) :
    Token.keywords.lookup text = none := by
  have hkinds : Token.Kind.identifier ∉ Token.keywords.map Prod.snd := by decide
  refine Option.eq_none_iff_forall_ne_some.mpr fun kind hkind => hkinds ?_
  rw [hkind, Option.getD_some] at h
  exact h ▸ mem_kinds_of_lookup hkind

/-- Only a word has an identifier for its token. -/
theorem Lexical.Spells.eq_word {l : Lexical} {chars : List Char} (h : Spells l chars)
    (hkind : l.kindOf chars = some .identifier) : l = .word := by
  cases h with
  | word => rfl
  | bracket hmem =>
    have hkinds : Token.Kind.identifier ∉ Token.brackets.map Prod.snd := by decide
    obtain rfl := Option.some.inj hkind
    exact absurd (List.mem_map_of_mem hmem) hkinds
  | sign hmem =>
    have hkinds : Token.Kind.identifier ∉ Token.signs.map Prod.snd := by decide
    obtain rfl := Option.some.inj hkind
    exact absurd (List.mem_map_of_mem hmem) hkinds
  | _ => cases hkind

/-- The text of an identifier is a word and no keyword. -/
theorem Lexical.Splits.word_of_identifier {before ahead : List Char} {ts : List Token}
    (h : Splits before ahead ts) (hmem : .plain .identifier (.str text) ∈ ts) :
    Spells .word text.toList ∧ Token.keywords.lookup text = none := by
  induction h with
  | nil => cases hmem
  | @cons l before chars rest ts ts' hspells _ hts _ ih =>
    rcases List.mem_append.mp hmem with hmem | hmem
    · -- the token is of one kind only, and that is the kind of words that are no keywords
      obtain ⟨kind, hkind, hof⟩ := Lexical.isOf_kindOf hts hmem
      rw [Token.isOf_eq_decide (Token.isOf_plain _ _), decide_eq_true_iff] at hof
      subst hof
      obtain rfl := hspells.eq_word hkind
      cases hts
      obtain rfl : text = String.ofList chars := by
        have htoken := List.mem_singleton.mp hmem
        injection htoken with hfields
        injection hfields with _ hfields
        injection hfields with htext
        exact Value.str.inj htext
      rw [String.toList_ofList]
      exact ⟨hspells, Token.lookup_of_identifier (Option.some.inj hkind)⟩
    · exact ih hmem

end Word

namespace Vocabulary

variable {text : String} {c : Char} {rest : List Char}

theorem beginsWord_of_isKeyword (h : isKeyword text = true) (htext : text.toList = c :: rest) :
    beginsWord c = true := by
  have hkeywords : (keywords.all fun word => word.toList.head?.any beginsWord) = true := by decide
  have hfirst := List.all_eq_true.mp hkeywords text (List.contains_iff_mem.mp h)
  rw [htext] at hfirst
  exact hfirst

theorem isIdentifier_of_word (h : Spells .word text.toList) (hkeyword : isKeyword text = false) :
    isIdentifier text = true := by
  generalize hchars : text.toList = chars at h
  cases h with
  | word hc hrest =>
    refine (isIdentifier_cons_iff hchars).mpr ⟨?_, continuesWord_of_word hc hrest, hkeyword⟩
    refine Bool.eq_false_iff.mpr fun hdigit => ?_
    exact Bool.eq_false_iff.mp (not_beginsWord_of_isDigit hdigit) hc

/-- A text is a name of the vocabulary exactly if the reader takes all of it for an identifier, or
it is the word `assign`, which the reader takes for a keyword, or it begins with a lone numeral and
goes on like a word, and the reader fails at its first character. -/
theorem isIdentifier_iff_token (text : String) :
    isIdentifier text = true ↔
      Token.ofSource text = .ok [.plain .identifier (.str text)] ∨
      text = "assign" ∧ Token.ofSource text = .ok [.plain .assign (.str text)] ∨
      ∃ c rest, text.toList = c :: rest ∧ Text.LoneNumeral c ∧
        (∀ d ∈ rest, continuesWord d = true) ∧
        Token.ofSource text = .error (.unrecognized c 0 1 1) := by
  constructor
  · intro h
    cases htext : text.toList with
    | nil =>
      rw [isIdentifier, htext] at h
      cases h
    | cons c rest =>
      obtain ⟨hdigit, hall, hkeyword⟩ := (isIdentifier_cons_iff htext).mp h
      obtain ⟨hc, hrest⟩ := List.forall_mem_cons.mp hall
      cases hword : beginsWord c with
      | true =>
        have hspells : Spells .word text.toList := htext ▸ .word hword hrest
        have hsource := Token.ofSource_word hspells
        by_cases hassign : text = "assign"
        · subst hassign
          exact .inr (.inl ⟨rfl, hsource⟩)
        · rw [Token.ofWord, lookup_keywords_eq_none_iff.mpr ⟨hkeyword, hassign⟩] at hsource
          exact .inl hsource
      | false =>
        -- what goes on with a word and begins none is a numeral
        have hnumeral := Text.loneNumeral_iff.mpr ⟨hc, hword, hdigit⟩
        exact .inr (.inr ⟨c, rest, rfl, hnumeral, hrest, Token.ofSource_loneNumeral htext hnumeral⟩)
  · rintro (h | ⟨rfl, -⟩ | ⟨c, rest, htext, hc, hrest, -⟩)
    · obtain ⟨hword, hlookup⟩ :=
        (Token.ofSource_ok_iff.mp h).splits.word_of_identifier List.mem_cons_self
      exact isIdentifier_of_word hword (lookup_keywords_eq_none_iff.mp hlookup).1
    · decide
    · obtain ⟨hcontinues, hword, hdigit⟩ := Text.loneNumeral_iff.mp hc
      refine (isIdentifier_cons_iff htext).mpr
        ⟨hdigit, List.forall_mem_cons.mpr ⟨hcontinues, hrest⟩, ?_⟩
      refine Bool.eq_false_iff.mpr fun hkeyword => ?_
      exact Bool.eq_false_iff.mp hword (beginsWord_of_isKeyword hkeyword htext)

/-- The vocabulary and the reader disagree on a keyword. -/
theorem not_isIdentifier_iff_token :
    ¬ ∀ text, isIdentifier text = true ↔
      Token.ofSource text = .ok [.plain .identifier (.str text)] := by
  intro h
  have hword : Spells .word "assign".toList := .word (by decide) (List.all_eq_true.mp (by decide))
  have hsource := (h "assign").mp (by decide)
  rw [Token.ofSource_word hword] at hsource
  have hassign : (Token.ofWord "assign").isOf .assign = true := Token.isOf_plain _ _
  rw [(List.cons.inj (Except.ok.inj hsource)).1,
    Token.isOf_eq_decide (Token.isOf_plain _ _)] at hassign
  cases hassign

end Vocabulary

end Scriptlet
