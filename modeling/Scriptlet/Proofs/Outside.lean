import Scriptlet.Proofs.Brackets
import Scriptlet.Proofs.Lines

/-! The brackets of a source. They are found character by character, outside string literals and
comments, and are those of its tokens. The check of brackets decides whether they are nested once
the tokens are cut down to pairs. As they are read, the brackets among them are no pairs, and the
check stops at the first one. -/
namespace Scriptlet

/-- Where a character of a source stands. -/
inductive Zone where
  | code
  | comment
  | string
  | escaped
  deriving DecidableEq

namespace Zone

/-- The zone behind a character. Only a comment depends on what follows. -/
def next (zone : Zone) (c : Char) (rest : List Char) : Zone :=
  match zone with
  | code =>
    if c = Text.doubleQuote then string
    else if c = '/' ∧ rest.head? = some '/' then comment
    else code
  | comment => if c = '\n' then code else comment
  | string =>
    if c = '\\' then escaped
    else if c = Text.doubleQuote then code
    else string
  | escaped => string

/-- The characters outside string literals and comments. -/
def outside : Zone → List Char → List Char
  | _, [] => []
  | zone, c :: rest =>
    if zone = code ∧ zone.next c rest = code then c :: outside code rest
    else outside (zone.next c rest) rest

/-- The kinds of the brackets outside string literals and comments, in order. -/
def brackets (zone : Zone) (chars : List Char) : List Token.Kind :=
  (outside zone chars).filterMap fun c => Token.brackets.lookup c

end Zone

/-- The kinds of the brackets of a source, in order. -/
def bracketsOutside (source : String) : List Token.Kind :=
  Zone.code.brackets source.toList

/-- A token as a pair of its kind and its value. -/
def Token.withoutPlace (token : Token) : Token :=
  ⟨token.fields.take 2⟩

namespace Zone

variable {c : Char} {chars rest : List Char}

theorem brackets_cons_code (hquote : c ≠ Text.doubleQuote)
    (hcomment : ¬ (c = '/' ∧ rest.head? = some '/')) :
    code.brackets (c :: rest) = (Token.brackets.lookup c).toList ++ code.brackets rest := by
  have hnext : code.next c rest = code := by
    rw [next, if_neg hquote, if_neg hcomment]
  rw [brackets, outside, if_pos ⟨rfl, hnext⟩]
  cases hlookup : Token.brackets.lookup c with
  | none => exact List.filterMap_cons_none hlookup
  | some kind => exact List.filterMap_cons_some hlookup

/-- Outside code, or at its end, a character is no bracket. -/
theorem brackets_cons {zone zone' : Zone} (hnext : zone.next c rest = zone')
    (hzone : zone ≠ code ∨ zone' ≠ code) : zone.brackets (c :: rest) = zone'.brackets rest := by
  have houtside : ¬ (zone = code ∧ zone.next c rest = code) := by
    rw [hnext]
    exact not_and_or.mpr hzone
  rw [brackets, outside, if_neg houtside, hnext, brackets]

/-- A character that begins no string literal and no comment, and is no bracket. -/
structure Unmarked (c : Char) : Prop where
  notQuote : c ≠ Text.doubleQuote
  notSlash : c ≠ '/'
  notBracket : Token.brackets.lookup c = none

/-- All characters that are not unmarked. -/
def marks : List Char :=
  Text.doubleQuote :: '/' :: Token.brackets.map Prod.fst

theorem unmarked_of_not_mem (h : c ∉ marks) : Unmarked c := by
  simp only [marks, List.mem_cons, not_or] at h
  obtain ⟨hquote, hslash, hbracket⟩ := h
  refine ⟨hquote, hslash, ?_⟩
  cases hlookup : Token.brackets.lookup c with
  | none => rfl
  | some kind =>
    have hmem := List.mem_map_of_mem (f := Prod.fst) (Scanner.mem_of_lookup hlookup)
    exact absurd hmem hbracket

/-- A class of characters without marks. -/
theorem unmarked_of_class {p : Char → Bool} (hp : marks.any p = false) (h : p c = true) :
    Unmarked c :=
  unmarked_of_not_mem fun hmark => List.any_eq_false.mp hp c hmark h

theorem brackets_unmarked (h : ∀ c ∈ chars, Unmarked c) (rest : List Char) :
    code.brackets (chars ++ rest) = code.brackets rest := by
  induction chars with
  | nil => rfl
  | cons c chars ih =>
    obtain ⟨hc, hchars⟩ := List.forall_mem_cons.mp h
    rw [List.cons_append, brackets_cons_code hc.notQuote fun hcomment => hc.notSlash hcomment.1,
      hc.notBracket, Option.toList_none, List.nil_append, ih hchars]

theorem brackets_quotes {meant : List Char} (h : Lexical.Quotes chars meant) (rest : List Char) :
    string.brackets (chars ++ Text.doubleQuote :: rest) = code.brackets rest := by
  induction h with
  | nil => exact brackets_cons rfl (.inl (by decide))
  | @plain c chars meant hquote hslash _ ih =>
    have hnext : string.next c (chars ++ Text.doubleQuote :: rest) = string := by
      rw [next, if_neg hslash, if_neg hquote]
    rw [List.cons_append, brackets_cons hnext (.inl (by decide)), ih]
  | @pair c chars meant _ ih =>
    have hescaped : string.next '\\' (c :: (chars ++ Text.doubleQuote :: rest)) = escaped := rfl
    have hnext : escaped.next c (chars ++ Text.doubleQuote :: rest) = string := rfl
    rw [List.cons_append, List.cons_append, brackets_cons hescaped (.inl (by decide)),
      brackets_cons hnext (.inl (by decide)), ih]

/-- A comment ends before a line feed or at the end of the source. -/
theorem brackets_comment (h : '\n' ∉ chars) (hrest : ∀ d ∈ rest.head?, d = '\n') :
    comment.brackets (chars ++ rest) = code.brackets rest := by
  induction chars with
  | nil =>
    cases rest with
    | nil => rfl
    | cons d rest =>
      obtain rfl := hrest d rfl
      have hnext : comment.next '\n' rest = code := rfl
      rw [List.nil_append, brackets_cons hnext (.inl (by decide)),
        brackets_cons_code (by decide) fun hcomment => absurd hcomment.1 (by decide)]
      rfl
  | cons c chars ih =>
    obtain ⟨hc, hchars⟩ := not_or.mp (List.mem_cons.not.mp h)
    have hnext : comment.next c (chars ++ rest) = comment := if_neg (Ne.symm hc)
    rw [List.cons_append, brackets_cons hnext (.inl (by decide)), ih hchars]

end Zone

namespace Lexical

/-- The kind of the bracket that a lexeme is, if it is one. -/
def brackets : Lexical → List Token.Kind
  | bracket kind => [kind]
  | _ => []

variable {l : Lexical} {chars rest : List Char}

/-- The brackets of a source are those of its first lexeme and those behind it. -/
theorem Spells.brackets_append (h : Spells l chars) (hstop : ∀ d ∈ rest.head?, ¬ l.GoesOn d) :
    Zone.code.brackets (chars ++ rest) = l.brackets ++ Zone.code.brackets rest := by
  cases h with
  | blanks _ hchars =>
    refine Zone.brackets_unmarked (fun c hc => ?_) rest
    exact Zone.unmarked_of_class (by decide +kernel) (hchars c hc)
  | @comment chars hchars =>
    have hslash : '\n' ∉ '/' :: chars := by
      simpa using hchars
    have hnext : Zone.code.next '/' ('/' :: chars ++ rest) = .comment := rfl
    have hend : ∀ d ∈ rest.head?, d = '\n' := fun d hd => not_not.mp (hstop d hd)
    rw [List.cons_append, Zone.brackets_cons hnext (.inr (by decide)),
      Zone.brackets_comment hslash hend]
    rfl
  | @word c chars hc hchars =>
    refine Zone.brackets_unmarked (fun d hd => ?_) rest
    exact Zone.unmarked_of_class (by decide +kernel) (continuesWord_of_word hc hchars d hd)
  | integer _ hdigits =>
    refine Zone.brackets_unmarked (fun c hc => ?_) rest
    exact Zone.unmarked_of_class (by decide +kernel) (hdigits c hc)
  | @decimal digits fraction _ hdigits hfraction =>
    have hdigit : ∀ c, Text.isDigit c = true → Zone.Unmarked c := fun c hc =>
      Zone.unmarked_of_class (by decide +kernel) hc
    refine Zone.brackets_unmarked (List.forall_mem_append.mpr ⟨fun c hc => ?_, ?_⟩) rest
    · exact hdigit c (hdigits c hc)
    · refine List.forall_mem_cons.mpr ⟨?_, fun c hc => hdigit c (hfraction c hc)⟩
      exact Zone.unmarked_of_not_mem (by decide)
  | @string chars meant hquotes =>
    have hnext : Zone.code.next Text.doubleQuote (chars ++ [Text.doubleQuote] ++ rest) = .string :=
      rfl
    rw [List.cons_append, Zone.brackets_cons hnext (.inr (by decide)), List.append_assoc,
      List.singleton_append, Zone.brackets_quotes hquotes]
    rfl
  | @bracket c kind hmem =>
    have hbrackets : ∀ entry ∈ Token.brackets, entry.1 ≠ Text.doubleQuote ∧ entry.1 ≠ '/' ∧
        Token.brackets.lookup entry.1 = some entry.2 := by
      decide
    obtain ⟨hquote, hslash, hlookup⟩ := hbrackets _ hmem
    rw [List.singleton_append, Zone.brackets_cons_code hquote fun h => hslash h.1, hlookup]
    rfl
  | @sign c kind hmem =>
    have hsigns : ∀ entry ∈ Token.signs, entry.1 ≠ Text.doubleQuote ∧
        Token.brackets.lookup entry.1 = none ∧ (entry.1 = '/' → entry.2 = .divide) := by
      decide
    obtain ⟨hquote, hlookup, hdivide⟩ := hsigns _ hmem
    have hcomment : ¬ (c = '/' ∧ rest.head? = some '/') := by
      rintro ⟨rfl, hnext⟩
      exact hstop '/' hnext (.inl ⟨hdivide rfl, rfl⟩)
    rw [List.singleton_append, Zone.brackets_cons_code hquote hcomment, hlookup]
    rfl
  | assign =>
    refine Zone.brackets_unmarked (List.forall_mem_singleton.mpr ?_) rest
    exact Zone.unmarked_of_not_mem (by decide)
  | equals =>
    have hequals : Zone.Unmarked '=' := Zone.unmarked_of_not_mem (by decide)
    refine Zone.brackets_unmarked (List.forall_mem_cons.mpr ⟨hequals, ?_⟩) rest
    exact List.forall_mem_singleton.mpr hequals

end Lexical

/-- A bracket that knows its place, or another token that is a pair. -/
def Token.KnowsBracketPlace (token : Token) : Prop :=
  token.fields.length = if token.isBracket then 4 else 2

namespace Token

variable {kind : Token.Kind} {value : Value}

theorem bracketsAmong_append (ts us : List Token) :
    bracketsAmong (ts ++ us) = bracketsAmong ts ++ bracketsAmong us :=
  List.filterMap_append

theorem isBracket_plain (hkind : kind ∉ brackets.map Prod.snd) (value : Value) :
    (plain kind value).isBracket = false :=
  (Leaf.unplaced kind value).isBracket_token hkind

theorem plain_no_bracket (hkind : kind ∉ brackets.map Prod.snd) (value : Value) :
    bracketsAmong [plain kind value] = [] ∧
      ∀ t ∈ [plain kind value], t.KnowsBracketPlace := by
  have hbracket := isBracket_plain hkind value
  refine ⟨List.filterMap_cons_none (Vocabulary.bracket?_eq_none_iff.mpr hbracket), ?_⟩
  rw [List.forall_mem_singleton, KnowsBracketPlace, hbracket]
  rfl

theorem read_no_bracket {α : Type} (hkind : kind ∉ brackets.map Prod.snd) {value : α → Value}
    {read : Except Fault α} {ts : List Token}
    (h : (fun a => [plain kind (value a)]) <$> read = .ok ts) :
    bracketsAmong ts = [] ∧ ∀ t ∈ ts, t.KnowsBracketPlace := by
  cases read with
  | error fault => cases h
  | ok a =>
    cases h
    exact plain_no_bracket hkind (value a)

theorem bracket?_of_isOf {t : Token} (h : t.isOf kind = true)
    (hkind : kind ∈ brackets.map Prod.snd) : t.bracket? = some kind := by
  rw [bracket?]
  have hkinds : brackets.map Prod.snd = [.leftBrace, .rightBrace, .leftParen, .rightParen] := rfl
  rw [hkinds] at hkind ⊢
  simp only [List.mem_cons, List.not_mem_nil, or_false] at hkind
  rcases hkind with rfl | rfl | rfl | rfl <;> simp [isOf_eq_decide h]

theorem placed_bracket {c : Char} (hmem : (c, kind) ∈ brackets) (value : Value)
    (line column : Nat) :
    bracketsAmong [placed kind value line column] = [kind] ∧
      ∀ t ∈ [placed kind value line column], t.KnowsBracketPlace := by
  have hkind : (placed kind value line column).isOf kind = true := isOf_iff.mpr rfl
  have hbracket : (placed kind value line column).isBracket = true :=
    List.any_eq_true.mpr ⟨_, hmem, hkind⟩
  refine ⟨List.filterMap_cons_some (bracket?_of_isOf hkind (List.mem_map_of_mem hmem)), ?_⟩
  rw [List.forall_mem_singleton, KnowsBracketPlace, hbracket]
  rfl

end Token

theorem Lexical.Spells.bracketsAmong_tokens {l : Lexical} {chars before : List Char}
    {ts : List Token} (h : Spells l chars) (hts : l.tokens before chars = .ok ts) :
    Token.bracketsAmong ts = l.brackets ∧ ∀ t ∈ ts, t.KnowsBracketPlace := by
  cases h with
  | blanks =>
    cases hts
    exact ⟨rfl, List.forall_mem_nil _⟩
  | comment =>
    cases hts
    exact ⟨rfl, List.forall_mem_nil _⟩
  | word =>
    cases hts
    exact Token.plain_no_bracket (Token.keywordKind_not_bracket _) _
  | integer => exact Token.read_no_bracket (by decide) hts
  | decimal => exact Token.read_no_bracket (by decide) hts
  | string =>
    cases hts
    exact Token.plain_no_bracket (by decide) _
  | bracket hmem =>
    cases hts
    exact Token.placed_bracket hmem _ _ _
  | sign hmem =>
    have hsigns : ∀ entry ∈ Token.signs, entry.2 ∉ Token.brackets.map Prod.snd := by decide
    cases hts
    exact Token.plain_no_bracket (hsigns _ hmem) _
  | assign =>
    cases hts
    exact Token.plain_no_bracket (by decide) _
  | equals =>
    cases hts
    exact Token.plain_no_bracket (by decide) _

/-- The brackets of a source are those of its tokens, and only they know their places. -/
theorem Lexical.Splits.bracketsAmong {before ahead : List Char} {ts : List Token}
    (h : Splits before ahead ts) :
    Token.bracketsAmong ts = Zone.code.brackets ahead ∧ ∀ t ∈ ts, t.KnowsBracketPlace := by
  induction h with
  | nil => exact ⟨rfl, List.forall_mem_nil _⟩
  | @cons l before chars rest ts ts' hspells hlongest hts _ ih =>
    obtain ⟨hbrackets, hplaces⟩ := hspells.bracketsAmong_tokens hts
    obtain ⟨hbrackets', hplaces'⟩ := ih
    refine ⟨?_, List.forall_mem_append.mpr ⟨hplaces, hplaces'⟩⟩
    rw [Token.bracketsAmong_append, hbrackets, hbrackets',
      hspells.brackets_append (hlongest.stops hspells)]

namespace Token

variable {t : Token}

theorem isOf_withoutPlace (t : Token) (kind : Kind) : t.withoutPlace.isOf kind = t.isOf kind := by
  obtain ⟨fields⟩ := t
  cases fields <;> rfl

theorem bracket?_withoutPlace (t : Token) : t.withoutPlace.bracket? = t.bracket? := by
  simp only [bracket?, isOf_withoutPlace]

theorem KnowsBracketPlace.length_withoutPlace (h : t.KnowsBracketPlace) :
    t.withoutPlace.fields.length = 2 := by
  rw [withoutPlace, List.length_take, h]
  split <;> rfl

end Token

namespace Vocabulary

/-- The check answers only as long as it has not met a bracket that knows its place. -/
theorem balanced_of_places {ts : List Token} (h : ∀ t ∈ ts, t.KnowsBracketPlace) :
    balanced ts =
      if Token.bracketsAmong ts = [] then .ok true else .error (.notPair 4) := by
  rw [balanced]
  induction ts with
  | nil => rfl
  | cons t ts ih =>
    obtain ⟨ht, hts⟩ := List.forall_mem_cons.mp h
    cases hbracket : t.bracket? with
    | none =>
      have hother := bracket?_eq_none_iff.mp hbracket
      rw [Token.KnowsBracketPlace, hother] at ht
      rw [balancedFrom_cons ht (afterToken_other hother []), Token.bracketsAmong,
        List.filterMap_cons_none hbracket]
      exact ih hts
    | some kind =>
      have hnot : t.isBracket = true := by
        rw [← Bool.not_eq_false, ← bracket?_eq_none_iff, hbracket]
        exact Option.some_ne_none kind
      rw [Token.KnowsBracketPlace, hnot] at ht
      rw [balancedFrom, if_neg (by rw [ht]; decide), Token.bracketsAmong,
        List.filterMap_cons_some hbracket, if_neg (List.cons_ne_nil _ _), ht]
      rfl

/-- The check of brackets stops at the first bracket among the tokens of a source, and passes the
tokens if there is none. Cut down to pairs, the tokens pass it exactly if the brackets of the
source are a word of the language. -/
theorem balanced_of_source (source : String) (ts : List Token)
    (h : Token.ofSource source = .ok ts) :
    balanced ts =
        (if bracketsOutside source = [] then .ok true else .error (.notPair 4)) ∧
      ∃ passes, balanced (ts.map Token.withoutPlace) = .ok passes ∧
        (passes = true ↔ BracketWord (bracketsOutside source)) := by
  obtain ⟨hbrackets, hplaces⟩ := (Token.ofSource_ok_iff.mp h).splits.bracketsAmong
  constructor
  · rw [bracketsOutside, ← hbrackets]
    exact balanced_of_places hplaces
  · have hpairs : ∀ t ∈ ts.map Token.withoutPlace, t.fields.length = 2 := by
      intro t ht
      obtain ⟨u, hu, rfl⟩ := List.mem_map.mp ht
      exact (hplaces u hu).length_withoutPlace
    have hsame : Token.bracketsAmong (ts.map Token.withoutPlace) = bracketsOutside source := by
      rw [bracketsOutside, ← hbrackets, Token.bracketsAmong, List.filterMap_map]
      exact List.filterMap_congr fun t _ => Token.bracket?_withoutPlace t
    obtain ⟨passes, hpasses, hiff⟩ := balancedFrom_iff_completes hpairs []
    rw [hsame] at hiff
    exact ⟨passes, hpasses, hiff.trans completes_iff_bracketWord⟩

/-- A call with an opening brace in a string literal and a closing one in a comment. -/
theorem balanced_of_source_quoted :
    ∃ ts, Token.ofSource "f(\"\x7b\") // \x7d" = .ok ts ∧
      bracketsOutside "f(\"\x7b\") // \x7d" = [.leftParen, .rightParen] ∧
      balanced ts = .error (.notPair 4) ∧ balanced (ts.map Token.withoutPlace) = .ok true := by
  have hread : (Token.ofSource "f(\"\x7b\") // \x7d").isOk = true := by decide +kernel
  have hbrackets : bracketsOutside "f(\"\x7b\") // \x7d" = [.leftParen, .rightParen] := by
    decide +kernel
  have hword : BracketWord [.leftParen, .rightParen] := .pair .paren .nil .nil
  cases hsource : Token.ofSource "f(\"\x7b\") // \x7d" with
  | error fault =>
    rw [hsource] at hread
    cases hread
  | ok ts =>
    obtain ⟨hchecked, passes, hpasses, hiff⟩ := balanced_of_source _ ts hsource
    rw [hbrackets, if_neg (List.cons_ne_nil _ _)] at hchecked
    rw [hbrackets] at hiff
    rw [hiff.mpr hword] at hpasses
    exact ⟨ts, rfl, hbrackets, hchecked, hpasses⟩

/-- The check of brackets does not answer for a pair of parentheses. -/
theorem not_balanced_of_parens :
    ¬ ∀ source ts, Token.ofSource source = .ok ts →
      ∃ passes, balanced ts = .ok passes ∧
        (passes = true ↔ BracketWord (bracketsOutside source)) := by
  intro h
  have hcheck : (Token.ofSource "()").toOption.any (fun ts => !(balanced ts).isOk) = true := by
    decide +kernel
  cases hsource : Token.ofSource "()" with
  | error fault =>
    rw [hsource] at hcheck
    cases hcheck
  | ok ts =>
    obtain ⟨passes, hpasses, -⟩ := h "()" ts hsource
    rw [hsource, Except.toOption, Option.any_some, hpasses] at hcheck
    cases hcheck

end Vocabulary

end Scriptlet
