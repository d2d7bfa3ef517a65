import Scriptlet.Proofs.Derivation
import Scriptlet.Proofs.Lexeme
import Scriptlet.Proofs.Lexing

/-! The lexical grammar. A source has tokens exactly if it is a sequence of lexemes, each of them
the longest that begins where it does, and the tokens are those of its lexemes. -/
namespace Scriptlet

/-- The classes of lexemes, each with what its characters alone do not tell. -/
inductive Lexical where
  | blanks
  | comment
  | word
  | integer
  | decimal
  | string (meant : List Char)
  | bracket (kind : Token.Kind)
  | sign (kind : Token.Kind)

namespace Lexical

/-- The characters between the quotes of a string literal, and the text that they stand for. -/
inductive Quotes : List Char → List Char → Prop
  | nil : Quotes [] []
  | plain {c : Char} {chars meant : List Char} : c ≠ Text.doubleQuote → c ≠ '\\' →
      Quotes chars meant → Quotes (c :: chars) (c :: meant)
  | pair (c : Char) {chars meant : List Char} :
      Quotes chars meant → Quotes ('\\' :: c :: chars) (Scanner.escaped c :: meant)

/-- The characters that a lexeme of a class may have. -/
inductive Spells : Lexical → List Char → Prop
  | blanks {chars : List Char} : chars ≠ [] → (∀ c ∈ chars, Text.isBlank c = true) →
      Spells .blanks chars
  | comment {chars : List Char} : '\n' ∉ chars → Spells .comment ('/' :: '/' :: chars)
  | word {c : Char} {chars : List Char} : Scanner.beginsWord c = true →
      (∀ d ∈ chars, Scanner.continuesWord d = true) → Spells .word (c :: chars)
  | integer {digits : List Char} : digits ≠ [] → (∀ c ∈ digits, Text.isDigit c = true) →
      Spells .integer digits
  | decimal {digits fraction : List Char} : digits ≠ [] → (∀ c ∈ digits, Text.isDigit c = true) →
      (∀ c ∈ fraction, Text.isDigit c = true) → Spells .decimal (digits ++ '.' :: fraction)
  | string {chars meant : List Char} : Quotes chars meant →
      Spells (.string meant) (Text.doubleQuote :: (chars ++ [Text.doubleQuote]))
  | bracket {c : Char} {kind : Token.Kind} : (c, kind) ∈ Token.brackets →
      Spells (.bracket kind) [c]
  | sign {c : Char} {kind : Token.Kind} : (c, kind) ∈ Token.signs → Spells (.sign kind) [c]
  | assign : Spells (.sign .assign) ['=']
  | equals : Spells (.sign .equals) ['=', '=']

/-- The tokens of a lexeme behind the given characters. A number has one only if it can be read. -/
def tokens (before chars : List Char) : Lexical → Except Fault (List Token)
  | blanks => .ok []
  | comment => .ok []
  | word => .ok [Token.ofWord (String.ofList chars)]
  | integer => (fun z => [.plain .number (.int z)]) <$> Decimal.readInteger (String.ofList chars)
  | decimal => (fun x => [.plain .float (.float x)]) <$> Decimal.readFloat (String.ofList chars)
  | string meant => .ok [.plain .string (.str (String.ofList meant))]
  | bracket kind =>
    .ok [.placed kind (.str (String.ofList chars)) (Scanner.lineAfter before)
      (Scanner.columnAfter before)]
  | sign kind => .ok [.plain kind (.str (String.ofList chars))]

/-- No lexeme of any class begins with the characters and is longer. -/
def Longest (chars rest : List Char) : Prop :=
  ∀ l longer, Spells l longer → longer <+: chars ++ rest → longer.length ≤ chars.length

/-- The characters ahead are a sequence of longest lexemes with the tokens, behind the given
characters. -/
inductive Splits : List Char → List Char → List Token → Prop
  | nil (before : List Char) : Splits before [] []
  | cons {l : Lexical} {before chars rest : List Char} {ts ts' : List Token} :
      Spells l chars → Longest chars rest → l.tokens before chars = .ok ts →
      Splits (before ++ chars) rest ts' → Splits before (chars ++ rest) (ts ++ ts')

end Lexical

section Digits

/-- Whether all code points from `low` to `high` lie between the ranges. -/
def Text.Ranges.misses (low high : Nat) : Ranges → Bool
  | [] => true
  | (l, h) :: rest => Nat.blt high l || (Nat.blt h low && misses low high rest)

theorem Text.Ranges.not_covers_of_misses {low high n : Nat} {ranges : Ranges}
    (h : ranges.misses low high = true) (hlow : low ≤ n) (hhigh : n ≤ high) :
    ranges.covers n = false := by
  induction ranges with
  | nil => rfl
  | cons r ranges ih =>
    rw [misses, Bool.or_eq_true, Bool.and_eq_true, Nat.blt_eq, Nat.blt_eq] at h
    obtain h | ⟨h, hrest⟩ := h
    · exact covers_cons_of_lt (Nat.lt_of_le_of_lt hhigh h)
    · rw [covers, startOf?]
      split
      · rfl
      · rw [if_neg (Nat.not_le.mpr (Nat.lt_of_lt_of_le h hlow))]
        exact ih hrest

theorem Text.Ranges.not_covers_of_all_misses {a b : Ranges}
    (h : (a.all fun r => b.misses r.1 r.2) = true) {n : Nat} (ha : a.covers n = true) :
    b.covers n = false := by
  obtain ⟨r, hr, i, hi, rfl⟩ := exists_of_covers ha
  exact not_covers_of_misses (List.all_eq_true.mp h r hr) (Nat.le_add_right _ _) (by omega)

theorem Text.not_isBlank_of_isDigit {c : Char} (h : isDigit c = true) : isBlank c = false :=
  Ranges.not_covers_of_all_misses (by decide +kernel) h

theorem Text.not_isLetter_of_isDigit {c : Char} (h : isDigit c = true) : isLetter c = false :=
  Ranges.not_covers_of_all_misses (by decide +kernel) h

theorem Scanner.not_beginsWord_of_isDigit {c : Char} (h : Text.isDigit c = true) :
    beginsWord c = false := by
  rw [beginsWord, Text.not_isLetter_of_isDigit h, Bool.false_or, beq_eq_false_iff_ne]
  rintro rfl
  exact absurd h (by decide)

end Digits

namespace Scanner

open Lexical

section Spans

variable {p : Char → Bool} {chars : List Char} (found : List Char → Found) (rest : List Char)

theorem length_le_span (hchars : ∀ c ∈ chars, p c = true) :
    chars.length ≤ (Reading.span p found (chars ++ rest)).taken.length := by
  rw [Reading.span, List.takeWhile_append_of_pos hchars, List.length_append]
  exact Nat.le_add_right _ _

theorem span_eq (hchars : ∀ c ∈ chars, p c = true) (hrest : ∀ c ∈ rest.head?, p c = false) :
    Reading.span p found (chars ++ rest) = ⟨chars, rest, found chars⟩ := by
  obtain ⟨htake, hdrop⟩ := takeWhile_append_of_head hchars hrest
  rw [Reading.span, htake, hdrop]

end Spans

section Branches

variable {c : Char} (ahead : List Char)

theorem reading_blanks {blanks : List Char} (hne : blanks ≠ [])
    (hblanks : ∀ d ∈ blanks, Text.isBlank d = true) :
    reading (blanks ++ ahead) = .span Text.isBlank (fun _ => .nothing) (blanks ++ ahead) := by
  obtain ⟨d, blanks, rfl⟩ := List.exists_cons_of_ne_nil hne
  exact if_pos (hblanks d List.mem_cons_self)

theorem reading_comment :
    reading ('/' :: '/' :: ahead) =
      .span (· != '\n') (fun _ => .nothing) ('/' :: '/' :: ahead) := by
  rw [reading, if_neg (by decide), if_pos ⟨rfl, rfl⟩]

theorem reading_word (hc : beginsWord c = true) :
    reading (c :: ahead) = .span continuesWord .ofWord (c :: ahead) := by
  have hslash : ¬ (c = '/' ∧ ahead.head? = some '/') := by
    rintro ⟨rfl, -⟩
    cases hc
  rw [reading, if_neg (by simp [not_isBlank_of_beginsWord hc]), if_neg hslash, if_pos hc]

theorem reading_digit (hc : Text.isDigit c = true) :
    reading (c :: ahead) = .number (c :: ahead) := by
  have hslash : ¬ (c = '/' ∧ ahead.head? = some '/') := by
    rintro ⟨rfl, -⟩
    exact absurd hc (by decide)
  rw [reading, if_neg (by simp [Text.not_isBlank_of_isDigit hc]), if_neg hslash,
    if_neg (by simp [not_beginsWord_of_isDigit hc]), if_pos hc]

theorem reading_quote : reading (Text.doubleQuote :: ahead) = .string ahead := by
  rw [reading, if_neg (by decide), if_neg (fun h => absurd h.1 (by decide)), if_neg (by decide),
    if_neg (by decide), if_pos rfl]

theorem reading_sign (hc : BeginsSign c) (hcomment : ¬ (c = '/' ∧ ahead.head? = some '/')) :
    reading (c :: ahead) = .sign c ahead := by
  rw [reading, if_neg (by simp [hc.notBlank]), if_neg hcomment, if_neg (by simp [hc.notWord]),
    if_neg (by simp [hc.notDigit]), if_neg hc.notQuote]

theorem reading_bracket {kind : Token.Kind} (h : (c, kind) ∈ Token.brackets) :
    reading (c :: ahead) = ⟨[c], ahead, .bracket kind c⟩ := by
  have hsigns : ∀ entry ∈ Token.brackets, BeginsSign entry.1 ∧ entry.1 ≠ '/' ∧
      Token.brackets.lookup entry.1 = some entry.2 := by decide +kernel
  obtain ⟨hsign, hslash, hlookup⟩ := hsigns (c, kind) h
  rw [reading_sign ahead hsign (fun hcomment => hslash hcomment.1), Reading.sign, hlookup]

theorem reading_plain_sign {kind : Token.Kind} (h : (c, kind) ∈ Token.signs)
    (hcomment : ¬ (c = '/' ∧ ahead.head? = some '/')) :
    reading (c :: ahead) = ⟨[c], ahead, .token kind (.str c.toString)⟩ := by
  have hsigns : ∀ entry ∈ Token.signs, BeginsSign entry.1 ∧
      Token.brackets.lookup entry.1 = none ∧ Token.signs.lookup entry.1 = some entry.2 := by
    decide +kernel
  obtain ⟨hsign, hbracket, hlookup⟩ := hsigns (c, kind) h
  rw [reading_sign ahead hsign hcomment, Reading.sign, hbracket, hlookup]

theorem reading_assign (h : ahead.head? ≠ some '=') :
    reading ('=' :: ahead) = ⟨['='], ahead, .token .assign (.str "=")⟩ := by
  rw [reading_sign ahead (by decide +kernel) (fun hcomment => absurd hcomment.1 (by decide))]
  exact if_neg h

theorem reading_equals :
    reading ('=' :: '=' :: ahead) = ⟨['=', '='], ahead, .token .equals (.str "==")⟩ := by
  rw [reading_sign _ (by decide +kernel) (fun hcomment => absurd hcomment.1 (by decide))]
  rfl

end Branches

section Numbers

variable {whole : List Char} (rest : List Char)

theorem reading_digits (hne : whole ≠ []) (hwhole : ∀ d ∈ whole, Text.isDigit d = true) :
    reading (whole ++ rest) = .number (whole ++ rest) := by
  obtain ⟨c, digits, rfl⟩ := List.exists_cons_of_ne_nil hne
  exact reading_digit (digits ++ rest) (hwhole c List.mem_cons_self)

theorem number_of_point {ahead : List Char} (h : ahead.dropWhile Text.isDigit = '.' :: rest) :
    Reading.number ahead =
      ⟨ahead.takeWhile Text.isDigit ++ '.' :: rest.takeWhile Text.isDigit,
        rest.dropWhile Text.isDigit,
        Reading.decimal (ahead.takeWhile Text.isDigit ++ '.' :: rest.takeWhile Text.isDigit)⟩ := by
  rw [Reading.number, h]
  rfl

theorem number_of_no_point {ahead : List Char}
    (h : (ahead.dropWhile Text.isDigit).head? ≠ some '.') :
    Reading.number ahead = ⟨ahead.takeWhile Text.isDigit, ahead.dropWhile Text.isDigit,
      Reading.integer (ahead.takeWhile Text.isDigit)⟩ :=
  if_neg h

theorem number_integer (hwhole : ∀ d ∈ whole, Text.isDigit d = true)
    (hdigit : ∀ d ∈ rest.head?, Text.isDigit d = false) (hpoint : rest.head? ≠ some '.') :
    Reading.number (whole ++ rest) = ⟨whole, rest, Reading.integer whole⟩ := by
  obtain ⟨htake, hdrop⟩ := takeWhile_append_of_head hwhole hdigit
  rw [number_of_no_point (hdrop.symm ▸ hpoint), htake, hdrop]

theorem number_decimal (hwhole : ∀ d ∈ whole, Text.isDigit d = true) :
    Reading.number (whole ++ '.' :: rest) =
      ⟨whole ++ '.' :: rest.takeWhile Text.isDigit, rest.dropWhile Text.isDigit,
        Reading.decimal (whole ++ '.' :: rest.takeWhile Text.isDigit)⟩ := by
  have hstop : ∀ d ∈ ('.' :: rest).head?, Text.isDigit d = false := by
    rintro _ ⟨⟩
    decide
  obtain ⟨htake, hdrop⟩ := takeWhile_append_of_head hwhole hstop
  rw [number_of_point rest hdrop, htake]

/-- A number is read at least as far as its digits go. -/
theorem length_le_number (hwhole : ∀ d ∈ whole, Text.isDigit d = true) :
    whole.length ≤ (Reading.number (whole ++ rest)).taken.length := by
  have htake : whole.length ≤ ((whole ++ rest).takeWhile Text.isDigit).length := by
    rw [List.takeWhile_append_of_pos hwhole, List.length_append]
    exact Nat.le_add_right _ _
  rw [Reading.number]
  split
  · rw [List.length_append]
    exact Nat.le_add_right_of_le htake
  · exact htake

theorem tokens_integer (before digits : List Char) :
    (Reading.integer digits).tokens before = Lexical.integer.tokens before digits := by
  rw [Reading.integer, Lexical.tokens]
  cases Decimal.readInteger (String.ofList digits) <;> rfl

theorem tokens_decimal (before chars : List Char) :
    (Reading.decimal chars).tokens before = Lexical.decimal.tokens before chars := by
  rw [Reading.decimal, Lexical.tokens]
  cases Decimal.readFloat (String.ofList chars) <;> rfl

end Numbers

section Strings

variable {chars meant : List Char}

theorem inside_quotes (h : Quotes chars meant) (rest : List Char) :
    inside (chars ++ Text.doubleQuote :: rest) = ⟨meant, chars, Text.doubleQuote :: rest⟩ := by
  induction h with
  | nil => exact inside_quote rest
  | plain hquote hslash _ ih => rw [List.cons_append, inside_plain hquote hslash, ih]
  | pair c _ ih => rw [List.cons_append, List.cons_append, inside_escape, ih]

theorem quotes_inside {ahead left : List Char}
    (h : (inside ahead).left = Text.doubleQuote :: left) :
    Quotes (inside ahead).taken (inside ahead).text := by
  fun_induction inside ahead with
  | case1 => cases h
  | case2 ahead => exact .nil
  | case3 hc => cases h
  | case4 d ahead _ hc ih => exact .pair d (ih h)
  | case5 c ahead hc hslash _ ih => exact .plain hc hslash (ih h)

theorem string_quotes (h : Quotes chars meant) (rest : List Char) :
    Reading.string (chars ++ Text.doubleQuote :: rest) =
      ⟨Text.doubleQuote :: (chars ++ [Text.doubleQuote]), rest,
        .token .string (.str (String.ofList meant))⟩ := by
  rw [Reading.string, inside_quotes h]

end Strings

end Scanner

namespace Lexical

open Scanner

variable {l : Lexical} {chars rest : List Char}

theorem forall_mem_snoc {p : Char → Bool} {d : Char} (h : ∀ c ∈ chars, p c = true)
    (hd : p d = true) : ∀ c ∈ chars ++ [d], p c = true :=
  List.forall_mem_append.mpr ⟨h, List.forall_mem_singleton.mpr hd⟩

theorem ne_newline_of_comment (h : '\n' ∉ chars) :
    ∀ c ∈ '/' :: '/' :: chars, (c != '\n') = true := by
  intro c hc
  rw [bne_iff_ne]
  rintro rfl
  simp [h] at hc

theorem continuesWord_of_word {c : Char} (hc : beginsWord c = true)
    (hchars : ∀ d ∈ chars, continuesWord d = true) : ∀ d ∈ c :: chars, continuesWord d = true :=
  List.forall_mem_cons.mpr ⟨continuesWord_of_beginsWord hc, hchars⟩

theorem Spells.ne_nil (h : Spells l chars) : chars ≠ [] := by
  cases h with
  | blanks hne => exact hne
  | integer hne => exact hne
  | decimal hne =>
    rw [ne_eq, List.append_eq_nil_iff, not_and_or]
    exact .inl hne
  | _ => exact List.cons_ne_nil _ _

/-- Reading stops nowhere short of the end of a lexeme. -/
theorem Spells.length_le_taken (h : Spells l chars) (rest : List Char) :
    chars.length ≤ (reading (chars ++ rest)).taken.length := by
  cases h with
  | blanks hne hchars =>
    rw [reading_blanks rest hne hchars]
    exact length_le_span _ rest hchars
  | comment hchars =>
    rw [List.cons_append, List.cons_append, reading_comment]
    exact length_le_span _ rest (ne_newline_of_comment hchars)
  | word hc hchars =>
    rw [List.cons_append, reading_word _ hc]
    exact length_le_span _ rest (continuesWord_of_word hc hchars)
  | integer hne hdigits =>
    rw [reading_digits rest hne hdigits]
    exact length_le_number rest hdigits
  | decimal hne hdigits hfraction =>
    rw [List.append_assoc, List.cons_append, reading_digits _ hne hdigits,
      number_decimal _ hdigits, List.takeWhile_append_of_pos hfraction]
    simp
  | string hquotes =>
    rw [List.cons_append, List.append_assoc, List.singleton_append, reading_quote,
      string_quotes hquotes]
  | bracket hmem => rw [List.singleton_append, reading_bracket rest hmem]
  | @sign c kind hmem =>
    -- a slash is a sign only where no second one follows; two of them are longer still
    by_cases hcomment : c = '/' ∧ rest.head? = some '/'
    · obtain ⟨rfl, hnext⟩ := hcomment
      obtain ⟨rest, rfl⟩ := List.head?_eq_some_iff.mp hnext
      rw [List.singleton_append, reading_comment]
      exact Nat.succ_pos _
    · rw [List.singleton_append, reading_plain_sign rest hmem hcomment]
  | assign =>
    by_cases hnext : rest.head? = some '='
    · obtain ⟨rest, rfl⟩ := List.head?_eq_some_iff.mp hnext
      rw [List.singleton_append, reading_equals]
      exact Nat.succ_pos _
    · rw [List.singleton_append, reading_assign rest hnext]
  | equals => rw [List.cons_append, List.singleton_append, reading_equals]

theorem longest_taken (ahead : List Char) : Longest (reading ahead).taken (reading ahead).left := by
  intro l longer h hlonger
  rw [taken_append_left] at hlonger
  obtain ⟨rest, rfl⟩ := hlonger
  exact h.length_le_taken rest

/-- Whether a character goes on with a lexeme of a class, or makes a longer one of another class of
it. -/
def GoesOn : Lexical → Char → Prop
  | blanks, d => Text.isBlank d = true
  | comment, d => d ≠ '\n'
  | word, d => continuesWord d = true
  | integer, d => Text.isDigit d = true ∨ d = '.'
  | decimal, d => Text.isDigit d = true
  | string _, _ => False
  | bracket _, _ => False
  | sign kind, d => kind = .divide ∧ d = '/' ∨ kind = .assign ∧ d = '='

theorem Spells.extend (h : Spells l chars) {d : Char} (hd : l.GoesOn d) :
    ∃ longer, Spells longer (chars ++ [d]) := by
  cases h with
  | blanks hne hchars => exact ⟨_, .blanks (by simp) (forall_mem_snoc hchars hd)⟩
  | @comment chars hchars =>
    have hsnoc : '\n' ∉ chars ++ [d] := by
      simpa [hchars] using Ne.symm hd
    exact ⟨_, .comment hsnoc⟩
  | word hc hchars => exact ⟨_, .word hc (forall_mem_snoc hchars hd)⟩
  | integer hne hdigits =>
    rcases hd with hd | rfl
    · exact ⟨_, .integer (by simp) (forall_mem_snoc hdigits hd)⟩
    · exact ⟨_, .decimal hne hdigits (List.forall_mem_nil _)⟩
  | decimal hne hdigits hfraction =>
    rw [List.append_assoc, List.cons_append]
    exact ⟨_, .decimal hne hdigits (forall_mem_snoc hfraction hd)⟩
  | string hquotes => exact hd.elim
  | bracket hmem => exact hd.elim
  | @sign c kind hmem =>
    have hkinds : ∀ entry ∈ Token.signs,
        entry.2 ≠ .assign ∧ (entry.2 = .divide → entry.1 = '/') := by
      decide
    obtain ⟨hassign, hdivide⟩ := hkinds _ hmem
    rcases hd with ⟨hkind, rfl⟩ | ⟨hkind, -⟩
    · obtain rfl := hdivide hkind
      exact ⟨_, .comment List.not_mem_nil⟩
    · exact absurd hkind hassign
  | assign =>
    rcases hd with ⟨hkind, -⟩ | ⟨-, rfl⟩
    · cases hkind
    · exact ⟨_, .equals⟩
  | equals => rcases hd with ⟨hkind, -⟩ | ⟨hkind, -⟩ <;> cases hkind

theorem Longest.stops (hlongest : Longest chars rest) (h : Spells l chars) :
    ∀ d ∈ rest.head?, ¬ l.GoesOn d := by
  intro d hd hgoes
  obtain ⟨rest, rfl⟩ := List.head?_eq_some_iff.mp hd
  obtain ⟨longer, hlonger⟩ := h.extend hgoes
  have hlength := hlongest longer _ hlonger ⟨rest, by simp⟩
  rw [List.length_append] at hlength
  exact Nat.not_succ_le_self _ hlength

/-- Reading stops at the end of a lexeme that does not go on, and finds its tokens. -/
theorem Spells.reading_eq (h : Spells l chars) (hstop : ∀ d ∈ rest.head?, ¬ l.GoesOn d) :
    ∃ found, reading (chars ++ rest) = ⟨chars, rest, found⟩ ∧
      ∀ before, found.tokens before = l.tokens before chars := by
  cases h with
  | blanks hne hchars =>
    refine ⟨.nothing, ?_, fun before => rfl⟩
    rw [reading_blanks rest hne hchars,
      span_eq _ rest hchars fun d hd => Bool.eq_false_iff.mpr (hstop d hd)]
  | @comment chars hchars =>
    have hnewline : ∀ d ∈ rest.head?, (d != '\n') = false := fun d hd =>
      bne_eq_false_iff_eq.mpr (not_not.mp (hstop d hd))
    refine ⟨.nothing, ?_, fun before => rfl⟩
    exact (reading_comment _).trans (span_eq _ rest (ne_newline_of_comment hchars) hnewline)
  | word hc hchars =>
    refine ⟨.ofWord _, ?_, fun before => rfl⟩
    exact (reading_word _ hc).trans (span_eq _ rest (continuesWord_of_word hc hchars)
      fun d hd => Bool.eq_false_iff.mpr (hstop d hd))
  | integer hne hdigits =>
    have hdigit : ∀ d ∈ rest.head?, Text.isDigit d = false := fun d hd =>
      Bool.eq_false_iff.mpr fun h => hstop d hd (.inl h)
    have hpoint : rest.head? ≠ some '.' := fun h => hstop '.' h (.inr rfl)
    refine ⟨Reading.integer chars, ?_, fun before => tokens_integer before chars⟩
    rw [reading_digits rest hne hdigits, number_integer rest hdigits hdigit hpoint]
  | @decimal digits fraction hne hdigits hfraction =>
    obtain ⟨htake, hdrop⟩ := takeWhile_append_of_head hfraction fun d hd =>
      Bool.eq_false_iff.mpr (hstop d hd)
    refine ⟨Reading.decimal (digits ++ '.' :: fraction), ?_, fun before => tokens_decimal before _⟩
    rw [List.append_assoc, List.cons_append, reading_digits _ hne hdigits,
      number_decimal _ hdigits, htake, hdrop]
  | @string chars meant hquotes =>
    refine ⟨.token .string (.str (String.ofList meant)), ?_, fun before => rfl⟩
    rw [List.cons_append, List.append_assoc, List.singleton_append, reading_quote,
      string_quotes hquotes]
  | bracket hmem => exact ⟨_, reading_bracket rest hmem, fun before => rfl⟩
  | @sign c kind hmem =>
    have hcomment : ¬ (c = '/' ∧ rest.head? = some '/') := by
      rintro ⟨rfl, hnext⟩
      have hkinds : ∀ entry ∈ Token.signs, entry.1 = '/' → entry.2 = .divide := by decide
      exact hstop '/' hnext (.inl ⟨hkinds _ hmem rfl, rfl⟩)
    exact ⟨_, reading_plain_sign rest hmem hcomment, fun before => rfl⟩
  | assign =>
    have hnext : rest.head? ≠ some '=' := fun h => hstop '=' h (.inr ⟨rfl, rfl⟩)
    exact ⟨_, reading_assign rest hnext, fun before => rfl⟩
  | equals => exact ⟨_, reading_equals rest, fun before => rfl⟩

end Lexical

namespace Scanner

open Lexical

/-- What a reading finds are the tokens of a lexeme with the characters that it takes. -/
def Reading.Spelled (r : Reading) : Prop :=
  ∀ before ts, r.found.tokens before = .ok ts →
    ∃ l, Spells l r.taken ∧ l.tokens before r.taken = .ok ts

theorem Reading.number_spelled {c : Char} {ahead : List Char} (hc : Text.isDigit c = true) :
    (Reading.number (c :: ahead)).Spelled := by
  have hne : (c :: ahead).takeWhile Text.isDigit ≠ [] := by
    rw [List.takeWhile_cons_of_pos hc]
    exact List.cons_ne_nil _ _
  have hwhole : ∀ d ∈ (c :: ahead).takeWhile Text.isDigit, Text.isDigit d = true :=
    fun d => List.mem_takeWhile_imp
  intro before ts h
  by_cases hpoint : ((c :: ahead).dropWhile Text.isDigit).head? = some '.'
  · obtain ⟨rest, hrest⟩ := List.head?_eq_some_iff.mp hpoint
    rw [number_of_point rest hrest] at h ⊢
    dsimp only at h ⊢
    refine ⟨.decimal, .decimal hne hwhole fun d => List.mem_takeWhile_imp, ?_⟩
    rw [← tokens_decimal]
    exact h
  · rw [number_of_no_point hpoint] at h ⊢
    dsimp only at h ⊢
    refine ⟨.integer, .integer hne hwhole, ?_⟩
    rw [← tokens_integer]
    exact h

theorem Reading.string_spelled (ahead : List Char) : (Reading.string ahead).Spelled := by
  intro before ts h
  rw [Reading.string] at h ⊢
  cases hleft : (inside ahead).left with
  | nil =>
    rw [hleft] at h
    cases h
  | cons c left =>
    rw [hleft] at h
    obtain rfl := inside_left_head ahead hleft
    exact ⟨_, .string (quotes_inside hleft), h⟩

theorem Reading.sign_spelled (c : Char) (ahead : List Char) : (Reading.sign c ahead).Spelled := by
  intro before ts h
  rw [Reading.sign] at h ⊢
  split at h
  · next hbracket => exact ⟨_, .bracket (mem_of_lookup hbracket), h⟩
  · next hsign => exact ⟨_, .sign (mem_of_lookup hsign), h⟩
  · split at h
    · next hc =>
      rw [if_pos hc]
      split at h
      · next hnext =>
        rw [if_pos hnext]
        exact ⟨_, .equals, h⟩
      · next hnext =>
        rw [if_neg hnext]
        exact ⟨_, .assign, h⟩
    · cases h

theorem reading_spelled (c : Char) (ahead : List Char) : (reading (c :: ahead)).Spelled := by
  rw [reading]
  split
  · next hc =>
    intro before ts h
    rw [Reading.span, List.takeWhile_cons_of_pos hc] at h ⊢
    refine ⟨.blanks, .blanks (List.cons_ne_nil _ _) ?_, h⟩
    exact List.forall_mem_cons.mpr ⟨hc, fun d => List.mem_takeWhile_imp⟩
  split
  · next hcomment =>
    obtain ⟨rfl, hnext⟩ := hcomment
    obtain ⟨ahead, rfl⟩ := List.head?_eq_some_iff.mp hnext
    refine fun before ts h => ⟨.comment, .comment fun hmem => ?_, h⟩
    exact absurd (List.mem_takeWhile_imp hmem) (by decide)
  split
  · next hc =>
    intro before ts h
    rw [Reading.span, List.takeWhile_cons_of_pos (continuesWord_of_beginsWord hc)] at h ⊢
    exact ⟨.word, .word hc fun d => List.mem_takeWhile_imp, h⟩
  split
  · next hc => exact Reading.number_spelled hc
  split
  · exact Reading.string_spelled ahead
  · exact Reading.sign_spelled c ahead

theorem Lexes.splits {before ahead : List Char} {ts : List Token} (h : Lexes before ahead ts) :
    Splits before ahead ts := by
  induction h with
  | nil before => exact .nil before
  | @cons before ahead c ts ts' hfound _ ih =>
    obtain ⟨l, hspells, htokens⟩ := reading_spelled c ahead before ts hfound
    have hsplits := Splits.cons hspells (longest_taken (c :: ahead)) htokens ih
    rwa [taken_append_left] at hsplits

theorem Lexes.of_splits {before ahead : List Char} {ts : List Token} (h : Splits before ahead ts) :
    Lexes before ahead ts := by
  induction h with
  | nil before => exact .nil before
  | @cons l before chars rest ts ts' hspells hlongest htokens _ ih =>
    obtain ⟨found, hreading, hfound⟩ := hspells.reading_eq (hlongest.stops hspells)
    obtain ⟨c, ahead, rfl⟩ := List.exists_cons_of_ne_nil hspells.ne_nil
    rw [List.cons_append] at hreading ⊢
    refine .cons ?_ ?_
    · rw [hreading, hfound, htokens]
    · rwa [hreading]

end Scanner

/-- The kind of the token of a lexeme, if it has one. -/
def Lexical.kindOf (chars : List Char) : Lexical → Option Token.Kind
  | blanks => none
  | comment => none
  | word => some ((Token.keywords.lookup (String.ofList chars)).getD .identifier)
  | integer => some .number
  | decimal => some .float
  | string _ => some .string
  | bracket kind => some kind
  | sign kind => some kind

theorem Token.isOf_of_mem_read {α : Type} {kind : Token.Kind} {value : α → Value}
    {read : Except Fault α} {ts : List Token}
    (hts : (fun a => [Token.plain kind (value a)]) <$> read = .ok ts) {t : Token} (ht : t ∈ ts) :
    t.isOf kind = true := by
  cases read with
  | error fault => cases hts
  | ok a =>
    cases hts
    exact List.mem_singleton.mp ht ▸ Token.isOf_plain _ _

theorem Lexical.isOf_kindOf {l : Lexical} {before chars : List Char} {ts : List Token} {t : Token}
    (hts : l.tokens before chars = .ok ts) (ht : t ∈ ts) :
    ∃ kind, l.kindOf chars = some kind ∧ t.isOf kind = true := by
  cases l with
  | integer => exact ⟨_, rfl, Token.isOf_of_mem_read hts ht⟩
  | decimal => exact ⟨_, rfl, Token.isOf_of_mem_read hts ht⟩
  | blanks =>
    cases hts
    cases ht
  | comment =>
    cases hts
    cases ht
  | bracket kind =>
    cases hts
    exact ⟨_, rfl, List.mem_singleton.mp ht ▸ Token.isOf_iff.mpr rfl⟩
  | _ =>
    cases hts
    exact ⟨_, rfl, List.mem_singleton.mp ht ▸ Token.isOf_plain _ _⟩

/-- A source has tokens exactly if it is a sequence of longest lexemes with these tokens. -/
theorem Token.ofSource_ok_iff_splits (source : String) (ts : List Token) :
    Token.ofSource source = .ok ts ↔ Lexical.Splits [] source.toList ts :=
  Token.ofSource_ok_iff.trans ⟨Scanner.Lexes.splits, Scanner.Lexes.of_splits⟩

end Scriptlet
