import Scriptlet.Proofs.Joining
import Scriptlet.Proofs.Numerals

/-! Where reading a source fails. It fails at a character that begins no lexeme, at a string literal
that is never closed, and at a run of digits that is no number: one with a digit that is no decimal,
or with more decimals than are read. -/
namespace Scriptlet

namespace Lexical

/-- A longest run of digits, alone or with a point and further digits, what is behind it, and its
token. -/
inductive NumberAt : List Char → List Char → Except Fault Token → Prop
  | integer {digits rest : List Char} : digits ≠ [] → (∀ c ∈ digits, Text.isDigit c = true) →
      (∀ c ∈ rest.head?, Text.isDigit c = false ∧ c ≠ '.') →
      NumberAt digits rest (integerToken digits)
  | decimal {whole fraction rest : List Char} : whole ≠ [] →
      (∀ c ∈ whole, Text.isDigit c = true) → (∀ c ∈ fraction, Text.isDigit c = true) →
      (∀ c ∈ rest.head?, Text.isDigit c = false) →
      NumberAt (whole ++ '.' :: fraction) rest (decimalToken whole fraction)

/-- Behind the first characters of the source, which are longest lexemes with the tokens, the others
are ahead. -/
inductive Reaches (source : List Char) : List Char → List Char → List Token → Prop
  | start : Reaches source [] source []
  | step {l : Lexical} {before chars rest : List Char} {ts ts' : List Token} :
      Reaches source before (chars ++ rest) ts → Spells l chars → Longest chars rest →
      l.tokens before chars = .ok ts' → Reaches source (before ++ chars) rest (ts ++ ts')

/-- The fault of the characters ahead, and the scanner that is left. -/
inductive FailsAt (before : List Char) : List Char → Fault → Scanner → Prop
  | unrecognized {c : Char} {rest : List Char} : (∀ l chars, ¬ Spells l (c :: chars)) →
      FailsAt before (c :: rest)
        (.unrecognized c before.length (Scanner.lineAfter before) (Scanner.columnAfter before))
        (.between before (c :: rest))
  | unclosed {rest : List Char} :
      (∀ chars meant behind, Quotes chars meant → rest ≠ chars ++ Text.doubleQuote :: behind) →
      FailsAt before (Text.doubleQuote :: rest) .unclosedString
        (.between (before ++ Text.doubleQuote :: rest) [])
  | number {chars rest : List Char} {fault : Fault} : NumberAt chars rest (.error fault) →
      FailsAt before (chars ++ rest) fault (.between (before ++ chars) rest)

open Scanner

section Lexeme

variable {l : Lexical} {c : Char} {before chars rest : List Char} {fault : Fault}

theorem NumberAt.spells {token : Except Fault Token} (h : NumberAt chars rest token) :
    ∃ l, Spells l chars ∧ (∀ d ∈ rest.head?, ¬ l.GoesOn d) ∧
      ∀ before, l.tokens before chars = (fun t => [t]) <$> token := by
  cases h with
  | integer hne hdigits hrest =>
    refine ⟨.integer, .integer hne hdigits, fun d hd hgoes => ?_, fun before => ?_⟩
    · obtain ⟨hdigit, hpoint⟩ := hrest d hd
      rcases hgoes with hgoes | hgoes
      · exact Bool.eq_false_iff.mp hdigit hgoes
      · exact hpoint hgoes
    · rw [← Decimal.readInteger_digits hne hdigits, tokens]
      cases Decimal.readInteger (String.ofList chars) <;> rfl
  | @decimal whole fraction _ hne hwhole hfraction hrest =>
    refine ⟨.decimal, .decimal hne hwhole hfraction,
      fun d hd => Bool.eq_false_iff.mp (hrest d hd), fun before => ?_⟩
    rw [← Decimal.readFloat_digits hne hwhole hfraction, tokens]
    cases Decimal.readFloat (String.ofList (whole ++ '.' :: fraction)) <;> rfl

theorem NumberAt.reading_eq {token : Except Fault Token} (h : NumberAt chars rest token) :
    ∃ found, reading (chars ++ rest) = ⟨chars, rest, found⟩ ∧
      ∀ before, found.tokens before = (fun t => [t]) <$> token := by
  obtain ⟨l, hspells, hstop, htokens⟩ := h.spells
  obtain ⟨found, hreading, hfound⟩ := hspells.reading_eq hstop
  exact ⟨found, hreading, fun before => (hfound before).trans (htokens before)⟩

theorem head?_dropWhile_eq_false {p : Char → Bool} {d : Char}
    (hd : d ∈ (chars.dropWhile p).head?) : p d = false := by
  have hnot := List.head?_dropWhile_not p chars
  rwa [hd] at hnot

/-- Where a digit is ahead a number is. -/
theorem exists_numberAt (hc : Text.isDigit c = true) (ahead : List Char) :
    ∃ chars rest token, c :: ahead = chars ++ rest ∧ NumberAt chars rest token := by
  have hne : (c :: ahead).takeWhile Text.isDigit ≠ [] := by
    rw [List.takeWhile_cons_of_pos hc]
    exact List.cons_ne_nil _ _
  have hwhole : ∀ d ∈ (c :: ahead).takeWhile Text.isDigit, Text.isDigit d = true :=
    fun d => List.mem_takeWhile_imp
  by_cases hpoint : ((c :: ahead).dropWhile Text.isDigit).head? = some '.'
  · obtain ⟨rest, hrest⟩ := List.head?_eq_some_iff.mp hpoint
    refine ⟨_, rest.dropWhile Text.isDigit, _, ?_, .decimal hne hwhole
      (fun d => List.mem_takeWhile_imp (l := rest)) fun d => head?_dropWhile_eq_false⟩
    rw [List.append_assoc, List.cons_append, List.takeWhile_append_dropWhile, ← hrest,
      List.takeWhile_append_dropWhile]
  · refine ⟨_, _, _, List.takeWhile_append_dropWhile.symm, .integer hne hwhole fun d hd => ?_⟩
    refine ⟨head?_dropWhile_eq_false hd, ?_⟩
    rintro rfl
    exact hpoint hd

/-- A lexeme of a single character begins where any lexeme but a string literal does. -/
theorem Spells.first (h : Spells l (c :: chars)) :
    (∃ l', Spells l' [c]) ∨ c = Text.doubleQuote := by
  generalize hall : c :: chars = all at h
  cases h with
  | blanks _ hchars =>
    subst hall
    exact .inl ⟨_, .blanks (List.cons_ne_nil _ _)
      (List.forall_mem_singleton.mpr (hchars c List.mem_cons_self))⟩
  | comment _ =>
    obtain ⟨rfl, -⟩ := List.cons.inj hall
    exact .inl ⟨.sign .divide, .sign (by decide)⟩
  | word hc _ =>
    obtain ⟨rfl, -⟩ := List.cons.inj hall
    exact .inl ⟨_, .word hc (List.forall_mem_nil _)⟩
  | integer _ hdigits =>
    subst hall
    exact .inl ⟨_, .integer (List.cons_ne_nil _ _)
      (List.forall_mem_singleton.mpr (hdigits c List.mem_cons_self))⟩
  | @decimal digits fraction hne hdigits _ =>
    obtain ⟨d, digits, rfl⟩ := List.exists_cons_of_ne_nil hne
    obtain ⟨rfl, -⟩ := List.cons.inj hall
    exact .inl ⟨_, .integer (List.cons_ne_nil _ _)
      (List.forall_mem_singleton.mpr (hdigits c List.mem_cons_self))⟩
  | string _ => exact .inr (List.cons.inj hall).1
  | bracket hmem =>
    obtain ⟨rfl, -⟩ := List.cons.inj hall
    exact .inl ⟨_, .bracket hmem⟩
  | sign hmem =>
    obtain ⟨rfl, -⟩ := List.cons.inj hall
    exact .inl ⟨_, .sign hmem⟩
  | assign =>
    obtain ⟨rfl, -⟩ := List.cons.inj hall
    exact .inl ⟨_, .assign⟩
  | equals =>
    obtain ⟨rfl, -⟩ := List.cons.inj hall
    exact .inl ⟨_, .assign⟩

/-- A character that begins no lexeme is left where it stands. -/
theorem reading_unrecognized (h : ∀ l chars, ¬ Spells l (c :: chars)) (ahead : List Char) :
    reading (c :: ahead) = ⟨[], c :: ahead, .unrecognized c⟩ := by
  have hblank : ¬ Text.isBlank c = true := fun hc =>
    h _ [] (.blanks (List.cons_ne_nil _ _) (List.forall_mem_singleton.mpr hc))
  have hslash : ¬ (c = '/' ∧ ahead.head? = some '/') := by
    rintro ⟨rfl, -⟩
    exact h _ _ (.comment List.not_mem_nil)
  have hword : ¬ beginsWord c = true := fun hc => h _ [] (.word hc (List.forall_mem_nil _))
  have hdigit : ¬ Text.isDigit c = true := fun hc =>
    h _ [] (.integer (List.cons_ne_nil _ _) (List.forall_mem_singleton.mpr hc))
  have hquote : c ≠ Text.doubleQuote := by
    rintro rfl
    exact h _ _ (.string .nil)
  have hbracket : Token.brackets.lookup c = none :=
    Option.eq_none_iff_forall_ne_some.mpr fun kind hkind => h _ _ (.bracket (mem_of_lookup hkind))
  have hsign : Token.signs.lookup c = none :=
    Option.eq_none_iff_forall_ne_some.mpr fun kind hkind => h _ _ (.sign (mem_of_lookup hkind))
  have hequals : c ≠ '=' := by
    rintro rfl
    exact h _ _ .assign
  rw [reading, if_neg hblank, if_neg hslash, if_neg hword, if_neg hdigit, if_neg hquote,
    Reading.sign, hbracket, hsign]
  exact if_neg hequals

theorem inside_left_eq_nil_iff :
    (inside rest).left = [] ↔
      ∀ chars meant behind, Quotes chars meant → rest ≠ chars ++ Text.doubleQuote :: behind := by
  constructor
  · rintro h chars meant behind hquotes rfl
    rw [inside_quotes hquotes] at h
    cases h
  · intro h
    cases hleft : (inside rest).left with
    | nil => rfl
    | cons d left =>
      obtain rfl := inside_left_head rest hleft
      refine absurd ?_ (h _ _ left (quotes_inside hleft))
      rw [← hleft, inside_taken_append_left]

theorem string_of_left_nil (h : (inside rest).left = []) :
    Reading.string rest = ⟨Text.doubleQuote :: rest, [], .flaw .unclosedString⟩ := by
  have htaken := inside_taken_append_left rest
  rw [h, List.append_nil] at htaken
  rw [Reading.string, h, htaken]

theorem FailsAt.reading_eq {ahead : List Char} {s : Scanner} (h : FailsAt before ahead fault s) :
    ∃ c rest, ahead = c :: rest ∧ (reading ahead).found.tokens before = .error fault ∧
      s = between (before ++ (reading ahead).taken) (reading ahead).left := by
  cases h with
  | unrecognized hnone =>
    refine ⟨_, _, rfl, ?_⟩
    rw [reading_unrecognized hnone, List.append_nil]
    exact ⟨rfl, rfl⟩
  | @unclosed rest hopen =>
    refine ⟨_, rest, rfl, ?_⟩
    rw [reading_quote, string_of_left_nil (inside_left_eq_nil_iff.mpr hopen)]
    exact ⟨rfl, rfl⟩
  | @number chars rest _ hnumber =>
    obtain ⟨l, hspells, -⟩ := hnumber.spells
    obtain ⟨found, hreading, hfound⟩ := hnumber.reading_eq
    obtain ⟨c, chars, rfl⟩ := List.exists_cons_of_ne_nil hspells.ne_nil
    refine ⟨c, chars ++ rest, rfl, ?_⟩
    rw [hreading]
    exact ⟨hfound before, rfl⟩

theorem failsAt_sign {ahead : List Char} (hreading : reading (c :: ahead) = .sign c ahead)
    (hquote : c ≠ Text.doubleQuote)
    (h : (Reading.sign c ahead).found.tokens before = .error fault) :
    FailsAt before (c :: ahead) fault
      (between (before ++ (Reading.sign c ahead).taken) (Reading.sign c ahead).left) := by
  have hfound : Reading.sign c ahead = ⟨[], c :: ahead, .unrecognized c⟩ := by
    rw [Reading.sign] at h ⊢
    split at h
    · cases h
    · cases h
    · split at h
      · split at h <;> cases h
      · next hequals => exact if_neg hequals
  have hnone : ∀ l chars, ¬ Spells l (c :: chars) := by
    intro l chars hspells
    rcases hspells.first with ⟨l', hfirst⟩ | hc
    · -- a lexeme of this character alone would be read here
      have hlength := hfirst.length_le_taken ahead
      rw [List.singleton_append, hreading, hfound] at hlength
      cases hlength
    · exact hquote hc
  rw [hfound] at h ⊢
  cases h
  rw [List.append_nil]
  exact .unrecognized hnone

theorem failsAt_of_error {ahead : List Char}
    (h : (reading (c :: ahead)).found.tokens before = .error fault) :
    FailsAt before (c :: ahead) fault
      (between (before ++ (reading (c :: ahead)).taken) (reading (c :: ahead)).left) := by
  by_cases hdigit : Text.isDigit c = true
  · obtain ⟨chars, rest, token, hall, hnumber⟩ := exists_numberAt hdigit ahead
    obtain ⟨found, hreading, hfound⟩ := hnumber.reading_eq
    rw [hall, hreading] at h ⊢
    rw [hfound] at h
    cases token with
    | ok token => cases h
    | error other =>
      cases h
      exact .number hnumber
  by_cases hquote : c = Text.doubleQuote
  · subst hquote
    rw [reading_quote] at h ⊢
    cases hleft : (inside ahead).left with
    | nil =>
      rw [string_of_left_nil hleft] at h ⊢
      cases h
      exact .unclosed (inside_left_eq_nil_iff.mp hleft)
    | cons d left =>
      rw [Reading.string, hleft] at h
      cases h
  by_cases hblank : Text.isBlank c = true
  · rw [reading, if_pos hblank] at h
    cases h
  by_cases hcomment : c = '/' ∧ ahead.head? = some '/'
  · rw [reading, if_neg hblank, if_pos hcomment] at h
    cases h
  by_cases hword : beginsWord c = true
  · rw [reading_word ahead hword] at h
    cases h
  have hreading : reading (c :: ahead) = .sign c ahead := by
    rw [reading, if_neg hblank, if_neg hcomment, if_neg hword, if_neg hdigit, if_neg hquote]
  rw [hreading] at h ⊢
  exact failsAt_sign hreading hquote h

end Lexeme

section Source

variable {source before ahead : List Char} {ts : List Token} {fault : Fault} {s : Scanner}

/-- Reading goes on with what is ahead. -/
theorem Reaches.run_lexemes (h : Reaches source before ahead ts) :
    lexemes.run (between [] source) = (do return ts ++ (← lexemes)).run (between before ahead) := by
  induction h with
  | start =>
    rw [EStateM.run_bind]
    cases lexemes.run (between [] source) <;> rfl
  | @step l before chars rest ts ts' _ hspells hlongest htokens ih =>
    obtain ⟨found, hreading, hfound⟩ := hspells.reading_eq (hlongest.stops hspells)
    obtain ⟨c, chars, rfl⟩ := List.exists_cons_of_ne_nil hspells.ne_nil
    rw [List.cons_append] at hreading ih
    have hok : (reading (c :: (chars ++ rest))).found.tokens before = .ok ts' := by
      rw [hreading, hfound, htokens]
    rw [ih, EStateM.run_bind, lexemes_of_ok hok, hreading, EStateM.run_bind, EStateM.run_bind]
    dsimp only
    cases lexemes.run (between (before ++ c :: chars) rest) with
    | ok rest u => simp
    | error fault u => rfl

theorem Reaches.lexeme {c : Char} (h : Reaches source before (c :: ahead) ts) {ts' : List Token}
    (hok : (reading (c :: ahead)).found.tokens before = .ok ts') :
    Reaches source (before ++ (reading (c :: ahead)).taken) (reading (c :: ahead)).left
      (ts ++ ts') := by
  obtain ⟨l, hspells, htokens⟩ := reading_spelled c ahead before ts' hok
  rw [← taken_append_left (c :: ahead)] at h
  exact h.step hspells (longest_taken (c :: ahead)) htokens

/-- A number with a token is passed. -/
theorem Reaches.number {chars rest : List Char} {token : Token}
    (h : Reaches source before (chars ++ rest) ts) (hnumber : NumberAt chars rest (.ok token)) :
    Reaches source (before ++ chars) rest (ts ++ [token]) := by
  obtain ⟨l, hspells, -⟩ := hnumber.spells
  obtain ⟨found, hreading, hfound⟩ := hnumber.reading_eq
  obtain ⟨c, chars, rfl⟩ := List.exists_cons_of_ne_nil hspells.ne_nil
  rw [List.cons_append] at hreading h
  have hlexeme := h.lexeme (by rw [hreading]; exact hfound before)
  rwa [hreading] at hlexeme

theorem exists_failsAt (h : lexemes.run (between before ahead) = .error fault s)
    (hreaches : Reaches source before ahead ts) :
    ∃ before ahead ts, Reaches source before ahead ts ∧ FailsAt before ahead fault s := by
  induction hn : ahead.length using Nat.strong_induction_on generalizing before ahead ts with
  | _ n ih =>
    cases ahead with
    | nil =>
      rw [lexemes_nil] at h
      cases h
    | cons c ahead =>
      cases hts : (reading (c :: ahead)).found.tokens before with
      | error other =>
        rw [lexemes_of_error hts] at h
        cases h
        exact ⟨before, c :: ahead, ts, hreaches, failsAt_of_error hts⟩
      | ok ts' =>
        rw [lexemes_of_ok hts] at h
        obtain h | ⟨a, u, -, h⟩ := run_bind_error_iff.mp h
        · exact ih _ (hn ▸ left_length_lt hts) h (hreaches.lexeme hts) rfl
        · cases h

/-- Lexemes up to the end are passed. -/
theorem Reaches.lexes (h : Reaches source before ahead ts) {ts' : List Token}
    (hlexes : Lexes before ahead ts') : Reaches source (before ++ ahead) [] (ts ++ ts') := by
  induction hlexes generalizing ts with
  | nil before => rwa [List.append_nil, List.append_nil]
  | cons hts _ ih =>
    have hrest := ih (h.lexeme hts)
    rwa [append_taken_append_left, List.append_assoc] at hrest

end Source

end Lexical

namespace Scanner

open Lexical

/-- A source has tokens exactly if all of it is passed, and it fails exactly where a character
begins no lexeme, a string literal is never closed or a run of digits is no number, with the fault
of that place. A run of digits that is a number has the token of its value. -/
theorem tokenize_error_iff (source : String) :
    (∀ ts s, (tokenize none).run (ofSource source) = .ok ts s ↔
      Reaches source.toList source.toList [] ts ∧ s = between source.toList []) ∧
    (∀ fault s, (tokenize none).run (ofSource source) = .error fault s ↔
      ∃ before ahead ts, Reaches source.toList before ahead ts ∧ FailsAt before ahead fault s) ∧
    (∀ before chars rest ts token, Reaches source.toList before (chars ++ rest) ts →
      NumberAt chars rest (.ok token) →
      Reaches source.toList (before ++ chars) rest (ts ++ [token])) ∧
    (∀ c position line column, (Fault.unrecognized c position line column).message =
      s!"Unrecognized character: '{c}' at position {position}, line {line}, column {column}") ∧
    Fault.unclosedString.message = "Unclosed string literal" := by
  refine ⟨fun ts s => ?_, fun fault s => ?_, fun before chars rest ts token => Reaches.number,
    fun c position line column => rfl, rfl⟩
  · rw [run_tokenize_none]
    constructor
    · intro h
      obtain ⟨hlexes, rfl⟩ := lexemes_ok_iff.mp h
      exact ⟨Reaches.start.lexes hlexes, rfl⟩
    · rintro ⟨h, rfl⟩
      rw [h.run_lexemes, run_bind_of_ok (lexemes_nil _), List.append_nil]
      rfl
  · rw [run_tokenize_none]
    constructor
    · intro h
      exact exists_failsAt h .start
    · rintro ⟨before, ahead, ts, hreaches, hfails⟩
      obtain ⟨c, rest, rfl, herror, rfl⟩ := hfails.reading_eq
      rw [hreaches.run_lexemes, EStateM.run_bind, lexemes_of_error herror]

/-- A superscript is a digit and no decimal: a number before it is read, and it makes none of the
number that it ends. -/
theorem tokenize_error_iff_superscript :
    ∃ s, (tokenize none).run (ofSource "7 ٣²") = .error (.notInteger "٣²") s ∧
      (∃ before ahead ts, Reaches "7 ٣²".toList before ahead ts ∧
        FailsAt before ahead (.notInteger "٣²") s) ∧
      Reaches "7 ٣²".toList ['7'] [' ', '٣', '²'] [.plain .number (.int 7)] := by
  have hfault : faultOf? ((tokenize none).run (ofSource "7 ٣²")) = some (.notInteger "٣²") := by
    decide +kernel
  obtain ⟨s, hs⟩ := exists_error_of_faultOf? hfault
  have hseven : NumberAt ['7'] [' ', '٣', '²'] (.ok (.plain .number (.int 7))) := by
    refine .integer (List.cons_ne_nil _ _) (List.forall_mem_singleton.mpr rfl) ?_
    rintro _ ⟨⟩
    exact ⟨rfl, by decide⟩
  obtain ⟨-, hfails, hnumber, -⟩ := tokenize_error_iff "7 ٣²"
  exact ⟨s, hs, (hfails _ s).mp hs, hnumber [] _ _ [] _ .start hseven⟩

/-- A digit that is no decimal makes a source fail in a third way. -/
theorem not_fails_in_two_ways :
    ¬ ∀ (source : String) (fault : Fault) (s : Scanner),
      (tokenize none).run (ofSource source) = .error fault s →
        fault = .unclosedString ∨
          ∃ c position line column, fault = .unrecognized c position line column := by
  intro h
  have hfault : faultOf? ((tokenize none).run (ofSource "²")) = some (.notInteger "²") := by
    decide +kernel
  obtain ⟨s, hs⟩ := exists_error_of_faultOf? hfault
  obtain heq | ⟨c, position, line, column, heq⟩ := h _ _ s hs
  · cases heq
  · cases heq

end Scanner

end Scriptlet
