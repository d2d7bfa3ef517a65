import Scriptlet.Proofs.Lexical

/-! The numbers that runs of digits are read as. The digits are those of all scripts and also
superscripts and the like, which have no value in a positional system: a run has a token exactly if
all of its digits are decimals, and, if it is an integer, if it is not too long. -/
namespace Scriptlet

/-- Whether a digit has a value in a positional system. -/
def Text.isDecimal (c : Char) : Bool :=
  (decimalValue? c).isSome

/-- The values of decimals. -/
def Decimal.values (decimals : List Char) : List Nat :=
  decimals.filterMap Text.decimalValue?

namespace Lexical

/-- The token of a run of digits. The decimals in front are counted before a digit that is none is
found. -/
def integerToken (digits : List Char) : Except Fault Token :=
  let decimals := digits.takeWhile Text.isDecimal
  if Decimal.maxDigits < decimals.length then .error (.digitsToRead decimals.length)
  else if digits.all Text.isDecimal then
    .ok (.plain .number (.int (Decimal.ofDigits (Decimal.values digits))))
  else .error (.notInteger (String.ofList digits))

/-- The token of two runs of digits with a point between them. -/
def decimalToken (whole fraction : List Char) : Except Fault Token :=
  if (whole ++ fraction).all Text.isDecimal then
    .ok (.plain .float (.float
      (Decimal.Numeral.toFloat ⟨Decimal.values whole, Decimal.values fraction, 0⟩)))
  else .error (.notDecimal (String.ofList (whole ++ '.' :: fraction)))

end Lexical

namespace Decimal

open Text

section Char

variable {c : Char}

/-- The plain digits are the only digits among the plain characters. -/
theorem isDigit_plain_of_lt (h : Text.isDigit c = true) (hlt : c.toNat < 127) :
    c.isDigit = true := by
  have hplain : ∀ n < 127, Text.isDigit (Char.ofNat n) = true →
      (Char.ofNat n).isDigit = true := by
    decide +kernel
  have hc := hplain c.toNat hlt
  rw [Char.ofNat_toNat] at hc
  exact hc h

theorem decimalValue?_plain (h : c.isDigit = true) : decimalValue? c = some (c.toNat - 48) := by
  obtain ⟨hlow, hhigh⟩ := toNat_of_isDigit h
  rw [decimalValue?, decimalRanges, Ranges.startOf?, if_neg (by omega), if_pos hhigh,
    Option.map_some, Nat.mod_eq_of_lt (by omega)]

theorem decimalValue?_lt {value : Nat} (h : decimalValue? c = some value) : value < 10 := by
  obtain ⟨start, -, rfl⟩ := Option.map_eq_some_iff.mp h
  exact Nat.mod_lt _ (by decide)

/-- A decimal becomes the plain digit of its value. -/
theorem plainChar_of_decimal (h : Text.isDigit c = true) {value : Nat}
    (hvalue : decimalValue? c = some value) :
    (plainChar c).isDigit = true ∧ (plainChar c).toNat - 48 = value := by
  have hdigits : ∀ digit < 10, (Char.ofNat (48 + digit)).isDigit = true ∧
      (Char.ofNat (48 + digit)).toNat - 48 = digit := by decide
  by_cases hlt : c.toNat < 127
  · have hc := isDigit_plain_of_lt h hlt
    rw [plainChar_of_isDigit hc]
    rw [decimalValue?_plain hc, Option.some_inj] at hvalue
    exact ⟨hc, hvalue⟩
  · rw [plainChar, if_neg hlt, if_neg (by simp [not_isBlank_of_isDigit h]), hvalue]
    exact hdigits value (decimalValue?_lt hvalue)

theorem plainChar_of_not_decimal (h : Text.isDigit c = true) (hvalue : isDecimal c = false) :
    plainChar c = '?' := by
  rw [isDecimal, Option.isSome_eq_false_iff, Option.isNone_iff_eq_none] at hvalue
  have hlt : ¬ c.toNat < 127 := by
    intro hlt
    rw [decimalValue?_plain (isDigit_plain_of_lt h hlt)] at hvalue
    cases hvalue
  rw [plainChar, if_neg hlt, if_neg (by simp [not_isBlank_of_isDigit h]), hvalue]

theorem plainChar_cases (h : Text.isDigit c = true) :
    (plainChar c).isDigit = true ∨ plainChar c = '?' := by
  cases hvalue : decimalValue? c with
  | some value => exact .inl (plainChar_of_decimal h hvalue).1
  | none => exact .inr (plainChar_of_not_decimal h (by rw [isDecimal, hvalue]; rfl))

end Char

section Run

variable {digits rest : List Char}

/-- The first digit that is no decimal, if there is one. -/
theorem exists_not_decimal (h : ¬ digits.all isDecimal = true) :
    ∃ decimals c others, digits = decimals ++ c :: others ∧
      (∀ d ∈ decimals, isDecimal d = true) ∧ isDecimal c = false := by
  have hsome : (digits.find? (!isDecimal ·)).isSome := by
    simpa using h
  obtain ⟨c, hfind⟩ := Option.isSome_iff_exists.mp hsome
  obtain ⟨hc, decimals, others, hdigits, hdecimals⟩ := List.find?_eq_some_iff_append.mp hfind
  exact ⟨decimals, c, others, hdigits, by simpa using hdecimals, by simpa using hc⟩

theorem isDigit_plainChars (hdigits : ∀ c ∈ digits, Text.isDigit c = true)
    (hdecimals : ∀ c ∈ digits, isDecimal c = true) :
    ∀ c ∈ digits.map plainChar, c.isDigit = true := by
  intro d hd
  obtain ⟨c, hc, rfl⟩ := List.mem_map.mp hd
  obtain ⟨value, hvalue⟩ := Option.isSome_iff_exists.mp (hdecimals c hc)
  exact (plainChar_of_decimal (hdigits c hc) hvalue).1

theorem values_plainChars (hdigits : ∀ c ∈ digits, Text.isDigit c = true)
    (hdecimals : ∀ c ∈ digits, isDecimal c = true) :
    (digits.map plainChar).map (fun c => c.toNat - 48) = values digits := by
  induction digits with
  | nil => rfl
  | cons c digits ih =>
    rw [List.forall_mem_cons] at hdigits hdecimals
    obtain ⟨value, hvalue⟩ := Option.isSome_iff_exists.mp hdecimals.1
    rw [List.map_cons, List.map_cons, ih hdigits.2 hdecimals.2,
      (plainChar_of_decimal hdigits.1 hvalue).2, values, values, List.filterMap_cons_some hvalue]

theorem length_values (hdigits : ∀ c ∈ digits, Text.isDigit c = true)
    (hdecimals : ∀ c ∈ digits, isDecimal c = true) : (values digits).length = digits.length := by
  rw [← values_plainChars hdigits hdecimals, List.length_map, List.length_map]

theorem signed_plainChars {c : Char} (hc : Text.isDigit c = true) (rest : List Char) :
    signed ((plainChar c :: rest).dropWhile isOuterBlank) = (false, plainChar c :: rest) := by
  rcases plainChar_cases hc with hc | hc
  · exact signed_digits hc
  · rw [hc]
    rfl

/-- Digits in front are read whatever follows them. -/
theorem digitRun?_append (hdigits : ∀ c ∈ digits, c.isDigit = true) {more : List Nat}
    {others : List Char} (hrest : digitRun? false rest = some (more, others)) :
    digitRun? false (digits ++ rest) =
      some (digits.map (fun c => c.toNat - 48) ++ more, others) := by
  induction digits with
  | nil => exact hrest
  | cons c digits ih =>
    rw [List.forall_mem_cons] at hdigits
    rw [List.cons_append, digitRun?, if_pos hdigits.1, ih hdigits.2]
    rfl

theorem digitRun?_needed (hne : digits ≠ []) (hdigits : ∀ c ∈ digits, c.isDigit = true)
    (rest : List Char) : digitRun? true (digits ++ rest) = digitRun? false (digits ++ rest) := by
  obtain ⟨c, digits, rfl⟩ := List.exists_cons_of_ne_nil hne
  have hc := hdigits c List.mem_cons_self
  rw [List.cons_append, digitRun?, digitRun?, if_pos hc, if_pos hc]

/-- An integer is as long as its run of digits. -/
theorem readInteger_of_run (hne : digits ≠ []) (hdigits : ∀ c ∈ digits, Text.isDigit c = true)
    {run : List Nat} {others : List Char}
    (hrun : digitRun? true (digits.map plainChar) = some (run, others)) :
    readInteger (String.ofList digits) =
      if maxDigits < run.length then .error (.digitsToRead run.length)
      else if others.all isOuterBlank then .ok (ofDigits run : Int)
      else .error (.notInteger (String.ofList digits)) := by
  obtain ⟨c, digits, rfl⟩ := List.exists_cons_of_ne_nil hne
  have hsigned := signed_plainChars (hdigits c List.mem_cons_self) (digits.map plainChar)
  rw [List.map_cons] at hrun
  rw [readInteger, String.toList_ofList, List.map_cons, hsigned]
  simp only [hrun]
  rfl

theorem readInteger_of_decimals (hne : digits ≠ [])
    (hdigits : ∀ c ∈ digits, Text.isDigit c = true)
    (hdecimals : ∀ c ∈ digits, isDecimal c = true) :
    readInteger (String.ofList digits) =
      if maxDigits < digits.length then .error (.digitsToRead digits.length)
      else .ok (ofDigits (values digits) : Int) := by
  have hplain := isDigit_plainChars hdigits hdecimals
  have hrun : digitRun? true (digits.map plainChar) = some (values digits, []) := by
    rw [← values_plainChars hdigits hdecimals, ← digitRun?_digits hplain]
    have hneeded := digitRun?_needed (by simpa using hne) hplain []
    rwa [List.append_nil] at hneeded
  rw [readInteger_of_run hne hdigits hrun, length_values hdigits hdecimals]
  rfl

theorem readInteger_of_not_decimal {decimals others : List Char} {c : Char}
    (hdigits : ∀ d ∈ decimals ++ c :: others, Text.isDigit d = true)
    (hdecimals : ∀ d ∈ decimals, isDecimal d = true) (hc : isDecimal c = false) :
    readInteger (String.ofList (decimals ++ c :: others)) =
      if maxDigits < decimals.length then .error (.digitsToRead decimals.length)
      else .error (.notInteger (String.ofList (decimals ++ c :: others))) := by
  obtain ⟨hfront, hback⟩ := List.forall_mem_append.mp hdigits
  have hmark := plainChar_of_not_decimal (hback c List.mem_cons_self) hc
  by_cases hne : decimals = []
  · -- no digit at the beginning, where one is needed
    subst hne
    have hsigned := signed_plainChars (hback c List.mem_cons_self) (others.map plainChar)
    rw [hmark] at hsigned
    rw [readInteger, List.nil_append, String.toList_ofList, List.map_cons, hmark, hsigned]
    rfl
  · have hplain := isDigit_plainChars hfront hdecimals
    have hrun : digitRun? true ((decimals ++ c :: others).map plainChar) =
        some (values decimals, '?' :: others.map plainChar) := by
      have hrest : digitRun? false ('?' :: others.map plainChar) =
          some ([], '?' :: others.map plainChar) := rfl
      rw [List.map_append, List.map_cons, hmark, digitRun?_needed (by simpa using hne) hplain,
        digitRun?_append hplain hrest, values_plainChars hfront hdecimals, List.append_nil]
    rw [readInteger_of_run (by simp) hdigits hrun, length_values hfront hdecimals]
    rfl

/-- A run of digits has the token that its decimals tell. -/
theorem readInteger_digits (hne : digits ≠ []) (hdigits : ∀ c ∈ digits, Text.isDigit c = true) :
    (fun z => Token.plain .number (.int z)) <$> readInteger (String.ofList digits) =
      Lexical.integerToken digits := by
  rw [Lexical.integerToken]
  by_cases hall : digits.all isDecimal = true
  · have hdecimals := List.all_eq_true.mp hall
    rw [readInteger_of_decimals hne hdigits hdecimals, List.takeWhile_eq_self_iff.mpr hdecimals]
    simp only [hall]
    split <;> rfl
  · obtain ⟨decimals, c, others, rfl, hdecimals, hc⟩ := exists_not_decimal hall
    have htake : (decimals ++ c :: others).takeWhile isDecimal = decimals :=
      (takeWhile_append_of_head hdecimals (by rintro _ ⟨⟩; exact hc)).1
    rw [readInteger_of_not_decimal hdigits hdecimals hc, htake]
    simp only [hall]
    split <;> rfl

theorem plainDigits_of_decimals (hdigits : ∀ c ∈ digits, Text.isDigit c = true)
    (hdecimals : ∀ c ∈ digits, isDecimal c = true) (hrest : ∀ c ∈ rest.head?, c.isDigit = false) :
    plainDigits (digits.map plainChar ++ rest) = (values digits, rest) := by
  obtain ⟨htake, hdrop⟩ :=
    takeWhile_append_of_head (isDigit_plainChars hdigits hdecimals) hrest
  rw [plainDigits, htake, hdrop, values_plainChars hdigits hdecimals]

theorem plainDigits_of_not_decimal (hdigits : ∀ c ∈ digits, Text.isDigit c = true)
    (h : ¬ digits.all isDecimal = true) (rest : List Char) :
    ∃ run others, plainDigits (digits.map plainChar ++ rest) = (run, '?' :: others) := by
  obtain ⟨decimals, c, others, rfl, hdecimals, hc⟩ := exists_not_decimal h
  obtain ⟨hfront, hback⟩ := List.forall_mem_append.mp hdigits
  refine ⟨values decimals, others.map plainChar ++ rest, ?_⟩
  rw [List.map_append, List.map_cons, plainChar_of_not_decimal (hback c List.mem_cons_self) hc,
    List.append_assoc, List.cons_append]
  exact plainDigits_of_decimals hfront hdecimals (by rintro _ ⟨⟩; rfl)

section Point

variable {whole fraction : List Char}

theorem plainDigits_point (hwhole : ∀ c ∈ whole, Text.isDigit c = true)
    (hdecimals : ∀ c ∈ whole, isDecimal c = true) (rest : List Char) :
    plainDigits (whole.map plainChar ++ '.' :: rest) = (values whole, '.' :: rest) :=
  plainDigits_of_decimals hwhole hdecimals (by rintro _ ⟨⟩; rfl)

theorem numeral?_of_decimals (hne : whole ≠ []) (hwhole : ∀ c ∈ whole, Text.isDigit c = true)
    (hfraction : ∀ c ∈ fraction, Text.isDigit c = true)
    (hall : (whole ++ fraction).all isDecimal = true) :
    numeral? (whole.map plainChar ++ '.' :: fraction.map plainChar) =
      some ⟨values whole, values fraction, 0⟩ := by
  obtain ⟨hleft, hright⟩ := List.forall_mem_append.mp (List.all_eq_true.mp hall)
  have hend : plainDigits (fraction.map plainChar ++ []) = (values fraction, []) :=
    plainDigits_of_decimals hfraction hright (by rintro _ ⟨⟩)
  rw [List.append_nil] at hend
  have hvalues : (values whole).isEmpty = false := by
    rw [← values_plainChars hwhole hleft, List.isEmpty_eq_false_iff]
    simpa using hne
  rw [numeral?, plainDigits_point hwhole hleft]
  simp only [hend, hvalues]
  rfl

theorem numeral?_of_not_decimal (hwhole : ∀ c ∈ whole, Text.isDigit c = true)
    (hfraction : ∀ c ∈ fraction, Text.isDigit c = true)
    (hall : ¬ (whole ++ fraction).all isDecimal = true) :
    numeral? (whole.map plainChar ++ '.' :: fraction.map plainChar) = none := by
  -- what is behind the digits begins with a question mark and is no exponent
  by_cases hleft : whole.all isDecimal = true
  · have hright : ¬ fraction.all isDecimal = true := by
      rwa [List.all_append, hleft, Bool.true_and] at hall
    obtain ⟨run, others, hrun⟩ := plainDigits_of_not_decimal hfraction hright []
    rw [List.append_nil] at hrun
    rw [numeral?, plainDigits_point hwhole (List.all_eq_true.mp hleft)]
    simp only [hrun]
    split <;> rfl
  · obtain ⟨run, others, hrun⟩ :=
      plainDigits_of_not_decimal hwhole hleft ('.' :: fraction.map plainChar)
    rw [numeral?, hrun]
    cases run <;> rfl

end Point

end Run

theorem dropUnderscores?_of_not_mem {chars : List Char} (h : '_' ∉ chars) (previous : Bool) :
    dropUnderscores? previous chars = some chars := by
  induction chars generalizing previous with
  | nil => rfl
  | cons c chars ih =>
    rw [List.mem_cons, not_or] at h
    rw [dropUnderscores?.eq_4 _ _ _ (Ne.symm h.1), ih h.2]
    rfl

theorem dropWhile_isOuterBlank {chars : List Char} (h : ∀ c ∈ chars, isOuterBlank c = false) :
    chars.dropWhile isOuterBlank = chars := by
  cases chars with
  | nil => rfl
  | cons c chars => exact List.dropWhile_cons_of_neg (by simp [h c List.mem_cons_self])

/-- A name begins with a letter. -/
theorem namedNumber?_of_lt {c : Char} (h : c.toNat < 64) (rest : List Char) :
    namedNumber? (c :: rest) = none := by
  have hlower : ∀ n < 64, (Char.ofNat n).toLower ≠ 'i' ∧ (Char.ofNat n).toLower ≠ 'n' := by
    decide
  obtain ⟨hi, hn⟩ := hlower c.toNat h
  rw [Char.ofNat_toNat] at hi hn
  have hname : ∀ (first : Char) (others : List Char), c.toLower ≠ first →
      String.ofList ((c :: rest).map Char.toLower) ≠ String.ofList (first :: others) := by
    intro first others hne heq
    rw [String.ofList_inj, List.map_cons] at heq
    exact hne (List.cons.inj heq).1
  rw [namedNumber?]
  simp only [Bool.or_eq_true, decide_eq_true_iff]
  rw [if_neg, if_neg]
  · exact hname 'n' ['a', 'n'] hn
  · rintro (heq | heq)
    · exact hname 'i' ['n', 'f'] hi heq
    · exact hname 'i' ['n', 'f', 'i', 'n', 'i', 't', 'y'] hi heq

/-- What stands in a decimal when its digits are plain ones or question marks. -/
structure Bare (c : Char) : Prop where
  notBlank : isOuterBlank c = false
  notUnderscore : c ≠ '_'
  lt : c.toNat < 64

theorem bare_plainChar {c : Char} (h : Text.isDigit c = true) : Bare (plainChar c) := by
  rcases plainChar_cases h with hc | hc
  · refine ⟨not_isOuterBlank_of_isDigit hc, fun heq => ?_, ?_⟩
    · rw [heq] at hc
      cases hc
    · exact Nat.lt_of_le_of_lt (toNat_of_isDigit hc).2 (by decide)
  · rw [hc]
    exact ⟨rfl, by decide, by decide⟩

theorem readFloat_of_bare {text : String} {c : Char} {chars : List Char}
    (htext : text.toList.map plainChar = c :: chars) (hbare : ∀ d ∈ c :: chars, Bare d)
    (hsigned : signed (c :: chars) = (false, c :: chars)) :
    readFloat text = ((numeral? (c :: chars)).map fun n => Except.ok n.toFloat).getD
      (.error (.notDecimal text)) := by
  have hfront := dropWhile_isOuterBlank fun d hd => (hbare d hd).notBlank
  have hback := dropWhile_isOuterBlank fun d (hd : d ∈ (c :: chars).reverse) =>
    (hbare d (List.mem_reverse.mp hd)).notBlank
  have hunderscore := dropUnderscores?_of_not_mem
    (fun hmem => (hbare '_' hmem).notUnderscore rfl) false
  have hnamed := namedNumber?_of_lt (hbare c List.mem_cons_self).lt chars
  rw [readFloat, htext, hfront, hback, List.reverse_reverse, hunderscore]
  simp only [hsigned, hnamed, Option.none_or]
  cases numeral? (c :: chars) <;> rfl

/-- Runs of digits with a point between them have the token that their decimals tell. -/
theorem readFloat_digits {whole fraction : List Char} (hne : whole ≠ [])
    (hwhole : ∀ c ∈ whole, Text.isDigit c = true)
    (hfraction : ∀ c ∈ fraction, Text.isDigit c = true) :
    (fun x => Token.plain .float (.float x)) <$>
        readFloat (String.ofList (whole ++ '.' :: fraction)) =
      Lexical.decimalToken whole fraction := by
  obtain ⟨c, digits, rfl⟩ := List.exists_cons_of_ne_nil hne
  have hc := hwhole c List.mem_cons_self
  have hplain : (String.ofList (c :: digits ++ '.' :: fraction)).toList.map plainChar =
      plainChar c :: (digits.map plainChar ++ '.' :: fraction.map plainChar) := by
    rw [String.toList_ofList, List.map_append, List.map_cons, List.map_cons]
    rfl
  have hbare : ∀ d ∈ plainChar c :: (digits.map plainChar ++ '.' :: fraction.map plainChar),
      Bare d := by
    rw [List.forall_mem_cons, List.forall_mem_append, List.forall_mem_cons]
    refine ⟨bare_plainChar hc, ?_, ⟨rfl, by decide, by decide⟩, ?_⟩
    · exact List.forall_mem_map.mpr fun d hd =>
        bare_plainChar (hwhole d (List.mem_cons_of_mem c hd))
    · exact List.forall_mem_map.mpr fun d hd => bare_plainChar (hfraction d hd)
  have hsigned := signed_plainChars hc (digits.map plainChar ++ '.' :: fraction.map plainChar)
  rw [dropWhile_isOuterBlank fun d hd => (hbare d hd).notBlank] at hsigned
  rw [readFloat_of_bare hplain hbare hsigned, Lexical.decimalToken]
  by_cases hall : (c :: digits ++ fraction).all isDecimal = true
  · have hnumeral := numeral?_of_decimals hne hwhole hfraction hall
    rw [List.map_cons, List.cons_append] at hnumeral
    rw [hnumeral, if_pos hall]
    rfl
  · have hnumeral := numeral?_of_not_decimal hwhole hfraction hall
    rw [List.map_cons, List.cons_append] at hnumeral
    rw [hnumeral, if_neg hall]
    rfl

end Decimal

end Scriptlet
