import Scriptlet.Proofs.Derivation
import Scriptlet.Proofs.Lexeme

/-! Tokens written as text. Keywords, identifiers, integers, string literals, brackets and signs, in
any order and with single spaces between them, are read back with the same kinds and values. -/
namespace Scriptlet

namespace Token

/-- The kind and the value of a token, without its place. -/
def content (token : Token) : List Value :=
  token.fields.take 2

/-- The text of a token. A string literal stands between quotes, with a backslash before every quote
and every backslash in it, and a number is written in decimal. -/
def written (token : Token) : List Char :=
  match token.fields with
  | _ :: .str text :: _ =>
    if token.isOf .string then
      Text.doubleQuote :: (text.toList.flatMap Lexeme.escape ++ [Text.doubleQuote])
    else text.toList
  | _ :: .int z :: _ => Nat.toDigits 10 z.toNat
  | _ => []

/-- A token that can be written: all that sources have but decimal numbers. -/
inductive Writable : Token → Prop
  | keyword {word : String} {kind : Kind} : (word, kind) ∈ keywords →
      Writable (.plain kind (.str word))
  | identifier {word : String} : (Lexeme.word word).Valid → keywords.lookup word = none →
      Writable (.plain .identifier (.str word))
  | number {n : Nat} : (Nat.toDigits 10 n).length ≤ Decimal.maxDigits →
      Writable (.plain .number (.int n))
  | string (text : String) : Writable (.plain .string (.str text))
  | bracket {c : Char} {kind : Kind} (line column : Nat) : (c, kind) ∈ brackets →
      Writable (.placed kind (.str c.toString) line column)
  | sign {c : Char} {kind : Kind} : (c, kind) ∈ signs → Writable (.plain kind (.str c.toString))
  | assign : Writable (.plain .assign (.str "="))
  | equals : Writable (.plain .equals (.str "=="))

/-- The source of tokens: their texts with single spaces between them. -/
def sourceOf (tokens : List Token) : String :=
  String.ofList ([' '].intercalate (tokens.map written))

theorem written_text {kind : Kind} (h : kind ≠ .string) (text : String) (place : List Value) :
    (Token.mk (.str kind.label :: .str text :: place)).written = text.toList := by
  have hkind : (Token.mk (.str kind.label :: .str text :: place)).isOf kind = true :=
    Token.isOf_iff.mpr rfl
  have hother := Token.isOf_eq_decide hkind .string
  rw [decide_eq_false h] at hother
  exact if_neg (Bool.eq_false_iff.mp hother)

theorem toList_toString (c : Char) : c.toString.toList = [c] :=
  String.toList_ofList

/-- The lexeme is written as the token and read as one with its content. -/
structure SpelledBy (token : Token) (l : Lexeme) : Prop where
  valid : l.Valid
  text : l.text = token.written
  content : ∀ line column, (l.token line column).content = token.content

/-- Every token that can be written is that of a lexeme. -/
theorem Writable.spelledBy {token : Token} (h : token.Writable) : ∃ l, token.SpelledBy l := by
  cases h with
  | @keyword word kind hmem =>
    have hwords : ∀ entry ∈ keywords, (Lexeme.word entry.1).Valid ∧
        keywords.lookup entry.1 = some entry.2 ∧ entry.2 ≠ .string := by
      decide
    obtain ⟨hvalid, hlookup, hkind⟩ := hwords _ hmem
    refine ⟨.word word, hvalid, (written_text hkind word []).symm, fun line column => ?_⟩
    rw [Lexeme.token, Token.ofWord, hlookup, Option.getD_some]
  | @identifier word hvalid hlookup =>
    refine ⟨.word word, hvalid, (written_text (by decide) word []).symm, fun line column => ?_⟩
    rw [Lexeme.token, Token.ofWord, hlookup, Option.getD_none]
  | @number n hdigits => exact ⟨.number n, hdigits, rfl, fun _ _ => rfl⟩
  | string text => exact ⟨.string text, trivial, rfl, fun _ _ => rfl⟩
  | @bracket c kind line column hmem =>
    have hbrackets : ∀ entry ∈ brackets,
        (Lexeme.bracket entry.1 entry.2).Valid ∧ entry.2 ≠ .string := by
      decide
    obtain ⟨hvalid, hkind⟩ := hbrackets _ hmem
    refine ⟨.bracket c kind, hvalid, ?_, fun _ _ => rfl⟩
    rw [Token.placed, written_text hkind, toList_toString, Lexeme.text]
  | @sign c kind hmem =>
    have hsigns : ∀ entry ∈ signs, (Lexeme.sign entry.1 entry.2).Valid ∧ entry.2 ≠ .string := by
      decide
    obtain ⟨hvalid, hkind⟩ := hsigns _ hmem
    refine ⟨.sign c kind, hvalid, ?_, fun _ _ => rfl⟩
    rw [Token.plain, written_text hkind, toList_toString, Lexeme.text]
  | assign => exact ⟨.assign, trivial, rfl, fun _ _ => rfl⟩
  | equals => exact ⟨.equals, trivial, rfl, fun _ _ => rfl⟩

/-- Tokens that can be written are those of lexemes, wherever these stand. -/
theorem exists_lexemes {tokens : List Token} (h : ∀ t ∈ tokens, t.Writable) :
    ∃ ls : List Lexeme, (∀ l ∈ ls, l.Valid) ∧ ls.map Lexeme.text = tokens.map written ∧
      ∀ before, (Scanner.tokensOf before ls).map content = tokens.map content := by
  induction tokens with
  | nil => exact ⟨[], List.forall_mem_nil _, rfl, fun _ => rfl⟩
  | cons t tokens ih =>
    obtain ⟨ht, htokens⟩ := List.forall_mem_cons.mp h
    obtain ⟨l, hl⟩ := ht.spelledBy
    obtain ⟨ls, hvalid, htext, hcontent⟩ := ih htokens
    refine ⟨l :: ls, List.forall_mem_cons.mpr ⟨hl.valid, hvalid⟩, ?_, fun before => ?_⟩
    · rw [List.map_cons, List.map_cons, hl.text, htext]
    · rw [Scanner.tokensOf, List.map_cons, List.map_cons, hl.content, hcontent]

end Token

/-- Tokens that can be written are read back from their source, in whatever order they stand. -/
theorem Scanner.tokenize_sourceOf (tokens : List Token) (h : ∀ t ∈ tokens, t.Writable) :
    ∃ read s, (tokenize none).run (ofSource (Token.sourceOf tokens)) = .ok read s ∧
      read.map Token.content = tokens.map Token.content := by
  obtain ⟨ls, hvalid, htext, hcontent⟩ := Token.exists_lexemes h
  have hsource := ofSource_spaced hvalid
  rw [spaced, htext, Token.ofSource] at hsource
  split at hsource
  · next read s hrun =>
    obtain rfl := Except.ok.inj hsource
    exact ⟨_, s, hrun, hcontent []⟩
  · cases hsource

/-- Tokens that would make others without the spaces between them, and string literals with a
backslash before a letter and before the closing quote. -/
def Token.adjacent : List Token :=
  [.plain .divide (.str "/"), .plain .divide (.str "/"), .plain .assign (.str "="),
   .plain .assign (.str "="), .plain .number (.int 12), .plain .identifier (.str "x1"),
   .plain .string (.str "\\n\""), .plain .string (.str "\\"),
   .placed .leftBrace (.str "\x7b") 7 7, .plain .print (.str "print")]

theorem Scanner.tokenize_sourceOf_adjacent :
    Token.sourceOf Token.adjacent = "/ / = = 12 x1 \"\\\\n\\\"\" \"\\\\\" \x7b print" ∧
      (∀ t ∈ Token.adjacent, t.Writable) ∧
      ∃ read s, (tokenize none).run (ofSource (Token.sourceOf Token.adjacent)) = .ok read s ∧
        read.map Token.content = Token.adjacent.map Token.content := by
  have hslash : (Token.plain .divide (.str "/")).Writable := .sign (c := '/') (by decide)
  have hwritable : ∀ t ∈ Token.adjacent, t.Writable := by
    simp only [Token.adjacent, List.forall_mem_cons]
    exact ⟨hslash, hslash, .assign, .assign, .number (n := 12) (by decide),
      .identifier (by decide) rfl, .string _, .string _, .bracket (c := '\x7b') 7 7 (by decide),
      .keyword (by decide), List.forall_mem_nil _⟩
  exact ⟨by decide, hwritable, tokenize_sourceOf Token.adjacent hwritable⟩

end Scriptlet
