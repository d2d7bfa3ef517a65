import Scriptlet.Proofs.Progress

/-! Parsing goes forward on every list of tokens. A rule that succeeds has passed a token, and one
that fails stands no further back and within the list, so no loop of the grammar goes on forever. -/
namespace Scriptlet

namespace Cursor

/-- The cursor at a position of a list of tokens. -/
def along (tokens : List Token) (position : Nat) : Cursor :=
  ⟨position, tokens.drop position⟩

variable {tokens : List Token} {position : Nat}

theorem current?_along : (along tokens position).current? = tokens[position]? :=
  List.head?_drop

/-- What is reached from a position of the tokens is a position of the same tokens further on. -/
theorem Reaches.along {d : Cursor} (h : (along tokens position).Reaches d)
    (hposition : position ≤ tokens.length) :
    position ≤ d.position ∧ d.position ≤ tokens.length ∧ d = .along tokens d.position := by
  obtain ⟨passed, hrest, hd⟩ := h
  change tokens.drop position = passed ++ d.rest at hrest
  change d.position = position + passed.length at hd
  have hlength := congrArg List.length hrest
  rw [List.length_drop, List.length_append] at hlength
  have hdrop : d.rest = tokens.drop d.position := by
    rw [hd, ← List.drop_drop, hrest, List.drop_left]
  refine ⟨by omega, by omega, ?_⟩
  rw [Cursor.along, ← hdrop]

end Cursor

namespace Parse

/-- The rules that read a phrase of the grammar. -/
inductive Rule where
  | functionDeclaration | entryBlock | block | statement | assignment | print | println | call
  | expression | sum | operand

namespace Rule

/-- What a rule builds. -/
def Phrase : Rule → Type
  | functionDeclaration | entryBlock => Decl
  | block => List Stmt
  | statement | assignment | print | println | call => Stmt
  | expression | sum | operand => Expr

/-- The rule as a step of parsing. -/
def parse (depth : Nat) : (rule : Rule) → Parse rule.Phrase
  | functionDeclaration => Parse.functionDeclaration depth
  | entryBlock => Parse.entryBlock depth
  | block => Parse.block depth
  | statement => Parse.statement depth
  | assignment => Parse.assignment depth
  | print => printStatement depth .print false
  | println => printStatement depth .println true
  | call => callStatement depth
  | expression => Parse.expression depth
  | sum => Parse.sum depth
  | operand => Parse.operand depth

theorem strides (rule : Rule) (depth : Nat) (c : Cursor) : Strides (rule.parse depth) c := by
  obtain ⟨hexpression, hsum, hoperand⟩ := strides_expression depth
  cases rule with
  | functionDeclaration => exact strides_functionDeclaration depth c
  | entryBlock => exact strides_entryBlock depth c
  | block => exact strides_block depth c
  | statement => exact strides_statement depth c
  | assignment => exact strides_assignment depth c
  | print => exact strides_printStatement depth c _ _
  | println => exact strides_printStatement depth c _ _
  | call => exact strides_callStatement depth c
  | expression => exact hexpression c
  | sum => exact hsum c
  | operand => exact hoperand c

end Rule

/-- From every cursor the loop without a bound on its rounds ends, after at most a round for each
token ahead, as the loop with that many rounds does. -/
def Terminates {α : Type} (more : Cursor → Bool) (step : Parse α) : Prop :=
  ∀ c : Cursor, ∃ rounds ≤ c.rest.length,
    Repeats more step c rounds ((collectWhile more step c.rest.length).run c)

theorem terminates_of_strides {α : Type} {more : Cursor → Bool} {step : Parse α}
    (hmore : ∀ c, more c = true → c.rest ≠ []) (hstep : ∀ c, more c = true → Strides step c) :
    Terminates more step := fun _ =>
  repeats_collectWhile (fun c hc => List.length_pos_iff.mpr (hmore c hc))
    (fun _ _ _ hc hrun => (hstep _ hc).length_lt hrun) (Nat.le_refl _)

theorem terminates_commaList {α : Type} {item : Parse α} (hitem : ∀ c, Strides item c) :
    Terminates (Cursor.isAt .comma) (do
      let _ ← advance
      item) :=
  terminates_of_strides (fun _ hc => rest_ne_nil_of_isAt hc) fun _ hc =>
    (strides_advance (rest_ne_nil_of_isAt hc)).bind fun _ d _ => (hitem d).walks

theorem rest_ne_nil_of_isBefore {kind : Token.Kind} {c : Cursor} (h : c.isBefore kind = true) :
    c.rest ≠ [] := by
  obtain ⟨t, ht, -⟩ := (Option.any_eq_true ..).mp h
  exact rest_ne_nil_of_token? ht

/-- At every position of every list of tokens each rule stays within the list and goes no step
back, whether it succeeds or fails, and stands before the token of the place that it has reached; if
it succeeds it has passed a token. The loops over
declarations, over statements and over the items of both kinds of lists end. -/
theorem advances (depth : Nat) :
    (∀ (tokens : List Token) (position : Nat) (rule : Rule), position ≤ tokens.length →
      ∃ reached, position ≤ reached ∧ reached ≤ tokens.length ∧
        stateOf ((rule.parse depth).run (.along tokens position)) = .along tokens reached ∧
        (stateOf ((rule.parse depth).run (.along tokens position))).current? = tokens[reached]? ∧
        ∀ phrase d, (rule.parse depth).run (.along tokens position) = .ok phrase d →
          position < reached) ∧
      Terminates (fun c => c.token?.isSome) (declaration depth) ∧
      Terminates (Cursor.isBefore .rightBrace) (statement depth) ∧
      Terminates (Cursor.isAt .comma) (do
        let _ ← advance
        name) ∧
      Terminates (Cursor.isAt .comma) (do
        let _ ← advance
        expression depth) := by
  refine ⟨fun tokens position rule hposition => ?_, ?_, ?_, terminates_commaList strides_name,
    terminates_commaList (strides_expression depth).1⟩
  · have hstrides := rule.strides depth (.along tokens position)
    obtain ⟨hle, hlength, hreached⟩ := hstrides.walks.along hposition
    have hcurrent := (congrArg Cursor.current? hreached).trans Cursor.current?_along
    refine ⟨_, hle, hlength, hreached, hcurrent, fun phrase d hrun => ?_⟩
    have hlt := hstrides.passes hrun
    rw [hrun]
    exact hlt
  · refine terminates_of_strides (fun c hc => ?_) fun c _ => strides_declaration depth c
    obtain ⟨t, ht⟩ := Option.isSome_iff_exists.mp hc
    exact rest_ne_nil_of_token? ht
  · exact terminates_of_strides (fun _ hc => rest_ne_nil_of_isBefore hc) fun c _ =>
      strides_statement depth c

/-- A block whose statements end at a token without fields fails there, behind its opening brace and
the statement that it has. -/
theorem advances_to_bare :
    ∃ tokens : List Token,
      tokens = [⟨[]⟩, .plain .leftBrace .null, .plain .call .null, ⟨[.str "IDENTIFIER", .int 0]⟩,
        ⟨[.str "SEMICOLON"]⟩, ⟨[]⟩] ∧
      (Rule.block.parse 9).run (.along tokens 1) = .error .tokenField (.along tokens 5) ∧
      1 ≤ tokens.length ∧
      ∃ reached, 1 ≤ reached ∧ reached ≤ tokens.length ∧
        stateOf ((Rule.block.parse 9).run (.along tokens 1)) = .along tokens reached ∧
        (stateOf ((Rule.block.parse 9).run (.along tokens 1))).current? = tokens[reached]? ∧
        ∀ phrase d, (Rule.block.parse 9).run (.along tokens 1) = .ok phrase d → 1 < reached :=
  ⟨_, rfl, rfl, by decide, (advances 9).1 _ 1 .block (by decide)⟩

end Parse

end Scriptlet
