import Mathlib.Data.List.Forall2
import Scriptlet.Proofs.Dependence
import Scriptlet.Proofs.Extension
import Scriptlet.Proofs.History
import Scriptlet.Proofs.Lexical
import Scriptlet.Proofs.Nesting

/-! The lines of nodes. A node tells the line that the token knows at which it starts, a sum that of
its operator. Of the tokens of a source only the brackets know their lines, and no node starts at a
bracket, so the lines of a source are lost on the way to its program. -/
namespace Scriptlet

/-- The characters ahead are a sequence of longest lexemes, behind the given characters; each of
their tokens comes with the line on which its lexeme begins. -/
inductive Located : List Char → List Char → List (Token × Nat) → Prop
  | nil (before : List Char) : Located before [] []
  | cons {l : Lexical} {before chars rest : List Char} {ts : List Token}
      {others : List (Token × Nat)} :
      Lexical.Spells l chars → Lexical.Longest chars rest → l.tokens before chars = .ok ts →
      Located (before ++ chars) rest others →
      Located before (chars ++ rest) (ts.map (·, Scanner.lineAfter before) ++ others)

theorem Located.of_splits {before ahead : List Char} {ts : List Token}
    (h : Lexical.Splits before ahead ts) :
    ∃ located, Located before ahead located ∧ located.map Prod.fst = ts := by
  induction h with
  | nil before => exact ⟨[], .nil before, rfl⟩
  | @cons l before chars rest ts ts' hspells hlongest htokens _ ih =>
    obtain ⟨others, hothers, rfl⟩ := ih
    refine ⟨_, .cons hspells hlongest htokens hothers, ?_⟩
    rw [List.map_append, List.map_map]
    exact congrArg (· ++ _) (List.map_id ts)

/-- Longest lexemes can be told in one way only. -/
theorem Located.unique {before ahead : List Char} {located located' : List (Token × Nat)}
    (h : Located before ahead located) (h' : Located before ahead located') :
    located = located' := by
  induction h generalizing located' with
  | nil before =>
    generalize hahead : ([] : List Char) = ahead at h'
    cases h' with
    | nil => rfl
    | cons hspells => exact absurd (List.append_eq_nil_iff.mp hahead.symm).1 hspells.ne_nil
  | @cons l before chars rest ts others hspells hlongest htokens _ ih =>
    generalize hahead : chars ++ rest = ahead at h'
    cases h' with
    | nil => exact absurd (List.append_eq_nil_iff.mp hahead).1 hspells.ne_nil
    | @cons l' _ chars' rest' ts' others' hspells' hlongest' htokens' hothers' =>
      -- The classes may differ, but reading finds the same characters and tokens for both.
      obtain ⟨found, hreading, hfound⟩ := hspells.reading_eq (hlongest.stops hspells)
      obtain ⟨found', hreading', hfound'⟩ := hspells'.reading_eq (hlongest'.stops hspells')
      rw [hahead, hreading'] at hreading
      cases hreading
      have hts : (Except.ok ts : Except Fault (List Token)) = .ok ts' := by
        rw [← htokens, ← htokens', ← hfound before, ← hfound' before]
      cases hts
      rw [ih hothers']

/-- The line that a token knows, if it stands on the given one. -/
def Token.lineKnown (token : Token) (line : Nat) : Value :=
  if token.isBracket then .int line else Token.unknown

theorem Token.line_plain {kind : Token.Kind} (hkind : kind ∉ Token.brackets.map Prod.snd)
    (value : Value) (line : Nat) :
    ∀ t ∈ [Token.plain kind value], t.line = t.lineKnown line := by
  have hbracket : (Token.plain kind value).isBracket = false :=
    (Leaf.unplaced kind value).isBracket_token hkind
  rw [List.forall_mem_singleton, lineKnown, if_neg (Bool.eq_false_iff.mp hbracket)]
  rfl

theorem Token.line_read {α : Type} {kind : Token.Kind}
    (hkind : kind ∉ Token.brackets.map Prod.snd) {value : α → Value} {read : Except Fault α}
    {ts : List Token} (h : (fun a => [Token.plain kind (value a)]) <$> read = .ok ts)
    (line : Nat) : ∀ t ∈ ts, t.line = t.lineKnown line := by
  cases read with
  | error fault => cases h
  | ok a =>
    cases h
    exact line_plain hkind (value a) line

theorem Token.line_placed {c : Char} {kind : Token.Kind} (hkind : (c, kind) ∈ Token.brackets)
    (value : Value) (line column : Nat) :
    ∀ t ∈ [Token.placed kind value line column], t.line = t.lineKnown line := by
  have hbracket : (Token.placed kind value line column).isBracket = true :=
    List.any_eq_true.mpr ⟨_, hkind, Token.isOf_iff.mpr rfl⟩
  rw [List.forall_mem_singleton, lineKnown, if_pos hbracket]
  rfl

theorem Token.keywordKind_not_bracket (word : String) :
    (Token.keywords.lookup word).getD .identifier ∉ Token.brackets.map Prod.snd := by
  have hwords : ∀ kind ∈ Token.keywords.map Prod.snd, kind ∉ Token.brackets.map Prod.snd := by
    decide
  cases hlookup : Token.keywords.lookup word with
  | none => decide
  | some kind => exact hwords kind (Scanner.mem_kinds_of_lookup hlookup)

theorem Lexical.Spells.line {l : Lexical} {chars : List Char} (h : Lexical.Spells l chars)
    {before : List Char} {ts : List Token} (hts : l.tokens before chars = .ok ts) :
    ∀ t ∈ ts, t.line = t.lineKnown (Scanner.lineAfter before) := by
  cases h with
  | blanks =>
    cases hts
    exact List.forall_mem_nil _
  | comment =>
    cases hts
    exact List.forall_mem_nil _
  | word =>
    cases hts
    exact Token.line_plain (Token.keywordKind_not_bracket _) _ _
  | integer => exact Token.line_read (by decide) hts _
  | decimal => exact Token.line_read (by decide) hts _
  | string =>
    cases hts
    exact Token.line_plain (by decide) _ _
  | bracket hkind =>
    cases hts
    exact Token.line_placed hkind _ _ _
  | sign hkind =>
    have hsigns : ∀ entry ∈ Token.signs, entry.2 ∉ Token.brackets.map Prod.snd := by decide
    cases hts
    exact Token.line_plain (hsigns _ hkind) _ _
  | assign =>
    cases hts
    exact Token.line_plain (by decide) _ _
  | equals =>
    cases hts
    exact Token.line_plain (by decide) _ _

/-- Of the tokens of a source the brackets know their lines, and no others do. -/
theorem Located.line {before ahead : List Char} {located : List (Token × Nat)}
    (h : Located before ahead located) : ∀ p ∈ located, p.1.line = p.1.lineKnown p.2 := by
  induction h with
  | nil => exact List.forall_mem_nil _
  | cons hspells _ htokens _ ih =>
    refine List.forall_mem_append.mpr ⟨?_, ih⟩
    intro p hp
    obtain ⟨t, ht, rfl⟩ := List.mem_map.mp hp
    exact hspells.line htokens t ht

namespace Value

/-- The lines in the nodes of a tree, those of a node before those inside it. -/
def lines (tree : Value) : List Value :=
  tree.nodes.filterMap (field? "line")

theorem lines_nodesOfItems (items : List Value) :
    (nodesOfItems items).filterMap (field? "line") = items.flatMap lines := by
  induction items with
  | nil => simp only [nodesOfItems, List.filterMap_nil, List.flatMap_nil]
  | cons v rest ih => rw [nodesOfItems, List.filterMap_append, ih, List.flatMap_cons, lines]

theorem lines_nodesOfFields (fields : List (String × Value)) :
    (nodesOfFields fields).filterMap (field? "line") =
      fields.flatMap fun entry => entry.2.lines := by
  induction fields with
  | nil => simp only [nodesOfFields, List.filterMap_nil, List.flatMap_nil]
  | cons entry rest ih => rw [nodesOfFields, List.filterMap_append, ih, List.flatMap_cons, lines]

@[simp] theorem lines_list (items : List Value) : (list items).lines = items.flatMap lines := by
  rw [lines, nodes, List.filterMap_cons_none rfl, lines_nodesOfItems]

@[simp] theorem lines_record (fields : List (String × Value)) : (record fields).lines =
    (fields.lookup "line").toList ++ fields.flatMap fun entry => entry.2.lines := by
  rw [lines, nodes, List.filterMap_cons, field?]
  cases fields.lookup "line" with
  | none => exact lines_nodesOfFields fields
  | some line => exact congrArg (line :: ·) (lines_nodesOfFields fields)

@[simp] theorem lines_str (s : String) : (str s).lines = [] := by
  simp [lines, nodes, field?]

@[simp] theorem lines_int (z : Int) : (int z).lines = [] := by
  simp [lines, nodes, field?]

@[simp] theorem lines_float (x : Float) : (float x).lines = [] := by
  simp [lines, nodes, field?]

@[simp] theorem lines_bool (b : Bool) : (bool b).lines = [] := by
  simp [lines, nodes, field?]

end Value

section Nodes

variable {name value line : Value} (hname : name.lines = []) (hvalue : value.lines = [])
  (hline : line.lines = [])
include hline

include hvalue in
theorem Expr.lines_string : (Expr.string value line).toNode.lines = [line] := by
  simp [Expr.toNode, List.lookup_cons, hvalue, hline]

include hvalue in
theorem Expr.lines_number : (Expr.number value line).toNode.lines = [line] := by
  simp [Expr.toNode, List.lookup_cons, hvalue, hline]

include hname in
theorem Expr.lines_var : (Expr.var name line).toNode.lines = [line] := by
  simp [Expr.toNode, List.lookup_cons, hname, hline]

include hname in
theorem Expr.lines_call (arguments : List Expr) : (Expr.call name arguments line).toNode.lines =
    line :: (Expr.toNodes arguments).flatMap Value.lines := by
  simp [Expr.toNode, List.lookup_cons, hname, hline]

theorem Expr.lines_sum (left right : Expr) : (Expr.sum left right line).toNode.lines =
    line :: (left.toNode.lines ++ right.toNode.lines) := by
  simp [Expr.toNode, List.lookup_cons, hline]

include hname in
theorem Stmt.lines_assign (value : Expr) :
    (Stmt.assign name value line).toNode.lines = line :: value.toNode.lines := by
  simp [Stmt.toNode, List.lookup_cons, hname, hline]

theorem Stmt.lines_print (expression : Expr) (newline : Bool) :
    (Stmt.print expression newline line).toNode.lines = line :: expression.toNode.lines := by
  simp [Stmt.toNode, List.lookup_cons, hline]

end Nodes

theorem Stmt.lines_call {name : Value} (hname : name.lines = []) (arguments : List Expr) :
    (Stmt.call name arguments).toNode.lines = (Expr.toNodes arguments).flatMap Value.lines := by
  simp [Stmt.toNode, List.lookup_cons, hname]

theorem Decl.lines_function {name : Value} (hname : name.lines = []) {params : List Value}
    (hparams : ∀ v ∈ params, v.lines = []) (body : List Stmt) :
    (Decl.function name params body).toNode.lines = body.flatMap fun s => s.toNode.lines := by
  have hnone : params.flatMap Value.lines = [] := List.flatMap_eq_nil_iff.mpr hparams
  simp [Decl.toNode, List.lookup_cons, Stmt.blockNode, List.flatMap_map, hname, hnone]

theorem Decl.lines_entry (body : List Stmt) :
    (Decl.entry body).toNode.lines = body.flatMap fun s => s.toNode.lines := by
  simp [Decl.toNode, List.lookup_cons, Stmt.blockNode, List.flatMap_map]

theorem Program.lines_toNode (program : Program) :
    program.toNode.lines = program.body.flatMap fun d => d.toNode.lines := by
  simp [Program.toNode, List.lookup_cons, List.flatMap_map]

namespace Derivation

variable {δ : Type}

mutual

/-- The indices of the tokens at which the nodes of an expression start, for a sum that of its
operator, in the order in which the nodes tell their lines; `n` tokens are before the expression. -/
def Expression.starts (n : Nat) : Expression → List Nat
  | .operand only => only.starts n
  | .sum left _ right =>
    (n + left.tokens.length) :: (left.starts n ++ right.starts (n + left.tokens.length + 1))

def Operand.starts (n : Nat) : Operand → List Nat
  | .paren _ inner _ => inner.starts (n + 1)
  | .string _ => [n]
  | .number _ => [n]
  | .var _ => [n]
  | .call _ arguments => n :: Expression.startsOfEnclosed (n + 1) arguments

def Expression.startsOfEnclosed (n : Nat) : Enclosed Expression → List Nat
  | .empty _ _ => []
  | .items _ first others _ =>
    first.starts (n + 1) ++ Expression.startsOfOthers (n + 1 + first.tokens.length) others

def Expression.startsOfOthers (n : Nat) : List (Leaf .comma × Expression) → List Nat
  | [] => []
  | (_, item) :: rest =>
    item.starts (n + 1) ++ Expression.startsOfOthers (n + 1 + item.tokens.length) rest

end

def Printed.starts (n : Nat) : Printed → List Nat
  | .enclosed _ inner _ => inner.starts (n + 1)
  | .bare inner _ => inner.starts n

/-- A call statement tells no line of its own. -/
def Statement.starts (n : Nat) : Statement → List Nat
  | .print _ printed _ => n :: printed.starts (n + 1)
  | .println _ printed _ => n :: printed.starts (n + 1)
  | .call _ _ arguments _ => arguments.elim [] (Expression.startsOfEnclosed (n + 2))
  | .assign _ _ _ value _ => n :: value.starts (n + 3)

/-- The starts of phrases one behind the other. -/
def startsOfAll (tokens : δ → List Token) (starts : Nat → δ → List Nat) (n : Nat) :
    List δ → List Nat
  | [] => []
  | d :: ds => starts n d ++ startsOfAll tokens starts (n + (tokens d).length) ds

def Block.starts (n : Nat) (block : Block) : List Nat :=
  startsOfAll Statement.tokens Statement.starts (n + 1) block.body

def Declaration.starts (n : Nat) : Declaration → List Nat
  | .function _ _ _ params body =>
    body.starts (n + 3 + (params.tokens fun leaf => [leaf.token]).length)
  | .entry _ body => body.starts (n + 1)

/-- The indices of the tokens at which the nodes of a program start. -/
def starts (d : Derivation) : List Nat :=
  startsOfAll Declaration.tokens Declaration.starts 0 d.declarations

end Derivation

/-- The line is the one that the token at the index knows, and this token is no bracket. -/
def TellsLine (ts : List Token) (line : Value) (i : Nat) : Prop :=
  ∃ t, ts[i]? = some t ∧ t.isBracket = false ∧ line = t.line

/-- The fields of the token tell no lines, as only nodes and lists of nodes do. -/
def Token.Flat (token : Token) : Prop :=
  ∀ v ∈ token.fields, v.lines = []

theorem Token.Kind.Fits.lines {kind : Token.Kind} {value : Value} (h : kind.Fits value) :
    value.lines = [] := by
  unfold Token.Kind.Fits at h
  split at h
  · obtain ⟨n, rfl⟩ := h
    exact Value.lines_int n
  · obtain ⟨x, rfl⟩ := h
    exact Value.lines_float x
  · obtain ⟨s, rfl⟩ := h
    exact Value.lines_str s

theorem Token.Lexed.flat {t : Token} (h : t.Lexed) : t.Flat := by
  cases h with
  | plain hfits => simp [Token.Flat, Token.plain, hfits.lines]
  | placed => simp [Token.Flat, Token.placed]

theorem Leaf.lines_value {k : Token.Kind} {leaf : Leaf k} (h : leaf.token.Flat) :
    leaf.value.lines = [] :=
  h _ (List.get_mem _ _)

theorem Leaf.lines_line {k : Token.Kind} {leaf : Leaf k} (h : leaf.token.Flat) :
    leaf.line.lines = [] := by
  rw [Leaf.line]
  cases hthird : leaf.token.fields[2]? with
  | none => exact Value.lines_str _
  | some v => exact h v (List.mem_of_getElem? hthird)

namespace Derivation

section Phrases

variable {ts phrase phrase' : List Token} {t : Token} {n : Nat}

/-- The phrase stands behind the first `n` tokens. -/
def Stands (ts : List Token) (n : Nat) (phrase : List Token) : Prop :=
  phrase <+: ts.drop n

theorem Stands.cons (h : Stands ts n (t :: phrase)) :
    ts[n]? = some t ∧ Stands ts (n + 1) phrase := by
  obtain ⟨behind, hbehind⟩ := h
  constructor
  · rw [← List.head?_drop, ← hbehind]
    rfl
  · exact ⟨behind, by rw [← List.drop_drop, ← hbehind]; rfl⟩

theorem Stands.append (h : Stands ts n (phrase ++ phrase')) :
    Stands ts n phrase ∧ Stands ts (n + phrase.length) phrase' := by
  obtain ⟨behind, hbehind⟩ := h
  constructor
  · exact ⟨phrase' ++ behind, by rw [← hbehind, List.append_assoc]⟩
  · exact ⟨behind, by rw [← List.drop_drop, ← hbehind, List.append_assoc, List.drop_left]⟩

theorem tells_all {tokens : δ → List Token} {node : δ → Value} {starts : Nat → δ → List Nat}
    (hstep : ∀ d n, Stands ts n (tokens d) →
      List.Forall₂ (TellsLine ts) (node d).lines (starts n d))
    (ds : List δ) (n : Nat) (h : Stands ts n (ds.flatMap tokens)) :
    List.Forall₂ (TellsLine ts) (ds.flatMap fun d => (node d).lines)
      (startsOfAll tokens starts n ds) := by
  induction ds generalizing n with
  | nil => exact .nil
  | cons d ds ih =>
    rw [List.flatMap_cons] at h
    obtain ⟨hd, hds⟩ := h.append
    rw [List.flatMap_cons, startsOfAll]
    exact List.rel_append (hstep d n hd) (ih _ hds)

end Phrases

section Tells

variable {ts : List Token} {n : Nat} {k : Token.Kind}

theorem flat_of_getElem? (hts : ∀ t ∈ ts, t.Flat) {t : Token} (h : ts[n]? = some t) : t.Flat :=
  hts t (List.mem_of_getElem? h)

theorem leaf_tells {leaf : Leaf k} (hk : k ∉ Token.brackets.map Prod.snd)
    (h : ts[n]? = some leaf.token) : TellsLine ts leaf.line n :=
  ⟨leaf.token, h, leaf.isBracket_token hk, leaf.line_token.symm⟩

/-- A node without nodes in it. -/
theorem literal_tells (hts : ∀ t ∈ ts, t.Flat) {leaf : Leaf k}
    (hk : k ∉ Token.brackets.map Prod.snd) (h : Stands ts n [leaf.token]) {node : Value}
    (hnode : leaf.value.lines = [] → leaf.line.lines = [] → node.lines = [leaf.line]) :
    List.Forall₂ (TellsLine ts) node.lines [n] := by
  have hflat := flat_of_getElem? hts h.cons.1
  rw [hnode (Leaf.lines_value hflat) (Leaf.lines_line hflat)]
  exact .cons (leaf_tells hk h.cons.1) .nil

mutual

theorem Expression.tells (hts : ∀ t ∈ ts, t.Flat) : ∀ (e : Expression) (n : Nat),
    Stands ts n e.tokens → List.Forall₂ (TellsLine ts) e.tree.toNode.lines (e.starts n)
  | .operand only, n, h => by
    rw [Expression.tokens] at h
    rw [Expression.tree, Expression.starts]
    exact only.tells hts n h
  | .sum left plus right, n, h => by
    rw [Expression.tokens] at h
    obtain ⟨hleft, h⟩ := h.append
    obtain ⟨hplus, hright⟩ := h.cons
    have hline := Leaf.lines_line (flat_of_getElem? hts hplus)
    rw [Expression.tree, Expression.starts, Expr.lines_sum hline]
    apply List.Forall₂.cons (leaf_tells (by decide) hplus)
    exact List.rel_append (left.tells hts n hleft) (right.tells hts _ hright)

theorem Operand.tells (hts : ∀ t ∈ ts, t.Flat) : ∀ (o : Operand) (n : Nat),
    Stands ts n o.tokens → List.Forall₂ (TellsLine ts) o.tree.toNode.lines (o.starts n)
  | .paren opening inner closing, n, h => by
    rw [Operand.tokens] at h
    rw [Operand.tree, Operand.starts]
    exact inner.tells hts _ h.cons.2.append.1
  | .string leaf, n, h => by
    rw [Operand.tokens] at h
    rw [Operand.tree, Operand.starts]
    exact literal_tells hts (by decide) h Expr.lines_string
  | .number leaf, n, h => by
    rw [Operand.tokens] at h
    rw [Operand.tree, Operand.starts]
    exact literal_tells hts (by decide) h Expr.lines_number
  | .var leaf, n, h => by
    rw [Operand.tokens] at h
    rw [Operand.tree, Operand.starts]
    exact literal_tells hts (by decide) h Expr.lines_var
  | .call leaf arguments, n, h => by
    rw [Operand.tokens] at h
    obtain ⟨hleaf, h⟩ := h.cons
    have hflat := flat_of_getElem? hts hleaf
    rw [Operand.tree, Operand.starts, Expr.lines_call (Leaf.lines_value hflat)
      (Leaf.lines_line hflat)]
    exact .cons (leaf_tells (by decide) hleaf) (Expression.tellsOfEnclosed hts arguments _ h)

theorem Expression.tellsOfEnclosed (hts : ∀ t ∈ ts, t.Flat) :
    ∀ (arguments : Enclosed Expression) (n : Nat),
    Stands ts n (Expression.tokensOfEnclosed arguments) →
    List.Forall₂ (TellsLine ts)
      ((Expr.toNodes (Expression.treesOfEnclosed arguments)).flatMap Value.lines)
      (Expression.startsOfEnclosed n arguments)
  | .empty opening closing, n, _ => by
    rw [Expression.treesOfEnclosed, Expression.startsOfEnclosed]
    exact .nil
  | .items opening first others closing, n, h => by
    rw [Expression.tokensOfEnclosed] at h
    obtain ⟨hfirst, h⟩ := h.cons.2.append
    rw [Expression.treesOfEnclosed, Expression.startsOfEnclosed, Expr.toNodes, List.flatMap_cons]
    have hothers := Expression.tellsOfOthers hts others _ h.append.1
    exact List.rel_append (first.tells hts _ hfirst) hothers

theorem Expression.tellsOfOthers (hts : ∀ t ∈ ts, t.Flat) :
    ∀ (others : List (Leaf .comma × Expression)) (n : Nat),
    Stands ts n (Expression.tokensOfOthers others) →
    List.Forall₂ (TellsLine ts)
      ((Expr.toNodes (Expression.treesOfOthers others)).flatMap Value.lines)
      (Expression.startsOfOthers n others)
  | [], n, _ => by
    rw [Expression.treesOfOthers, Expression.startsOfOthers]
    exact .nil
  | (comma, item) :: rest, n, h => by
    rw [Expression.tokensOfOthers] at h
    obtain ⟨hitem, hrest⟩ := h.cons.2.append
    rw [Expression.treesOfOthers, Expression.startsOfOthers, Expr.toNodes, List.flatMap_cons]
    exact List.rel_append (item.tells hts _ hitem) (Expression.tellsOfOthers hts rest _ hrest)

end

theorem Printed.tells (hts : ∀ t ∈ ts, t.Flat) (p : Printed) (n : Nat)
    (h : Stands ts n p.tokens) :
    List.Forall₂ (TellsLine ts) p.tree.toNode.lines (p.starts n) := by
  cases p with
  | enclosed opening inner closing => exact inner.tells hts _ h.cons.2.append.1
  | bare inner _ => exact inner.tells hts n h

theorem Statement.tells (hts : ∀ t ∈ ts, t.Flat) (s : Statement) (n : Nat)
    (h : Stands ts n s.tokens) :
    List.Forall₂ (TellsLine ts) s.tree.toNode.lines (s.starts n) := by
  cases s with
  | print keyword printed semicolon =>
    obtain ⟨hkeyword, h⟩ := Stands.cons h
    rw [tree, starts, Stmt.lines_print (Leaf.lines_line (flat_of_getElem? hts hkeyword))]
    exact .cons (leaf_tells (by decide) hkeyword) (printed.tells hts _ h.append.1)
  | println keyword printed semicolon =>
    obtain ⟨hkeyword, h⟩ := Stands.cons h
    rw [tree, starts, Stmt.lines_print (Leaf.lines_line (flat_of_getElem? hts hkeyword))]
    exact .cons (leaf_tells (by decide) hkeyword) (printed.tells hts _ h.append.1)
  | call keyword leaf arguments semicolon =>
    obtain ⟨hleaf, h⟩ := (Stands.cons h).2.cons
    rw [tree, starts, Stmt.lines_call (Leaf.lines_value (flat_of_getElem? hts hleaf))]
    cases arguments with
    | none => exact .nil
    | some arguments =>
      have harguments := h.append.1
      rw [Optional.tokens, Option.elim_some, ← Expression.tokensOfEnclosed_eq] at harguments
      rw [Optional.values, Option.elim_some, ← Expression.treesOfEnclosed_eq]
      exact Expression.tellsOfEnclosed hts arguments _ harguments
  | assign keyword leaf sign value semicolon =>
    obtain ⟨hkeyword, h⟩ := Stands.cons h
    obtain ⟨hleaf, h⟩ := h.cons
    have hname := Leaf.lines_value (flat_of_getElem? hts hleaf)
    have hline := Leaf.lines_line (flat_of_getElem? hts hkeyword)
    rw [tree, starts, Stmt.lines_assign hname hline]
    exact .cons (leaf_tells (by decide) hkeyword) (value.tells hts _ h.cons.2.append.1)

theorem Block.tells (hts : ∀ t ∈ ts, t.Flat) (b : Block) (n : Nat)
    (h : Stands ts n b.tokens) :
    List.Forall₂ (TellsLine ts) (b.trees.flatMap fun s => s.toNode.lines) (b.starts n) := by
  rw [Block.trees, List.flatMap_map]
  exact tells_all (Statement.tells hts) b.body _ (Stands.cons h).2.append.1

theorem Optional.lines_values (params : Optional (Leaf k))
    (h : ∀ t ∈ params.tokens fun leaf => [leaf.token], t.Flat) :
    ∀ v ∈ params.values Leaf.value, v.lines = [] := by
  intro v hv
  cases params with
  | none => cases hv
  | some list =>
    cases list with
    | empty opening closing => cases hv
    | items opening first others closing =>
      rcases List.mem_cons.mp hv with rfl | hv
      · exact Leaf.lines_value (h first.token (by simp [tokens, Enclosed.tokens]))
      · obtain ⟨⟨comma, leaf⟩, hentry, rfl⟩ := List.mem_map.mp hv
        have hmem : leaf.token ∈ others.flatMap (further fun leaf => [leaf.token]) :=
          List.mem_flatMap.mpr ⟨_, hentry, by simp [further]⟩
        exact Leaf.lines_value (h leaf.token (by simp [tokens, Enclosed.tokens, hmem]))

theorem Declaration.tells (hts : ∀ t ∈ ts, t.Flat) (d : Declaration) (n : Nat)
    (h : Stands ts n d.tokens) :
    List.Forall₂ (TellsLine ts) d.tree.toNode.lines (d.starts n) := by
  cases d with
  | function keyword colon leaf params body =>
    obtain ⟨hleaf, h⟩ := (Stands.cons h).2.cons.2.cons
    obtain ⟨hparams, hbody⟩ := h.append
    have hname := Leaf.lines_value (flat_of_getElem? hts hleaf)
    have hvalues := Optional.lines_values params fun t ht =>
      hts t (List.mem_of_mem_drop (hparams.subset ht))
    rw [tree, starts, Decl.lines_function hname hvalues]
    exact body.tells hts _ hbody
  | entry keyword body =>
    rw [tree, starts, Decl.lines_entry]
    exact body.tells hts _ (Stands.cons h).2

/-- Every node of a program tells the line that the token knows at which it starts, and no node
starts at a bracket. -/
theorem tells (d : Derivation) (h : ∀ t ∈ d.tokens, t.Flat) :
    List.Forall₂ (TellsLine d.tokens) d.program.toNode.lines d.starts := by
  rw [Program.lines_toNode, program, List.flatMap_map]
  exact tells_all (Declaration.tells h) d.declarations 0 List.prefix_rfl

end Tells

end Derivation

/-- Each line is the one on which the token at the index stands. -/
def LinesSurvive (located : List (Token × Nat)) : List Value → List Nat → Prop :=
  List.Forall₂ fun line i => ∃ p, located[i]? = some p ∧ line = .int p.2

/-- A token of any kind that knows the line on which the other one stands. -/
structure Informs (p : Token × Nat) (t : Token) : Prop where
  flat : t.Flat
  hasValue : 2 ≤ t.fields.length
  line : t.line = .int p.2

section Survival

variable {located : List (Token × Nat)} {lines : List Value} {starts : List Nat}

theorem unknown_of_tellsLine (hline : ∀ p ∈ located, p.1.line = p.1.lineKnown p.2)
    (h : List.Forall₂ (TellsLine (located.map Prod.fst)) lines starts) :
    ∀ line ∈ lines, line = Token.unknown := by
  induction h with
  | nil => exact List.forall_mem_nil _
  | @cons line i lines starts htells _ ih =>
    refine List.forall_mem_cons.mpr ⟨?_, ih⟩
    obtain ⟨t, ht, hbracket, rfl⟩ := htells
    obtain ⟨p, hp, rfl⟩ := List.mem_map.mp (List.mem_of_getElem? ht)
    rw [hline p hp, Token.lineKnown, if_neg (Bool.eq_false_iff.mp hbracket)]

theorem exists_informs {informed : List Token} (h : List.Forall₂ Informs located informed) :
    ∀ t ∈ informed, ∃ p, Informs p t := by
  induction h with
  | nil => exact List.forall_mem_nil _
  | cons hinforms _ ih => exact List.forall_mem_cons.mpr ⟨⟨_, hinforms⟩, ih⟩

/-- Lines that tokens know survive. -/
theorem linesSurvive_of_informs {informed : List Token}
    (hinforms : List.Forall₂ Informs located informed)
    (h : List.Forall₂ (TellsLine informed) lines starts) : LinesSurvive located lines starts := by
  refine h.imp ?_
  rintro line i ⟨t, ht, -, rfl⟩
  obtain ⟨hi, rfl⟩ := List.getElem?_eq_some_iff.mp ht
  have hi' : i < located.length := hinforms.length_eq ▸ hi
  exact ⟨located[i], List.getElem?_eq_getElem hi', (hinforms.get hi' hi).line⟩

theorem linesSurvive_iff {ts : List Token} (h : List.Forall₂ (TellsLine ts) lines starts)
    (hunknown : ∀ line ∈ lines, line = Token.unknown) :
    LinesSurvive located lines starts ↔ lines = [] := by
  constructor
  · intro hsurvive
    cases hsurvive with
    | nil => rfl
    | cons hline =>
      obtain ⟨p, -, rfl⟩ := hline
      cases hunknown _ List.mem_cons_self
  · rintro rfl
    cases h
    exact .nil

end Survival

namespace Program

theorem exists_located {source : String} {ts : List Token} (h : Token.ofSource source = .ok ts) :
    ∃ located, Located [] source.toList located ∧ located.map Prod.fst = ts :=
  Located.of_splits (Token.ofSource_ok_iff.mp h).splits

theorem exists_derivation {depth : Nat} {ts : List Token} {program : Program}
    (hvalued : Parse.Valued ts) (hflat : ∀ t ∈ ts, t.Flat) (h : ofTokens depth ts = .ok program) :
    ∃ d : Derivation, d.tokens = ts ∧ d.program = program ∧
      List.Forall₂ (TellsLine ts) program.toNode.lines d.starts := by
  obtain ⟨c, hrun⟩ := ofTokens_ok_iff.mp h
  obtain ⟨-, d, rfl, rfl⟩ := Parse.program_sound hvalued hrun
  exact ⟨d, rfl, rfl, d.tells hflat⟩

theorem exists_derivation_of_lexed {depth : Nat} {ts : List Token} {program : Program}
    (hlexed : ∀ t ∈ ts, t.Lexed) (h : ofTokens depth ts = .ok program) :
    ∃ d : Derivation, d.tokens = ts ∧ d.program = program ∧
      List.Forall₂ (TellsLine ts) program.toNode.lines d.starts :=
  exists_derivation (fun t ht => (hlexed t ht).hasValue) (fun t ht => (hlexed t ht).flat) h

/-- Lines that tokens know are told by the nodes that start at them. But no node starts at a
bracket, and only the brackets of a source know their lines. So the program of a source tells no
line, and the lines of the source survive only if there is no node to tell them. -/
theorem lines_of_source (source : String) (ts : List Token) (depth : Nat) (program : Program)
    (hsource : Token.ofSource source = .ok ts) (hprogram : ofTokens depth ts = .ok program) :
    ∃ (d : Derivation) (located : List (Token × Nat)),
      (∀ other : Derivation, other.tokens = ts ↔ other = d) ∧ d.program = program ∧
      (∀ other, Located [] source.toList other ↔ other = located) ∧ located.map Prod.fst = ts ∧
      (∀ p ∈ located, p.1.line = p.1.lineKnown p.2) ∧
      List.Forall₂ (TellsLine ts) program.toNode.lines d.starts ∧
      (∀ line ∈ program.toNode.lines, line = Token.unknown) ∧
      (LinesSurvive located program.toNode.lines d.starts ↔ program.toNode.lines = []) ∧
      ∀ informed depth' program', List.Forall₂ Informs located informed →
        ofTokens depth' informed = .ok program' → ∃ d' : Derivation, d'.tokens = informed ∧
          d'.program = program' ∧ LinesSurvive located program'.toNode.lines d'.starts := by
  have hlexed : ∀ t ∈ ts, t.Lexed := (Token.ofSource_ok_iff.mp hsource).lexed
  obtain ⟨located, hlocated, rfl⟩ := exists_located hsource
  obtain ⟨d, hd, rfl, htells⟩ := exists_derivation_of_lexed hlexed hprogram
  have hunknown := unknown_of_tellsLine hlocated.line htells
  refine ⟨d, located, ?_, rfl, ?_, rfl, hlocated.line, htells, hunknown,
    linesSurvive_iff htells hunknown, ?_⟩
  · intro other
    constructor
    · intro hother
      exact Derivation.tokens_injective (hother.trans hd.symm)
    · rintro rfl
      exact hd
  · intro other
    constructor
    · intro hother
      exact hother.unique hlocated
    · rintro rfl
      exact hlocated
  · intro informed depth' program' hinforms hprogram'
    have hknown := exists_informs hinforms
    obtain ⟨d', hd', hprogram', htells'⟩ := exists_derivation
      (fun t ht => (hknown t ht).elim fun _ h => h.hasValue)
      (fun t ht => (hknown t ht).elim fun _ h => h.flat) hprogram'
    exact ⟨d', hd', hprogram', linesSurvive_of_informs hinforms htells'⟩

/-- How many lines the program of a source tells. -/
def countLines (depth : Nat) (source : String) : Option Nat :=
  match Token.ofSource source with
  | .error _ => none
  | .ok ts =>
    match ofTokens depth ts with
    | .error _ => none
    | .ok program => some program.toNode.lines.length

theorem exists_of_countLines {depth count : Nat} {source : String}
    (h : countLines depth source = some count) :
    ∃ ts program, Token.ofSource source = .ok ts ∧ ofTokens depth ts = .ok program ∧
      program.toNode.lines.length = count := by
  rw [countLines] at h
  split at h
  · cases h
  · next ts hsource =>
    split at h
    · cases h
    · next program hprogram => exact ⟨ts, program, hsource, hprogram, Option.some.inj h⟩

/-- A sum over three lines tells none of them. -/
theorem lines_of_source_sum :
    ∃ ts program, Token.ofSource "enter \x7b print f(\n1) +\n 2;\n\x7d" = .ok ts ∧
      ofTokens Parse.maxDepth ts = .ok program ∧
      program.toNode.lines = List.replicate 5 Token.unknown := by
  have hcheck : countLines Parse.maxDepth "enter \x7b print f(\n1) +\n 2;\n\x7d" = some 5 := by
    decide +kernel
  obtain ⟨ts, program, hsource, hprogram, hlength⟩ := exists_of_countLines hcheck
  obtain ⟨-, -, -, -, -, -, -, -, hunknown, -⟩ := lines_of_source _ ts _ program hsource hprogram
  exact ⟨ts, program, hsource, hprogram, List.eq_replicate_iff.mpr ⟨hlength, hunknown⟩⟩

/-- The statement and the number on the second line do not tell it. -/
theorem not_lines_survive :
    ∃ (ts : List Token) (program : Program) (d : Derivation) (located : List (Token × Nat)),
      Token.ofSource "enter \x7b\n  println 1;\n\x7d" = .ok ts ∧
      ofTokens Parse.maxDepth ts = .ok program ∧ d.tokens = ts ∧ d.program = program ∧
      Located [] "enter \x7b\n  println 1;\n\x7d".toList located ∧
      ¬ LinesSurvive located program.toNode.lines d.starts := by
  have hcheck : countLines Parse.maxDepth "enter \x7b\n  println 1;\n\x7d" = some 2 := by
    decide +kernel
  obtain ⟨ts, program, hsource, hprogram, hlength⟩ := exists_of_countLines hcheck
  have hlexed : ∀ t ∈ ts, t.Lexed := (Token.ofSource_ok_iff.mp hsource).lexed
  obtain ⟨located, hlocated, rfl⟩ := exists_located hsource
  obtain ⟨d, hd, rfl, htells⟩ := exists_derivation_of_lexed hlexed hprogram
  refine ⟨_, _, d, located, hsource, hprogram, hd, rfl, hlocated, ?_⟩
  rw [linesSurvive_iff htells (unknown_of_tellsLine hlocated.line htells)]
  exact List.ne_nil_of_length_pos (hlength ▸ Nat.zero_lt_two)

end Program

end Scriptlet
