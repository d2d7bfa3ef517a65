import Scriptlet.Proofs.Accepting
import Scriptlet.Proofs.Lexeme

/-! Programs written as sources, and read back from them. -/
namespace Scriptlet

namespace Lexeme

def leftParen : Lexeme := .bracket '(' .leftParen

def rightParen : Lexeme := .bracket ')' .rightParen

def leftBrace : Lexeme := .bracket '\x7b' .leftBrace

def rightBrace : Lexeme := .bracket '\x7d' .rightBrace

def comma : Lexeme := .sign ',' .comma

def semicolon : Lexeme := .sign ';' .semicolon

/-- The lexeme of a name. Only a text is one; all else is no lexeme of the language. -/
def name : Value → Lexeme
  | .str s => .word s
  | _ => .word ""

def parenthesized (ls : List Lexeme) : List Lexeme :=
  leftParen :: (ls ++ [rightParen])

/-- Items in parentheses, with commas between them. -/
def enclosed {α : Type} (item : α → List Lexeme) : List α → List Lexeme
  | [] => [leftParen, rightParen]
  | a :: rest => leftParen :: (item a ++ (rest.flatMap (fun b => comma :: item b) ++ [rightParen]))

end Lexeme

/-- An expression as an operand, from its lexemes: a sum stands in parentheses. -/
def Expr.operandLexemes (lexemes : List Lexeme) : Expr → List Lexeme
  | .sum _ _ _ => Lexeme.parenthesized lexemes
  | _ => lexemes

mutual

/-- The lexemes of an expression. A sum left of a plus stands in parentheses. -/
def Expr.lexemes : Expr → List Lexeme
  | .string (.str s) _ => [.string s]
  | .number (.int z) _ => [.number z.toNat]
  | .string _ _ | .number _ _ => []
  | .var name _ => [.name name]
  | .call name arguments _ => .name name :: Expr.lexemesOfArguments arguments
  | .sum left right _ => left.operandLexemes left.lexemes ++ .sign '+' .plus :: right.lexemes

def Expr.lexemesOfArguments : List Expr → List Lexeme
  | [] => [.leftParen, .rightParen]
  | e :: rest => .leftParen :: (e.lexemes ++ (Expr.lexemesOfOthers rest ++ [.rightParen]))

def Expr.lexemesOfOthers : List Expr → List Lexeme
  | [] => []
  | e :: rest => .comma :: (e.lexemes ++ Expr.lexemesOfOthers rest)

end

theorem Expr.lexemesOfOthers_eq (es : List Expr) :
    Expr.lexemesOfOthers es = es.flatMap fun e => .comma :: e.lexemes := by
  induction es with
  | nil => simp only [lexemesOfOthers, List.flatMap_nil]
  | cons e rest ih => simp only [lexemesOfOthers, List.flatMap_cons, ih, List.cons_append]

theorem Expr.lexemesOfArguments_eq (es : List Expr) :
    Expr.lexemesOfArguments es = Lexeme.enclosed Expr.lexemes es := by
  cases es with
  | nil => simp only [lexemesOfArguments, Lexeme.enclosed]
  | cons e rest => simp only [lexemesOfArguments, Lexeme.enclosed, lexemesOfOthers_eq]

/-- The lexemes of a statement. What is printed stands in parentheses. -/
def Stmt.lexemes : Stmt → List Lexeme
  | .print e newline _ =>
    .word (if newline then "println" else "print") ::
      (Lexeme.parenthesized e.lexemes ++ [.semicolon])
  | .call name arguments =>
    .word "call" :: .name name :: (Lexeme.enclosed Expr.lexemes arguments ++ [.semicolon])
  | .assign name value _ =>
    .word "assign" :: .name name :: .assign :: (value.lexemes ++ [.semicolon])

def Stmt.blockLexemes (body : List Stmt) : List Lexeme :=
  .leftBrace :: (body.flatMap Stmt.lexemes ++ [.rightBrace])

def Decl.lexemes : Decl → List Lexeme
  | .function name params body =>
    .word "func" :: .sign ':' .colon :: .name name ::
      (Lexeme.enclosed (fun param => [.name param]) params ++ Stmt.blockLexemes body)
  | .entry body => .word "enter" :: Stmt.blockLexemes body

/-- The source that a program is written as, with a space between any two lexemes. -/
def Program.render (program : Program) : String :=
  String.ofList (Scanner.spaced (program.body.flatMap Decl.lexemes))

/-- A name that can be written: a word that is no keyword. -/
inductive Value.IsName : Value → Prop
  | word {s : String} : (Lexeme.word s).Valid → Token.keywords.lookup s = none → IsName (.str s)

/-- An expression that can be written. -/
inductive Expr.Writable : Expr → Prop
  | string (s : String) : Writable (.string (.str s) Token.unknown)
  | number {n : Nat} : (Lexeme.number n).Valid → Writable (.number (.int n) Token.unknown)
  | var {name : Value} : name.IsName → Writable (.var name Token.unknown)
  | call {name : Value} {arguments : List Expr} : name.IsName → (∀ e ∈ arguments, Writable e) →
      Writable (.call name arguments Token.unknown)
  | sum {left right : Expr} : Writable left → Writable right →
      Writable (.sum left right Token.unknown)

inductive Stmt.Writable : Stmt → Prop
  | print {e : Expr} (newline : Bool) : e.Writable → Writable (.print e newline Token.unknown)
  | call {name : Value} {arguments : List Expr} : name.IsName → (∀ e ∈ arguments, e.Writable) →
      Writable (.call name arguments)
  | assign {name : Value} {e : Expr} : name.IsName → e.Writable →
      Writable (.assign name e Token.unknown)

inductive Decl.Writable : Decl → Prop
  | function {name : Value} {params : List Value} {body : List Stmt} : name.IsName →
      (∀ param ∈ params, param.IsName) → (∀ s ∈ body, s.Writable) →
      Writable (.function name params body)
  | entry {body : List Stmt} : (∀ s ∈ body, s.Writable) → Writable (.entry body)

/-- A program that can be written: names are words other than keywords, numbers are natural and not
too long, and no line is known. -/
def Program.Writable (program : Program) : Prop :=
  ∀ d ∈ program.body, d.Writable

namespace Derivation

open Scanner (tokensOf)

theorem exists_tokensOf_append (before : List Char) (ls ls' : List Lexeme) :
    ∃ before', tokensOf before (ls ++ ls') = tokensOf before ls ++ tokensOf before' ls' := by
  induction ls generalizing before with
  | nil => exact ⟨before, rfl⟩
  | cons l ls ih =>
    obtain ⟨before', h⟩ := ih (before ++ l.text ++ [' '])
    exact ⟨before', congrArg _ h⟩

/-- The lexemes spell `a`: they can be written, and wherever they stand a derivation of `a` has
their tokens. -/
structure Spells {δ α : Type} (tokens : δ → List Token) (tree : δ → α) (ls : List Lexeme) (a : α) :
    Prop where
  valid : ∀ l ∈ ls, l.Valid
  derived : ∀ before, ∃ d, tokens d = tokensOf before ls ∧ tree d = a

namespace Spells

variable {δ δ' α α' : Type} {tokens : δ → List Token} {tree : δ → α} {tokens' : δ' → List Token}
  {tree' : δ' → α'} {ls ls' : List Lexeme} {a : α} {a' : α'}

theorem append (h : Spells tokens tree ls a) (h' : Spells tokens' tree' ls' a') :
    Spells (fun d : δ × δ' => tokens d.1 ++ tokens' d.2) (fun d => (tree d.1, tree' d.2))
      (ls ++ ls') (a, a') := by
  refine ⟨List.forall_mem_append.mpr ⟨h.valid, h'.valid⟩, fun before => ?_⟩
  obtain ⟨before', happend⟩ := exists_tokensOf_append before ls ls'
  obtain ⟨d, hd, rfl⟩ := h.derived before
  obtain ⟨d', hd', rfl⟩ := h'.derived before'
  exact ⟨(d, d'), by rw [happend, hd, hd'], rfl⟩

/-- Derivations of the one kind are turned into derivations of another with the same tokens. -/
theorem rule (h : Spells tokens tree ls a) (f : δ → δ') (htokens : ∀ d, tokens' (f d) = tokens d)
    (htree : ∀ d, tree d = a → tree' (f d) = a') : Spells tokens' tree' ls a' := by
  refine ⟨h.valid, fun before => ?_⟩
  obtain ⟨d, hd, hv⟩ := h.derived before
  exact ⟨f d, (htokens d).trans hd, htree d hv⟩

theorem bracket {c : Char} {k : Token.Kind} (h : (Lexeme.bracket c k).Valid) :
    Spells (fun leaf : Leaf k => [leaf.token]) (fun _ => ()) [.bracket c k] () := by
  refine ⟨List.forall_mem_singleton.mpr h, fun before => ?_⟩
  exact ⟨⟨.placed k (.str c.toString) _ _, Token.isOf_iff.mpr rfl, Nat.le_add_left 2 2⟩, rfl, rfl⟩

theorem plain {l : Lexeme} {k : Token.Kind} {v : Value} (hl : l.Valid)
    (h : ∀ line column, l.token line column = .plain k v) :
    Spells (fun leaf : Leaf k => [leaf.token]) (fun leaf => (leaf.value, leaf.line)) [l]
      (v, Token.unknown) := by
  refine ⟨List.forall_mem_singleton.mpr hl, fun before => ?_⟩
  refine ⟨⟨.plain k v, Token.isOf_iff.mpr rfl, Nat.le_refl 2⟩, ?_, rfl⟩
  rw [tokensOf, h, tokensOf]

theorem keyword (s : String) {k : Token.Kind} (hs : (Lexeme.word s).Valid)
    (hk : Token.keywords.lookup s = some k) :
    Spells (fun leaf : Leaf k => [leaf.token]) (fun leaf => (leaf.value, leaf.line)) [.word s]
      (.str s, Token.unknown) :=
  plain hs fun _ _ => by rw [Lexeme.token, Token.ofWord, hk, Option.getD_some]

theorem leftParen : Spells (fun leaf : Leaf .leftParen => [leaf.token]) (fun _ => ())
    [.leftParen] () :=
  bracket rfl

theorem rightParen : Spells (fun leaf : Leaf .rightParen => [leaf.token]) (fun _ => ())
    [.rightParen] () :=
  bracket rfl

theorem comma : Spells (fun leaf : Leaf .comma => [leaf.token])
    (fun leaf => (leaf.value, leaf.line)) [.comma] (.str ",", Token.unknown) :=
  plain rfl fun _ _ => rfl

theorem semicolon : Spells (fun leaf : Leaf .semicolon => [leaf.token])
    (fun leaf => (leaf.value, leaf.line)) [.semicolon] (.str ";", Token.unknown) :=
  plain rfl fun _ _ => rfl

theorem name {v : Value} (h : v.IsName) :
    Spells (fun leaf : Leaf .identifier => [leaf.token]) (fun leaf => (leaf.value, leaf.line))
      [.name v] (v, Token.unknown) := by
  cases h with
  | word hs hkeyword =>
    refine plain hs fun _ _ => ?_
    rw [Lexeme.name, Lexeme.token, Token.ofWord, hkeyword, Option.getD_none]

theorem flatMap {lex : α → List Lexeme} {items : List α}
    (h : ∀ a ∈ items, Spells tokens tree (lex a) a) :
    Spells (List.flatMap tokens) (List.map tree) (items.flatMap lex) items := by
  induction items with
  | nil => exact ⟨List.forall_mem_nil _, fun before => ⟨[], rfl, rfl⟩⟩
  | cons a items ih =>
    have ha := h a List.mem_cons_self
    have hitems := ih fun b hb => h b (List.mem_cons_of_mem a hb)
    refine (ha.append hitems).rule (fun d => d.1 :: d.2) (fun d => List.flatMap_cons) ?_
    rintro d ⟨⟩
    rfl

theorem enclosed {lex : α → List Lexeme} {items : List α}
    (h : ∀ a ∈ items, Spells tokens tree (lex a) a) :
    Spells (Enclosed.tokens tokens) (Enclosed.values tree) (Lexeme.enclosed lex items) items := by
  cases items with
  | nil =>
    exact (leftParen.append rightParen).rule (fun d => .empty d.1 d.2) (fun _ => rfl)
      (fun _ _ => rfl)
  | cons a items =>
    have hothers : Spells (List.flatMap (further tokens)) (List.map fun entry => tree entry.2)
        (items.flatMap fun b => .comma :: lex b) items :=
      flatMap fun b hb => (comma.append (h b (List.mem_cons_of_mem a hb))).rule id
        (fun d => rfl) (fun d hd => (Prod.mk.inj hd).2)
    refine (leftParen.append ((h a List.mem_cons_self).append (hothers.append rightParen))).rule
      (fun d => .items d.1 d.2.1 d.2.2.1 d.2.2.2) (fun d => rfl) ?_
    rintro d ⟨⟩
    rfl

theorem expression {e : Expr} (h : Spells Operand.tokens Operand.tree ls e) :
    Spells Expression.tokens Expression.tree ls e :=
  h.rule .operand (fun d => by rw [Expression.tokens]) (fun d hd => by rw [Expression.tree, hd])

theorem parenthesized {e : Expr} (h : Spells Expression.tokens Expression.tree ls e) :
    Spells Operand.tokens Operand.tree (Lexeme.parenthesized ls) e := by
  refine (leftParen.append (h.append rightParen)).rule (fun d => .paren d.1 d.2.1 d.2.2) ?_ ?_
  · intro d
    rw [Operand.tokens, List.singleton_append]
  · intro d hd
    simp only [Prod.mk.injEq] at hd
    rw [Operand.tree, hd.2.1]

/-- An operand that is one token. -/
theorem leafOperand {l : Lexeme} {k : Token.Kind} {v : Value} (operand : Leaf k → Operand)
    (expr : Value → Value → Expr)
    (h : Spells (fun leaf : Leaf k => [leaf.token]) (fun leaf => (leaf.value, leaf.line)) [l]
      (v, Token.unknown))
    (htokens : ∀ leaf, (operand leaf).tokens = [leaf.token])
    (htree : ∀ leaf, (operand leaf).tree = expr leaf.value leaf.line) :
    Spells Operand.tokens Operand.tree [l] (expr v Token.unknown) := by
  refine h.rule operand htokens fun leaf hleaf => ?_
  obtain ⟨rfl, hline⟩ := Prod.mk.inj hleaf
  rw [htree, hline]

/-- An expression that can be written is spelled by its lexemes, as an operand and as a whole. -/
theorem expr {e : Expr} (h : e.Writable) :
    Spells Operand.tokens Operand.tree (e.operandLexemes e.lexemes) e ∧
      Spells Expression.tokens Expression.tree e.lexemes e := by
  induction h with
  | string s =>
    have hs : Spells _ _ [.string s] _ := plain trivial fun _ _ => rfl
    have hoperand := leafOperand .string .string hs (fun _ => by rw [Operand.tokens])
      (fun _ => by rw [Operand.tree])
    rw [Expr.lexemes]
    exact ⟨hoperand, hoperand.expression⟩
  | @number n hn =>
    have hs : Spells _ _ [.number n] _ := plain hn fun _ _ => rfl
    have hoperand := leafOperand .number .number hs (fun _ => by rw [Operand.tokens])
      (fun _ => by rw [Operand.tree])
    rw [Expr.lexemes, Int.toNat_natCast]
    exact ⟨hoperand, hoperand.expression⟩
  | var hname =>
    have hoperand := leafOperand .var .var (name hname) (fun _ => by rw [Operand.tokens])
      (fun _ => by rw [Operand.tree])
    rw [Expr.lexemes]
    exact ⟨hoperand, hoperand.expression⟩
  | @call v arguments hname _ ih =>
    have harguments := enclosed fun e he => (ih e he).2
    have hoperand : Spells Operand.tokens Operand.tree
        (.name v :: Lexeme.enclosed Expr.lexemes arguments) (.call v arguments Token.unknown) := by
      refine ((name hname).append harguments).rule (fun d => .call d.1 d.2) ?_ ?_
      · intro d
        rw [Operand.tokens, Expression.tokensOfEnclosed_eq, List.singleton_append]
      · intro d hd
        simp only [Prod.mk.injEq] at hd
        obtain ⟨⟨hv, hline⟩, hlist⟩ := hd
        rw [Operand.tree, Expression.treesOfEnclosed_eq, hv, hline, hlist]
    rw [Expr.lexemes, Expr.lexemesOfArguments_eq]
    exact ⟨hoperand, hoperand.expression⟩
  | @sum left right _ _ ihleft ihright =>
    have hplus : Spells _ _ [.sign '+' .plus] _ := plain rfl fun _ _ => rfl
    have hwhole : Spells Expression.tokens Expression.tree
        (left.operandLexemes left.lexemes ++ .sign '+' .plus :: right.lexemes)
        (.sum left right Token.unknown) := by
      refine (ihleft.1.append (hplus.append ihright.2)).rule (fun d => .sum d.1 d.2.1 d.2.2) ?_ ?_
      · intro d
        rw [Expression.tokens, List.singleton_append]
      · intro d hd
        simp only [Prod.mk.injEq] at hd
        obtain ⟨hl, ⟨-, hline⟩, hr⟩ := hd
        rw [Expression.tree, hl, hline, hr]
    rw [Expr.lexemes]
    exact ⟨hwhole.parenthesized, hwhole⟩

theorem printed {e : Expr} (h : Spells Expression.tokens Expression.tree ls e) :
    Spells Printed.tokens Printed.tree (Lexeme.parenthesized ls) e := by
  refine (leftParen.append (h.append rightParen)).rule (fun d => .enclosed d.1 d.2.1 d.2.2)
    (fun _ => rfl) fun d hd => ?_
  simp only [Prod.mk.injEq] at hd
  exact hd.2.1

theorem statement {s : Stmt} (h : s.Writable) :
    Spells Statement.tokens Statement.tree s.lexemes s := by
  cases h with
  | @print e newline he =>
    have hprinted := (expr he).2.printed
    cases newline with
    | false =>
      refine ((keyword "print" (by decide) rfl).append (hprinted.append semicolon)).rule
        (fun d => .print d.1 d.2.1 d.2.2) (fun _ => rfl) fun d hd => ?_
      simp only [Prod.mk.injEq] at hd
      rw [Statement.tree, hd.1.2, hd.2.1]
    | true =>
      refine ((keyword "println" (by decide) rfl).append (hprinted.append semicolon)).rule
        (fun d => .println d.1 d.2.1 d.2.2) (fun _ => rfl) fun d hd => ?_
      simp only [Prod.mk.injEq] at hd
      rw [Statement.tree, hd.1.2, hd.2.1]
  | call hname harguments =>
    have hlist := enclosed fun e he => (expr (harguments e he)).2
    refine ((keyword "call" (by decide) rfl).append
      ((name hname).append (hlist.append semicolon))).rule
      (fun d => .call d.1 d.2.1 (some d.2.2.1) d.2.2.2) (fun _ => rfl) fun d hd => ?_
    simp only [Prod.mk.injEq] at hd
    rw [Statement.tree, hd.2.1.1, Optional.values, Option.elim_some, hd.2.2.1]
  | assign hname he =>
    have hassign : Spells _ _ [.assign] _ := plain trivial fun _ _ => rfl
    refine ((keyword "assign" (by decide) rfl).append
      ((name hname).append (hassign.append ((expr he).2.append semicolon)))).rule
      (fun d => .assign d.1 d.2.1 d.2.2.1 d.2.2.2.1 d.2.2.2.2) (fun _ => rfl) fun d hd => ?_
    simp only [Prod.mk.injEq] at hd
    rw [Statement.tree, hd.1.2, hd.2.1.1, hd.2.2.2.1]

theorem block {body : List Stmt} (h : ∀ s ∈ body, s.Writable) :
    Spells Block.tokens Block.trees (Stmt.blockLexemes body) body := by
  have hopen : Spells _ _ [Lexeme.leftBrace] _ := bracket rfl
  have hclose : Spells _ _ [Lexeme.rightBrace] _ := bracket rfl
  refine (hopen.append ((flatMap fun s hs => statement (h s hs)).append hclose)).rule
    (fun d => ⟨d.1, d.2.1, d.2.2⟩) (fun _ => rfl) fun d hd => ?_
  simp only [Prod.mk.injEq] at hd
  exact hd.2.1

theorem declaration {d : Decl} (h : d.Writable) :
    Spells Declaration.tokens Declaration.tree d.lexemes d := by
  cases h with
  | @function _ params _ hname hparams hbody =>
    have hcolon : Spells _ _ [.sign ':' .colon] _ := plain rfl fun _ _ => rfl
    have hlist : Spells (Enclosed.tokens fun leaf => [leaf.token]) (Enclosed.values Leaf.value)
        (Lexeme.enclosed (fun param => [.name param]) params) params :=
      enclosed fun v hv => (name (hparams v hv)).rule id (fun _ => rfl)
        (fun leaf hleaf => (Prod.mk.inj hleaf).1)
    refine ((keyword "func" (by decide) rfl).append (hcolon.append ((name hname).append
      (hlist.append (block hbody))))).rule
      (fun d => .function d.1 d.2.1 d.2.2.1 (some d.2.2.2.1) d.2.2.2.2) (fun _ => rfl)
      fun d hd => ?_
    simp only [Prod.mk.injEq] at hd
    rw [Declaration.tree, hd.2.2.1.1, Optional.values, Option.elim_some, hd.2.2.2.1, hd.2.2.2.2]
  | entry hbody =>
    refine ((keyword "enter" (by decide) rfl).append (block hbody)).rule (fun d => .entry d.1 d.2)
      (fun _ => rfl) fun d hd => ?_
    simp only [Prod.mk.injEq] at hd
    rw [Declaration.tree, hd.2]

theorem program {p : Program} (h : p.Writable) :
    Spells Derivation.tokens Derivation.program (p.body.flatMap Decl.lexemes) p :=
  (flatMap fun d hd => declaration (h d hd)).rule Derivation.mk (fun _ => rfl)
    (fun _ hd => congrArg Program.mk hd)

end Spells

end Derivation

/-- A program that can be written is read back from its source, and the node that is read is the
node of that program and of no other. -/
theorem Program.ofSource_render (program : Program) (h : program.Writable) :
    ∃ tokens, Token.ofSource program.render = .ok tokens ∧
      ∀ depth, 3 * tokens.length + 2 ≤ depth → Program.ofTokens depth tokens = .ok program ∧
        ∀ other : Program,
          (Program.ofTokens depth tokens).map Program.toNode = .ok other.toNode ↔
            other = program := by
  have hspells := Derivation.Spells.program h
  obtain ⟨d, htokens, rfl⟩ := hspells.derived []
  refine ⟨d.tokens, ?_, fun depth hdepth => ?_⟩
  · rw [htokens]
    exact Scanner.ofSource_spaced hspells.valid
  · have hread : Program.ofTokens depth d.tokens = .ok d.program := by
      rw [Program.ofTokens, Parse.program_complete d hdepth]
    refine ⟨hread, fun other => ?_⟩
    rw [hread, Except.map, Except.ok.injEq, Program.toNode_injective.eq_iff]
    exact eq_comm

/-- `func : f ( x ) { assign y = ( x + "\"\\" ) + 12 ; }`, with a sum on the left and a string that
needs a backslash before each of its characters. -/
def Program.nestedSum : Program :=
  ⟨[.function (.str "f") [.str "x"] [.assign (.str "y")
    (.sum (.sum (.var (.str "x") Token.unknown) (.string (.str "\"\\") Token.unknown) Token.unknown)
      (.number (.int 12) Token.unknown) Token.unknown) Token.unknown]]⟩

theorem Program.ofSource_render_nestedSum :
    nestedSum.Writable ∧
      nestedSum.render = "func : f ( x ) \x7b assign y = ( x + \"\\\"\\\\\" ) + 12 ; \x7d" ∧
      ∃ tokens, Token.ofSource nestedSum.render = .ok tokens ∧
        ∀ depth, 3 * tokens.length + 2 ≤ depth → Program.ofTokens depth tokens = .ok nestedSum ∧
          ∀ other : Program,
            (Program.ofTokens depth tokens).map Program.toNode = .ok other.toNode ↔
              other = nestedSum := by
  have hname : ∀ s ∈ ["f", "x", "y"], (Value.str s).IsName := by
    intro s hs
    have hword : ∀ s ∈ ["f", "x", "y"], (Lexeme.word s).Valid ∧ Token.keywords.lookup s = none := by
      decide
    exact .word (hword s hs).1 (hword s hs).2
  have hwritable : nestedSum.Writable := by
    refine List.forall_mem_singleton.mpr (.function (hname "f" (by decide)) ?_ ?_)
    · exact List.forall_mem_singleton.mpr (hname "x" (by decide))
    · refine List.forall_mem_singleton.mpr (.assign (hname "y" (by decide)) ?_)
      exact .sum (.sum (.var (hname "x" (by decide))) (.string _)) (.number (n := 12) (by decide))
  exact ⟨hwritable, by decide, ofSource_render nestedSum hwritable⟩

end Scriptlet
