import Mathlib.Algebra.BigOperators.Group.List.Basic
import Scriptlet.Proofs.Nodes
import Scriptlet.Proofs.Parsing

/-! Statements, blocks and declarations are read as they are derived, and a list of tokens is
accepted exactly if the grammar derives it. -/
namespace Scriptlet.Parse

open Scriptlet.Derivation

variable {k : Token.Kind}

theorem name_sound : Sound name (fun leaf : Leaf .identifier => [leaf.token]) Leaf.value := by
  intro pos ts a c hv h
  obtain ⟨t, u, ht, h⟩ := run_bind_ok_iff.mp h
  obtain ⟨leaf, rest, rfl, rfl, rfl⟩ := expectKind_sound hv ht
  rw [leaf.value_token, run_lift_ok] at h
  obtain ⟨rfl, rfl⟩ := EStateM.Result.ok.inj h
  exact ⟨leaf, rest, rfl, rfl, rfl⟩

theorem run_name_leaf (leaf : Leaf .identifier) (pos : Nat) (rest : List Token) :
    name.run ⟨pos, leaf.token :: rest⟩ = .ok leaf.value ⟨pos + 1, rest⟩ := by
  rw [name, run_bind_of_ok (run_expectKind_leaf leaf _ _), leaf.value_token, run_lift_ok]

theorem avoids_of_isAt {pos : Nat} {ts : List Token} (hv : Valued ts)
    (h : ¬ Cursor.isAt k ⟨pos, ts⟩ = true) : Avoids k ts := by
  intro t ht
  cases ts with
  | nil => cases ht
  | cons u rest =>
    obtain rfl : u = t := Option.some.inj ht
    rw [Cursor.isAt, token?_cons (hv u List.mem_cons_self), Option.any_some] at h
    exact Bool.eq_false_iff.mpr h

theorem printed_sound (depth : Nat) : Sound (printed depth) Printed.tokens Printed.tree := by
  have he := (expression_sound depth).1
  intro pos ts a c hv h
  rw [printed, run_get_bind] at h
  split at h
  · obtain ⟨t, u, hopen, h⟩ := run_bind_ok_iff.mp h
    obtain ⟨opening, rest, rfl, rfl, rfl⟩ := expectKind_sound hv hopen
    obtain ⟨inner, u, hinner, h⟩ := run_bind_ok_iff.mp h
    obtain ⟨e, rest, rfl, rfl, rfl⟩ := he hv.of_append hinner
    obtain ⟨t, u, hclose, h⟩ := run_bind_ok_iff.mp h
    obtain ⟨rfl, rfl⟩ := run_pure_ok_iff.mp h
    obtain ⟨closing, rest, rfl, rfl, rfl⟩ := expectKind_sound hv.of_append.of_append hclose
    refine ⟨.enclosed opening e closing, rest, ?_, rfl, ?_⟩
    · simp [Printed.tokens]
    · simp [Printed.tokens, Nat.add_assoc, Nat.add_comm 1]
  · next hat =>
    have hplain := avoids_of_isAt hv hat
    obtain ⟨e, rest, rfl, rfl, rfl⟩ := he hv h
    obtain ⟨k, leaf, ts, ht, -⟩ := e.begins
    refine ⟨.bare e ?_, rest, rfl, rfl, rfl⟩
    intro t hm
    rw [ht] at hm hplain
    exact hplain t hm

theorem printed_complete {bound depth : Nat} (hdepth : 3 * bound + 2 ≤ depth) :
    Complete bound Ends (printed depth) Printed.tokens Printed.tree := by
  have he := (expression_complete bound).1 depth hdepth
  intro p pos rest hlen hrest
  cases p with
  | enclosed opening inner closing =>
    simp only [Printed.tokens, Printed.tree, List.cons_append, List.append_assoc, List.nil_append,
      List.length_cons, List.length_append] at hlen ⊢
    have hat : Cursor.isAt .leftParen
        ⟨pos, opening.token :: (inner.tokens ++ closing.token :: rest)⟩ = true := by simp
    rw [printed, run_get_bind, if_pos hat, run_bind_of_ok (run_expectKind_leaf opening _ _),
      run_bind_of_ok (he inner _ _ (by omega) (ends_leaf (by decide) closing rest)),
      run_bind_of_ok (run_expectKind_leaf closing _ _), EStateM.run_pure]
    simp only [EStateM.Result.ok.injEq, Cursor.mk.injEq, List.length_nil, and_true, true_and]
    omega
  | bare inner plain =>
    have hat : Cursor.isAt .leftParen ⟨pos, inner.tokens ++ rest⟩ = false := by
      obtain ⟨k, leaf, ts, ht, -⟩ := inner.begins
      refine isAt_eq_false fun t hm => plain t ?_
      rw [ht] at hm ⊢
      exact hm
    simp only [Printed.tokens, Printed.tree] at hlen ⊢
    rw [printed, run_get_bind, if_neg (Bool.eq_false_iff.mp hat)]
    exact he inner pos rest hlen hrest

theorem printStatement_sound (depth : Nat) (newline : Bool) :
    Sound (printStatement depth k newline)
      (fun d : Leaf k × Printed × Leaf .semicolon =>
        d.1.token :: (d.2.1.tokens ++ [d.2.2.token]))
      fun d => .print d.2.1.tree newline d.1.line := by
  intro pos ts a c hv h
  obtain ⟨t, u, hkey, h⟩ := run_bind_ok_iff.mp h
  obtain ⟨keyword, rest, rfl, rfl, rfl⟩ := expectKind_sound hv hkey
  obtain ⟨inner, u, hinner, h⟩ := run_bind_ok_iff.mp h
  obtain ⟨p, rest, rfl, rfl, rfl⟩ := printed_sound depth hv.of_append hinner
  obtain ⟨t, u, hend, h⟩ := run_bind_ok_iff.mp h
  obtain ⟨rfl, rfl⟩ := run_pure_ok_iff.mp h
  obtain ⟨semicolon, rest, rfl, rfl, rfl⟩ := expectKind_sound hv.of_append.of_append hend
  refine ⟨(keyword, p, semicolon), rest, ?_, ?_, ?_⟩
  · simp
  · rw [keyword.line_token]
  · simp [Nat.add_assoc, Nat.add_comm 1]

theorem run_printStatement {bound depth : Nat} (hdepth : 3 * bound + 2 ≤ depth) (newline : Bool)
    (keyword : Leaf k) (p : Printed) (semicolon : Leaf .semicolon) (pos : Nat) (rest : List Token)
    (hlen : p.tokens.length ≤ bound) :
    (printStatement depth k newline).run
        ⟨pos, keyword.token :: (p.tokens ++ semicolon.token :: rest)⟩ =
      .ok (.print p.tree newline keyword.line) ⟨pos + (p.tokens.length + 2), rest⟩ := by
  rw [printStatement, run_bind_of_ok (run_expectKind_leaf keyword _ _),
    run_bind_of_ok (printed_complete hdepth p _ _ hlen
      (ends_leaf (by decide) semicolon rest)),
    run_bind_of_ok (run_expectKind_leaf semicolon _ _), EStateM.run_pure, keyword.line_token]
  simp only [EStateM.Result.ok.injEq, Cursor.mk.injEq, and_true, true_and]
  omega

theorem callStatement_sound (depth : Nat) :
    Sound (callStatement depth)
      (fun d : Leaf .call × Leaf .identifier × Optional Expression × Leaf .semicolon =>
        d.1.token :: d.2.1.token :: (d.2.2.1.tokens Expression.tokens ++ [d.2.2.2.token]))
      fun d => .call d.2.1.value (d.2.2.1.values Expression.tree) := by
  intro pos ts a c hv h
  obtain ⟨t, u, hkey, h⟩ := run_bind_ok_iff.mp h
  obtain ⟨keyword, rest, rfl, rfl, rfl⟩ := expectKind_sound hv hkey
  obtain ⟨f, u, hname, h⟩ := run_bind_ok_iff.mp h
  obtain ⟨function, rest, rfl, rfl, rfl⟩ := name_sound hv.of_append hname
  obtain ⟨as, u, hlist, h⟩ := run_bind_ok_iff.mp h
  obtain ⟨arguments, rest, rfl, rfl, rfl⟩ :=
    optionalList_sound (expression_sound depth).1 hv.of_append.of_append hlist
  obtain ⟨t, u, hend, h⟩ := run_bind_ok_iff.mp h
  obtain ⟨rfl, rfl⟩ := run_pure_ok_iff.mp h
  obtain ⟨semicolon, rest, rfl, rfl, rfl⟩ :=
    expectKind_sound hv.of_append.of_append.of_append hend
  refine ⟨(keyword, function, arguments, semicolon), rest, ?_, rfl, ?_⟩
  · simp
  · simp only [List.length_cons, List.length_append, List.length_nil, Cursor.mk.injEq, and_true]
    omega

theorem assignment_sound (depth : Nat) :
    Sound (assignment depth)
      (fun d : Leaf .assign × Leaf .identifier × Leaf .assign × Expression × Leaf .semicolon =>
        d.1.token :: d.2.1.token :: d.2.2.1.token :: (d.2.2.2.1.tokens ++ [d.2.2.2.2.token]))
      fun d => .assign d.2.1.value d.2.2.2.1.tree d.1.line := by
  intro pos ts a c hv h
  obtain ⟨t, u, hkey, h⟩ := run_bind_ok_iff.mp h
  obtain ⟨keyword, rest, rfl, rfl, rfl⟩ := expectKind_sound hv hkey
  obtain ⟨x, u, hname, h⟩ := run_bind_ok_iff.mp h
  obtain ⟨target, rest, rfl, rfl, rfl⟩ := name_sound hv.of_append hname
  obtain ⟨t, u, hsign, h⟩ := run_bind_ok_iff.mp h
  obtain ⟨sign, rest, rfl, rfl, rfl⟩ := expectKind_sound hv.of_append.of_append hsign
  obtain ⟨v, u, hvalue, h⟩ := run_bind_ok_iff.mp h
  obtain ⟨value, rest, rfl, rfl, rfl⟩ :=
    (expression_sound depth).1 hv.of_append.of_append.of_append hvalue
  obtain ⟨t, u, hend, h⟩ := run_bind_ok_iff.mp h
  obtain ⟨rfl, rfl⟩ := run_pure_ok_iff.mp h
  obtain ⟨semicolon, rest, rfl, rfl, rfl⟩ :=
    expectKind_sound hv.of_append.of_append.of_append.of_append hend
  refine ⟨(keyword, target, sign, value, semicolon), rest, ?_, ?_, ?_⟩
  · simp
  · rw [keyword.line_token]
  · simp only [List.length_cons, List.length_append, List.length_nil, Cursor.mk.injEq, and_true]
    omega

theorem not_ok_unexpected {α : Type} {t : Token} {c c' : Cursor} {a : α} :
    (unexpected t : Parse α).run c ≠ .ok a c' := by
  simp only [unexpected, ne_eq, run_bind_ok_iff, run_throw, reduceCtorEq, and_false, exists_false,
    not_false_eq_true]

theorem statement_sound (depth : Nat) :
    Sound (statement depth) Statement.tokens Statement.tree := by
  intro pos ts a c hv h
  rw [statement, run_get_bind] at h
  cases ts with
  | nil => simp [Cursor.token?, Cursor.current?] at h
  | cons t rest =>
    simp only [token?_cons (hv t List.mem_cons_self)] at h
    split at h
    · obtain ⟨⟨keyword, p, semicolon⟩, rest, hd⟩ := printStatement_sound depth false hv h
      exact ⟨.print keyword p semicolon, rest, hd⟩
    split at h
    · obtain ⟨⟨keyword, p, semicolon⟩, rest, hd⟩ := printStatement_sound depth true hv h
      exact ⟨.println keyword p semicolon, rest, hd⟩
    split at h
    · obtain ⟨⟨keyword, function, arguments, semicolon⟩, rest, hd⟩ := callStatement_sound depth hv h
      exact ⟨.call keyword function arguments semicolon, rest, hd⟩
    split at h
    · obtain ⟨⟨keyword, target, sign, value, semicolon⟩, rest, hd⟩ := assignment_sound depth hv h
      exact ⟨.assign keyword target sign value semicolon, rest, hd⟩
    split at h
    · cases h
    · exact absurd h not_ok_unexpected

theorem statement_complete {bound depth : Nat} (hdepth : 3 * bound + 2 ≤ depth) :
    Complete bound (fun _ => True) (statement depth) Statement.tokens Statement.tree := by
  have he := (expression_complete bound).1 depth hdepth
  intro d pos rest hlen _
  cases d with
  | print keyword p semicolon =>
    simp only [Statement.tokens, Statement.tree, List.cons_append, List.append_assoc,
      List.nil_append, List.length_cons, List.length_append, List.length_nil] at hlen ⊢
    rw [statement, run_get_bind]
    simp only [token?_leaf, keyword.isOf_token, decide_true, if_true]
    exact run_printStatement hdepth false keyword p semicolon pos rest (by omega)
  | println keyword p semicolon =>
    simp only [Statement.tokens, Statement.tree, List.cons_append, List.append_assoc,
      List.nil_append, List.length_cons, List.length_append, List.length_nil] at hlen ⊢
    rw [statement, run_get_bind]
    simp only [token?_leaf, keyword.isOf_token, reduceCtorEq, decide_false, Bool.false_eq_true,
      if_false, decide_true, if_true]
    exact run_printStatement hdepth true keyword p semicolon pos rest (by omega)
  | call keyword function arguments semicolon =>
    simp only [Statement.tokens, Statement.tree, List.cons_append, List.append_assoc,
      List.nil_append, List.length_cons, List.length_append, List.length_nil] at hlen ⊢
    rw [statement, run_get_bind]
    simp only [token?_leaf, keyword.isOf_token, reduceCtorEq, decide_false, Bool.false_eq_true,
      if_false, decide_true, if_true]
    rw [callStatement, run_bind_of_ok (run_expectKind_leaf keyword _ _),
      run_bind_of_ok (run_name_leaf function _ _),
      run_bind_of_ok (optionalList_complete he Expression.begins arguments _ _ (by omega)
        (fun pos => isAt_leaf semicolon pos rest)),
      run_bind_of_ok (run_expectKind_leaf semicolon _ _), EStateM.run_pure]
    simp only [EStateM.Result.ok.injEq, Cursor.mk.injEq, and_true, true_and]
    omega
  | assign keyword target sign value semicolon =>
    simp only [Statement.tokens, Statement.tree, List.cons_append, List.append_assoc,
      List.nil_append, List.length_cons, List.length_append, List.length_nil] at hlen ⊢
    rw [statement, run_get_bind]
    simp only [token?_leaf, keyword.isOf_token, reduceCtorEq, decide_false, Bool.false_eq_true,
      if_false, decide_true, if_true]
    rw [assignment, run_bind_of_ok (run_expectKind_leaf keyword _ _),
      run_bind_of_ok (run_name_leaf target _ _), run_bind_of_ok (run_expectKind_leaf sign _ _),
      run_bind_of_ok (he value _ _ (by omega) (ends_leaf (by decide) semicolon rest)),
      run_bind_of_ok (run_expectKind_leaf semicolon _ _), EStateM.run_pure, keyword.line_token]
    simp only [EStateM.Result.ok.injEq, Cursor.mk.injEq, and_true, true_and]
    omega

theorem block_sound (depth : Nat) : Sound (block depth) Block.tokens Block.trees := by
  intro pos ts a c hv h
  obtain ⟨t, u, hopen, h⟩ := run_bind_ok_iff.mp h
  obtain ⟨opening, rest, rfl, rfl, rfl⟩ := expectKind_sound hv hopen
  rw [run_get_bind] at h
  obtain ⟨bs, u, hbody, h⟩ := run_bind_ok_iff.mp h
  obtain ⟨body, rest, rfl, rfl, rfl, -⟩ :=
    collectWhile_sound (fun _ _ _ _ hv _ h => statement_sound depth hv h) _ hv.of_append hbody
  obtain ⟨t, u, hclose, h⟩ := run_bind_ok_iff.mp h
  obtain ⟨rfl, rfl⟩ := run_pure_ok_iff.mp h
  obtain ⟨closing, rest, rfl, rfl, rfl⟩ := expectKind_sound hv.of_append.of_append hclose
  refine ⟨⟨opening, body, closing⟩, rest, ?_, rfl, ?_⟩
  · simp [Block.tokens]
  · simp [Block.tokens, Nat.add_assoc, Nat.add_comm 1]

theorem block_complete {bound depth : Nat} (hdepth : 3 * bound + 2 ≤ depth) :
    Complete bound (fun _ => True) (block depth) Block.tokens Block.trees := by
  have hmore : ∀ (d : Statement) pos rest,
      Cursor.isBefore .rightBrace ⟨pos, d.tokens ++ rest⟩ = true := by
    intro d pos rest
    cases d <;> exact isBefore_leaf _ _ _
  have hpos : ∀ d : Statement, 0 < d.tokens.length := by
    intro d
    cases d <;> exact Nat.succ_pos _
  rintro ⟨opening, body, closing⟩ pos rest hlen _
  simp only [Block.tokens, Block.trees, List.cons_append, List.append_assoc, List.nil_append,
    List.length_cons, List.length_append, List.length_nil] at hlen ⊢
  rw [block, run_bind_of_ok (run_expectKind_leaf opening _ _), run_get_bind,
    run_bind_of_ok (collectWhile_complete (statement_complete hdepth) hmore (fun _ _ => trivial)
      hpos _ body _ _ (by omega) (by simp) trivial (fun pos => isBefore_leaf closing pos rest)),
    run_bind_of_ok (run_expectKind_leaf closing _ _), EStateM.run_pure]
  simp only [EStateM.Result.ok.injEq, Cursor.mk.injEq, and_true, true_and]
  omega

theorem declaration_sound (depth : Nat) :
    Sound (declaration depth) Declaration.tokens Declaration.tree := by
  intro pos ts a c hv h
  rw [declaration, run_get_bind] at h
  cases ts with
  | nil => simp [Cursor.token?, Cursor.current?] at h
  | cons t rest =>
    simp only [token?_cons (hv t List.mem_cons_self)] at h
    split at h
    · obtain ⟨t, u, hkey, h⟩ := run_bind_ok_iff.mp h
      obtain ⟨keyword, rest, hts, rfl, rfl⟩ := expectKind_sound hv hkey
      rw [hts] at hv ⊢
      obtain ⟨t, u, hcolon, h⟩ := run_bind_ok_iff.mp h
      obtain ⟨colon, rest, rfl, rfl, rfl⟩ := expectKind_sound hv.of_append hcolon
      obtain ⟨t, u, hname, h⟩ := run_bind_ok_iff.mp h
      obtain ⟨function, rest, rfl, rfl, rfl⟩ := expectKind_sound hv.of_append.of_append hname
      obtain ⟨ps, u, hparams, h⟩ := run_bind_ok_iff.mp h
      obtain ⟨params, rest, rfl, rfl, rfl⟩ :=
        optionalList_sound name_sound hv.of_append.of_append.of_append hparams
      obtain ⟨bs, u, hbody, h⟩ := run_bind_ok_iff.mp h
      obtain ⟨body, rest, rfl, rfl, rfl⟩ :=
        block_sound depth hv.of_append.of_append.of_append.of_append hbody
      rw [function.value_token, run_bind_of_ok (run_lift_ok _ _)] at h
      obtain ⟨rfl, rfl⟩ := run_pure_ok_iff.mp h
      refine ⟨.function keyword colon function params body, rest, ?_, rfl, ?_⟩
      · simp [Declaration.tokens]
      · simp only [Declaration.tokens, List.length_cons, List.length_append, List.length_nil,
          Cursor.mk.injEq, and_true]
        omega
    split at h
    · obtain ⟨t, u, hkey, h⟩ := run_bind_ok_iff.mp h
      obtain ⟨keyword, rest, hts, rfl, rfl⟩ := expectKind_sound hv hkey
      rw [hts] at hv ⊢
      obtain ⟨bs, u, hbody, h⟩ := run_bind_ok_iff.mp h
      obtain ⟨rfl, rfl⟩ := run_pure_ok_iff.mp h
      obtain ⟨body, rest, rfl, rfl, rfl⟩ := block_sound depth hv.of_append hbody
      refine ⟨.entry keyword body, rest, rfl, rfl, ?_⟩
      simp [Declaration.tokens, Nat.add_assoc, Nat.add_comm 1]
    · exact absurd h not_ok_unexpected

theorem declaration_complete {bound depth : Nat} (hdepth : 3 * bound + 2 ≤ depth) :
    Complete bound (fun _ => True) (declaration depth) Declaration.tokens Declaration.tree := by
  intro d pos rest hlen _
  cases d with
  | function keyword colon function params body =>
    simp only [Declaration.tokens, Declaration.tree, List.cons_append, List.append_assoc,
      List.length_cons, List.length_append] at hlen ⊢
    have hnames : Complete bound Ends name (fun leaf : Leaf .identifier => [leaf.token])
        Leaf.value :=
      fun leaf pos rest _ _ => run_name_leaf leaf pos rest
    rw [declaration, run_get_bind]
    simp only [token?_leaf, keyword.isOf_token, decide_true, if_true]
    rw [functionDeclaration, run_bind_of_ok (run_expectKind_leaf keyword _ _),
      run_bind_of_ok (run_expectKind_leaf colon _ _),
      run_bind_of_ok (run_expectKind_leaf function _ _),
      run_bind_of_ok (optionalList_complete hnames startsItem_name params _ (body.tokens ++ rest)
        (by omega) (fun pos => isAt_leaf body.opening pos _)),
      run_bind_of_ok (block_complete hdepth body _ rest (by omega) trivial), function.value_token,
      run_bind_of_ok (run_lift_ok _ _), EStateM.run_pure]
    simp only [EStateM.Result.ok.injEq, Cursor.mk.injEq, and_true, true_and]
    omega
  | entry keyword body =>
    simp only [Declaration.tokens, Declaration.tree, List.cons_append, List.length_cons] at hlen ⊢
    rw [declaration, run_get_bind]
    simp only [token?_leaf, keyword.isOf_token, reduceCtorEq, decide_false, Bool.false_eq_true,
      if_false, decide_true, if_true]
    rw [entryBlock, run_bind_of_ok (run_expectKind_leaf keyword _ _),
      run_bind_of_ok (block_complete hdepth body _ rest (by omega) trivial), EStateM.run_pure,
      Nat.add_assoc, Nat.add_comm 1]

theorem declaration_tokens_pos (d : Declaration) : 0 < d.tokens.length := by
  cases d <;> exact Nat.succ_pos _

/-- What is accepted at any depth is derived, and no token is left. -/
theorem program_sound {depth : Nat} {tokens : List Token} {program : Program} {c : Cursor}
    (hv : Valued tokens)
    (h : (Parse.program depth).run (Cursor.ofTokens tokens) = .ok program c) :
    c = ⟨tokens.length, []⟩ ∧ ∃ d : Derivation, d.tokens = tokens ∧ d.program = program := by
  rw [Parse.program, run_get_bind] at h
  obtain ⟨body, u, hbody, h⟩ := run_bind_ok_iff.mp h
  obtain ⟨rfl, rfl⟩ := run_pure_ok_iff.mp h
  obtain ⟨ds, rest, hts, rfl, rfl, hend⟩ := collectWhile_sound
    (fun _ _ _ _ hv _ h => declaration_sound depth hv h) _ hv hbody
  have hrest : rest = [] := by
    cases rest with
    | nil => rfl
    | cons t rest =>
      -- a token that is left would have begun another round, and rounds are as many as tokens
      have ht : 2 ≤ t.fields.length := hv t (by simp [hts])
      have hrounds := hend (by rw [token?_cons ht]; rfl)
      have hlen : ds.length ≤ (ds.flatMap Declaration.tokens).length := by
        rw [List.length_flatMap, ← List.length_map fun d : Declaration => d.tokens.length]
        refine List.length_le_sum_of_one_le _ fun n hn => ?_
        obtain ⟨d, -, rfl⟩ := List.mem_map.mp hn
        exact declaration_tokens_pos d
      have htotal := congrArg List.length hts
      simp only [Cursor.ofTokens, List.length_append, List.length_cons] at hrounds htotal
      omega
  subst hrest
  rw [List.append_nil] at hts
  exact ⟨by rw [hts, Nat.zero_add], ⟨ds⟩, hts.symm, rfl⟩

/-- What is derived is accepted at any depth of at least three times the number of tokens and two
more. -/
theorem program_complete (d : Derivation) {depth : Nat} (hdepth : 3 * d.tokens.length + 2 ≤ depth) :
    (Parse.program depth).run (Cursor.ofTokens d.tokens) = .ok d.program ⟨d.tokens.length, []⟩ := by
  have hmore : ∀ (d : Declaration) pos rest,
      (Cursor.mk pos (d.tokens ++ rest)).token?.isSome = true := by
    intro d pos rest
    cases d <;> exact congrArg Option.isSome (token?_leaf _ _ _)
  have hbody : (collectWhile (·.token?.isSome) (declaration depth) d.tokens.length).run
      ⟨0, d.tokens ++ []⟩ = .ok (d.declarations.map Declaration.tree) ⟨0 + d.tokens.length, []⟩ :=
    collectWhile_complete (declaration_complete hdepth) hmore (fun _ _ => trivial)
      declaration_tokens_pos d.tokens.length d.declarations 0 [] (Nat.le_refl _) (Nat.le_refl _)
      trivial (fun _ => rfl)
  rw [List.append_nil, Nat.zero_add] at hbody
  rw [Parse.program, run_get_bind]
  exact run_bind_of_ok hbody

/-- Tokens with values are accepted exactly if the grammar derives them. Whatever is accepted has
one derivation only, which reaches to the last token, and the program is read off it. The node of
that program is the node of no other. -/
theorem accepts_iff_derivation (tokens : List Token) (hv : ∀ t ∈ tokens, 2 ≤ t.fields.length) :
    (∀ depth, 3 * tokens.length + 2 ≤ depth →
      ((∃ program c, (parse depth []).run (Cursor.ofTokens tokens) = .ok program c) ↔
        ∃ d : Derivation, d.tokens = tokens)) ∧
    (∀ depth program c, (parse depth []).run (Cursor.ofTokens tokens) = .ok program c →
      c = ⟨tokens.length, []⟩ ∧
        ∃ d : Derivation, d.tokens = tokens ∧ d.program = program ∧
          ∀ other : Derivation, other.tokens = tokens → other = d) ∧
    ∀ depth node c, (Program.toNode <$> parse depth []).run (Cursor.ofTokens tokens) = .ok node c →
      c = ⟨tokens.length, []⟩ ∧
        ∃ d : Derivation, d.tokens = tokens ∧
          ∀ program : Program, program.toNode = node ↔ program = d.program := by
  refine ⟨fun depth hdepth => ⟨?_, ?_⟩, ?_, ?_⟩
  · rintro ⟨program, c, h⟩
    obtain ⟨-, d, hd, -⟩ := program_sound hv h
    exact ⟨d, hd⟩
  · rintro ⟨d, rfl⟩
    exact ⟨_, _, program_complete d hdepth⟩
  · intro depth program c h
    obtain ⟨hc, d, hd, hp⟩ := program_sound hv h
    exact ⟨hc, d, hd, hp, fun other ho => tokens_injective (ho.trans hd.symm)⟩
  · intro depth node c h
    rw [map_eq_pure_bind] at h
    obtain ⟨program, c', hparse, hnode⟩ := run_bind_ok_iff.mp h
    obtain ⟨rfl, rfl⟩ := run_pure_ok_iff.mp hnode
    obtain ⟨hc, d, hd, rfl⟩ := program_sound hv hparse
    exact ⟨hc, d, hd, fun _ => Program.toNode_injective.eq_iff⟩

/-- The tokens of `enter { print (f(1) + x); }`, of which the braces know their places. -/
def printedCall : List Token :=
  [.plain .enter (.str "enter"), .placed .leftBrace (.str "\x7b") 1 7, .plain .print (.str "print"),
   .placed .leftParen (.str "(") 1 15, .plain .identifier (.str "f"),
   .placed .leftParen (.str "(") 1 17, .plain .number (.int 1), .placed .rightParen (.str ")") 1 19,
   .plain .plus (.str "+"), .plain .identifier (.str "x"), .placed .rightParen (.str ")") 1 24,
   .plain .semicolon (.str ";"), .placed .rightBrace (.str "\x7d") 1 27]

theorem accepts_printedCall :
    (∀ t ∈ printedCall, 2 ≤ t.fields.length) ∧
      ∃ d : Derivation, d.tokens = printedCall ∧
        d.program = ⟨[.entry [.print
          (.sum (.call (.str "f") [.number (.int 1) Token.unknown] Token.unknown)
            (.var (.str "x") Token.unknown) Token.unknown) false Token.unknown]]⟩ ∧
        ∀ other : Derivation, other.tokens = printedCall → other = d := by
  have hv : ∀ t ∈ printedCall, 2 ≤ t.fields.length := by decide
  have hparse : (parse 41 []).run (Cursor.ofTokens printedCall) = .ok _ _ := rfl
  exact ⟨hv, ((accepts_iff_derivation printedCall hv).2.1 41 _ _ hparse).2⟩

end Scriptlet.Parse
