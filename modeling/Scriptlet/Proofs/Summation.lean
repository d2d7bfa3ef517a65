import Scriptlet.Proofs.Sustaining
import Scriptlet.Proofs.Viability

/-! The value of a sum. Operands with plus signs between them are read as one expression. A visit of
it visits the operands in turn, each of them once, and adds their values when all of them are there:
integers to their sum, texts to one text. -/
namespace Scriptlet

/-- An integer, a text or nothing. -/
inductive Value.Simple : Value → Prop
  | null : Simple .null
  | int (z : Int) : Simple (.int z)
  | text (s : String) : Simple (.str s)

/-- What the values of operands add up to, if there is at least one. -/
inductive Value.Totals : List Value → Except Fault Value → Prop
  | single (v : Value) : Totals [v] (.ok v)
  | integers (zs : List Int) : Totals (zs.map .int) (.ok (.int (zs.foldr (· + ·) 0)))
  | texts (ss : List String) : Totals (ss.map .str) (.ok (.str (String.join ss)))
  | others {vs : List Value} {fault : Fault} : vs.length ≠ 1 → (∀ zs : List Int, vs ≠ zs.map .int) →
      (∀ ss : List String, vs ≠ ss.map .str) → fault.kind = .type → Totals vs (.error fault)

namespace Derivation

/-- Operands with plus signs between them. -/
structure Summation where
  first : Operand
  others : List (Leaf .plus × Operand)

namespace Summation

def tokens (s : Summation) : List Token :=
  s.first.tokens ++ s.others.flatMap fun link => link.1.token :: link.2.tokens

def last (s : Summation) : Operand :=
  (s.others.map Prod.snd).getLastD s.first

/-- Sums nest to the right. -/
def treeOf (first : Operand) : List (Leaf .plus × Operand) → Expr
  | [] => first.tree
  | (plus, next) :: others => .sum first.tree (treeOf next others) plus.line

def tree (s : Summation) : Expr :=
  treeOf s.first s.others

end Summation

end Derivation

namespace Machine

/-- Visits an expression at its depth. -/
def visitAt [Clock] (entry : Nat × Expr) : Run Value :=
  visit entry.1 entry.2.toNode

/-- Operands, each with the depth at which it is visited: every sum takes two levels. -/
def levelsOf (limit : Nat) (first : Expr) : List Expr → List (Nat × Expr)
  | [] => [(limit, first)]
  | next :: others => (limit - 2, first) :: levelsOf (limit - 2) next others

end Machine

/-- The operands of a sum, each with the depth at which it is visited. -/
def Derivation.Summation.levels (s : Summation) (limit : Nat) : List (Nat × Expr) :=
  Machine.levelsOf limit s.first.tree (s.others.map fun link => link.2.tree)

namespace Derivation.Summation

open Parse

variable {rest : List Token}

section Cons

variable (first next : Operand) (plus : Leaf .plus) (others : List (Leaf .plus × Operand))

theorem tokens_cons :
    tokens ⟨first, (plus, next) :: others⟩ =
      first.tokens ++ plus.token :: tokens ⟨next, others⟩ := by
  simp [tokens]

theorem last_cons : last ⟨first, (plus, next) :: others⟩ = last ⟨next, others⟩ :=
  List.getLastD_cons

end Cons

/-- An operand is read at any depth of at least three times the number of its tokens. -/
theorem run_operand_of_le {o : Operand} {depth : Nat} (pos : Nat) (hends : EndsBefore rest o)
    (hdepth : 3 * o.tokens.length ≤ depth) :
    (operand depth).run ⟨pos, o.tokens ++ rest⟩ = .ok o.tree ⟨pos + o.tokens.length, rest⟩ := by
  obtain ⟨leaf, ts, hts⟩ := o.begins
  have hlength : o.tokens.length = ts.length + 1 := by rw [hts, List.length_cons]
  obtain ⟨d, rfl⟩ : ∃ d, depth = d + 1 := ⟨depth - 1, by omega⟩
  exact run_operand ((expression_complete ts.length).1 d (by omega)) o pos rest (by omega) hends

/-- Operands are read as a sum, each of them one level below the one before. -/
theorem run_sum {first : Operand} {others : List (Leaf .plus × Operand)} {depth : Nat} (pos : Nat)
    (hplus : Avoids .plus rest) (hlast : EndsBefore rest (last ⟨first, others⟩))
    (hdepth : 3 * (tokens ⟨first, others⟩).length + 1 ≤ depth) :
    (sum depth).run ⟨pos, tokens ⟨first, others⟩ ++ rest⟩ =
      .ok (treeOf first others) ⟨pos + (tokens ⟨first, others⟩).length, rest⟩ := by
  induction others generalizing first depth pos with
  | nil =>
    simp only [tokens, List.flatMap_nil, List.append_nil] at hdepth ⊢
    obtain ⟨d, rfl⟩ : ∃ d, depth = d + 1 := ⟨depth - 1, by omega⟩
    exact run_sum_of_avoids (run_operand_of_le pos hlast (by omega)) hplus
  | cons link others ih =>
    obtain ⟨plus, next⟩ := link
    rw [tokens_cons, List.length_append, List.length_cons] at hdepth
    rw [last_cons] at hlast
    obtain ⟨d, rfl⟩ : ∃ d, depth = d + 1 := ⟨depth - 1, by omega⟩
    have hends : EndsBefore (plus.token :: (tokens ⟨next, others⟩ ++ rest)) first :=
      endsBefore_of_avoids ((avoids_leaf plus _).mpr (by decide)) first
    have hfirst := @run_operand_of_le _ first d pos hends (by omega)
    rw [tokens_cons, List.append_assoc, List.cons_append, run_sum_of_plus hfirst,
      run_bind_of_ok (ih _ hlast (by omega)), EStateM.run_pure, treeOf, List.length_append,
      List.length_cons]
    simp only [EStateM.Result.ok.injEq, Cursor.mk.injEq, true_and, and_true]
    omega

/-- A sum is read as its tree, unless it nests too deeply. -/
theorem run_expression (s : Summation) (hplus : Avoids .plus rest)
    (hlast : EndsBefore rest s.last) (depth pos : Nat) :
    (expression depth).run ⟨pos, s.tokens ++ rest⟩ =
        .ok s.tree ⟨pos + s.tokens.length, rest⟩ ∨
      depth < 3 * s.tokens.length + 2 ∧
        ∃ c, (expression depth).run ⟨pos, s.tokens ++ rest⟩ = .error .tooDeep c := by
  have hdeep : ∀ d, 3 * s.tokens.length + 2 ≤ d →
      (expression d).run ⟨pos, s.tokens ++ rest⟩ =
        .ok s.tree ⟨pos + s.tokens.length, rest⟩ := by
    intro d hd
    obtain ⟨d, rfl⟩ : ∃ n, d = n + 1 := ⟨d - 1, by omega⟩
    rw [expression]
    exact run_sum pos hplus hlast (by rw [← Nat.succ_le_succ_iff]; exact hd)
  by_cases hdepth : 3 * s.tokens.length + 2 ≤ depth
  · exact .inl (hdeep depth hdepth)
  have hlt : depth < 3 * s.tokens.length + 2 := Nat.lt_of_not_le hdepth
  have hdecides := (decides_expression (Nat.le_of_lt hlt)).1 ⟨pos, s.tokens ++ rest⟩
  by_cases htoo : TooDeep ((expression depth).run ⟨pos, s.tokens ++ rest⟩)
  · right
    cases hrun : (expression depth).run ⟨pos, s.tokens ++ rest⟩ with
    | ok e c =>
      rw [hrun] at htoo
      exact htoo.elim
    | error fault c =>
      rw [hrun] at htoo
      cases htoo
      exact ⟨hlt, c, rfl⟩
  · left
    rw [← hdecides.run_eq htoo, hdeep _ (Nat.le_refl _)]

end Derivation.Summation

namespace Value

/-- The values of operands, added from the last one on. -/
def total : List Value → Except Fault Value
  | [] => .ok .null
  | [v] => .ok v
  | v :: w :: vs => do combine .plus v (← total (w :: vs))

/-- Only integers are added and only texts are joined. -/
theorem Simple.combine_cases {v w : Value} (hv : v.Simple) (hw : w.Simple) :
    (∃ a b, v = .int a ∧ w = .int b) ∨ (∃ s t, v = .str s ∧ w = .str t) ∨
      ∃ fault, fault.kind = .type ∧ fault.computed = true ∧ combine .plus v w = .error fault := by
  cases hv with
  | null => cases hw <;> exact .inr (.inr ⟨_, rfl, rfl, rfl⟩)
  | int a =>
    cases hw with
    | null => exact .inr (.inr ⟨_, rfl, rfl, rfl⟩)
    | int b => exact .inl ⟨a, b, rfl, rfl⟩
    | text t => exact .inr (.inr ⟨_, rfl, rfl, rfl⟩)
  | text s =>
    cases hw with
    | null => exact .inr (.inr ⟨_, rfl, rfl, rfl⟩)
    | int b => exact .inr (.inr ⟨_, rfl, rfl, rfl⟩)
    | text t => exact .inr (.inl ⟨s, t, rfl, rfl⟩)

theorem Simple.sum {v w : Value} (hv : v.Simple) (hw : w.Simple) :
    Yields Simple (combine .plus v w) := by
  rcases hv.combine_cases hw with ⟨a, b, rfl, rfl⟩ | ⟨s, t, rfl, rfl⟩ | ⟨fault, -, hcomputed, h⟩
  · exact .ok (.int (a + b))
  · exact .ok (.text (s ++ t))
  · rw [h]
    exact .error hcomputed

theorem total_integers (z : Int) (zs : List Int) :
    total ((z :: zs).map .int) = .ok (.int ((z :: zs).foldr (· + ·) 0)) := by
  induction zs generalizing z with
  | nil => rw [List.foldr_cons, List.foldr_nil, Int.add_zero]; rfl
  | cons w zs ih =>
    rw [List.map_cons, List.map_cons, total, ← List.map_cons, ih]
    rfl

theorem total_texts (s : String) (ss : List String) :
    total ((s :: ss).map .str) = .ok (.str (String.join (s :: ss))) := by
  induction ss generalizing s with
  | nil => rw [String.join_cons, String.join_nil, String.append_empty]; rfl
  | cons t ss ih =>
    have hjoin : String.join (s :: t :: ss) = s ++ String.join (t :: ss) := String.join_cons
    rw [List.map_cons, List.map_cons, total, ← List.map_cons, ih, hjoin]
    rfl

/-- A value in front of others that it does not fit fails with them. -/
theorem Totals.cons_fails {v w : Value} {vs : List Value} {result : Except Fault Value}
    (h : Totals (w :: vs) result) (hv : v.Simple) (hw : w.Simple)
    (hints : ∀ zs : List Int, v :: w :: vs ≠ zs.map .int)
    (htexts : ∀ ss : List String, v :: w :: vs ≠ ss.map .str) :
    ∃ fault : Fault, fault.kind = .type ∧ (do combine .plus v (← result)) = .error fault := by
  generalize hall : w :: vs = all at h hints htexts
  cases h with
  | single u =>
    obtain ⟨rfl, -⟩ := List.cons.inj hall
    rcases hv.combine_cases hw with ⟨a, b, rfl, rfl⟩ | ⟨s, t, rfl, rfl⟩ | ⟨fault, hkind, -, hfails⟩
    · exact absurd rfl (hints [a, b])
    · exact absurd rfl (htexts [s, t])
    · exact ⟨fault, hkind, hfails⟩
  | integers zs =>
    rcases hv.combine_cases (.int (zs.foldr (· + ·) 0)) with
      ⟨a, b, rfl, -⟩ | ⟨s, t, -, h⟩ | ⟨fault, hkind, -, hfails⟩
    · exact absurd rfl (hints (a :: zs))
    · cases h
    · exact ⟨fault, hkind, hfails⟩
  | texts ss =>
    rcases hv.combine_cases (.text (String.join ss)) with
      ⟨a, b, -, h⟩ | ⟨s, t, rfl, -⟩ | ⟨fault, hkind, -, hfails⟩
    · cases h
    · exact absurd rfl (htexts (s :: ss))
    · exact ⟨fault, hkind, hfails⟩
  | @others _ fault _ _ _ hkind => exact ⟨fault, hkind, rfl⟩

/-- Simple values add up as their types tell. -/
theorem totals_total {v : Value} {vs : List Value} (h : ∀ w ∈ v :: vs, w.Simple) :
    Totals (v :: vs) (total (v :: vs)) := by
  induction vs generalizing v with
  | nil => exact .single v
  | cons w vs ih =>
    obtain ⟨hv, hvs⟩ := List.forall_mem_cons.mp h
    by_cases hints : ∃ zs : List Int, v :: w :: vs = zs.map .int
    · obtain ⟨zs, hzs⟩ := hints
      rw [hzs]
      cases zs with
      | nil => cases hzs
      | cons z zs =>
        rw [total_integers]
        exact .integers (z :: zs)
    by_cases htexts : ∃ ss : List String, v :: w :: vs = ss.map .str
    · obtain ⟨ss, hss⟩ := htexts
      rw [hss]
      cases ss with
      | nil => cases hss
      | cons s ss =>
        rw [total_texts]
        exact .texts (s :: ss)
    · obtain ⟨fault, hkind, hfails⟩ := (ih hvs).cons_fails hv (hvs w List.mem_cons_self)
        (not_exists.mp hints) (not_exists.mp htexts)
      rw [total, hfails]
      exact .others (by simp) (not_exists.mp hints) (not_exists.mp htexts) hkind

end Value

namespace Machine

variable {α β : Type}

theorem liftM_bind (x : Except Fault α) (f : α → Except Fault β) :
    (liftM (x >>= f) : Run β) = liftM x >>= fun a => liftM (f a) := by
  cases x <;> rfl

theorem levelsOf_eq_cons (limit : Nat) (first : Expr) (others : List Expr) :
    ∃ entry entries, levelsOf limit first others = entry :: entries := by
  cases others with
  | nil => exact ⟨_, _, rfl⟩
  | cons next others => exact ⟨_, _, rfl⟩

theorem map_snd_levelsOf (limit : Nat) (first : Expr) (others : List Expr) :
    (levelsOf limit first others).map Prod.snd = first :: others := by
  induction others generalizing limit first with
  | nil => rfl
  | cons next others ih => rw [levelsOf, List.map_cons, ih]

/-- A step behind which everything that was in the log still is. -/
def Grows (x : Run α) : Prop :=
  ∀ m, m.log.toList <+: (stateOf (x.run m)).log.toList

namespace Grows

theorem pure (a : α) : Grows (pure a) := fun _ => List.prefix_rfl

theorem throw (stop : Stop) : Grows (throw stop : Run α) := fun _ => List.prefix_rfl

theorem get : Grows get := fun _ => List.prefix_rfl

theorem lift (x : Except Fault α) : Grows (liftM x : Run α) := by
  cases x with
  | ok a => exact pure a
  | error fault => exact throw _

theorem bind {x : Run α} {f : α → Run β} (hx : Grows x) (hf : ∀ a, Grows (f a)) :
    Grows (x >>= f) := by
  intro m
  have h := hx m
  rw [EStateM.run_bind]
  cases hr : x.run m with
  | ok a u =>
    rw [hr] at h
    exact h.trans (hf a u)
  | error stop u =>
    rw [hr] at h
    exact h

theorem pervasive : Pervasive @Grows where
  pure := pure
  throw := throw
  bind := bind
  emit event := fun m => ⟨[event], Array.toList_push.symm⟩
  assign name value := fun _ => List.prefix_rfl
  lookUp node := by
    refine bind (lift _) fun name => bind get fun m => bind (lift _) fun key => ?_
    cases m.scope.get? key with
    | some value => exact pure value
    | none => exact bind (lift _) fun _ => throw _
  functionNode name node := by
    refine bind get fun m => bind (lift _) fun key => ?_
    cases m.functions.get? key with
    | some function => exact pure function
    | none => exact bind (lift _) fun _ => bind (lift _) fun _ => throw _
  restoring {α x} hx := by
    intro m
    have h := hx m
    rw [run_restoring]
    cases hr : x.run m with
    | ok a u =>
      rw [hr] at h
      exact h
    | error stop u =>
      rw [hr] at h
      exact h

end Grows

theorem run_mapM_error {ι : Type} {step : ι → Run α} {front : List ι} {item : ι} (back : List ι)
    {as : List α} {m u u' : Machine} {stop : Stop} (hfront : (front.mapM step).run m = .ok as u)
    (hitem : (step item).run u = .error stop u') :
    ((front ++ item :: back).mapM step).run m = .error stop u' := by
  rw [List.mapM_append, run_bind_of_ok hfront, EStateM.run_bind, List.mapM_cons, EStateM.run_bind,
    hitem]

/-- A machine whose values are simple and whose functions are plain. -/
structure Simple (m : Machine) : Prop where
  scope : ∀ entry ∈ m.scope, entry.2.Simple
  functions : ∀ entry ∈ m.functions, entry.2.PlainFunction

theorem sustains_simple [Clock] : Sustains Value.Simple Simple fun _ => True where
  log _ hm := ⟨hm.scope, hm.functions⟩
  computed _ := trivial
  refused _ := trivial
  leave _ := trivial
  null := .null
  nat n := .int n
  text := .text
  sum := Value.Simple.sum
  scope hm := hm.scope
  functions hm := hm.functions
  set name hm hv := ⟨Table.forall_set hm.scope name hv, hm.functions⟩
  restore hm hu := ⟨hm.scope, hu.functions⟩
  tooDeep := trivial

end Machine

namespace Derivation.Summation

open Machine

/-- A sum is visited operand by operand, and then the values are added. -/
theorem visit_treeOf [Clock] (limit : Nat) (first : Operand)
    (others : List (Leaf .plus × Operand)) :
    visit limit (treeOf first others).toNode = (do
      let vs ← (levelsOf limit first.tree (others.map fun link => link.2.tree)).mapM visitAt
      Value.total vs) := by
  induction others generalizing limit first with
  | nil =>
    rw [treeOf, List.map_nil, levelsOf, List.mapM_cons, List.mapM_nil]
    simp only [bind_assoc, pure_bind]
    exact (bind_pure _).symm
  | cons link others ih =>
    obtain ⟨plus, next⟩ := link
    rw [treeOf, List.map_cons, levelsOf, List.mapM_cons]
    match limit with
    | 0 | 1 | 2 => rw [bind_assoc]; rfl
    | d + 3 =>
      -- the operands behind the first one are not none, so their total is added to it
      obtain ⟨entry, entries, hlevels⟩ :=
        levelsOf_eq_cons (d + 1) next.tree (others.map fun link => link.2.tree)
      rw [visit_sum, ih, show d + 3 - 2 = d + 1 from rfl, hlevels, List.mapM_cons]
      simp only [bind_assoc, pure_bind, Value.total, liftM_bind]
      rfl

theorem plain_levels {s : Summation} (h : ∀ t ∈ s.tokens, t.Lexed) (limit : Nat) :
    ∀ entry ∈ s.levels limit, entry.2.Plain := by
  intro entry hentry
  have hmem : entry.2 ∈ (s.levels limit).map Prod.snd := List.mem_map_of_mem hentry
  rw [levels, map_snd_levelsOf, List.mem_cons, List.mem_map] at hmem
  rcases hmem with hfirst | ⟨link, hlink, hlinked⟩
  · rw [hfirst]
    exact s.first.plain fun t ht => h t (List.mem_append_left _ ht)
  · rw [← hlinked]
    refine link.2.plain fun t ht => h t (List.mem_append_right _ ?_)
    exact List.mem_flatMap.mpr ⟨link, hlink, List.mem_cons_of_mem _ ht⟩

/-- The operands of a sum have simple values, at least one. -/
theorem simple_values [Clock] {s : Summation} (hlexed : ∀ t ∈ s.tokens, t.Lexed) {m m' : Machine}
    (hm : m.Simple) {limit : Nat} {vs : List Value}
    (h : ((s.levels limit).mapM visitAt).run m = .ok vs m') :
    ∃ v others, vs = v :: others ∧ ∀ w ∈ v :: others, w.Simple := by
  have hends : Machine.Ends Simple (fun _ => True) ((s.levels limit).mapM visitAt)
      fun vs => ∀ v ∈ vs, v.Simple :=
    .mapM fun entry hentry =>
      (sustains_simple.visit entry.1).1 entry.2 (plain_levels hlexed limit entry hentry)
  have hsimple := hends hm
  rw [h] at hsimple
  obtain ⟨entry, entries, hlevels⟩ :=
    levelsOf_eq_cons limit s.first.tree (s.others.map fun link => link.2.tree)
  rw [levels, hlevels, List.mapM_cons] at h
  obtain ⟨v, u, -, h⟩ := run_bind_ok_iff.mp h
  obtain ⟨others, u', -, h⟩ := run_bind_ok_iff.mp h
  obtain ⟨rfl, rfl⟩ := run_pure_ok_iff.mp h
  exact ⟨v, others, rfl, hsimple.2⟩

/-- Operands with plus signs between them, before no further plus, are read as one expression, at
any depth that is not too small. A visit of it from a machine with simple values visits the operands
in turn, each of them once. The first one that fails ends it, with what has been written before;
otherwise the value is that of a single operand, the sum of integers or the texts in order, and the
operands are of the wrong types for an addition in every other case. A name at the end stands before
no opening parenthesis, since it would be called. -/
theorem value_of_operands [Clock] (s : Summation) (rest : List Token) (m : Machine)
    (hlexed : ∀ t ∈ s.tokens, t.Lexed) (hplus : Avoids .plus rest)
    (hlast : Parse.EndsBefore rest s.last) (hscope : ∀ entry ∈ m.scope, entry.2.Simple)
    (hfunctions : ∀ entry ∈ m.functions, entry.2.PlainFunction) :
    ∃ e : Expr,
      (∀ depth pos,
        (Parse.expression depth).run ⟨pos, s.tokens ++ rest⟩ =
            .ok e ⟨pos + s.tokens.length, rest⟩ ∨
          depth < 3 * s.tokens.length + 2 ∧
            ∃ c, (Parse.expression depth).run ⟨pos, s.tokens ++ rest⟩ = .error .tooDeep c) ∧
      ∀ limit,
        (∀ front operand back vs u stop u', s.levels limit = front ++ operand :: back →
          (front.mapM visitAt).run m = .ok vs u → (visitAt operand).run u = .error stop u' →
          (visit limit e.toNode).run m = .error stop u' ∧ u.log.toList <+: u'.log.toList) ∧
        ∀ vs m', ((s.levels limit).mapM visitAt).run m = .ok vs m' →
          ∃ result, Value.Totals vs result ∧
            (visit limit e.toNode).run m = (liftM result : Run Value).run m' := by
  refine ⟨s.tree, s.run_expression hplus hlast, fun limit => ⟨?_, ?_⟩⟩
  · intro front operand back vs u stop u' hlevels hfront hoperand
    have hlog := Grows.pervasive.visit operand.1 operand.2.toNode u
    have hrun := run_mapM_error back hfront hoperand
    rw [visitAt] at hoperand
    rw [hoperand] at hlog
    rw [levels] at hlevels
    rw [tree, visit_treeOf, hlevels, EStateM.run_bind, hrun]
    exact ⟨rfl, hlog⟩
  · intro vs m' h
    obtain ⟨v, others, rfl, hsimple⟩ := simple_values hlexed ⟨hscope, hfunctions⟩ h
    refine ⟨_, Value.totals_total hsimple, ?_⟩
    rw [tree, visit_treeOf]
    exact run_bind_of_ok h

/-- `2 + f() + x`. -/
def mixed : Summation where
  first := .number (.unplaced .number (.int 2))
  others := [
    (.unplaced .plus (.str "+"), .call (.unplaced .identifier (.str "f"))
      (.empty (.unplaced .leftParen (.str "(")) (.unplaced .rightParen (.str ")")))),
    (.unplaced .plus (.str "+"), .var (.unplaced .identifier (.str "x")))]

/-- `func:f() { print "a"; assign y = 3; }`. -/
def printing : Decl :=
  .function (.str "f") [] [.print (.string (.str "a") Token.unknown) false Token.unknown,
    .assign (.str "y") (.number (.int 3) Token.unknown) Token.unknown]

theorem lexed_mixed : ∀ t ∈ mixed.tokens, t.Lexed := by
  have hmixed : mixed.tokens = [.plain .number (.int 2), .plain .plus (.str "+"),
      .plain .identifier (.str "f"), .plain .leftParen (.str "("), .plain .rightParen (.str ")"),
      .plain .plus (.str "+"), .plain .identifier (.str "x")] := by
    simp [tokens, mixed, Operand.tokens, Expression.tokensOfEnclosed, Leaf.unplaced]
  rw [hmixed]
  simp only [List.forall_mem_cons]
  refine ⟨.plain ⟨2, rfl⟩, .plain ⟨_, rfl⟩, .plain ⟨_, rfl⟩, .plain ⟨_, rfl⟩, .plain ⟨_, rfl⟩,
    .plain ⟨_, rfl⟩, .plain ⟨_, rfl⟩, List.forall_mem_nil _⟩

theorem plainFunction_printing : printing.toNode.PlainFunction := by
  refine ⟨_, _, _, .function "f" (List.forall_mem_nil _) ?_, rfl⟩
  simp only [List.forall_mem_cons]
  exact ⟨.print _ _ (.string _ _), .assign _ _ (.number 3 _), List.forall_mem_nil _⟩

/-- A machine with a negative `x` and the function. -/
def negative : Machine where
  scope := [(.text "x", .int (-5))]
  functions := [(.text "f", printing.toNode)]

/-- A call that writes, between two integers of which one is negative. -/
theorem value_of_operands_mixed :
    ∃ e m' result,
      (Parse.expression 985).run ⟨0, mixed.tokens ++ [.plain .semicolon (.str ";")]⟩ =
        .ok e ⟨7, [.plain .semicolon (.str ";")]⟩ ∧
      ((mixed.levels 20).mapM visitAt).run negative = .ok [.int 2, .int 3, .int (-5)] m' ∧
      Value.Totals [.int 2, .int 3, .int (-5)] result ∧
      (visit 20 e.toNode).run negative = (liftM result : Run Value).run m' := by
  have havoids : ∀ kind, .semicolon ≠ kind → Avoids kind [.plain .semicolon (.str ";")] :=
    fun kind => (avoids_leaf (.unplaced .semicolon (.str ";")) []).mpr
  obtain ⟨e, hparse, hvisit⟩ := value_of_operands mixed [.plain .semicolon (.str ";")] negative
    lexed_mixed (havoids _ (by decide)) (havoids _ (by decide))
    (List.forall_mem_singleton.mpr (.int (-5)))
    (List.forall_mem_singleton.mpr plainFunction_printing)
  have hvalues : ((mixed.levels 20).mapM visitAt).run negative =
      .ok [.int 2, .int 3, .int (-5)] _ := rfl
  obtain ⟨result, htotals, hresult⟩ := (hvisit 20).2 _ _ hvalues
  refine ⟨e, _, result, ?_, hvalues, htotals, hresult⟩
  have hlength : mixed.tokens.length = 7 := by
    simp [tokens, mixed, Operand.tokens, Expression.tokensOfEnclosed]
  rcases hparse 985 0 with hok | ⟨hlt, -⟩
  · rwa [hlength] at hok
  · rw [hlength] at hlt
    exact absurd hlt (by decide)

end Derivation.Summation

end Scriptlet
