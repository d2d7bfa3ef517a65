import Scriptlet.Proofs.Extension
import Scriptlet.Proofs.Joining
import Scriptlet.Proofs.Plain
import Scriptlet.Proofs.Widening

/-! Sources one by one and all at once. Two sources that are evaluated one after the other do what
they do with a line feed between them, if the second one declares only new functions: what the
first one does is not changed by functions that are declared early. -/
namespace Scriptlet

open Scriptlet.Derivation

/-- The function that a declaration declares, under its name. -/
def Decl.declared : Decl → Table Value
  | .function name params body =>
    match Name.ofValue name with
    | .ok key => [(key, (Decl.function name params body).toNode)]
    | .error _ => []
  | .entry _ => []

/-- The functions that a program declares, in order. -/
def Program.declared (program : Program) : Table Value :=
  program.body.flatMap Decl.declared

/-- A declaration under a name that is a text. -/
def Decl.Named : Decl → Prop
  | .function name _ _ => ∃ text, name = .str text
  | .entry _ => True

theorem Decl.Plain.named {d : Decl} (h : d.Plain) : d.Named := by
  cases h with
  | function name hparams hbody => exact ⟨name, rfl⟩
  | entry hbody => trivial

namespace Machine

theorem run_declareAll {body : List Decl} (hnamed : ∀ d ∈ body, d.Named) (m : Machine) :
    (declareAll (body.map Decl.toNode)).run m =
      .ok () { m with functions := m.functions.setAll (body.flatMap Decl.declared) } := by
  induction body generalizing m with
  | nil => rfl
  | cons d body ih =>
    have hrest := ih fun other ho => hnamed other (List.mem_cons_of_mem _ ho)
    have hd := hnamed d List.mem_cons_self
    rw [List.map_cons, List.flatMap_cons, Table.setAll_append]
    cases d with
    | entry statements => exact hrest m
    | function name params statements =>
      obtain ⟨text, rfl⟩ := hd
      exact hrest _

theorem declareAll_append (nodes others : List Value) :
    declareAll (nodes ++ others) = (do declareAll nodes; declareAll others) :=
  List.forM_append

theorem enterAll_append (visit : Visitor) (nodes others : List Value) :
    enterAll visit (nodes ++ others) = (do enterAll visit nodes; enterAll visit others) :=
  List.forM_append

/-- Behind a program that ends normally, the declarations of another one do what they do alone in
the machine that the first one leaves. -/
theorem interpret_append [Clock] {depth : Nat} {first second : Program} {m m' : Machine}
    {answer : Answer} (hfirst : (interpret depth first.toNode).run m = .ok answer m')
    (hnamed : ∀ d ∈ second.body, d.Named)
    (hnew : ∀ name ∈ second.declared.names, m'.functions.get? name = none) :
    (interpret depth (Program.mk (first.body ++ second.body)).toNode).run m =
      (interpret depth second.toNode).run m' := by
  rw [interpret_program] at hfirst
  obtain ⟨⟨⟩, m₁, hdeclare, hfirst⟩ := run_bind_ok_iff.mp hfirst
  obtain ⟨⟨⟩, m₂, henter, hfirst⟩ := run_bind_ok_iff.mp hfirst
  cases hfirst
  obtain ⟨hfunctions, hwide⟩ := widens.enterAll (widens.visit depth) _ henter
  have hwithin := Table.within_setAll _ _ hnew
  rw [hfunctions, Program.declared] at hwithin
  rw [interpret_program, interpret_program, List.map_append, declareAll_append, enterAll_append,
    bind_assoc, run_bind_of_ok hdeclare, run_bind_of_ok (run_declareAll hnamed m₁), bind_assoc,
    run_bind_of_ok (hwide hwithin), run_bind_of_ok (run_declareAll hnamed m'), hfunctions]

end Machine

theorem Token.Lexed.alike {t : Token} (h : t.Lexed) (lines : Nat) :
    t.Alike (t.lowered lines) := by
  cases h with
  | plain _ => exact .refl _
  | @placed kind c line column hlookup =>
    exact .inr ⟨kind, Scanner.mem_kinds_of_lookup hlookup, Token.isOf_iff.mpr rfl,
      Token.isOf_iff.mpr rfl⟩

/-- The functions of a program that is read from a source have texts as names. -/
theorem Program.named_of_ofTokens {depth : Nat} {tokens : List Token} {program : Program}
    (htokens : ∀ t ∈ tokens, t.Lexed) (h : Program.ofTokens depth tokens = .ok program) :
    ∀ d ∈ program.body, d.Named :=
  fun d hd => (Program.plain_of_ofTokens htokens h d hd).named

namespace Session

variable {limits : Limits} {first second : String} {m m' : Machine} {answer : Machine.Answer}
  {tokens : List Token} {program : Program}

theorem exists_program_of_evaluate [Clock] (h : (evaluate limits first).run m = .ok answer m') :
    ∃ tokens program, Token.ofSource first = .ok tokens ∧
      Program.ofTokens limits.parse tokens = .ok program ∧
      (Machine.interpret limits.run program.toNode).run m = .ok answer m' := by
  obtain ⟨tokens, u, hu, h⟩ := run_bind_ok_iff.mp h
  obtain ⟨htokens, rfl⟩ := Machine.run_liftM_ok_iff.mp hu
  obtain ⟨program, u, hu, h⟩ := run_bind_ok_iff.mp h
  obtain ⟨hprogram, rfl⟩ := Machine.run_liftM_ok_iff.mp hu
  exact ⟨tokens, program, htokens, hprogram, h⟩

/-- A source behind another one that is evaluated normally. -/
theorem evaluate_newline [Clock] (hfirst : (evaluate limits first).run m = .ok answer m')
    (hsecond : Token.ofSource second = .ok tokens)
    (hprogram : Program.ofTokens limits.parse tokens = .ok program)
    (hnew : ∀ name ∈ program.declared.names, m'.functions.get? name = none) :
    (evaluate limits (first ++ "\n" ++ second)).run m = (evaluate limits second).run m' := by
  obtain ⟨tokens₁, program₁, htokens₁, hprogram₁, hrun⟩ := exists_program_of_evaluate hfirst
  have hlexed := (Token.ofSource_ok_iff.mp hsecond).lexed
  have hlexed₁ := (Token.ofSource_ok_iff.mp htokens₁).lexed
  have hjoined := Program.ofTokens_append (fun t ht => (hlexed₁ t ht).isBare) hprogram₁ hprogram
    (List.forall₂_map_right_iff.mpr (List.forall₂_same.mpr fun t ht =>
      (hlexed t ht).alike (Scanner.lineAfter first.toList)))
  rw [evaluate, evaluate, Token.ofSource_newline htokens₁ hsecond, hsecond, Machine.liftM_ok_bind,
    Machine.liftM_ok_bind, hjoined, hprogram, Machine.liftM_ok_bind, Machine.liftM_ok_bind]
  exact Machine.interpret_append hrun (Program.named_of_ofTokens hlexed hprogram) hnew

/-- If a source is evaluated normally by a session with a new scanner and a new cursor, and another
one can be read and declares no function that is known then, then evaluating the second one behind
the first gives the same answer or stop, the same variables, functions and log as evaluating both at
once with a line feed between them. -/
theorem eval_newline [Clock] (limits : Limits) (m : Machine) (first second : String)
    (answer : Machine.Answer) (s : Session) (tokens : List Token) (program : Program)
    (hfirst : (eval limits first).run { machine := m } = .ok answer s)
    (hsecond : Token.ofSource second = .ok tokens)
    (hprogram : Program.ofTokens limits.parse tokens = .ok program)
    (hnew : ∀ name ∈ program.declared.names, s.machine.functions.get? name = none) :
    seen ((do let _ ← eval limits first; eval limits second).run { machine := m }) =
      seen ((eval limits (first ++ "\n" ++ second)).run { machine := m }) := by
  have hfresh : Settled { machine := m } := ⟨rfl, rfl⟩
  have hevaluate : seen ((eval limits first).run { machine := m }) =
      (evaluate limits first).run m := seen_eval_eq_evaluate limits (.inr hfresh)
  rw [hfirst] at hevaluate
  -- the first source leaves nothing unread, so that even a second one without tokens is read alone
  have hsettled : s.Settled := by
    obtain ⟨p, t, hread, -⟩ := run_bind_ok_iff.mp hfirst
    have hdone := (sound_of_machine m).settled_eval hread
    rwa [hfirst] at hdone
  rw [run_bind_of_ok hfirst, seen_eval_eq_evaluate limits (.inr hsettled),
    seen_eval_eq_evaluate limits (.inr hfresh)]
  exact (evaluate_newline hevaluate.symm hsecond hprogram hnew).symm

/-- A source that declares and calls `f` and ends with a comment, and one that calls `f` from a
function of its own. -/
def greeting : String × String :=
  ("func:f \x7b println \"a\"; \x7d enter \x7b call f; \x7d // end",
    "func:g \x7b call f; \x7d enter \x7b call g; \x7d")

theorem eval_newline_greeting :
    ∃ answer s tokens program,
      (eval {} greeting.1).run { machine := {} } = .ok answer s ∧
      Token.ofSource greeting.2 = .ok tokens ∧
      Program.ofTokens Parse.maxDepth tokens = .ok program ∧
      (∀ name ∈ program.declared.names, s.machine.functions.get? name = none) ∧
      seen ((do let _ ← eval {} greeting.1; eval {} greeting.2).run { machine := {} }) =
        seen ((eval {} (greeting.1 ++ "\n" ++ greeting.2)).run { machine := {} }) := by
  have hevaluated : (resultOf ((eval {} greeting.1).run { machine := {} })).isOk = true := by
    decide +kernel
  have hcheck : ((Token.ofSource greeting.2).toOption.any fun tokens =>
      (Program.ofTokens Parse.maxDepth tokens).toOption.any fun program =>
        program.declared.names.all fun name =>
          ((stateOf ((eval {} greeting.1).run { machine := {} })).machine.functions.get?
            name).isNone) = true := by
    decide +kernel
  cases hfirst : (eval {} greeting.1).run { machine := {} } with
  | error stop s => rw [hfirst] at hevaluated; cases hevaluated
  | ok answer s =>
    rw [hfirst] at hcheck
    cases hsecond : Token.ofSource greeting.2 with
    | error fault => rw [hsecond] at hcheck; cases hcheck
    | ok tokens =>
      rw [hsecond] at hcheck
      cases hprogram : Program.ofTokens Parse.maxDepth tokens with
      | error fault => simp [hprogram, Except.toOption] at hcheck
      | ok program =>
        have hnew : ∀ name ∈ program.declared.names, s.machine.functions.get? name = none := by
          simpa [hprogram, Except.toOption, stateOf] using hcheck
        exact ⟨answer, s, tokens, program, rfl, rfl, hprogram, hnew,
          eval_newline {} {} _ _ answer s tokens program hfirst hsecond hprogram hnew⟩

end Session

end Scriptlet
