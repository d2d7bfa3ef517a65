import Scriptlet.Proofs.Incremental
import Scriptlet.Proofs.Sustaining

/-! Programs of sources never get stuck. A machine whose values and functions are plain stays so,
however a plain program ends, and the program ends with its variables, with a code, or with a fault
of what it computes: no node lacks a field, and there is a rule for each node. -/
namespace Scriptlet

/-- A stop that programs of sources may come to. -/
def Stop.Ordinary [Clock] : Stop → Prop
  | .fault cause => cause.computed = true ∨ cause = .tooDeep ∨
      ∃ length, cause = .pauseRefused length ∧ Clock.Refuses length
  | .leave _ => True

theorem Stop.Ordinary.kind [Clock] {cause : Fault} (h : Ordinary (.fault cause)) :
    (cause.kind ∈ [Fault.Kind.name, .type, .value, .overflow, .depth] ∨
      ∃ length, cause = .pauseRefused length ∧ Clock.Refuses length) ∧ cause.ofNode = false := by
  rcases h with hcomputed | rfl | ⟨length, rfl, hlength⟩
  · rw [Fault.computed, Bool.and_eq_true, decide_eq_true_iff, Bool.not_eq_true'] at hcomputed
    exact ⟨.inl (List.mem_append_left [Fault.Kind.depth] hcomputed.1), hcomputed.2⟩
  · exact ⟨.inl (by decide), rfl⟩
  · exact ⟨.inr ⟨length, rfl, hlength⟩, rfl⟩

theorem Value.Plain.sum {v w : Value} (h : v.Plain) (h' : w.Plain) :
    Yields Plain (combine .plus v w) := by
  cases h with
  | null => cases h' <;> exact .error rfl
  | nat n =>
    cases h' with
    | null => exact .error rfl
    | nat k => exact .ok (.nat (n + k))
    | text s => exact .error rfl
  | text s =>
    cases h' with
    | null => exact .error rfl
    | nat k => exact .error rfl
    | text s' => exact .ok (.text (s ++ s'))

namespace Machine

variable {α : Type}

/-- A machine that plain programs leave: its values are plain, and so are its functions. -/
structure Plain (m : Machine) : Prop where
  scope : ∀ entry ∈ m.scope, entry.2.Plain
  functions : ∀ entry ∈ m.functions, entry.2.PlainFunction

/-- From every plain machine the step ends in a plain one, with a result as wanted or with an
ordinary stop. -/
abbrev Safe [Clock] (x : Run α) (post : α → Prop) : Prop :=
  Ends Plain Stop.Ordinary x post

theorem sustains_plain [Clock] : Sustains Value.Plain Plain Stop.Ordinary where
  log _ hm := ⟨hm.scope, hm.functions⟩
  computed := .inl
  refused hlength := .inr (.inr ⟨_, rfl, hlength⟩)
  leave _ := trivial
  null := .null
  nat := .nat
  text := .text
  sum := Value.Plain.sum
  scope hm := hm.scope
  functions hm := hm.functions
  set name hm hv := ⟨Table.forall_set hm.scope name hv, hm.functions⟩
  restore hm hu := ⟨hm.scope, hu.functions⟩
  tooDeep := .inr (.inl rfl)

theorem safe_enterAll [Clock] (depth : Nat) {body : List Decl} (h : ∀ d ∈ body, d.Plain) :
    Safe (enterAll (visit depth) (body.map Decl.toNode)) fun _ => True := by
  induction body with
  | nil => exact .pure trivial
  | cons d rest ih =>
    obtain ⟨hd, hrest⟩ := List.forall_mem_cons.mp h
    rw [List.map_cons]
    cases hd with
    | function name hparams hbody =>
      rw [enterAll_function]
      exact ih hrest
    | entry hbody =>
      rw [enterAll_entry]
      have hentry : Safe (runBlock (visit depth) (Stmt.blockNode _)) Value.Plain :=
        sustains_plain.runBlock fun s hs => (sustains_plain.visit depth).2 s (hbody s hs)
      exact .bind hentry fun _ _ => ih hrest

theorem safe_declareAll [Clock] {body : List Decl} (h : ∀ d ∈ body, d.Plain) :
    Safe (declareAll (body.map Decl.toNode)) fun _ => True := by
  intro m hm
  rw [run_declareAll fun d hd => (h d hd).named]
  refine ⟨⟨hm.scope, Table.forall_setAll hm.functions fun entry hentry => ?_⟩, trivial⟩
  obtain ⟨d, hd, hentry⟩ := List.mem_flatMap.mp hentry
  have hplain := h d hd
  cases hplain with
  | entry hbody => cases hentry
  | @function name params body hparams hbody =>
    obtain rfl := List.mem_singleton.mp hentry
    exact ⟨_, _, _, h _ hd, rfl⟩

theorem safe_interpret [Clock] (depth : Nat) {program : Program} (h : program.Plain) :
    Safe (interpret depth program.toNode) fun _ => True := by
  rw [interpret_program]
  exact .bind (safe_declareAll h) fun _ _ => .bind (safe_enterAll depth h) fun _ _ =>
    fun _ hm => ⟨hm, trivial⟩

end Machine

namespace Session

variable {limits : Limits} {s t : Session} {source : String} {p : Program}

/-- What sources leave behind, the machine included. -/
structure Plain (s : Session) : Prop where
  sound : s.Sound
  machine : s.machine.Plain

theorem plain_fresh : Plain {} :=
  ⟨sound_of_machine {}, ⟨nofun, nofun⟩⟩

theorem Plain.read (hs : s.Plain) (h : (program limits source).run s = .ok p t) :
    p.Plain ∧ t.machine.Plain := by
  obtain ⟨tokens, scanner, cursor, hscan, hparse, rfl⟩ := program_ok_iff.mp h
  exact ⟨Program.plain_of_run (hs.sound.lexed hscan).1 hparse, hs.machine⟩

theorem Plain.eval [Clock] (hs : s.Plain) (limits : Limits) (source : String) :
    (stateOf ((eval limits source).run s)).Plain := by
  refine ⟨hs.sound.eval limits source, ?_⟩
  have hmachine := (reads_program limits source s).machine
  rw [machine_stateOf, Session.eval, EStateM.run_bind]
  cases hread : (program limits source).run s with
  | error stop t =>
    rw [hread] at hmachine
    have hsame : t.machine = s.machine := hmachine
    exact show t.machine.Plain from hsame ▸ hs.machine
  | ok p t =>
    obtain ⟨hp, ht⟩ := hs.read hread
    have hends := Machine.safe_interpret limits.run hp ht
    rw [seen_run]
    cases hrun : (Machine.interpret limits.run p.toNode).run t.machine with
    | ok answer m =>
      rw [hrun] at hends
      exact hends.1
    | error stop m =>
      rw [hrun] at hends
      exact hends.1

/-- The session after sources that were each evaluated at a reading of its own. -/
def afterTimed (limits : Limits) (history : List (Clock × String)) (s : Session) : Session :=
  history.foldl (fun s step => stateOf ((@eval step.1 limits step.2).run s)) s

theorem Plain.afterTimed (hs : s.Plain) (limits : Limits) (history : List (Clock × String)) :
    (afterTimed limits history s).Plain := by
  induction history generalizing s with
  | nil => exact hs
  | cons step rest ih => exact ih (@Plain.eval s step.1 hs limits step.2)

theorem afterTimed_map [clock : Clock] (limits : Limits) (history : List String) (s : Session) :
    afterTimed limits (history.map (clock, ·)) s = after limits history s :=
  List.foldl_map

theorem Plain.after [Clock] (hs : s.Plain) (limits : Limits) (history : List String) :
    (after limits history s).Plain := by
  rw [← afterTimed_map]
  exact hs.afterTimed limits _

end Session

end Scriptlet
