import Scriptlet.Proofs.Lexing
import Scriptlet.Proofs.Parsing
import Scriptlet.Proofs.Progress
import Scriptlet.Proofs.Visiting
import Scriptlet.Session

/-! What a session remembers. A source with tokens is read from its beginning whatever was read
before, and one without tokens makes the session go on with what earlier sources have left
unread. -/
namespace Scriptlet

variable {α β : Type} {limits : Session.Limits} {source : String} {s : Session}

namespace Session

/-- What is seen of a step: how it ends, and the machine then. -/
def seen : EStateM.Result Stop Session α → EStateM.Result Stop Machine α
  | .ok a s => .ok a s.machine
  | .error stop s => .error stop s.machine

/-- The evaluation of a source that is read from its beginning. -/
def evaluate [Clock] (limits : Limits) (source : String) : Run Machine.Answer := do
  let tokens ← Token.ofSource source
  let program ← Program.ofTokens limits.parse tokens
  Machine.interpret limits.run program.toNode

theorem machine_stateOf (r : EStateM.Result Stop Session α) :
    (stateOf r).machine = stateOf (seen r) := by
  cases r <;> rfl

theorem seen_bind {x : Step α} {y : Run α} {f : α → Step β} {g : α → Run β}
    (hx : seen (x.run s) = y.run s.machine)
    (hf : ∀ a t, x.run s = .ok a t → seen ((f a).run t) = (g a).run t.machine) :
    seen ((x >>= f).run s) = (y >>= g).run s.machine := by
  rw [EStateM.run_bind, EStateM.run_bind, ← hx]
  cases h : x.run s with
  | ok a t => exact hf a t h
  | error stop t => rfl

theorem seen_run (step : Run α) (s : Session) : seen ((run step).run s) = step.run s.machine := by
  simp only [run, EStateM.run]
  cases step s.machine <;> rfl

/-- Nothing is left unread. -/
structure Settled (s : Session) : Prop where
  scanned : s.scanner.current = none
  parsed : s.cursor.rest = []

end Session

namespace Scanner

/-- Where a source is read from: from its beginning, or from where the scanner stands if it is
empty. -/
def entered (source : String) (s : Scanner) : Scanner :=
  if source = "" then s else ofSource source

theorem run_tokenize (source : String) (s : Scanner) :
    (tokenize (some source)).run s = lexemes.run (s.entered source) := by
  by_cases h : source = ""
  · rw [entered, if_pos h, tokenize]
    simp only [h, ne_eq, not_true_eq_false, if_false]
  · rw [entered, if_neg h, tokenize]
    simp only [h, ne_eq, not_false_eq_true, if_true]
    rfl

theorem lexemes_of_none {s : Scanner} (h : s.current = none) : lexemes.run s = .ok [] s := by
  have hstop : (lexemeLoop s.togo).run s = .ok [] s := collectWhile_stop (by rw [h]; rfl) s.togo
  rw [lexemes, run_get_bind, run_bind_of_ok hstop]
  rfl

theorem resultOf_lexemes {s : Scanner} (h : source ≠ "" ∨ s.current = none) :
    resultOf (lexemes.run (s.entered source)) = Token.ofSource source := by
  by_cases hempty : source = ""
  · rw [entered, if_pos hempty, lexemes_of_none (h.resolve_left (not_not_intro hempty)), hempty]
    rfl
  · rw [entered, if_neg hempty, Token.ofSource]
    cases lexemes.run (ofSource source) <;> rfl

end Scanner

/-- Where tokens are parsed from: from the first one, or from where the cursor stands if there are
none. -/
def Cursor.entered (tokens : List Token) (c : Cursor) : Cursor :=
  if tokens = [] then c else ofTokens tokens

theorem Parse.run_parse (depth : Nat) (tokens : List Token) (c : Cursor) :
    (parse depth tokens).run c = (program depth).run (c.entered tokens) := by
  cases tokens <;> rfl

theorem Parse.resultOf_program (depth : Nat) {tokens : List Token} {c : Cursor}
    (h : tokens ≠ [] ∨ c.rest = []) :
    resultOf ((program depth).run (c.entered tokens)) = Program.ofTokens depth tokens := by
  obtain ⟨position, rest⟩ := c
  cases tokens with
  | nil =>
    obtain rfl : rest = [] := h.resolve_left (not_not_intro rfl)
    rfl
  | cons t tokens =>
    rw [Cursor.entered, if_neg (List.cons_ne_nil _ _), Program.ofTokens]
    cases (program depth).run (.ofTokens (t :: tokens)) <;> rfl

namespace Session

/-- How the reading of a program may end: in the scanner, in the parser, or with a program. -/
inductive Reads (limits : Limits) (source : String) (s : Session) :
    EStateM.Result Stop Session Program → Prop
  | flaw {fault : Fault} {scanner : Scanner} :
      Scanner.lexemes.run (s.scanner.entered source) = .error fault scanner →
      Reads limits source s (.error (.fault fault) { s with scanner := scanner })
  | reject {tokens : List Token} {scanner : Scanner} {fault : Fault} {cursor : Cursor} :
      Scanner.lexemes.run (s.scanner.entered source) = .ok tokens scanner →
      (Parse.program limits.parse).run (s.cursor.entered tokens) = .error fault cursor →
      Reads limits source s (.error (.fault fault) { s with scanner := scanner, cursor := cursor })
  | accept {tokens : List Token} {scanner : Scanner} {p : Program} {cursor : Cursor} :
      Scanner.lexemes.run (s.scanner.entered source) = .ok tokens scanner →
      (Parse.program limits.parse).run (s.cursor.entered tokens) = .ok p cursor →
      Reads limits source s (.ok p { s with scanner := scanner, cursor := cursor })

theorem reads_program (limits : Limits) (source : String) (s : Session) :
    Reads limits source s ((program limits source).run s) := by
  cases hscan : Scanner.lexemes.run (s.scanner.entered source) with
  | error fault scanner =>
    have hrun : (program limits source).run s =
        .error (.fault fault) { s with scanner := scanner } :=
      run_bind_error_iff.mpr <| .inl <| by
        rw [EStateM.run, scan, Scanner.run_tokenize, hscan]
    rw [hrun]
    exact .flaw hscan
  | ok tokens scanner =>
    have hrun : (program limits source).run s =
        (parse (Parse.parse limits.parse tokens)).run { s with scanner := scanner } :=
      run_bind_of_ok <| by
        rw [EStateM.run, scan, Scanner.run_tokenize, hscan]
    rw [hrun, EStateM.run, parse, Parse.run_parse]
    cases hparse : (Parse.program limits.parse).run (s.cursor.entered tokens) with
    | ok p cursor => exact .accept hscan hparse
    | error fault cursor => exact .reject hscan hparse

theorem Reads.machine {r : EStateM.Result Stop Session Program} (h : Reads limits source s r) :
    (stateOf r).machine = s.machine := by
  cases h <;> rfl

theorem program_ok_iff {p : Program} {t : Session} :
    (program limits source).run s = .ok p t ↔ ∃ tokens scanner cursor,
      Scanner.lexemes.run (s.scanner.entered source) = .ok tokens scanner ∧
      (Parse.program limits.parse).run (s.cursor.entered tokens) = .ok p cursor ∧
      { s with scanner := scanner, cursor := cursor } = t := by
  have hreads := reads_program limits source s
  constructor
  · intro h
    rw [h] at hreads
    cases hreads with
    | accept hscan hparse => exact ⟨_, _, _, hscan, hparse, rfl⟩
  · rintro ⟨tokens, scanner, cursor, hscan, hparse, rfl⟩
    generalize (program limits source).run s = r at hreads
    cases hreads with
    | flaw hscan' => simp [hscan'] at hscan
    | reject hscan' hparse' =>
      cases hscan.symm.trans hscan'
      simp [hparse'] at hparse
    | accept hscan' hparse' =>
      cases hscan.symm.trans hscan'
      cases hparse.symm.trans hparse'
      rfl

theorem seen_program (limits : Limits) (source : String) (s : Session) :
    seen ((program limits source).run s) = (do
      let tokens ← resultOf (Scanner.lexemes.run (s.scanner.entered source))
      resultOf ((Parse.program limits.parse).run (s.cursor.entered tokens)) : Run Program).run
        s.machine := by
  have hreads := reads_program limits source s
  generalize (program limits source).run s = r at hreads
  cases hreads with
  | flaw hscan =>
    rw [hscan]
    rfl
  | reject hscan hparse =>
    rw [hscan, resultOf, Machine.liftM_ok_bind, hparse]
    rfl
  | accept hscan hparse =>
    rw [hscan, resultOf, Machine.liftM_ok_bind, hparse]
    rfl

/-- What is seen of a source depends on the scanner and the cursor only where it is without
characters or without tokens. -/
theorem seen_eval [Clock] (limits : Limits) (source : String) (s : Session) :
    seen ((eval limits source).run s) = (do
      let tokens ← resultOf (Scanner.lexemes.run (s.scanner.entered source))
      let program ← resultOf ((Parse.program limits.parse).run (s.cursor.entered tokens))
      Machine.interpret limits.run program.toNode : Run Machine.Answer).run s.machine := by
  have heval := seen_bind (seen_program limits source s) fun p t _ =>
    seen_run (Machine.interpret limits.run p.toNode) t
  rwa [bind_assoc] at heval

/-- A source with tokens, or any source where nothing is left unread, is evaluated from its
beginning. -/
theorem seen_eval_eq_evaluate [Clock] (limits : Limits)
    (h : Token.ofSource source ≠ .ok [] ∨ s.Settled) :
    seen ((eval limits source).run s) = (evaluate limits source).run s.machine := by
  have hscanned : source ≠ "" ∨ s.scanner.current = none :=
    h.imp (fun hne hempty => hne (hempty ▸ rfl)) Settled.scanned
  rw [seen_eval, evaluate, Scanner.resultOf_lexemes hscanned]
  cases htokens : Token.ofSource source with
  | error fault => rfl
  | ok tokens =>
    have hparsed : tokens ≠ [] ∨ s.cursor.rest = [] :=
      h.imp (fun hne hnil => hne (hnil ▸ htokens)) Settled.parsed
    rw [Machine.liftM_ok_bind, Machine.liftM_ok_bind, Parse.resultOf_program limits.parse hparsed]

/-- The session with a new scanner and a new cursor. -/
def renewed (s : Session) : Session :=
  { machine := s.machine, attached := s.attached }

/-- What is seen of each source in turn, where the session is prepared for every one. -/
def trace [Clock] (limits : Limits) (prepare : Session → Session) :
    Session → List String → List (EStateM.Result Stop Machine Machine.Answer)
  | _, [] => []
  | s, source :: rest =>
    let result := (eval limits source).run (prepare s)
    seen result :: trace limits prepare (stateOf result) rest

theorem trace_eq [Clock] {prepare : Session → Session}
    (hprepare : ∀ s, (prepare s).machine = s.machine) {sources : List String}
    (h : ∀ source ∈ sources, Token.ofSource source ≠ .ok [])
    {s t : Session} (hmachine : s.machine = t.machine) :
    trace limits prepare s sources = trace limits renewed t sources := by
  induction sources generalizing s t with
  | nil => rfl
  | cons source rest ih =>
    have hsource : Token.ofSource source ≠ .ok [] := h source List.mem_cons_self
    have hseen : seen ((eval limits source).run (prepare s)) =
        seen ((eval limits source).run (renewed t)) := by
      rw [seen_eval_eq_evaluate limits (.inl hsource), seen_eval_eq_evaluate limits (.inl hsource),
        hprepare, hmachine]
      rfl
    have hstate : (stateOf ((eval limits source).run (prepare s))).machine =
        (stateOf ((eval limits source).run (renewed t))).machine := by
      rw [machine_stateOf, machine_stateOf, hseen]
    rw [trace, trace, hseen, ih (fun other ho => h other (List.mem_cons_of_mem _ ho)) hstate]

/-- A session that goes on with one scanner and one cursor, wherever earlier sources have left them,
gives step by step what one gives that starts each source with new ones, as long as no source is
without tokens. -/
theorem trace_shared_eq_renewed [Clock] (limits : Limits) (s : Session) (sources : List String)
    (h : ∀ source ∈ sources, Token.ofSource source ≠ .ok []) :
    trace limits id s sources = trace limits renewed s sources :=
  trace_eq (fun _ => rfl) h rfl

/-- Sources that fail in the scanner, in the parser and in the machine, and one that prints. -/
def mixed : List String :=
  ["enter @", "func:f enter \x7b println \"a\"; \x7d", "enter \x7b println y; \x7d",
    "enter \x7b println \"b\"; \x7d"]

theorem trace_shared_eq_renewed_mixed :
    (∀ source ∈ mixed, Token.ofSource source ≠ .ok []) ∧
      trace {} id {} mixed = trace {} renewed {} mixed := by
  have hcheck : ∀ source ∈ mixed, ((Token.ofSource source).toOption.any List.isEmpty) = false := by
    decide +kernel
  have htokens : ∀ source ∈ mixed, Token.ofSource source ≠ .ok [] := by
    intro source hsource hnone
    have := hcheck source hsource
    rw [hnone] at this
    cases this
  exact ⟨htokens, trace_shared_eq_renewed {} {} mixed htokens⟩

end Session

theorem Token.Lexed.hasValue {t : Token} (h : t.Lexed) : 2 ≤ t.fields.length := by
  cases h with
  | plain _ => exact Nat.le_refl 2
  | placed _ _ _ => exact Nat.le_of_ble_eq_true rfl

theorem Token.Lexed.isBare {t : Token} (h : t.Lexed) : t.isBare = false := by
  cases h <;> rfl

theorem Scanner.maintains_between :
    Maintains (fun s => ∃ before ahead, s = between before ahead) lexemes := by
  have hlexeme : Maintains (fun s => ∃ before ahead, s = between before ahead) lexeme := by
    rintro _ ⟨before, ahead, rfl⟩
    rw [run_lexeme, Reading.outcome]
    split
    · exact ⟨_, _, rfl⟩
    · exact ⟨_, _, rfl⟩
  intro s hs
  have hloop : Maintains (fun s => ∃ before ahead, s = between before ahead) (lexemeLoop s.togo) :=
    .collectWhile (fun _ _ ht => hlexeme ht) s.togo
  exact (hloop.bind fun _ => .pure _) hs

namespace Session

/-- What sources leave behind: a scanner between characters, a cursor before tokens of sources. -/
structure Sound (s : Session) : Prop where
  scanner : ∃ before ahead, s.scanner = Scanner.between before ahead
  cursor : ∀ t ∈ s.cursor.rest, t.Lexed

theorem sound_of_machine (m : Machine) : Sound { machine := m } :=
  ⟨⟨[], [], rfl⟩, fun _ ht => nomatch ht⟩

theorem Sound.entered (hs : s.Sound) (source : String) :
    ∃ before ahead, s.scanner.entered source = Scanner.between before ahead := by
  rw [Scanner.entered]
  split
  · exact hs.scanner
  · exact ⟨_, _, Scanner.ofSource_eq_between source⟩

theorem Sound.lexed (hs : s.Sound) {tokens : List Token} {scanner : Scanner}
    (h : Scanner.lexemes.run (s.scanner.entered source) = .ok tokens scanner) :
    (∀ t ∈ (s.cursor.entered tokens).rest, t.Lexed) ∧ scanner.current = none := by
  obtain ⟨before, ahead, hbetween⟩ := hs.entered source
  rw [hbetween] at h
  obtain ⟨hlexes, rfl⟩ := Scanner.lexemes_ok_iff.mp h
  refine ⟨?_, rfl⟩
  rw [Cursor.entered]
  split
  · exact hs.cursor
  · exact hlexes.lexed

theorem Sound.reads (hs : s.Sound) {r : EStateM.Result Stop Session Program}
    (h : Reads limits source s r) : (stateOf r).Sound := by
  have hscanner := Scanner.maintains_between (hs.entered source)
  cases h with
  | flaw hscan =>
    rw [hscan] at hscanner
    exact ⟨hscanner, hs.cursor⟩
  | reject hscan hparse =>
    rw [hscan] at hscanner
    have hcursor := Parse.maintains_program limits.parse Token.Lexed (hs.lexed hscan).1
    rw [hparse] at hcursor
    exact ⟨hscanner, hcursor⟩
  | accept hscan hparse =>
    rw [hscan] at hscanner
    have hcursor := Parse.maintains_program limits.parse Token.Lexed (hs.lexed hscan).1
    rw [hparse] at hcursor
    exact ⟨hscanner, hcursor⟩

theorem Sound.settled (hs : s.Sound) {p : Program} {t : Session}
    (h : (program limits source).run s = .ok p t) : t.Settled := by
  obtain ⟨tokens, scanner, cursor, hscan, hparse, rfl⟩ := program_ok_iff.mp h
  obtain ⟨hlexed, hnone⟩ := hs.lexed hscan
  exact ⟨hnone, Parse.program_done hparse fun t ht => (hlexed t ht).isBare⟩

/-- The session behind the sources, however each of them ends. -/
def after [Clock] (limits : Limits) (history : List String) (s : Session) : Session :=
  history.foldl (fun s source => stateOf ((eval limits source).run s)) s

/-- The run of a program that was read leaves the scanner and the cursor alone. -/
theorem stateOf_eval [Clock] (limits : Limits) (source : String) (s : Session) :
    (stateOf ((eval limits source).run s)).scanner =
      (stateOf ((program limits source).run s)).scanner ∧
    (stateOf ((eval limits source).run s)).cursor =
      (stateOf ((program limits source).run s)).cursor := by
  rw [eval, EStateM.run_bind]
  cases (program limits source).run s with
  | error stop t => exact ⟨rfl, rfl⟩
  | ok p t =>
    simp only [run, EStateM.run]
    cases Machine.interpret limits.run p.toNode t.machine <;> exact ⟨rfl, rfl⟩

theorem Sound.eval [Clock] (hs : s.Sound) (limits : Limits) (source : String) :
    (stateOf ((eval limits source).run s)).Sound := by
  obtain ⟨hscanner, hcursor⟩ := stateOf_eval limits source s
  have hsound := hs.reads (reads_program limits source s)
  exact ⟨hscanner ▸ hsound.scanner, hcursor ▸ hsound.cursor⟩

theorem Sound.after [Clock] (hs : s.Sound) (limits : Limits) (history : List String) :
    (after limits history s).Sound := by
  induction history generalizing s with
  | nil => exact hs
  | cons source rest ih => exact ih (hs.eval limits source)

theorem Sound.settled_eval [Clock] (hs : s.Sound) {p : Program} {t : Session}
    (h : (program limits source).run s = .ok p t) :
    (stateOf ((Session.eval limits source).run s)).Settled := by
  obtain ⟨hscanner, hcursor⟩ := stateOf_eval limits source s
  have hsettled := hs.settled h
  rw [h] at hscanner hcursor
  exact ⟨hscanner ▸ hsettled.scanned, hcursor ▸ hsettled.parsed⟩

/-- Nothing is left that a source without tokens would make the session go on with: no tokens behind
the cursor and, for the empty source, none in the characters that the scanner has left. -/
def Idle (source : String) (s : Session) : Prop :=
  s.cursor.rest = [] ∧ (source = "" → ∃ scanner, Scanner.lexemes.run s.scanner = .ok [] scanner)

theorem Settled.idle (h : s.Settled) (source : String) : Idle source s :=
  ⟨h.parsed, fun _ => ⟨s.scanner, Scanner.lexemes_of_none h.scanned⟩⟩

theorem program_nil_iff {depth : Nat} {c d : Cursor} (hlexed : ∀ t ∈ c.rest, t.Lexed) :
    (Parse.program depth).run c = .ok ⟨[]⟩ d ↔ c.rest = [] ∧ c = d := by
  obtain ⟨position, rest⟩ := c
  cases rest with
  | nil =>
    have hrun : (Parse.program depth).run ⟨position, []⟩ = .ok ⟨[]⟩ ⟨position, []⟩ := rfl
    simp [hrun]
  | cons t rest =>
    refine iff_of_false (fun h => ?_) fun h => nomatch h.1
    have hmore := Parse.token?_cons (hlexed t List.mem_cons_self).hasValue position rest
    rw [Parse.program, run_get_bind] at h
    obtain ⟨body, u, hbody, h⟩ := run_bind_ok_iff.mp h
    obtain ⟨⟨⟩, -⟩ := run_pure_ok_iff.mp h
    rw [List.length_cons, collectWhile_round (by rw [hmore]; rfl)] at hbody
    obtain ⟨_, _, -, hbody⟩ := run_bind_ok_iff.mp hbody
    obtain ⟨_, _, -, hbody⟩ := run_bind_ok_iff.mp hbody
    cases hbody

/-- A source without tokens is read as the empty program exactly if nothing is left. -/
theorem Sound.idle_iff (hs : s.Sound) (limits : Limits) (hblank : Token.ofSource source = .ok []) :
    Idle source s ↔ ∃ t, (program limits source).run s = .ok ⟨[]⟩ t := by
  constructor
  · rintro ⟨hcursor, hscanner⟩
    have hscan : ∃ scanner, Scanner.lexemes.run (s.scanner.entered source) = .ok [] scanner := by
      by_cases hempty : source = ""
      · rw [Scanner.entered, if_pos hempty]
        exact hscanner hempty
      · have hresult := Scanner.resultOf_lexemes (s := s.scanner) (.inl hempty)
        rw [hblank] at hresult
        cases hrun : Scanner.lexemes.run (s.scanner.entered source) with
        | error fault scanner => rw [hrun] at hresult; cases hresult
        | ok tokens scanner =>
          rw [hrun] at hresult
          cases hresult
          exact ⟨scanner, rfl⟩
    obtain ⟨scanner, hscan⟩ := hscan
    exact ⟨_, program_ok_iff.mpr ⟨[], scanner, s.cursor, hscan,
      (program_nil_iff hs.cursor).mpr ⟨hcursor, rfl⟩, rfl⟩⟩
  · rintro ⟨t, ht⟩
    obtain ⟨tokens, scanner, cursor, hscan, hparse, -⟩ := program_ok_iff.mp ht
    have hnil := ((program_nil_iff (hs.lexed hscan).1).mp hparse).1
    rw [Cursor.entered] at hnil
    split at hnil
    · next htokens =>
      refine ⟨hnil, fun hempty => ⟨scanner, ?_⟩⟩
      rwa [Scanner.entered, if_pos hempty, htokens] at hscan
    · next htokens => exact absurd hnil htokens

theorem Sound.eval_idle [Clock] (hs : s.Sound) (limits : Limits)
    (hblank : Token.ofSource source = .ok []) (h : Idle source s) :
    ∃ t, (Session.eval limits source).run s = .ok (.scope s.machine.scope) t ∧
      t.machine = s.machine := by
  obtain ⟨t, ht⟩ := (hs.idle_iff limits hblank).mp h
  have hmachine := (reads_program limits source s).machine
  rw [ht] at hmachine
  have hmachine : t.machine = s.machine := hmachine
  refine ⟨t, ?_, hmachine⟩
  rw [Session.eval, run_bind_of_ok ht, ← hmachine]
  rfl

theorem Settled.after_blanks [Clock] (hs : s.Sound) (hsettled : s.Settled) (limits : Limits)
    {blanks : List String} (hblanks : ∀ b ∈ blanks, Token.ofSource b = .ok []) :
    (after limits blanks s).Settled := by
  induction blanks generalizing s with
  | nil => exact hsettled
  | cons b rest ih =>
    have hb := hblanks b List.mem_cons_self
    obtain ⟨t, ht⟩ := (hs.idle_iff limits hb).mp (hsettled.idle b)
    exact ih (hs.eval limits b) (hs.settled_eval ht) fun c hc =>
      hblanks c (List.mem_cons_of_mem _ hc)

/-- What a source without tokens does behind any history. It makes the session go on with what is
left unread: with the tokens behind the cursor, and if it is empty with the characters that the
scanner has left and, where there are no tokens in them, with those behind the cursor. It does
nothing where nothing is left, and is read as the empty program only there. So it is behind sources
without tokens alone, and behind a source whose program was read, whether the program has failed or
not, with none but sources without tokens in between. -/
theorem eval_blank_after [Clock] (limits : Limits) (m : Machine) (history : List String)
    (source : String) (hblank : Token.ofSource source = .ok []) :
    let s := after limits history { machine := m }
    (Idle source s → ∃ t, (eval limits source).run s = .ok (.scope s.machine.scope) t ∧
      t.machine = s.machine) ∧
    (Idle source s ↔ ∃ t, (program limits source).run s = .ok ⟨[]⟩ t) ∧
    (source ≠ "" → seen ((eval limits source).run s) = (do
      let program ← resultOf ((Parse.program limits.parse).run s.cursor)
      Machine.interpret limits.run program.toNode : Run Machine.Answer).run s.machine) ∧
    (source = "" → seen ((eval limits source).run s) = (do
      let tokens ← resultOf (Scanner.lexemes.run s.scanner)
      let program ← resultOf ((Parse.program limits.parse).run (s.cursor.entered tokens))
      Machine.interpret limits.run program.toNode : Run Machine.Answer).run s.machine) ∧
    ((∀ blank ∈ history, Token.ofSource blank = .ok []) → Idle source s) ∧
    ∀ earlier last blanks, history = earlier ++ last :: blanks →
      (∃ p t, (program limits last).run (after limits earlier { machine := m }) = .ok p t) →
      (∀ blank ∈ blanks, Token.ofSource blank = .ok []) → Idle source s := by
  have hfresh := sound_of_machine m
  have hs := hfresh.after limits history
  refine ⟨hs.eval_idle limits hblank, hs.idle_iff limits hblank, fun hne => ?_, fun hempty => ?_,
    fun hblanks => ?_, ?_⟩
  · rw [seen_eval, Scanner.resultOf_lexemes (.inl hne), hblank]
    rfl
  · rw [seen_eval, Scanner.entered, if_pos hempty]
  · exact (Settled.after_blanks hfresh ⟨rfl, rfl⟩ limits hblanks).idle source
  · rintro earlier last blanks rfl ⟨p, t, hread⟩ hblanks
    have hearlier := hfresh.after limits earlier
    rw [after, List.foldl_append, List.foldl_cons]
    exact (Settled.after_blanks (hearlier.eval limits last) (hearlier.settled_eval hread) limits
      hblanks).idle source

/-- A comment does nothing behind a source that fails in the scanner, one that fails in the machine
and a blank. -/
theorem eval_blank_after_failures :
    let history := ["enter @", "enter \x7b println y; \x7d", " "]
    let s := after {} history { machine := {} }
    Token.ofSource "// note" = .ok [] ∧
      ∃ t, (eval {} "// note").run s = .ok (.scope s.machine.scope) t ∧ t.machine = s.machine := by
  have hcomment : Token.ofSource "// note" = .ok [] := by
    have hcheck : (Token.ofSource "// note").toOption.any List.isEmpty = true := by
      decide +kernel
    cases hrun : Token.ofSource "// note" with
    | error fault => rw [hrun] at hcheck; cases hcheck
    | ok tokens =>
      rw [hrun] at hcheck
      rw [List.isEmpty_iff.mp hcheck]
  have hread : ∃ p t, (program {} "enter \x7b println y; \x7d").run
      (after {} ["enter @"] { machine := {} }) = .ok p t := by
    have hcheck : (resultOf ((program {} "enter \x7b println y; \x7d").run
        (after {} ["enter @"] { machine := {} }))).toOption.isSome = true := by
      decide +kernel
    cases hrun : (program {} "enter \x7b println y; \x7d").run
        (after {} ["enter @"] { machine := {} }) with
    | ok p t => exact ⟨p, t, rfl⟩
    | error stop t => rw [hrun] at hcheck; cases hcheck
  have hblanks : ∀ blank ∈ [" "], Token.ofSource blank = .ok [] := by
    intro blank hblank
    rw [List.mem_singleton.mp hblank]
    rfl
  obtain ⟨hnothing, -, -, -, -, hidle⟩ := eval_blank_after {} {}
    ["enter @", "enter \x7b println y; \x7d", " "] "// note" hcomment
  exact ⟨hcomment, hnothing (hidle ["enter @"] _ [" "] rfl hread hblanks)⟩

/-- It is not so that a source without tokens does nothing: behind `func:f enter { println "a"; }`,
which is rejected at `enter`, a blank runs the entry block. -/
theorem not_eval_blank_idle :
    ¬ ∀ (limits : Limits) (m : Machine) (history : List String) (source : String),
      Token.ofSource source = .ok [] →
      ∃ answer t, (eval limits source).run (after limits history { machine := m }) = .ok answer t ∧
        t.machine = (after limits history { machine := m }).machine := by
  intro h
  obtain ⟨answer, t, hrun, hmachine⟩ :=
    h {} {} ["func:f enter \x7b println \"a\"; \x7d"] " " rfl
  have hlog : (stateOf ((eval {} " ").run
      (after {} ["func:f enter \x7b println \"a\"; \x7d"] { machine := {} }))).machine.log.size ≠
      (after {} ["func:f enter \x7b println \"a\"; \x7d"] { machine := {} }).machine.log.size := by
    decide +kernel
  rw [hrun] at hlog
  exact hlog (congrArg (fun m : Machine => m.log.size) hmachine)

end Session

end Scriptlet
