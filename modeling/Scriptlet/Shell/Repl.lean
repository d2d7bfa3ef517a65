import Scriptlet.Shell.Script

/-!
# The dialogue

The user types sources line by line; each is evaluated in one session and answered with the
variables. Two words end the dialogue, and one saves the last tree.
-/
namespace Scriptlet

/-- A session, the tree of the last line if all went well with it, and the number that the next
saved tree gets. -/
structure Repl where
  session : Session := {}
  tree : Option Value := none
  count : Nat := 1

/-- What follows a line: another one, or the end of the dialogue. -/
inductive Repl.Turn where
  | again (repl : Repl)
  | stop
  | left (code : Int)

/-- How a dialogue ends: by the user's word, because there are no lines left, or because a program
left. -/
inductive Repl.Ending where
  | stopped
  | outOfLines
  | left (code : Int)

namespace Repl

variable {m : Type → Type} [Monad m] [Host m]

def banner : String :=
  "Holy-D REPL (type 'exit' to quit, 'save' to save and execute)"

def prompt : String := "> "

def lowered (line : String) : String :=
  String.ofList (line.toList.map Char.toLower)

/-- The dialogue after a fault, which the user is told about. -/
def afterFault (repl : Repl) (fault : Fault) : m Turn := do
  Script.tell fault
  return .again { repl with tree := none }

/-- The text of a table: its names and entries between braces. -/
def tableText (table : Table Value) : Except Fault String := do
  let entries ← table.mapM fun (name, entry) => do
    return (← name.toValue.quoted) ++ ": " ++ (← entry.quoted)
  return "\x7b" ++ ", ".intercalate entries ++ "\x7d"

def answerText : Machine.Answer → Except Fault String
  | .scope table => tableText table
  | .value value => value.display

def evaluate (repl : Repl) (line : String) : m Turn := do
  let _clock : Clock ← Host.clock
  let step : Session.Step (Value × Machine.Answer) := do
    let program ← Session.program {} line
    let answer ← Session.run (Machine.interpret Machine.maxDepth program.toNode)
    return (program.toNode, answer)
  let result := step.run repl.session
  let (events, session) := Session.takeLog <| match result with
    | .ok _ session => session
    | .error _ session => session
  Host.replay events
  let repl := { repl with session := session }
  match result with
  | .error (.leave code) _ => return .left code
  | .error (.fault fault) _ => repl.afterFault fault
  | .ok (tree, answer) _ =>
    match answerText answer with
    | .ok text =>
      Host.say text
      return .again { repl with tree := some tree }
    | .error fault => repl.afterFault fault

/-- Saves the last tree under the next number. -/
def saveTree (repl : Repl) (tree : Value) : m Turn := do
  match ← Script.save tree ("repl_session_" ++ toString repl.count ++ ".hd") with
  | .ok _ => return .again { repl with count := repl.count + 1 }
  | .error fault => repl.afterFault fault

def turn (repl : Repl) (line : String) : m Turn := do
  let word := lowered line
  if word = "exit" || word = "quit" then return .stop
  else match repl.tree with
    | some tree => if word = "save" then repl.saveTree tree else repl.evaluate line
    | none => repl.evaluate line

/-- Takes lines, each after a prompt. -/
def dialogue (repl : Repl) : List String → m Ending
  | [] => do
    Host.perform (.write prompt)
    return .outOfLines
  | line :: rest => do
    Host.perform (.write prompt)
    match ← repl.turn line with
    | .again repl => repl.dialogue rest
    | .stop => return .stopped
    | .left code => return .left code

/-- A dialogue from its banner on. -/
def start (lines : List String) : m Ending := do
  Host.say banner
  dialogue {} lines

end Repl

end Scriptlet
