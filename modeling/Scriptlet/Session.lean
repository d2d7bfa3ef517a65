import Scriptlet.Machine.Visit
import Scriptlet.Token.Scanner
import Scriptlet.Tree.Grammar

/-!
# Sessions

A session keeps one scanner, one cursor and one machine for a whole sequence of inputs, so that
each input goes on from where the last one left them. Where a step of an input fails, the later
parts stay as they were.
-/
namespace Scriptlet

/-- A scanner, a cursor and a machine; `attached` tells whether the machine may parse what the
cursor has left. -/
structure Session where
  scanner : Scanner := {}
  cursor : Cursor := {}
  machine : Machine := {}
  attached : Bool := false

namespace Session

/-- How deeply expressions and visits may nest. -/
structure Limits where
  parse : Nat := Parse.maxDepth
  run : Nat := Machine.maxDepth

abbrev Step := EStateM Stop Session

def scan {α : Type} (step : Scan α) : Step α := fun s =>
  match step.run s.scanner with
  | .ok a scanner => .ok a { s with scanner := scanner }
  | .error fault scanner => .error (.fault fault) { s with scanner := scanner }

def parse {α : Type} (step : Parse α) : Step α := fun s =>
  match step.run s.cursor with
  | .ok a cursor => .ok a { s with cursor := cursor }
  | .error fault cursor => .error (.fault fault) { s with cursor := cursor }

def run {α : Type} (step : Run α) : Step α := fun s =>
  match step.run s.machine with
  | .ok a machine => .ok a { s with machine := machine }
  | .error stop machine => .error stop { s with machine := machine }

/-- The program of a source, read with what earlier inputs have left. -/
def program (limits : Limits) (source : String) : Step Program := do
  let tokens ← scan (Scanner.tokenize (some source))
  parse (Parse.parse limits.parse tokens)

def eval [Clock] (limits : Limits) (source : String) : Step Machine.Answer := do
  let program ← program limits source
  run (Machine.interpret limits.run program.toNode)

/-- Puts the cursor before the tokens of a source, which a scanner of its own reads. -/
def load (source : String) : Step Unit := fun s =>
  match Token.ofSource source with
  | .ok tokens => .ok () { s with cursor := Cursor.ofTokens tokens }
  | .error fault => .error (.fault fault) s

/-- Runs a tree. Without a tree an attached cursor parses what it has left. -/
def interpret [Clock] (limits : Limits) (tree : Value) : Step Machine.Answer := do
  match tree with
  | .null =>
    if (← get).attached then
      let program ← parse (Parse.parse limits.parse [])
      run (Machine.interpret limits.run program.toNode)
    else
      run (Machine.interpret limits.run .null)
  | tree => run (Machine.interpret limits.run tree)

/-- The events since the log was last taken, and the session without them. -/
def takeLog (s : Session) : List Event × Session :=
  (s.machine.log.toList, { s with machine := { s.machine with log := #[] } })

end Session

end Scriptlet
