import Scriptlet.Session
import Scriptlet.Shell.Host
import Scriptlet.Shell.Saved
import Scriptlet.Shell.Utf8

/-!
# Running script files

A script is read, its syntax tree is saved in a cache folder beside it, and then it is run. Faults
are told to the user; only a program that leaves ends the command early.
-/
namespace Scriptlet.Script

/-- How a command ends: with a result, or because the program left with a code. -/
inductive Ending (α : Type) where
  | done (result : α)
  | left (code : Int)

variable {m : Type → Type} [Monad m] [Host m]

def tell (fault : Fault) : m Unit :=
  Host.say ("Error: " ++ fault.message)

/-- The folder beside a script that its saved tree goes to. -/
def cacheFolder (home path : String) : String :=
  Path.folder (Path.absolute home path) ++ "/_holy_d_cache"

def cacheFile (home path : String) : String :=
  cacheFolder home path ++ "/" ++ Path.stem (Path.fileName path) ++ ".hdast"

/-- Saves a tree beside the script of the path: `false` where it cannot be written, and a fault
where there is no folder for it. -/
def save (tree : Value) (path : String) : m (Except Fault Bool) := do
  let home ← Host.home
  match ← Host.makeFolders (cacheFolder home path) with
  | .error fault => return .error fault
  | .ok () =>
    let file := cacheFile home path
    let written ← match Saved.text tree with
      | .ok text => Host.write file text
      | .error fault => pure (.error fault)
    match written with
    | .ok () =>
      Host.say ("AST saved to " ++ file)
      return .ok true
    | .error fault =>
      Host.say ("Error saving AST: " ++ fault.message)
      return .ok false

def source (path : String) : m (Except Fault String) := do
  match ← Host.read path with
  | .ok bytes => return Utf8.text bytes
  | .error fault => return .error fault

/-- Runs a tree on a machine of its own, and repeats outside what it has done: its variables, or why
it has stopped. -/
def perform (tree : Value) : m (Except Stop (Table Value)) := do
  let _clock : Clock ← Host.clock
  match (Machine.interpret Machine.maxDepth tree).run {} with
  | .ok _ machine =>
    Host.replay machine.log.toList
    return .ok machine.scope
  | .error stop machine =>
    Host.replay machine.log.toList
    return .error stop

/-- Tells the user why a script failed. -/
def fail {α : Type} (path : String) (fault : Fault) : m (Ending (Option α)) := do
  if fault.kind = .notFound then Host.say ("Error: File '" ++ path ++ "' not found")
  else tell fault
  return .done none

/-- Runs a script file; the result is its variables. -/
def run (path : String) : m (Ending (Option (Table Value))) := do
  match ← source path with
  | .error fault => fail path fault
  | .ok text =>
    match Token.ofSource text >>= Program.ofTokens Parse.maxDepth with
    | .error fault => fail path fault
    | .ok program =>
      match ← save program.toNode path with
      | .error fault => fail path fault
      | .ok _ =>
        match ← perform program.toNode with
        | .ok scope => return .done (some scope)
        | .error (.leave code) => return .left code
        | .error (.fault fault) => fail path fault

/-- A line that divides. -/
def rule : String :=
  String.ofList (List.replicate 40 '-')

/-- Runs a script file and tells the user about every stage; nothing is saved. -/
def demonstrate (path : String) : m (Ending Unit) := do
  let stop (fault : Fault) : m (Ending Unit) := do
    tell fault
    return .done ()
  match ← source path with
  | .error fault => stop fault
  | .ok text =>
    Host.say ("Running " ++ path ++ ":")
    Host.say rule
    match Token.ofSource text with
    | .error fault => stop fault
    | .ok tokens =>
      Host.say "Tokenization successful!"
      match Program.ofTokens Parse.maxDepth tokens with
      | .error fault => stop fault
      | .ok program =>
        Host.say "Parsing successful!"
        match ← perform program.toNode with
        | .ok _ =>
          Host.say rule
          Host.say "Program executed successfully!"
          return .done ()
        | .error (.leave code) => return .left code
        | .error (.fault fault) => stop fault

/-- The script that is demonstrated if none is named. -/
def defaultScript : String := "example.hd"

end Scriptlet.Script
