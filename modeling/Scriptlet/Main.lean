import Scriptlet.Shell.Command

/-!
# The program

The command line with the real outside: standard input and output, the clock, and files.
-/
namespace Scriptlet

/-- The refusal that the system reports by a number. -/
def FileRefusal.ofNumber? (number : Nat) : Option FileRefusal :=
  [notFound, denied, occupied, notFolder, isFolder, nameTooLong].find? fun refusal =>
    refusal.number = number

def Fault.ofSystem (path : String) (refusal : IO.Error) : Fault :=
  let number : UInt32 := match refusal with
    | .alreadyExists _ number _ | .invalidArgument _ number _ | .permissionDenied _ number _
    | .inappropriateType _ number _ | .noSuchThing _ number _ | .noFileOrDirectory _ number _
    | .otherError number _ => number
    | _ => 0
  .refused ((FileRefusal.ofNumber? number.toNat).getD .notFound) path

/-- Carries out a request, and tells why it was refused. -/
def attempt {α : Type} (path : String) (action : IO α) : IO (Except Fault α) := do
  if path.toList.contains '\x00' then return .error .nullInPath
  try
    return .ok (← action)
  catch refusal =>
    return .error (Fault.ofSystem path refusal)

instance : Host IO where
  home := do return (← IO.currentDir).toString
  perform
    | .write text => do
      IO.print text
      (← IO.getStdout).flush
    | .pause seconds => IO.sleep (seconds * 1000).toUInt32
  clock := do return ⟨← IO.monoNanosNow⟩
  read path := attempt path do return (← IO.FS.readBinFile path).toList
  makeFolders path := attempt path (IO.FS.createDirAll path)
  write path text := attempt path (IO.FS.writeFile path text)

/-- Takes lines from standard input until a dialogue ends. -/
partial def converse (repl : Repl) : IO Repl.Ending := do
  Host.perform (.write Repl.prompt)
  let line ← (← IO.getStdin).getLine
  if line.isEmpty then return .outOfLines
  let text := String.ofList (line.toList.reverse.dropWhile (· == '\n')).reverse
  match ← repl.turn text with
  | .again repl => converse repl
  | .stop => return .stopped
  | .left code => return .left code

end Scriptlet

/-- Runs the command line; the code is that of the program that left, if one did. -/
def main (arguments : List String) : IO UInt32 := do
  let talk : IO Scriptlet.Repl.Ending := do
    Scriptlet.Host.say Scriptlet.Repl.banner
    Scriptlet.converse {}
  match ← Scriptlet.Command.carryOut talk (Scriptlet.Command.ofArguments arguments) with
  | .done => return 0
  | .outOfLines => return 0
  | .exited code complaint =>
    IO.eprint complaint
    return (code % 256).toNat.toUInt32
