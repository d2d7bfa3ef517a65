import Scriptlet.Machine
import Scriptlet.Shell.Files

/-!
# Hosts

What the commands need from the outside: a place to write to, a clock, and files. A `Desk` is a
host that keeps all of it as a value.
-/
namespace Scriptlet

/-- The outside of the commands. -/
class Host (m : Type → Type) where
  /-- The working folder. -/
  home : m String
  /-- Writes a text or pauses. -/
  perform : Event → m Unit
  clock : m Clock
  read : String → m (Except Fault (List UInt8))
  makeFolders : String → m (Except Fault Unit)
  write : String → String → m (Except Fault Unit)

def Host.say {m : Type → Type} [Host m] (line : String) : m Unit :=
  Host.perform (.write (line ++ "\n"))

def Host.replay {m : Type → Type} [Monad m] [Host m] (events : List Event) : m Unit :=
  events.forM Host.perform

/-- Files, a clock that stands still, and a log of what was written and of the pauses. -/
structure Desk where
  files : Files
  clock : Clock := .started
  log : Array Event := #[]

/-- Changes the files of a desk, if that can be done. -/
def Desk.change (edit : Files → Except Fault Files) : StateM Desk (Except Fault Unit) := do
  match edit (← get).files with
  | .ok files =>
    modify fun desk => { desk with files := files }
    return .ok ()
  | .error fault => return .error fault

instance : Host (StateM Desk) where
  home := do return "/" ++ "/".intercalate (← get).files.home
  perform event := modify fun desk => { desk with log := desk.log.push event }
  clock := do return (← get).clock
  read path := do return (← get).files.read path
  makeFolders path := Desk.change fun files => files.makeFolders path
  write path text := Desk.change fun files => files.write path text.toUTF8.toList

end Scriptlet
