import Scriptlet.Table
import Scriptlet.Value.Arithmetic
import Scriptlet.Value.Convert
import Scriptlet.Value.Display

/-!
# The machine that runs programs

A machine holds the variables in scope, the declared functions and a log of what it has done to the
outside. A run ends with a result, with a fault, or because the program asks to leave; in every
case the machine stays as the run left it.
-/
namespace Scriptlet

/-- Something that a program does to the outside. -/
inductive Event where
  | write (text : String)
  | pause (seconds : Float)

def Event.output (events : List Event) : String :=
  String.join (events.filterMap fun
    | .write text => some text
    | .pause _ => none)

def Event.pauses (events : List Event) : List Float :=
  events.filterMap fun
    | .write _ => none
    | .pause seconds => some seconds

/-- Why a run ends without a result. -/
inductive Stop where
  | fault (cause : Fault)
  | leave (code : Int)

structure Machine where
  scope : Table Value := []
  functions : Table Value := []
  log : Array Event := #[]

/-- A step of a run. -/
abbrev Run := EStateM Stop Machine

/-- A fault ends a run. -/
instance : MonadLift (Except Fault) Run where
  monadLift
    | .ok a => pure a
    | .error fault => throw (.fault fault)

namespace Machine

def emit (event : Event) : Run Unit :=
  modify fun m => { m with log := m.log.push event }

/-- Writes the texts of values with `separator` between them and `ending` behind them, one by one,
so that those before a value without a text are written. -/
def write (separator ending : String) : List Value → Run Unit
  | [] => emit (.write ending)
  | [value] => do
    emit (.write (← value.display))
    emit (.write ending)
  | value :: rest => do
    emit (.write (← value.display))
    emit (.write separator)
    write separator ending rest

def assign (name : Name) (value : Value) : Run Unit :=
  modify fun m => { m with scope := m.scope.set name value }

def declare (name : Name) (node : Value) : Run Unit :=
  modify fun m => { m with functions := m.functions.set name node }

end Machine

end Scriptlet
