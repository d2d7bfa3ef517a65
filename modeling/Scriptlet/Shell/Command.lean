import Scriptlet.Shell.Repl
import Scriptlet.Text.Character

/-!
# The command line

The arguments of the command: at most one script, and two options that may be shortened. An
argument is an option if it begins with a dash, unless it is the dash alone, looks like a negative
number or holds a blank; behind two dashes nothing is an option.
-/
namespace Scriptlet

/-- What the arguments ask for. -/
inductive Command where
  | repl
  | script (path : String)
  | version
  | help
  | misused (complaint : String)
  deriving DecidableEq, Repr

namespace Command

inductive Argument where
  | positional
  | help
  | version
  /-- An option that was given a value, which it does not take. -/
  | valued (option value : String)
  | unknown
  deriving DecidableEq, Repr

/-- The options, with the spelling that complaints use. -/
def helpNames : String := "-h/--help"

/-- The long spellings of the options. -/
def longOptions : List (String × Argument) :=
  [("--help", .help), ("--version", .version)]

/-- An option with what stands behind its equals sign, if there is one. -/
def withValue (argument : Argument) (value : Option String) : Argument :=
  match value with
  | none => argument
  | some value => .valued (if argument = .help then helpNames else "--version") value

def splitValue (text : String) : String × Option String :=
  match text.toList.span (· != '=') with
  | (_, []) => (text, none)
  | (before, _ :: after) => (String.ofList before, some (String.ofList after))

/-- What stands behind a dash and an `h`: more letters for options, of which only the `h` is known;
the rest from an unknown one on counts as a value. -/
def afterHelp : List Char → Argument
  | [] => .help
  | 'h' :: rest => afterHelp rest
  | value => .valued helpNames (String.ofList value)

/-- An argument that begins with a dash and an `h`. What stands behind an equals sign there is read
like more letters, but not nothing at all. -/
def shortHelp : List Char → Argument
  | ['='] => .valued helpNames ""
  | '=' :: letters => afterHelp letters
  | letters => afterHelp letters

/-- Whether a text is a negative number, with a line feed behind it or without. -/
def isNegativeNumber (text : String) : Bool :=
  let isDecimal (c : Char) : Bool := (Text.decimalValue? c).isSome
  let isEnd (rest : List Char) : Bool := rest = [] || rest = ['\n']
  match text.toList with
  | '-' :: rest =>
    let whole := rest.takeWhile isDecimal
    match rest.dropWhile isDecimal with
    | '.' :: fraction =>
      !(fraction.takeWhile isDecimal).isEmpty && isEnd (fraction.dropWhile isDecimal)
    | rest => !whole.isEmpty && isEnd rest
  | _ => false

/-- What an argument is; an error where it could be more than one option. -/
def classify (text : String) : Except String Argument :=
  let (name, value) := splitValue text
  if !text.startsWith "-" || text = "-" then .ok .positional
  else if text.startsWith "--" then
    match longOptions.lookup name with
    | some argument => .ok (withValue argument value)
    | none =>
      match longOptions.filter fun option => option.1.startsWith name with
      | [(_, argument)] => .ok (withValue argument value)
      | [] => .ok (if text.toList.contains ' ' then .positional else .unknown)
      | several =>
        .error (s!"ambiguous option: {text} could match " ++
          ", ".intercalate (several.map Prod.fst))
  else if text.startsWith "-h" then .ok (shortHelp (text.toList.drop 2))
  else if isNegativeNumber text || text.toList.contains ' ' then .ok .positional
  else .ok .unknown

/-- What the arguments so far have said. -/
structure Request where
  script : Option String := none
  version : Bool := false
  extra : List String := []
  /-- Whether the last argument was taken as the script. -/
  fresh : Bool := false

def Request.command (request : Request) : Command :=
  if !request.extra.isEmpty then
    .misused ("unrecognized arguments: " ++ " ".intercalate request.extra)
  else if request.version then .version
  else match request.script with
    | some path => if path = "" then .repl else .script path
    | none => .repl

/-- The request after two dashes: the first argument behind them is the script, unless there is one
already. Two dashes right behind the script say nothing. -/
def Request.afterDashes (request : Request) (rest : List String) : Request :=
  match request.script, rest with
  | none, [] => request
  | none, path :: others => { request with script := some path, extra := request.extra ++ others }
  | some _, _ =>
    let dashes := if request.fresh then [] else ["--"]
    { request with extra := request.extra ++ dashes ++ rest }

/-- Takes arguments in order; asking for help ends it, and so does an option with a value. -/
def take (request : Request) : List String → Command
  | [] => request.command
  | text :: rest =>
    if text = "--" then (request.afterDashes rest).command
    else match classify text with
      | .error complaint => .misused complaint
      | .ok .help => .help
      | .ok .version => take { request with version := true, fresh := false } rest
      | .ok (.valued option value) =>
        .misused (s!"argument {option}: ignored explicit argument " ++ Text.quoted value)
      | .ok .unknown => take { request with extra := request.extra ++ [text], fresh := false } rest
      | .ok .positional =>
        match request.script with
        | none => take { request with script := some text, fresh := true } rest
        | some _ => take { request with extra := request.extra ++ [text], fresh := false } rest

/-- The complaint about an argument that could be more than one option; it comes before all
else. -/
def ambiguity? (arguments : List String) : Option String :=
  (arguments.takeWhile (· != "--")).findSome? fun text =>
    match classify text with
    | .error complaint => some complaint
    | .ok _ => none

def ofArguments (arguments : List String) : Command :=
  match ambiguity? arguments with
  | some complaint => .misused complaint
  | none => take {} arguments

def usage : String :=
  "usage: main.py [-h] [--version] [script]\n"

def helpText : String :=
  usage ++ "\nHoly-D Language Interpreter\n\npositional arguments:\n" ++
    "  script      Holy-D script file to run\n\noptions:\n" ++
    "  -h, --help  show this help message and exit\n" ++
    "  --version   Show version information and exit\n"

def versionText : String :=
  "Holy-D Language Interpreter v0.1.0"

/-- How a command ends: by itself, because there are no lines left, or with a code and what was
written to the error output. -/
inductive Ending where
  | done
  | outOfLines
  | exited (code : Int) (complaint : String)

variable {m : Type → Type} [Monad m] [Host m]

/-- Carries out a command that needs no lines from the user, or begins a dialogue by `talk`. -/
def carryOut (talk : m Repl.Ending) : Command → m Ending
  | .help => do
    Host.perform (.write helpText)
    return .exited 0 ""
  | .misused complaint => return .exited 2 (usage ++ "main.py: error: " ++ complaint ++ "\n")
  | .version => do
    Host.say versionText
    return .done
  | .script path => do
    match ← Script.run path with
    | .done _ => return .done
    | .left code => return .exited code ""
  | .repl => do
    match ← talk with
    | .stopped => return .done
    | .outOfLines => return .outOfLines
    | .left code => return .exited code ""

def launch (arguments lines : List String) : m Ending :=
  carryOut (Repl.start lines) (ofArguments arguments)

/-- The command that demonstrates a script: the first argument or the default one. -/
def demonstration (arguments : List String) : m Ending := do
  match ← Script.demonstrate (arguments.head?.getD Script.defaultScript) with
  | .done () => return .done
  | .left code => return .exited code ""

end Command

end Scriptlet
