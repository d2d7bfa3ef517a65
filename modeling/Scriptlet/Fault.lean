import Scriptlet.Text.Quoted

/-!
# Faults

Everything that can go wrong, as a cause with the data that its message needs. `Fault.kind` sorts
the causes, and `Fault.message` is the one place where they are worded.

Behind them stand the two things that all steps that may fail have in common. What cannot change
the state is a step too, and one step is repeated as long as the state allows it. The state of the
reader and of the grammar holds a finite rest of the input, and each round takes something from it,
so the length of that rest bounds the number of rounds.
-/
namespace Scriptlet

/-- The sorts of faults that a caller can tell apart. -/
inductive Fault.Kind where
  | malformed | name | type | value | index | key | member | overflow | zeroDivision | general
  | depth | memory | notFound | occupied | notFolder | isFolder | system
  deriving DecidableEq, Repr

inductive FileRefusal where
  | notFound | denied | occupied | notFolder | isFolder | nameTooLong
  deriving DecidableEq, Repr

inductive ByteFlaw where
  | start | continuation | ending
  deriving DecidableEq, Repr

inductive Fault where
  /-- No lexeme begins with this character. -/
  | unrecognized (c : Char) (position : Int) (line column : Nat)
  | unclosedString
  /-- A source position lies before the start of the source. -/
  | sourceIndex
  /-- A position lies before the start of the token list. -/
  | tokenListIndex
  | notInteger (text : String)
  | notDecimal (text : String)
  | digitsToRead (count : Nat)
  | digitsToShow
  /-- A token of another kind was needed. -/
  | expected (wanted got line column : String)
  /-- No declaration or statement begins with this token. -/
  | unexpectedToken (shown : String)
  /-- No expression begins with this token. -/
  | notExpression (got line column : String)
  /-- A statement was needed and there is no token left. -/
  | unexpectedEnd
  /-- The token begins a statement of a kind that the grammar has no rule for. -/
  | noStatementRule (rule : String)
  /-- The token has no field at the place asked for. -/
  | tokenField
  | noLength (kind : String)
  | noFields (kind : String)
  | textField
  | listField
  | noItems (kind : String)
  /-- Nothing is filed under a value of this kind. -/
  | noName (kind : String)
  | missingField (field : String)
  | missingMember (owner member : String)
  | unknownNode (type : String)
  | undefinedVariable (name : String)
  | undefinedFunction (name line : String)
  | unknownOperator (operator : String)
  /-- The operator does not apply to operands of these kinds. -/
  | operands (operator left right : String)
  /-- A sequence is extended only by its own kind. -/
  | concatenation (sequence other : String)
  /-- A sequence is repeated only an integer number of times. -/
  | repetition (kind : String)
  /-- The number of repetitions does not fit a machine word. -/
  | repetitionCount
  /-- The repeated text would be too long. -/
  | repeatedText
  | memory
  | divisionByZero
  | floatDivisionByZero
  /-- The integer exceeds every binary64 number. -/
  | integerTooLarge
  /-- The quotient of two integers exceeds every binary64 number. -/
  | quotientTooLarge
  | infiniteInteger
  | nanInteger
  | noFloat (kind : String)
  | noInteger (kind : String)
  | pauseLength
  | negativePause
  /-- The length of a pause is a number. -/
  | nanPause
  /-- The pause is too long for the clock to count. -/
  | pauseRange
  /-- The system refused a pause of this many nanoseconds, which would end when the clock can no
  longer show it. -/
  | pauseRefused (length : Nat)
  /-- A token is read as a pair, and has this many fields. -/
  | notPair (fields : Nat)
  /-- The file system refused a request for this path. -/
  | refused (cause : FileRefusal) (path : String)
  | nullInPath
  /-- The bytes from `first` up to but not including `stop`, of which `byte` is the first, are not
  UTF-8. -/
  | notUtf8 (flaw : ByteFlaw) (byte : UInt8) (first stop : Nat)
  | tooDeep
  deriving DecidableEq, Repr

namespace FileRefusal

/-- The number by which the file system reports the refusal. -/
def number : FileRefusal → Nat
  | notFound => 2
  | denied => 13
  | occupied => 17
  | notFolder => 20
  | isFolder => 21
  | nameTooLong => 36

def message : FileRefusal → String
  | notFound => "No such file or directory"
  | denied => "Permission denied"
  | occupied => "File exists"
  | notFolder => "Not a directory"
  | isFolder => "Is a directory"
  | nameTooLong => "File name too long"

end FileRefusal

def ByteFlaw.message : ByteFlaw → String
  | start => "invalid start byte"
  | continuation => "invalid continuation byte"
  | ending => "unexpected end of data"

namespace Fault

def kind : Fault → Kind
  | unrecognized .. | unclosedString | notInteger _ | notDecimal _ | digitsToRead _ | digitsToShow
  | unknownOperator _ | nanInteger | negativePause | nanPause | notPair _ | nullInPath
  | notUtf8 .. => .value
  | sourceIndex | tokenListIndex | tokenField => .index
  | expected .. | unexpectedToken _ | notExpression .. | unexpectedEnd => .malformed
  | noStatementRule _ | missingMember .. => .member
  | noLength _ | noFields _ | textField | listField | noItems _ | noName _ | operands ..
  | concatenation .. | repetition _ | noFloat _ | noInteger _ | pauseLength => .type
  | missingField _ => .key
  | unknownNode _ => .general
  | memory => .memory
  | undefinedVariable _ | undefinedFunction .. => .name
  | repetitionCount | repeatedText | integerTooLarge | quotientTooLarge | infiniteInteger
  | pauseRange => .overflow
  | divisionByZero | floatDivisionByZero => .zeroDivision
  | refused .notFound _ => .notFound
  | refused .occupied _ => .occupied
  | refused .notFolder _ => .notFolder
  | refused .isFolder _ => .isFolder
  | refused .denied _ | refused .nameTooLong _ | pauseRefused _ => .system
  | tooDeep => .depth

def message : Fault → String
  | unrecognized c position line column =>
    s!"Unrecognized character: '{c}' at position {position}, line {line}, column {column}"
  | unclosedString => "Unclosed string literal"
  | sourceIndex => "string index out of range"
  | tokenListIndex => "list index out of range"
  | notInteger text =>
    "invalid literal for int() with base 10: " ++
      String.ofList ((Text.quoted text).toList.take 200)
  | notDecimal text => "could not convert string to float: " ++ Text.quoted text
  | digitsToRead count =>
    s!"Exceeds the limit (4300 digits) for integer string conversion: value has {count} digits; " ++
      "use sys.set_int_max_str_digits() to increase the limit"
  | digitsToShow =>
    "Exceeds the limit (4300 digits) for integer string conversion; " ++
      "use sys.set_int_max_str_digits() to increase the limit"
  | expected wanted got line column =>
    s!"Expected {wanted}, got {got} at line {line}, column {column}"
  | unexpectedToken shown => "Unexpected token: " ++ shown
  | notExpression got line column =>
    s!"Unexpected token in expression: {got} at line {line}, column {column}"
  | unexpectedEnd => "Unexpected end of input"
  | noStatementRule rule => s!"'Parser' object has no attribute '{rule}'"
  | tokenField => "tuple index out of range"
  | noLength kind => s!"object of type '{kind}' has no len()"
  | noFields kind => s!"'{kind}' object is not subscriptable"
  | textField => "string indices must be integers, not 'str'"
  | listField => "list indices must be integers or slices, not str"
  | noItems kind => s!"'{kind}' object is not iterable"
  | noName kind => s!"unhashable type: '{kind}'"
  | missingField field => Text.quoted field
  | missingMember owner member => s!"'{owner}' object has no attribute '{member}'"
  | unknownNode type => s!"No visit_{type} method defined"
  | undefinedVariable name => s!"Variable '{name}' not defined"
  | undefinedFunction name line => s!"Function '{name}' not defined at line {line}"
  | unknownOperator operator => "Unknown operator: " ++ operator
  | operands operator left right =>
    s!"unsupported operand type(s) for {operator}: '{left}' and '{right}'"
  | concatenation sequence other =>
    s!"can only concatenate {sequence} (not \"{other}\") to {sequence}"
  | repetition kind => s!"can't multiply sequence by non-int of type '{kind}'"
  | repetitionCount => "cannot fit 'int' into an index-sized integer"
  | repeatedText => "repeated string is too long"
  | memory => ""
  | divisionByZero => "division by zero"
  | floatDivisionByZero => "float division by zero"
  | integerTooLarge => "int too large to convert to float"
  | quotientTooLarge => "integer division result too large for a float"
  | infiniteInteger => "cannot convert float infinity to integer"
  | nanInteger => "cannot convert float NaN to integer"
  | noFloat kind => s!"float() argument must be a string or a real number, not '{kind}'"
  | noInteger kind =>
    "int() argument must be a string, a bytes-like object or a real number, not " ++
      s!"'{kind}'"
  | pauseLength => "sleep() takes exactly 1 argument (0 given)"
  | negativePause => "sleep length must be non-negative"
  | nanPause => "Invalid value NaN (not a number)"
  | pauseRange => "timestamp out of range for platform time_t"
  | pauseRefused _ => "[Errno 22] Invalid argument"
  | notPair fields =>
    if fields < 2 then s!"not enough values to unpack (expected 2, got {fields})"
    else "too many values to unpack (expected 2)"
  | refused cause path => s!"[Errno {cause.number}] {cause.message}: " ++ Text.quoted path
  | nullInPath => "embedded null byte"
  | notUtf8 flaw byte first stop =>
    let place :=
      if stop = first + 1 then "byte 0x" ++ Text.hex 2 byte.toNat ++ s!" in position {first}"
      else s!"bytes in position {first}-{stop - 1}"
    s!"'utf-8' codec can't decode {place}: {flaw.message}"
  | tooDeep => "maximum recursion depth exceeded"

end Fault

/-- A plain result counts as a step that leaves the state alone. -/
instance liftExcept {ε σ : Type} : MonadLift (Except ε) (EStateM ε σ) where
  monadLift
    | .ok a => pure a
    | .error e => throw e

/-- Repeats `step` as long as the state satisfies `more`, at most `rounds` times, and collects the
results in order. -/
def collectWhile {ε σ α : Type} (more : σ → Bool) (step : EStateM ε σ α) :
    Nat → EStateM ε σ (List α)
  | 0 => pure []
  | rounds + 1 => do
    if more (← get) then
      let first ← step
      let rest ← collectWhile more step rounds
      return first :: rest
    else
      return []

end Scriptlet
