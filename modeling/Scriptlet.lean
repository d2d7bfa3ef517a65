import Scriptlet.Code
import Scriptlet.Fault
import Scriptlet.Machine
import Scriptlet.Machine.Visit
import Scriptlet.Main
import Scriptlet.Name
import Scriptlet.Number.Binary64
import Scriptlet.Number.Reader
import Scriptlet.Number.Shortest
import Scriptlet.Proofs.Accepting
import Scriptlet.Proofs.Advancing
import Scriptlet.Proofs.Assignments
import Scriptlet.Proofs.Brackets
import Scriptlet.Proofs.CallDepth
import Scriptlet.Proofs.Calling
import Scriptlet.Proofs.Consuming
import Scriptlet.Proofs.Dependence
import Scriptlet.Proofs.Derivation
import Scriptlet.Proofs.Ending
import Scriptlet.Proofs.Extension
import Scriptlet.Proofs.Failing
import Scriptlet.Proofs.Frame
import Scriptlet.Proofs.History
import Scriptlet.Proofs.Hoisting
import Scriptlet.Proofs.Incremental
import Scriptlet.Proofs.Joining
import Scriptlet.Proofs.Lexeme
import Scriptlet.Proofs.Lexical
import Scriptlet.Proofs.Lexing
import Scriptlet.Proofs.Lines
import Scriptlet.Proofs.Lookahead
import Scriptlet.Proofs.Naming
import Scriptlet.Proofs.Nesting
import Scriptlet.Proofs.Nodes
import Scriptlet.Proofs.Numerals
import Scriptlet.Proofs.Operators
import Scriptlet.Proofs.Outside
import Scriptlet.Proofs.Parsing
import Scriptlet.Proofs.Places
import Scriptlet.Proofs.Plain
import Scriptlet.Proofs.Postfix
import Scriptlet.Proofs.Printing
import Scriptlet.Proofs.Progress
import Scriptlet.Proofs.Reading
import Scriptlet.Proofs.Recursion
import Scriptlet.Proofs.Rejection
import Scriptlet.Proofs.Rendering
import Scriptlet.Proofs.Rules
import Scriptlet.Proofs.Safety
import Scriptlet.Proofs.Scanning
import Scriptlet.Proofs.Step
import Scriptlet.Proofs.Summation
import Scriptlet.Proofs.Sustaining
import Scriptlet.Proofs.Tables
import Scriptlet.Proofs.Unambiguous
import Scriptlet.Proofs.Unwinding
import Scriptlet.Proofs.Viability
import Scriptlet.Proofs.Visiting
import Scriptlet.Proofs.Watching
import Scriptlet.Proofs.Widening
import Scriptlet.Proofs.Writing
import Scriptlet.Session
import Scriptlet.Shell.Command
import Scriptlet.Shell.Files
import Scriptlet.Shell.Host
import Scriptlet.Shell.Path
import Scriptlet.Shell.Repl
import Scriptlet.Shell.Saved
import Scriptlet.Shell.Script
import Scriptlet.Shell.Utf8
import Scriptlet.Table
import Scriptlet.Text.Character
import Scriptlet.Text.Letter
import Scriptlet.Text.Printable
import Scriptlet.Text.Quoted
import Scriptlet.Token
import Scriptlet.Token.Scanner
import Scriptlet.Tree
import Scriptlet.Tree.Cursor
import Scriptlet.Tree.Grammar
import Scriptlet.Value
import Scriptlet.Value.Arithmetic
import Scriptlet.Value.Convert
import Scriptlet.Value.Display
import Scriptlet.Vocabulary
