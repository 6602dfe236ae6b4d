import MemoryShell.Command.Builtin
import MemoryShell.Command.Curl
import MemoryShell.Command.Files
import MemoryShell.Command.Line
import MemoryShell.Command.Result
import MemoryShell.Command.Run
import MemoryShell.CommandLine
import MemoryShell.Decimal.Double
import MemoryShell.Decimal.Power
import MemoryShell.Decimal.Reading
import MemoryShell.Decimal.Shortest
import MemoryShell.Decimal.Text
import MemoryShell.Dict
import MemoryShell.Display.Ansi
import MemoryShell.Display.Buffer
import MemoryShell.Document.Basic
import MemoryShell.Document.Printer
import MemoryShell.Document.Reader
import MemoryShell.History
import MemoryShell.Options
import MemoryShell.Path
import MemoryShell.Script.Arrays
import MemoryShell.Script.Coercion
import MemoryShell.Script.Console
import MemoryShell.Script.Cursor
import MemoryShell.Script.Evaluation
import MemoryShell.Script.Exchange
import MemoryShell.Script.Functions
import MemoryShell.Script.Globals
import MemoryShell.Script.Grammar
import MemoryShell.Script.Host
import MemoryShell.Script.Lexer
import MemoryShell.Script.Library
import MemoryShell.Script.Limits
import MemoryShell.Script.Machine
import MemoryShell.Script.Mistake
import MemoryShell.Script.Number
import MemoryShell.Script.Position
import MemoryShell.Script.Program
import MemoryShell.Script.Property
import MemoryShell.Script.Run
import MemoryShell.Script.Sorting
import MemoryShell.Script.Strings
import MemoryShell.Script.Template
import MemoryShell.Script.Token
import MemoryShell.Script.Trail
import MemoryShell.Script.Value
import MemoryShell.Session
import MemoryShell.Text.Blank
import MemoryShell.Text.Case
import MemoryShell.Text.Letter
import MemoryShell.Text.Search
import MemoryShell.Toml.Item
import MemoryShell.Toml.Reader
import MemoryShell.Toml.Scalar
import MemoryShell.Tree.Basic
import MemoryShell.Tree.Error
import MemoryShell.Main
import MemoryShell.Proofs.Path
import MemoryShell.Proofs.Session
import MemoryShell.Proofs.Script.Properties
import MemoryShell.Proofs.Script.Course
import MemoryShell.Proofs.Script.Within
import MemoryShell.Proofs.Script.Library
import MemoryShell.Proofs.Script.Methods
import MemoryShell.Proofs.Script.Work
import MemoryShell.Proofs.Script.Heaps
import MemoryShell.Proofs.Script.Keeping
import MemoryShell.Proofs.Script.Answers
import MemoryShell.Proofs.Tree.Consistent
import MemoryShell.Proofs.Tree.Operations
import MemoryShell.Proofs.Tree.Removal
import MemoryShell.Proofs.Tree.Commands
import MemoryShell.Proofs.Script.Following
import MemoryShell.Proofs.Script.Congruence
import MemoryShell.Proofs.Script.Moments
import MemoryShell.Proofs.Script.Depth
import MemoryShell.Proofs.Script.Recursion
import MemoryShell.Proofs.Script.Texts
import MemoryShell.Proofs.Script.Termination
import MemoryShell.Proofs.Tree.Confinement
import MemoryShell.Proofs.Display.Lines
import MemoryShell.Proofs.Display.Viewer
import MemoryShell.Proofs.Tree.Log
import MemoryShell.Proofs.Session.Deferred
import MemoryShell.Proofs.Syntax.Tracking
import MemoryShell.Proofs.Syntax.Reading
import MemoryShell.Proofs.Syntax.Lexing
import MemoryShell.Proofs.Syntax.Sources
import MemoryShell.Proofs.Syntax.Primary
import MemoryShell.Proofs.Syntax.Fragments
import MemoryShell.Proofs.Syntax.Substitution
import MemoryShell.Proofs.Syntax.Nesting
import MemoryShell.Proofs.Document.RoundTrip
import MemoryShell.Proofs.Script.Documents
import MemoryShell.Proofs.Syntax.Spelling
import MemoryShell.Proofs.Syntax.Strings
import MemoryShell.Proofs.Syntax.Literals
import MemoryShell.Proofs.Script.Literals
import MemoryShell.Proofs.Script.TextLengths
import MemoryShell.Proofs.Script.Growth
import MemoryShell.Proofs.Tree.InPlace
import MemoryShell.Proofs.Tree.Failures
import MemoryShell.Proofs.Syntax.Spacing
import MemoryShell.Proofs.Syntax.Places
import MemoryShell.Proofs.Script.ArraysKept
import MemoryShell.Proofs.Script.ArrayLengths
import MemoryShell.Proofs.Script.ArrayMakers
import MemoryShell.Proofs.Script.Agreement
import MemoryShell.Proofs.Script.ArrayGrowth
import MemoryShell.Proofs.Syntax.Extents
import MemoryShell.Proofs.Syntax.Operators
import MemoryShell.Proofs.Syntax.Operands
import MemoryShell.Proofs.Syntax.Chains
import MemoryShell.Proofs.Syntax.Heights
import MemoryShell.Proofs.Syntax.Contracts
import MemoryShell.Proofs.Syntax.Towers
import MemoryShell.Proofs.Syntax.Blame
import MemoryShell.Proofs.Script.Questions
import MemoryShell.Proofs.Script.Merging
import MemoryShell.Proofs.Script.Comparisons
import MemoryShell.Proofs.Script.ArraysStay
import MemoryShell.Proofs.Script.Sorting
import MemoryShell.Proofs.Script.Traversals
import MemoryShell.Proofs.Script.ArrayRefusals
import MemoryShell.Proofs.Syntax.Hexadecimal
import MemoryShell.Proofs.Path.Ancestors
import MemoryShell.Proofs.Path.Resolution
import MemoryShell.Proofs.Text.Blank
import MemoryShell.Proofs.Command.Lines
import MemoryShell.Proofs.Script.Writes
import MemoryShell.Proofs.Script.Targets
import MemoryShell.Proofs.Script.Assignments
import MemoryShell.Proofs.Text.Search
import MemoryShell.Proofs.Script.Splitting
import MemoryShell.Proofs.Display.Retention
import MemoryShell.Proofs.Display.Rendering
import MemoryShell.Proofs.Script.ConsoleLines
import MemoryShell.Proofs.Command.Redirects
import MemoryShell.Proofs.Command.Requests
import MemoryShell.Proofs.Decimal.Double
import MemoryShell.Proofs.Decimal.Numeral
import MemoryShell.Proofs.Script.Radix
import MemoryShell.Proofs.Script.Scopes
import MemoryShell.Proofs.Script.Searching
import MemoryShell.Proofs.Syntax.Turns
import MemoryShell.Proofs.Syntax.Progress
import MemoryShell.Proofs.Syntax.Consuming
import MemoryShell.Proofs.Syntax.Ending
