import ScriptLang.Command.Basic
import ScriptLang.Command.Flags
import ScriptLang.Command.Listing
import ScriptLang.Command.Program
import ScriptLang.Command.Repl
import ScriptLang.Command.Shell
import ScriptLang.Config
import ScriptLang.Decimal.Binary
import ScriptLang.Decimal.Layout
import ScriptLang.Decimal.Power
import ScriptLang.Decimal.Reader
import ScriptLang.Decimal.Shortest
import ScriptLang.Diagnostic
import ScriptLang.Digest
import ScriptLang.Eval.Assign
import ScriptLang.Eval.Block
import ScriptLang.Eval.Call
import ScriptLang.Eval.Conform
import ScriptLang.Eval.Expr
import ScriptLang.Eval.Failure
import ScriptLang.Eval.Hook
import ScriptLang.Eval.Import
import ScriptLang.Eval.Member
import ScriptLang.Eval.Operator
import ScriptLang.Eval.Run
import ScriptLang.Eval.State
import ScriptLang.Eval.Stmt
import ScriptLang.Eval.Task
import ScriptLang.Files.Basic
import ScriptLang.Files.Changes
import ScriptLang.Files.Path
import ScriptLang.Json.Basic
import ScriptLang.Json.Reader
import ScriptLang.Library.Arguments
import ScriptLang.Library.Basics
import ScriptLang.Library.Builtin
import ScriptLang.Library.Call
import ScriptLang.Library.Chance
import ScriptLang.Library.Collections
import ScriptLang.Library.Lists
import ScriptLang.Library.Math
import ScriptLang.Library.Modules
import ScriptLang.Library.Persistence
import ScriptLang.Library.Sorting
import ScriptLang.Library.Strings
import ScriptLang.Log
import ScriptLang.Main
import ScriptLang.Policy
import ScriptLang.Proofs.Decimal.Bits
import ScriptLang.Proofs.Decimal.Rounding
import ScriptLang.Proofs.Decimal.Shortest
import ScriptLang.Proofs.Store.Chains
import ScriptLang.Proofs.Syntax.Bare
import ScriptLang.Proofs.Syntax.Climb
import ScriptLang.Proofs.Syntax.Ensured
import ScriptLang.Proofs.Syntax.Node
import ScriptLang.Proofs.Syntax.Opening
import ScriptLang.Proofs.Syntax.Operands
import ScriptLang.Proofs.Syntax.Phrases
import ScriptLang.Proofs.Syntax.Reading
import ScriptLang.Proofs.Syntax.RoundTrip
import ScriptLang.Proofs.Syntax.Scanned
import ScriptLang.Proofs.Syntax.Spelling
import ScriptLang.Proofs.Syntax.Statements
import ScriptLang.Proofs.Text.Quote
import ScriptLang.Proofs.Token.Genuine
import ScriptLang.Proofs.Token.Spelled
import ScriptLang.Session
import ScriptLang.Settings
import ScriptLang.Span
import ScriptLang.Store.Basic
import ScriptLang.Store.Growth
import ScriptLang.Store.Scope
import ScriptLang.Syntax.Basic
import ScriptLang.Syntax.Check
import ScriptLang.Syntax.Error
import ScriptLang.Syntax.Operator
import ScriptLang.Syntax.Parse
import ScriptLang.Syntax.Power
import ScriptLang.Syntax.Print
import ScriptLang.Syntax.Stream
import ScriptLang.Table
import ScriptLang.Text.Basic
import ScriptLang.Text.Case
import ScriptLang.Text.Printable
import ScriptLang.Text.Quoted
import ScriptLang.Text.Search
import ScriptLang.Text.Space
import ScriptLang.Text.Utf8
import ScriptLang.Text.Width
import ScriptLang.Token.Basic
import ScriptLang.Token.Escape
import ScriptLang.Token.Scan
import ScriptLang.Toml.Basic
import ScriptLang.Toml.Reader
import ScriptLang.Value.Basic
import ScriptLang.Value.Compare
import ScriptLang.Value.Json
import ScriptLang.Value.Render
import ScriptLang.Proofs.Eval.Runs
import ScriptLang.Proofs.Eval.Frame
import ScriptLang.Proofs.Eval.Stopping
import ScriptLang.Proofs.Eval.Signals
import ScriptLang.Proofs.Eval.Declarations
import ScriptLang.Proofs.Eval.Annotations
import ScriptLang.Proofs.Eval.Constants
import ScriptLang.Proofs.Eval.Progress
import ScriptLang.Proofs.Eval.Confinement
import ScriptLang.Proofs.Eval.ImportControl
import ScriptLang.Proofs.Eval.Unwrapping
import ScriptLang.Proofs.Eval.Sound
import ScriptLang.Proofs.Eval.Tidy
import ScriptLang.Proofs.Eval.Values
import ScriptLang.Proofs.Library.Call
import ScriptLang.Proofs.Eval.Fields
import ScriptLang.Proofs.Eval.StructVariables
import ScriptLang.Proofs.Eval.Receiver
import ScriptLang.Proofs.Session
import ScriptLang.Proofs.Eval.Choices
import ScriptLang.Proofs.Syntax.Steps
import ScriptLang.Proofs.Syntax.Strings
import ScriptLang.Proofs.Token.Sequel
import ScriptLang.Proofs.Syntax.Sequel
import ScriptLang.Proofs.Syntax.Lone
import ScriptLang.Proofs.Session.Pending
import ScriptLang.Proofs.Session.Expressions
import ScriptLang.Proofs.Store.Stacks
import ScriptLang.Proofs.Syntax.Spans
import ScriptLang.Proofs.Store.Compartment
import ScriptLang.Proofs.Eval.Asking
import ScriptLang.Proofs.Eval.Comparison
import ScriptLang.Proofs.Eval.ComparedValues
import ScriptLang.Proofs.Library.Compared
import ScriptLang.Proofs.Library.ComparedCalls
import ScriptLang.Proofs.Eval.ComparedTasks
import ScriptLang.Proofs.Eval.ComparedRuns
import ScriptLang.Proofs.Eval.Twins
import ScriptLang.Proofs.Eval.ImportCache
import ScriptLang.Proofs.Eval.FailedImports
import ScriptLang.Proofs.Eval.Loops
import ScriptLang.Proofs.Eval.Snapshots
import ScriptLang.Proofs.Token.Places
import ScriptLang.Proofs.Syntax.Places
import ScriptLang.Proofs.Syntax.Findings
import ScriptLang.Proofs.Session.Origins
import ScriptLang.Proofs.Command.Excerpts
import ScriptLang.Proofs.Text.Utf8
import ScriptLang.Proofs.Syntax.PlainExpressions
import ScriptLang.Proofs.Syntax.Grouping
import ScriptLang.Proofs.Token.Stretch
import ScriptLang.Proofs.Token.Tiling
import ScriptLang.Proofs.Syntax.Progress
import ScriptLang.Proofs.Token.Comments
import ScriptLang.Proofs.Syntax.Outline
import ScriptLang.Proofs.Syntax.Nesting
import ScriptLang.Proofs.Decimal.Numeral
import ScriptLang.Proofs.Decimal.Layout
import ScriptLang.Proofs.Value.Identity
import ScriptLang.Proofs.Value.Matching
import ScriptLang.Proofs.Value.Equality
import ScriptLang.Proofs.Value.Order
import ScriptLang.Proofs.Store.Widening
import ScriptLang.Proofs.Library.StableSort
import ScriptLang.Proofs.Library.Ordering
import ScriptLang.Proofs.Library.Members
import ScriptLang.Proofs.Library.Sets
import ScriptLang.Proofs.Json.Scalars
import ScriptLang.Proofs.Json.Reading
import ScriptLang.Proofs.Library.Json
import ScriptLang.Proofs.Decimal.Values
import ScriptLang.Proofs.Decimal.Sums
import ScriptLang.Proofs.Library.Ranges
import ScriptLang.Proofs.Eval.Characters
import ScriptLang.Proofs.Eval.Relaying
import ScriptLang.Proofs.Library.Relaying
import ScriptLang.Proofs.Eval.Faults
import ScriptLang.Proofs.Session.Faults
import ScriptLang.Proofs.Token.Literals
import ScriptLang.Proofs.Decimal.Integers
import ScriptLang.Proofs.Library.Chance
