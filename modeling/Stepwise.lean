import Stepwise.Binary64
import Stepwise.Bindings
import Stepwise.Builtin
import Stepwise.Code
import Stepwise.Code.Builder
import Stepwise.Code.Compile
import Stepwise.Command
import Stepwise.Command.Arguments
import Stepwise.Constant
import Stepwise.Datum
import Stepwise.Decimal.FloatText
import Stepwise.Decimal.Read
import Stepwise.Engine
import Stepwise.Fault
import Stepwise.Host
import Stepwise.Library
import Stepwise.Machine
import Stepwise.Machine.Debug
import Stepwise.Machine.Step
import Stepwise.Main
import Stepwise.Number
import Stepwise.Powers
import Stepwise.Prelude.Arguments
import Stepwise.Prelude.Lists
import Stepwise.Prelude.Numbers
import Stepwise.Prelude.Texts
import Stepwise.Proofs.Apart
import Stepwise.Proofs.Bindings
import Stepwise.Proofs.Code.Program
import Stepwise.Proofs.Code.Entries
import Stepwise.Proofs.Code.Layout
import Stepwise.Proofs.Code.Operand
import Stepwise.Proofs.Code.Placement
import Stepwise.Proofs.Code.Scalars
import Stepwise.Proofs.Debug.Evaluation
import Stepwise.Proofs.Debug.Expressions
import Stepwise.Proofs.Heap.Core
import Stepwise.Proofs.Heap.Reach
import Stepwise.Proofs.Machine.Frame
import Stepwise.Proofs.Machine.Steps
import Stepwise.Proofs.Outcome
import Stepwise.Proofs.Reading.Tokens
import Stepwise.Proofs.Reading.Trees
import Stepwise.Proofs.Renaming.Builtins
import Stepwise.Proofs.Renaming.Heaps
import Stepwise.Proofs.Renaming.Instructions
import Stepwise.Proofs.Renaming.Steps
import Stepwise.Proofs.Renaming.Texts
import Stepwise.Proofs.Renaming.Values
import Stepwise.Proofs.Shape
import Stepwise.Proofs.Stack.Balance
import Stepwise.Proofs.Stack.Calls
import Stepwise.Proofs.Stack.Discipline
import Stepwise.Proofs.Stack.Effect
import Stepwise.Proofs.Stack.Whole
import Stepwise.Proofs.Undo.History
import Stepwise.Proofs.Undo.Replay
import Stepwise.Runner
import Stepwise.Runs
import Stepwise.Scalar
import Stepwise.Settings
import Stepwise.Settings.Directive
import Stepwise.Text.Case
import Stepwise.Text.Pieces
import Stepwise.Text.Printable
import Stepwise.Text.Quoted
import Stepwise.Text.Scripts
import Stepwise.Text.Terminal
import Stepwise.Token
import Stepwise.Token.Scan
import Stepwise.Tree
import Stepwise.Tree.Cursor
import Stepwise.Tree.Expression
import Stepwise.Tree.Outline
import Stepwise.Tree.Parse
import Stepwise.Tree.Unplaced
import Stepwise.Tree.Node
import Stepwise.Tree.View
import Stepwise.Value
import Stepwise.Value.Access
import Stepwise.Value.Copy
import Stepwise.Value.Equal
import Stepwise.Value.Operators
import Stepwise.Value.Text
import Stepwise.Walker
import Stepwise.Walker.Eval
import Stepwise.Walker.Step
import Stepwise.World
import Stepwise.Proofs.Code.Segments
import Stepwise.Proofs.Control.Roaming
import Stepwise.Proofs.Machine.Visits
import Stepwise.Proofs.Control.Flow
import Stepwise.Proofs.Grammar.Cursors
import Stepwise.Proofs.Grammar.Expressions
import Stepwise.Proofs.Grammar.Soundness
import Stepwise.Proofs.Grammar.Completeness
import Stepwise.Proofs.Printing.Printer
import Stepwise.Proofs.Grammar.Places
import Stepwise.Proofs.Printing.Expressions
import Stepwise.Proofs.Printing.Words
import Stepwise.Proofs.Printing.Lines
import Stepwise.Proofs.Printing.Clarity
import Stepwise.Proofs.Printing.Statements
import Stepwise.Proofs.Printing.Roundtrip
import Stepwise.Proofs.Host.Calls
import Stepwise.Proofs.Agreement.Programs
import Stepwise.Proofs.Host.Replies
import Stepwise.Proofs.Walker.Moves
import Stepwise.Proofs.Walker.Steps
import Stepwise.Proofs.Host.Reports
import Stepwise.Proofs.Walker.Loops
import Stepwise.Proofs.Machine.Moves
import Stepwise.Proofs.Driving.Runs
import Stepwise.Proofs.Driving.Marks
import Stepwise.Proofs.Driving.Orders
import Stepwise.Proofs.Driving.Statuses
import Stepwise.Proofs.Driving.Schedules
import Stepwise.Proofs.Driving.Endings
import Stepwise.Proofs.Driving.Stops
import Stepwise.Proofs.Walker.Callers
import Stepwise.Proofs.Driving.Callers
import Stepwise.Proofs.Control.Faults
import Stepwise.Proofs.Scanning.Layout
import Stepwise.Proofs.Scanning.Coverage
import Stepwise.Proofs.Joining.Trees
import Stepwise.Proofs.Joining.Scans
import Stepwise.Proofs.Joining.BlankLines
import Stepwise.Proofs.Joining.Cursors
import Stepwise.Proofs.Joining.Expressions
import Stepwise.Proofs.Joining.Statements
import Stepwise.Proofs.Joining.Programs
import Stepwise.Proofs.Evaluation.Facilities
import Stepwise.Proofs.Evaluation.Likewise
import Stepwise.Proofs.Evaluation.Statements
import Stepwise.Proofs.Stepped.Oblivious
import Stepwise.Proofs.Stepped.Remainder
import Stepwise.Proofs.Stepped.Flows
import Stepwise.Proofs.Stepped.Leads
import Stepwise.Proofs.Stepped.Places
import Stepwise.Proofs.Stepped.Runs
import Stepwise.Proofs.Stepped.Once
import Stepwise.Proofs.Stepped.Programs
import Stepwise.Proofs.Activation.Records
import Stepwise.Proofs.Activation.Within
import Stepwise.Proofs.Activation.Abreast
import Stepwise.Proofs.Activation.Stepping
import Stepwise.Proofs.Activation.Uses
import Stepwise.Proofs.Code.Misuse
import Stepwise.Proofs.Twins.Programs
import Stepwise.Proofs.Counting.Rounds
import Stepwise.Proofs.Counting.Machines
import Stepwise.Proofs.Counting.Laps
import Stepwise.Proofs.Counting.Walks
import Stepwise.Proofs.Counting.Loops
import Stepwise.Proofs.Code.CallSites
import Stepwise.Proofs.Stack.Dispatch
import Stepwise.Proofs.Printing.Strings
import Stepwise.Proofs.Values.Slices
import Stepwise.Proofs.Values.Searches
import Stepwise.Proofs.Values.Showing
import Stepwise.Proofs.Values.Accesses
import Stepwise.Proofs.Values.Sorting
import Stepwise.Proofs.Values.Pieces
import Stepwise.Proofs.Values.Numerals
import Stepwise.Proofs.Code.Library
import Stepwise.Proofs.Outline
import Stepwise.Proofs.Causes
import Stepwise.Proofs.Values.Failures
import Stepwise.Proofs.Directives
import Stepwise.Proofs.Scanning.Excerpts
