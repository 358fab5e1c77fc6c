import Stepper.Analysis.Analyze
import Stepper.Analysis.Complexity
import Stepper.Analysis.Printer
import Stepper.Analysis.Report
import Stepper.Builtin.Array
import Stepper.Builtin.Basic
import Stepper.Builtin.Call
import Stepper.Builtin.Collection
import Stepper.Builtin.Date
import Stepper.Builtin.Json
import Stepper.Builtin.Number
import Stepper.Builtin.Object
import Stepper.Builtin.Realm
import Stepper.Builtin.Sort
import Stepper.Builtin.Table
import Stepper.Builtin.Text
import Stepper.Calendar.Date
import Stepper.Calendar.Reader
import Stepper.Command.Arguments
import Stepper.Command.Perform
import Stepper.Engine.Control
import Stepper.Engine.Run
import Stepper.Engine.Session
import Stepper.Engine.Trace
import Stepper.Execution.Event
import Stepper.Execution.Run
import Stepper.Fault
import Stepper.Instrument.Hook
import Stepper.Instrument.Insertion
import Stepper.Instrument.Marks
import Stepper.Instrument.Regenerate
import Stepper.Instrument.Strategy
import Stepper.Json.Printer
import Stepper.Json.Reader
import Stepper.Json.Tree
import Stepper.Machine.Action
import Stepper.Machine.Class
import Stepper.Machine.Convert
import Stepper.Machine.Course
import Stepper.Machine.Export
import Stepper.Machine.Expression
import Stepper.Machine.Function
import Stepper.Machine.Literal
import Stepper.Machine.Native
import Stepper.Machine.Object
import Stepper.Machine.Operator
import Stepper.Machine.Property
import Stepper.Machine.Scope
import Stepper.Machine.Statement
import Stepper.Machine.Target
import Stepper.Machine.Value
import Stepper.Machine.World
import Stepper.Main
import Stepper.Number.Arithmetic
import Stepper.Number.Binary64
import Stepper.Number.Digits
import Stepper.Number.Format
import Stepper.Number.Functions
import Stepper.Number.Read
import Stepper.Number.Shortest
import Stepper.Number.Word
import Stepper.OrderedMap
import Stepper.Proofs.Acts
import Stepper.Proofs.Agreement
import Stepper.Proofs.Chaining
import Stepper.Proofs.Composition.Basic
import Stepper.Proofs.Composition.Builtin
import Stepper.Proofs.Composition.Expression
import Stepper.Proofs.Composition.Function
import Stepper.Proofs.Composition.Program
import Stepper.Proofs.Composition.Sort
import Stepper.Proofs.Composition.Statement
import Stepper.Proofs.Composition.Targets
import Stepper.Proofs.Congruence
import Stepper.Proofs.Control
import Stepper.Proofs.Delivery
import Stepper.Proofs.Flags
import Stepper.Proofs.Heeding
import Stepper.Proofs.Holding
import Stepper.Proofs.Host
import Stepper.Proofs.Idling
import Stepper.Proofs.Limit
import Stepper.Proofs.Marking
import Stepper.Proofs.Naming
import Stepper.Proofs.Nesting
import Stepper.Proofs.Pausing
import Stepper.Proofs.Placing
import Stepper.Proofs.Recounting
import Stepper.Proofs.Rendering
import Stepper.Proofs.Renewal
import Stepper.Proofs.Signals
import Stepper.Proofs.Splicing
import Stepper.Proofs.Stopping
import Stepper.Proofs.Structural
import Stepper.Syntax.Callable
import Stepper.Syntax.Check
import Stepper.Syntax.Diagnosis
import Stepper.Syntax.Element
import Stepper.Syntax.Expression
import Stepper.Syntax.Kind
import Stepper.Syntax.Literal
import Stepper.Syntax.Names
import Stepper.Syntax.Node
import Stepper.Syntax.Pattern
import Stepper.Syntax.Property
import Stepper.Syntax.Reader
import Stepper.Syntax.Semicolon
import Stepper.Syntax.Statement
import Stepper.Syntax.Token
import Stepper.Syntax.Tree
import Stepper.Syntax.Walk
import Stepper.Text.Basic
import Stepper.Text.Blank
import Stepper.Text.Case
import Stepper.Text.CaseTable
import Stepper.Text.Digit
import Stepper.Text.Quoted
import Stepper.Text.Shown
import Stepper.Text.Split
import Stepper.Text.Visible
import Stepper.Proofs.Outcome
import Stepper.Proofs.Refusal
import Stepper.Proofs.Persistence
import Stepper.Proofs.Freezing
import Stepper.Proofs.Hoisting
import Stepper.Proofs.Depth
import Stepper.Proofs.Unfolding
import Stepper.Proofs.Ancestry
import Stepper.Proofs.Assigning
import Stepper.Proofs.Collecting
import Stepper.Proofs.Elements
import Stepper.Proofs.Rounds
import Stepper.Proofs.Watching
import Stepper.Proofs.Keys
import Stepper.Proofs.Sorting.Ranking
import Stepper.Proofs.Sorting.Searching
import Stepper.Proofs.Sorting.Merging
import Stepper.Proofs.Sorting.Runs
import Stepper.Proofs.Sorting.Array
import Stepper.Proofs.Constructing
import Stepper.Proofs.Settling
import Stepper.Proofs.Splitting
import Stepper.Proofs.Templating
import Stepper.Proofs.Reading
import Stepper.Proofs.Stacking
import Stepper.Proofs.Serializing
import Stepper.Proofs.Words
import Stepper.Proofs.Equating
import Stepper.Proofs.Visiting
import Stepper.Proofs.Forming.Reader
import Stepper.Proofs.Forming.Grammar
import Stepper.Proofs.Deciding
import Stepper.Proofs.Advising
import Stepper.Proofs.Checking
import Stepper.Proofs.Sheltering
import Stepper.Proofs.Slots
import Stepper.Proofs.Tagging
import Stepper.Proofs.Exact
import Stepper.Proofs.Radix
import Stepper.Proofs.Flattening
import Stepper.Proofs.Walking
