import Solo.Roster
import Solo.Table
import Solo.Span
import Solo.Library
import Solo.Text.Word
import Solo.Text.Visible
import Solo.Text.Quoted
import Solo.Decimal
import Solo.Binary64
import Solo.Binary64.Shortest
import Solo.Kind
import Solo.Keyword
import Solo.Literal
import Solo.Operator
import Solo.Json
import Solo.Options
import Solo.Options.Json
import Solo.Syntax
import Solo.Syntax.Node
import Solo.Syntax.Cursor
import Solo.Syntax.Anchor
import Solo.Symbol
import Solo.Ty
import Solo.Diagnostic
import Solo.Binding
import Solo.Checker
import Solo.Checker.Relation
import Solo.Checker.TypeNode
import Solo.Checker.Constant
import Solo.Checker.Overload
import Solo.Checker.Typing
import Solo.Checker.Purity
import Solo.Folding
import Solo.Evaluation
import Solo.Compilation
import Solo.Analysis
import Solo.Session
import Solo.Proofs.Trees
import Solo.Proofs.Layout
import Solo.Proofs.Spans
import Solo.Proofs.Scoping
import Solo.Proofs.Binding
import Solo.Proofs.Names
import Solo.Proofs.Operators
import Solo.Proofs.Judgement
import Solo.Proofs.Checking
import Solo.Proofs.Relation
import Solo.Proofs.Typing
import Solo.Proofs.WellTyped
import Solo.Proofs.Declarations
import Solo.Proofs.Grounding
import Solo.Proofs.Checked
import Solo.Proofs.Constancy
import Solo.Proofs.Steady
import Solo.Proofs.Purity
import Solo.Proofs.Places
import Solo.Proofs.Folding
import Solo.Proofs.Runs
import Solo.Proofs.Preservation
import Solo.Proofs.Soundness
import Solo.Proofs.Lexical
import Solo.Proofs.Activations
import Solo.Proofs.Demands
import Solo.Proofs.Promises
import Solo.Proofs.Courses
import Solo.Proofs.Moments
import Solo.Proofs.Assertions
import Solo.Proofs.Nesting
import Solo.Proofs.Resolution
import Solo.Proofs.Underway
import Solo.Proofs.Visits
import Solo.Proofs.WriteOnce
import Solo.Proofs.ErrorFree
import Solo.Proofs.Failures
import Solo.Proofs.Operands
import Solo.Proofs.Resolved
import Solo.Proofs.Widening
import Solo.Proofs.Depths
import Solo.Proofs.Endings
import Solo.Proofs.Growth
import Solo.Proofs.Slots
import Solo.Proofs.Steps
import Solo.Proofs.Effects
import Solo.Proofs.Histories
import Solo.Proofs.Stages
import Solo.Proofs.PureRuns
import Solo.Proofs.OptionFree
import Solo.Proofs.Settings
import Solo.Proofs.FoldedRuns
import Solo.Proofs.CallLimits
import Solo.Proofs.Orders
import Solo.Proofs.Rosters
import Solo.Proofs.Comparisons
import Solo.Proofs.Coherence
import Solo.Proofs.Upkeep
import Solo.Proofs.CoherentRuns
import Solo.Proofs.Spelling
import Solo.Proofs.Completion
import Solo.Proofs.Subtyping
import Solo.Proofs.Sessions
import Solo.Proofs.Interning
import Solo.Proofs.Strictness
import Solo.Proofs.UpperBounds
import Solo.Proofs.Overloads
import Solo.Proofs.PairedGoals
import Solo.Proofs.AddedSymbols
import Solo.Proofs.Candidates
import Solo.Proofs.Verdicts
import Solo.Proofs.ConstantLimits
import Solo.Proofs.Agreement
import Solo.Proofs.Sharing
import Solo.Proofs.Partition
import Solo.Proofs.Tokens
import Solo.Proofs.WholeNumbers
import Solo.Proofs.OperatorTable
import Solo.Proofs.LiteralTexts
import Solo.Proofs.Tallies
import Solo.Proofs.Coverage
