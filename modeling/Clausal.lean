import Clausal.Engine.Fold
import Clausal.Engine.Halting
import Clausal.Engine.Machine
import Clausal.Engine.Table
import Clausal.Fault
import Clausal.Folds.Measure
import Clausal.Folds.Mixed
import Clausal.Folds.Rendering
import Clausal.Folds.Structural
import Clausal.Formula.Basic
import Clausal.Formula.Equality
import Clausal.Journal.Basic
import Clausal.Journal.Event
import Clausal.Journal.Logged
import Clausal.Journal.Operation
import Clausal.Journal.Reporting
import Clausal.NormalForm.Conversion
import Clausal.NormalForm.Distribution
import Clausal.NormalForm.Implications
import Clausal.NormalForm.Negations
import Clausal.NormalForm.Shape
import Clausal.Pipeline
import Clausal.Semantics.Assignment
import Clausal.Semantics.Datum
import Clausal.Semantics.Evaluation
import Clausal.Semantics.Search
import Clausal.Semantics.Variables
import Clausal.Text.Invisible
import Clausal.Text.Lexer
import Clausal.Text.Parser
import Clausal.Text.Quoted
import Clausal.Text.Token
import Clausal.Proofs.Formula.Subformulas
import Clausal.Proofs.Semantics.Truth
import Clausal.Proofs.Engine.Recursion
import Clausal.Proofs.NormalForm.Equivalence
import Clausal.Proofs.NormalForm.Clauses
import Clausal.Proofs.Engine.Refinement
import Clausal.Proofs.Folds.Measures
import Clausal.Proofs.Folds.Mixed
import Clausal.Proofs.Journal.Channels
import Clausal.Proofs.Journal.Reports
import Clausal.Proofs.Semantics.Search
import Clausal.Proofs.Semantics.Solving
import Clausal.Proofs.Text.Chunks
import Clausal.Proofs.Text.Reading
import Clausal.Proofs.Text.RoundTrip
import Clausal.Proofs.Text.Grammar
import Clausal.Proofs.Text.Prefixes
import Clausal.Proofs.NormalForm.FixedPoints
import Clausal.Proofs.NormalForm.Satisfiability
import Clausal.Proofs.NormalForm.Expansion
import Clausal.Proofs.Text.Parsed
import Clausal.Proofs.NormalForm.Arity
import Clausal.Proofs.NormalForm.Variables
import Clausal.Proofs.Engine.Bookkeeping
import Clausal.Proofs.Engine.Iterations
import Clausal.Proofs.Journal.Noninterference
import Clausal.Proofs.Engine.Faults
import Clausal.Proofs.Semantics.Missing
import Clausal.Proofs.NormalForm.Outcomes
import Clausal.Proofs.NormalForm.Elimination
import Clausal.Proofs.NormalForm.Refusals
import Clausal.Proofs.NormalForm.Distribution
import Clausal.Proofs.NormalForm.Attribution
import Clausal.Proofs.Text.Partition
import Clausal.Proofs.Formula.Identity
import Clausal.Proofs.Text.Layout
import Clausal.Proofs.Engine.CallOrder
import Clausal.Proofs.Semantics.ReadingOrder
import Clausal.Proofs.Engine.Framing
import Clausal.Proofs.NormalForm.Splicing
