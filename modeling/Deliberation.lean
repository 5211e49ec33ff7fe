import Deliberation.Abort
import Deliberation.Command
import Deliberation.Constraint.Basic
import Deliberation.Constraint.Conflict
import Deliberation.Constraint.Data
import Deliberation.Constraint.Search
import Deliberation.Data.Basic
import Deliberation.Data.Decode
import Deliberation.Data.Json
import Deliberation.Data.Toml.Printer
import Deliberation.Data.Toml.Reader
import Deliberation.Data.Toml.Table
import Deliberation.Decision.Data
import Deliberation.Decision.Error
import Deliberation.Decision.Risk
import Deliberation.Decision.Tree
import Deliberation.Document.Basic
import Deliberation.Document.Data
import Deliberation.Document.Format
import Deliberation.Engine.Basic
import Deliberation.Engine.Config
import Deliberation.Engine.Data
import Deliberation.Engine.Session
import Deliberation.Expr.Basic
import Deliberation.Expr.Eval
import Deliberation.Expr.Parser
import Deliberation.Expr.Printer
import Deliberation.Expr.Token
import Deliberation.Expr.Value
import Deliberation.Fact.Basic
import Deliberation.Fact.Data
import Deliberation.Fact.Join
import Deliberation.Fact.Text
import Deliberation.Inference.Backward
import Deliberation.Inference.Data
import Deliberation.Inference.Forward
import Deliberation.Linear.Data
import Deliberation.Linear.Error
import Deliberation.Linear.Form
import Deliberation.Linear.Program
import Deliberation.Linear.Simplex
import Deliberation.Main
import Deliberation.NameMap
import Deliberation.Number.Decimal
import Deliberation.Number.Scalar
import Deliberation.OrdSet
import Deliberation.ParseError
import Deliberation.Planning.Data
import Deliberation.Planning.Heuristic
import Deliberation.Planning.Operator
import Deliberation.Planning.Problem
import Deliberation.Planning.Replay
import Deliberation.Planning.Search
import Deliberation.Proofs.Constraint.Aborted
import Deliberation.Proofs.Constraint.Attempt
import Deliberation.Proofs.Constraint.BranchAndBound
import Deliberation.Proofs.Constraint.Budget
import Deliberation.Proofs.Constraint.Checked
import Deliberation.Proofs.Constraint.Choice
import Deliberation.Proofs.Constraint.Complete
import Deliberation.Proofs.Constraint.Components
import Deliberation.Proofs.Constraint.Conflict
import Deliberation.Proofs.Constraint.Counting
import Deliberation.Proofs.Constraint.DisjointSets
import Deliberation.Proofs.Constraint.Exploration
import Deliberation.Proofs.Constraint.Leaves
import Deliberation.Proofs.Constraint.Moments
import Deliberation.Proofs.Constraint.Optimal
import Deliberation.Proofs.Constraint.Partition
import Deliberation.Proofs.Constraint.Propagation
import Deliberation.Proofs.Constraint.Ranges
import Deliberation.Proofs.Constraint.Ranking
import Deliberation.Proofs.Constraint.Solving
import Deliberation.Proofs.Constraint.State
import Deliberation.Proofs.Constraint.Stored
import Deliberation.Proofs.Constraint.Trail
import Deliberation.Proofs.Constraint.Undecided
import Deliberation.Proofs.Data.Decoding
import Deliberation.Proofs.Data.JsonScalars
import Deliberation.Proofs.Data.JsonText
import Deliberation.Proofs.Data.Plain
import Deliberation.Proofs.Decision.Folding
import Deliberation.Proofs.Decision.Soundness
import Deliberation.Proofs.Decision.Stored
import Deliberation.Proofs.Decision.Strategy
import Deliberation.Proofs.Document.Stored
import Deliberation.Proofs.Engine.Plans
import Deliberation.Proofs.Expr.Arithmetic
import Deliberation.Proofs.Expr.Evaluation
import Deliberation.Proofs.Expr.Faults
import Deliberation.Proofs.Expr.Lexing
import Deliberation.Proofs.Expr.Offsets
import Deliberation.Proofs.Expr.Parsed
import Deliberation.Proofs.Expr.Readers
import Deliberation.Proofs.Expr.Reading
import Deliberation.Proofs.Expr.RoundTrip
import Deliberation.Proofs.Expr.Spans
import Deliberation.Proofs.Expr.Writing
import Deliberation.Proofs.Fact.Bindings
import Deliberation.Proofs.Fact.Join
import Deliberation.Proofs.Fact.RoundTrip
import Deliberation.Proofs.Fact.Solutions
import Deliberation.Proofs.Fact.Stored
import Deliberation.Proofs.Inference.Absence
import Deliberation.Proofs.Inference.Agreement
import Deliberation.Proofs.Inference.Answers
import Deliberation.Proofs.Inference.Calls
import Deliberation.Proofs.Inference.Candidates
import Deliberation.Proofs.Inference.ClosedWalk
import Deliberation.Proofs.Inference.Cycles
import Deliberation.Proofs.Inference.Fixpoint
import Deliberation.Proofs.Inference.Instances
import Deliberation.Proofs.Inference.Least
import Deliberation.Proofs.Inference.Model
import Deliberation.Proofs.Inference.Naive
import Deliberation.Proofs.Inference.Passes
import Deliberation.Proofs.Inference.Proving
import Deliberation.Proofs.Inference.Saturation
import Deliberation.Proofs.Inference.Termination
import Deliberation.Proofs.Inference.Trace
import Deliberation.Proofs.Inference.Trees
import Deliberation.Proofs.Linear.Bland
import Deliberation.Proofs.Linear.Conflict
import Deliberation.Proofs.Linear.Descent
import Deliberation.Proofs.Linear.Form
import Deliberation.Proofs.Linear.Optimum
import Deliberation.Proofs.Linear.Phases
import Deliberation.Proofs.Linear.Pivot
import Deliberation.Proofs.Linear.Program
import Deliberation.Proofs.Linear.Rows
import Deliberation.Proofs.Linear.Stored
import Deliberation.Proofs.Linear.Table
import Deliberation.Proofs.Linear.Values
import Deliberation.Proofs.Lists
import Deliberation.Proofs.Number.Decimals
import Deliberation.Proofs.Number.Exact
import Deliberation.Proofs.Number.Whole
import Deliberation.Proofs.Planning.Constants
import Deliberation.Proofs.Planning.Coverage
import Deliberation.Proofs.Planning.Enumeration
import Deliberation.Proofs.Planning.Expansions
import Deliberation.Proofs.Planning.Exploration
import Deliberation.Proofs.Planning.Levels
import Deliberation.Proofs.Planning.Operator
import Deliberation.Proofs.Planning.Replay
import Deliberation.Proofs.Planning.Shortest
import Deliberation.Proofs.Planning.Stored
import Deliberation.Proofs.Planning.Successors
import Deliberation.Proofs.Planning.Traces
import Deliberation.Proofs.Rule.RoundTrip
import Deliberation.Proofs.Rule.Safe
import Deliberation.Proofs.Schedule.Adjacency
import Deliberation.Proofs.Schedule.Blocking
import Deliberation.Proofs.Schedule.Building
import Deliberation.Proofs.Schedule.Capacity
import Deliberation.Proofs.Schedule.Closing
import Deliberation.Proofs.Schedule.Completion
import Deliberation.Proofs.Schedule.Consumption
import Deliberation.Proofs.Schedule.CriticalChains
import Deliberation.Proofs.Schedule.Demand
import Deliberation.Proofs.Schedule.Earliest
import Deliberation.Proofs.Schedule.Feasible
import Deliberation.Proofs.Schedule.LongestChains
import Deliberation.Proofs.Schedule.Order
import Deliberation.Proofs.Schedule.Passes
import Deliberation.Proofs.Schedule.Placing
import Deliberation.Proofs.Schedule.Room
import Deliberation.Proofs.Schedule.Seeds
import Deliberation.Proofs.Schedule.Sensitivity
import Deliberation.Proofs.Schedule.Settled
import Deliberation.Proofs.Schedule.Slack
import Deliberation.Proofs.Schedule.Stored
import Deliberation.Proofs.Schedule.Summary
import Deliberation.Proofs.Schedule.Validity
import Deliberation.Proofs.Text
import Deliberation.Proofs.Text.Bytes
import Deliberation.Proofs.Text.Cut
import Deliberation.Random.ChaCha
import Deliberation.Rule.Basic
import Deliberation.Rule.Data
import Deliberation.Rule.Text
import Deliberation.Schedule.Activity
import Deliberation.Schedule.CriticalPath
import Deliberation.Schedule.Data
import Deliberation.Schedule.Distribution
import Deliberation.Schedule.Error
import Deliberation.Schedule.Leveling
import Deliberation.Schedule.Network
import Deliberation.Schedule.Problem
import Deliberation.Schedule.Report
import Deliberation.Schedule.Sensitivity
import Deliberation.Schedule.Simulation
import Deliberation.Text.Alphanumeric
import Deliberation.Text.Blank
import Deliberation.Text.Cut
