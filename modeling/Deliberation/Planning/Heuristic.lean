import Deliberation.Fact.Basic

/-!
Estimates of how far a state is from the goal.
-/

namespace Deliberation

/-- An estimate from the initial state, the goal and a state. A greedy one alone ranks states, and the first
state that reaches the goal will do. -/
structure Heuristic where
  name : String
  greedy : Bool
  estimate : (initial goal state : FactSet) → Nat

/-- The heuristics that have names. -/
inductive HeuristicKind where
  | minimizeComplexity
  | optimizeClarity
  | satisfice
  deriving DecidableEq, Repr

/-- How many facts of the goal a state lacks. -/
def unmetCount (goal state : FactSet) : Nat := (state.missing goal).length

/-- How many facts of a state are neither in the initial state nor in the goal. -/
def extraneousCount (initial goal state : FactSet) : Nat :=
  state.toList.countP fun fact => fact ∉ initial && fact ∉ goal

namespace HeuristicKind

def name : HeuristicKind → String
  | .minimizeComplexity => "minimize_complexity"
  | .optimizeClarity => "optimize_clarity"
  | .satisfice => "satisfice"

/-- The heuristic of a kind: unmet facts, or twice their number with the extraneous ones, or unmet facts greedily. -/
def heuristic (kind : HeuristicKind) : Heuristic where
  name := kind.name
  greedy := kind = .satisfice
  estimate initial goal state :=
    match kind with
    | .optimizeClarity => 2 * unmetCount goal state + extraneousCount initial goal state
    | _ => unmetCount goal state

end HeuristicKind

end Deliberation
