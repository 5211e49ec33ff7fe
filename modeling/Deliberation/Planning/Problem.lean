import Deliberation.Fact.Join
import Deliberation.Planning.Operator
import Deliberation.Rule.Basic

/-!
Planning problems: from an initial state, operators have to lead to a state that has every fact of
the goal.
-/

namespace Deliberation

structure PlanProblem where
  initial : FactSet
  goal : FactSet
  operators : List Operator
  objects : List String
  rules : List Rule

/-- Actions in order, the state that they lead to, and how much of the search they took. -/
structure Plan where
  actions : List Action
  finalState : FactSet
  expanded : Nat
  generated : Nat

/-- Why a search ends without a plan. -/
inductive SearchFailure where
  | exhausted
  | depthBound
  | budget
  deriving DecidableEq, Repr

/-- A search without a plan: how many states wait, how many were expanded, and the first of the states
farthest from the initial one. -/
structure FailedSearch where
  reason : SearchFailure
  frontier : Nat
  expanded : Nat
  deepestDepth : Nat
  deepestState : FactSet

/-- Why there is no plan, or why a given one is refused. -/
inductive PlanError where
  | noPlanFound (failure : FailedSearch)
  | operator (error : OperatorError)
  | unknownOperator (name : String)
  | invalidPlan (step : Nat) (action : Action) (unmet : List Fact)
  | goalNotReached (missing : List Fact)
  | inference (error : InferError)

def SearchFailure.message : SearchFailure → String
  | .exhausted => "search space exhausted"
  | .depthBound => "depth bound reached"
  | .budget => "budget exhausted"

def PlanError.message : PlanError → String
  | .noPlanFound failure =>
    let (reason, expanded) := (failure.reason.message, failure.expanded)
    let (frontier, depth) := (failure.frontier, failure.deepestDepth)
    s!"no plan found ({reason}): {expanded} nodes expanded, frontier {frontier}, deepest state at depth {depth}"
  | .operator error => error.message
  | .unknownOperator name => s!"unknown operator '{name}'"
  | .invalidPlan step action unmet =>
    let facts := Text.joinWith ", " (unmet.map Fact.text)
    s!"step {step} ({action.text}) is not applicable; unmet: {facts}"
  | .goalNotReached missing =>
    let facts := Text.joinWith ", " (missing.map Fact.text)
    s!"plan ends without reaching the goal; missing: {facts}"
  | .inference error => error.message

namespace Plan

/-- The text of a plan: its actions, numbered from one in three columns, a line each. -/
def text (plan : Plan) : String :=
  String.join (plan.actions.zipIdx.map fun (action, index) =>
    let number := toString (index + 1)
    let padding := String.ofList (List.replicate (3 - number.length) ' ')
    s!"{padding}{number}. {action.text}\n")

end Plan

namespace PlanProblem

/-- The constants over which free parameters range: the declared objects in order, then the others of the
problem, sorted. -/
def pool (problem : PlanProblem) : List String :=
  let objects := problem.objects.eraseDups
  let others := (problem.initial.constants.insertAll problem.goal.constants.toList).insertAll
    (problem.operators.flatMap Operator.constants)
  objects ++ others.toList.filter (· ∉ objects)

end PlanProblem

/-- Bindings extended by every choice of constants for the parameters that have none, the last parameter
changing fastest. -/
def completions (pool : List String) : List String → Bindings → List Bindings
  | [], bindings => [bindings]
  | name :: names, bindings =>
    if bindings.contains name then completions pool names bindings
    else pool.flatMap fun constant => completions pool names (bindings.insert name constant)

/-- The actions of one operator that are applicable in a state, with the states that they lead to. -/
def Operator.successors (op : Operator) (pool : List String) (state : FactSet) : List (Action × FactSet) :=
  (Literal.joinPositive op.preconditions state .empty).flatMap fun seed =>
    (completions pool op.parameters seed).filterMap fun bindings => do
      let ground ← op.ground? bindings
      if ground.applicable state then some (ground.action, ground.apply state) else none

/-- The actions that are applicable in a state, by operator in order, with the states that they lead to. -/
def successors (operators : List Operator) (pool : List String) (state : FactSet) : List (Action × FactSet) :=
  operators.flatMap (·.successors pool state)

end Deliberation
