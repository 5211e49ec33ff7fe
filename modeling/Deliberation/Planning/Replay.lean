import Deliberation.Planning.Problem

/-!
Replay of a plan: each action has to be applicable in the state that the ones before it lead to, and
the last state has to have every fact of the goal.
-/

namespace Deliberation.Plan

/-- The state after actions, of which the first is step `step`. An action belongs to the first operator of its
name. -/
def replay (operators : List Operator) : (step : Nat) → List Action → FactSet → Except PlanError FactSet
  | _, [], state => .ok state
  | step, action :: rest, state => do
    match operators.find? (·.name = action.operator) with
    | none => throw (.unknownOperator action.operator)
    | some op =>
      let ground ← (op.instantiate action.args).mapError .operator
      match ground.unmet state with
      | [] => replay operators (step + 1) rest (ground.apply state)
      | unmet => throw (.invalidPlan step action unmet)

/-- The state that a plan ends in, if every step is applicable and the goal is reached. -/
def validate (initial goal : FactSet) (operators : List Operator) (actions : List Action) :
    Except PlanError FactSet := do
  let state ← replay operators 1 actions initial
  match state.missing goal with
  | [] => return state
  | missing => throw (.goalNotReached missing)

end Deliberation.Plan
