import Deliberation.Constraint.Basic
import Deliberation.Linear.Error
import Deliberation.Number.Decimal

/-!
Why there is no schedule, no simulation and no sensitivity report.
-/

namespace Deliberation

/-- The first thing that made a schedule impossible. -/
inductive ScheduleConflict (R : Type) where
  | capacity (resource activity : String) (time requested limit : R)
  | exhausted (resource activity : String) (consumed requested limit : R)
  | exclusive (activity other : String) (time : R)
  | horizon (activity : String) (time limit : R)
  | constraint (name : String)

inductive DistributionFault (R : Type) where
  | badParameters
  | inverted (min max : R)
  | disordered (min mode max : R)
  | noWeights
  | badWeight
  | zeroWeights

inductive TargetFault where
  | noKind
  | unknownKind
  | noActivity
  | noResource
  | noProgram
  | noConstraint
  | noComparison
  | noConstantBound
  deriving DecidableEq, Repr

/-- Why there is no schedule. -/
inductive ScheduleError (R : Type) where
  | cycle (names : List String)
  | infeasible (conflict : ScheduleConflict R)
  | unknownActivity (reference source : String)
  | unknownResource (activity resource : String)
  | duplicateActivity (name : String)
  | skillMismatch (activity resource skill : String)
  | invalidDuration (activity : String) (duration : R)
  | invalidDistribution (activity : String) (fault : DistributionFault R)
  | invalidDemand (activity resource : String) (quantity : R)
  | invalidCapacity (resource : String) (capacity : R)
  | unknownTarget (target : String) (fault : TargetFault)
  | noTrials
  | program (error : ProgramError R)
  | constraint (error : SolveError R)
  | aborted (reason : Abort)

def ScheduleConflict.message : ScheduleConflict Float → String
  | .capacity resource activity time requested limit =>
    let (time, requested, limit) := (Decimal.plain time, Decimal.plain requested, Decimal.plain limit)
    s!"resource '{resource}' over capacity at t={time}: '{activity}' needs {requested} of {limit}"
  | .exhausted resource activity consumed requested limit =>
    let (consumed, requested, limit) := (Decimal.plain consumed, Decimal.plain requested, Decimal.plain limit)
    let amounts := s!"{consumed} consumed, {requested} requested, capacity {limit}"
    s!"non-renewable resource '{resource}' exhausted by '{activity}': {amounts}"
  | .exclusive activity other time =>
    let time := Decimal.plain time
    s!"'{activity}' cannot overlap '{other}' at t={time}"
  | .horizon activity time limit =>
    let (time, limit) := (Decimal.plain time, Decimal.plain limit)
    s!"'{activity}' starting at t={time} cannot finish within horizon {limit}"
  | .constraint name => s!"schedule constraint '{name}' violated"

def DistributionFault.message : DistributionFault Float → String
  | .badParameters => "parameters must be finite and non-negative"
  | .inverted min max =>
    let (min, max) := (Decimal.plain min, Decimal.plain max)
    s!"min {min} exceeds max {max}"
  | .disordered min mode max =>
    let (min, mode, max) := (Decimal.plain min, Decimal.plain mode, Decimal.plain max)
    s!"need min <= mode <= max, got {min}, {mode}, {max}"
  | .noWeights => "No weights provided in distribution"
  | .badWeight => "A weight is invalid in distribution"
  | .zeroWeights => "All weights are zero in distribution"

def TargetFault.message : TargetFault → String
  | .noKind => "expected <kind>.<name>"
  | .unknownKind => "kind must be duration, capacity or bound"
  | .noActivity => "no such activity"
  | .noResource => "no such resource"
  | .noProgram => "the objective has no SUBJECT_TO constraints"
  | .noConstraint => "no such constraint"
  | .noComparison => "constraint is not a comparison"
  | .noConstantBound => "right-hand side is not a numeric constant"

def ScheduleError.message : ScheduleError Float → String
  | .cycle names =>
    let names := Text.joinWith " -> " names
    s!"precedence cycle detected: {names}"
  | .infeasible conflict => s!"infeasible schedule: {conflict.message}"
  | .unknownActivity reference source => s!"'{source}' references unknown activity '{reference}'"
  | .unknownResource activity resource => s!"activity '{activity}' requests unknown resource '{resource}'"
  | .duplicateActivity name => s!"activity '{name}' is declared more than once"
  | .skillMismatch activity resource skill =>
    s!"activity '{activity}' needs skill '{skill}' but resource '{resource}' does not provide it"
  | .invalidDuration activity duration =>
    let duration := Decimal.plain duration
    s!"activity '{activity}' has invalid duration {duration}"
  | .invalidDistribution activity fault =>
    s!"activity '{activity}' has an invalid duration distribution: {fault.message}"
  | .invalidDemand activity resource quantity =>
    let quantity := Decimal.plain quantity
    s!"activity '{activity}' requests invalid quantity {quantity} of '{resource}'"
  | .invalidCapacity resource capacity =>
    let capacity := Decimal.plain capacity
    s!"resource '{resource}' has invalid capacity {capacity}"
  | .unknownTarget target fault => s!"sensitivity target '{target}' is invalid: {fault.message}"
  | .noTrials => "Monte Carlo simulation needs at least one trial"
  | .program error => error.message
  | .constraint error => error.message
  | .aborted _ => ""

end Deliberation
