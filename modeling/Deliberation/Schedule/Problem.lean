import Deliberation.Linear.Program
import Deliberation.Schedule.Distribution
import Deliberation.Schedule.Leveling

/-!
Scheduling problems and their solutions: activities are leveled on their resources, the times have to
satisfy constraints, and a linear program over the times may be optimized.
-/

namespace Deliberation

/-- What is optimized: the makespan, or a linear program over the times of the schedule. -/
inductive Objective (R : Type) where
  | minimizeMakespan
  | minimizeCost (program : LinearProgram R)
  | maximizeQuality (program : LinearProgram R)
  deriving BEq

/-- A scheduling problem; its constraints speak of the times of the schedule. -/
structure ScheduleProblem (R : Type) where
  activities : List (Activity R)
  resources : List (Resource R)
  precedence : List Precedence
  objective : Objective R
  constraints : List (Constraint R)

/-- Until when everything has to be finished, if at a set time, and the tolerances of the linear program. -/
structure ScheduleOptions (R : Type) where
  horizon : Option R
  simplex : SimplexTolerance R

def ScheduleOptions.standard : ScheduleOptions Float := ⟨none, .standard⟩

/-- A schedule with its critical path, what it consumes, and the optimum of its linear program. -/
structure Schedule (R : Type) where
  placements : NameMap (Placement R)
  makespan : R
  criticalPathLength : R
  criticalPath : List String
  criticalChains : List (List String)
  timings : NameMap (Timing R)
  consumption : NameMap R
  optimization : Option (ProgramSolution R)

namespace Objective

variable {R : Type}

def program? : Objective R → Option (LinearProgram R × Sense)
  | .minimizeMakespan => none
  | .minimizeCost program => some (program, .minimize)
  | .maximizeQuality program => some (program, .maximize)

/-- The objective with its program changed. -/
def mapProgram (change : LinearProgram R → LinearProgram R) : Objective R → Objective R
  | .minimizeMakespan => .minimizeMakespan
  | .minimizeCost program => .minimizeCost (change program)
  | .maximizeQuality program => .maximizeQuality (change program)

end Objective

namespace ScheduleProblem

variable {R : Type} [Scalar R]

/-- Refuses a demand on a resource that is not there, of an impossible quantity, or for a skill that the
resource lacks. -/
def validateDemand (problem : ScheduleProblem R) (activity : Activity R) (demand : Demand R) :
    Except (ScheduleError R) Unit := do
  match problem.resources.find? (·.name = demand.resource) with
  | none => throw (.unknownResource activity.name demand.resource)
  | some resource =>
    if !Distribution.isDuration demand.quantity then
      throw (.invalidDemand activity.name demand.resource demand.quantity)
    match demand.skill with
    | none => return ()
    | some skill =>
      if resource.skills.contains skill then return ()
      else throw (.skillMismatch activity.name demand.resource skill)

/-- Refuses an activity with an impossible duration, distribution or demand. -/
def validateActivity (problem : ScheduleProblem R) (activity : Activity R) : Except (ScheduleError R) Unit := do
  if !Distribution.isDuration activity.duration then throw (.invalidDuration activity.name activity.duration)
  match activity.distribution with
  | some distribution => distribution.validate activity.name
  | none => pure ()
  activity.demands.forM (problem.validateDemand activity)

/-- Refuses the first activity that has the name of one before it or is not valid itself. -/
def validateActivities (problem : ScheduleProblem R) :
    (names : List String) → List (Activity R) → Except (ScheduleError R) Unit
  | _, [] => .ok ()
  | names, activity :: rest => do
    if activity.name ∈ names then throw (.duplicateActivity activity.name)
    problem.validateActivity activity
    problem.validateActivities (activity.name :: names) rest

/-- Refuses impossible capacities, then impossible activities. -/
def validate (problem : ScheduleProblem R) : Except (ScheduleError R) Unit := do
  match problem.resources.find? (!Distribution.isDuration ·.capacity) with
  | some resource => throw (.invalidCapacity resource.name resource.capacity)
  | none => problem.validateActivities [] problem.activities

def solve (problem : ScheduleProblem R) (options : ScheduleOptions R) : Except (ScheduleError R) (Schedule R) := do
  problem.validate
  let network ← Network.build problem.activities problem.precedence
  let path := CriticalPath.analyze network (problem.activities.map Activity.duration)
  let leveled ← level problem.activities problem.resources network path options.horizon
  let metrics := (leveled.metrics problem.activities).get?
  let check ← (checkAssignment metrics problem.constraints []).mapError .constraint
  match check.hardViolations with
  | name :: _ => throw (.infeasible (.constraint name))
  | [] => pure ()
  let optimization ← problem.objective.program?.mapM fun (program, sense) =>
    (program.optimize options.simplex sense metrics).mapError .program
  let names := problem.activities.map Activity.name
  let named (places : List Nat) : List String := places.map fun i => names.getD i ""
  return {
    placements := .ofList (names.zip leveled.placements)
    makespan := leveled.makespan
    criticalPathLength := path.makespan
    criticalPath := named path.critical
    criticalChains := (path.chains network).map named
    timings := .ofList (names.zip path.timings)
    consumption := leveled.consumption
    optimization }

end ScheduleProblem

/-- What is optimized: the objective of the linear program, or the makespan where there is none. -/
def Schedule.objectiveValue {R : Type} (schedule : Schedule R) : R :=
  match schedule.optimization with
  | some solution => solution.objective
  | none => schedule.makespan

end Deliberation
