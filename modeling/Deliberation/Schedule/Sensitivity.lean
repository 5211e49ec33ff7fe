import Deliberation.Schedule.Problem
import Deliberation.Text.Cut

/-!
Sensitivity: what becomes of the objective when one input is changed a little. The response is an
elasticity, the relative change of the objective by the relative change of the input.
-/

namespace Deliberation

/-- An input that can be changed: a duration, a capacity, or the right side of a constraint of the program. -/
inductive Target where
  | duration (activity : String)
  | capacity (resource : String)
  | bound (constraint : String)
  deriving DecidableEq, Repr

/-- How strongly an input tells; one whose change admits no schedule is in a class of its own. -/
inductive Impact where
  | high
  | medium
  | low
  | infeasible
  deriving DecidableEq, Repr

/-- The least elasticities that count as high and as medium. -/
structure Thresholds (R : Type) where
  high : R
  medium : R

/-- By how much inputs are changed, what counts as much, and whether targets may be looked at side by side. -/
structure SensitivityOptions (R : Type) where
  delta : R
  thresholds : Thresholds R
  parallel : Bool

/-- An input before and after its change, and what became of the objective. -/
structure SensitivityReport (R : Type) where
  target : Target
  baseInput : R
  perturbedInput : R
  baseOutput : R
  perturbedOutput : Option R
  elasticity : Option R
  impact : Impact
  conflict : Option (ScheduleConflict R)

def Thresholds.standard : Thresholds Float := ⟨0.5, 0.1⟩

namespace Target

def kind : Target → String
  | .duration _ => "duration"
  | .capacity _ => "capacity"
  | .bound _ => "bound"

def name : Target → String
  | .duration name | .capacity name | .bound name => name

/-- The text of a target: its kind and its name with a point between them. -/
def text (target : Target) : String := target.kind ++ "." ++ target.name

/-- The target that a text stands for. -/
def parse {R : Type} (text : String) : Except (ScheduleError R) Target :=
  match Text.cutAt? ['.'] text.toList with
  | none => .error (.unknownTarget text .noKind)
  | some (kind, name) =>
    let name := String.ofList name
    match String.ofList kind with
    | "duration" => .ok (.duration name)
    | "capacity" => .ok (.capacity name)
    | "bound" => .ok (.bound name)
    | _ => .error (.unknownTarget text .unknownKind)

end Target

variable {R : Type} [Scalar R]

def Thresholds.classify (thresholds : Thresholds R) (elasticity : R) : Impact :=
  let magnitude := Scalar.abs elasticity
  if thresholds.high ≤ magnitude then .high else if thresholds.medium ≤ magnitude then .medium else .low

/-- An input after its change: greater by a share, or as large as that share where it was zero. -/
def perturb (delta x : R) : R := if x == 0 then delta else x * (1 + delta)

/-- A list with its first element of a kind changed. -/
def changeFirst {α : Type} (test : α → Bool) (change : α → α) : List α → List α
  | [] => []
  | a :: rest => if test a then change a :: rest else a :: changeFirst test change rest

namespace ScheduleProblem

/-- An input, what it becomes, and the problem with it. -/
structure Perturbation (R : Type) where
  baseInput : R
  perturbedInput : R
  problem : ScheduleProblem R

def perturbDuration (problem : ScheduleProblem R) (delta : R) (name : String) :
    Except TargetFault (Perturbation R) :=
  match problem.activities.find? (·.name = name) with
  | none => .error .noActivity
  | some activity =>
    let next := perturb delta activity.duration
    let activities := changeFirst (·.name = name) (fun a => { a with duration := next }) problem.activities
    .ok ⟨activity.duration, next, { problem with activities }⟩

def perturbCapacity (problem : ScheduleProblem R) (delta : R) (name : String) :
    Except TargetFault (Perturbation R) :=
  match problem.resources.find? (·.name = name) with
  | none => .error .noResource
  | some resource =>
    let next := perturb delta resource.capacity
    let resources := changeFirst (·.name = name) (fun r => { r with capacity := next }) problem.resources
    .ok ⟨resource.capacity, next, { problem with resources }⟩

/-- What the right side of a comparison is worth when no variable stands in it. -/
def constantBound (target : Target) (side : Expr R) : Except (ScheduleError R) R :=
  match side.eval (fun _ => none) with
  | .ok value =>
    match value.number?, side.vars with
    | some x, [] => .ok x
    | _, _ => .error (.unknownTarget target.text .noConstantBound)
  | .error (.aborted reason) => .error (.aborted reason)
  | .error _ => .error (.unknownTarget target.text .noConstantBound)

/-- The change of the right side of a constraint of the program. -/
def perturbBound (problem : ScheduleProblem R) (delta : R) (name : String) :
    Except (ScheduleError R) (Perturbation R) := do
  let target := Target.bound name
  match problem.objective.program? with
  | none => throw (.unknownTarget target.text .noProgram)
  | some (program, _) =>
    match program.constraints.find? (·.name = name) with
    | none => throw (.unknownTarget target.text .noConstraint)
    | some { predicate := .compare op left right, .. } =>
      if op = .ne then throw (.unknownTarget target.text .noComparison)
      let x ← constantBound target right
      let next := perturb delta x
      let replace (c : Constraint R) : Constraint R :=
        { c with predicate := .compare op left (.const (.num next)) }
      let constraints := changeFirst (·.name = name) replace program.constraints
      return ⟨x, next, { problem with objective := problem.objective.mapProgram fun p => { p with constraints } }⟩
    | some _ => throw (.unknownTarget target.text .noComparison)

def perturbTarget (problem : ScheduleProblem R) (delta : R) (target : Target) :
    Except (ScheduleError R) (Perturbation R) :=
  match target with
  | .duration name => (problem.perturbDuration delta name).mapError (.unknownTarget target.text)
  | .capacity name => (problem.perturbCapacity delta name).mapError (.unknownTarget target.text)
  | .bound name => problem.perturbBound delta name

/-- The relative change of an output by the relative change of an input, or the change by the change where one
of them was zero. -/
def elasticity (baseInput perturbedInput baseOutput perturbedOutput : R) : R :=
  let dx := perturbedInput - baseInput
  let dy := perturbedOutput - baseOutput
  if baseInput == 0 || baseOutput == 0 then dy / dx else (dy / baseOutput) / (dx / baseInput)

def report (problem : ScheduleProblem R) (baseOutput : R) (options : SensitivityOptions R)
    (scheduling : ScheduleOptions R) (target : Target) : Except (ScheduleError R) (SensitivityReport R) := do
  let change ← problem.perturbTarget options.delta target
  match change.problem.solve scheduling with
  | .ok schedule =>
    let output := schedule.objectiveValue
    let elasticity := elasticity change.baseInput change.perturbedInput baseOutput output
    return ⟨target, change.baseInput, change.perturbedInput, baseOutput, some output, some elasticity,
      options.thresholds.classify elasticity, none⟩
  | .error (.infeasible conflict) =>
    return ⟨target, change.baseInput, change.perturbedInput, baseOutput, none, none, .infeasible, some conflict⟩
  | .error error => throw error

/-- The targets where none are given: all durations, then all capacities. -/
def standardTargets (problem : ScheduleProblem R) : List Target :=
  problem.activities.map (.duration ·.name) ++ problem.resources.map (.capacity ·.name)

def sensitivity (problem : ScheduleProblem R) (targets : List Target) (options : SensitivityOptions R)
    (scheduling : ScheduleOptions R) : Except (ScheduleError R) (List (SensitivityReport R)) := do
  let base ← problem.solve scheduling
  let targets := if targets.isEmpty then problem.standardTargets else targets
  targets.mapM (problem.report base.objectiveValue options scheduling)

end ScheduleProblem

end Deliberation
