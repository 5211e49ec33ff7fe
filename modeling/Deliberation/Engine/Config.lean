import Deliberation.Constraint.Search
import Deliberation.Planning.Search
import Deliberation.Schedule.Sensitivity
import Deliberation.Schedule.Simulation

/-!
Configuration: the limits and options of every kind of query.
-/

namespace Deliberation

structure Config where
  /-- How many passes of inference may add a fact, if there is a limit. -/
  maxPasses : Option Nat
  solver : SolveOptions
  planner : PlanOptions
  /-- Until when schedules have to end, if at a set time. -/
  horizon : Option Float
  simulation : SimulationOptions
  sensitivity : SensitivityOptions Float

/-- Why no query could run with a configuration. -/
inductive ConfigFault where
  | noPasses
  | noSolverBudget
  | bestOfNone
  | noPlannerBudget
  | noDepth
  | badHorizon
  | noTrials
  | noBins
  | badDelta
  | badThresholds
  deriving DecidableEq, Repr

def ConfigFault.message : ConfigFault → String
  | .noPasses => "max_inference_passes must be > 0"
  | .noSolverBudget => "solver_node_budget must be > 0"
  | .bestOfNone => "solve_strategy best_of_n needs n > 0"
  | .noPlannerBudget => "planner.node_budget must be > 0"
  | .noDepth => "planner.depth_bound must be > 0 for bounded search"
  | .badHorizon => "schedule.horizon must be finite and non-negative"
  | .noTrials => "simulation.trials must be > 0"
  | .noBins => "simulation.bins must be > 0"
  | .badDelta => "sensitivity.delta must be a positive number"
  | .badThresholds => "sensitivity thresholds need 0 <= medium <= high"

/-- The options of sensitivity analysis where none are given. -/
def SensitivityOptions.standard : SensitivityOptions Float := ⟨0.1, .standard, true⟩

namespace Config

def standard : Config := ⟨none, .standard, .standard, none, .standard, .standard⟩

/-- Whether the thresholds are in order and not negative. -/
def thresholdsInOrder (thresholds : Thresholds Float) : Bool :=
  decide (0 ≤ thresholds.medium) && decide (thresholds.medium ≤ thresholds.high)

/-- What a configuration could be refused for, with whether it is. -/
def checks (config : Config) : List (Bool × ConfigFault) :=
  let { delta, thresholds, .. } := config.sensitivity
  [(config.maxPasses == some 0, .noPasses),
    (config.solver.nodeBudget == 0, .noSolverBudget),
    (config.solver.strategy == .bestOf 0, .bestOfNone),
    (config.planner.nodeBudget == 0, .noPlannerBudget),
    (config.planner.strategy == .bounded && config.planner.depthBound == some 0, .noDepth),
    (!config.horizon.all Distribution.isDuration, .badHorizon),
    (config.simulation.trials == 0, .noTrials),
    (config.simulation.bins == 0, .noBins),
    (!(delta.isFinite && decide (0 < delta)), .badDelta),
    (!thresholdsInOrder thresholds, .badThresholds)]

/-- Refuses a configuration for the first fault that it has. -/
def validate (config : Config) : Except ConfigFault Unit :=
  match config.checks.find? (·.1) with
  | some (_, fault) => .error fault
  | none => .ok ()

def scheduling (config : Config) : ScheduleOptions Float := ⟨config.horizon, .standard⟩

end Config

end Deliberation
