import Deliberation.Document.Data
import Deliberation.Engine.Basic
import Deliberation.Inference.Data

/-!
Configurations and answers as structured data.
-/

namespace Deliberation

namespace SensitivityOptions

/-- Options; what is not given is as in the standard ones. -/
def decode (data : Data) : Decoded (SensitivityOptions Float) := do
  let row ← Decode.Row.any [["delta"], ["thresholds"], ["parallel"]] data
  return {
    delta := ← row.withDefault "delta" Decode.number standard.delta
    thresholds := ← row.withDefault "thresholds" Thresholds.decode standard.thresholds
    parallel := ← row.withDefault "parallel" Decode.bool standard.parallel }

def toData (options : SensitivityOptions Float) : Data :=
  .record [("delta", .num options.delta), ("thresholds", options.thresholds.toData),
    ("parallel", .bool options.parallel)]

end SensitivityOptions

def SimulationOptions.toData (options : SimulationOptions) : Data :=
  .record [("trials", .nat options.trials), ("seed", .nat options.seed.toNat), ("parallel", .bool options.parallel),
    ("bins", .nat options.bins)]

def PlanOptions.toData (options : PlanOptions) : Data :=
  .record [("strategy", .text options.strategy.name), ("heuristic", .text options.heuristic.name),
    ("depth_bound", .orNull .nat options.depthBound), ("node_budget", .nat options.nodeBudget),
    ("time_limit_ms", .orNull .nat options.timeLimit), ("close_under_rules", .bool options.closeUnderRules)]

namespace Config

/-- A configuration; what is not given is as in the standard one. -/
def decode (data : Data) : Decoded Config := do
  let row ← Decode.Row.any [["max_inference_passes"], ["solver_node_budget"], ["variable_order"],
    ["solve_strategy"], ["planner"], ["schedule"], ["simulation"], ["sensitivity"]] data
  let maxPasses ← row.withDefault "max_inference_passes" (Decode.option Decode.nat) standard.maxPasses
  let nodeBudget ← row.withDefault "solver_node_budget" Decode.nat standard.solver.nodeBudget
  let order ← row.withDefault "variable_order" (Decode.plainChoice VariableOrder.ofName?) standard.solver.order
  let strategy ← row.withDefault "solve_strategy" SolveStrategy.decode standard.solver.strategy
  return {
    maxPasses
    solver := { order, strategy, nodeBudget }
    planner := ← row.withDefault "planner" PlanOptions.decode standard.planner
    horizon := ← row.withDefault "schedule" decodeHorizon standard.horizon
    simulation := ← row.withDefault "simulation" SimulationOptions.decode standard.simulation
    sensitivity := ← row.withDefault "sensitivity" SensitivityOptions.decode standard.sensitivity }

def toData (config : Config) : Data :=
  .record (Data.optional "max_inference_passes" .nat config.maxPasses ++
    [("solver_node_budget", .nat config.solver.nodeBudget), ("variable_order", .text config.solver.order.name),
      ("solve_strategy", config.solver.strategy.toData), ("planner", config.planner.toData),
      ("schedule", .record [("horizon", .orNull .num config.horizon)]),
      ("simulation", config.simulation.toData), ("sensitivity", config.sensitivity.toData)])

end Config

namespace QueryAnswer

def kind : QueryAnswer → String
  | .inference _ | .proof _ => "inference"
  | .solution _ => "solution"
  | .plan _ => "plan"
  | .validPlan _ => "valid_plan"
  | .schedule _ => "schedule"
  | .simulation _ => "simulation"
  | .sensitivity _ => "sensitivity"
  | .evaluation _ => "evaluation"
  | .risks _ => "risks"

def result : QueryAnswer → Data
  | .inference result => .record [("forward", result.toData)]
  | .proof result => .record [("backward", .orNull Proof.toData result)]
  | .solution result => result.toData
  | .plan result => result.toData
  | .validPlan final => final.toData
  | .schedule result => result.toData
  | .simulation summary => summary.toData
  | .sensitivity reports => .list (reports.map SensitivityReport.toData)
  | .evaluation result => result.toData
  | .risks report => report.toData

def toData (answer : QueryAnswer) : Data := .record [("kind", .text answer.kind), ("result", answer.result)]

end QueryAnswer

end Deliberation
