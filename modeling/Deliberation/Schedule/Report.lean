import Deliberation.Linear.Data
import Deliberation.Schedule.Data
import Deliberation.Schedule.Sensitivity
import Deliberation.Schedule.Simulation

/-!
The objectives and options of scheduling in structured data, and schedules, simulations and
sensitivity reports as structured data.
-/

namespace Deliberation

namespace Objective

/-- An objective, which names its sense. -/
def decode : Data → Decoded (Objective Float) := Decode.tagged "sense" fun sense data => do
  match sense, data with
  | "minimize_makespan", .record _ | "minimize_makespan", .list [] => return .minimizeMakespan
  | "minimize_cost", data => return .minimizeCost (← LinearProgram.decode data)
  | "maximize_quality", data => return .maximizeQuality (← LinearProgram.decode data)
  | _, _ => Decode.refuse

def toData : Objective Float → Data
  | .minimizeMakespan => .record [("sense", .text "minimize_makespan")]
  | .minimizeCost program => .record (("sense", .text "minimize_cost") :: program.entries)
  | .maximizeQuality program => .record (("sense", .text "maximize_quality") :: program.entries)

end Objective

namespace SimulationOptions

/-- Options; what is not given is as in the standard ones. -/
def decode (data : Data) : Decoded SimulationOptions := do
  let row ← Decode.Row.any [["trials"], ["seed"], ["parallel"], ["bins"]] data
  return {
    trials := ← row.withDefault "trials" Decode.nat standard.trials
    seed := (← row.withDefault "seed" Decode.nat standard.seed.toNat).toUInt64
    parallel := ← row.withDefault "parallel" Decode.bool standard.parallel
    bins := ← row.withDefault "bins" Decode.nat standard.bins }

end SimulationOptions

namespace Thresholds

/-- Thresholds; what is not given is as in the standard ones. -/
def decode (data : Data) : Decoded (Thresholds Float) := do
  let row ← Decode.Row.any [["high"], ["medium"]] data
  return ⟨← row.withDefault "high" Decode.number standard.high,
    ← row.withDefault "medium" Decode.number standard.medium⟩

def toData (thresholds : Thresholds Float) : Data :=
  .record [("high", .num thresholds.high), ("medium", .num thresholds.medium)]

end Thresholds

def Schedule.toData (schedule : Schedule Float) : Data :=
  .record [("activities", .record (schedule.placements.map Placement.toData).toList),
    ("makespan", .num schedule.makespan), ("critical_path_length", .num schedule.criticalPathLength),
    ("critical_path", .texts schedule.criticalPath),
    ("critical_chains", .list (schedule.criticalChains.map Data.texts)),
    ("timings", .record (schedule.timings.map Timing.toData).toList),
    ("consumption", schedule.consumption.numbers),
    ("optimization", .orNull ProgramSolution.toData schedule.optimization)]

def Bin.toData (bin : Bin Float) : Data :=
  .record [("lower", .num bin.lower), ("upper", .num bin.upper), ("count", .nat bin.count)]

def Percentiles.toData (percentiles : Percentiles Float) : Data :=
  .record [("p50", .num percentiles.p50), ("p80", .num percentiles.p80), ("p90", .num percentiles.p90),
    ("p95", .num percentiles.p95)]

/-- The parts of a summary; of the makespans only what they are like. -/
def SimulationSummary.toData (summary : SimulationSummary Float) : Data :=
  .record [("trials", .nat summary.trials), ("seed", .nat summary.seed.toNat), ("mean", .num summary.mean),
    ("std_dev", .num summary.variance.sqrt), ("min", .num summary.min), ("max", .num summary.max),
    ("percentiles", summary.percentiles.toData), ("histogram", .list (summary.histogram.map Bin.toData)),
    ("criticality", summary.criticality.numbers)]

def Impact.name : Impact → String
  | .high => "high"
  | .medium => "medium"
  | .low => "low"
  | .infeasible => "infeasible"

def SensitivityReport.toData (report : SensitivityReport Float) : Data :=
  .record ([("target", .text report.target.text), ("base_input", .num report.baseInput),
    ("perturbed_input", .num report.perturbedInput), ("base_output", .num report.baseOutput),
    ("perturbed_output", .orNull .num report.perturbedOutput), ("elasticity", .orNull .num report.elasticity),
    ("impact", .text report.impact.name)] ++
    Data.optional "conflict" ScheduleConflict.toData report.conflict)

end Deliberation
