import Deliberation.Data.Decode
import Deliberation.Schedule.Leveling
import Deliberation.Text.Blank

/-!
Activities, resources and links in structured data, and the times that scheduling gives them.
-/

namespace Deliberation

namespace Demand

/-- A demand, of one unit where no quantity is given. -/
def decode (data : Data) : Decoded (Demand Float) := do
  let row ← Decode.Row.any [["resource"], ["quantity"], ["skill"]] data
  return {
    resource := ← row.required "resource" Decode.text
    quantity := ← row.withDefault "quantity" Decode.number 1
    skill := ← row.withDefault "skill" (Decode.option Decode.text) none }

/-- Demands: a record of quantities, or a list. -/
def decodeAll : Data → Decoded (List (Demand Float)) :=
  Decode.firstOf [
    fun data => do
      return (← Decode.lastEntries Decode.number data).map fun (resource, quantity) => ⟨resource, quantity, none⟩,
    Decode.list decode]

def toData (demand : Demand Float) : Data :=
  .record ([("resource", .text demand.resource), ("quantity", .num demand.quantity)] ++
    Data.optional "skill" .text demand.skill)

end Demand

namespace Outcome

def decode (data : Data) : Decoded (Outcome Float) := do
  let row ← Decode.Row.any [["value"], ["probability", "weight"]] data
  return ⟨← row.required "value" Decode.number, ← row.required "probability" Decode.number⟩

def toData (outcome : Outcome Float) : Data :=
  .record [("value", .num outcome.value), ("probability", .num outcome.weight)]

end Outcome

namespace Distribution

/-- A distribution, which names its type. -/
def decode : Data → Decoded (Distribution Float) := Decode.tagged "type" fun kind data => do
  let row (names : List String) := Decode.Row.any (names.map fun name => [name]) data
  match kind with
  | "fixed" => return .fixed (← (← row ["value"]).required "value" Decode.number)
  | "uniform" =>
    let row ← row ["min", "max"]
    return .uniform (← row.required "min" Decode.number) (← row.required "max" Decode.number)
  | "triangular" =>
    let row ← row ["min", "mode", "max"]
    return .triangular (← row.required "min" Decode.number) (← row.required "mode" Decode.number)
      (← row.required "max" Decode.number)
  | "discrete" =>
    return .discrete (← (← row ["outcomes"]).required "outcomes" (Decode.list Outcome.decode))
  | _ => Decode.refuse

def toData : Distribution Float → Data
  | .fixed value => .record [("type", .text "fixed"), ("value", .num value)]
  | .uniform min max => .record [("type", .text "uniform"), ("min", .num min), ("max", .num max)]
  | .triangular min mode max =>
    .record [("type", .text "triangular"), ("min", .num min), ("mode", .num mode), ("max", .num max)]
  | .discrete outcomes => .record [("type", .text "discrete"), ("outcomes", .list (outcomes.map Outcome.toData))]

end Distribution

namespace Activity

def decode (data : Data) : Decoded (Activity Float) := do
  let row ← Decode.Row.any [["name"], ["duration"], ["distribution"], ["demands", "resources"],
    ["predecessors", "after", "depends_on"], ["can_parallel"]] data
  return {
    name := ← row.required "name" Decode.text
    duration := ← row.required "duration" Decode.number
    distribution := ← row.withDefault "distribution" (Decode.option Distribution.decode) none
    demands := ← row.withDefault "demands" Demand.decodeAll []
    predecessors := ← row.withDefault "predecessors" (Decode.list Decode.text) []
    parallel := ← row.withDefault "can_parallel" Decode.bool true }

def toData (activity : Activity Float) : Data :=
  .record ([("name", .text activity.name), ("duration", .num activity.duration)] ++
    Data.optional "distribution" Distribution.toData activity.distribution ++
    [("demands", .list (activity.demands.map Demand.toData)), ("predecessors", .texts activity.predecessors),
      ("can_parallel", .bool activity.parallel)])

end Activity

namespace Resource

def decode (data : Data) : Decoded (Resource Float) := do
  let row ← Decode.Row.any [["name"], ["capacity"], ["renewable"], ["skills"]] data
  return {
    name := ← row.required "name" Decode.text
    capacity := ← row.required "capacity" Decode.number
    renewable := ← row.withDefault "renewable" Decode.bool true
    skills := ← row.withDefault "skills" (Decode.list Decode.text) [] }

def toData (resource : Resource Float) : Data :=
  .record [("name", .text resource.name), ("capacity", .num resource.capacity),
    ("renewable", .bool resource.renewable), ("skills", .texts resource.skills)]

end Resource

namespace Precedence

/-- The link that a text stands for: two names with an arrow between them. -/
def parse? (text : String) : Option Precedence := do
  let (before, after) ← Text.cutAt? "->".toList text.toList
  let (before, after) := (Text.trim before, Text.trim after)
  if before.isEmpty || after.isEmpty then none else some ⟨String.ofList before, String.ofList after⟩

def decodeText (data : Data) : Decoded Precedence := do
  match parse? (← Decode.text data) with
  | some link => return link
  | none => Decode.refuse

def decodeParts (data : Data) : Decoded Precedence := do
  let row ← Decode.Row.named [["before", "from"], ["after", "to"]] data
  return ⟨← row.required "before" Decode.text, ← row.required "after" Decode.text⟩

/-- A link from its text or from its parts. -/
def decode : Data → Decoded Precedence := Decode.firstOf [decodeText, decodeParts]

def toData (link : Precedence) : Data := .record [("before", .text link.before), ("after", .text link.after)]

end Precedence

/-- The horizon of scheduling options, if they set one. -/
def decodeHorizon (data : Data) : Decoded (Option Float) := do
  (← Decode.Row.any [["horizon"]] data).withDefault "horizon" (Decode.option Decode.number) none

def Timing.toData (timing : Timing Float) : Data :=
  .record [("earliest_start", .num timing.earliestStart), ("earliest_finish", .num timing.earliestFinish),
    ("latest_start", .num timing.latestStart), ("latest_finish", .num timing.latestFinish),
    ("slack", .num timing.slack)]

def Placement.toData (placement : Placement Float) : Data :=
  .record [("start", .num placement.start), ("finish", .num placement.finish),
    ("duration", .num placement.duration), ("slack", .num placement.slack)]

/-- The kind and the parts of a conflict. -/
def ScheduleConflict.toData : ScheduleConflict Float → Data
  | .capacity resource activity time requested limit =>
    .record [("kind", .text "capacity"), ("resource", .text resource), ("activity", .text activity),
      ("time", .num time), ("requested", .num requested), ("capacity", .num limit)]
  | .exhausted resource activity consumed requested limit =>
    .record [("kind", .text "exhausted"), ("resource", .text resource), ("activity", .text activity),
      ("consumed", .num consumed), ("requested", .num requested), ("capacity", .num limit)]
  | .exclusive activity other time =>
    .record [("kind", .text "exclusive"), ("activity", .text activity), ("other", .text other), ("time", .num time)]
  | .horizon activity time limit =>
    .record [("kind", .text "horizon"), ("activity", .text activity), ("time", .num time), ("horizon", .num limit)]
  | .constraint name => .record [("kind", .text "constraint"), ("name", .text name)]

def NameMap.numbers (m : NameMap Float) : Data := .record (m.map Data.num).toList

end Deliberation
