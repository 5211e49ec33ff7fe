import Deliberation.Constraint.Data
import Deliberation.Linear.Program

/-!
Linear programs and their solutions in structured data.
-/

namespace Deliberation

namespace ProgramVariable

/-- A variable, which has no value below zero where no lower bound is given. -/
def decode (data : Data) : Decoded (ProgramVariable Float) := do
  let row ← Decode.Row.any [["name"], ["lower"], ["upper"]] data
  return {
    name := ← row.required "name" Decode.text
    lower := ← row.withDefault "lower" Decode.number 0
    upper := ← row.withDefault "upper" (Decode.option Decode.number) none }

def toData (v : ProgramVariable Float) : Data :=
  .record ([("name", .text v.name), ("lower", .num v.lower)] ++ Data.optional "upper" .num v.upper)

end ProgramVariable

namespace LinearProgram

def decode (data : Data) : Decoded (LinearProgram Float) := do
  let row ← Decode.Row.any [["variables"], ["objective"], ["subject_to", "SUBJECT_TO"]] data
  return {
    vars := ← row.withDefault "variables" (Decode.list ProgramVariable.decode) []
    objective := ← row.required "objective" (Decode.parsed Expr.parse)
    constraints := ← row.withDefault "subject_to" (Decode.list Constraint.decode) [] }

def entries (program : LinearProgram Float) : List (String × Data) :=
  [("variables", .list (program.vars.map ProgramVariable.toData)),
    ("objective", .text program.objective.text),
    ("subject_to", .list (program.constraints.map Constraint.toData))]

end LinearProgram

namespace Sense

def name : Sense → String
  | .minimize => "minimize"
  | .maximize => "maximize"

def ofName? (name : String) : Option Sense := [.minimize, .maximize].find? (·.name = name)

end Sense

def ProgramSolution.toData (solution : ProgramSolution Float) : Data :=
  .record [("sense", .text solution.sense.name), ("objective", .num solution.objective),
    ("values", .record (solution.values.map Data.num).toList), ("pivots", .nat solution.pivots)]

end Deliberation
