import Deliberation.Constraint.Conflict
import Deliberation.Data.Decode
import Deliberation.Expr.Parser
import Deliberation.Text.Blank

/-!
Constraint problems in structured data. A constraint is given as its text, which is also its name, or
in its parts; variables are given as a list, or as a record of their domains.
-/

namespace Deliberation

namespace Domain

def decodeRange (data : Data) : Decoded (Domain Float) := do
  let row ← Decode.Row.named [["min"], ["max"], ["step"]] data
  return .range (← row.required "min" Decode.int64) (← row.required "max" Decode.int64)
    (← row.withDefault "step" Decode.int64 1)

def decode : Data → Decoded (Domain Float) :=
  Decode.firstOf [fun data => return .listed (← Decode.list Value.decode data), decodeRange]

def toData : Domain Float → Data
  | .listed values => .list (values.map Value.toData)
  | .range min max step => .record [("min", .int min.toInt), ("max", .int max.toInt), ("step", .int step.toInt)]

end Domain

namespace Variable

def decode (data : Data) : Decoded (Variable Float) := do
  let row ← Decode.Row.any [["name"], ["domain"]] data
  return ⟨← row.required "name" Decode.text, ← row.required "domain" Domain.decode⟩

/-- The domains of a record, of which the last one of a name counts, at the place of the first. -/
def decodeRecord (data : Data) : Decoded (List (Variable Float)) := do
  return (← Decode.lastEntries Domain.decode data).map fun (name, domain) => ⟨name, domain⟩

/-- A list of variables, or a record of their domains. -/
def decodeAll : Data → Decoded (List (Variable Float)) := Decode.firstOf [Decode.list decode, decodeRecord]

def toData (v : Variable Float) : Data := .record [("name", .text v.name), ("domain", v.domain.toData)]

end Variable

namespace Constraint

def standardWeight : Float := 1.0

/-- A constraint from its text, which names it. -/
def decodeText (data : Data) : Decoded (Constraint Float) := do
  let s ← Decode.text data
  let predicate ← Decode.parsed Expr.parse data
  return ⟨String.ofList (Text.trim s.toList), predicate, standardWeight⟩

/-- A constraint from its parts; its predicate names it where there is no name. -/
def decodeParts (data : Data) : Decoded (Constraint Float) := do
  let row ← Decode.Row.named [["name"], ["predicate", "expr", "constraint"], ["weight"]] data
  let name ← row.optional "name" Decode.text
  let predicate ← row.required "predicate" (Decode.parsed Expr.parse)
  let weight ← row.withDefault "weight" Decode.number standardWeight
  return ⟨name.getD predicate.text, predicate, weight⟩

def decode : Data → Decoded (Constraint Float) := Decode.firstOf [decodeText, decodeParts]

def toData (c : Constraint Float) : Data :=
  .record [("name", .text c.name), ("predicate", .text c.predicate.text), ("weight", .num c.weight)]

end Constraint

namespace VariableOrder

def ofName? : String → Option VariableOrder
  | "most_constrained" => some .mostConstrained
  | "declaration" => some .declaration
  | _ => none

def name : VariableOrder → String
  | .mostConstrained => "most_constrained"
  | .declaration => "declaration"

end VariableOrder

namespace SolveStrategy

/-- A strategy; one takes a number of assignments. -/
def decode (data : Data) : Decoded SolveStrategy := do
  match ← Decode.choice data with
  | ("first_solution", content) => if ← Decode.isBare content then return .firstSolution else Decode.refuse
  | ("branch_and_bound", content) => if ← Decode.isBare content then return .branchAndBound else Decode.refuse
  | ("best_of_n", some content) => return .bestOf (← Decode.nat content)
  | _ => Decode.refuse

def toData : SolveStrategy → Data
  | .firstSolution => .text "first_solution"
  | .branchAndBound => .text "branch_and_bound"
  | .bestOf n => .record [("best_of_n", .nat n)]

end SolveStrategy

namespace SolveOptions

/-- Options; what is not given is as in the standard ones. -/
def decode (data : Data) : Decoded SolveOptions := do
  let row ← Decode.Row.any [["order"], ["strategy"], ["node_budget"]] data
  return {
    order := ← row.withDefault "order" (Decode.plainChoice VariableOrder.ofName?) standard.order
    strategy := ← row.withDefault "strategy" SolveStrategy.decode standard.strategy
    nodeBudget := ← row.withDefault "node_budget" Decode.nat standard.nodeBudget }

def toData (options : SolveOptions) : Data :=
  .record [("order", .text options.order.name), ("strategy", options.strategy.toData),
    ("node_budget", .nat options.nodeBudget)]

end SolveOptions

def Solution.toData (solution : Solution Float) : Data :=
  .record [("assignment", .record (solution.assignment.map fun (name, value) => (name, value.toData))),
    ("cost", .num solution.cost), ("violated", .texts solution.violated), ("nodes", .nat solution.nodes),
    ("solutions_seen", .nat solution.solutionsSeen)]

def Check.toData (check : Check Float) : Data :=
  .record [("hard_violations", .texts check.hardViolations), ("soft_violations", .texts check.softViolations),
    ("cost", .num check.cost)]

end Deliberation
