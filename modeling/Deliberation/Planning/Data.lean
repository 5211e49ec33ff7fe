import Deliberation.Fact.Data
import Deliberation.Planning.Search

/-!
Operators, actions, plans and planning options in structured data.
-/

namespace Deliberation

namespace Operator

/-- The name of a parameter: blanks around it and question marks before it are left out. -/
def parameterName (text : String) : String := String.ofList ((Text.trim text.toList).dropWhile (· = '?'))

def decode (data : Data) : Decoded Operator := do
  let row ← Decode.Row.any [["name"], ["parameters"], ["preconditions", "pre", "precondition"],
    ["add", "post", "add_list"], ["delete", "del", "delete_list"]] data
  return {
    name := ← row.required "name" Decode.text
    parameters := (← row.withDefault "parameters" (Decode.list Decode.text) []).map parameterName
    preconditions := ← row.withDefault "preconditions" (Decode.list Literal.decode) []
    add := ← row.withDefault "add" (Decode.list Atom.decode) []
    delete := ← row.withDefault "delete" (Decode.list Atom.decode) [] }

def toData (op : Operator) : Data :=
  .record [("name", .text op.name), ("parameters", .texts op.parameters),
    ("preconditions", .texts (op.preconditions.map Literal.text)), ("add", .texts (op.add.map Atom.text)),
    ("delete", .texts (op.delete.map Atom.text))]

end Operator

def Action.decode : Data → Decoded Action := Decode.parsed Action.parse

def Action.listData (actions : List Action) : Data := .texts (actions.map Action.text)

def GroundAction.toData (ground : GroundAction) : Data :=
  .record [("action", .text ground.action.text), ("requires", Fact.listData ground.requires),
    ("forbids", Fact.listData ground.forbids), ("add", Fact.listData ground.add),
    ("delete", Fact.listData ground.delete)]

def Plan.toData (plan : Plan) : Data :=
  .record [("actions", Action.listData plan.actions), ("final_state", plan.finalState.toData),
    ("expanded", .nat plan.expanded), ("generated", .nat plan.generated)]

def HeuristicKind.ofName? (name : String) : Option HeuristicKind :=
  [.minimizeComplexity, .optimizeClarity, .satisfice].find? (·.name = name)

namespace PlanStrategy

def name : PlanStrategy → String
  | .breadthFirst => "breadth_first"
  | .depthFirst => "depth_first"
  | .bestFirst => "best_first"
  | .bounded => "bounded"

def ofName? (name : String) : Option PlanStrategy :=
  [.breadthFirst, .depthFirst, .bestFirst, .bounded].find? (·.name = name)

end PlanStrategy

namespace PlanOptions

/-- Options; what is not given is as in the standard ones. -/
def decode (data : Data) : Decoded PlanOptions := do
  let row ← Decode.Row.any [["strategy"], ["heuristic"], ["depth_bound"], ["node_budget"], ["time_limit_ms"],
    ["close_under_rules"]] data
  return {
    strategy := ← row.withDefault "strategy" (Decode.plainChoice PlanStrategy.ofName?) standard.strategy
    heuristic := ← row.withDefault "heuristic" (Decode.plainChoice HeuristicKind.ofName?) standard.heuristic
    depthBound := ← row.withDefault "depth_bound" (Decode.option Decode.nat) standard.depthBound
    nodeBudget := ← row.withDefault "node_budget" Decode.nat standard.nodeBudget
    timeLimit := ← row.withDefault "time_limit_ms" (Decode.option Decode.nat) standard.timeLimit
    closeUnderRules := ← row.withDefault "close_under_rules" Decode.bool standard.closeUnderRules }

end PlanOptions

end Deliberation
