import Deliberation.Data.Decode
import Deliberation.Decision.Risk
import Deliberation.Decision.Tree

/-!
Decision trees and risks in structured data. A node is known by its key: options, outcomes or a
utility; a branch has the key of its node beside its own.
-/

namespace Deliberation

namespace DecisionNode

/-- The node that a record stands for, given how its options and its outcomes read: the first of options,
outcomes and utility that can be read. -/
def ofParts (options outcomes : Decoded (List (Branch Float))) (entries : List (String × Data)) :
    Decoded (DecisionNode Float) :=
  (.decision <$> options) <|> (.chance <$> outcomes) <|> do
    let row ← Decode.Row.named [["utility"]] (.record entries)
    return .terminal (← row.required "utility" Decode.number)

mutual

def decodeNode : Data → Decoded (DecisionNode Float)
  | .record entries => ofParts (decodeUnder "options" entries) (decodeUnder "outcomes" entries) entries
  | _ => Decode.refuse

/-- The branches under a key that occurs once. -/
def decodeUnder (key : String) : List (String × Data) → Decoded (List (Branch Float))
  | [] => Decode.refuse
  | (name, data) :: rest =>
    if name = key then if rest.any (·.1 = key) then Decode.refuse else decodeList data
    else decodeUnder key rest

def decodeList : Data → Decoded (List (Branch Float))
  | .list items => decodeItems items
  | _ => Decode.refuse

def decodeItems : List Data → Decoded (List (Branch Float))
  | [] => pure []
  | item :: rest => do return (← decodeBranch item) :: (← decodeItems rest)

def decodeBranch : Data → Decoded (Branch Float)
  | .record entries => do
    let row ← Decode.Row.named [["name"], ["probability"]] (.record entries)
    let name ← row.required "name" Decode.text
    let probability ← row.optional "probability" Decode.number
    return .mk name probability
      (← ofParts (decodeUnder "options" entries) (decodeUnder "outcomes" entries) entries)
  | _ => Decode.refuse

end

def decode : Data → Decoded (DecisionNode Float) := Decode.whole decodeNode

mutual

/-- The entry by which a node is known. -/
def entry : DecisionNode Float → String × Data
  | .decision options => ("options", .list (branchData options))
  | .chance outcomes => ("outcomes", .list (branchData outcomes))
  | .terminal utility => ("utility", .num utility)

/-- Branches, with the entries of their nodes beside their own. -/
def branchData : List (Branch Float) → List Data
  | [] => []
  | .mk name probability node :: rest =>
    .record ([("name", .text name)] ++ Data.optional "probability" .num probability ++ [node.entry]) ::
      branchData rest

end

def toData (node : DecisionNode Float) : Data := .record [node.entry]

end DecisionNode

def PolicyStep.toData (step : PolicyStep Float) : Data :=
  .record [("decision", .text step.decision), ("choice", .text step.choice),
    ("expected_utility", .num step.expectedUtility)]

/-- What an option is worth, with its prior if it has one. -/
def BranchValue.toData (branch : BranchValue Float) : Data :=
  .record ([("name", .text branch.name), ("expected_utility", .num branch.value.utility)] ++
    Data.optional "prior" .num branch.probability)

def Evaluation.toData (evaluation : Evaluation Float) : Data :=
  .record [("best_choice", .orNull .text evaluation.bestChoice),
    ("expected_utility", .num evaluation.expectedUtility),
    ("options", .list (evaluation.options.map BranchValue.toData)),
    ("policy", .list (evaluation.policy.map PolicyStep.toData))]

namespace Risk

def decode (data : Data) : Decoded (Risk Float) := do
  let row ← Decode.Row.any [["id"], ["description"], ["probability"], ["impact"], ["mitigation"]] data
  return {
    id := ← row.required "id" Decode.text
    description := ← row.withDefault "description" Decode.text ""
    probability := ← row.required "probability" Decode.number
    impact := ← row.required "impact" Decode.number
    mitigation := ← row.withDefault "mitigation" (Decode.option Decode.text) none }

def toData (risk : Risk Float) : Data :=
  .record ([("id", .text risk.id)] ++
    Data.optional "description" .text (if risk.description.isEmpty then none else some risk.description) ++
    [("probability", .num risk.probability), ("impact", .num risk.impact)] ++
    Data.optional "mitigation" .text risk.mitigation)

/-- A risk with its place in the ranking. -/
def rankedData (risk : Risk Float) (rank : Nat) : Data :=
  .record ([("rank", .nat rank), ("id", .text risk.id), ("probability", .num risk.probability),
    ("impact", .num risk.impact), ("exposure", .num risk.exposure)] ++
    Data.optional "mitigation" .text risk.mitigation)

end Risk

/-- The parts of a report, with the ranks from one. -/
def RiskReport.toData (report : RiskReport Float) : Data :=
  .record [("ranked", .list (report.ranked.zipIdx.map fun (risk, i) => risk.rankedData (i + 1))),
    ("total_exposure", .num report.totalExposure), ("unmitigated", .texts report.unmitigated)]

end Deliberation
