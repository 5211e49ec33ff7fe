import Deliberation.Number.Decimal

/-!
Why a decision tree has no evaluation, or a register of risks no ranking.
-/

namespace Deliberation

inductive RiskFault (R : Type) where
  | repeated
  | badProbability (probability : R)
  | badImpact (impact : R)

/-- Why decisions cannot be analyzed. Nodes are named by their path from the root. -/
inductive DecideError (R : Type) where
  | invalidProbability (node : String) (probability : R)
  | missingProbability (node : String)
  | wrongSum (node : String) (sum : R)
  | emptyNode (node : String)
  | invalidUtility (node : String)
  | invalidRisk (id : String) (fault : RiskFault R)

def RiskFault.message : RiskFault Float → String
  | .repeated => "duplicate id"
  | .badProbability probability =>
    let text := Decimal.plain probability
    s!"probability {text} outside [0, 1]"
  | .badImpact impact =>
    let text := Decimal.plain impact
    s!"impact {text} must be finite and non-negative"

def DecideError.message : DecideError Float → String
  | .invalidProbability node probability =>
    let text := Decimal.plain probability
    s!"node '{node}' has probability {text} outside [0, 1]"
  | .missingProbability node => s!"outcome '{node}' of a chance node has no probability"
  | .wrongSum node sum =>
    let text := Decimal.plain sum
    s!"outcome probabilities of chance node '{node}' sum to {text}, not 1"
  | .emptyNode node => s!"node '{node}' has no children"
  | .invalidUtility node => s!"utility of node '{node}' is not finite"
  | .invalidRisk id fault => s!"risk '{id}' is invalid: {fault.message}"

end Deliberation
