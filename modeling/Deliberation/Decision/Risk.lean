import Deliberation.Constraint.Basic
import Deliberation.Decision.Error

/-!
Registers of risks, ranked by exposure: how probable a risk is times how much it costs.
-/

namespace Deliberation

/-- A risk, with what is done about it. -/
structure Risk (R : Type) where
  id : String
  description : String
  probability : R
  impact : R
  mitigation : Option String
  deriving BEq

/-- The risks from the greatest exposure to the least, the sum of all exposures, and the risks about which
nothing is done. -/
structure RiskReport (R : Type) where
  ranked : List (Risk R)
  totalExposure : R
  unmitigated : List String

namespace Risk

variable {R : Type} [Scalar R]

/-- The mean cost. -/
def exposure (risk : Risk R) : R := risk.probability * risk.impact

def fault? (ids : List String) (risk : Risk R) : Option (RiskFault R) :=
  if risk.id ∈ ids then some .repeated
  else if !(decide (0 ≤ risk.probability) && decide (risk.probability ≤ 1)) then
    some (.badProbability risk.probability)
  else if !Scalar.isFinite risk.impact || decide (risk.impact < 0) then some (.badImpact risk.impact)
  else none

/-- Refuses the first risk that has a fault. -/
def validateAll : (ids : List String) → List (Risk R) → Except (DecideError R) Unit
  | _, [] => .ok ()
  | ids, risk :: rest =>
    match risk.fault? ids with
    | some fault => .error (.invalidRisk risk.id fault)
    | none => validateAll (risk.id :: ids) rest

/-- The report on a register; risks of equal exposure keep their order. -/
def assess (risks : List (Risk R)) : Except (DecideError R) (RiskReport R) := do
  validateAll [] risks
  let ranked := risks.mergeSort fun a b => Scalar.sortsBefore b.exposure a.exposure
  return {
    ranked
    totalExposure := Scalar.sum (ranked.map exposure)
    unmitigated := (ranked.filter (·.mitigation.isNone)).map Risk.id }

end Risk

end Deliberation
