import Deliberation.Abort
import Deliberation.Expr.Printer

/-!
Why a linear program has no solution.
-/

namespace Deliberation

/-- What keeps an expression from being linear. -/
inductive LinearFault where
  | constantNotNumeric
  | metricNotNumeric
  | productOfVariables
  | divisor
  | unsupported
  | inequation
  | noComparison
  deriving DecidableEq, Repr

/-- Why a linear program has no solution. -/
inductive ProgramError (R : Type) where
  | unboundedVariable (name : String)
  | nonLinear (e : Expr R) (fault : LinearFault)
  | unknownVariable (name : String)
  | unsatisfiable (conflicts : List String)
  | unbounded
  | aborted (reason : Abort)

def LinearFault.message : LinearFault → String
  | .constantNotNumeric => "non-numeric constant"
  | .metricNotNumeric => "metric is not numeric"
  | .productOfVariables => "product of two variables"
  | .divisor => "division by a variable or zero"
  | .unsupported => "unsupported operator"
  | .inequation => "!= is not a linear constraint"
  | .noComparison => "expected a comparison"

def ProgramError.message : ProgramError Float → String
  | .unboundedVariable name => s!"'{name}' is not linear: bounds must be finite"
  | .nonLinear e fault => s!"'{e.text}' is not linear: {fault.message}"
  | .unknownVariable name => s!"linear program references unknown variable '{name}'"
  | .unsatisfiable conflicts =>
    let names := Text.joinWith ", " conflicts
    s!"no assignment satisfies all hard constraints; conflicting: {names}"
  | .unbounded => "objective is unbounded"
  | .aborted _ => ""

end Deliberation
