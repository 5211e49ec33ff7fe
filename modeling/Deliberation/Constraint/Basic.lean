import Deliberation.Expr.Eval
import Deliberation.Expr.Printer

/-!
Constraint problems over finite domains: variables with the values that they may take, predicates
that have to hold, and weighted predicates that only rank what satisfies the others.
-/

namespace Deliberation

/-- The values of a variable: a list, or the integers from `min` to `max` in steps. -/
inductive Domain (R : Type) where
  | listed (values : List (Value R))
  | range (min max step : Int64)
  deriving BEq

/-- A variable and what it may take. -/
structure Variable (R : Type) where
  name : String
  domain : Domain R
  deriving BEq

/-- A named predicate; the weight counts where the predicate need not hold. -/
structure Constraint (R : Type) where
  name : String
  predicate : Expr R
  weight : R
  deriving BEq

inductive DomainFault where
  | inverted (min max : Int64)
  | badStep (step : Int64)
  | tooMany (count : Int)

/-- Values of all variables, in the order of their declaration. -/
abbrev Assignment (R : Type) := List (String × Value R)

/-- An assignment that satisfies what has to hold, the total weight and the names of what does not hold, how
many values were tried, and how many satisfying assignments were met. -/
structure Solution (R : Type) where
  assignment : Assignment R
  cost : R
  violated : List String
  nodes : Nat
  solutionsSeen : Nat

/-- Why a constraint problem has no solution. -/
inductive SolveError (R : Type) where
  | unsatisfiable (conflicts : List String)
  | budgetExhausted (nodes : Nat) (best : Option (Solution R))
  | unknownVariable (constraint name : String)
  | duplicateVariable (name : String)
  | invalidDomain (name : String) (fault : DomainFault)
  | invalidWeight (constraint : String) (weight : R)
  | aborted (reason : Abort)

def DomainFault.message : DomainFault → String
  | .inverted min max => s!"min {min} exceeds max {max}"
  | .badStep step => s!"step {step} must be positive"
  | .tooMany count => s!"{count} values exceed the limit"

/-- The wording of an error; what is aborted has none. -/
def SolveError.message : SolveError Float → String
  | .unsatisfiable conflicts =>
    let names := Text.joinWith ", " conflicts
    s!"no assignment satisfies all hard constraints; conflicting: {names}"
  | .budgetExhausted nodes _ => s!"search budget of {nodes} nodes exhausted"
  | .unknownVariable constraint name => s!"constraint '{constraint}' references undeclared variable '{name}'"
  | .duplicateVariable name => s!"variable '{name}' is declared more than once"
  | .invalidDomain name fault => s!"variable '{name}' has an invalid domain: {fault.message}"
  | .invalidWeight constraint weight =>
    let text := Decimal.plain weight
    s!"soft constraint '{constraint}' has invalid weight {text}"
  | .aborted _ => ""

variable {R : Type} [Scalar R]

/-- How many values a range may have. -/
def Domain.greatestSize : Int := 1000000

/-- The values without those that are loosely equal to one before them. -/
def Domain.distinct (values : List (Value R)) : List (Value R) :=
  values.foldl (fun kept value => if kept.any (·.looselyEq value) then kept else kept ++ [value]) []

/-- The values of a variable's domain. The width of a range has to be a 64-bit integer, and so has the number
of its steps with the first value counted in. -/
def Domain.expand (name : String) : Domain R → Except (SolveError R) (List (Value R))
  | .listed values => .ok (distinct values)
  | .range min max step =>
    if max < min then .error (.invalidDomain name (.inverted min max))
    else if step ≤ 0 then .error (.invalidDomain name (.badStep step))
    else
      let width := max.toInt - min.toInt
      let count := width / step.toInt + 1
      if (int64? width).isNone ∨ (int64? count).isNone then .error (.aborted .rangeWidth)
      else if greatestSize < count then .error (.invalidDomain name (.tooMany count))
      else .ok ((List.range count.toNat).map fun k => .int (min + Int64.ofNat k * step))

def Constraint.vars (c : Constraint R) : List String := c.predicate.vars

def Constraint.holds (c : Constraint R) (env : Env R) : Except Abort (Option Bool) := c.predicate.holds env

/-- Constraints against values of the variables: what fails among those that have to hold, and the names and
total weight of what fails among the others. -/
structure Check (R : Type) where
  hardViolations : List String
  softViolations : List String
  cost : R

def Check.isFeasible (check : Check R) : Bool := check.hardViolations.isEmpty

/-- The constraints that fail under values that decide each of them. -/
def violations (env : Env R) : List (Constraint R) → Except (SolveError R) (List (Constraint R))
  | [] => .ok []
  | c :: rest => do
    match c.holds env with
    | .error reason => .error (.aborted reason)
    | .ok none => .error (.unknownVariable c.name ((c.vars.find? fun name => (env name).isNone).getD ""))
    | .ok (some true) => violations env rest
    | .ok (some false) => return c :: (← violations env rest)

def checkAssignment (env : Env R) (hard soft : List (Constraint R)) : Except (SolveError R) (Check R) := do
  let hardFailures ← violations env hard
  let softFailures ← violations env soft
  return {
    hardViolations := hardFailures.map Constraint.name
    softViolations := softFailures.map Constraint.name
    cost := Scalar.sum (softFailures.map Constraint.weight) }

/-- The first element of a list that equals one before it. -/
def firstRepeated? {α : Type} [DecidableEq α] : List α → List α → Option α
  | _, [] => none
  | seen, a :: rest => if a ∈ seen then some a else firstRepeated? (a :: seen) rest

/-- Refuses variables of one name, constraints over other variables, and weights that are infinite, undefined
or negative. -/
def validateConstraints (vars : List (Variable R)) (hard soft : List (Constraint R)) :
    Except (SolveError R) Unit := do
  let names := vars.map Variable.name
  match firstRepeated? [] names with
  | some name => throw (.duplicateVariable name)
  | none => pure ()
  for c in hard ++ soft do
    match c.vars.find? (· ∉ names) with
    | some name => throw (.unknownVariable c.name name)
    | none => pure ()
  for c in soft do
    if !Scalar.isFinite c.weight || c.weight < 0 then throw (.invalidWeight c.name c.weight)

end Deliberation
