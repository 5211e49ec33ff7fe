import Deliberation.Number.Scalar

/-!
What a schedule is made of: activities with their durations, demands and predecessors, resources with
their capacities, and links between activities that are declared apart.
-/

namespace Deliberation

/-- A quantity of a resource that is needed, and a skill that the resource must have. -/
structure Demand (R : Type) where
  resource : String
  quantity : R
  skill : Option String
  deriving BEq

/-- A value of a discrete distribution and its weight. -/
structure Outcome (R : Type) where
  value : R
  weight : R
  deriving BEq

inductive Distribution (R : Type) where
  | fixed (value : R)
  | uniform (min max : R)
  | triangular (min mode max : R)
  | discrete (outcomes : List (Outcome R))
  deriving BEq

/-- A piece of work. One that is not parallel shares no time with any other. -/
structure Activity (R : Type) where
  name : String
  duration : R
  distribution : Option (Distribution R)
  demands : List (Demand R)
  predecessors : List String
  parallel : Bool
  deriving BEq

/-- A resource, of which the capacity is there at any time if it is renewable and once if it is not. -/
structure Resource (R : Type) where
  name : String
  capacity : R
  renewable : Bool
  skills : List String
  deriving BEq

/-- A link: the second activity starts when the first has finished, or later. -/
structure Precedence where
  before : String
  after : String
  deriving DecidableEq, Repr

variable {R : Type} [Scalar R]

/-- By how much times and quantities may differ and still count as equal. -/
def tolerance : R := 1e-9

/-- A total with one more quantity: of a resource that has a total, or of a new one. -/
def addQuantity (totals : List (String × R)) (demand : Demand R) : List (String × R) :=
  if totals.any (·.1 = demand.resource) then
    totals.map fun (name, total) => (name, if name = demand.resource then total + demand.quantity else total)
  else totals ++ [(demand.resource, 0 + demand.quantity)]

/-- How much of each resource an activity needs, in the order in which its demands first name them. -/
def Activity.totals (activity : Activity R) : List (String × R) := activity.demands.foldl addQuantity []

end Deliberation
