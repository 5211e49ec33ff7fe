import Deliberation.Constraint.Basic
import Deliberation.Linear.Simplex
import Deliberation.NameMap

/-!
Linear programs: a linear objective over variables with bounds, subject to linear constraints. A
program without a solution names constraints that cannot hold together within the bounds, none of
which can be left out.
-/

namespace Deliberation

structure ProgramVariable (R : Type) where
  name : String
  lower : R
  upper : Option R
  deriving BEq

structure LinearProgram (R : Type) where
  vars : List (ProgramVariable R)
  objective : Expr R
  constraints : List (Constraint R)
  deriving BEq

/-- Whether the objective is to be as small or as great as possible. -/
inductive Sense where
  | minimize
  | maximize
  deriving DecidableEq, Repr

/-- The best value of the objective, where it is reached, and after how many pivots. -/
structure ProgramSolution (R : Type) where
  sense : Sense
  objective : R
  values : NameMap R
  pivots : Nat

namespace LinearProgram

variable {R : Type} [Scalar R]

/-- A program whose expressions have become linear forms and rows. -/
structure Compiled (R : Type) where
  vars : List (ProgramVariable R)
  sense : Sense
  objective : LinearForm R
  /-- The names of the constraints with their rows. -/
  constraints : List (String × List (LinearRow R))

/-- Whether the bounds of a variable are finite. -/
def hasFiniteBounds (v : ProgramVariable R) : Bool := Scalar.isFinite v.lower && v.upper.all Scalar.isFinite

/-- The linear forms of a program, where other names than its variables count as constants. -/
def compile (program : LinearProgram R) (sense : Sense) (metrics : Env R) :
    Except (ProgramError R) (Compiled R) := do
  match program.vars.find? (!hasFiniteBounds ·) with
  | some v => throw (.unboundedVariable v.name)
  | none => pure ()
  let scope : LinearScope R := ⟨program.vars.map ProgramVariable.name, metrics⟩
  let objective ← scope.linear program.objective
  let constraints ← program.constraints.mapM fun c => do return (c.name, ← scope.rows c.predicate)
  return ⟨program.vars, sense, objective, constraints⟩

namespace Compiled

def lower (program : Compiled R) : List R := program.vars.map ProgramVariable.lower

/-- The row of a variable's distance from its lower bound. -/
def upperRow? (program : Compiled R) (v : ProgramVariable R) (column : Nat) : Option (LinearRow R) :=
  v.upper.map fun upper =>
    ⟨(List.replicate program.vars.length 0).set column 1, .le, upper - v.lower⟩

/-- The rows over the distances of the variables from their lower bounds: those of chosen constraints, then
the upper bounds. -/
def shiftedRows (program : Compiled R) (chosen : List (String × List (LinearRow R))) : List (LinearRow R) :=
  let shifted := (chosen.flatMap (·.2)).map fun row =>
    { row with bound := row.bound - dot row.coefficients program.lower }
  shifted ++ program.vars.zipIdx.filterMap fun (v, column) => program.upperRow? v column

/-- The first table of the simplex method for chosen constraints. -/
def table (program : Compiled R) (chosen : List (String × List (LinearRow R))) : Simplex.Table R :=
  Simplex.tableOf program.vars.length (program.shiftedRows chosen)

/-- Whether chosen constraints can hold within the bounds. -/
def feasible (program : Compiled R) (tolerance : SimplexTolerance R)
    (chosen : List (String × List (LinearRow R))) : Except Abort Bool :=
  (Simplex.phaseOne tolerance (program.table chosen)).map Option.isSome

/-- Leaves out every constraint of `rest` without which what is kept still cannot hold. -/
def shrink (program : Compiled R) (tolerance : SimplexTolerance R) :
    (kept rest : List (String × List (LinearRow R))) → Except Abort (List (String × List (LinearRow R)))
  | kept, [] => .ok kept
  | kept, c :: rest => do
    if ← program.feasible tolerance (kept ++ rest) then program.shrink tolerance (kept ++ [c]) rest
    else program.shrink tolerance kept rest

/-- The cost of the columns, which is to be as small as possible. -/
def cost (program : Compiled R) (table : Simplex.Table R) : List R :=
  let coefficients :=
    match program.sense with
    | .minimize => program.objective.coefficients
    | .maximize => program.objective.coefficients.map (-·)
  Simplex.padTo table.width coefficients

/-- The solution that the last table shows. -/
def solutionOf (program : Compiled R) (table : Simplex.Table R) : ProgramSolution R :=
  let values := List.zipWith (· + ·) (table.solution program.vars.length) program.lower
  { sense := program.sense
    objective := program.objective.value values
    values := .ofList ((program.vars.map ProgramVariable.name).zip values)
    pivots := table.pivots }

/-- The best solution of a compiled program. -/
def optimize (program : Compiled R) (tolerance : SimplexTolerance R) :
    Except (ProgramError R) (ProgramSolution R) := do
  match program.vars.find? fun v => v.upper.any (· < v.lower) with
  | some v => throw (.unsatisfiable ["bounds of " ++ v.name])
  | none => pure ()
  match ← (Simplex.phaseOne tolerance (program.table program.constraints)).mapError .aborted with
  | none =>
    let conflict ← (program.shrink tolerance [] program.constraints).mapError .aborted
    throw (.unsatisfiable (conflict.map (·.1)))
  | some table =>
    match ← (Simplex.phaseTwo tolerance (program.cost table) table).mapError .aborted with
    | none => throw .unbounded
    | some table => return program.solutionOf table

end Compiled

/-- The best solution of a program, where other names than its variables count as constants. -/
def optimize (program : LinearProgram R) (tolerance : SimplexTolerance R) (sense : Sense) (metrics : Env R) :
    Except (ProgramError R) (ProgramSolution R) := do
  (← program.compile sense metrics).optimize tolerance

end LinearProgram

end Deliberation
