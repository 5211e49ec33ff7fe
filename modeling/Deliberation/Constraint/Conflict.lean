import Deliberation.Constraint.Search

/-!
Conflicts: which constraints cannot hold together. Constraints that share no variable are looked at
apart, and from a group that cannot hold, every member is left out that is not needed for that.
-/

namespace Deliberation

variable {R : Type} [Scalar R]

/-- Constraints linked so far, each by its variables, with the first member of its group. -/
abbrev Linked := List (List String × Nat)

/-- Links one more constraint: the groups that share a variable with it become one. -/
def link (linked : Linked) (names : List String) (index : Nat) : Linked :=
  let met := (linked.filter fun (others, _) => others.any (names.contains ·)).map (·.2)
  match met.min? with
  | none => linked ++ [(names, index)]
  | some root =>
    (linked.map fun (others, group) => (others, if group ∈ met then root else group)) ++ [(names, root)]

/-- The first member of each constraint's group, where declared variables link constraints. -/
def groupRoots (vars : List (Variable R)) (constraints : List (Constraint R)) : List Nat :=
  let declared := vars.map Variable.name
  (constraints.zipIdx.foldl (fun linked (c, index) =>
    link linked (c.vars.filter declared.contains) index) []).map (·.2)

/-- The groups of constraints that variables link, each in order and by the order of their first members. -/
def components (vars : List (Variable R)) (constraints : List (Constraint R)) : List (List Nat) :=
  let roots := groupRoots vars constraints
  (roots.zipIdx.filter fun (root, index) => root = index).map fun (root, _) =>
    (roots.zipIdx.filter fun (other, _) => other = root).map (·.2)

/-- Whether constraints can hold together, as far as the budget tells; only their own variables count. -/
def satisfiable? (vars : List (Variable R)) (options : SolveOptions) (constraints : List (Constraint R)) :
    Except (SolveError R) (Option Bool) := do
  let scope := vars.filter fun v => constraints.any fun c => c.vars.contains v.name
  let problem ← ConstraintSearch.Problem.of scope constraints []
  match ConstraintSearch.search problem options with
  | .error reason => .error (.aborted reason)
  | .ok (.found _) => return some true
  | .ok (.exhausted _) => return some false
  | .ok (.overBudget _) => return none

/-- Leaves out every member of `rest` without which what is kept still cannot hold. -/
def shrink (vars : List (Variable R)) (options : SolveOptions) :
    (kept rest : List (Constraint R)) → Except (SolveError R) (List (Constraint R))
  | kept, [] => .ok kept
  | kept, c :: rest => do
    if (← satisfiable? vars options (kept ++ rest)) == some false then shrink vars options kept rest
    else shrink vars options (kept ++ [c]) rest

/-- The needed members of the first group that cannot hold, if one is found. -/
def firstConflict? (vars : List (Variable R)) (constraints : List (Constraint R)) (options : SolveOptions) :
    List (List Nat) → Except (SolveError R) (Option (List (Constraint R)))
  | [] => .ok none
  | group :: groups => do
    let members := group.filterMap (constraints[·]?)
    if (← satisfiable? vars options members) == some false then
      return some (← shrink vars options [] members)
    else firstConflict? vars constraints options groups

/-- The names of constraints that cannot hold together, none of which can be left out; the names of all where
no group is found. -/
def minimalConflict (vars : List (Variable R)) (constraints : List (Constraint R)) (options : SolveOptions) :
    Except (SolveError R) (List String) := do
  let conflict ← firstConflict? vars constraints { options with strategy := .firstSolution }
    (components vars constraints)
  return (conflict.getD constraints).map Constraint.name

/-- The best assignment that satisfies every constraint of `hard`, judged by what fails of `soft`. -/
def solve (vars : List (Variable R)) (hard soft : List (Constraint R)) (options : SolveOptions) :
    Except (SolveError R) (Solution R) := do
  validateConstraints vars hard soft
  let problem ← ConstraintSearch.Problem.of vars hard soft
  match ConstraintSearch.search problem options with
  | .error reason => .error (.aborted reason)
  | .ok (.found solution) => return solution
  | .ok (.overBudget best) => .error (.budgetExhausted options.nodeBudget best)
  | .ok (.exhausted _) => .error (.unsatisfiable (← minimalConflict vars hard options))

end Deliberation
