import Deliberation.Decision.Error
import Deliberation.Number.Scalar

/-!
Decision trees, evaluated from the leaves up: a chance node is worth the mean of its outcomes, and a
decision node its best option, of which the first one declared is chosen.
-/

namespace Deliberation

mutual

/-- A node: a choice among options, a draw among outcomes, or an end with a utility. -/
inductive DecisionNode (R : Type) where
  | decision (options : List (Branch R))
  | chance (outcomes : List (Branch R))
  | terminal (utility : R)

/-- A node under a name. The probability is that of an outcome; of an option it is a prior, which has no effect. -/
inductive Branch (R : Type) where
  | mk (name : String) (probability : Option R) (node : DecisionNode R)

end

mutual

/-- Whether two nodes are equal; numbers are compared as numbers. -/
def DecisionNode.same {R : Type} [BEq R] : DecisionNode R → DecisionNode R → Bool
  | .decision a, .decision b => Branch.sameAll a b
  | .chance a, .chance b => Branch.sameAll a b
  | .terminal a, .terminal b => a == b
  | _, _ => false

def Branch.sameAll {R : Type} [BEq R] : List (Branch R) → List (Branch R) → Bool
  | [], [] => true
  | .mk name p node :: rest, .mk name' p' node' :: rest' =>
    name == name' && p == p' && node.same node' && Branch.sameAll rest rest'
  | _, _ => false

end

instance {R : Type} [BEq R] : BEq (DecisionNode R) := ⟨DecisionNode.same⟩

/-- The choice at a decision node. -/
structure PolicyStep (R : Type) where
  decision : String
  choice : String
  expectedUtility : R

/-- What a node is worth, and the choices at the decision nodes from it down, depth first. -/
structure NodeValue (R : Type) where
  utility : R
  policy : List (PolicyStep R)

/-- A branch with what its node is worth. -/
structure BranchValue (R : Type) where
  name : String
  probability : Option R
  value : NodeValue R

/-- What a tree is worth, the choices that make it so, and the options of its root. -/
structure Evaluation (R : Type) where
  bestChoice : Option String
  expectedUtility : R
  options : List (BranchValue R)
  policy : List (PolicyStep R)

namespace DecisionNode

variable {R : Type} [Scalar R]

/-- By how much the probabilities of outcomes may miss one. -/
def probabilityTolerance : R := 1e-6

def isProbability (p : R) : Bool := decide (0 ≤ p) && decide (p ≤ 1)

/-- Refuses a prior that is no probability. -/
def checkPrior (path : String) : Option R → Except (DecideError R) Unit
  | some p => if isProbability p then .ok () else .error (.invalidProbability path p)
  | none => .ok ()

/-- Refuses an outcome without a probability. -/
def checkOutcome (path : String) : Option R → Except (DecideError R) Unit
  | some p => checkPrior path (some p)
  | none => .error (.missingProbability path)

def childPath (path name : String) : String := path ++ "/" ++ name

/-- The first of the branches that are worth most. -/
def best? (branches : List (BranchValue R)) : Option (BranchValue R) :=
  branches.foldl (fun best branch =>
    match best with
    | none => some branch
    | some top => if top.value.utility < branch.value.utility then some branch else some top) none

/-- The mean of outcomes whose probabilities add up to one. -/
def mean (path : String) (outcomes : List (BranchValue R)) : Except (DecideError R) (NodeValue R) :=
  let probability (b : BranchValue R) : R := b.probability.getD 0
  let sum := Scalar.sum (outcomes.map probability)
  if probabilityTolerance < Scalar.abs (sum - 1) then .error (.wrongSum path sum)
  else
    .ok ⟨Scalar.sum (outcomes.map fun b => probability b * b.value.utility), outcomes.flatMap (·.value.policy)⟩

/-- The best of options, with the choice of it before the choices further down. -/
def choose (path : String) (options : List (BranchValue R)) : Except (DecideError R) (NodeValue R) :=
  match best? options with
  | none => .error (.emptyNode path)
  | some best =>
    .ok ⟨best.value.utility,
      ⟨path, best.name, best.value.utility⟩ :: options.flatMap (·.value.policy)⟩

mutual

def value (path : String) : DecisionNode R → Except (DecideError R) (NodeValue R)
  | .terminal utility =>
    if Scalar.isFinite utility then .ok ⟨utility, []⟩ else .error (.invalidUtility path)
  | .chance outcomes =>
    if outcomes.isEmpty then .error (.emptyNode path)
    else do mean path (← branchValues checkOutcome path outcomes)
  | .decision options => do choose path (← branchValues checkPrior path options)

/-- What branches are worth, each looked at after a check of its probability. -/
def branchValues (check : String → Option R → Except (DecideError R) Unit) (path : String) :
    List (Branch R) → Except (DecideError R) (List (BranchValue R))
  | [] => .ok []
  | .mk name probability node :: rest => do
    check (childPath path name) probability
    let value ← node.value (childPath path name)
    return ⟨name, probability, value⟩ :: (← branchValues check path rest)

end

def rootPath : String := "root"

/-- What a tree is worth, and how. -/
def evaluate (tree : DecisionNode R) : Except (DecideError R) (Evaluation R) := do
  let value ← tree.value rootPath
  match tree with
  | .decision options =>
    let options ← branchValues checkPrior rootPath options
    return ⟨value.policy.head?.map PolicyStep.choice, value.utility, options, value.policy⟩
  | _ => return ⟨none, value.utility, [], value.policy⟩

end DecisionNode

end Deliberation
