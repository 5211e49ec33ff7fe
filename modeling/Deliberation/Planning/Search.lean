import Deliberation.Inference.Forward
import Deliberation.Planning.Heuristic
import Deliberation.Planning.Problem
import Std.Data.HashMap

/-!
Search for a plan through the states that actions lead to. The strategies differ in where the
frontier takes new states, in whether a state is visited again when it is reached in fewer steps,
and in when the goal is looked for.
-/

namespace Deliberation

/-- How to search: level by level, as deep as it goes, by estimate, or as deep as a bound. -/
inductive PlanStrategy where
  | breadthFirst
  | depthFirst
  | bestFirst
  | bounded
  deriving DecidableEq, Repr

/-- How to search for a plan, and when to give up. A time limit of zero is exceeded before the first
expansion; no other limit is, for a search has no clock. -/
structure PlanOptions where
  strategy : PlanStrategy
  heuristic : HeuristicKind
  depthBound : Option Nat
  nodeBudget : Nat
  timeLimit : Option Nat
  closeUnderRules : Bool
  deriving DecidableEq, Repr

def PlanOptions.standard : PlanOptions := ⟨.breadthFirst, .minimizeComplexity, none, 100000, none, true⟩

namespace PlanSearch

/-- The depth bound of bounded search where none is given. -/
def standardDepthBound : Nat := 32

/-- A state with the actions that led to it, the latest first, how many they are, and its rank: how soon it is
visited, its estimate, and its number in the order of generation. -/
structure Node where
  state : FactSet
  path : List Action
  depth : Nat
  priority : Nat
  estimate : Nat
  number : Nat

/-- Where new states go: behind those that wait, before them, or by rank. -/
inductive Placement where
  | behind
  | before
  | byRank
  deriving DecidableEq, Repr

/-- When the goal is looked for: in each visited state, before or after leaving out those that were reached in
fewer steps, or already in each new state. -/
inductive GoalTest where
  | onVisit
  | onFreshVisit
  | onGeneration
  deriving DecidableEq, Repr

/-- A search strategy in detail. -/
structure Discipline where
  placement : Placement
  /-- Whether a state is visited again when it is reached in fewer steps. -/
  reopens : Bool
  goalTest : GoalTest
  depthBound : Option Nat
  heuristic : Heuristic

def discipline (options : PlanOptions) (heuristic : Heuristic) : Discipline :=
  match options.strategy with
  | .breadthFirst => ⟨.behind, false, .onVisit, options.depthBound, heuristic⟩
  | .depthFirst => ⟨.before, false, .onVisit, options.depthBound, heuristic⟩
  | .bounded => ⟨.before, true, .onVisit, some (options.depthBound.getD standardDepthBound), heuristic⟩
  | .bestFirst =>
    ⟨.byRank, true, if heuristic.greedy then .onGeneration else .onFreshVisit, options.depthBound, heuristic⟩

/-- The problem as the search sees it. -/
structure Setting where
  operators : List Operator
  pool : List String
  initial : FactSet
  goal : FactSet
  discipline : Discipline

/-- Where a search stands: the nodes that wait, the fewest steps to each state reached, how many nodes there
were, the first of the deepest ones, and whether the depth bound has cut any off. -/
structure Progress where
  frontier : List Node
  reached : Std.HashMap FactSet Nat
  generated : Nat
  deepest : Node
  cut : Bool

def Setting.isGoal (setting : Setting) (node : Node) : Bool := node.state.includes setting.goal

/-- Whether a node's state has been reached in fewer steps. -/
def isStale (discipline : Discipline) (reached : Std.HashMap FactSet Nat) (node : Node) : Bool :=
  discipline.reopens && (match reached[node.state]? with
    | some depth => depth < node.depth
    | none => false)

/-- Whether a node is as deep as the bound allows. -/
def atBound (discipline : Discipline) (node : Node) : Bool :=
  match discipline.depthBound with
  | some bound => bound ≤ node.depth
  | none => false

/-- What the frontier offers next: a node that reaches the goal, a node to expand, or nothing. -/
inductive Visit where
  | goal (node : Node)
  | expand (node : Node) (rest : List Node) (cut : Bool)
  | done (cut : Bool)

/-- The first node of the frontier that has to be looked at: stale ones are left out, and so are those at the
depth bound, which is noted. -/
def visit (setting : Setting) (reached : Std.HashMap FactSet Nat) (cut : Bool) : List Node → Visit
  | [] => .done cut
  | node :: rest =>
    let d := setting.discipline
    let stale := isStale d reached node
    if d.goalTest = .onVisit ∧ setting.isGoal node then .goal node
    else if stale then visit setting reached cut rest
    else if d.goalTest = .onFreshVisit ∧ setting.isGoal node then .goal node
    else if atBound d node then visit setting reached true rest
    else .expand node rest cut

/-- Whether one node is visited before another: by priority, then by estimate, then by number. -/
def Node.precedes (a b : Node) : Bool :=
  a.priority < b.priority || (a.priority == b.priority &&
    (a.estimate < b.estimate || (a.estimate == b.estimate && a.number < b.number)))

/-- A node at its place among nodes ordered by rank. -/
def insertByRank (node : Node) : List Node → List Node
  | [] => [node]
  | first :: rest => if node.precedes first then node :: first :: rest else first :: insertByRank node rest

/-- New nodes, in the order of their generation, put into the frontier. -/
def place (placement : Placement) (children frontier : List Node) : List Node :=
  match placement with
  | .behind => frontier ++ children
  | .before => children ++ frontier
  | .byRank => children.foldl (fun frontier child => insertByRank child frontier) frontier

/-- The node of an action's outcome; only ranked frontiers need an estimate. -/
def child (setting : Setting) (parent : Node) (number : Nat) (action : Action) (state : FactSet) : Node :=
  let d := setting.discipline
  let estimate :=
    if d.placement = .byRank then d.heuristic.estimate setting.initial setting.goal state else 0
  let depth := parent.depth + 1
  ⟨state, action :: parent.path, depth, if d.heuristic.greedy then estimate else depth + estimate, estimate, number⟩

/-- Whether an outcome becomes a node: its state is new, or it is reached in fewer steps and states may be
visited again. -/
def isFresh (discipline : Discipline) (reached : Std.HashMap FactSet Nat) (state : FactSet) (depth : Nat) : Bool :=
  match reached[state]? with
  | none => true
  | some known => discipline.reopens && depth < known

/-- Takes note of a new node. -/
def Progress.add (progress : Progress) (node : Node) : Progress :=
  { progress with
    reached := progress.reached.insert node.state node.depth
    generated := progress.generated + 1
    deepest := if progress.deepest.depth < node.depth then node else progress.deepest }

/-- What comes of expanding a node: a new node that reaches the goal, or new nodes in order. -/
inductive Expansion where
  | goal (node : Node) (progress : Progress)
  | children (nodes : List Node) (progress : Progress)

/-- The nodes of outcomes that become one. -/
def generate (setting : Setting) (parent : Node) : List (Action × FactSet) → Progress → Expansion
  | [], progress => .children [] progress
  | (action, state) :: rest, progress =>
    if isFresh setting.discipline progress.reached state (parent.depth + 1) then
      let node := child setting parent progress.generated action state
      let progress := progress.add node
      if setting.discipline.goalTest = .onGeneration ∧ setting.isGoal node then .goal node progress
      else
        match generate setting parent rest progress with
        | .children nodes progress => .children (node :: nodes) progress
        | found => found
    else generate setting parent rest progress

def planOf (node : Node) (expanded generated : Nat) : Plan := ⟨node.path.reverse, node.state, expanded, generated⟩

def failed (reason : SearchFailure) (frontier expanded : Nat) (progress : Progress) : FailedSearch :=
  ⟨reason, frontier, expanded, progress.deepest.depth, progress.deepest.state⟩

/-- Visits nodes until one reaches the goal, none is left, or more than `remaining` have to be expanded. The
node that the budget does not cover is counted. -/
def run (setting : Setting) (timeIsUp : Bool) : (remaining expanded : Nat) → Progress → Except FailedSearch Plan
  | remaining, expanded, progress =>
    match visit setting progress.reached progress.cut progress.frontier with
    | .goal node => .ok (planOf node expanded progress.generated)
    | .done cut => .error (failed (if cut then .depthBound else .exhausted) 0 expanded progress)
    | .expand node rest cut =>
      match remaining with
      | 0 => .error (failed .budget (rest.length + 1) (expanded + 1) progress)
      | remaining + 1 =>
        if timeIsUp then .error (failed .budget (rest.length + 1) (expanded + 1) progress)
        else
          match generate setting node (successors setting.operators setting.pool node.state)
              { progress with cut } with
          | .goal node progress => .ok (planOf node (expanded + 1) progress.generated)
          | .children nodes progress =>
            run setting timeIsUp remaining (expanded + 1)
              { progress with frontier := place setting.discipline.placement nodes rest }

def start (setting : Setting) (options : PlanOptions) : Except FailedSearch Plan :=
  let root : Node :=
    let estimate := setting.discipline.heuristic.estimate setting.initial setting.goal setting.initial
    ⟨setting.initial, [], 0, estimate, estimate, 0⟩
  if setting.discipline.goalTest = .onGeneration ∧ setting.isGoal root then .ok (planOf root 0 1)
  else
    run setting (options.timeLimit == some 0) options.nodeBudget 0
      ⟨[root], Std.HashMap.ofList [(setting.initial, 0)], 1, root, false⟩

/-- The initial state, closed under the rules if the options say so. -/
def closedInitial (problem : PlanProblem) (options : PlanOptions) : Except InferError FactSet :=
  if options.closeUnderRules && !problem.rules.isEmpty then
    (Inference.forwardChain problem.initial problem.rules none).map Inference.facts
  else .ok problem.initial

/-- A plan for a problem under a given heuristic. -/
def planWith (problem : PlanProblem) (options : PlanOptions) (heuristic : Heuristic) : Except PlanError Plan := do
  (problem.operators.forM Operator.validate).mapError .operator
  let initial ← (closedInitial problem options).mapError .inference
  (start ⟨problem.operators, problem.pool, initial, problem.goal, discipline options heuristic⟩ options).mapError
    .noPlanFound

def plan (problem : PlanProblem) (options : PlanOptions) : Except PlanError Plan :=
  planWith problem options options.heuristic.heuristic

end PlanSearch

end Deliberation
