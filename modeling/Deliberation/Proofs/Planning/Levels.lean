import Deliberation.Proofs.Planning.Coverage
import Deliberation.Proofs.Planning.Replay

/-!
Plans that are found level by level. The nodes that wait are in order of depth, and every state on a way
to the goal waits, has its successors reached one level deeper, or lies at the bound; so the first node
that reaches the goal is no deeper than any way to the goal is long.
-/

namespace Deliberation.PlanSearch

variable {setting : Setting} {reached : Std.HashMap FactSet Nat} {before : Progress} {state final : FactSet}

/-- Nodes wait level by level, and the goal is looked for in the nodes that are visited. -/
structure Discipline.GoesByLevel (discipline : Discipline) : Prop where
  placement : discipline.placement = .behind
  goalTest : discipline.goalTest ≠ .onGeneration

theorem goesByLevel_discipline {options : PlanOptions} (heuristic : Heuristic)
    (strategy : options.strategy = .breadthFirst) : (discipline options heuristic).GoesByLevel := by
  constructor <;> simp [discipline, strategy]

/-- No way to the goal ends above a depth that neither a waiting node nor the bound lies above. -/
theorem le_of_covered (valid : ∀ op ∈ setting.operators, op.Valid) (measures : setting.discipline.Measures) {cut : Bool}
    {frontier : List Node} {least depth : Nat}
    (covered : ∀ state depth, reached[state]? = some depth → Covered setting frontier reached cut state depth)
    (waits : ∀ node ∈ frontier, least ≤ node.depth) (within : setting.discipline.Within least)
    {steps : List GroundAction} (leads : Leads setting.operators setting.pool state steps final)
    (reaches : ∀ fact ∈ setting.goal, fact ∈ final) (entry : reached[state]? = some depth) :
    least ≤ depth + steps.length := by
  induction leads generalizing depth with
  | here state =>
    cases covered state depth entry with
    | waiting member _ deep =>
      have above := waits _ member
      omega
    | expanded misses _ => exact absurd reaches misses
    | cutOff misses _ _ => exact absurd reaches misses
  | @step state final ground rest available later ih =>
    rw [List.length_cons]
    cases covered state depth entry with
    | waiting member _ deep =>
      have above := waits _ member
      omega
    | expanded _ spread =>
      obtain ⟨known, next, close⟩ := spread _ _ ((mem_successors valid).2 ⟨ground, available, rfl, rfl⟩)
      have near := close measures
      have onward := ih reaches next
      omega
    | cutOff _ _ deep =>
      obtain ⟨bound, bounded, below⟩ := deep
      have above := within bound bounded
      omega

/-- The node that reaches the goal when it is visited is no deeper than any way to the goal is long. -/
theorem Finds.depth_le (valid : ∀ op ∈ setting.operators, op.Valid) (byLevel : setting.discipline.GoesByLevel)
    (covers : Covers setting before) {node : Node} {more generated : Nat} (traced : Traced setting node)
    (finds : Finds setting before node more generated) {steps : List GroundAction}
    (leads : Leads setting.operators setting.pool setting.initial steps final)
    (reaches : ∀ fact ∈ setting.goal, fact ∈ final) : node.depth ≤ steps.length := by
  cases finds with
  | @generated parent node rest cut after visited expanded =>
    have expands := expands_generate setting parent (successors setting.operators setting.pool parent.state)
      { before with cut }
    rw [expanded] at expands
    cases expands with
    | goal early _ _ => exact absurd early byLevel.goalTest
  | visited visited =>
    obtain ⟨skipped, rest, cut, split, skips, _⟩ := reaches_of_visit visited
    have layered := covers.layered byLevel.placement
    rw [split] at layered
    have tail := List.pairwise_cons.1 (List.pairwise_append.1 layered.sorted).2.1
    have waits : ∀ other ∈ node :: rest, node.depth ≤ other.depth :=
      List.forall_mem_cons.2 ⟨Nat.le_refl _, tail.1⟩
    -- the nodes that are left out before it stand for states that are stale or at the bound
    have covered : ∀ state depth, before.reached[state]? = some depth →
        Covered setting (node :: rest) before.reached cut state depth := by
      intro state depth entry
      have known := covers.covered state depth entry
      rw [split] at known
      exact known.skip (fun early => absurd early byLevel.goalTest) entry skips
    have short := le_of_covered valid (.inr byLevel.placement) covered waits traced.within leads reaches covers.origin
    omega

theorem Starts.depth_le (valid : ∀ op ∈ setting.operators, op.Valid) (byLevel : setting.discipline.GoesByLevel)
    {options : PlanOptions} {plan : Plan} (starts : Starts setting options (.ok plan)) {steps : List GroundAction}
    (leads : Leads setting.operators setting.pool setting.initial steps final)
    (reaches : ∀ fact ∈ setting.goal, fact ∈ final) : plan.actions.length ≤ steps.length := by
  cases starts with
  | reached early _ => exact absurd early byLevel.goalTest
  | searched misses ends =>
    cases ends with
    | found stands finds =>
      have traced := (finds.traced valid (stands.traced valid)).1
      have short := finds.depth_le valid byLevel (stands.covers misses) traced leads reaches
      simpa [planOf, traced.depth] using short

/-- Breadth-first search returns a shortest plan, whatever the depth bound and the budget: its actions are
available one after the other and lead to the goal, and no fewer do. -/
theorem planWith_fewest {problem : PlanProblem} {options : PlanOptions} {heuristic : Heuristic} {plan : Plan}
    (strategy : options.strategy = .breadthFirst) (found : planWith problem options heuristic = .ok plan) :
    ∃ initial, closedInitial problem options = .ok initial ∧
      (∃ steps, Leads problem.operators problem.pool initial steps plan.finalState ∧
        steps.map GroundAction.action = plan.actions ∧ ∀ fact ∈ problem.goal, fact ∈ plan.finalState) ∧
      ∀ steps final, Leads problem.operators problem.pool initial steps final →
        (∀ fact ∈ problem.goal, fact ∈ final) → plan.actions.length ≤ steps.length := by
  have outcome : planWith problem options heuristic = (Except.ok plan).mapError PlanError.noPlanFound := found
  obtain ⟨valid, initial, closed, starts⟩ := starts_of_planWith outcome
  have byLevel : (searchFrom problem options heuristic initial).discipline.GoesByLevel :=
    goesByLevel_discipline heuristic strategy
  have achieves := starts.achieves valid
  obtain ⟨steps, leads, names⟩ := achieves.leads
  refine ⟨initial, closed, ⟨steps, leads, names, achieves.reaches⟩, ?_⟩
  intro steps final leads reaches
  exact starts.depth_le valid byLevel leads reaches

/-- The one step through a corridor is a shortest way: there is none without a step. -/
theorem corridor_fewest :
    ({ PlanOptions.standard with nodeBudget := 1 } : PlanOptions).strategy = .breadthFirst ∧ ∃ plan,
      planWith (.corridor "a" "b") { PlanOptions.standard with nodeBudget := 1 } HeuristicKind.satisfice.heuristic =
        .ok plan ∧ plan.actions = [⟨"move", ["a", "b"]⟩] ∧
      ∀ steps final, Leads (PlanProblem.corridor "a" "b").operators (PlanProblem.corridor "a" "b").pool
        (PlanProblem.corridor "a" "b").initial steps final →
          (∀ fact ∈ (PlanProblem.corridor "a" "b").goal, fact ∈ final) → 1 ≤ steps.length := by
  obtain ⟨initial, closed, _, fewest⟩ := planWith_fewest rfl planWith_corridor
  cases closed
  exact ⟨rfl, _, planWith_corridor, rfl, fewest⟩

end Deliberation.PlanSearch
