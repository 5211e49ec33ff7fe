import Deliberation.Proofs.Planning.Coverage

/-!
Shortest plans. Where states are ranked by the actions that led to them and an estimate of those that
are still needed, and the estimate never exceeds these, the plan that is found is a shortest one. Until
the search ends a node waits on every way to the goal, no later in rank than the way is long; states are
visited again when they are reached in fewer steps, so the estimate need not be consistent.
-/

namespace Deliberation.PlanSearch

/-- An estimate never exceeds the number of available actions by which the goal can be reached. -/
def Admissible (operators : List Operator) (pool : List String) (goal : FactSet) (estimate : FactSet → Nat) : Prop :=
  ∀ (state : FactSet) (steps : List GroundAction) (final : FactSet), Leads operators pool state steps final →
    (∀ fact ∈ goal, fact ∈ final) → estimate state ≤ steps.length

variable {setting : Setting} {reached : Std.HashMap FactSet Nat} {before after : Progress} {state final : FactSet}
  {frontier : List Node}

/-- The estimate of a state in a search. -/
def Setting.estimate (setting : Setting) (state : FactSet) : Nat :=
  setting.discipline.heuristic.estimate setting.initial setting.goal state

/-- Nodes wait by rank, and are visited again when they are reached in fewer steps; the rank of a node counts
its steps, and the goal is looked for in the nodes that are visited. -/
structure Discipline.Ranks (discipline : Discipline) : Prop where
  placement : discipline.placement = .byRank
  reopens : discipline.reopens = true
  goalTest : discipline.goalTest = .onFreshVisit
  eager : discipline.heuristic.greedy = false

theorem ranks_discipline {options : PlanOptions} {heuristic : Heuristic} (strategy : options.strategy = .bestFirst)
    (eager : heuristic.greedy = false) : (discipline options heuristic).Ranks := by
  constructor <;> simp [discipline, strategy, eager]

theorem heuristic_discipline (options : PlanOptions) (heuristic : Heuristic) :
    (discipline options heuristic).heuristic = heuristic := by
  cases strategy : options.strategy <;> simp [discipline, strategy]

/-- The nodes that wait are in order of rank, and the rank of each is its number of steps with its estimate. -/
structure Ordered (setting : Setting) (frontier : List Node) : Prop where
  sorted : frontier.Pairwise (·.priority ≤ ·.priority)
  ranked : ∀ node ∈ frontier, node.priority = node.depth + setting.estimate node.state

/-- A node that precedes another has no greater priority, and otherwise the other has no greater one. -/
theorem priority_le_of_precedes {a b : Node} (precedes : a.precedes b = true) : a.priority ≤ b.priority := by
  simp only [Node.precedes, Bool.or_eq_true, Bool.and_eq_true, decide_eq_true_eq, beq_iff_eq] at precedes
  omega

theorem priority_le_of_not_precedes {a b : Node} (behind : ¬ a.precedes b = true) : b.priority ≤ a.priority := by
  simp only [Node.precedes, Bool.or_eq_true, Bool.and_eq_true, decide_eq_true_eq, beq_iff_eq] at behind
  omega

theorem sorted_insertByRank {node : Node} (sorted : frontier.Pairwise (·.priority ≤ ·.priority)) :
    (insertByRank node frontier).Pairwise (·.priority ≤ ·.priority) := by
  induction frontier with
  | nil => simp [insertByRank]
  | cons first rest ih =>
    obtain ⟨least, tail⟩ := List.pairwise_cons.1 sorted
    rw [insertByRank]
    split
    · next precedes =>
      have below := priority_le_of_precedes precedes
      refine List.pairwise_cons.2 ⟨?_, sorted⟩
      intro other member
      rcases List.mem_cons.1 member with rfl | later
      · exact below
      · exact below.trans (least other later)
    · next behind =>
      refine List.pairwise_cons.2 ⟨?_, ih tail⟩
      intro other member
      rcases mem_insertByRank.1 member with rfl | later
      · exact priority_le_of_not_precedes behind
      · exact least other later

theorem sorted_place {children : List Node} (sorted : frontier.Pairwise (·.priority ≤ ·.priority)) :
    (place .byRank children frontier).Pairwise (·.priority ≤ ·.priority) := by
  rw [place]
  induction children generalizing frontier with
  | nil => exact sorted
  | cons first rest ih =>
    rw [List.foldl_cons]
    exact ih (sorted_insertByRank sorted)

theorem ChildOf.ranked (ranks : setting.discipline.Ranks) {parent node : Node} {outcomes : List (Action × FactSet)}
    (born : ChildOf setting parent outcomes node) : node.priority = node.depth + setting.estimate node.state := by
  cases born
  simp [PlanSearch.child, ranks.placement, ranks.eager, Setting.estimate]

theorem ordered_beginning : Ordered setting setting.beginning.frontier where
  sorted := List.pairwise_singleton ..
  ranked node member := by
    have same : node = setting.root := List.mem_singleton.1 member
    simp [same, Setting.root, Setting.estimate]

theorem Step.ordered (ranks : setting.discipline.Ranks) {skipped rest nodes : List Node} {node : Node}
    (step : Step setting before after skipped node rest nodes) (ordered : Ordered setting before.frontier) :
    Ordered setting after.frontier := by
  rw [step.split] at ordered
  have tail := (List.pairwise_cons.1 (List.pairwise_append.1 ordered.sorted).2.1).2
  constructor
  · rw [step.frontier, ranks.placement]
    exact sorted_place tail
  · intro other member
    rw [step.frontier, mem_place] at member
    rcases member with new | waits
    · exact (step.bears.born other new).ranked ranks
    · exact ordered.ranked other (by simp [waits])

theorem Stands.ordered (ranks : setting.discipline.Ranks) {expanded : Nat}
    (stands : Stands setting setting.beginning expanded after) : Ordered setting after.frontier := by
  induction stands with
  | start => exact ordered_beginning
  | advance _ advances ih =>
    obtain ⟨_, _, _, _, step⟩ := advances.step
    exact step.ordered ranks ih

/-- On a way to the goal, from a state that is reached, some node waits that is not stale; the steps to it
with its estimate are no more than those to the state and on along the way. -/
theorem Covers.exists_waiting (valid : ∀ op ∈ setting.operators, op.Valid) (reopens : setting.discipline.reopens = true)
    (unbounded : setting.discipline.depthBound = none)
    (admissible : Admissible setting.operators setting.pool setting.goal setting.estimate)
    (covers : Covers setting before) {steps : List GroundAction} {depth : Nat}
    (leads : Leads setting.operators setting.pool state steps final) (reaches : ∀ fact ∈ setting.goal, fact ∈ final)
    (entry : before.reached[state]? = some depth) :
    ∃ node ∈ before.frontier, before.reached[node.state]? = some node.depth ∧
      node.depth + setting.estimate node.state ≤ depth + steps.length := by
  have waiting {other : FactSet} {known : Nat} {rest : List GroundAction} {node : Node} (member : node ∈ before.frontier)
      (same : node.state = other) (deep : node.depth = known) (stored : before.reached[other]? = some known)
      (onward : Leads setting.operators setting.pool other rest final) :
      ∃ node ∈ before.frontier, before.reached[node.state]? = some node.depth ∧
        node.depth + setting.estimate node.state ≤ known + rest.length := by
    subst same deep
    have enough := admissible _ _ _ onward reaches
    exact ⟨node, member, stored, by omega⟩
  -- the induction is on the way; the state that comes first on it and is not expanded waits
  induction leads generalizing depth with
  | here state =>
    cases covers.covered state depth entry with
    | waiting member same deep => exact waiting member same deep entry (.here state)
    | expanded misses _ => exact absurd reaches misses
    | cutOff misses _ _ => exact absurd reaches misses
  | @step state final ground rest available later ih =>
    cases covers.covered state depth entry with
    | waiting member same deep => exact waiting member same deep entry (.step available later)
    | cutOff _ _ deep =>
      obtain ⟨bound, bounded, _⟩ := deep
      rw [unbounded] at bounded
      cases bounded
    | expanded _ spread =>
      obtain ⟨known, next, close⟩ := spread _ _ ((mem_successors valid).2 ⟨ground, available, rfl, rfl⟩)
      obtain ⟨node, member, stored, near⟩ := ih reaches next waiting
      have below := close (.inl reopens)
      refine ⟨node, member, stored, ?_⟩
      rw [List.length_cons]
      omega

/-- A node that is left out where there is no bound is not among the nodes that are reached in fewest steps. -/
theorem LeftOut.not_reached (unbounded : setting.discipline.depthBound = none) {cut : Bool} {node : Node}
    (leftOut : LeftOut setting reached cut node) : reached[node.state]? ≠ some node.depth := by
  intro entry
  cases leftOut with
  | stale stale =>
    obtain ⟨_, best, known, better⟩ := isStale_iff.1 stale
    have same : best = node.depth := Option.some.inj (known.symm.trans entry)
    omega
  | deep deep _ _ =>
    obtain ⟨bound, bounded, _⟩ := atBound_iff.1 deep
    rw [unbounded] at bounded
    cases bounded

/-- The node that reaches the goal when it is visited is no deeper than any way to the goal is long. -/
theorem Finds.shortest (valid : ∀ op ∈ setting.operators, op.Valid) (ranks : setting.discipline.Ranks)
    (unbounded : setting.discipline.depthBound = none)
    (admissible : Admissible setting.operators setting.pool setting.goal setting.estimate)
    (covers : Covers setting before) (ordered : Ordered setting before.frontier) {node : Node} {more generated : Nat}
    (finds : Finds setting before node more generated) {steps : List GroundAction}
    (leads : Leads setting.operators setting.pool setting.initial steps final)
    (reaches : ∀ fact ∈ setting.goal, fact ∈ final) : node.depth ≤ steps.length := by
  cases finds with
  | @generated parent node rest cut after visited expanded =>
    have expands := expands_generate setting parent (successors setting.operators setting.pool parent.state)
      { before with cut }
    rw [expanded] at expands
    cases expands with
    | goal early _ _ =>
      rw [ranks.goalTest] at early
      cases early
  | visited visited =>
    obtain ⟨skipped, rest, _, split, skips, _⟩ := reaches_of_visit visited
    obtain ⟨other, member, stored, near⟩ :=
      covers.exists_waiting valid ranks.reopens unbounded admissible leads reaches covers.origin
    rw [split] at member ordered
    have first : node.priority ≤ other.priority := by
      rcases List.mem_append.1 member with left | right
      · exact absurd stored ((skips.leftOut other left).not_reached unbounded)
      · rcases List.mem_cons.1 right with rfl | waits
        · exact Nat.le_refl _
        · exact (List.pairwise_cons.1 (List.pairwise_append.1 ordered.sorted).2.1).1 other waits
    have own := ordered.ranked node (by simp)
    have others := ordered.ranked other member
    omega

theorem Starts.shortest (valid : ∀ op ∈ setting.operators, op.Valid) (ranks : setting.discipline.Ranks)
    (unbounded : setting.discipline.depthBound = none)
    (admissible : Admissible setting.operators setting.pool setting.goal setting.estimate) {options : PlanOptions}
    {plan : Plan} (starts : Starts setting options (.ok plan)) {steps : List GroundAction}
    (leads : Leads setting.operators setting.pool setting.initial steps final)
    (reaches : ∀ fact ∈ setting.goal, fact ∈ final) : plan.actions.length ≤ steps.length := by
  cases starts with
  | reached early _ =>
    rw [ranks.goalTest] at early
    cases early
  | searched misses ends =>
    cases ends with
    | @found _ _ _ progress node stands finds =>
      have traced := (finds.traced valid (stands.traced valid)).1
      have short := finds.shortest valid ranks unbounded admissible (stands.covers misses) (stands.ordered ranks)
        leads reaches
      simpa [planOf, traced.depth] using short

/-- Best-first search under an admissible estimate, without a depth bound, returns a shortest plan: its
actions are available one after the other and lead to the goal, and no fewer do. -/
theorem planWith_shortest {problem : PlanProblem} {options : PlanOptions} {heuristic : Heuristic} {plan : Plan}
    (strategy : options.strategy = .bestFirst) (unbounded : options.depthBound = none)
    (eager : heuristic.greedy = false)
    (admissible : ∀ initial, closedInitial problem options = .ok initial →
      Admissible problem.operators problem.pool problem.goal (heuristic.estimate initial problem.goal))
    (found : planWith problem options heuristic = .ok plan) :
    ∃ initial, closedInitial problem options = .ok initial ∧
      (∃ steps, Leads problem.operators problem.pool initial steps plan.finalState ∧
        steps.map GroundAction.action = plan.actions ∧ ∀ fact ∈ problem.goal, fact ∈ plan.finalState) ∧
      ∀ steps final, Leads problem.operators problem.pool initial steps final →
        (∀ fact ∈ problem.goal, fact ∈ final) → plan.actions.length ≤ steps.length := by
  have outcome : planWith problem options heuristic = (Except.ok plan).mapError PlanError.noPlanFound := found
  obtain ⟨valid, initial, closed, starts⟩ := starts_of_planWith outcome
  have ranks : (searchFrom problem options heuristic initial).discipline.Ranks := ranks_discipline strategy eager
  have boundless : (searchFrom problem options heuristic initial).discipline.depthBound = none := by
    rw [searchFrom, depthBound_discipline, bound?, strategy]
    exact unbounded
  have estimates : (searchFrom problem options heuristic initial).estimate = heuristic.estimate initial problem.goal := by
    funext state
    rw [Setting.estimate, searchFrom, heuristic_discipline]
  have never : Admissible problem.operators problem.pool problem.goal
      (searchFrom problem options heuristic initial).estimate := estimates ▸ admissible initial closed
  have achieves := starts.achieves valid
  obtain ⟨steps, leads, names⟩ := achieves.leads
  refine ⟨initial, closed, ⟨steps, leads, names, achieves.reaches⟩, ?_⟩
  intro steps final leads reaches
  exact starts.shortest valid ranks boundless never leads reaches

/-- A corridor searched by the number of facts that are still unmet. -/
theorem planWith_corridor_ranked :
    planWith (.corridor "a" "b") { PlanOptions.standard with strategy := .bestFirst, nodeBudget := 1 }
      HeuristicKind.minimizeComplexity.heuristic =
        .ok ⟨[⟨"move", ["a", "b"]⟩], .ofList [⟨"at", ["b"]⟩, ⟨"adjacent", ["a", "b"]⟩], 1, 2⟩ := by
  let options : PlanOptions := { PlanOptions.standard with strategy := .bestFirst, nodeBudget := 1 }
  let corridor := searchFrom (.corridor "a" "b") options HeuristicKind.minimizeComplexity.heuristic
    (PlanProblem.corridor "a" "b").initial
  let beyond : FactSet := .ofList [⟨"at", ["b"]⟩, ⟨"adjacent", ["a", "b"]⟩]
  let node := child corridor corridor.root 1 ⟨"move", ["a", "b"]⟩ beyond
  have current : corridor.beginning.reached[corridor.initial]? = some 0 := reached_beginning.2 ⟨rfl, rfl⟩
  have fresh : corridor.beginning.reached[beyond]? = none := by
    refine Option.eq_none_iff_forall_ne_some.2 fun depth known => ?_
    have same : beyond = corridor.initial := (reached_beginning.1 known).1
    exact absurd same (by decide)
  have new : (corridor.beginning.add node).reached[node.state]? = some 1 := Std.HashMap.getElem?_insert_self
  have begun : planWith (.corridor "a" "b") options HeuristicKind.minimizeComplexity.heuristic =
      (run corridor false 1 0 corridor.beginning).mapError .noPlanFound := by rfl
  have unchanged : { corridor.beginning with cut := false } = corridor.beginning := rfl
  have visited : visit corridor corridor.beginning.reached corridor.beginning.cut corridor.beginning.frontier =
      .expand corridor.root [] false := by
    rw [show corridor.beginning.frontier = [corridor.root] from rfl, visit, isStale,
      show corridor.root.state = corridor.initial from rfl, current]
    rfl
  have outcomes : successors corridor.operators corridor.pool corridor.root.state =
      [(⟨"move", ["a", "b"]⟩, beyond)] := by decide
  have expanded : generate corridor corridor.root [(⟨"move", ["a", "b"]⟩, beyond)] corridor.beginning =
      .children [node] (corridor.beginning.add node) := by
    rw [generate, isFresh, fresh]
    rfl
  have placed : place corridor.discipline.placement [node] [] = [node] := rfl
  have found : visit corridor (corridor.beginning.add node).reached (corridor.beginning.add node).cut [node] =
      .goal node := by
    rw [visit, isStale, new]
    rfl
  rw [begun, run, visited]
  simp only [outcomes, unchanged, expanded, placed]
  rw [if_neg Bool.false_ne_true, run, found]
  rfl

/-- The one step through a corridor is the shortest way. -/
theorem corridor_shortest :
    ∃ plan, planWith (.corridor "a" "b") { PlanOptions.standard with strategy := .bestFirst, nodeBudget := 1 }
        HeuristicKind.minimizeComplexity.heuristic = .ok plan ∧ plan.actions = [⟨"move", ["a", "b"]⟩] ∧
      ∀ steps final, Leads (PlanProblem.corridor "a" "b").operators (PlanProblem.corridor "a" "b").pool
        (PlanProblem.corridor "a" "b").initial steps final →
          (∀ fact ∈ (PlanProblem.corridor "a" "b").goal, fact ∈ final) → plan.actions.length ≤ steps.length := by
  have admissible : ∀ initial, closedInitial (.corridor "a" "b")
      { PlanOptions.standard with strategy := .bestFirst, nodeBudget := 1 } = .ok initial →
        Admissible (PlanProblem.corridor "a" "b").operators (PlanProblem.corridor "a" "b").pool
          (PlanProblem.corridor "a" "b").goal
          (HeuristicKind.minimizeComplexity.heuristic.estimate initial (PlanProblem.corridor "a" "b").goal) := by
    intro _ _ state steps final leads reaches
    -- one fact can be unmet, and none is where the goal is reached without a step
    have few : unmetCount (PlanProblem.corridor "a" "b").goal state ≤ 1 := List.length_filter_le _ _
    cases leads with
    | here => simpa [HeuristicKind.heuristic, unmetCount, OrdSet.missing] using reaches
    | step _ _ => exact few.trans (by simp)
  obtain ⟨initial, closed, _, shortest⟩ := planWith_shortest rfl rfl rfl admissible planWith_corridor_ranked
  cases closed
  exact ⟨_, planWith_corridor_ranked, rfl, shortest⟩

end Deliberation.PlanSearch
