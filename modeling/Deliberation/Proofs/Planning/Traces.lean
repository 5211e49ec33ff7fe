import Deliberation.Proofs.Planning.Exploration
import Deliberation.Proofs.Planning.Successors

/-!
Where nodes come from. The path of a node that waits names available actions that lead from the
initial state to its state, so that a plan does what it says.
-/

namespace Deliberation

theorem Leads.extend {operators : List Operator} {pool : List String} {state middle : FactSet}
    {steps : List GroundAction} {ground : GroundAction} (leads : Leads operators pool state steps middle)
    (available : Available operators pool middle ground) :
    Leads operators pool state (steps ++ [ground]) (ground.apply middle) := by
  induction leads with
  | here state => exact .step available (.here _)
  | step first _ ih => exact .step first (ih available)

namespace PlanSearch

variable {setting : Setting} {node : Node}

/-- The path of a node leads to its state, and is as long as the node is deep. -/
structure Traced (setting : Setting) (node : Node) : Prop where
  leads : ∃ steps, Leads setting.operators setting.pool setting.initial steps node.state ∧
    steps.map GroundAction.action = node.path.reverse
  depth : node.path.length = node.depth
  within : setting.discipline.Within node.depth

theorem traced_root : Traced setting setting.root := ⟨⟨[], .here _, rfl⟩, rfl, fun _ _ => Nat.zero_le _⟩

theorem ChildOf.traced (valid : ∀ op ∈ setting.operators, op.Valid) {parent : Node} (traced : Traced setting parent)
    (shallow : atBound setting.discipline parent = false)
    (born : ChildOf setting parent (successors setting.operators setting.pool parent.state) node) :
    Traced setting node := by
  cases born with
  | @child action state number outcome =>
  obtain ⟨steps, leads, names⟩ := traced.leads
  obtain ⟨ground, available, rfl, rfl⟩ := (mem_successors valid).1 outcome
  refine ⟨⟨steps ++ [ground], leads.extend available, ?_⟩, ?_, fun bound bounded => ?_⟩
  · simp [PlanSearch.child, names]
  · simp [PlanSearch.child, traced.depth]
  · refine Nat.lt_of_not_le fun deep => ?_
    rw [atBound_iff.2 ⟨bound, bounded, deep⟩] at shallow
    cases shallow

theorem Step.traced (valid : ∀ op ∈ setting.operators, op.Valid) {before after : Progress} {skipped rest nodes : List Node}
    (step : Step setting before after skipped node rest nodes) (traced : ∀ node ∈ before.frontier, Traced setting node) :
    ∀ node ∈ after.frontier, Traced setting node := by
  rw [step.split] at traced
  intro other member
  rw [step.frontier, mem_place] at member
  rcases member with new | waiting
  · have parent := traced node (List.mem_append_cons_self ..)
    exact (step.bears.born other new).traced valid parent step.due.shallow
  · exact traced other (by simp [waiting])

theorem Finds.traced (valid : ∀ op ∈ setting.operators, op.Valid) {progress : Progress} {more generated : Nat}
    (traced : ∀ node ∈ progress.frontier, Traced setting node) (finds : Finds setting progress node more generated) :
    Traced setting node ∧ setting.isGoal node = true := by
  cases finds with
  | visited visited =>
    obtain ⟨_, _, _, split, _, reaches⟩ := reaches_of_visit visited
    exact ⟨traced node (split ▸ List.mem_append_cons_self ..), reaches⟩
  | @generated parent node rest cut after visited expanded =>
    obtain ⟨_, split, _, due⟩ := due_of_visit visited
    have expands := expands_generate setting parent (successors setting.operators setting.pool parent.state)
      { progress with cut }
    rw [expanded] at expands
    cases expands with
    | goal early born reaches =>
      have waiting := traced parent (split ▸ List.mem_append_cons_self ..)
      exact ⟨born.traced valid waiting due.shallow, reaches⟩

/-- The nodes that wait are traced wherever the search stands. -/
theorem Stands.traced (valid : ∀ op ∈ setting.operators, op.Valid) {progress : Progress} {expanded : Nat}
    (stands : Stands setting setting.beginning expanded progress) : ∀ node ∈ progress.frontier, Traced setting node := by
  induction stands with
  | start => simp [Setting.beginning, traced_root]
  | advance _ advances ih =>
    obtain ⟨_, _, _, _, step⟩ := advances.step
    exact step.traced valid ih

/-- A plan names available actions, no more than the bound allows, that lead to its final state, which reaches
the goal. -/
structure Achieves (setting : Setting) (plan : Plan) : Prop where
  leads : ∃ steps, Leads setting.operators setting.pool setting.initial steps plan.finalState ∧
    steps.map GroundAction.action = plan.actions
  within : setting.discipline.Within plan.actions.length
  reaches : ∀ fact ∈ setting.goal, fact ∈ plan.finalState

theorem Traced.achieves (traced : Traced setting node) (reaches : setting.isGoal node = true) {expanded generated : Nat} :
    Achieves setting (planOf node expanded generated) where
  leads := traced.leads
  within := by simpa [planOf, traced.depth] using traced.within
  reaches := isGoal_iff.1 reaches

theorem Starts.achieves (valid : ∀ op ∈ setting.operators, op.Valid) {options : PlanOptions} {plan : Plan}
    (starts : Starts setting options (.ok plan)) : Achieves setting plan := by
  cases starts with
  | reached early reaches => exact traced_root.achieves reaches
  | searched misses ends =>
    cases ends with
    | found stands finds =>
      obtain ⟨traced, reaches⟩ := finds.traced valid (stands.traced valid)
      exact traced.achieves reaches

/-- A plan that is found achieves the goal from the initial state that the search starts from. -/
theorem achieves_of_planWith {problem : PlanProblem} {options : PlanOptions} {heuristic : Heuristic} {plan : Plan}
    (found : planWith problem options heuristic = .ok plan) : (∀ op ∈ problem.operators, op.Valid) ∧
      ∃ initial, closedInitial problem options = .ok initial ∧
        Achieves (searchFrom problem options heuristic initial) plan := by
  have outcome : planWith problem options heuristic = (Except.ok plan).mapError PlanError.noPlanFound := found
  obtain ⟨valid, initial, closed, starts⟩ := starts_of_planWith outcome
  exact ⟨valid, initial, closed, starts.achieves valid⟩

end PlanSearch

end Deliberation
