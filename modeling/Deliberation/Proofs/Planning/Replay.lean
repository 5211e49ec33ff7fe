import Deliberation.Planning.Replay
import Deliberation.Proofs.Planning.Traces

/-!
Plans that are found and plans that are accepted. Actions that are available one after the other can be
replayed, where no two operators share a name; so the validation of a plan that was found succeeds,
and ends in its final state.
-/

namespace Deliberation

variable {operators : List Operator} {pool : List String}

/-- Where no two operators share a name, the first one of an operator's name is that operator. -/
theorem Operator.find?_name (distinct : (operators.map Operator.name).Nodup) {op : Operator} (member : op ∈ operators) :
    operators.find? (·.name = op.name) = some op := Lists.find?_key distinct member

/-- Available actions can be replayed. -/
theorem Leads.replay (distinct : (operators.map Operator.name).Nodup) (valid : ∀ op ∈ operators, op.Valid)
    {state final : FactSet} {steps : List GroundAction} (leads : Leads operators pool state steps final) (step : Nat) :
    Plan.replay operators step (steps.map GroundAction.action) state = .ok final := by
  induction leads generalizing step with
  | here state => rfl
  | @step state final ground rest available later ih =>
    obtain ⟨op, member, bindings, grounds, applicable, _⟩ := available
    have named : ground.action.operator = op.name := (Operator.ground?_eq_some_iff.1 grounds).operator
    have made : op.instantiate ground.action.args = .ok ground := (valid op member).instantiate_args grounds
    have met : ground.unmet state = [] := GroundAction.unmet_eq_nil_iff.2 applicable
    rw [List.map_cons, Plan.replay, named, Operator.find?_name distinct member]
    simp only [made, Except.mapError, bind, Except.bind, met]
    exact ih (step + 1)

theorem Plan.validate_eq_ok {initial goal final : FactSet} {actions : List Action}
    (replayed : replay operators 1 actions initial = .ok final) (reaches : ∀ fact ∈ goal, fact ∈ final) :
    validate initial goal operators actions = .ok final := by
  have complete : final.missing goal = [] := by simpa [OrdSet.missing] using reaches
  simp [validate, replayed, complete, bind, Except.bind, pure, Except.pure]

/-- A plan that is found is accepted: replayed from the same initial state, it ends in its final state, which
has every fact of the goal. -/
theorem PlanSearch.validate_of_planWith {problem : PlanProblem} {options : PlanOptions} {heuristic : Heuristic}
    {plan : Plan} (distinct : (problem.operators.map Operator.name).Nodup)
    (found : planWith problem options heuristic = .ok plan) :
    ∃ initial, closedInitial problem options = .ok initial ∧
      Plan.validate initial problem.goal problem.operators plan.actions = .ok plan.finalState ∧
      ∀ fact ∈ problem.goal, fact ∈ plan.finalState := by
  obtain ⟨valid, initial, closed, achieves⟩ := achieves_of_planWith found
  obtain ⟨steps, leads, names⟩ := achieves.leads
  have replayed : Plan.replay problem.operators 1 plan.actions initial = .ok plan.finalState :=
    names ▸ leads.replay distinct valid 1
  exact ⟨initial, closed, Plan.validate_eq_ok replayed achieves.reaches, achieves.reaches⟩

namespace PlanSearch

/-- Where there is one step from the initial state, which is not the goal, a search level by level goes on
with the node that it leads to. -/
theorem planWith_of_only_step {problem : PlanProblem} {options : PlanOptions} {heuristic : Heuristic} {initial next : FactSet}
    {action : Action} {setting : Setting} {remaining : Nat} (searched : setting = searchFrom problem options heuristic initial)
    (breadthFirst : setting.discipline = ⟨.behind, false, .onVisit, none, heuristic⟩)
    (budget : options.nodeBudget = remaining + 1) (unlimited : options.timeLimit = none)
    (valid : problem.operators.forM Operator.validate = .ok ()) (closed : closedInitial problem options = .ok initial)
    (distant : initial.includes problem.goal = false)
    (outcomes : successors problem.operators problem.pool initial = [(action, next)]) (moved : next ≠ initial) :
    planWith problem options heuristic =
      (run setting false remaining 1 { setting.beginning.add (child setting setting.root 1 action next) with
        frontier := [child setting setting.root 1 action next] }).mapError .noPlanFound := by
  have begun : planWith problem options heuristic =
      (run setting false options.nodeBudget 0 setting.beginning).mapError .noPlanFound := by
    have late : ¬ (setting.discipline.goalTest = .onGeneration ∧ setting.isGoal setting.root) := by simp [breadthFirst]
    rw [planWith_eq_start valid closed, ← searched, start_eq, if_neg late, unlimited]
    rfl
  have initially : setting.initial = initial := by rw [searched, searchFrom]
  have fresh : setting.beginning.reached[next]? = none := by
    refine Option.eq_none_iff_forall_ne_some.2 fun depth known => ?_
    exact moved ((reached_beginning.1 known).1.trans initially)
  have visited : visit setting setting.beginning.reached setting.beginning.cut setting.beginning.frontier =
      .expand setting.root [] false := by
    have missed : setting.isGoal setting.root = false := by
      subst searched
      exact distant
    simp [Setting.beginning, visit, missed, isStale, atBound, breadthFirst]
  have offered : successors setting.operators setting.pool setting.root.state = [(action, next)] := by
    subst searched
    exact outcomes
  have expanded : generate setting setting.root [(action, next)] setting.beginning =
      .children [child setting setting.root 1 action next]
        (setting.beginning.add (child setting setting.root 1 action next)) := by
    rw [generate, isFresh, fresh, breadthFirst]
    rfl
  have unchanged : { setting.beginning with cut := false } = setting.beginning := rfl
  rw [begun, budget, run, visited]
  simp only [offered, unchanged, expanded, breadthFirst, place, List.nil_append]
  rw [if_neg Bool.false_ne_true]

/-- A search level by level finds a goal that is one step away, where there is no other step. -/
theorem planWith_of_step {problem : PlanProblem} {options : PlanOptions} {heuristic : Heuristic} {initial next : FactSet}
    {action : Action} (breadthFirst : discipline options heuristic = ⟨.behind, false, .onVisit, none, heuristic⟩)
    (budget : 0 < options.nodeBudget) (unlimited : options.timeLimit = none)
    (valid : problem.operators.forM Operator.validate = .ok ()) (closed : closedInitial problem options = .ok initial)
    (distant : initial.includes problem.goal = false)
    (outcomes : successors problem.operators problem.pool initial = [(action, next)]) (moved : next ≠ initial)
    (reaches : next.includes problem.goal = true) :
    planWith problem options heuristic = .ok ⟨[action], next, 1, 2⟩ := by
  obtain ⟨remaining, enough⟩ : ∃ remaining, options.nodeBudget = remaining + 1 := ⟨options.nodeBudget - 1, by omega⟩
  rw [planWith_of_only_step rfl breadthFirst enough unlimited valid closed distant outcomes moved, run]
  have reached (number : Nat) : (searchFrom problem options heuristic initial).isGoal
      (child (searchFrom problem options heuristic initial) (searchFrom problem options heuristic initial).root number
        action next) = true := reaches
  have late : (searchFrom problem options heuristic initial).discipline.goalTest = .onVisit := by
    rw [searchFrom, breadthFirst]
  simp only [visit, late, reached, and_self, if_true]
  rfl

theorem planWith_corridor :
    planWith (.corridor "a" "b") { PlanOptions.standard with nodeBudget := 1 } HeuristicKind.satisfice.heuristic =
      .ok ⟨[⟨"move", ["a", "b"]⟩], .ofList [⟨"at", ["b"]⟩, ⟨"adjacent", ["a", "b"]⟩], 1, 2⟩ := by
  refine planWith_of_step rfl (by decide) rfl rfl rfl ?_ ?_ ?_ ?_ <;> decide

/-- The one step through a corridor is found, and it is accepted. -/
theorem validate_of_corridor :
    ((PlanProblem.corridor "a" "b").operators.map Operator.name).Nodup ∧ ∃ plan,
      planWith (.corridor "a" "b") { PlanOptions.standard with nodeBudget := 1 } HeuristicKind.satisfice.heuristic =
        .ok plan ∧ plan.actions = [⟨"move", ["a", "b"]⟩] ∧
      Plan.validate (PlanProblem.corridor "a" "b").initial (PlanProblem.corridor "a" "b").goal
        (PlanProblem.corridor "a" "b").operators plan.actions = .ok plan.finalState := by
  have distinct : ((PlanProblem.corridor "a" "b").operators.map Operator.name).Nodup := by decide
  obtain ⟨initial, closed, accepted, _⟩ := validate_of_planWith distinct planWith_corridor
  cases closed
  exact ⟨distinct, _, planWith_corridor, rfl, accepted⟩

end PlanSearch

end Deliberation
