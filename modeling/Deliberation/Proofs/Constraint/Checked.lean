import Deliberation.Proofs.Constraint.BranchAndBound

/-!
What solving has to show passes the check of an assignment. The check judges every constraint anew,
for the values that the assignment lists; the search judged them one by one, as soon as their
variables had values, and what it prunes or undoes on the way never reaches an assignment.
-/

namespace Deliberation

variable {R : Type} [Scalar R] {vars : List (Variable R)} {hard soft : List (Constraint R)}

section Assignments

/-- An assignment lists all variables in their order, each with a value of its domain. -/
def Complete (vars : List (Variable R)) (assignment : Assignment R) : Prop :=
  List.Forall₂ (fun v entry => entry.1 = v.name ∧ ∃ values, v.domain.expand v.name = .ok values ∧ entry.2 ∈ values)
    vars assignment

/-- The values that an assignment lists. -/
def Assignment.env (assignment : Assignment R) : Env R := fun name => assignment.lookup name

omit [Scalar R] in
/-- An assignment that lists the values of an environment gives each variable its value there. -/
theorem Assignment.env_eq {env : Env R} {assignment : Assignment R}
    (listed : List.Forall₂ (fun v entry => entry.1 = v.name ∧ env v.name = some entry.2) vars assignment) {name : String}
    (declared : name ∈ vars.map Variable.name) : assignment.env name = env name := by
  rw [Assignment.env]
  induction listed with
  | nil => simp at declared
  | @cons v entry rest entries first _ ih =>
    rw [List.lookup_cons]
    split
    · next same =>
      rw [eq_of_beq same, first.1, first.2]
    · next other =>
      have apart : name ≠ v.name := by
        rintro rfl
        simp [first.1] at other
      rw [List.map_cons, List.mem_cons] at declared
      exact ih (declared.resolve_left apart)

/-- Where an environment gives each variable a value of its domain, so does the assignment that lists them. -/
theorem complete_of_chosen {env : Env R} (chosen : Chosen vars env) {assignment : Assignment R}
    (listed : List.Forall₂ (fun v entry => entry.1 = v.name ∧ env v.name = some entry.2) vars assignment) :
    Complete vars assignment := by
  induction listed with
  | nil => exact .nil
  | @cons v entry rest entries first _ ih =>
    obtain ⟨values, expanded, value, among, own⟩ := chosen v (by simp)
    rw [first.2, Option.some.injEq] at own
    refine .cons ⟨first.1, values, expanded, own ▸ among⟩ (ih fun other member => chosen other (by simp [member]))

end Assignments

section Violations

/-- Under values that decide each of them, the violations are the constraints that fail. -/
theorem violations_eq {env : Env R} {constraints : List (Constraint R)}
    (decided : ∀ c ∈ constraints, ∃ holds, c.holds env = .ok (some holds)) :
    violations env constraints = .ok (constraints.filter (fails env)) := by
  induction constraints with
  | nil => rfl
  | cons c rest ih =>
    obtain ⟨holds, judged⟩ := decided c (by simp)
    have others := ih fun other member => decided other (by simp [member])
    rw [violations, judged, List.filter_cons, fails, judged, others]
    cases holds <;> rfl

/-- Nothing fails where everything holds. -/
theorem AllHold.violations_eq {env : Env R} {constraints : List (Constraint R)} (holds : AllHold env constraints) :
    violations env constraints = .ok [] := by
  have none : constraints.filter (fails env) = [] :=
    List.filter_eq_nil_iff.2 fun c member => by simp [fails, holds c member]
  rw [Deliberation.violations_eq fun c member => ⟨true, holds c member⟩, none]

end Violations

/-- A solution assigns every variable a value of its domain; the check of its assignment finds nothing that
fails of what has to hold, and just the violations and the cost that the solution tells of. -/
structure Checked (vars : List (Variable R)) (hard soft : List (Constraint R)) (solution : Solution R) : Prop where
  complete : Complete vars solution.assignment
  check : checkAssignment solution.assignment.env hard soft = .ok ⟨[], solution.violated, solution.cost⟩

namespace ConstraintSearch

variable {problem : Problem R} {options : SolveOptions} {state : State} {solution : Solution R}

theorem judged_of_failing {cs : List (Placed R)} {failures : List (Constraint R)}
    (judged : failing problem state cs = .ok failures) :
    ∀ c ∈ cs, ∃ verdict, c.constraint.holds (problem.env state.assigned) = .ok verdict := by
  induction cs generalizing failures with
  | nil => simp
  | cons c rest ih =>
    rw [failing] at judged
    obtain ⟨verdict, holds, judged⟩ := Lists.bind_eq_ok judged
    obtain ⟨others, later, _⟩ := Lists.bind_eq_ok judged
    exact List.forall_mem_cons.2 ⟨⟨verdict, holds⟩, ih later⟩

/-- What the search judged of the preferences at a full state decides each of them. -/
theorem Problem.Yields.decided (translates : Translates vars hard soft problem) (declared : Declared vars soft)
    {order : VariableOrder} (yields : problem.Yields order state solution) :
    ∀ c ∈ soft, ∃ holds, c.holds (problem.picked state.pick) = .ok (some holds) := by
  intro c listed
  obtain ⟨failures, judged, _⟩ := yields.rated
  obtain ⟨placed, member, rfl⟩ := List.mem_map.1 (translates.soft ▸ listed)
  obtain ⟨verdict, found⟩ := judged_of_failing judged placed member
  have among := List.mem_append_right problem.hard member
  rw [holds_env_eq translates.proper state.agrees_pick among fun place mentioned =>
    closed_of_select yields.full (translates.proper.inside placed among place mentioned)] at found
  have chosen := translates.picked_chosen (yields.sound.solves translates.proper yields.full).picks
  have bound : ∀ name ∈ placed.constraint.vars, (problem.picked state.pick name).isSome := fun name mentioned => by
    obtain ⟨v, member, rfl⟩ := List.mem_map.1 (declared _ listed name mentioned)
    obtain ⟨_, _, value, _, own⟩ := chosen v member
    simp [own]
  obtain ⟨holds, rfl⟩ := Constraint.exists_verdict bound found
  exact ⟨holds, found⟩

/-- The assignment of a full state passes the check, and the rating of the state is what the check finds. -/
theorem Problem.Yields.checked (translates : Translates vars hard soft problem) (declared : Declared vars (hard ++ soft))
    {order : VariableOrder} (yields : problem.Yields order state solution) : Checked vars hard soft solution := by
  have solves := yields.sound.solves translates.proper yields.full
  have listed := translates.assignment yields.sound yields.full
  rw [← yields.assignment] at listed
  refine ⟨complete_of_chosen (translates.picked_chosen solves.picks) listed, ?_⟩
  -- The check reads the values off the assignment, and they are the ones at the picked positions.
  have agree : ∀ c ∈ hard ++ soft, ∀ name ∈ c.vars,
      problem.picked state.pick name = solution.assignment.env name :=
    fun c member name mentioned => (Assignment.env_eq listed (declared c member name mentioned)).symm
  have hardHolds : AllHold solution.assignment.env hard :=
    (translates.allHold solves).congr fun c member => agree c (List.mem_append_left _ member)
  have same : ∀ c ∈ soft, c.holds (problem.picked state.pick) = c.holds solution.assignment.env :=
    fun c member => Constraint.holds_congr (agree c (List.mem_append_right _ member))
  have softDecided : ∀ c ∈ soft, ∃ holds, c.holds solution.assignment.env = .ok (some holds) := fun c member =>
    same c member ▸ yields.decided translates (fun c member => declared c (List.mem_append_right _ member)) c member
  have softFails : soft.filter (fails (problem.picked state.pick)) = soft.filter (fails solution.assignment.env) :=
    List.filter_congr fun c member => by rw [fails, fails, same c member]
  obtain ⟨failures, judged, cost, violated⟩ := yields.rated
  have rated : failures = soft.filter (fails solution.assignment.env) := by
    calc failures = problem.preferences.filter (fails (problem.env state.assigned)) := failing_eq judged
      _ = problem.preferences.filter (fails (problem.picked state.pick)) := filter_fails_eq translates.proper yields.full
      _ = soft.filter (fails solution.assignment.env) := by rw [translates.preferences, softFails]
  rw [checkAssignment, hardHolds.violations_eq, violations_eq softDecided, cost, violated, rated]
  rfl

end ConstraintSearch

section Solving

open ConstraintSearch

variable {options : SolveOptions} {solution : Solution R}

/-- The solution that solving has to show: the one that it ends with, or the best one when its budget was spent. -/
def shown? : Except (SolveError R) (Solution R) → Option (Solution R)
  | .ok solution => some solution
  | .error (.budgetExhausted _ best) => best
  | .error _ => none

/-- A domain that cannot be expanded leaves nothing to show. -/
theorem shown?_of_not_expanded {name : String} {domain : Domain R} {fault : SolveError R}
    (failed : domain.expand name = .error fault) : shown? (.error fault) = none := by
  cases domain with
  | listed values => cases failed
  | range min max step =>
    simp only [Domain.expand] at failed
    split_ifs at failed <;> cases failed <;> rfl

/-- A problem that cannot be built leaves nothing to show. -/
theorem shown?_of_not_built {fault : SolveError R} (failed : Problem.of vars hard soft = .error fault) :
    shown? (.error fault) = none := by
  rw [Problem.of] at failed
  rcases Lists.bind_eq_error failed with failed | ⟨_, _, impossible⟩
  · obtain ⟨v, _, failed⟩ := Lists.exists_error_of_mapM failed
    exact shown?_of_not_expanded failed
  · cases impossible

/-- What solving has to show is the best assignment of its search. -/
theorem search_of_shown (valid : validateConstraints vars hard soft = .ok ()) {problem : Problem R}
    (built : Problem.of vars hard soft = .ok problem) (shown : shown? (solve vars hard soft options) = some solution) :
    ∃ outcome, search problem options = .ok outcome ∧ outcome.best = some solution := by
  have accepted := accepted_of_validate valid
  have declared : Declared vars hard := fun c member => accepted.declared c (List.mem_append_left _ member)
  have expandable : Expandable vars := fun v member => by
    obtain ⟨place, there⟩ := List.mem_iff_getElem?.1 member
    obtain ⟨values, expanded, _⟩ := (translates_of built accepted.distinct accepted.declared).domain place v there
    exact ⟨values, expanded⟩
  rw [solve_eq valid built] at shown
  cases searched : search problem options with
  | error reason =>
    rw [searched] at shown
    cases shown
  | ok outcome =>
    rw [searched] at shown
    refine ⟨outcome, rfl, ?_⟩
    cases outcome with
    | found found => exact shown
    | overBudget best => exact shown
    | exhausted nodes =>
      -- The search for a conflict has nothing to show, whether it finds one or is stopped.
      cases explained : minimalConflict vars hard options with
      | ok names =>
        rw [explained] at shown
        cases shown
      | error fault =>
        obtain ⟨rfl, _⟩ := minimalConflict_error expandable accepted.distinct declared explained
        rw [explained] at shown
        cases shown

/-- Whatever the order, the strategy and the budget, what solving has to show passes the check. -/
theorem solve_checked (valid : validateConstraints vars hard soft = .ok ())
    (shown : shown? (solve vars hard soft options) = some solution) : Checked vars hard soft solution := by
  cases built : Problem.of vars hard soft with
  | error fault =>
    rw [(solve_of_not_built valid built options).1, shown?_of_not_built built] at shown
    cases shown
  | ok problem =>
    have accepted := accepted_of_validate valid
    have translates := translates_of built accepted.distinct accepted.declared
    obtain ⟨outcome, searched, best⟩ := search_of_shown valid built shown
    obtain ⟨state, yields⟩ := search_attained translates.proper searched solution best
    exact yields.checked translates accepted.declared

theorem solve_checked_on_two_bits :
    (∃ solution, shown? (solve twoBits [positive "x"] [positive "y"] .standard) = some solution ∧
        Checked twoBits [positive "x"] [positive "y"] solution) ∧
      (solve twoBits [positive "x"] [positive "y"] ⟨.declaration, .branchAndBound, 2⟩).isOk = false ∧
      ∃ best, shown? (solve twoBits [positive "x"] [positive "y"] ⟨.declaration, .branchAndBound, 2⟩) = some best ∧
        Checked twoBits [positive "x"] [positive "y"] best := by
  obtain ⟨solution, shown⟩ := Option.isSome_iff_exists.1
    (show (shown? (solve twoBits [positive "x"] [positive "y"] .standard)).isSome = true by decide +kernel)
  obtain ⟨best, spent⟩ := Option.isSome_iff_exists.1
    (show (shown? (solve twoBits [positive "x"] [positive "y"] ⟨.declaration, .branchAndBound, 2⟩)).isSome = true by
      decide +kernel)
  exact ⟨⟨solution, shown, solve_checked rfl shown⟩, by decide +kernel, best, spent, solve_checked rfl spent⟩

end Solving

end Deliberation
