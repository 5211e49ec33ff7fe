import Deliberation.Proofs.Constraint.Optimal
import Deliberation.Proofs.Constraint.Solving

/-!
Branch and bound finds what a search through all assignments finds, and nothing costs less.
-/

namespace Deliberation

variable {R : Type} [Scalar R] {worth : R → Rat}

namespace ConstraintSearch

variable {problem : Problem R} {options : SolveOptions} {state : State} {pick : Nat → Nat}

section Bounding

/-- The best assignment costs at most what the picked positions cost. -/
def Undercuts (problem : Problem R) (worth : R → Rat) (best : Option (Solution R)) (pick : Nat → Nat) : Prop :=
  ∃ held, best = some held ∧ worth held.cost ≤ penalty worth problem.preferences (problem.picked pick)

theorem Graded.isTotal {best : Option (Solution R)} (graded : Graded problem (best.map Solution.answer))
    {held : Solution R} (same : best = some held) :
    IsTotal (problem.preferences.map Constraint.weight) held.cost := by
  subst same
  exact graded held.answer rfl

theorem graded_record {tally found : Tally R} (recorded : tally.record problem state = .ok found)
    (graded : Graded problem tally.answer) : Graded problem found.answer := by
  have ranks : Ranks problem .standard tally [state] (.back found) := ranks_record recorded
  rw [ranks.1]
  exact graded.cheapest? _

variable (exact : ExactWeights worth (problem.preferences.map Constraint.weight))

include exact

/-- What fails for the values given so far costs at most what fails for all picked ones. -/
theorem worth_le_penalty {failures : List (Constraint R)} (judged : failing problem state problem.soft = .ok failures)
    (agrees : state.Agrees pick) : worth (Scalar.sum (failures.map Constraint.weight)) ≤
      penalty worth problem.preferences (problem.picked pick) := by
  rw [failing_eq judged]
  exact (worth_sum exact _).trans_le (penalty_le_of_extends exact (picked_extends agrees))

/-- An assignment that does not beat the best one costs at least as much. -/
theorem worth_le_of_not_lt {best : Solution R} {failures : List (Constraint R)}
    (judged : failing problem state problem.soft = .ok failures)
    (total : IsTotal (problem.preferences.map Constraint.weight) best.cost)
    (dear : ¬ Scalar.sum (failures.map Constraint.weight) < best.cost) :
    worth best.cost ≤ worth (Scalar.sum (failures.map Constraint.weight)) := by
  have total' : IsTotal (problem.preferences.map Constraint.weight) (Scalar.sum (failures.map Constraint.weight)) :=
    failing_eq judged ▸ isTotal_sum _
  rw [total'.lt_iff exact total] at dear
  exact not_lt.1 dear

/-- Recording an assignment makes the best one no dearer. -/
theorem Undercuts.record {tally found : Tally R} (recorded : tally.record problem state = .ok found)
    (graded : Graded problem tally.answer) (undercuts : Undercuts problem worth tally.best pick) :
    Undercuts problem worth found.best pick := by
  obtain ⟨held, same, cheap⟩ := undercuts
  obtain ⟨_, _, failures, judged, ⟨better, beats⟩ | ⟨best, before, dear, kept⟩⟩ := record_cases recorded
  · have lighter := beats held same
    have total := (graded_record recorded graded).isTotal better
    rw [total.lt_iff exact (graded.isTotal same)] at lighter
    exact ⟨_, better, lighter.le.trans cheap⟩
  · rw [before] at same
    cases same
    exact ⟨_, kept, cheap⟩

theorem undercuts_leaf {tally found : Tally R} (recorded : tally.record problem state = .ok found)
    (graded : Graded problem tally.answer) (agrees : state.Agrees pick) : Undercuts problem worth found.best pick := by
  obtain ⟨_, _, failures, judged, ⟨better, _⟩ | ⟨best, before, dear, kept⟩⟩ := record_cases recorded
  · exact ⟨_, better, worth_le_penalty exact judged agrees⟩
  · refine ⟨_, kept, ?_⟩
    calc worth best.cost ≤ worth (Scalar.sum (failures.map Constraint.weight)) :=
          worth_le_of_not_lt exact judged (graded.isTotal before) dear
      _ ≤ penalty worth problem.preferences (problem.picked pick) := worth_le_penalty exact judged agrees

theorem undercuts_outbid {before : State} {tally : Tally R}
    (bound : withinBound problem options (tally.within before []) state = .ok false)
    (graded : Graded problem tally.answer) (agrees : state.Agrees pick) : Undercuts problem worth tally.best pick := by
  obtain ⟨_, best, failures, same, judged, dear⟩ := withinBound_false bound
  refine ⟨best, same, ?_⟩
  calc worth best.cost ≤ worth (Scalar.sum (failures.map Constraint.weight)) :=
        worth_le_of_not_lt exact judged (graded.isTotal same) dear
    _ ≤ penalty worth problem.preferences (problem.picked pick) := worth_le_penalty exact judged agrees

/-- A bounded search finds nothing that costs more than some solution. -/
theorem worth_le_of_search (proper : problem.Proper) (bounded : options.strategy = .branchAndBound)
    {solution : Solution R} (searched : search problem options = .ok (.found solution)) (solves : problem.Solves pick) :
    worth solution.cost ≤ penalty worth problem.preferences (problem.picked pick) := by
  have empty : Graded problem (none : Option (Answer R)) := fun _ impossible => by cases impossible
  have graded : Graded problem (some solution.answer) := by
    rw [show some solution.answer = cheapest? problem none (problem.allLeaves options.order) from
      answer?_of_search proper exact searched (by simp) (.inl bounded)]
    exact empty.cheapest? _
  rcases search_cases proper searched with ⟨_, impossible, _⟩ | ⟨state, ending, _, sound, agrees, walk, ended⟩
  · cases impossible
  · cases ending with
    | back after =>
      obtain ⟨best, met, rfl⟩ := outcome_eq_found_iff.1 ended.symm
      have coverage : Coverage problem options (fun best => Graded problem (best.map Solution.answer))
          (Undercuts problem worth) :=
        ⟨graded_record, fun recorded graded _ => Undercuts.record exact recorded graded,
          fun recorded graded _ => undercuts_leaf exact recorded graded,
          fun bound graded _ => undercuts_outbid exact bound graded⟩
      obtain ⟨_, _, covers⟩ := walk.covers proper coverage sound trivial empty rfl
      obtain ⟨held, same, cheap⟩ := covers pick solves (agrees pick) trivial
      rw [met] at same
      cases same
      exact cheap
    | finished after =>
      obtain ⟨best, met, rfl⟩ := outcome_eq_found_iff.1 ended.symm
      have exhausts : SolveOptions.Exhausts options 0 := .inl bounded
      rcases isOver_cases exhausts (walk.isOver rfl).2 with ⟨held, same, free⟩ | ⟨unbounded, _⟩
      · rw [met] at same
        cases same
        have total : IsTotal (problem.preferences.map Constraint.weight) best.cost := graded _ rfl
        exact (total.worth_nonpos exact free).trans (penalty_nonneg exact _)
      · exact absurd bounded unbounded
    | overBudget best => cases ended

end Bounding

end ConstraintSearch

variable {vars : List (Variable R)} {hard soft : List (Constraint R)}

/-- A solution gives the variables values that make everything hold that has to, and no other such values cost
less. -/
structure IsCheapest (worth : R → Rat) (vars : List (Variable R)) (hard soft : List (Constraint R))
    (solution : Solution R) : Prop where
  attained : ∃ env, Chosen vars env ∧ AllHold env hard ∧
    List.Forall₂ (fun v entry => entry.1 = v.name ∧ env v.name = some entry.2) vars solution.assignment ∧
    solution.violated = (soft.filter (fails env)).map Constraint.name ∧ worth solution.cost = penalty worth soft env
  least : ∀ env, Chosen vars env → AllHold env hard → worth solution.cost ≤ penalty worth soft env

namespace ConstraintSearch

variable {problem : Problem R} {options : SolveOptions} {state : State}

theorem Translates.preferences (translates : Translates vars hard soft problem) : problem.preferences = soft :=
  translates.soft

/-- Constraints over the variables of a full state fail for its values exactly when they fail for the
positions that it picks. -/
theorem filter_fails_eq (proper : problem.Proper) {order : VariableOrder} (full : problem.select order state = none) :
    problem.preferences.filter (fails (problem.env state.assigned)) =
      problem.preferences.filter (fails (problem.picked state.pick)) := by
  refine List.filter_congr fun c member => ?_
  obtain ⟨placed, listed, rfl⟩ := List.mem_map.1 member
  have among := List.mem_append_right problem.hard listed
  have closed : ∀ place ∈ placed.places, state.isOpen place = false := fun place mentioned =>
    closed_of_select full (proper.inside placed among place mentioned)
  rw [fails, fails, holds_env_eq proper state.agrees_pick among closed]

/-- The assignment of a full state lists every variable with the value that it picks. -/
theorem Translates.assignment (translates : Translates vars hard soft problem) (sound : problem.Sound state)
    {order : VariableOrder} (full : problem.select order state = none) :
    List.Forall₂ (fun v entry => entry.1 = v.name ∧ problem.picked state.pick v.name = some entry.2) vars
      (problem.assignment state) := by
  have each : List.Forall₂ (fun (listed : Variable R × Nat) (entry : String × Value R) =>
      entry.1 = listed.1.name ∧ problem.picked state.pick listed.1.name = some entry.2) vars.zipIdx
      (problem.assignment state) := by
    rw [Problem.assignment, translates.names, List.zipIdx_map, List.filterMap_map]
    refine Lists.forall₂_filterMap fun ⟨v, place⟩ member => ?_
    have there : vars[place]? = some v := List.mk_mem_zipIdx_iff_getElem?.1 member
    have found : problem.places.get? v.name = some place := (translates.place v.name place).2 (by simp [there])
    obtain ⟨value, stored⟩ := State.isOpen_eq_false_iff.1 (closed_of_select full (translates.place_lt found))
    obtain ⟨values, _, row⟩ := translates.domain place v there
    have within := sound.inside place value stored
    rw [Problem.domainSize, row] at within
    have position : value < values.length := by simpa using within
    have read : problem.value? place value = some values[value] := by simp [Problem.value?, row, position]
    have given : (state.assigned[place]?).getD none = some value := stored
    refine ⟨(v.name, values[value]), by simp [given, read], rfl, ?_⟩
    rw [Problem.picked, found]
    show problem.value? place (state.pick place) = some values[value]
    rw [state.agrees_pick place value stored, read]
  rw [← List.zipIdx_map_fst 0 vars, List.forall₂_map_left_iff]
  exact each

/-- What a bounded search finds is cheapest. -/
theorem Translates.isCheapest (translates : Translates vars hard soft problem) (declared : Declared vars (hard ++ soft))
    (exact : ExactWeights worth (soft.map Constraint.weight)) (bounded : options.strategy = .branchAndBound)
    {solution : Solution R} (searched : search problem options = .ok (.found solution)) :
    IsCheapest worth vars hard soft solution := by
  rw [← translates.preferences] at exact
  constructor
  · have found : some solution.answer = cheapest? problem none (problem.allLeaves options.order) :=
      answer?_of_search translates.proper exact searched (by simp) (.inl bounded)
    rcases cheapest?_eq_some found.symm with impossible | ⟨leaf, member, judged⟩
    · cases impossible
    · obtain ⟨sound, full⟩ := leaf_of_mem_allLeaves translates.proper member
      have solves := sound.solves translates.proper full
      have rating := answer?_eq_some judged
      rw [filter_fails_eq translates.proper full, translates.preferences] at rating
      refine ⟨problem.picked leaf.pick, translates.picked_chosen solves.picks, translates.allHold solves, ?_, ?_, ?_⟩
      · rw [show solution.assignment = problem.assignment leaf from congrArg Answer.assignment rating]
        exact translates.assignment sound full
      · exact congrArg Answer.violated rating
      · rw [show solution.cost = _ from congrArg Answer.cost rating]
        exact worth_sum (translates.preferences ▸ exact) _
  · intro env chosen holds
    obtain ⟨pick, picks, agree⟩ := translates.exists_picks chosen
    have same : penalty worth soft env = penalty worth soft (problem.picked pick) := by
      refine penalty_congr fun c member name mentioned => agree name ?_
      exact declared c (List.mem_append_right _ member) name mentioned
    have solves : problem.Solves pick := by
      refine translates.solves (fun c member => ?_) picks agree holds
      exact declared c (List.mem_append_left _ member)
    rw [same, ← translates.preferences]
    exact worth_le_of_search exact translates.proper bounded searched solves

end ConstraintSearch

section Comparison

open ConstraintSearch

variable {options : SolveOptions}

/-- Solving has come to a result of its own: it neither ran out of its budget nor was stopped. -/
def Finishes (result : Except (SolveError R) (Solution R)) : Prop :=
  (∀ nodes best, result ≠ .error (.budgetExhausted nodes best)) ∧ ∀ reason, result ≠ .error (.aborted reason)

omit [Scalar R] in
theorem finishes_of_isOk {result : Except (SolveError R) (Solution R)} (found : result.isOk = true) :
    Finishes result := by
  obtain ⟨solution, rfl⟩ := exists_of_isOk found
  exact ⟨fun _ _ => nofun, fun _ => nofun⟩

/-- What a search found where solving came to a result of its own. -/
theorem search_of_finishes (valid : validateConstraints vars hard soft = .ok ()) {problem : Problem R}
    (built : Problem.of vars hard soft = .ok problem) (finishes : Finishes (solve vars hard soft options)) :
    (∃ solution, search problem options = .ok (.found solution) ∧ solve vars hard soft options = .ok solution) ∨
      ∃ nodes fault, search problem options = .ok (.exhausted nodes) ∧ solve vars hard soft options = .error fault := by
  rw [solve_eq valid built] at finishes ⊢
  cases searched : search problem options with
  | error reason =>
    rw [searched] at finishes
    exact absurd rfl (finishes.2 reason)
  | ok outcome =>
    cases outcome with
    | found solution => exact .inl ⟨solution, rfl, rfl⟩
    | overBudget best =>
      rw [searched] at finishes
      exact absurd rfl (finishes.1 options.nodeBudget best)
    | exhausted nodes =>
      cases explained : minimalConflict vars hard options with
      | error fault => exact .inr ⟨nodes, fault, rfl, rfl⟩
      | ok names => exact .inr ⟨nodes, .unsatisfiable names, rfl, rfl⟩

/-- Solving fails where a domain cannot be expanded, and then there is no choice of values. -/
theorem solve_of_not_built (valid : validateConstraints vars hard soft = .ok ()) {fault : SolveError R}
    (failed : Problem.of vars hard soft = .error fault) (options : SolveOptions) :
    solve vars hard soft options = .error fault ∧ ¬ Satisfiable vars hard := by
  refine ⟨by simp [solve, valid, failed, bind, Except.bind], ?_⟩
  rintro ⟨env, chosen, _⟩
  have accepted := accepted_of_validate valid
  have expandable : Expandable vars := fun v member => by
    obtain ⟨values, expanded, _⟩ := chosen v member
    exact ⟨values, expanded⟩
  obtain ⟨problem, built, _⟩ := exists_translates expandable accepted.distinct accepted.declared
  rw [failed] at built
  cases built

/-- Two ways of solving find the same assignment, and none costs less, or there is none to be found. -/
def Agree (worth : R → Rat) (vars : List (Variable R)) (hard soft : List (Constraint R)) :
    (bounded counted : Except (SolveError R) (Solution R)) → Prop
  | .ok bounded, .ok counted => bounded.assignment = counted.assignment ∧ bounded.cost = counted.cost ∧
      bounded.violated = counted.violated ∧ IsCheapest worth vars hard soft bounded
  | .error _, .error _ => ¬ Satisfiable vars hard
  | _, _ => False

/-- Within their budgets, branch and bound finds what a search for as many assignments as there are finds, and
it is cheapest, unless one of them is stopped. -/
theorem branchAndBound_agrees_with_bestOf (valid : validateConstraints vars hard soft = .ok ())
    (exact : ExactWeights worth (soft.map Constraint.weight)) {order : VariableOrder} {budget budget' n : Nat}
    (enough : (satisfyingChoices vars hard).length ≤ n)
    (bounded : Finishes (solve vars hard soft ⟨order, .branchAndBound, budget⟩))
    (counted : Finishes (solve vars hard soft ⟨order, .bestOf n, budget'⟩)) :
    Agree worth vars hard soft (solve vars hard soft ⟨order, .branchAndBound, budget⟩)
      (solve vars hard soft ⟨order, .bestOf n, budget'⟩) := by
  cases built : Problem.of vars hard soft with
  | error fault =>
    obtain ⟨first, unsatisfiable⟩ := solve_of_not_built valid built ⟨order, .branchAndBound, budget⟩
    obtain ⟨second, _⟩ := solve_of_not_built valid built ⟨order, .bestOf n, budget'⟩
    rw [first, second]
    exact unsatisfiable
  | ok problem =>
    have accepted := accepted_of_validate valid
    have translates := translates_of built accepted.distinct accepted.declared
    have declared : Declared vars hard := fun c member => accepted.declared c (List.mem_append_left _ member)
    have most : (problem.allLeaves order).length ≤ n :=
      (translates.length_allLeaves_le accepted.distinct declared order).trans enough
    have answered {strategy : SolveStrategy} {budget : Nat} {outcome : ConstraintSearch.Outcome R}
        (exhausts : SolveOptions.Exhausts ⟨order, strategy, budget⟩ (problem.allLeaves order).length)
        (searched : search problem ⟨order, strategy, budget⟩ = .ok outcome)
        (unspent : ∀ best, outcome ≠ .overBudget best) :
        outcome.answer? = cheapest? problem none (problem.allLeaves order) :=
      answer?_of_search translates.proper (translates.preferences ▸ exact) searched unspent exhausts
    rcases search_of_finishes valid built bounded with ⟨cheap, first, found⟩ | ⟨nodes, fault, first, failed⟩
    · have answer := answered (.inl rfl) first (by simp)
      rcases search_of_finishes valid built counted with ⟨best, second, found'⟩ | ⟨nodes, fault, second, _⟩
      · rw [← answered (.inr ⟨n, rfl, most⟩) second (by simp)] at answer
        have same : cheap.answer = best.answer := Option.some.inj answer
        rw [found, found']
        exact ⟨congrArg Answer.assignment same, congrArg Answer.cost same, congrArg Answer.violated same,
          translates.isCheapest accepted.declared exact rfl first⟩
      · rw [← answered (.inr ⟨n, rfl, most⟩) second (by simp)] at answer
        cases answer
    · have answer := answered (.inl rfl) first (by simp)
      rcases search_of_finishes valid built counted with ⟨best, second, _⟩ | ⟨nodes, fault', second, failed'⟩
      · rw [← answered (.inr ⟨n, rfl, most⟩) second (by simp)] at answer
        cases answer
      · rw [failed, failed']
        intro satisfiable
        obtain ⟨pick, solves⟩ := (translates.satisfiable_iff declared).1 satisfiable
        exact search_exhausted translates.proper first pick solves

theorem branchAndBound_agrees_on_two_bits :
    Agree id twoBits [positive "x"] [positive "y"]
      (solve twoBits [positive "x"] [positive "y"] ⟨.declaration, .branchAndBound, 10⟩)
      (solve twoBits [positive "x"] [positive "y"] ⟨.declaration, .bestOf 2, 10⟩) := by
  have weights : ExactWeights id ([positive "y"].map Constraint.weight) := exactWeights_rat (by decide)
  exact branchAndBound_agrees_with_bestOf rfl weights (by decide +kernel) (finishes_of_isOk (by decide +kernel))
    (finishes_of_isOk (by decide +kernel))

/-- What asks the quotient of a variable and minus one to be far below zero. -/
def quotientSmall : Constraint Rat :=
  ⟨"x / -1 < -100", .compare .lt (.arith .div (.var "x") (.const (.int (-1)))) (.const (.int (-100))), 1⟩

/-- What asks one of two variables to be positive. -/
def eitherPositive : Constraint Rat :=
  ⟨"x > 0 || y > 0", .logic .or (.compare .gt (.var "x") (.const (.int 0))) (.compare .gt (.var "y") (.const (.int 0))), 1⟩

/-- Rating a value that no assignment has stops branch and bound, where counting assignments goes on. -/
theorem branchAndBound_aborts_alone :
    validateConstraints [listedVariable "x" [5, Int64.minValue], listedVariable "y" [0]] [eitherPositive]
        [quotientSmall] = .ok () ∧
      (satisfyingChoices [listedVariable "x" [5, Int64.minValue], listedVariable "y" [0]] [eitherPositive]).length ≤ 5 ∧
      ExactWeights id ([quotientSmall].map Constraint.weight) ∧
      (∃ solution, solve [listedVariable "x" [5, Int64.minValue], listedVariable "y" [0]] [eitherPositive]
        [quotientSmall] ⟨.declaration, .bestOf 5, 1000000⟩ = .ok solution) ∧
      ∃ reason, solve [listedVariable "x" [5, Int64.minValue], listedVariable "y" [0]] [eitherPositive]
        [quotientSmall] ⟨.declaration, .branchAndBound, 1000000⟩ = .error (.aborted reason) := by
  refine ⟨rfl, by decide +kernel, exactWeights_rat (by decide), ?_, ?_⟩
  · exact exists_of_isOk (by decide +kernel)
  · exact exists_of_isAborted (by decide +kernel)

end Comparison

end Deliberation
