import Deliberation.Proofs.Constraint.Aborted
import Deliberation.Proofs.Constraint.Complete
import Deliberation.Proofs.Expr.Faults

/-!
Solving is right: there is no solution exactly when no choice of values makes everything hold that
has to, whatever is preferred and however the search goes about it.
-/

namespace Deliberation

variable {R : Type} [Scalar R] {vars : List (Variable R)} {hard soft : List (Constraint R)} {options : SolveOptions}

open ConstraintSearch

section Problems

/-- A problem can be built for variables with domains that can be expanded. -/
theorem exists_translates (expandable : Expandable vars) (distinct : (vars.map Variable.name).Nodup)
    (declared : Declared vars (hard ++ soft)) :
    ∃ problem, Problem.of vars hard soft = .ok problem ∧ Translates vars hard soft problem := by
  have expanded : ∃ values, vars.mapM (fun v => v.domain.expand v.name) = .ok values := by
    simp only [Lists.mapM_eq_ok_iff]
    clear distinct declared
    induction vars with
    | nil => exact ⟨[], .nil⟩
    | cons v rest ih =>
      obtain ⟨first, expanded⟩ := expandable v (by simp)
      obtain ⟨others, each⟩ := ih fun other member => expandable other (by simp [member])
      exact ⟨first :: others, .cons expanded each⟩
  obtain ⟨values, expanded⟩ := expanded
  obtain ⟨problem, built⟩ := exists_of expanded
  exact ⟨problem, built, translates_of built distinct declared⟩

/-- Some constraint divides the least integer by minus one for some values from the domains. -/
def DividesLeast (vars : List (Variable R)) (constraints : List (Constraint R)) : Prop :=
  ∃ c ∈ constraints, ∃ env, Drawn vars env ∧ c.holds env = .error .leastQuotient

theorem ConstraintSearch.Translates.dividesLeast {problem : Problem R} (translates : Translates vars hard soft problem)
    {reason : Abort} (failed : search problem options = .error reason) :
    reason = .leastQuotient ∧ DividesLeast vars (hard ++ soft) := by
  obtain ⟨c, member, assigned, broken⟩ := breaks_of_search problem options reason failed
  have same := Constraint.holds_error broken
  subst same
  refine ⟨rfl, c.constraint, ?_, problem.env assigned, translates.env_drawn assigned, broken⟩
  rw [← translates.hard, ← translates.soft, ← List.map_append]
  exact List.mem_map_of_mem member

end Problems

section Trials

/-- What a trial comes to, search first. -/
theorem satisfiable?_eq {constraints : List (Constraint R)} {problem : Problem R}
    (built : Problem.of (scope vars constraints) constraints [] = .ok problem) : satisfiable? vars options constraints =
      match search problem options with
      | .error reason => .error (.aborted reason)
      | .ok (.found _) => .ok (some true)
      | .ok (.exhausted _) => .ok (some false)
      | .ok (.overBudget _) => .ok none := by
  rw [satisfiable?]
  simp only [bind, Except.bind]
  rw [show Problem.of (List.filter _ vars) constraints [] = .ok problem from built]
  dsimp only
  cases search problem options with
  | error reason => rfl
  | ok outcome => cases outcome <;> rfl

/-- What a trial says about whether constraints can hold together, on the variables that they mention. -/
theorem satisfiable?_cases (expandable : Expandable vars) (distinct : (vars.map Variable.name).Nodup)
    {constraints : List (Constraint R)} (declared : Declared vars constraints) :
    (satisfiable? vars options constraints = .ok (some true) ∧ Satisfiable (scope vars constraints) constraints) ∨
      (satisfiable? vars options constraints = .ok (some false) ∧ ¬ Satisfiable (scope vars constraints) constraints) ∨
      satisfiable? vars options constraints = .ok none ∨
      (satisfiable? vars options constraints = .error (.aborted .leastQuotient) ∧ DividesLeast vars constraints) := by
  have inner := declared_scope declared
  obtain ⟨problem, built, translates⟩ : ∃ problem, Problem.of (scope vars constraints) constraints [] = .ok problem ∧
      Translates (scope vars constraints) constraints [] problem :=
    exists_translates (fun v member => expandable v (mem_scope.1 member).1) (nodup_scope constraints distinct)
      (by simpa using inner)
  have solving := translates.satisfiable_iff inner
  rw [satisfiable?_eq built]
  cases searched : search problem options with
  | error reason =>
    obtain ⟨rfl, c, member, env, drawn, broken⟩ := translates.dividesLeast searched
    refine .inr (.inr (.inr ⟨rfl, c, by simpa using member, env, fun name value stored => ?_, broken⟩))
    obtain ⟨v, among, named, drawn⟩ := drawn name value stored
    exact ⟨v, (mem_scope.1 among).1, named, drawn⟩
  | ok outcome =>
    cases outcome with
    | found solution => exact .inl ⟨rfl, solving.2 (search_found translates.proper searched)⟩
    | exhausted nodes =>
      refine .inr (.inl ⟨rfl, fun satisfiable => ?_⟩)
      obtain ⟨pick, solves⟩ := solving.1 satisfiable
      exact search_exhausted translates.proper searched pick solves
    | overBudget best => exact .inr (.inr (.inl rfl))

end Trials

section Conflicts

variable (expandable : Expandable vars) (distinct : (vars.map Variable.name).Nodup) (declared : Declared vars hard)

include expandable distinct declared

theorem satisfiable?_error {trial : List (Constraint R)} (subset : trial ⊆ hard) {fault : SolveError R}
    (failed : satisfiable? vars options trial = .error fault) :
    fault = .aborted .leastQuotient ∧ DividesLeast vars hard := by
  have among : Declared vars trial := fun c member => declared c (subset member)
  rcases @satisfiable?_cases _ _ _ options expandable distinct _ among with
    ⟨answered, _⟩ | ⟨answered, _⟩ | answered | ⟨stopped, c, member, broken⟩
  · rw [answered] at failed
    cases failed
  · rw [answered] at failed
    cases failed
  · rw [answered] at failed
    cases failed
  · rw [stopped] at failed
    cases failed
    exact ⟨rfl, c, subset member, broken⟩

theorem shrink_error {kept rest : List (Constraint R)} (subset : kept ++ rest ⊆ hard) {fault : SolveError R}
    (failed : shrink vars options kept rest = .error fault) :
    fault = .aborted .leastQuotient ∧ DividesLeast vars hard := by
  induction rest generalizing kept with
  | nil => cases failed
  | cons c rest ih =>
    have fewer : kept ++ rest ⊆ hard := by
      intro other member
      refine subset ?_
      rw [List.mem_append] at member ⊢
      exact member.imp_right (List.mem_cons_of_mem c)
    rw [shrink] at failed
    rcases Lists.bind_eq_error failed with stopped | ⟨answer, _, failed⟩
    · exact satisfiable?_error expandable distinct declared fewer stopped
    · split at failed
      · exact ih fewer failed
      · exact ih (by simpa using subset) failed

theorem firstConflict?_error {groups : List (List Nat)} {fault : SolveError R}
    (failed : firstConflict? vars hard options groups = .error fault) :
    fault = .aborted .leastQuotient ∧ DividesLeast vars hard := by
  induction groups with
  | nil => cases failed
  | cons group groups ih =>
    have members : group.filterMap (hard[·]?) ⊆ hard := by
      intro c member
      obtain ⟨_, _, there⟩ := List.mem_filterMap.1 member
      exact List.mem_of_getElem? there
    rw [firstConflict?] at failed
    rcases Lists.bind_eq_error failed with stopped | ⟨answer, _, failed⟩
    · exact satisfiable?_error expandable distinct declared members stopped
    · split at failed
      · rcases Lists.bind_eq_error failed with stopped | ⟨_, _, impossible⟩
        · exact shrink_error expandable distinct declared (by simpa using members) stopped
        · cases impossible
      · exact ih failed

theorem minimalConflict_error {fault : SolveError R} (failed : minimalConflict vars hard options = .error fault) :
    fault = .aborted .leastQuotient ∧ DividesLeast vars hard := by
  rw [minimalConflict] at failed
  rcases Lists.bind_eq_error failed with stopped | ⟨_, _, impossible⟩
  · exact firstConflict?_error expandable distinct declared stopped
  · cases impossible

end Conflicts

section Solve

/-- What solving comes to, search first. -/
theorem solve_eq (valid : validateConstraints vars hard soft = .ok ()) {problem : Problem R}
    (built : Problem.of vars hard soft = .ok problem) : solve vars hard soft options =
      match search problem options with
      | .error reason => .error (.aborted reason)
      | .ok (.found solution) => .ok solution
      | .ok (.overBudget best) => .error (.budgetExhausted options.nodeBudget best)
      | .ok (.exhausted _) => minimalConflict vars hard options >>= fun names => .error (.unsatisfiable names) := by
  rw [solve, valid]
  simp only [bind, Except.bind, built]
  cases search problem options with
  | error reason => rfl
  | ok outcome => cases outcome <;> rfl

/-- Within the budget, solving ends with a solution exactly when what has to hold can hold together, and with
a conflict exactly when it cannot, whatever is preferred and however the search goes; it only stops without an
answer where the least integer is divided by minus one. -/
theorem solve_decides (expandable : Expandable vars) (valid : validateConstraints vars hard soft = .ok ())
    (enough : ∀ nodes best, solve vars hard soft options ≠ .error (.budgetExhausted nodes best)) :
    (∀ reason, solve vars hard soft options = .error (.aborted reason) →
        reason = .leastQuotient ∧ DividesLeast vars (hard ++ soft)) ∧
      ((∀ reason, solve vars hard soft options ≠ .error (.aborted reason)) →
        ((∃ conflicts, solve vars hard soft options = .error (.unsatisfiable conflicts)) ↔ ¬ Satisfiable vars hard) ∧
        ((∃ solution, solve vars hard soft options = .ok solution) ↔ Satisfiable vars hard)) := by
  have accepted := accepted_of_validate valid
  obtain ⟨problem, built, translates⟩ := exists_translates expandable accepted.distinct accepted.declared
  have declared : Declared vars hard := fun c member => accepted.declared c (List.mem_append_left _ member)
  have solving := translates.satisfiable_iff declared
  rw [solve_eq valid built] at enough ⊢
  cases searched : search problem options with
  | error reason =>
    refine ⟨fun other same => ?_, fun unaborted => absurd rfl (unaborted reason)⟩
    cases same
    exact translates.dividesLeast searched
  | ok outcome =>
    cases outcome with
    | found solution =>
      have satisfiable := solving.2 (search_found translates.proper searched)
      exact ⟨fun _ same => (by cases same), fun _ => ⟨by simp [satisfiable], by simp [satisfiable]⟩⟩
    | overBudget best =>
      rw [searched] at enough
      exact absurd rfl (enough options.nodeBudget best)
    | exhausted nodes =>
      have unsatisfiable : ¬ Satisfiable vars hard := by
        intro satisfiable
        obtain ⟨pick, solves⟩ := solving.1 satisfiable
        exact search_exhausted translates.proper searched pick solves
      dsimp only
      cases explained : minimalConflict vars hard options with
      | error fault =>
        obtain ⟨rfl, c, member, broken⟩ := minimalConflict_error expandable accepted.distinct declared explained
        refine ⟨fun reason same => ?_, fun unaborted => absurd rfl (unaborted .leastQuotient)⟩
        cases same
        exact ⟨rfl, c, List.mem_append_left _ member, broken⟩
      | ok names =>
        refine ⟨fun _ same => (by cases same), fun _ => ⟨?_, ?_⟩⟩
        · exact ⟨fun _ => unsatisfiable, fun _ => ⟨names, rfl⟩⟩
        · refine ⟨fun found => ?_, fun satisfiable => absurd satisfiable unsatisfiable⟩
          obtain ⟨_, impossible⟩ := found
          cases impossible

omit [Scalar R] in
theorem exists_of_isOk {α : Type} {result : Except (SolveError R) α} (found : result.isOk = true) :
    ∃ a, result = .ok a := by
  cases result with
  | error fault => cases found
  | ok a => exact ⟨a, rfl⟩

/-- Whether a run was stopped. -/
def isAborted {α : Type} : Except (SolveError R) α → Bool
  | .error (.aborted _) => true
  | _ => false

omit [Scalar R] in
theorem exists_of_isAborted {α : Type} {result : Except (SolveError R) α} (stopped : isAborted result = true) :
    ∃ reason, result = .error (.aborted reason) := by
  cases result with
  | ok a => cases stopped
  | error fault =>
    cases fault with
    | aborted reason => exact ⟨reason, rfl⟩
    | _ => cases stopped

/-- A variable over listed values. -/
def listedVariable (name : String) (values : List Int64) : Variable Rat := ⟨name, .listed (values.map .int)⟩

/-- Two variables that are zero or one. -/
def twoBits : List (Variable Rat) := [listedVariable "x" [0, 1], listedVariable "y" [0, 1]]

/-- What asks a variable to be positive. -/
def positive (name : String) : Constraint Rat := ⟨name, .compare .gt (.var name) (.const (.int 0)), 1⟩

theorem solve_decides_positive :
    Expandable [listedVariable "x" [0, 1]] ∧ validateConstraints [listedVariable "x" [0, 1]] [positive "x"] [] = .ok () ∧
      Satisfiable [listedVariable "x" [0, 1]] [positive "x"] := by
  have expandable : Expandable [listedVariable "x" [0, 1]] := fun v member => by
    rw [List.mem_singleton.1 member]
    exact ⟨_, rfl⟩
  obtain ⟨solution, solved⟩ := exists_of_isOk
    (show (solve [listedVariable "x" [0, 1]] [positive "x"] [] .standard).isOk = true by decide +kernel)
  refine ⟨expandable, rfl, ?_⟩
  have decides := @solve_decides Rat _ [listedVariable "x" [0, 1]] [positive "x"] [] .standard expandable rfl
    (fun _ _ spent => by rw [solved] at spent; cases spent)
  exact (decides.2 fun _ aborted => by rw [solved] at aborted; cases aborted).2.1 ⟨solution, solved⟩

/-- What asks the quotient of a variable and minus one to be positive. -/
def quotientPositive : Constraint Rat :=
  ⟨"x / -1 > 0", .compare .gt (.arith .div (.var "x") (.const (.int (-1)))) (.const (.int 0)), 1⟩

theorem not_satisfiable_quotientPositive :
    ¬ Satisfiable [listedVariable "x" [Int64.minValue]] [quotientPositive] := by
  rintro ⟨env, chosen, holds⟩
  obtain ⟨values, expanded, value, among, stored⟩ := chosen (listedVariable "x" [Int64.minValue]) (by simp)
  cases expanded
  have least : value = .int Int64.minValue := List.mem_singleton.1 among
  have broken : quotientPositive.holds env = .error .leastQuotient := by
    have stored : env "x" = some (.int Int64.minValue) := least ▸ stored
    rw [Constraint.holds, Expr.holds, quotientPositive]
    simp only [Expr.eval, stored]
    rfl
  have fine := holds quotientPositive (by simp)
  rw [broken] at fine
  cases fine

/-- The least integer has no quotient that satisfies anything, but solving stops instead of saying so. -/
theorem solve_aborts_on_least :
    Expandable [listedVariable "x" [Int64.minValue]] ∧
      validateConstraints [listedVariable "x" [Int64.minValue]] [quotientPositive] [] = .ok () ∧
      ¬ Satisfiable [listedVariable "x" [Int64.minValue]] [quotientPositive] ∧
      solve [listedVariable "x" [Int64.minValue]] [quotientPositive] [] .standard = .error (.aborted .leastQuotient) := by
  refine ⟨fun v member => ?_, rfl, not_satisfiable_quotientPositive, rfl⟩
  rw [List.mem_singleton.1 member]
  exact ⟨_, rfl⟩

end Solve

end Deliberation
