import Deliberation.Proofs.Constraint.Leaves
import Mathlib.Algebra.Order.Ring.Rat

/-!
What leaves are worth. With weights whose sums are exact, what fails at a state costs at most what
fails at the leaves below it, so that leaves below a state that is too dear change nothing.
-/

namespace Deliberation

variable {R : Type} [Scalar R] {worth : R → Rat}

/-- The sums of some of the weights are those of exact numbers that are not negative. -/
structure ExactWeights (worth : R → Rat) (weights : List R) : Prop where
  nonneg : ∀ weight ∈ weights, 0 ≤ worth weight
  sum : ∀ l, l.Sublist weights → worth (Scalar.sum l) = Scalar.sum (l.map worth)
  lt : ∀ l l', l.Sublist weights → l'.Sublist weights →
    (Scalar.sum l < Scalar.sum l' ↔ worth (Scalar.sum l) < worth (Scalar.sum l'))
  free : ∀ l, l.Sublist weights → (Scalar.sum l ≤ 0 ↔ worth (Scalar.sum l) ≤ 0)

/-- Rational weights are exact. -/
theorem exactWeights_rat {weights : List Rat} (nonneg : ∀ weight ∈ weights, 0 ≤ weight) : ExactWeights id weights := by
  refine ⟨nonneg, fun l _ => ?_, fun _ _ _ _ => Iff.rfl, fun _ _ => Iff.rfl⟩
  rw [List.map_id]
  rfl

theorem foldl_add_le {l l' : List Rat} (fewer : l.Sublist l') (nonneg : ∀ weight ∈ l', 0 ≤ weight) {start start' : Rat}
    (le : start ≤ start') : l.foldl (· + ·) start ≤ l'.foldl (· + ·) start' := by
  induction fewer generalizing start start' with
  | slnil => exact le
  | cons weight _ ih =>
    obtain ⟨first, nonneg⟩ := List.forall_mem_cons.1 nonneg
    exact ih nonneg (le_add_of_le_of_nonneg le first)
  | cons_cons weight _ ih => exact ih (List.forall_mem_cons.1 nonneg).2 (add_le_add_left le weight)

/-- Fewer weights are less. -/
theorem sum_le_sum_of_sublist {l l' : List Rat} (fewer : l.Sublist l') (nonneg : ∀ weight ∈ l', 0 ≤ weight) :
    Scalar.sum l ≤ Scalar.sum l' := foldl_add_le fewer nonneg le_rfl

/-- Whether a constraint fails. -/
def fails (env : Env R) (c : Constraint R) : Bool :=
  match c.holds env with
  | .ok (some false) => true
  | _ => false

theorem fails_iff {env : Env R} {c : Constraint R} : fails env c = true ↔ c.holds env = .ok (some false) := by
  rw [fails]
  rcases c.holds env with reason | _ | _ | _ <;> simp

/-- What the constraints weigh that fail. -/
def penalty (worth : R → Rat) (soft : List (Constraint R)) (env : Env R) : Rat :=
  Scalar.sum ((soft.filter (fails env)).map fun c => worth c.weight)

/-- A sum of some of the weights. -/
def IsTotal (weights : List R) (cost : R) : Prop := ∃ l, l.Sublist weights ∧ cost = Scalar.sum l

section Totals

variable {weights : List R} (exact : ExactWeights worth weights) {a b : R}

include exact

theorem IsTotal.lt_iff (first : IsTotal weights a) (second : IsTotal weights b) : a < b ↔ worth a < worth b := by
  obtain ⟨l, sub, rfl⟩ := first
  obtain ⟨l', sub', rfl⟩ := second
  exact exact.lt l l' sub sub'

theorem IsTotal.nonneg (total : IsTotal weights a) : 0 ≤ worth a := by
  obtain ⟨l, sub, rfl⟩ := total
  rw [exact.sum l sub]
  refine sum_le_sum_of_sublist (List.nil_sublist _) fun value member => ?_
  obtain ⟨weight, among, rfl⟩ := List.mem_map.1 member
  exact exact.nonneg weight (sub.subset among)

theorem IsTotal.worth_nonpos (total : IsTotal weights a) (free : a ≤ 0) : worth a ≤ 0 := by
  obtain ⟨l, sub, rfl⟩ := total
  exact (exact.free l sub).1 free

/-- Nothing costs less than what is free. -/
theorem IsTotal.not_lt_of_free (first : IsTotal weights a) (second : IsTotal weights b) (free : b ≤ 0) : ¬ a < b := by
  rw [first.lt_iff exact second, not_lt]
  exact (second.worth_nonpos exact free).trans (first.nonneg exact)

end Totals

section Penalties

variable {soft : List (Constraint R)} (exact : ExactWeights worth (soft.map Constraint.weight))

theorem penalty_congr {env env' : Env R} (agree : ∀ c ∈ soft, ∀ name ∈ c.vars, env name = env' name) :
    penalty worth soft env = penalty worth soft env' := by
  have same : soft.filter (fails env) = soft.filter (fails env') := by
    refine List.filter_congr fun c member => ?_
    rw [fails, fails, Constraint.holds_congr (agree c member)]
  rw [penalty, penalty, same]

theorem isTotal_sum (env : Env R) :
    IsTotal (soft.map Constraint.weight) (Scalar.sum ((soft.filter (fails env)).map Constraint.weight)) :=
  ⟨_, List.filter_sublist.map Constraint.weight, rfl⟩

include exact

theorem worth_sum (env : Env R) :
    worth (Scalar.sum ((soft.filter (fails env)).map Constraint.weight)) = penalty worth soft env := by
  rw [exact.sum _ (List.filter_sublist.map Constraint.weight), List.map_map]
  rfl

/-- More values can only make more fail. -/
theorem penalty_le_of_extends {larger smaller : Env R} (extended : larger.Extends smaller) :
    penalty worth soft smaller ≤ penalty worth soft larger := by
  have more : (soft.filter (fails smaller)).Sublist (soft.filter (fails larger)) := by
    refine List.monotone_filter_right soft fun c failed => ?_
    exact fails_iff.2 (Constraint.holds_of_extends extended (fails_iff.1 failed))
  rw [penalty, penalty]
  refine sum_le_sum_of_sublist (more.map fun c : Constraint R => worth c.weight) fun value member => ?_
  obtain ⟨c, among, rfl⟩ := List.mem_map.1 member
  exact exact.nonneg _ (List.mem_map_of_mem (List.mem_of_mem_filter among))

theorem penalty_nonneg (env : Env R) : 0 ≤ penalty worth soft env :=
  worth_sum exact env ▸ (isTotal_sum env).nonneg exact

end Penalties

namespace ConstraintSearch

variable {problem : Problem R} {state : State}

/-- The constraints that need not hold. -/
def Problem.preferences (problem : Problem R) : List (Constraint R) := problem.soft.map Placed.constraint

/-- An assignment with its rating, however it was found. -/
structure Answer (R : Type) where
  assignment : Assignment R
  cost : R
  violated : List String

end ConstraintSearch

/-- The assignment of a solution with its rating. -/
def Solution.answer (solution : Solution R) : ConstraintSearch.Answer R :=
  ⟨solution.assignment, solution.cost, solution.violated⟩

namespace ConstraintSearch

variable {problem : Problem R} {state : State}

section Answers

theorem failing_eq {cs : List (Placed R)} {failures : List (Constraint R)}
    (judged : failing problem state cs = .ok failures) :
    failures = (cs.map Placed.constraint).filter (fails (problem.env state.assigned)) := by
  induction cs generalizing failures with
  | nil =>
    cases judged
    rfl
  | cons c rest ih =>
    rw [failing] at judged
    obtain ⟨verdict, holds, judged⟩ := Lists.bind_eq_ok judged
    obtain ⟨others, later, judged⟩ := Lists.bind_eq_ok judged
    cases judged
    rw [List.map_cons, List.filter_cons, fails, holds, ih later]
    rcases verdict with _ | _ | _ <;> rfl

/-- What a leaf has to offer, if it can be judged. -/
def answer? (problem : Problem R) (state : State) : Option (Answer R) :=
  match failing problem state problem.soft with
  | .ok failures =>
    some ⟨problem.assignment state, Scalar.sum (failures.map Constraint.weight), failures.map Constraint.name⟩
  | .error _ => none

theorem answer?_eq_some {answer : Answer R} (judged : answer? problem state = some answer) :
    answer = ⟨problem.assignment state,
      Scalar.sum ((problem.preferences.filter (fails (problem.env state.assigned))).map Constraint.weight),
      (problem.preferences.filter (fails (problem.env state.assigned))).map Constraint.name⟩ := by
  rw [answer?] at judged
  cases failed : failing problem state problem.soft with
  | error reason => simp [failed] at judged
  | ok failures =>
    rw [failed] at judged
    cases judged
    rw [failing_eq failed]
    rfl

/-- The better of an answer and the best one so far, which wins a tie. -/
def keep (best : Option (Answer R)) (answer : Answer R) : Option (Answer R) :=
  match best with
  | none => some answer
  | some held => if answer.cost < held.cost then some answer else some held

/-- The first of the cheapest leaves, in the order in which they are met. -/
def cheapest? (problem : Problem R) (best : Option (Answer R)) (states : List State) : Option (Answer R) :=
  (states.filterMap (answer? problem)).foldl keep best

theorem cheapest?_append (best : Option (Answer R)) (first second : List State) :
    cheapest? problem best (first ++ second) = cheapest? problem (cheapest? problem best first) second := by
  rw [cheapest?, List.filterMap_append, List.foldl_append]
  rfl

/-- Leaves that do not cost less change nothing. -/
theorem cheapest?_of_not_lt {held : Answer R} {states : List State}
    (dear : ∀ leaf ∈ states, ∀ answer, answer? problem leaf = some answer → ¬ answer.cost < held.cost) :
    cheapest? problem (some held) states = some held := by
  rw [cheapest?]
  refine List.foldlRecOn (motive := (· = some held)) _ _ rfl fun best same answer member => ?_
  obtain ⟨leaf, among, judged⟩ := List.mem_filterMap.1 member
  rw [same, keep]
  exact if_neg (dear leaf among answer judged)

theorem keep_eq_some {best : Option (Answer R)} {answer held : Answer R} (kept : keep best answer = some held) :
    best = some held ∨ held = answer := by
  cases best with
  | none =>
    cases kept
    exact .inr rfl
  | some other =>
    rw [keep] at kept
    split at kept
    · exact .inr (Option.some.inj kept).symm
    · exact .inl kept

theorem cheapest?_eq_some {best : Option (Answer R)} {states : List State} {held : Answer R}
    (found : cheapest? problem best states = some held) :
    best = some held ∨ ∃ leaf ∈ states, answer? problem leaf = some held := by
  induction states generalizing best with
  | nil => exact .inl found
  | cons leaf rest ih =>
    have split : cheapest? problem best (leaf :: rest) =
        cheapest? problem (cheapest? problem best [leaf]) rest := cheapest?_append best [leaf] rest
    rw [split] at found
    rcases ih found with here | ⟨later, among, judged⟩
    · cases judged : answer? problem leaf with
      | none =>
        rw [cheapest?, List.filterMap_cons_none judged] at here
        exact .inl here
      | some answer =>
        rw [cheapest?, List.filterMap_cons_some judged] at here
        rcases keep_eq_some here with before | rfl
        · exact .inl before
        · exact .inr ⟨leaf, by simp, judged⟩
    · exact .inr ⟨later, by simp [among], judged⟩

/-- The cost of the best answer is a sum of some of the weights. -/
def Graded (problem : Problem R) (best : Option (Answer R)) : Prop :=
  ∀ held, best = some held → IsTotal (problem.preferences.map Constraint.weight) held.cost

theorem isTotal_of_answer? {answer : Answer R} (judged : answer? problem state = some answer) :
    IsTotal (problem.preferences.map Constraint.weight) answer.cost := by
  rw [answer?_eq_some judged]
  exact isTotal_sum _

theorem Graded.cheapest? {best : Option (Answer R)} (graded : Graded problem best) (states : List State) :
    Graded problem (cheapest? problem best states) := by
  intro held found
  rcases cheapest?_eq_some found with before | ⟨leaf, _, judged⟩
  · exact graded held before
  · exact isTotal_of_answer? judged

variable (exact : ExactWeights worth (problem.preferences.map Constraint.weight))

include exact

theorem worth_of_answer? {answer : Answer R} (judged : answer? problem state = some answer) :
    worth answer.cost = penalty worth problem.preferences (problem.env state.assigned) := by
  rw [answer?_eq_some judged]
  exact worth_sum exact _

/-- Where an answer is free, no leaf costs less. -/
theorem cheapest?_of_free {best : Option (Answer R)} (graded : Graded problem best) {held : Answer R}
    (known : best = some held) (free : held.cost ≤ 0) (states : List State) : cheapest? problem best states = best := by
  rw [known]
  refine cheapest?_of_not_lt fun leaf _ answer judged => ?_
  exact (isTotal_of_answer? judged).not_lt_of_free exact (graded held known) free

end Answers

end ConstraintSearch

end Deliberation
