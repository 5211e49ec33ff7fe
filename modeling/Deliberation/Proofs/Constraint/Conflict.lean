import Deliberation.Proofs.Constraint.Components
import Deliberation.Proofs.Constraint.Solving

/-!
Conflicts are minimal: what is reported cannot hold together, and leaving out any one constraint of it
leaves constraints that can.
-/

namespace Deliberation

variable {R : Type} [Scalar R] {vars : List (Variable R)} {options : SolveOptions}

/-- Constraints that cannot hold together, none of which can be left out for that. -/
structure Critical (vars : List (Variable R)) (constraints : List (Constraint R)) : Prop where
  unsatisfiable : ¬ Satisfiable vars constraints
  needed : ∀ i < constraints.length, Satisfiable vars (constraints.eraseIdx i)

section Trials

/-- Whether a trial has shown that constraints cannot hold together. -/
def isRefuted : Except (SolveError R) (Option Bool) → Bool
  | .ok (some false) => true
  | _ => false

/-- Whether a trial did not end at its budget. -/
def isAnswered : Except (SolveError R) (Option Bool) → Bool
  | .ok none => false
  | _ => true

/-- The trials that are made while members of a group are left out. -/
def shrinkTrials (vars : List (Variable R)) (options : SolveOptions) :
    (kept rest : List (Constraint R)) → List (List (Constraint R))
  | _, [] => []
  | kept, c :: rest => (kept ++ rest) ::
      if isRefuted (satisfiable? vars options (kept ++ rest)) then shrinkTrials vars options kept rest
      else shrinkTrials vars options (kept ++ [c]) rest

/-- The trials that are made on the way to a conflict: groups in turn, until one of them cannot hold and is
looked into. -/
def conflictTrials (vars : List (Variable R)) (constraints : List (Constraint R)) (options : SolveOptions) :
    List (List Nat) → List (List (Constraint R))
  | [] => []
  | group :: groups => membersOf constraints group ::
      if isRefuted (satisfiable? vars options (membersOf constraints group)) then
        shrinkTrials vars options [] (membersOf constraints group)
      else conflictTrials vars constraints options groups

/-- No trial ends at its budget. -/
def Settled (vars : List (Variable R)) (options : SolveOptions) (trials : List (List (Constraint R))) : Prop :=
  ∀ trial ∈ trials, satisfiable? vars options trial ≠ .ok none

theorem shrinkTrials_refuted {kept rest : List (Constraint R)} {c : Constraint R}
    (refuted : satisfiable? vars options (kept ++ rest) = .ok (some false)) :
    shrinkTrials vars options kept (c :: rest) = (kept ++ rest) :: shrinkTrials vars options kept rest := by
  rw [shrinkTrials, refuted]
  rfl

theorem shrinkTrials_needed {kept rest : List (Constraint R)} {c : Constraint R}
    (found : satisfiable? vars options (kept ++ rest) = .ok (some true)) :
    shrinkTrials vars options kept (c :: rest) = (kept ++ rest) :: shrinkTrials vars options (kept ++ [c]) rest := by
  rw [shrinkTrials, found]
  rfl

end Trials

/-- What has come of looking at groups: all can hold, or a critical part of one is found. -/
def Explains (vars : List (Variable R)) (constraints : List (Constraint R)) (groups : List (List Nat)) :
    Option (List (Constraint R)) → Prop
  | none => ∀ group ∈ groups, Satisfiable vars (membersOf constraints group)
  | some conflict => (∃ group ∈ groups, conflict.Sublist (membersOf constraints group)) ∧ Critical vars conflict

section Shrinking

variable (stocked : Stocked vars) (distinct : (vars.map Variable.name).Nodup)

include stocked distinct

/-- Trials tell the truth, also about all variables. -/
theorem satisfiable?_iff {constraints : List (Constraint R)} (declared : Declared vars constraints) {verdict : Bool}
    (answered : satisfiable? vars options constraints = .ok (some verdict)) :
    verdict = true ↔ Satisfiable vars constraints := by
  have cases := @satisfiable?_cases _ _ _ options stocked.expandable distinct _ declared
  rw [answered] at cases
  rcases cases with ⟨same, satisfiable⟩ | ⟨same, unsatisfiable⟩ | same | ⟨same, _⟩
  · cases same
    exact iff_of_true rfl (satisfiable_of_scope stocked distinct satisfiable)
  · cases same
    refine iff_of_false (by simp) fun satisfiable => unsatisfiable ?_
    obtain ⟨env, chosen, holds⟩ := satisfiable
    exact ⟨env, fun v member => chosen v (mem_scope.1 member).1, holds⟩
  · cases same
  · cases same

theorem shrinks_of_shrink {kept rest conflict : List (Constraint R)} (declared : Declared vars (kept ++ rest))
    (settled : Settled vars options (shrinkTrials vars options kept rest))
    (shrunk : shrink vars options kept rest = .ok conflict) :
    Lists.Shrinks (Satisfiable vars) kept rest conflict := by
  induction rest generalizing kept with
  | nil =>
    cases shrunk
    exact .done
  | cons c rest ih =>
    have fewer : (kept ++ rest).Sublist (kept ++ c :: rest) := (List.sublist_cons_self c rest).append_left kept
    have declared' : Declared vars (kept ++ rest) := fun other member => declared other (fewer.subset member)
    rw [shrink] at shrunk
    obtain ⟨answer, answered, shrunk⟩ := Lists.bind_eq_ok shrunk
    rcases answer with _ | _ | _
    · exact absurd answered (settled _ List.mem_cons_self)
    · rw [shrinkTrials_refuted answered] at settled
      have refuted : ¬ Satisfiable vars (kept ++ rest) := by
        rw [← satisfiable?_iff stocked distinct declared' answered]
        simp
      exact .leave refuted (ih declared' (fun trial member => settled trial (.tail _ member)) shrunk)
    · rw [shrinkTrials_needed answered] at settled
      have found : Satisfiable vars (kept ++ rest) := (satisfiable?_iff stocked distinct declared' answered).1 rfl
      rw [List.append_cons] at declared
      exact .keep found (ih declared (fun trial member => settled trial (.tail _ member)) shrunk)

/-- What is left after shrinking is critical. -/
theorem shrink_critical {constraints conflict : List (Constraint R)} (declared : Declared vars constraints)
    (unsatisfiable : ¬ Satisfiable vars constraints)
    (settled : Settled vars options (shrinkTrials vars options [] constraints))
    (shrunk : shrink vars options [] constraints = .ok conflict) :
    conflict.Sublist constraints ∧ Critical vars conflict := by
  have shrinks : Lists.Shrinks (Satisfiable vars) [] constraints conflict :=
    shrinks_of_shrink stocked distinct declared settled shrunk
  obtain ⟨sub, fails, needed⟩ := shrinks.minimal (fun _ _ sub satisfiable => satisfiable.mono sub.subset) unsatisfiable
    fun i inside => by cases inside
  exact ⟨sub, fails, needed⟩

/-- Groups are looked at until one of them cannot hold. -/
theorem firstConflict?_explains {constraints : List (Constraint R)} {groups : List (List Nat)} (declared : Declared vars constraints)
    (settled : Settled vars options (conflictTrials vars constraints options groups))
    {found : Option (List (Constraint R))} (looked : firstConflict? vars constraints options groups = .ok found) :
    Explains vars constraints groups found := by
  induction groups with
  | nil =>
    cases looked
    exact fun group member => (by cases member)
  | cons group groups ih =>
    have declared' : Declared vars (membersOf constraints group) := by
      intro c member
      obtain ⟨_, _, there⟩ := List.mem_filterMap.1 member
      exact declared c (List.mem_of_getElem? there)
    rw [firstConflict?] at looked
    obtain ⟨answer, answered, looked⟩ := Lists.bind_eq_ok looked
    have answered : satisfiable? vars options (membersOf constraints group) = .ok answer := answered
    rw [conflictTrials, answered] at settled
    rcases answer with _ | _ | _
    · exact absurd answered (settled _ List.mem_cons_self)
    · obtain ⟨conflict, shrunk, same⟩ := Lists.bind_eq_ok looked
      cases same
      have refuted : ¬ Satisfiable vars (membersOf constraints group) := by
        rw [← satisfiable?_iff stocked distinct declared' answered]
        simp
      obtain ⟨sub, critical⟩ := shrink_critical stocked distinct declared' refuted
        (fun trial member => settled trial (.tail _ member)) shrunk
      exact ⟨⟨group, List.mem_cons_self, sub⟩, critical⟩
    · have satisfiable := (satisfiable?_iff stocked distinct declared' answered).1 rfl
      have later := ih (fun trial member => settled trial (.tail _ member)) looked
      cases found with
      | none =>
        intro other member
        rcases List.mem_cons.1 member with rfl | member
        · exact satisfiable
        · exact later other member
      | some conflict =>
        obtain ⟨⟨other, member, sub⟩, critical⟩ := later
        exact ⟨⟨other, List.mem_cons_of_mem _ member, sub⟩, critical⟩

end Shrinking

section Minimality

variable {hard soft : List (Constraint R)}

/-- The options of trials. -/
def SolveOptions.forTrials (options : SolveOptions) : SolveOptions := { options with strategy := .firstSolution }

theorem minimalConflict_eq (vars : List (Variable R)) (hard : List (Constraint R)) (options : SolveOptions) :
    minimalConflict vars hard options = (firstConflict? vars hard options.forTrials (components vars hard)).map
      fun conflict => (conflict.getD hard).map Constraint.name := by
  rw [minimalConflict, SolveOptions.forTrials]
  cases firstConflict? vars hard { options with strategy := .firstSolution } (components vars hard) <;> rfl

/-- Constraints that cannot hold together have a critical part, whose names are reported, unless a trial is
stopped where the least integer is divided by minus one. -/
theorem minimalConflict_is_critical (valid : validateConstraints vars hard soft = .ok ()) (stocked : Stocked vars)
    (unsatisfiable : ¬ Satisfiable vars hard)
    (settled : Settled vars options.forTrials
      (conflictTrials vars hard options.forTrials (components vars hard))) :
    (∀ fault, minimalConflict vars hard options = .error fault →
        fault = .aborted .leastQuotient ∧ DividesLeast vars hard) ∧
      ((∀ reason, minimalConflict vars hard options ≠ .error (.aborted reason)) →
        ∃ conflict, firstConflict? vars hard options.forTrials (components vars hard) = .ok (some conflict) ∧
          minimalConflict vars hard options = .ok (conflict.map Constraint.name) ∧ conflict.Sublist hard ∧
          Critical vars conflict) := by
  have accepted := accepted_of_validate valid
  have declared : Declared vars hard := fun c member => accepted.declared c (List.mem_append_left _ member)
  refine ⟨fun fault failed => minimalConflict_error stocked.expandable accepted.distinct declared failed, fun unaborted => ?_⟩
  rw [minimalConflict_eq] at unaborted ⊢
  cases looked : firstConflict? vars hard options.forTrials (components vars hard) with
  | error fault =>
    obtain ⟨rfl, _⟩ := firstConflict?_error stocked.expandable accepted.distinct declared looked
    rw [looked] at unaborted
    exact absurd rfl (unaborted .leastQuotient)
  | ok found =>
    have explains := firstConflict?_explains stocked accepted.distinct declared settled looked
    cases found with
    | none => exact absurd (satisfiable_of_components stocked accepted.distinct declared explains) unsatisfiable
    | some conflict =>
      obtain ⟨⟨group, member, sub⟩, critical⟩ := explains
      exact ⟨conflict, rfl, rfl, sub.trans (sublist_of_mem_components member), critical⟩

/-- What asks for the opposite of a constraint. -/
def negated (c : Constraint Rat) : Constraint Rat := ⟨"not " ++ c.name, .not c.predicate, 1⟩

theorem not_satisfiable_negated {vars : List (Variable Rat)} {hard : List (Constraint Rat)} {c : Constraint Rat}
    (member : c ∈ hard) (opposite : negated c ∈ hard) : ¬ Satisfiable vars hard := by
  rintro ⟨env, _, holds⟩
  have first := holds c member
  have second := holds (negated c) opposite
  rw [Constraint.holds, Expr.holds] at first second
  rw [negated, Expr.eval] at second
  cases value : c.predicate.eval env with
  | error fault => rw [value] at first; cases fault <;> cases first
  | ok value' =>
    rw [value] at first second
    cases value' with
    | bool b =>
      cases first
      cases second
    | _ => cases first

theorem settled_of_all {trials : List (List (Constraint R))}
    (each : trials.all (fun trial => isAnswered (satisfiable? vars options trial)) = true) :
    Settled vars options trials := by
  intro trial member undecided
  have answered := List.all_eq_true.1 each trial member
  rw [undecided] at answered
  cases answered

theorem minimalConflict_of_negated :
    ∃ conflict, minimalConflict twoBits [positive "x", positive "y", negated (positive "x")] .standard =
        .ok (conflict.map Constraint.name) ∧
      conflict.Sublist [positive "x", positive "y", negated (positive "x")] ∧ Critical twoBits conflict := by
  have stocked : Stocked twoBits := by
    intro v member
    rcases List.mem_pair.1 member with rfl | rfl
    · exact ⟨_, _, rfl⟩
    · exact ⟨_, _, rfl⟩
  have unsatisfiable : ¬ Satisfiable twoBits [positive "x", positive "y", negated (positive "x")] :=
    not_satisfiable_negated List.mem_cons_self (by simp)
  have valid : validateConstraints twoBits [positive "x", positive "y", negated (positive "x")] [] = .ok () := rfl
  have settled : Settled twoBits SolveOptions.standard.forTrials
      (conflictTrials twoBits [positive "x", positive "y", negated (positive "x")] SolveOptions.standard.forTrials
        (components twoBits [positive "x", positive "y", negated (positive "x")])) :=
    settled_of_all (by decide +kernel)
  obtain ⟨names, reported⟩ := exists_of_isOk
    (show (minimalConflict twoBits [positive "x", positive "y", negated (positive "x")] .standard).isOk = true by
      decide +kernel)
  obtain ⟨conflict, _, same, sub, critical⟩ := (minimalConflict_is_critical valid stocked unsatisfiable settled).2
    fun reason stopped => by rw [reported] at stopped; cases stopped
  exact ⟨conflict, same, sub, critical⟩

/-- No value makes the quotient of the least integer hold, but a trial stops instead of saying so. -/
theorem minimalConflict_aborts_on_least :
    validateConstraints [listedVariable "x" [Int64.minValue]] [quotientPositive] [] = .ok () ∧
      Stocked [listedVariable "x" [Int64.minValue]] ∧
      ¬ Satisfiable [listedVariable "x" [Int64.minValue]] [quotientPositive] ∧
      Settled [listedVariable "x" [Int64.minValue]] SolveOptions.standard.forTrials
        (conflictTrials [listedVariable "x" [Int64.minValue]] [quotientPositive] SolveOptions.standard.forTrials
          (components [listedVariable "x" [Int64.minValue]] [quotientPositive])) ∧
      minimalConflict [listedVariable "x" [Int64.minValue]] [quotientPositive] .standard =
        .error (.aborted .leastQuotient) := by
  refine ⟨rfl, fun v member => ?_, not_satisfiable_quotientPositive, settled_of_all (by decide +kernel), rfl⟩
  rw [List.mem_singleton.1 member]
  exact ⟨_, _, rfl⟩

end Minimality

end Deliberation
