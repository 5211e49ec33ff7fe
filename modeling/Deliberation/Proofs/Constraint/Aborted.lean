import Deliberation.Proofs.Constraint.Exploration

/-!
Searches that stop without an answer. They do so only where a constraint cannot be judged for some of
the values of its variables.
-/

namespace Deliberation.ConstraintSearch

open Deliberation.Lists

variable {R : Type} [Scalar R] {problem : Problem R} {options : SolveOptions} {state : State}

/-- Some constraint cannot be judged for some values. -/
def Problem.Breaks (problem : Problem R) (reason : Abort) : Prop :=
  ∃ c ∈ problem.hard ++ problem.soft, ∃ assigned, c.constraint.holds (problem.env assigned) = .error reason

/-! ### Checks -/

theorem breaks_of_holds {c : Placed R} (member : c ∈ problem.hard ++ problem.soft) :
    FailsOnly problem.Breaks (c.holds problem state) := by
  rw [Placed.holds]
  exact FailsOnly.bind (fun reason stopped => ⟨c, member, state.assigned, stopped⟩) fun _ => failsOnly_ok _

theorem breaks_of_nodeConsistent {cs : List (Placed R)} (members : ∀ c ∈ cs, c ∈ problem.hard) :
    FailsOnly problem.Breaks (nodeConsistent problem cs state) := by
  induction cs generalizing state with
  | nil => exact failsOnly_ok _
  | cons c rest ih =>
    simp only [List.forall_mem_cons] at members
    have member : c ∈ problem.hard ++ problem.soft := List.mem_append_left _ members.1
    rw [nodeConsistent]
    split
    · refine (breaks_of_holds member).bind fun verdict => ?_
      split
      · exact ih members.2
      · exact failsOnly_ok _
    · refine (failsOnly_mapM fun _ _ => breaks_of_holds member).bind fun verdicts => ?_
      dsimp only
      split
      · exact failsOnly_ok _
      · exact ih members.2
    · exact ih members.2

theorem breaks_of_consistent {cs : List (Placed R)} (members : ∀ c ∈ cs, c ∈ problem.hard) :
    FailsOnly problem.Breaks (consistent problem state cs) := by
  induction cs with
  | nil => exact failsOnly_ok _
  | cons c rest ih =>
    simp only [List.forall_mem_cons] at members
    rw [consistent]
    split
    · exact ih members.2
    · refine (breaks_of_holds (List.mem_append_left _ members.1)).bind fun verdict => ?_
      split
      · exact ih members.2
      · exact failsOnly_ok _

theorem breaks_of_consistent_hardOf (place : Nat) :
    FailsOnly problem.Breaks (consistent problem state (problem.hardOf place)) :=
  breaks_of_consistent fun _ member => (List.mem_filter.1 member).1

theorem breaks_of_pruneValues {c : Placed R} (member : c ∈ problem.hard) (place remaining value : Nat) :
    FailsOnly problem.Breaks (pruneValues problem c place remaining value state) := by
  induction remaining generalizing value state with
  | zero => exact failsOnly_ok _
  | succ remaining ih =>
    rw [pruneValues]
    split
    · exact ih _
    · refine (breaks_of_holds (List.mem_append_left _ member)).bind fun verdict => ?_
      split
      · exact ih _
      · exact ih _

theorem breaks_of_forwardCheck {cs : List (Placed R)} (members : ∀ c ∈ cs, c ∈ problem.hard) :
    FailsOnly problem.Breaks (forwardCheck problem cs state) := by
  induction cs generalizing state with
  | nil => exact failsOnly_ok _
  | cons c rest ih =>
    simp only [List.forall_mem_cons] at members
    rw [forwardCheck]
    split
    · refine (breaks_of_pruneValues members.1 _ _ _).bind fun next => ?_
      split
      · exact failsOnly_ok _
      · exact ih members.2
    · exact ih members.2

theorem breaks_of_failing {cs : List (Placed R)} (members : ∀ c ∈ cs, c ∈ problem.soft) :
    FailsOnly problem.Breaks (failing problem state cs) := by
  induction cs with
  | nil => exact failsOnly_ok _
  | cons c rest ih =>
    simp only [List.forall_mem_cons] at members
    rw [failing]
    refine FailsOnly.bind (fun reason stopped => ?_) fun verdict => (ih members.2).bind fun _ => failsOnly_ok _
    exact ⟨c, List.mem_append_right _ members.1, state.assigned, stopped⟩

theorem breaks_of_attempt (place value : Nat) : FailsOnly problem.Breaks (attempt problem state place value) := by
  rw [attempt]
  refine (breaks_of_consistent_hardOf place).bind fun fine => ?_
  split
  · exact failsOnly_ok _
  · exact breaks_of_forwardCheck fun c member => (List.mem_filter.1 member).1

theorem breaks_of_withinBound (progress : Progress R) :
    FailsOnly problem.Breaks (withinBound problem options progress state) := by
  rw [withinBound]
  split
  · rw [softCost]
    exact ((breaks_of_failing fun _ => id).bind fun _ => failsOnly_ok _).bind fun _ => failsOnly_ok _
  · exact failsOnly_ok _

theorem breaks_of_record (tally : Tally R) : FailsOnly problem.Breaks (tally.record problem state) := by
  rw [Tally.record, record]
  exact ((breaks_of_failing fun _ => id).bind fun _ => failsOnly_ok _).bind fun _ => failsOnly_ok _

/-! ### Turns -/

theorem breaks_of_tryValues (place mark remaining value : Nat) (frames before : List Frame) (tally : Tally R) :
    FailsOnly problem.Breaks
      (tryValues problem options place mark frames remaining value (tally.within state before)) := by
  induction remaining generalizing value tally state with
  | zero => exact failsOnly_ok _
  | succ remaining ih =>
    cases live : state.isAlive place value with
    | false =>
      rw [tryValues_dead live]
      exact ih _ _
    | true =>
      rw [tryValues_live live]
      split
      · exact failsOnly_ok _
      · refine (breaks_of_withinBound _).bind fun bounded => ?_
        split
        · refine (breaks_of_attempt place value).bind fun result => ?_
          obtain ⟨passed, child⟩ := result
          cases passed with
          | true => exact failsOnly_ok _
          | false => exact ih _ _
        · exact (breaks_of_consistent_hardOf place).bind fun _ => ih _ _

theorem breaks_of_run (turns : Nat) (descends : Bool) (tally : Tally R) (frames : List Frame) :
    FailsOnly problem.Breaks (run problem options turns descends (tally.within state frames)) := by
  induction turns generalizing descends tally frames state with
  | zero => exact failsOnly_ok _
  | succ turns ih =>
    have closing (state : State) (tally : Tally R) (frames : List Frame) :
        FailsOnly problem.Breaks (run problem options (turns + 1) false (tally.within state frames)) := by
      cases frames with
      | nil => exact failsOnly_ok _
      | cons frame frames =>
        rw [run_children]
        refine (breaks_of_tryValues _ _ _ _ _ _ _).bind fun result => ?_
        cases result with
        | advanced progress => exact @ih progress.state true ⟨progress.best, progress.seen, progress.nodes⟩ _
        | failed progress => exact @ih progress.state false ⟨progress.best, progress.seen, progress.nodes⟩ _
        | overBudget best => exact failsOnly_ok _
    cases descends with
    | false => exact closing state tally frames
    | true =>
      cases chosen : problem.select options.order state with
      | some place =>
        rw [run_inner chosen]
        exact closing _ _ _
      | none =>
        rw [run_leaf chosen]
        refine (breaks_of_record tally).bind fun found => ?_
        split
        · exact failsOnly_ok _
        · exact closing _ _ _

/-- A search only stops without an answer where some constraint cannot be judged. -/
theorem breaks_of_search (problem : Problem R) (options : SolveOptions) :
    FailsOnly problem.Breaks (search problem options) := by
  rw [search]
  refine (breaks_of_nodeConsistent fun _ => id).bind fun result => ?_
  cases result with
  | none => exact failsOnly_ok _
  | some state => exact @breaks_of_run _ _ problem options state (turnBound options) true ⟨none, 0, 0⟩ []

end Deliberation.ConstraintSearch
