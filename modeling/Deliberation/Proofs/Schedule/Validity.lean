import Deliberation.Proofs.Schedule.Consumption
import Deliberation.Schedule.Problem

/-!
Valid scheduling problems: what validation accepts.
-/

namespace Deliberation.ScheduleProblem

section Checks

variable {R : Type} [Scalar R] {problem : ScheduleProblem R} {activity : Activity R}

theorem validateDemand_eq_ok_iff {demand : Demand R} : problem.validateDemand activity demand = .ok () ↔
    ∃ resource, problem.resources.find? (·.name = demand.resource) = some resource ∧
      Distribution.isDuration demand.quantity = true ∧ ∀ skill ∈ demand.skill, resource.skills.contains skill = true := by
  rw [validateDemand]
  cases found : problem.resources.find? (·.name = demand.resource) with
  | none => simp [throw, throwThe, MonadExceptOf.throw]
  | some resource =>
    by_cases sound : Distribution.isDuration demand.quantity = true
    · cases wanted : demand.skill with
      | none => simp [sound, pure, Except.pure]
      | some skill =>
        by_cases skilled : skill ∈ resource.skills
        · simp [sound, skilled, pure, Except.pure]
        · simp [sound, skilled, throw, throwThe, MonadExceptOf.throw]
    · simp [sound, bind, Except.bind, throw, throwThe, MonadExceptOf.throw]

theorem validateActivity_eq_ok_iff : problem.validateActivity activity = .ok () ↔
    Distribution.isDuration activity.duration = true ∧
      (∀ distribution ∈ activity.distribution, distribution.validate activity.name = .ok ()) ∧
      ∀ demand ∈ activity.demands, problem.validateDemand activity demand = .ok () := by
  rw [validateActivity, ← Lists.forM_eq_ok_iff]
  by_cases sound : Distribution.isDuration activity.duration = true
  · cases drawn : activity.distribution with
    | none => simp [sound]
    | some distribution =>
      cases valid : distribution.validate activity.name <;> simp [sound, valid, bind, Except.bind]
  · simp [sound, bind, Except.bind, throw, throwThe, MonadExceptOf.throw]

theorem validateActivities_eq_ok_iff {names : List String} {activities : List (Activity R)} :
    problem.validateActivities names activities = .ok () ↔
      (∀ activity ∈ activities, problem.validateActivity activity = .ok ()) ∧
        (activities.map Activity.name).Nodup ∧ ∀ activity ∈ activities, activity.name ∉ names := by
  induction activities generalizing names with
  | nil => simp [validateActivities]
  | cons activity rest ih =>
    by_cases known : activity.name ∈ names
    · simp [validateActivities, known, bind, Except.bind, throw, throwThe, MonadExceptOf.throw]
    · have step : problem.validateActivities names (activity :: rest) = .ok () ↔
          problem.validateActivity activity = .ok () ∧ problem.validateActivities (activity.name :: names) rest = .ok () := by
        rw [validateActivities, if_neg known]
        cases problem.validateActivity activity <;> simp [bind, Except.bind]
      rw [step, ih, List.forall_mem_cons, List.forall_mem_cons, List.map_cons, List.nodup_cons]
      have apart : (∀ other ∈ rest, other.name ∉ activity.name :: names) ↔
          activity.name ∉ rest.map Activity.name ∧ ∀ other ∈ rest, other.name ∉ names := by grind
      rw [apart]
      tauto

/-- Validation accepts the problems whose capacities are possible, and whose activities are valid and differ
in their names. -/
theorem validate_eq_ok_iff : problem.validate = .ok () ↔
    (∀ resource ∈ problem.resources, Distribution.isDuration resource.capacity = true) ∧
      (∀ activity ∈ problem.activities, problem.validateActivity activity = .ok ()) ∧
      (problem.activities.map Activity.name).Nodup := by
  rw [validate]
  by_cases possible : ∀ resource ∈ problem.resources, Distribution.isDuration resource.capacity = true
  · have accepting : problem.resources.find? (!Distribution.isDuration ·.capacity) = none := by
      simpa using possible
    rw [accepting]
    dsimp only
    rw [validateActivities_eq_ok_iff]
    constructor
    · rintro ⟨each, distinct, _⟩
      exact ⟨possible, each, distinct⟩
    · rintro ⟨_, each, distinct⟩
      exact ⟨each, distinct, by simp⟩
  · cases found : problem.resources.find? (!Distribution.isDuration ·.capacity) with
    | none => exact absurd (by simpa using found) possible
    | some resource => simp [possible, throw, throwThe, MonadExceptOf.throw]

end Checks

variable {problem : ScheduleProblem Rat} {activity : Activity Rat}

theorem isDuration_iff {x : Rat} : Distribution.isDuration x = true ↔ 0 ≤ x := by
  simp [Distribution.isDuration, Scalar.isFinite]

/-- Capacities, durations and demands are not negative, and no two activities share a name. -/
structure Valid (problem : ScheduleProblem Rat) : Prop where
  capacity : ∀ resource ∈ problem.resources, 0 ≤ resource.capacity
  activity : ∀ activity ∈ problem.activities, 0 ≤ activity.duration ∧ activity.Asks
  distinct : (problem.activities.map Activity.name).Nodup

theorem valid_of_validate (accepted : problem.validate = .ok ()) : problem.Valid := by
  obtain ⟨capacities, activities, distinct⟩ := validate_eq_ok_iff.1 accepted
  refine ⟨fun resource member => isDuration_iff.1 (capacities resource member), ?_, distinct⟩
  intro activity member
  obtain ⟨duration, _, demands⟩ := validateActivity_eq_ok_iff.1 (activities activity member)
  refine ⟨isDuration_iff.1 duration, fun demand among => ?_⟩
  obtain ⟨_, _, quantity, _⟩ := validateDemand_eq_ok_iff.1 (demands demand among)
  exact isDuration_iff.1 quantity

/-- What leveling has to do for a scheduling problem. -/
def workload (problem : ScheduleProblem Rat) (network : Network) (path : CriticalPath Rat) (limit : Rat) :
    Leveling.Workload Rat :=
  ⟨problem.activities, problem.resources, network, path, limit⟩

theorem level_eq (problem : ScheduleProblem Rat) (network : Network) (path : CriticalPath Rat) (horizon : Option Rat) :
    level problem.activities problem.resources network path horizon =
      (problem.workload network path (horizon.getD (problem.activities.map Activity.duration).sum)).level.mapError
        .infeasible := by
  rw [level, workload, Scalar.sum_eq]

/-- A schedule is read off from where everything is placed. -/
theorem level_of_placeAll {network : Network} {path : CriticalPath Rat} {horizon : Option Rat} {load : Leveling.Workload Rat}
    {progress : Leveling.Progress Rat}
    (own : load = problem.workload network path (horizon.getD (problem.activities.map Activity.duration).sum))
    (placed : Leveling.placeAll load load.activities.length load.first = .ok progress) :
    level problem.activities problem.resources network path horizon = .ok (progress.schedule load) := by
  rw [level_eq, ← own, Leveling.level_eq, placed]
  rfl

theorem Valid.sound (valid : problem.Valid) (named : (problem.resources.map Resource.name).Nodup) (network : Network)
    (path : CriticalPath Rat) (limit : Rat) : (problem.workload network path limit).Sound :=
  ⟨valid.capacity, valid.activity, named⟩

end Deliberation.ScheduleProblem
