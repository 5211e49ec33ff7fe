import Deliberation.Proofs.Schedule.Blocking
import Deliberation.Proofs.Schedule.Validity

/-!
When leveling succeeds. Without a horizon there is always time left: after the last finish nothing keeps
an activity from starting that does not need more than all of a resource, and nothing that is placed
finishes later than the durations of all of it add up to.
-/

namespace Deliberation.Leveling

variable {load : Workload Rat} {activity : Activity Rat} {progress : Progress Rat} {placed : List (Placed Rat)} {i : Nat}
  {time : Rat} {conflict : ScheduleConflict Rat}

/-- No activity needs more than all of a renewable resource, and all together no more than there is of the others. -/
structure Fits (load : Workload Rat) : Prop where
  renewable : ∀ activity ∈ load.activities, ∀ resource ∈ load.resources, resource.renewable = true →
    activity.need resource.name ≤ resource.capacity + tolerance
  once : ∀ resource ∈ load.resources, resource.renewable = false →
    demandOn load.activities resource.name ≤ resource.capacity + tolerance

/-! ### Enough time -/

theorem Workload.Sound.durations (sound : load.Sound) : ∀ activity ∈ load.activities, 0 ≤ activity.duration :=
  fun activity member => (sound.activity activity member).1

/-- Where no finish is later than the durations add up to, no time that is tried is. -/
theorem Kept.candidate_le_sum (durations : ∀ activity ∈ load.activities, 0 ≤ activity.duration) (kept : Kept load progress)
    (bounded : ∀ other ∈ progress.placed, other.finish ≤ (progress.placed.map (·.activity.duration)).sum)
    (tried : time ∈ candidates progress.placed (readyTime load progress i)) :
    time ≤ (progress.placed.map (·.activity.duration)).sum := by
  rcases eq_zero_or_of_mem_candidates tried with rfl | ⟨other, among, rfl⟩
  · refine List.sum_nonneg ?_
    intro duration member
    obtain ⟨other, among, rfl⟩ := List.mem_map.1 member
    exact durations _ (List.mem_of_getElem? (kept.listed other among))
  · exact bounded other among

/-- The durations of what is placed add up to no less than any finish. -/
theorem Stands.finish_le (durations : ∀ activity ∈ load.activities, 0 ≤ activity.duration) (stands : Stands load progress) :
    ∀ other ∈ progress.placed, other.finish ≤ (progress.placed.map (·.activity.duration)).sum := by
  induction stands with
  | first => simp [Workload.first]
  | @place before _ _ activity stands _ listed places ih =>
    cases places with
    | @placed start _ _ starts =>
      have lasts := durations activity (List.mem_of_getElem? listed)
      have begins := stands.kept.candidate_le_sum durations ih (of_firstStart starts).1
      simp only [List.map_append, List.map_cons, List.map_nil, List.sum_append, List.sum_singleton]
      intro other member
      rcases List.mem_append.1 member with old | new
      · linarith [ih other old]
      · cases List.mem_singleton.1 new
        linarith

/-- Each time that is tried leaves enough time for the activity that comes next. -/
theorem Stands.candidate_le (durations : ∀ activity ∈ load.activities, 0 ≤ activity.duration)
    (stands : Stands load progress) (next : next? load progress = some i)
    (listed : load.activities[i]? = some activity)
    (tried : time ∈ candidates progress.placed (readyTime load progress i)) :
    time + activity.duration ≤ (load.activities.map Activity.duration).sum := by
  have room : (progress.placed.map (·.activity.duration)).sum + activity.duration ≤
      (load.activities.map Activity.duration).sum :=
    stands.kept.sum_add_le next listed durations
  linarith [stands.kept.candidate_le_sum durations (stands.finish_le durations) tried]

/-! ### Enough of the resources -/

/-- When everything else has finished, nothing blocks an activity that does not need more than all of a resource. -/
theorem blocking?_eq_none_of_last (fits : excess? load activity (readyTime load progress i) = none)
    (last : ∀ other ∈ placed, other.finish - tolerance ≤ time) : blocking? load placed activity time = none := by
  refine blocking?_eq_none_iff.2 (.inr ⟨?_, ?_⟩)
  · refine exclusion?_eq_none_iff.2 ?_
    intro other member shares
    simp only [Placed.overlaps, Bool.and_eq_true, decide_eq_true_eq] at shares
    exact absurd shares.2 (not_lt.2 (last other member))
  · refine overload?_eq_none_iff.2 ?_
    intro entry member resource renews point checked
    have after : time ≤ point := by
      rcases checked with rfl | ⟨_, later, _⟩
      · exact le_rfl
      · exact later.le
    have idle : placed.filter (·.isActive point) = [] := by
      refine List.filter_eq_nil_iff.2 ?_
      intro other among active
      simp only [Placed.isActive, Bool.and_eq_true, decide_eq_true_eq] at active
      linarith [active.2, last other among]
    rw [usage, idle]
    simpa [Scalar.sum_eq] using excess?_eq_none_iff.1 fits entry member resource renews

/-- An activity that does not need more than all of a resource finds a start, where the horizon leaves time
for all activities. -/
theorem Stands.exists_firstStart (durations : ∀ activity ∈ load.activities, 0 ≤ activity.duration) (stands : Stands load progress)
    (ample : (load.activities.map Activity.duration).sum ≤ load.horizon) (next : next? load progress = some i)
    (listed : load.activities[i]? = some activity) (fits : excess? load activity (readyTime load progress i) = none) :
    ∃ start, firstStart load progress.placed activity (readyTime load progress i) none
      (candidates progress.placed (readyTime load progress i)) = .ok start := by
  obtain ⟨time, tried, last⟩ := exists_last_candidate progress.placed (readyTime load progress i)
  refine Leveling.exists_firstStart ?_ ⟨time, tried, blocking?_eq_none_of_last fits last⟩
  intro other member
  have early := stands.candidate_le durations next listed member
  linarith [tolerance_pos]

/-- What leveling cannot place needs more than all of a renewable resource, or more than is left of another one. -/
inductive Refused (load : Workload Rat) (progress : Progress Rat) (activity : Activity Rat) :
    ScheduleConflict Rat → Prop
  | capacity {name : String} {resource : Resource Rat} {time : Rat} (renews : Renews load name resource)
      (beyond : resource.capacity + tolerance < activity.need name) :
      Refused load progress activity (.capacity name activity.name time (activity.need name) resource.capacity)
  | exhausted {name : String} {resource : Resource Rat} (once : Once load name resource)
      (beyond : resource.capacity + tolerance <
        demandOn (progress.placed.map Placed.activity) name + activity.need name) :
      Refused load progress activity (.exhausted name activity.name
        (demandOn (progress.placed.map Placed.activity) name) (activity.need name) resource.capacity)

theorem Stands.refused (sound : load.Sound) (stands : Stands load progress)
    (ample : (load.activities.map Activity.duration).sum ≤ load.horizon) (next : next? load progress = some i)
    (listed : load.activities[i]? = some activity) (places : Places load progress i activity (.error conflict)) :
    Refused load progress activity conflict := by
  cases places with
  | excessive excess =>
    obtain ⟨⟨name, requested⟩, member, resource, renews, beyond, rfl⟩ := excess?_eq_some excess
    cases Activity.need_of_mem_totals member
    exact .capacity renews beyond
  | late fits late =>
    obtain ⟨start, starts⟩ := stands.exists_firstStart sound.durations ample next listed fits
    rw [starts] at late
    cases late
  | exhausted exhausted =>
    rw [consume_eq] at exhausted
    obtain ⟨⟨name, requested⟩, member, resource, once, beyond, rfl⟩ :=
      exhausted_of_foldlM (totals_totals activity).distinct exhausted
    cases Activity.need_of_mem_totals member
    simp only [(stands.accounted sound name resource once).1, Option.getD_some] at beyond ⊢
    exact .exhausted once beyond

/-- What leveling refuses does not fit. -/
theorem Refused.not_fits (sound : load.Sound) (stands : Stands load progress) (next : next? load progress = some i)
    (listed : load.activities[i]? = some activity) (refused : Refused load progress activity conflict) :
    ¬ Fits load := by
  intro fits
  cases refused with
  | @capacity name resource _ renews beyond =>
    have known := List.mem_of_find?_eq_some renews.1
    have named : resource.name = name := by simpa using List.find?_some renews.1
    have enough := fits.renewable activity (List.mem_of_getElem? listed) resource known renews.2
    rw [named] at enough
    linarith
  | @exhausted name resource once beyond =>
    have known := List.mem_of_find?_eq_some once.1
    have named : resource.name = name := by simpa using List.find?_some once.1
    have enough := fits.once resource known once.2
    have part := stands.kept.sum_add_le next listed fun activity member =>
      (sound.activity activity member).2.need_nonneg name
    rw [named] at enough
    simp only [demandOn, List.map_map, Function.comp_def] at beyond enough
    linarith

/-- What is placed needs no more than all of a renewable resource. -/
theorem Stands.need_le (sound : load.Sound) (stands : Stands load progress) :
    ∀ other ∈ progress.placed, ∀ resource ∈ load.resources, resource.renewable = true →
      other.activity.need resource.name ≤ resource.capacity + tolerance := by
  induction stands with
  | first => simp [Workload.first]
  | @place _ _ _ activity _ _ _ places ih =>
    cases places with
    | placed fits =>
      intro other member resource known renewable
      rcases List.mem_append.1 member with old | new
      · exact ih other old resource known renewable
      · cases List.mem_singleton.1 new
        rcases activity.mem_totals_or resource.name with listed | ⟨zero, _⟩
        · exact excess?_eq_none_iff.1 fits _ listed resource ⟨sound.resource?_name known, renewable⟩
        · rw [zero]
          linarith [sound.capacity resource known, tolerance_pos]

/-- What is all placed fits. -/
theorem Stands.fits (sound : load.Sound) (stands : Stands load progress) (complete : Complete load progress) :
    Fits load := by
  have perm := stands.kept.perm_activities complete
  constructor
  · intro activity member resource known renewable
    obtain ⟨other, among, rfl⟩ := List.mem_map.1 (perm.mem_iff.2 member)
    exact stands.need_le sound other among resource known renewable
  · intro resource known fixed
    have enough := (stands.accounted sound resource.name resource ⟨sound.resource?_name known, fixed⟩).2
    rwa [demandOn, (perm.map _).sum_eq] at enough

/-- The makespan is no more than the durations add up to. -/
theorem Stands.makespan_le (sound : load.Sound) (stands : Stands load progress) (complete : Complete load progress) :
    (progress.schedule load).makespan ≤ (load.activities.map Activity.duration).sum := by
  have total := ((stands.kept.perm_activities complete).map Activity.duration).sum_eq
  rw [List.map_map] at total
  rw [← total]
  refine CriticalPath.latest_le_iff.2 ⟨?_, ?_⟩
  · rw [total]
    refine List.sum_nonneg ?_
    intro duration member
    obtain ⟨activity, among, rfl⟩ := List.mem_map.1 member
    exact sound.durations activity among
  · intro finish member
    obtain ⟨other, among, rfl⟩ := List.mem_map.1 member
    exact stands.finish_le sound.durations other among

/-- The conflicts of resources, of which there is too little at a time or in all. -/
inductive Scarce : ScheduleConflict Rat → Prop
  | capacity (resource activity : String) (time requested limit : Rat) :
      Scarce (.capacity resource activity time requested limit)
  | exhausted (resource activity : String) (consumed requested limit : Rat) :
      Scarce (.exhausted resource activity consumed requested limit)

/-- Leveling with enough time ends with a schedule of what fits, or with a resource of which there is too little. -/
inductive Settles (load : Workload Rat) : Except (ScheduleConflict Rat) (Leveled Rat) → Prop
  | done {leveled : Leveled Rat} (fits : Fits load)
      (makespan : leveled.makespan ≤ (load.activities.map Activity.duration).sum) : Settles load (.ok leveled)
  | scarce {conflict : ScheduleConflict Rat} (misfit : ¬ Fits load) (scarce : Scarce conflict) :
      Settles load (.error conflict)

theorem settles_level {precedence : List Precedence}
    (built : Network.Built load.activities precedence load.network) (sound : load.Sound)
    (ample : (load.activities.map Activity.duration).sum ≤ load.horizon) : Settles load load.level := by
  rw [level_eq]
  have ends := ends_of_first load
  cases outcome : placeAll load load.activities.length load.first with
  | ok progress =>
    rw [outcome] at ends
    cases ends with
    | done stands ended =>
      have complete := stands.complete built ended
      exact .done (stands.fits sound complete) (stands.makespan_le sound complete)
  | error conflict =>
    rw [outcome] at ends
    cases ends with
    | stuck stands next listed places =>
      have refused := stands.refused sound ample next listed places
      refine .scarce (refused.not_fits sound stands next listed) ?_
      cases refused with
      | capacity => exact .capacity ..
      | exhausted => exact .exhausted ..

end Deliberation.Leveling

namespace Deliberation.ScheduleProblem

open Leveling (Scarce demandOn)

/-- Without a horizon, leveling finds a schedule exactly where each activity fits on every renewable resource
and all together on every other one; a conflict is one of resources, and a schedule takes no longer than one
activity after another. -/
theorem level_ok_iff {problem : ScheduleProblem Rat} {network : Network} {path : CriticalPath Rat}
    (valid : problem.validate = .ok ())
    (built : Network.build problem.activities problem.precedence = .ok network)
    (named : (problem.resources.map Resource.name).Nodup) :
    ((∃ leveled, level problem.activities problem.resources network path none = .ok leveled) ↔
      (∀ activity ∈ problem.activities, ∀ resource ∈ problem.resources, resource.renewable = true →
        activity.need resource.name ≤ resource.capacity + tolerance) ∧
      ∀ resource ∈ problem.resources, resource.renewable = false →
        demandOn problem.activities resource.name ≤ resource.capacity + tolerance) ∧
    (∀ error, level problem.activities problem.resources network path none = .error error →
      ∃ conflict, error = .infeasible conflict ∧ Scarce conflict) ∧
    ∀ leveled, level problem.activities problem.resources network path none = .ok leveled →
      leveled.makespan ≤ (problem.activities.map Activity.duration).sum := by
  rw [level_eq, Option.getD_none]
  let load := problem.workload network path (problem.activities.map Activity.duration).sum
  have sound : load.Sound := (valid_of_validate valid).sound named _ _ _
  have settles : Leveling.Settles load load.level :=
    Leveling.settles_level (Network.built_of_build built) sound le_rfl
  cases outcome : load.level with
  | ok leveled =>
    rw [outcome] at settles
    cases settles with
    | done fits makespan =>
      refine ⟨⟨fun _ => ⟨fits.renewable, fits.once⟩, fun _ => ⟨leveled, rfl⟩⟩, ?_, ?_⟩
      · intro error failed
        cases failed
      · intro other same
        cases same
        exact makespan
  | error conflict =>
    rw [outcome] at settles
    cases settles with
    | scarce misfit scarce =>
      refine ⟨⟨?_, ?_⟩, ?_, ?_⟩
      · rintro ⟨leveled, done⟩
        cases done
      · rintro ⟨renewable, once⟩
        exact absurd ⟨renewable, once⟩ misfit
      · intro error failed
        cases failed
        exact ⟨conflict, rfl, scarce⟩
      · intro leveled done
        cases done

/-- A page is printed and folded on the one machine there is, and the printing uses up the ink. -/
def press : ScheduleProblem Rat where
  activities := [⟨"print", 1 / 2, none, [⟨"machine", 1, none⟩, ⟨"ink", 3, none⟩], [], true⟩,
    ⟨"fold", 1 / 3, none, [⟨"machine", 1, none⟩], ["print"], false⟩]
  resources := [⟨"machine", 1, true, []⟩, ⟨"ink", 3, false, []⟩]
  precedence := []
  objective := .minimizeMakespan
  constraints := []

def press.network : Network := ⟨["print", "fold"], [(0, 1)], [0, 1]⟩

def press.path : CriticalPath Rat := .analyze press.network (press.activities.map Activity.duration)

theorem validate_press : press.validate = .ok () := by with_unfolding_all rfl

theorem build_press :
    Network.build press.activities press.precedence = (.ok press.network : Except (ScheduleError Rat) Network) := rfl

theorem press_fits : press.validate = .ok () ∧
    Network.build press.activities press.precedence = (.ok press.network : Except (ScheduleError Rat) Network) ∧
    (press.resources.map Resource.name).Nodup ∧
    ∃ leveled, level press.activities press.resources press.network press.path none = .ok leveled ∧
      leveled.makespan ≤ 5 / 6 := by
  obtain ⟨fits, _, makespan⟩ := @level_ok_iff press press.network press.path validate_press build_press (by decide)
  have room : ∃ leveled, level press.activities press.resources press.network press.path none = .ok leveled := by
    refine fits.2 ⟨?_, ?_⟩
    · simp [press, Activity.need, needed, tolerance_pos.le]
    · simp [press, Activity.need, needed, demandOn, tolerance_pos.le]
  obtain ⟨leveled, done⟩ := room
  refine ⟨validate_press, build_press, by decide, leveled, done, (makespan leveled done).trans ?_⟩
  norm_num [press]

end Deliberation.ScheduleProblem
