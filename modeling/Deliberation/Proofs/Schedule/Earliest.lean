import Deliberation.Proofs.Schedule.Passes
import Deliberation.Proofs.Schedule.Room

/-!
Leveling next to the critical path method. Resources and activities that share no time can only delay: no
activity is placed before its earliest start. Where nothing is needed and all activities may run side by
side, each is placed as soon as its predecessors have finished, and that is at its earliest start.
-/

namespace Deliberation

namespace Leveling

variable {load : Workload Rat} {progress before after : Progress Rat} {placed : List (Placed Rat)}
  {activity : Activity Rat} {timing : Nat → Timing Rat} {makespan : Rat} {i : Nat}

/-- The times of the critical path method for the activities of a workload. -/
structure Workload.Measured (load : Workload Rat) (makespan : Rat) (timing : Nat → Timing Rat) : Prop where
  sequenced : load.network.Sequenced
  size : load.network.size = load.activities.length
  times : CriticalPath.Times load.network (load.activities.map Activity.duration) makespan timing

/-! ### No earlier than the earliest times -/

section Bounds

variable {other : Placed Rat}

theorem Kept.finish_eq (kept : Kept load progress) (measured : load.Measured makespan timing)
    (member : other ∈ progress.placed) :
    (timing other.index).earliestFinish = (timing other.index).earliestStart + other.activity.duration := by
  have inside : other.index < load.network.size := measured.size ▸ kept.index_lt member
  have lasts : (load.activities.map Activity.duration).getD other.index 0 = other.activity.duration := by
    rw [List.getD_eq_getElem?_getD, List.getElem?_map, kept.listed other member]
    rfl
  rw [measured.times.finish_eq other.index inside, lasts]

/-- Nothing is placed before its earliest start. -/
theorem Kept.earliestStart_le (kept : Kept load progress) (measured : load.Measured makespan timing)
    (member : other ∈ progress.placed) : (timing other.index).earliestStart ≤ other.start := by
  have each : ∀ i, ∀ other ∈ progress.placed, other.index = i → (timing i).earliestStart ≤ other.start := by
    -- along the network: the predecessor that sets the earliest start has itself been placed no earlier
    intro i
    induction i using measured.sequenced.forward with
    | step j ih =>
      rintro other member rfl
      rcases measured.times.start_reached other.index with zero | ⟨i, link, start⟩
      · exact zero.trans_le (kept.nonneg other member)
      · obtain ⟨first, among, rfl, waits⟩ := kept.follows other member i (Network.mem_predecessors_iff.2 link)
        have earlier := ih first.index link first among rfl
        rw [start, kept.finish_eq measured among]
        linarith [kept.finish first among]
  exact each other.index other member rfl

theorem Kept.earliestFinish_le (kept : Kept load progress) (measured : load.Measured makespan timing)
    (member : other ∈ progress.placed) : (timing other.index).earliestFinish ≤ other.finish := by
  rw [kept.finish_eq measured member, kept.finish other member]
  linarith [kept.earliestStart_le measured member]

theorem Complete.exists_placed (complete : Complete load progress) (inside : i < load.activities.length) :
    ∃ other ∈ progress.placed, other.index = i :=
  List.mem_map.1 (complete.mem_iff.2 (List.mem_range.2 inside))

/-- All together does not take less time than the critical path. -/
theorem Kept.le_makespan (kept : Kept load progress) (complete : Complete load progress)
    (measured : load.Measured makespan timing) : makespan ≤ (progress.schedule load).makespan := by
  rcases measured.times.makespan_reached with zero | ⟨i, inside, last⟩
  · exact zero.trans_le (CriticalPath.latest_nonneg _)
  · obtain ⟨other, member, rfl⟩ := complete.exists_placed (measured.size ▸ inside)
    rw [last]
    exact (kept.earliestFinish_le measured member).trans (CriticalPath.le_latest (List.mem_map_of_mem member))

/-- What relates everything placed to the times of the critical path method relates the schedule to them. -/
theorem Kept.forall₂_schedule (kept : Kept load progress) (complete : Complete load progress)
    {relates : Placement Rat → Timing Rat → Prop}
    (each : ∀ other ∈ progress.placed,
      relates (placement load progress (progress.schedule load).makespan other.activity other.index) (timing other.index)) :
    List.Forall₂ relates (progress.schedule load).placements ((List.range load.activities.length).map timing) := by
  have timings : (List.range load.activities.length).map timing = load.activities.zipIdx.map fun entry => timing entry.2 := by
    rw [List.range_eq_range', ← List.zipIdx_map_snd, List.map_map]
    rfl
  rw [timings]
  refine List.forall₂_map_left_iff.2 (List.forall₂_map_right_iff.2 (List.forall₂_same.2 ?_))
  intro entry listed
  obtain ⟨other, member, rfl⟩ := List.mem_map.1 ((kept.perm_zipIdx complete).mem_iff.2 listed)
  exact each other member

end Bounds

/-! ### Nothing in the way -/

/-- Activities that need nothing and may all run side by side. -/
structure Unhindered (activities : List (Activity Rat)) : Prop where
  demands : ∀ activity ∈ activities, activity.demands = []
  parallel : ∀ activity ∈ activities, activity.parallel = true

theorem totals_eq_nil (none : activity.demands = []) : activity.totals = [] := by
  rw [Activity.totals, none]
  rfl

/-- An activity that needs nothing starts as soon as it is ready, if it may run beside all others and the
horizon allows it. -/
theorem firstStart_of_unhindered (none : activity.demands = []) (parallel : activity.parallel = true)
    (others : ∀ other ∈ placed, other.activity.parallel = true) (ready : Rat) :
    firstStart load placed activity ready Option.none (candidates placed ready) =
      if load.horizon + tolerance < ready + activity.duration then .error (.horizon activity.name ready load.horizon)
      else .ok ready := by
  have free : blocking? load placed activity ready = Option.none := by
    refine blocking?_eq_none_iff.2 (.inr ⟨?_, ?_⟩)
    · exact exclusion?_eq_none_iff.2 fun other member _ => ⟨others other member, parallel⟩
    · refine overload?_eq_none_iff.2 ?_
      rw [totals_eq_nil none]
      exact List.forall_mem_nil _
  obtain ⟨rest, first⟩ := exists_candidates_eq_cons placed ready
  rw [first, firstStart, free]
  rfl

/-- An activity that needs nothing is placed when it is ready, if it may run beside all others and is over by
the horizon. -/
theorem place_of_unhindered (none : activity.demands = []) (parallel : activity.parallel = true)
    (others : ∀ other ∈ progress.placed, other.activity.parallel = true)
    (early : readyTime load progress i + activity.duration ≤ load.horizon + tolerance) :
    place load progress i activity = .ok ⟨progress.placed ++
      [⟨i, activity, readyTime load progress i, readyTime load progress i + activity.duration⟩], progress.consumption⟩ := by
  have nothing := totals_eq_nil none
  refine place_of_firstStart ?_ ?_ ?_
  · rw [excess?, nothing, List.findSome?_nil]
  · rw [firstStart_of_unhindered none parallel others, if_neg (not_lt.2 early)]
  · rw [consume, nothing, List.foldlM_nil]
    rfl

section Placing

variable (unhindered : Unhindered load.activities)
include unhindered

theorem Unhindered.firstStart_eq (kept : Kept load progress) (listed : load.activities[i]? = some activity) (ready : Rat) :
    firstStart load progress.placed activity ready none (candidates progress.placed ready) =
      if load.horizon + tolerance < ready + activity.duration then .error (.horizon activity.name ready load.horizon)
      else .ok ready := by
  have member := List.mem_of_getElem? listed
  refine firstStart_of_unhindered (unhindered.demands activity member) (unhindered.parallel activity member) ?_ ready
  exact fun other among => unhindered.parallel _ (List.mem_of_getElem? (kept.listed other among))

theorem Unhindered.placed_eq (kept : Kept load before) (listed : load.activities[i]? = some activity)
    (places : Places load before i activity (.ok after)) : after.placed = before.placed ++
      [⟨i, activity, readyTime load before i, readyTime load before i + activity.duration⟩] := by
  cases places with
  | placed fits starts consumed =>
    rw [unhindered.firstStart_eq kept listed] at starts
    split at starts
    · cases starts
    · cases starts
      rfl

/-- Where nothing is in the way, only the horizon keeps an activity from being placed. -/
theorem Unhindered.late_of_error (kept : Kept load before) (listed : load.activities[i]? = some activity)
    {conflict : ScheduleConflict Rat} (places : Places load before i activity (.error conflict)) :
    load.horizon + tolerance < readyTime load before i + activity.duration := by
  have nothing := totals_eq_nil (unhindered.demands activity (List.mem_of_getElem? listed))
  cases places with
  | excessive excess =>
    rw [excess?, nothing] at excess
    cases excess
  | late _ late =>
    rw [unhindered.firstStart_eq kept listed] at late
    split at late
    · assumption
    · cases late
  | exhausted exhausted =>
    rw [consume, nothing] at exhausted
    cases exhausted

/-- Everything is placed at once, or when one of its predecessors finishes. -/
def Prompt (load : Workload Rat) (placed : List (Placed Rat)) : Prop :=
  ∀ other ∈ placed, other.start = 0 ∨
    ∃ p ∈ load.network.predecessors other.index, ∃ first ∈ placed, first.index = p ∧ first.finish = other.start

theorem Stands.prompt (stands : Stands load progress) : Prompt load progress.placed := by
  induction stands with
  | first => simp [Prompt, Workload.first]
  | @place before after i activity stands _ listed places ih =>
    rw [unhindered.placed_eq stands.kept listed places]
    intro other member
    rcases List.mem_append.1 member with old | new
    · refine (ih other old).imp_right ?_
      rintro ⟨p, precedes, first, among, same, ends⟩
      exact ⟨p, precedes, first, List.mem_append_left _ among, same, ends⟩
    · cases List.mem_singleton.1 new
      refine (readyTime_eq_zero_or load before i).imp_right ?_
      rintro ⟨p, precedes, first, among, same, ends⟩
      exact ⟨p, precedes, first, List.mem_append_left _ among, same, ends⟩

end Placing

/-- What is placed without delay is placed at its earliest times. -/
theorem Kept.times_eq (kept : Kept load progress) (measured : load.Measured makespan timing)
    (prompt : Prompt load progress.placed) {other : Placed Rat} (member : other ∈ progress.placed) :
    other.start = (timing other.index).earliestStart ∧ other.finish = (timing other.index).earliestFinish := by
  have starts : ∀ i, ∀ other ∈ progress.placed, other.index = i → other.start ≤ (timing i).earliestStart := by
    -- along the network again: the predecessor that has been waited for finishes at its earliest
    intro i
    induction i using measured.sequenced.forward with
    | step j ih =>
      rintro other member rfl
      rcases prompt other member with zero | ⟨p, precedes, first, among, rfl, ends⟩
      · exact zero.trans_le (measured.times.start_nonneg _)
      · have link := Network.mem_predecessors_iff.1 precedes
        have earlier := ih first.index link first among rfl
        have waits := measured.times.finish_le_start first.index other.index link
        rw [kept.finish_eq measured among] at waits
        linarith [kept.finish first among]
  have start := (starts other.index other member rfl).antisymm (kept.earliestStart_le measured member)
  exact ⟨start, by rw [kept.finish other member, kept.finish_eq measured member, start]⟩

/-- What is placed without delay is through when the critical path is. -/
theorem Kept.makespan_eq (kept : Kept load progress) (complete : Complete load progress)
    (measured : load.Measured makespan timing) (prompt : Prompt load progress.placed) :
    (progress.schedule load).makespan = makespan := by
  refine le_antisymm ?_ (kept.le_makespan complete measured)
  refine CriticalPath.latest_le_iff.2 ⟨measured.times.makespan_nonneg, fun finish member => ?_⟩
  obtain ⟨other, among, rfl⟩ := List.mem_map.1 member
  rw [(kept.times_eq measured prompt among).2]
  exact measured.times.finish_le_makespan other.index (measured.size ▸ kept.index_lt among)

/-- Where nothing is in the way and the horizon leaves time for all activities one after another, leveling
finds a schedule. -/
theorem Unhindered.exists_level (unhindered : Unhindered load.activities)
    (durations : ∀ activity ∈ load.activities, 0 ≤ activity.duration)
    (ample : (load.activities.map Activity.duration).sum ≤ load.horizon) : ∃ leveled, load.level = .ok leveled := by
  rw [level_eq]
  have ends := ends_of_first load
  cases outcome : placeAll load load.activities.length load.first with
  | ok progress => exact ⟨progress.schedule load, rfl⟩
  | error conflict =>
    rw [outcome] at ends
    cases ends with
    | @stuck before i activity _ stands next listed places =>
      -- an activity that is stuck would finish after all others together with it
      have late := unhindered.late_of_error stands.kept listed places
      obtain ⟨rest, first⟩ := exists_candidates_eq_cons before.placed (readyTime load before i)
      have early := stands.candidate_le durations next listed (first ▸ List.mem_cons_self)
      linarith [tolerance_pos]

end Leveling

namespace ScheduleProblem

open Leveling (Unhindered)

section Times

variable {problem : ScheduleProblem Rat} {network : Network} {leveled : Leveled Rat}

/-- The workload of a problem with the times of the critical path method. -/
theorem exists_measured (built : Network.build problem.activities problem.precedence = .ok network)
    (path : CriticalPath Rat) (limit : Rat) : ∃ timing,
      (CriticalPath.analyze network (problem.activities.map Activity.duration)).timings =
        (List.range problem.activities.length).map timing ∧
      (problem.workload network path limit).Measured
        (CriticalPath.analyze network (problem.activities.map Activity.duration)).makespan timing := by
  have sequenced := Network.sequenced_of_build built
  have size := (Network.represents_of_build built).2.size_eq
  obtain ⟨timing, listed, times⟩ := CriticalPath.exists_times sequenced (problem.activities.map Activity.duration)
  exact ⟨timing, by rw [listed, size], sequenced, size, times⟩

/-- A schedule that leveling finds is read off from where everything is placed. -/
theorem exists_complete {path : CriticalPath Rat} {horizon : Option Rat}
    (built : Network.build problem.activities problem.precedence = .ok network)
    (done : level problem.activities problem.resources network path horizon = .ok leveled) :
    let load := problem.workload network path (horizon.getD (problem.activities.map Activity.duration).sum)
    ∃ progress, leveled = progress.schedule load ∧ Leveling.Stands load progress ∧ Leveling.Complete load progress := by
  rw [level_eq] at done
  obtain ⟨progress, _, rfl, stands, ended⟩ := Leveling.exists_progress (Lists.mapError_eq_ok done)
  exact ⟨progress, rfl, stands, stands.complete (Network.built_of_build built) ended⟩

/-- Leveling starts no activity before its earliest start, and takes no less time than the critical path.
Where nothing is needed and all activities may run side by side it finds a schedule, if no horizon is set,
and this has the times of the critical path method. -/
theorem level_earliest (valid : problem.validate = .ok ())
    (built : Network.build problem.activities problem.precedence = .ok network) :
    let path := CriticalPath.analyze network (problem.activities.map Activity.duration)
    (∀ horizon leveled, level problem.activities problem.resources network path horizon = .ok leveled →
      leveled.placements.length = problem.activities.length ∧
      List.Forall₂ (fun placement timing => timing.earliestStart ≤ placement.start) leveled.placements path.timings ∧
      path.makespan ≤ leveled.makespan) ∧
    (Unhindered problem.activities →
      ∃ leveled, level problem.activities problem.resources network path none = .ok leveled ∧
        leveled.placements.length = problem.activities.length ∧
        List.Forall₂ (fun placement timing => placement.start = timing.earliestStart ∧
          placement.finish = timing.earliestFinish) leveled.placements path.timings ∧
        leveled.makespan = path.makespan) := by
  intro path
  constructor
  · intro horizon leveled done
    obtain ⟨progress, rfl, stands, complete⟩ := exists_complete built done
    obtain ⟨timing, listed, measured⟩ := exists_measured built path (horizon.getD (problem.activities.map Activity.duration).sum)
    refine ⟨by simp [Leveling.Progress.schedule, workload], ?_, stands.kept.le_makespan complete measured⟩
    rw [listed]
    refine stands.kept.forall₂_schedule complete fun other member => ?_
    rw [(Leveling.placement_of_placed stands.kept member _).1]
    exact stands.kept.earliestStart_le measured member
  · intro unhindered
    obtain ⟨timing, listed, measured⟩ := exists_measured built path (problem.activities.map Activity.duration).sum
    have durations : ∀ activity ∈ problem.activities, 0 ≤ activity.duration :=
      fun activity member => ((valid_of_validate valid).activity activity member).1
    obtain ⟨leveled, found⟩ : ∃ leveled,
        (problem.workload network path (problem.activities.map Activity.duration).sum).level = .ok leveled :=
      Unhindered.exists_level unhindered durations le_rfl
    have done : level problem.activities problem.resources network path none = .ok leveled := by
      rw [level_eq, Option.getD_none, found]
      rfl
    obtain ⟨progress, rfl, stands, complete⟩ := exists_complete built done
    have prompt := stands.prompt unhindered
    refine ⟨_, done, by simp [Leveling.Progress.schedule, workload], ?_, stands.kept.makespan_eq complete measured prompt⟩
    rw [listed]
    refine stands.kept.forall₂_schedule complete fun other member => ?_
    obtain ⟨start, finish, _⟩ := Leveling.placement_of_placed stands.kept member _
    rw [start, finish]
    exact stands.kept.times_eq measured prompt member

end Times

/-- Two activities one after the other, and one beside them that takes longer. -/
def bench : ScheduleProblem Rat where
  activities := [⟨"cut", 1, none, [], [], true⟩, ⟨"glue", 1, none, [], ["cut"], true⟩, ⟨"dry", 5, none, [], [], true⟩]
  resources := []
  precedence := []
  objective := .minimizeMakespan
  constraints := []

def bench.network : Network := ⟨["cut", "glue", "dry"], [(0, 1)], [2, 0, 1]⟩

def bench.path : CriticalPath Rat := .analyze bench.network (bench.activities.map Activity.duration)

theorem validate_bench : bench.validate = .ok () := by with_unfolding_all rfl

theorem build_bench :
    Network.build bench.activities bench.precedence = (.ok bench.network : Except (ScheduleError Rat) Network) := rfl

theorem unhindered_bench : Unhindered bench.activities := by constructor <;> simp [bench]

theorem level_bench : ∃ leveled, level bench.activities bench.resources bench.network bench.path none = .ok leveled ∧
    List.Forall₂ (fun placement timing => placement.start = timing.earliestStart ∧
      placement.finish = timing.earliestFinish) leveled.placements bench.path.timings ∧ leveled.makespan = 5 := by
  obtain ⟨_, found⟩ := level_earliest validate_bench build_bench
  obtain ⟨leveled, done, _, same, ends⟩ := found unhindered_bench
  have length : bench.path.makespan = 5 := by decide +kernel
  exact ⟨leveled, done, same, ends.trans length⟩

end ScheduleProblem

end Deliberation
