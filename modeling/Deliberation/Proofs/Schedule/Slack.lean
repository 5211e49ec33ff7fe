import Deliberation.Proofs.Fact.Bindings
import Deliberation.Proofs.Schedule.CriticalChains
import Deliberation.Proofs.Schedule.Earliest

/-!
How far activities can move. The slack of a placed activity is the time until the first of those that
follow it starts, or until the end; the slack of the critical path method is the time until one of them
has to start. Where nothing is in the way of any activity, the first is never more than the second, and
less as soon as all those that would have to wait could.
-/

namespace Deliberation

namespace CriticalPath

variable {network : Network} {durations : List Rat} {makespan : Rat} {timing : Nat → Timing Rat} {i : Nat}

theorem isLeast_earliest (bound : Rat) (times : List Rat) : IsLeast {time | time = bound ∨ time ∈ times} (earliest bound times) := by
  refine ⟨earliest_eq_bound_or_mem bound times, ?_⟩
  rintro time (rfl | member)
  · exact earliest_le_bound time times
  · exact earliest_le member

/-- When the first of those that follow an activity starts, or when everything ends. -/
def firstFollower (network : Network) (makespan : Rat) (timing : Nat → Timing Rat) (i : Nat) : Rat :=
  earliest makespan ((network.successors i).map fun j => (timing j).earliestStart)

namespace Times

variable (times : Times network durations makespan timing)
include times

theorem finish_le_firstFollower (inside : i < network.size) :
    (timing i).earliestFinish ≤ firstFollower network makespan timing i := by
  refine le_earliest_iff.2 ⟨times.finish_le_makespan i inside, fun start member => ?_⟩
  obtain ⟨j, link, rfl⟩ := List.mem_map.1 member
  exact times.finish_le_start i j link

/-- Followers may start before they have to. -/
theorem firstFollower_le_late (sequenced : network.Sequenced) :
    firstFollower network makespan timing i ≤ (timing i).latestFinish := by
  rcases times.late_reached i with last | ⟨j, link, start⟩
  · exact last ▸ earliest_le_bound _ _
  · have possible := times.start_le_late sequenced (sequenced.within i j link).2
    have first : firstFollower network makespan timing i ≤ (timing j).earliestStart :=
      earliest_le (List.mem_map_of_mem (f := fun j => (timing j).earliestStart) link)
    exact start ▸ first.trans possible

/-- The first follower starts when the first one has to start exactly where it is one that cannot move. -/
theorem firstFollower_eq_late_iff (sequenced : network.Sequenced) (nonneg : ∀ duration ∈ durations, 0 ≤ duration) :
    firstFollower network makespan timing i = (timing i).latestFinish ↔ network.successors i = [] ∨
      ∃ j ∈ network.successors i, (timing j).latestStart = (timing j).earliestStart ∧
        ∀ k ∈ network.successors i, (timing j).earliestStart ≤ (timing k).earliestStart := by
  have first_le : ∀ k ∈ network.successors i, firstFollower network makespan timing i ≤ (timing k).earliestStart :=
    fun k link => earliest_le (List.mem_map_of_mem (f := fun j => (timing j).earliestStart) link)
  constructor
  · intro same
    refine (eq_or_ne (network.successors i) []).imp_right fun followed => ?_
    obtain ⟨j, link, bound⟩ : ∃ j ∈ network.successors i, (timing j).latestStart ≤ (timing i).latestFinish := by
      rcases times.late_reached i with last | ⟨j, link, start⟩
      -- nothing has to start after the end, so any follower will do
      · obtain ⟨j, link⟩ := List.exists_mem_of_ne_nil _ followed
        refine ⟨j, link, ?_⟩
        have ends := times.late_le_makespan j
        have takes := span_nonneg nonneg [j]
        rw [span_singleton] at takes
        rw [last]
        linarith [times.late_eq j (sequenced.within i j link).2]
      · exact ⟨j, link, start.ge⟩
    have possible := times.start_le_late sequenced (sequenced.within i j link).2
    have first := first_le j link
    exact ⟨j, link, by linarith, fun k other => by linarith [first_le k other]⟩
  · rintro (none | ⟨j, link, critical, least⟩)
    · rcases times.late_reached i with last | ⟨j, link, -⟩
      · rw [firstFollower, none, last]
        rfl
      · rw [none] at link
        cases link
    · refine le_antisymm (times.firstFollower_le_late sequenced) ?_
      refine le_earliest_iff.2 ⟨times.late_le_makespan i, fun start member => ?_⟩
      obtain ⟨k, other, rfl⟩ := List.mem_map.1 member
      exact (times.late_le_start i j link).trans (critical.trans_le (least k other))

end Times

theorem Analyzed.whole_firstFollower {path : CriticalPath Rat} (analyzed : Analyzed network durations path timing)
    (i : Nat) : Whole (firstFollower network path.makespan timing i) := by
  rcases earliest_eq_bound_or_mem path.makespan ((network.successors i).map fun j => (timing j).earliestStart) with last | member
  · rw [firstFollower, last]
    exact analyzed.whole_makespan
  · obtain ⟨j, link, same⟩ := List.mem_map.1 member
    rw [firstFollower, ← same]
    exact (analyzed.whole_times (analyzed.sequenced.within i j link).2).1

end CriticalPath

namespace Leveling

variable {load : Workload Rat} {progress : Progress Rat} {path : CriticalPath Rat} {timing : Nat → Timing Rat} {i : Nat}

/-- Everything is placed, at the earliest of whole times. -/
structure Undelayed (load : Workload Rat) (progress : Progress Rat) (path : CriticalPath Rat) (timing : Nat → Timing Rat) : Prop where
  kept : Kept load progress
  complete : Complete load progress
  size : load.network.size = load.activities.length
  analyzed : CriticalPath.Analyzed load.network (load.activities.map Activity.duration) path timing
  prompt : Prompt load progress.placed

namespace Undelayed

variable (undelayed : Undelayed load progress path timing)
include undelayed

theorem measured : load.Measured path.makespan timing :=
  ⟨undelayed.analyzed.sequenced, undelayed.size, undelayed.analyzed.times⟩

/-- The starts of those that follow an activity are the earliest ones. -/
theorem followers_eq (i : Nat) : (load.network.successors i).filterMap (fun j => (progress.find? j).map Placed.start) =
    (load.network.successors i).map fun j => (timing j).earliestStart := by
  have each : ∀ j ∈ load.network.successors i, (progress.find? j).map Placed.start = some (timing j).earliestStart := by
    intro j link
    have inside := (undelayed.analyzed.sequenced.within i j link).2
    obtain ⟨other, member, rfl⟩ := undelayed.complete.exists_placed (undelayed.size ▸ inside)
    rw [undelayed.kept.find?_eq_some_iff.2 ⟨member, rfl⟩, Option.map_some,
      (undelayed.kept.times_eq undelayed.measured undelayed.prompt member).1]
  rw [List.filterMap_congr each, List.filterMap_eq_map']

/-- An activity has its earliest times, and can move until the first that follows it starts. -/
theorem placement_eq {placement : Placement Rat} (there : (progress.schedule load).placements[i]? = some placement) :
    placement.start = (timing i).earliestStart ∧ placement.finish = (timing i).earliestFinish ∧
      placement.slack = CriticalPath.firstFollower load.network path.makespan timing i - (timing i).earliestFinish := by
  have makespan := undelayed.kept.makespan_eq undelayed.complete undelayed.measured undelayed.prompt
  rw [getElem?_schedule, Option.map_eq_some_iff] at there
  obtain ⟨activity, listed, rfl⟩ := there
  have inside := (List.getElem?_eq_some_iff.1 listed).1
  obtain ⟨other, member, rfl⟩ := undelayed.complete.exists_placed inside
  cases Option.some.inj (listed.symm.trans (undelayed.kept.listed other member))
  obtain ⟨start, finish, _⟩ := placement_of_placed undelayed.kept member (progress.schedule load).makespan
  obtain ⟨start_eq, finish_eq⟩ := undelayed.kept.times_eq undelayed.measured undelayed.prompt member
  refine ⟨start.trans start_eq, finish.trans finish_eq, ?_⟩
  have sized : other.index < load.network.size := undelayed.size ▸ inside
  have room := undelayed.analyzed.times.finish_le_firstFollower sized
  have whole := (undelayed.analyzed.whole_firstFollower other.index).sub (undelayed.analyzed.whole_times sized).2.1
  rw [placement, undelayed.kept.find?_eq_some_iff.2 ⟨member, rfl⟩]
  simp only [undelayed.followers_eq, makespan, finish_eq]
  exact whole.eq_of_nonneg (sub_nonneg.2 room)

/-- An activity is shown to start at its earliest start. -/
theorem exists_start_iff (inside : i < load.network.size) {time : Rat} :
    (∃ placement, (progress.schedule load).placements[i]? = some placement ∧ time = placement.start) ↔
      time = (timing i).earliestStart := by
  constructor
  · rintro ⟨placement, there, rfl⟩
    exact (undelayed.placement_eq there).1
  · rintro rfl
    obtain ⟨placement, there⟩ : ∃ placement, (progress.schedule load).placements[i]? = some placement := by
      rw [getElem?_schedule, List.getElem?_eq_getElem (undelayed.size ▸ inside)]
      exact ⟨_, rfl⟩
    exact ⟨placement, there, (undelayed.placement_eq there).1.symm⟩

section Moving

variable {placement : Placement Rat} (there : (progress.schedule load).placements[i]? = some placement)
include there

theorem lt_size : i < load.network.size := by
  rw [getElem?_schedule, Option.map_eq_some_iff] at there
  obtain ⟨activity, listed, _⟩ := there
  exact undelayed.size ▸ (List.getElem?_eq_some_iff.1 listed).1

theorem isLeast_move : IsLeast {time | time = path.makespan ∨ ∃ j ∈ load.network.successors i, time = (timing j).earliestStart}
    (placement.finish + placement.slack) := by
  obtain ⟨_, finish, slack⟩ := undelayed.placement_eq there
  have first := CriticalPath.isLeast_earliest path.makespan ((load.network.successors i).map fun j => (timing j).earliestStart)
  simp only [List.mem_map, eq_comm] at first
  rw [finish, slack, add_sub_cancel]
  exact first

theorem slack_nonneg : 0 ≤ placement.slack := by
  obtain ⟨_, _, slack⟩ := undelayed.placement_eq there
  rw [slack]
  exact sub_nonneg.2 (undelayed.analyzed.times.finish_le_firstFollower (undelayed.lt_size there))

/-- Both slacks are counted from the earliest finish. -/
theorem timing_slack_eq : (timing i).slack = (timing i).latestFinish - (timing i).earliestFinish := by
  have inside := undelayed.lt_size there
  rw [undelayed.analyzed.slack_eq inside, undelayed.analyzed.times.late_eq i inside,
    undelayed.analyzed.times.finish_eq i inside, add_sub_add_right_eq_sub]

theorem slack_le : placement.slack ≤ (timing i).slack := by
  obtain ⟨_, _, slack⟩ := undelayed.placement_eq there
  rw [slack, undelayed.timing_slack_eq there]
  exact sub_le_sub_right (undelayed.analyzed.times.firstFollower_le_late undelayed.analyzed.sequenced) _

theorem slack_eq_iff (durations : ∀ activity ∈ load.activities, 0 ≤ activity.duration) :
    placement.slack = (timing i).slack ↔ load.network.successors i = [] ∨ ∃ j ∈ load.network.successors i,
      (timing j).slack = 0 ∧ ∀ k ∈ load.network.successors i, (timing j).earliestStart ≤ (timing k).earliestStart := by
  obtain ⟨_, _, slack⟩ := undelayed.placement_eq there
  have nonneg : ∀ duration ∈ load.activities.map Activity.duration, 0 ≤ duration := by simpa using durations
  have critical : ∀ j ∈ load.network.successors i,
      ((timing j).slack = 0 ↔ (timing j).latestStart = (timing j).earliestStart) := by
    intro j link
    rw [undelayed.analyzed.slack_eq (undelayed.analyzed.sequenced.within i j link).2, sub_eq_zero]
  rw [slack, undelayed.timing_slack_eq there, sub_left_inj,
    undelayed.analyzed.times.firstFollower_eq_late_iff undelayed.analyzed.sequenced nonneg]
  refine or_congr_right (exists_congr fun j => and_congr_right fun link => ?_)
  rw [critical j link]

end Moving

end Undelayed

end Leveling

namespace ScheduleProblem

open Leveling (Unhindered Undelayed)
open Network (Follows)

section Moving

variable {problem : ScheduleProblem Rat} {options : ScheduleOptions Rat} {schedule : Schedule Rat}

/-- A schedule shows by name what leveling and the critical path method find. -/
theorem of_solve (solved : problem.solve options = .ok schedule) : problem.validate = .ok () ∧ ∃ network leveled,
    Network.build problem.activities problem.precedence = .ok network ∧
    level problem.activities problem.resources network
      (.analyze network (problem.activities.map Activity.duration)) options.horizon = .ok leveled ∧
    schedule.makespan = leveled.makespan ∧
    schedule.placements = .ofList ((problem.activities.map Activity.name).zip leveled.placements) ∧
    schedule.timings = .ofList ((problem.activities.map Activity.name).zip
      (CriticalPath.analyze network (problem.activities.map Activity.duration)).timings) := by
  rw [solve] at solved
  obtain ⟨_, valid, solved⟩ := Lists.bind_eq_ok solved
  obtain ⟨network, built, solved⟩ := Lists.bind_eq_ok solved
  obtain ⟨leveled, done, solved⟩ := Lists.bind_eq_ok solved
  obtain ⟨check, _, solved⟩ := Lists.bind_eq_ok solved
  split at solved
  · cases solved
  · obtain ⟨optimization, _, solved⟩ := Lists.bind_eq_ok solved
    cases solved
    exact ⟨valid, network, leveled, built, done, rfl, rfl, rfl⟩

/-- How far a placed activity can move: until the first of those that follow it starts, or until the end.
That is no farther than the critical path method lets it, and as far only where nothing follows it, or
where the first that follows cannot move itself. -/
structure Moves (problem : ScheduleProblem Rat) (schedule : Schedule Rat) (name : String) (placement : Placement Rat)
    (timing : Timing Rat) : Prop where
  least : IsLeast {time | time = schedule.makespan ∨ ∃ after next, Follows problem.activities problem.precedence name after ∧
    schedule.placements.get? after = some next ∧ time = next.start} (placement.finish + placement.slack)
  nonneg : 0 ≤ placement.slack
  le : placement.slack ≤ timing.slack
  eq_iff : placement.slack = timing.slack ↔ (∀ after, ¬ Follows problem.activities problem.precedence name after) ∨
    ∃ after first, Follows problem.activities problem.precedence name after ∧
      schedule.timings.get? after = some first ∧ first.slack = 0 ∧
      ∀ other next, Follows problem.activities problem.precedence name other → schedule.timings.get? other = some next →
        first.earliestStart ≤ next.earliestStart

/-- What a schedule shows by name is what leveling and the critical path method find by place. -/
structure Shows (problem : ScheduleProblem Rat) (schedule : Schedule Rat) (network : Network) (placements : List (Placement Rat))
    (timing : Nat → Timing Rat) : Prop where
  distinct : (problem.activities.map Activity.name).Nodup
  named : ∀ i, (∃ name, (problem.activities.map Activity.name)[i]? = some name) ↔ i < network.size
  placed : ∀ name placement, schedule.placements.get? name = some placement ↔
    ∃ i : Nat, (problem.activities.map Activity.name)[i]? = some name ∧ placements[i]? = some placement
  timed : ∀ name own, schedule.timings.get? name = some own ↔
    ∃ i : Nat, (problem.activities.map Activity.name)[i]? = some name ∧ timing i = own
  follows : ∀ i before after, (problem.activities.map Activity.name)[i]? = some before →
    (Follows problem.activities problem.precedence before after ↔
      ∃ j ∈ network.successors i, (problem.activities.map Activity.name)[j]? = some after)

/-- Where nothing is in the way, a schedule shows the earliest times. -/
theorem exists_undelayed (solved : problem.solve options = .ok schedule) (unhindered : Unhindered problem.activities)
    (whole : ∀ activity ∈ problem.activities, Whole activity.duration) :
    ∃ network limit progress timing,
      let path := CriticalPath.analyze network (problem.activities.map Activity.duration)
      let load := problem.workload network path limit
      schedule.makespan = path.makespan ∧ Undelayed load progress path timing ∧
        (∀ activity ∈ load.activities, 0 ≤ activity.duration) ∧
        problem.Shows schedule network (progress.schedule load).placements timing := by
  obtain ⟨valid, network, leveled, built, done, makespan, placements, timings⟩ := of_solve solved
  have valid := valid_of_validate valid
  obtain ⟨known, represents⟩ := Network.represents_of_build built
  obtain ⟨progress, rfl, stands, complete⟩ := exists_complete built done
  let path := CriticalPath.analyze network (problem.activities.map Activity.duration)
  let limit := options.horizon.getD (problem.activities.map Activity.duration).sum
  obtain ⟨timing, listed, measured⟩ := exists_measured built path limit
  have analyzed : CriticalPath.Analyzed network (problem.activities.map Activity.duration) path timing :=
    ⟨measured.sequenced, by simpa using whole, by rw [represents.size_eq, ← listed], measured.times⟩
  have undelayed : Undelayed (problem.workload network path limit) progress path timing :=
    ⟨stands.kept, complete, measured.size, analyzed, stands.prompt unhindered⟩
  refine ⟨network, limit, progress, timing, ?_, undelayed, ?_, ?_⟩
  · exact makespan.trans (stands.kept.makespan_eq complete measured (stands.prompt unhindered))
  · exact fun activity member => (valid.activity activity member).1
  have size : network.size = (problem.activities.map Activity.name).length := by rw [represents.size_eq, List.length_map]
  have named (i : Nat) : (∃ name, (problem.activities.map Activity.name)[i]? = some name) ↔ i < network.size := by
    rw [size]
    exact ⟨fun ⟨_, here⟩ => (List.getElem?_eq_some_iff.1 here).1, fun inside => ⟨_, List.getElem?_eq_getElem inside⟩⟩
  constructor
  · exact valid.distinct
  · exact named
  · intro name placement
    rw [placements, NameMap.get?_ofList_zip_eq_some_iff valid.distinct (by simp [Leveling.Progress.schedule, workload])]
  · intro name own
    rw [timings, NameMap.get?_ofList_zip_eq_some_iff valid.distinct (by simp [listed])]
    refine exists_congr fun i => and_congr_right fun here => ?_
    rw [analyzed.getElem?_timings ((named i).1 ⟨name, here⟩), Option.some_inj]
  · exact fun i before after here => represents.follows_iff known here

namespace Shows

variable {network : Network} {placements : List (Placement Rat)} {timing : Nat → Timing Rat} {name other : String} {i j : Nat}
  (shows : problem.Shows schedule network placements timing)
include shows

theorem place_eq (here : (problem.activities.map Activity.name)[i]? = some name)
    (there : (problem.activities.map Activity.name)[j]? = some name) : i = j := by
  obtain ⟨inside, _⟩ := List.getElem?_eq_some_iff.1 here
  exact (List.getElem?_inj inside shows.distinct).1 (here.trans there.symm)

/-- What a table has for some follower of an activity it has for a successor of its place. -/
theorem exists_follower_iff (sequenced : network.Sequenced) (here : (problem.activities.map Activity.name)[i]? = some name)
    {α : Type} {table : NameMap α} {has : Nat → α → Prop} (tabled : ∀ name entry, table.get? name = some entry ↔
      ∃ i : Nat, (problem.activities.map Activity.name)[i]? = some name ∧ has i entry) {p : α → Prop} :
    (∃ after next, Follows problem.activities problem.precedence name after ∧ table.get? after = some next ∧ p next) ↔
      ∃ j ∈ network.successors i, ∃ next, has j next ∧ p next := by
  constructor
  · rintro ⟨after, next, follows, found, held⟩
    obtain ⟨j, link, there⟩ := (shows.follows i name after here).1 follows
    obtain ⟨k, there', own⟩ := (tabled after next).1 found
    obtain rfl := shows.place_eq there there'
    exact ⟨j, link, next, own, held⟩
  · rintro ⟨j, link, next, own, held⟩
    obtain ⟨after, there⟩ := (shows.named j).2 (sequenced.within i j link).2
    exact ⟨after, next, (shows.follows i name after here).2 ⟨j, link, there⟩, (tabled after next).2 ⟨j, there, own⟩, held⟩

theorem exists_timed_iff (sequenced : network.Sequenced) (here : (problem.activities.map Activity.name)[i]? = some name)
    {p : Timing Rat → Prop} :
    (∃ after next, Follows problem.activities problem.precedence name after ∧ schedule.timings.get? after = some next ∧
      p next) ↔ ∃ j ∈ network.successors i, p (timing j) := by
  rw [shows.exists_follower_iff sequenced here shows.timed]
  simp only [exists_eq_left']

theorem forall_timed_iff (sequenced : network.Sequenced) (here : (problem.activities.map Activity.name)[i]? = some name)
    {p : Timing Rat → Prop} :
    (∀ after next, Follows problem.activities problem.precedence name after → schedule.timings.get? after = some next →
      p next) ↔ ∀ j ∈ network.successors i, p (timing j) := by
  have none := not_congr (shows.exists_timed_iff sequenced here (p := fun next => ¬ p next))
  push Not at none
  exact none

theorem not_follows_iff (sequenced : network.Sequenced) (here : (problem.activities.map Activity.name)[i]? = some name) :
    (∀ after, ¬ Follows problem.activities problem.precedence name after) ↔ network.successors i = [] := by
  rw [List.eq_nil_iff_forall_not_mem]
  constructor
  · intro none j link
    obtain ⟨after, there⟩ := (shows.named j).2 (sequenced.within i j link).2
    exact none after ((shows.follows i name after here).2 ⟨j, link, there⟩)
  · intro none after follows
    obtain ⟨j, link, _⟩ := (shows.follows i name after here).1 follows
    exact none j link

end Shows

/-- Where nothing is needed, all activities may run side by side and durations are whole, a placed
activity can move until the first of those that follow it starts: no farther than the critical path method
lets it, and as far only where nothing follows it, or where the first that follows cannot move itself. -/
theorem solve_slack (solved : problem.solve options = .ok schedule) (unhindered : Unhindered problem.activities)
    (whole : ∀ activity ∈ problem.activities, Whole activity.duration) {name : String} {placement : Placement Rat}
    {own : Timing Rat} (placed : schedule.placements.get? name = some placement) (timed : schedule.timings.get? name = some own) :
    problem.Moves schedule name placement own := by
  obtain ⟨network, limit, progress, timing, makespan, undelayed, durations, shows⟩ := exists_undelayed solved unhindered whole
  obtain ⟨i, here, there⟩ := (shows.placed name placement).1 placed
  obtain ⟨j, here', rfl⟩ := (shows.timed name own).1 timed
  obtain rfl := shows.place_eq here here'
  have sequenced := undelayed.analyzed.sequenced
  constructor
  · have starts (time : Rat) : (∃ after next, Follows problem.activities problem.precedence name after ∧
        schedule.placements.get? after = some next ∧ time = next.start) ↔
        ∃ j ∈ network.successors i, time = (timing j).earliestStart := by
      rw [shows.exists_follower_iff sequenced here shows.placed]
      exact exists_congr fun j => and_congr_right fun link => undelayed.exists_start_iff (sequenced.within i j link).2
    simp only [starts, makespan]
    exact undelayed.isLeast_move there
  · exact undelayed.slack_nonneg there
  · exact undelayed.slack_le there
  · rw [undelayed.slack_eq_iff there durations, shows.not_follows_iff sequenced here]
    refine or_congr_right (Iff.trans ?_ (shows.exists_timed_iff sequenced here).symm)
    simp only [shows.forall_timed_iff sequenced here]
    rfl

end Moving

theorem whole_bench : ∀ activity ∈ bench.activities, Whole activity.duration := by
  simp only [bench, List.forall_mem_cons]
  exact ⟨⟨1, rfl⟩, ⟨1, rfl⟩, ⟨5, rfl⟩, by simp⟩

def bench.leveled : Leveled Rat := ⟨[⟨0, 1, 1, 0⟩, ⟨1, 2, 1, 3⟩, ⟨0, 5, 5, 0⟩], 5, .ofList []⟩

section Bench

open Leveling

def bench.load : Workload Rat := bench.workload bench.network bench.path (bench.activities.map Activity.duration).sum

def bench.cut : Placed Rat := ⟨0, ⟨"cut", 1, none, [], [], true⟩, 0, 1⟩

def bench.glue : Placed Rat := ⟨1, ⟨"glue", 1, none, [], ["cut"], true⟩, 1, 2⟩

def bench.dry : Placed Rat := ⟨2, ⟨"dry", 5, none, [], [], true⟩, 0, 5⟩

/-- Nothing keeps the cutting from starting at once beside the drying, and the glueing after it. -/
theorem level_bench_eq : level bench.activities bench.resources bench.network bench.path none = .ok bench.leveled := by
  have dried : placeAll bench.load 3 bench.load.first = placeAll bench.load 2 ⟨[bench.dry], .ofList []⟩ := by
    with_unfolding_all rfl
  have cut : place bench.load ⟨[bench.dry], .ofList []⟩ 0 bench.cut.activity =
      .ok ⟨[bench.dry, bench.cut], .ofList []⟩ :=
    (place_of_unhindered rfl rfl (by decide) (by decide +kernel)).trans (by with_unfolding_all rfl)
  have glued : place bench.load ⟨[bench.dry, bench.cut], .ofList []⟩ 1 bench.glue.activity =
      .ok ⟨[bench.dry, bench.cut, bench.glue], .ofList []⟩ :=
    (place_of_unhindered rfl rfl (by decide) (by decide +kernel)).trans (by with_unfolding_all rfl)
  have placed : placeAll bench.load 3 bench.load.first = .ok ⟨[bench.dry, bench.cut, bench.glue], .ofList []⟩ := by
    rw [dried, placeAll_of_place (by with_unfolding_all rfl) rfl cut, placeAll_of_place (by with_unfolding_all rfl) rfl glued]
    rfl
  refine Eq.trans (level_of_placeAll rfl placed) ?_
  with_unfolding_all rfl

end Bench

theorem solve_bench : ∃ schedule, bench.solve ⟨none, ⟨0, 0⟩⟩ = .ok schedule ∧
    schedule.placements = .ofList ((bench.activities.map Activity.name).zip bench.leveled.placements) ∧
    schedule.timings = .ofList ((bench.activities.map Activity.name).zip bench.path.timings) := by
  rw [solve, validate_bench]
  simp only [build_bench]
  change ∃ schedule, (level bench.activities bench.resources bench.network bench.path none >>= _) = .ok schedule ∧ _
  rw [level_bench_eq]
  exact ⟨_, rfl, rfl, rfl⟩

/-- Nothing follows the glueing, which can move as far as the critical path method lets it. -/
theorem bench_moves : ∃ schedule placement timing, bench.solve ⟨none, ⟨0, 0⟩⟩ = .ok schedule ∧
    schedule.placements.get? "glue" = some placement ∧ schedule.timings.get? "glue" = some timing ∧
    Unhindered bench.activities ∧ (∀ activity ∈ bench.activities, Whole activity.duration) ∧
    bench.Moves schedule "glue" placement timing ∧ placement.slack = timing.slack := by
  obtain ⟨schedule, solved, placements, timings⟩ := solve_bench
  have placed : schedule.placements.get? "glue" = some ⟨1, 2, 1, 3⟩ := by rw [placements]; rfl
  have timed : schedule.timings.get? "glue" = some ⟨1, 2, 4, 5, 3⟩ := by rw [timings]; with_unfolding_all rfl
  have moves := solve_slack solved unhindered_bench whole_bench placed timed
  refine ⟨schedule, _, _, solved, placed, timed, unhindered_bench, whole_bench, moves, moves.eq_iff.2 (.inl ?_)⟩
  rintro after (⟨member, rfl, among⟩ | ⟨member, _, _⟩)
  · simp only [bench, List.mem_cons, List.not_mem_nil, or_false] at member
    rcases member with rfl | rfl | rfl <;> simp at among
  · cases member

/-- The cutting may start three hours later when the glueing does, but is said not to move at all. -/
theorem bench_cut_held : ∃ schedule placement timing, bench.solve ⟨none, ⟨0, 0⟩⟩ = .ok schedule ∧
    Unhindered bench.activities ∧ (∀ activity ∈ bench.activities, Whole activity.duration) ∧
    schedule.placements.get? "cut" = some placement ∧ schedule.timings.get? "cut" = some timing ∧
    placement.slack = 0 ∧ timing.slack = 3 := by
  obtain ⟨schedule, solved, placements, timings⟩ := solve_bench
  have placed : schedule.placements.get? "cut" = some ⟨0, 1, 1, 0⟩ := by rw [placements]; rfl
  have timed : schedule.timings.get? "cut" = some ⟨0, 1, 3, 4, 3⟩ := by rw [timings]; with_unfolding_all rfl
  exact ⟨schedule, _, _, solved, unhindered_bench, whole_bench, placed, timed, rfl, rfl⟩

end ScheduleProblem

end Deliberation
