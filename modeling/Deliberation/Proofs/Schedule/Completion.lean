import Mathlib.Algebra.Order.BigOperators.Group.List
import Mathlib.Data.List.Perm.Subperm
import Deliberation.Proofs.Schedule.Placing
import Deliberation.Proofs.Schedule.Order

/-!
Leveling places every activity, once and after its predecessors. What is placed stays where it is, and
as long as the network has an activity left, one of those left has all of its predecessors placed.
-/

namespace Deliberation.Leveling

variable {load : Workload Rat} {progress before after : Progress Rat} {i : Nat} {activity : Activity Rat}

/-- The ready time is no earlier than the finish of a predecessor. -/
theorem finish_le_readyTime {p : Nat} {other : Placed Rat} (precedes : p ∈ load.network.predecessors i)
    (found : progress.find? p = some other) : other.finish ≤ readyTime load progress i := by
  refine CriticalPath.le_latest (List.mem_filterMap.2 ⟨p, precedes, ?_⟩)
  rw [found, Option.map_some]

theorem readyTime_nonneg (load : Workload Rat) (progress : Progress Rat) (i : Nat) : 0 ≤ readyTime load progress i :=
  CriticalPath.latest_nonneg _

/-- An activity is ready at once, or when one of its predecessors has finished. -/
theorem readyTime_eq_zero_or (load : Workload Rat) (progress : Progress Rat) (i : Nat) : readyTime load progress i = 0 ∨
    ∃ p ∈ load.network.predecessors i, ∃ other ∈ progress.placed, other.index = p ∧ other.finish = readyTime load progress i := by
  refine (CriticalPath.latest_eq_zero_or_mem _).imp_right fun finish => ?_
  obtain ⟨p, precedes, found⟩ := List.mem_filterMap.1 finish
  obtain ⟨other, there, same⟩ := Option.map_eq_some_iff.1 found
  obtain ⟨member, own⟩ := mem_of_find? there
  exact ⟨p, precedes, other, member, own, same⟩

/-- Leveling tries to start an activity at once, or when another one finishes. -/
theorem eq_zero_or_of_mem_candidates {time : Rat}
    (member : time ∈ candidates progress.placed (readyTime load progress i)) :
    time = 0 ∨ ∃ other ∈ progress.placed, other.finish = time := by
  rcases (of_mem_candidates member).2 with rfl | later
  · refine (readyTime_eq_zero_or load progress i).imp_right ?_
    rintro ⟨p, _, other, among, _, same⟩
    exact ⟨other, among, same⟩
  · exact .inr later

/-- What is placed is one of the activities, each at most once; it takes its time, and starts when its
predecessors have finished. -/
structure Kept (load : Workload Rat) (progress : Progress Rat) : Prop where
  listed : ∀ placed ∈ progress.placed, load.activities[placed.index]? = some placed.activity
  distinct : (progress.placed.map Placed.index).Nodup
  finish : ∀ placed ∈ progress.placed, placed.finish = placed.start + placed.activity.duration
  nonneg : ∀ placed ∈ progress.placed, 0 ≤ placed.start
  follows : ∀ placed ∈ progress.placed, ∀ p ∈ load.network.predecessors placed.index,
    ∃ other ∈ progress.placed, other.index = p ∧ other.finish ≤ placed.start

theorem kept_first : Kept load load.first := by
  constructor <;> simp [Workload.first]

theorem Kept.find?_eq_some_iff (kept : Kept load progress) {placed : Placed Rat} :
    progress.find? i = some placed ↔ placed ∈ progress.placed ∧ placed.index = i := by
  constructor
  · exact mem_of_find?
  · rintro ⟨member, rfl⟩
    exact Lists.find?_key kept.distinct member

theorem Kept.listed_append (kept : Kept load progress) {new : Placed Rat}
    (listed : load.activities[new.index]? = some new.activity) :
    ∀ placed ∈ progress.placed ++ [new], load.activities[placed.index]? = some placed.activity := by
  intro placed member
  rcases List.mem_append.1 member with old | last
  · exact kept.listed placed old
  · rw [List.mem_singleton.1 last]
    exact listed

theorem Kept.distinct_append (kept : Kept load progress) (next : next? load progress = some i) {new : Placed Rat}
    (same : new.index = i) : ((progress.placed ++ [new]).map Placed.index).Nodup := by
  obtain ⟨_, fresh, _⟩ := of_next? next
  rw [List.map_append, List.nodup_append]
  refine ⟨kept.distinct, by simp, ?_⟩
  rintro _ old _ last rfl
  obtain ⟨placed, member, known⟩ := List.mem_map.1 old
  have last : placed.index = new.index := known.trans (by simpa using last)
  have there := isSome_find?_iff.2 ⟨placed, member, last.trans same⟩
  rw [fresh] at there
  cases there

theorem Kept.place (kept : Kept load before) (next : next? load before = some i)
    (listed : load.activities[i]? = some activity) (places : Places load before i activity (.ok after)) :
    Kept load after := by
  obtain ⟨_, _, ready⟩ := of_next? next
  cases places with
  | @placed start consumption fits starts consumed =>
    have later := (of_mem_candidates (of_firstStart starts).1).1
    constructor
    · exact kept.listed_append listed
    · exact kept.distinct_append next rfl
    · intro placed member
      rcases List.mem_append.1 member with old | new
      · exact kept.finish placed old
      · cases List.mem_singleton.1 new
        rfl
    · intro placed member
      rcases List.mem_append.1 member with old | new
      · exact kept.nonneg placed old
      · cases List.mem_singleton.1 new
        exact (readyTime_nonneg load before i).trans later
    · intro placed member p precedes
      rcases List.mem_append.1 member with old | new
      · obtain ⟨other, among, same, early⟩ := kept.follows placed old p precedes
        exact ⟨other, List.mem_append_left _ among, same, early⟩
      · cases List.mem_singleton.1 new
        obtain ⟨other, found⟩ := Option.isSome_iff_exists.1 (ready p precedes)
        obtain ⟨among, same⟩ := mem_of_find? found
        exact ⟨other, List.mem_append_left _ among, same, (finish_le_readyTime precedes found).trans later⟩

theorem Stands.kept (stands : Stands load progress) : Kept load progress := by
  induction stands with
  | first => exact kept_first
  | place _ next listed places ih => exact ih.place next listed places

theorem Kept.index_lt (kept : Kept load progress) {placed : Placed Rat} (member : placed ∈ progress.placed) :
    placed.index < load.activities.length :=
  (List.getElem?_eq_some_iff.1 (kept.listed placed member)).1

/-- The indices of what is placed are those of the activities, in some order. -/
def Complete (load : Workload Rat) (progress : Progress Rat) : Prop :=
  (progress.placed.map Placed.index).Perm (List.range load.activities.length)

theorem Kept.complete_of_length (kept : Kept load progress)
    (enough : progress.placed.length = load.activities.length) : Complete load progress := by
  have within : progress.placed.map Placed.index ⊆ List.range load.activities.length := by
    intro i member
    obtain ⟨placed, among, rfl⟩ := List.mem_map.1 member
    exact List.mem_range.2 (kept.index_lt among)
  refine (List.subperm_of_subset kept.distinct within).perm_of_length_le ?_
  simp [enough]

theorem Kept.complete_of_covers (kept : Kept load progress)
    (covers : ∀ i < load.activities.length, ∃ placed ∈ progress.placed, placed.index = i) : Complete load progress := by
  refine (List.perm_ext_iff_of_nodup kept.distinct List.nodup_range).2 ?_
  intro i
  simp only [List.mem_map, List.mem_range]
  constructor
  · rintro ⟨placed, member, rfl⟩
    exact kept.index_lt member
  · exact covers i

/-- Leveling that ends without a conflict has placed every activity of a network that was built. -/
theorem Stands.complete {precedence : List Precedence} (built : Network.Built load.activities precedence load.network)
    (stands : Stands load progress)
    (done : next? load progress = none ∨ progress.placed.length = load.activities.length) : Complete load progress := by
  rcases done with none | enough
  · refine stands.kept.complete_of_covers ?_
    intro i inside
    by_contra left
    let isPlaced (i : Nat) : Prop := ∃ placed ∈ progress.placed, placed.index = i
    have left : ¬ isPlaced i := left
    obtain ⟨j, below, missing, ready⟩ := built.exists_ready inside left
    have unplaced : progress.find? j = Option.none := by
      rw [← Option.not_isSome_iff_eq_none, isSome_find?_iff]
      exact missing
    obtain ⟨p, precedes, absent⟩ := of_next?_eq_none none below unplaced
    have there := isSome_find?_iff.2 (ready p precedes)
    rw [absent] at there
    cases there
  · exact stands.kept.complete_of_length enough

/-- Activities at different places of a list are some of the list. -/
theorem subperm_zipIdx {placed : List (Placed Rat)}
    (listed : ∀ other ∈ placed, load.activities[other.index]? = some other.activity)
    (distinct : (placed.map Placed.index).Nodup) :
    (placed.map fun other => (other.activity, other.index)).Subperm load.activities.zipIdx := by
  refine List.subperm_of_subset ?_ ?_
  · refine List.Nodup.of_map Prod.snd ?_
    rw [List.map_map]
    exact distinct
  · intro entry member
    obtain ⟨other, among, rfl⟩ := List.mem_map.1 member
    exact List.mk_mem_zipIdx_iff_getElem?.2 (listed other among)

/-- Activities at different places of a list amount to no more than the whole list. -/
theorem sum_le_of_distinct {placed : List (Placed Rat)}
    (listed : ∀ other ∈ placed, load.activities[other.index]? = some other.activity)
    (distinct : (placed.map Placed.index).Nodup) {amount : Activity Rat → Rat}
    (nonneg : ∀ activity ∈ load.activities, 0 ≤ amount activity) :
    (placed.map (amount ·.activity)).sum ≤ (load.activities.map amount).sum := by
  obtain ⟨some, split, sub⟩ := subperm_zipIdx listed distinct
  have whole : load.activities.map amount = load.activities.zipIdx.map (amount ·.1) := by
    rw [← List.zipIdx_map_fst 0 load.activities, List.map_map, List.zipIdx_map_fst]
    rfl
  have part := (split.map (amount ·.1)).sum_eq
  rw [List.map_map] at part
  rw [whole]
  refine part.symm.le.trans ((sub.map _).sum_le_sum ?_)
  intro cost member
  obtain ⟨entry, among, rfl⟩ := List.mem_map.1 member
  exact nonneg _ (List.fst_mem_of_mem_zipIdx among)

/-- What is placed and what comes next amount to no more than all activities. -/
theorem Kept.sum_add_le (kept : Kept load progress) (next : next? load progress = some i)
    (listed : load.activities[i]? = some activity) {amount : Activity Rat → Rat}
    (nonneg : ∀ activity ∈ load.activities, 0 ≤ amount activity) :
    (progress.placed.map (amount ·.activity)).sum + amount activity ≤ (load.activities.map amount).sum := by
  let new : Placed Rat := ⟨i, activity, 0, 0⟩
  have listed : load.activities[new.index]? = some new.activity := listed
  have bound := sum_le_of_distinct (kept.listed_append listed) (kept.distinct_append next rfl) nonneg
  simpa using bound

/-- Where all are placed, the activities with their places in the list are those of what is placed, in some order. -/
theorem Kept.perm_zipIdx (kept : Kept load progress) (complete : Complete load progress) :
    (progress.placed.map fun placed => (placed.activity, placed.index)).Perm load.activities.zipIdx := by
  refine (subperm_zipIdx kept.listed kept.distinct).perm_of_length_le ?_
  have enough := complete.length_eq
  simp only [List.length_map, List.length_range] at enough
  simp [enough]

theorem Kept.perm_activities (kept : Kept load progress) (complete : Complete load progress) :
    (progress.placed.map Placed.activity).Perm load.activities := by
  have perm := (kept.perm_zipIdx complete).map Prod.fst
  rwa [List.map_map, List.zipIdx_map_fst] at perm

/-! ### Reading off the schedule -/

/-- The schedule that is read off from what is placed. -/
def Progress.schedule (load : Workload Rat) (progress : Progress Rat) : Leveled Rat :=
  let makespan := CriticalPath.latest (progress.placed.map Placed.finish)
  ⟨load.activities.zipIdx.map fun (activity, i) => placement load progress makespan activity i, makespan,
    progress.consumption⟩

theorem level_eq (load : Workload Rat) :
    load.level = (placeAll load load.activities.length load.first).map (Progress.schedule load) := by
  rw [Workload.level]
  change (placeAll load load.activities.length load.first >>= _) = _
  cases placeAll load load.activities.length load.first <;> rfl

/-- A schedule that leveling finds is read off from where it has come to an end. -/
theorem exists_progress {leveled : Leveled Rat} (done : load.level = .ok leveled) :
    ∃ progress, placeAll load load.activities.length load.first = .ok progress ∧ leveled = progress.schedule load ∧
      Stands load progress ∧ (next? load progress = none ∨ progress.placed.length = load.activities.length) := by
  rw [level_eq] at done
  obtain ⟨progress, placed, rfl⟩ := Lists.map_eq_ok done
  have ends := ends_of_first load
  rw [placed] at ends
  cases ends with
  | done stands ended => exact ⟨progress, placed, rfl, stands, ended⟩

theorem getElem?_schedule : (progress.schedule load).placements[i]? = load.activities[i]?.map fun activity =>
    placement load progress (progress.schedule load).makespan activity i := by
  simp [Progress.schedule, Function.comp_def]

/-- The placement of an activity has the times at which it was placed. -/
theorem placement_of_placed (kept : Kept load progress) {other : Placed Rat} (member : other ∈ progress.placed)
    (makespan : Rat) :
    (placement load progress makespan other.activity other.index).start = other.start ∧
      (placement load progress makespan other.activity other.index).finish = other.finish ∧
      (placement load progress makespan other.activity other.index).duration = other.activity.duration := by
  have found := kept.find?_eq_some_iff.2 ⟨member, rfl⟩
  simp [placement, found]

theorem Kept.exists_placement (kept : Kept load progress) {other : Placed Rat} (member : other ∈ progress.placed) :
    ∃ placement, (progress.schedule load).placements[other.index]? = some placement ∧
      placement.start = other.start ∧ placement.finish = other.finish := by
  obtain ⟨start, finish, _⟩ := placement_of_placed kept member (progress.schedule load).makespan
  refine ⟨_, ?_, start, finish⟩
  rw [getElem?_schedule, kept.listed other member, Option.map_some]

/-- Where all are placed, a placement of the schedule is that of a placed activity. -/
theorem Kept.exists_placed (kept : Kept load progress) (complete : Complete load progress) {placement : Placement Rat}
    (there : (progress.schedule load).placements[i]? = some placement) :
    ∃ other ∈ progress.placed, other.index = i ∧ load.activities[i]? = some other.activity ∧
      placement.start = other.start ∧ placement.finish = other.finish ∧ placement.duration = other.activity.duration := by
  rw [getElem?_schedule] at there
  obtain ⟨activity, listed, rfl⟩ := Option.map_eq_some_iff.1 there
  have paired := (kept.perm_zipIdx complete).mem_iff.2 (List.mk_mem_zipIdx_iff_getElem?.2 listed)
  obtain ⟨other, member, same⟩ := List.mem_map.1 paired
  cases same
  exact ⟨other, member, rfl, listed, placement_of_placed kept member _⟩

end Deliberation.Leveling
