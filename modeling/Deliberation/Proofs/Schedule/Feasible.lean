import Mathlib.Data.List.Pairwise
import Deliberation.Proofs.Schedule.Capacity
import Deliberation.Proofs.Schedule.Validity

/-!
Schedules that leveling finds, for activities of whole durations: every activity is placed and takes its
time, after its predecessors; at no instant is too much of a resource in use, no activity shares time
that must share none, and everything is over by the limit.
-/

namespace Deliberation.Leveling

variable {load : Workload Rat} {activity : Activity Rat} {progress before after : Progress Rat} {placed : List (Placed Rat)}
  {i : Nat} {start time : Rat} {name : String} {resource : Resource Rat}

/-- Two activities run at no common instant, or both may run beside others. -/
def Agree (one other : Placed Rat) : Prop :=
  one.activity.parallel = true ∧ other.activity.parallel = true ∨ ∀ time, ¬ (one.Runs time ∧ other.Runs time)

/-- Activities placed at whole times that agree with each other, with what there is of the resources and with
the limit. -/
structure Harmony (load : Workload Rat) (placed : List (Placed Rat)) : Prop where
  timed : Timed placed
  within : ∀ other ∈ placed, other.finish ≤ load.horizon + tolerance
  capacity : ∀ name resource, Renews load name resource → ∀ time, inUse placed name time ≤ resource.capacity + tolerance
  agree : placed.Pairwise Agree

theorem harmony_nil (sound : load.Sound) : Harmony load [] := by
  constructor
  · simp [Timed]
  · simp
  · intro name resource renews time
    have room := sound.capacity resource (List.mem_of_find?_eq_some renews.1)
    simp only [inUse, List.map_nil, List.sum_nil]
    linarith [tolerance_pos]
  · exact .nil

/-- An activity of a whole duration that nothing blocks agrees with what is placed. -/
theorem Harmony.agree_of_blocking? (harmony : Harmony load placed) (starts : Whole start)
    (whole : Whole activity.duration) (free : blocking? load placed activity start = none) {other : Placed Rat}
    (member : other ∈ placed) : Agree other ⟨i, activity, start, start + activity.duration⟩ := by
  by_cases both : other.activity.parallel = true ∧ activity.parallel = true
  · exact .inl both
  · refine .inr ?_
    rintro time ⟨runs, begun, running⟩
    obtain ⟨own, finishes⟩ := harmony.timed other member
    rcases blocking?_eq_none_iff.1 free with brief | ⟨clear, _⟩
    · have none := whole.le_of_le_add_tolerance .zero (by simpa using brief)
      simp only at begun running
      linarith
    · refine both (exclusion?_eq_none_iff.1 clear other member ?_)
      exact Placed.overlaps_of_runs own finishes starts (starts.add whole) runs ⟨begun, running⟩

/-- An activity of a whole duration that nothing blocks leaves enough of every resource. -/
theorem Harmony.capacity_of_blocking? (harmony : Harmony load placed) (asks : ∀ other ∈ placed, other.activity.Asks)
    (starts : Whole start) (whole : Whole activity.duration) (free : blocking? load placed activity start = none)
    (renews : Renews load name resource) (time : Rat) :
    inUse (placed ++ [⟨i, activity, start, start + activity.duration⟩]) name time ≤ resource.capacity + tolerance := by
  have respected := harmony.capacity name resource renews time
  simp only [inUse, List.map_append, List.map_cons, List.map_nil, List.sum_append, List.sum_singleton]
  split
  · next runs =>
    rcases blocking?_eq_none_iff.1 free with brief | ⟨_, clear⟩
    · have none := whole.le_of_le_add_tolerance .zero (by simpa using brief)
      have inside := runs.1.trans_lt runs.2
      simp only at inside
      linarith
    · exact inUse_add_need_le harmony.timed asks starts (starts.add whole) clear renews respected runs
  · rw [add_zero]
    exact respected

theorem Harmony.place (harmony : Harmony load before.placed) (asks : ∀ other ∈ before.placed, other.activity.Asks)
    (whole : Whole activity.duration) (places : Places load before i activity (.ok after)) : Harmony load after.placed := by
  cases places with
  | @placed start _ _ starts =>
    obtain ⟨tried, free, within⟩ := of_firstStart starts
    have begins : Whole start := by
      rcases eq_zero_or_of_mem_candidates tried with rfl | ⟨other, member, rfl⟩
      · exact .zero
      · exact (harmony.timed other member).2
    constructor
    · intro other member
      rcases List.mem_append.1 member with old | new
      · exact harmony.timed other old
      · cases List.mem_singleton.1 new
        exact ⟨begins, begins.add whole⟩
    · intro other member
      rcases List.mem_append.1 member with old | new
      · exact harmony.within other old
      · cases List.mem_singleton.1 new
        exact within
    · intro name resource renews time
      exact harmony.capacity_of_blocking? asks begins whole free renews time
    · refine List.pairwise_append.2 ⟨harmony.agree, List.pairwise_singleton _ _, ?_⟩
      intro other old new member
      cases List.mem_singleton.1 member
      exact harmony.agree_of_blocking? begins whole free old

theorem Stands.harmony (sound : load.Sound) (whole : ∀ activity ∈ load.activities, Whole activity.duration)
    (stands : Stands load progress) : Harmony load progress.placed := by
  induction stands with
  | first => exact harmony_nil sound
  | place stands _ listed places ih =>
    refine ih.place ?_ (whole _ (List.mem_of_getElem? listed)) places
    intro other member
    exact (sound.activity _ (List.mem_of_getElem? (stands.kept.listed other member))).2

/-- The activities of a schedule that run at an instant. -/
def running (activities : List (Activity Rat)) (placements : List (Placement Rat)) (time : Rat) : List (Activity Rat) :=
  ((activities.zip placements).filter fun (_, placement) => placement.start ≤ time ∧ time < placement.finish).map Prod.fst

/-- A schedule of a workload in which everything is placed, in order, and within the capacities and the limit. -/
structure Respects (load : Workload Rat) (precedence : List Precedence) (leveled : Leveled Rat) : Prop where
  /-- Each activity is placed at one step of leveling, at the times that the schedule has for it. -/
  once : ∃ progress, placeAll load load.activities.length load.first = .ok progress ∧
    (progress.placed.map fun placed => (placed.activity, placed.index)).Perm load.activities.zipIdx ∧
    ∀ placed ∈ progress.placed, ∃ placement, leveled.placements[placed.index]? = some placement ∧
      placement.start = placed.start ∧ placement.finish = placed.finish
  length : leveled.placements.length = load.activities.length
  finish : ∀ (i : Nat) (activity : Activity Rat) (placement : Placement Rat), load.activities[i]? = some activity →
    leveled.placements[i]? = some placement →
    placement.finish = placement.start + activity.duration ∧ placement.duration = activity.duration
  follows : ∀ (i j : Nat) (earlier later : Placement Rat), Network.Declares load.activities precedence i j →
    leveled.placements[i]? = some earlier → leveled.placements[j]? = some later → earlier.finish ≤ later.start
  capacity : ∀ resource ∈ load.resources, resource.renewable = true → ∀ time,
    demandOn (running load.activities leveled.placements time) resource.name ≤ resource.capacity + tolerance
  alone : ∀ (i j : Nat) (activity : Activity Rat) (one other : Placement Rat), i ≠ j →
    load.activities[i]? = some activity → activity.parallel = false →
    leveled.placements[i]? = some one → leveled.placements[j]? = some other →
    ¬ ∃ a b, a < b ∧ one.start ≤ a ∧ b ≤ one.finish ∧ other.start ≤ a ∧ b ≤ other.finish
  consumption : ∀ resource ∈ load.resources, resource.renewable = false →
    leveled.consumption.get? resource.name = some (demandOn load.activities resource.name) ∧
      demandOn load.activities resource.name ≤ resource.capacity + tolerance
  within : ∀ placement ∈ leveled.placements, placement.finish ≤ load.horizon + tolerance
  makespan : (∀ placement ∈ leveled.placements, placement.finish ≤ leveled.makespan) ∧
    (load.activities = [] ∧ leveled.makespan = 0 ∨ ∃ placement ∈ leveled.placements, placement.finish = leveled.makespan)

/-- What runs at an instant of the schedule are the placed activities that run then, in some order. -/
theorem running_perm (kept : Kept load progress) (complete : Complete load progress) (time : Rat) :
    (running load.activities (progress.schedule load).placements time).Perm
      ((progress.placed.filter (·.Runs time)).map Placed.activity) := by
  let pair (entry : Activity Rat × Nat) : Activity Rat × Placement Rat :=
    (entry.1, placement load progress (progress.schedule load).makespan entry.1 entry.2)
  have pairs : load.activities.zip (progress.schedule load).placements = load.activities.zipIdx.map pair := by
    rw [← List.zip_map', List.zipIdx_map_fst]
    rfl
  have perm := (((kept.perm_zipIdx complete).map pair).filter fun (_, placement) =>
    placement.start ≤ time ∧ time < placement.finish).map Prod.fst
  rw [running, pairs]
  refine perm.symm.trans (List.Perm.of_eq ?_)
  rw [List.map_map, List.filter_map, List.map_map]
  refine congrArg (List.map _) (List.filter_congr ?_)
  intro other member
  obtain ⟨start, finish, _⟩ := placement_of_placed kept member (progress.schedule load).makespan
  simp only [Function.comp_apply, pair, start, finish]
  rfl

variable {precedence : List Precedence} {earlier later : Placement Rat} {j : Nat}

/-- In the schedule, an activity starts when those before it have finished, or later. -/
theorem Kept.follows_schedule (kept : Kept load progress) (complete : Complete load progress)
    (built : Network.Built load.activities precedence load.network)
    (declared : Network.Declares load.activities precedence i j)
    (before : (progress.schedule load).placements[i]? = some earlier)
    (after : (progress.schedule load).placements[j]? = some later) : earlier.finish ≤ later.start := by
  have precedes : i ∈ load.network.predecessors j := by
    have link := (Network.mem_links_iff built.links).2 declared
    exact List.mem_map.2 ⟨(i, j), List.mem_filter.2 ⟨link, by simp⟩, rfl⟩
  obtain ⟨one, one_placed, rfl, _, _, finish, _⟩ := kept.exists_placed complete before
  obtain ⟨other, other_placed, rfl, _, start, _⟩ := kept.exists_placed complete after
  obtain ⟨first, first_placed, same, waits⟩ := kept.follows other other_placed one.index precedes
  cases List.inj_on_of_nodup_map kept.distinct first_placed one_placed same
  rw [start, finish]
  exact waits

instance : Std.Symm Agree := by
  constructor
  rintro one other (both | never)
  · exact .inl both.symm
  · exact .inr fun time runs => never time runs.symm

/-- In the schedule, an activity that is not parallel has no stretch of time in common with another one. -/
theorem Harmony.alone_schedule (harmony : Harmony load progress.placed) (kept : Kept load progress)
    (complete : Complete load progress) (apart : i ≠ j) (listed : load.activities[i]? = some activity)
    (exclusive : activity.parallel = false) {one other : Placement Rat}
    (first : (progress.schedule load).placements[i]? = some one)
    (second : (progress.schedule load).placements[j]? = some other) :
    ¬ ∃ a b, a < b ∧ one.start ≤ a ∧ b ≤ one.finish ∧ other.start ≤ a ∧ b ≤ other.finish := by
  rintro ⟨a, b, long, starts, finishes, begins, ends⟩
  obtain ⟨here, here_placed, rfl, same, start, finish, _⟩ := kept.exists_placed complete first
  obtain ⟨there, there_placed, rfl, _, begin_, end_, _⟩ := kept.exists_placed complete second
  cases Option.some.inj (listed.symm.trans same)
  have agree : Agree here there := by
    refine harmony.agree.forall here_placed there_placed ?_
    rintro rfl
    exact apart rfl
  rcases agree with ⟨parallel, _⟩ | never
  · rw [exclusive] at parallel
    cases parallel
  · rw [start] at starts
    rw [finish] at finishes
    rw [begin_] at begins
    rw [end_] at ends
    exact never a ⟨⟨starts, long.trans_le finishes⟩, begins, long.trans_le ends⟩

/-- The makespan is the latest finish. -/
theorem Kept.makespan_schedule (kept : Kept load progress) (complete : Complete load progress)
    (durations : ∀ activity ∈ load.activities, 0 ≤ activity.duration) :
    (∀ placement ∈ (progress.schedule load).placements, placement.finish ≤ (progress.schedule load).makespan) ∧
      (load.activities = [] ∧ (progress.schedule load).makespan = 0 ∨
        ∃ placement ∈ (progress.schedule load).placements, placement.finish = (progress.schedule load).makespan) := by
  have bounds : ∀ placement ∈ (progress.schedule load).placements,
      placement.finish ≤ (progress.schedule load).makespan := by
    intro placement member
    obtain ⟨i, there⟩ := List.mem_iff_getElem?.1 member
    obtain ⟨other, among, _, _, _, finish, _⟩ := kept.exists_placed complete there
    rw [finish]
    exact CriticalPath.le_latest (List.mem_map_of_mem among)
  refine ⟨bounds, ?_⟩
  rcases CriticalPath.latest_eq_zero_or_mem (progress.placed.map Placed.finish) with zero | finish
  · -- No finish is before zero, so where the makespan is zero every activity finishes then.
    cases placed : progress.placed with
    | nil =>
      have none := (kept.perm_activities complete).length_eq
      rw [placed] at none
      exact .inl ⟨List.length_eq_zero_iff.1 none.symm, zero⟩
    | cons other rest =>
      have among : other ∈ progress.placed := placed ▸ List.mem_cons_self ..
      obtain ⟨placement, there, _, same⟩ := kept.exists_placement among
      have member := List.mem_of_getElem? there
      refine .inr ⟨placement, member, (bounds placement member).antisymm ?_⟩
      have starts := kept.nonneg other among
      have lasts := durations _ (List.mem_of_getElem? (kept.listed other among))
      have makespan : (progress.schedule load).makespan = 0 := zero
      rw [makespan, same, kept.finish other among]
      linarith
  · obtain ⟨other, among, last⟩ := List.mem_map.1 finish
    obtain ⟨placement, there, _, same⟩ := kept.exists_placement among
    exact .inr ⟨placement, List.mem_of_getElem? there, same.trans last⟩

/-- Everything is placed, in order, within the capacities and within the limit. -/
theorem Stands.respects (built : Network.Built load.activities precedence load.network) (sound : load.Sound)
    (whole : ∀ activity ∈ load.activities, Whole activity.duration) (stands : Stands load progress)
    (complete : Complete load progress) (done : placeAll load load.activities.length load.first = .ok progress) :
    Respects load precedence (progress.schedule load) := by
  have kept := stands.kept
  have harmony := stands.harmony sound whole
  constructor
  · exact ⟨progress, done, kept.perm_zipIdx complete, fun other member => kept.exists_placement member⟩
  · simp [Progress.schedule]
  · intro i activity placement listed there
    obtain ⟨other, member, rfl, same, start, finish, duration⟩ := kept.exists_placed complete there
    cases Option.some.inj (listed.symm.trans same)
    rw [start, finish, duration]
    exact ⟨kept.finish other member, rfl⟩
  · intro i j earlier later declared before after
    exact kept.follows_schedule complete built declared before after
  · intro resource member renewable time
    have enough := harmony.capacity resource.name resource ⟨sound.resource?_name member, renewable⟩ time
    rwa [inUse_eq, demandOn, ← ((running_perm kept complete time).map _).sum_eq] at enough
  · intro i j activity one other apart listed exclusive first second
    exact harmony.alone_schedule kept complete apart listed exclusive first second
  · intro resource member fixed
    have accounted := stands.accounted sound resource.name resource ⟨sound.resource?_name member, fixed⟩
    rwa [demandOn, ((kept.perm_activities complete).map _).sum_eq] at accounted
  · intro placement member
    obtain ⟨i, there⟩ := List.mem_iff_getElem?.1 member
    obtain ⟨other, among, _, _, _, finish, _⟩ := kept.exists_placed complete there
    rw [finish]
    exact harmony.within other among
  · exact kept.makespan_schedule complete fun activity member => (sound.activity activity member).1

end Deliberation.Leveling

namespace Deliberation.ScheduleProblem

/-- The schedule that leveling finds for a valid problem with whole durations places everything, in order,
within the capacities and within the limit. -/
theorem level_respects {problem : ScheduleProblem Rat} {network : Network} {path : CriticalPath Rat}
    {horizon : Option Rat} {leveled : Leveled Rat} (valid : problem.validate = .ok ())
    (built : Network.build problem.activities problem.precedence = .ok network)
    (named : (problem.resources.map Resource.name).Nodup)
    (whole : ∀ activity ∈ problem.activities, Whole activity.duration)
    (done : level problem.activities problem.resources network path horizon = .ok leveled) :
    Leveling.Respects (problem.workload network path (horizon.getD (problem.activities.map Activity.duration).sum))
      problem.precedence leveled := by
  rw [level_eq] at done
  obtain ⟨progress, placed, rfl, stands, ended⟩ := Leveling.exists_progress (Lists.mapError_eq_ok done)
  have order := Network.built_of_build built
  exact stands.respects order ((valid_of_validate valid).sound named _ _ _) whole (stands.complete order ended) placed

/-- A crew digs, pours and paints, one after the other, and uses up the concrete when it pours. -/
def site : ScheduleProblem Rat where
  activities := [⟨"pour", 1, none, [⟨"crew", 1, none⟩, ⟨"concrete", 2, none⟩], [], false⟩,
    ⟨"dig", 2, none, [⟨"crew", 1, none⟩], [], true⟩, ⟨"paint", 1, none, [⟨"crew", 1, none⟩], [], true⟩]
  resources := [⟨"crew", 1, true, []⟩, ⟨"concrete", 2, false, []⟩]
  precedence := [⟨"dig", "pour"⟩]
  objective := .minimizeMakespan
  constraints := []

def site.network : Network := ⟨["pour", "dig", "paint"], [(1, 0)], [2, 1, 0]⟩

def site.path : CriticalPath Rat := .analyze site.network (site.activities.map Activity.duration)

def site.leveled : Leveled Rat :=
  ⟨[⟨2, 3, 1, 1⟩, ⟨0, 2, 2, 0⟩, ⟨3, 4, 1, 0⟩], 4, .ofList [("concrete", 2)]⟩

section Site

open Leveling

def site.load : Workload Rat := site.workload site.network site.path (site.activities.map Activity.duration).sum

def site.paint : Activity Rat := ⟨"paint", 1, none, [⟨"crew", 1, none⟩], [], true⟩

/-- What is placed when all that is left is to paint. -/
def site.poured : Progress Rat where
  placed := [⟨1, ⟨"dig", 2, none, [⟨"crew", 1, none⟩], [], true⟩, 0, 2⟩,
    ⟨0, ⟨"pour", 1, none, [⟨"crew", 1, none⟩, ⟨"concrete", 2, none⟩], [], false⟩, 2, 3⟩]
  consumption := .ofList [("concrete", 2)]

/-- The painting could start at once, or when the crew has dug, or when it has poured. -/
theorem candidates_poured : candidates site.poured.placed 0 = [0, 2, 3] := by
  have finishes : (site.poured.placed.map Placed.finish).filter ((0 : Rat) < ·) = [2, 3] := by decide
  rw [candidates, finishes, Scalar.sort_eq_self (by decide)]
  with_unfolding_all rfl

theorem level_site : level site.activities site.resources site.network site.path none = .ok site.leveled := by
  -- sorting does not evaluate, so the one placement with several times to try is made by hand
  have poured : placeAll site.load 3 site.load.first = placeAll site.load 1 site.poured := by with_unfolding_all rfl
  have next : next? site.load site.poured = some 2 := by with_unfolding_all rfl
  have ready : readyTime site.load site.poured 2 = 0 := rfl
  have fits : excess? site.load site.paint 0 = none := by with_unfolding_all rfl
  have starts : firstStart site.load site.poured.placed site.paint 0 none (candidates site.poured.placed 0) = .ok 3 := by
    rw [candidates_poured]
    with_unfolding_all rfl
  have painted := place_of_firstStart (ready ▸ fits) (ready ▸ starts) rfl
  refine Eq.trans (level_of_placeAll rfl (poured.trans (placeAll_of_place next rfl painted 0))) ?_
  with_unfolding_all rfl

end Site

theorem build_site : Network.build site.activities site.precedence = (.ok site.network : Except (ScheduleError Rat) _) := rfl

theorem whole_site : ∀ activity ∈ site.activities, Whole activity.duration := by
  simp only [site, List.forall_mem_cons]
  exact ⟨⟨1, by norm_num⟩, ⟨2, by norm_num⟩, ⟨1, by norm_num⟩, by simp⟩

theorem site_respected : site.validate = .ok () ∧
    Network.build site.activities site.precedence = (.ok site.network : Except (ScheduleError Rat) _) ∧
    (site.resources.map Resource.name).Nodup ∧ (∀ activity ∈ site.activities, Whole activity.duration) ∧
    level site.activities site.resources site.network site.path none = .ok site.leveled ∧
    Leveling.Respects (site.workload site.network site.path (site.activities.map Activity.duration).sum)
      site.precedence site.leveled :=
  ⟨rfl, build_site, by decide, whole_site, level_site,
    level_respects rfl build_site (by decide) whole_site level_site⟩

end Deliberation.ScheduleProblem
