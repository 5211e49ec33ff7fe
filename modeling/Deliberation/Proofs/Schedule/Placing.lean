import Deliberation.Proofs.Lists
import Deliberation.Proofs.Number.Exact
import Deliberation.Schedule.Leveling

/-!
Leveling as a series of placements. Each takes an activity whose predecessors are placed and puts it at
the first of its candidate times at which nothing blocks it; leveling ends where no activity is left, or
where one cannot be placed.
-/

namespace Deliberation.Leveling

variable {load : Workload Rat} {progress before after : Progress Rat} {i : Nat} {activity : Activity Rat}
  {placed : List (Placed Rat)} {ready start : Rat}

/-- The first activity that was placed under an index is one that was placed under it. -/
theorem mem_of_find? {other : Placed Rat} (found : progress.find? i = some other) :
    other ∈ progress.placed ∧ other.index = i :=
  ⟨List.mem_of_find?_eq_some found, by simpa using List.find?_some found⟩

theorem isSome_find?_iff : (progress.find? i).isSome = true ↔ ∃ other ∈ progress.placed, other.index = i := by
  simp [Progress.find?, List.find?_isSome]

/-- The activity that comes next is not placed, and its predecessors are. -/
theorem of_next? (next : next? load progress = some i) : i < load.activities.length ∧ progress.find? i = none ∧
    ∀ p ∈ load.network.predecessors i, (progress.find? p).isSome = true := by
  have member := (Scalar.leastBy?_eq_some next).1
  simpa using member

/-- When no activity comes next, each that is not placed has a predecessor that is not. -/
theorem of_next?_eq_none (none : next? load progress = none) (inside : i < load.activities.length)
    (left : progress.find? i = Option.none) :
    ∃ p ∈ load.network.predecessors i, progress.find? p = Option.none := by
  have empty := Scalar.leastBy?_eq_none.1 none
  have blocked := List.filter_eq_nil_iff.1 empty i (List.mem_range.2 inside)
  simpa [left] using blocked

/-! ### The times that are tried -/

theorem mem_of_mem_thinAfter {times : List Rat} {last time : Rat} (member : time ∈ thinAfter last times) :
    time ∈ times := by
  induction times generalizing last with
  | nil => simp [thinAfter] at member
  | cons first rest ih =>
    rw [thinAfter] at member
    split at member
    · exact List.mem_cons_of_mem _ (ih member)
    · rcases List.mem_cons.1 member with rfl | later
      · exact List.mem_cons_self ..
      · exact List.mem_cons_of_mem _ (ih later)

/-- For a time that is left out, one that is kept comes no more than the tolerance before it. -/
theorem exists_thinAfter {times : List Rat} {last time : Rat} (member : time ∈ times) :
    ∃ kept ∈ last :: thinAfter last times, time - tolerance ≤ kept := by
  induction times generalizing last with
  | nil => simp at member
  | cons first rest ih =>
    rw [thinAfter]
    split
    · next close =>
      rcases List.mem_cons.1 member with rfl | later
      · rw [Scalar.abs_eq] at close
        exact ⟨last, List.mem_cons_self .., by linarith [(abs_le.1 close).2]⟩
      · exact ih later
    · rcases List.mem_cons.1 member with rfl | later
      · exact ⟨time, by simp, by linarith [tolerance_pos]⟩
      · obtain ⟨kept, among, near⟩ : ∃ kept ∈ first :: thinAfter first rest, time - tolerance ≤ kept := ih later
        exact ⟨kept, List.mem_cons_of_mem _ among, near⟩

theorem mem_of_mem_thin {times : List Rat} {time : Rat} (member : time ∈ thin times) : time ∈ times := by
  cases times with
  | nil => simp [thin] at member
  | cons first rest =>
    rcases List.mem_cons.1 member with rfl | later
    · exact List.mem_cons_self ..
    · exact List.mem_cons_of_mem _ (mem_of_mem_thinAfter later)

theorem exists_thin {times : List Rat} {time : Rat} (member : time ∈ times) :
    ∃ kept ∈ thin times, time - tolerance ≤ kept := by
  cases times with
  | nil => simp at member
  | cons first rest =>
    rcases List.mem_cons.1 member with rfl | later
    · exact ⟨time, List.mem_cons_self .., by linarith [tolerance_pos]⟩
    · exact exists_thinAfter later

/-- A start is tried when the activity is ready, or later when another one finishes. -/
theorem of_mem_candidates {time : Rat} (member : time ∈ candidates placed ready) :
    ready ≤ time ∧ (time = ready ∨ ∃ other ∈ placed, other.finish = time) := by
  have listed := Scalar.mem_sort.1 (mem_of_mem_thin member)
  rcases List.mem_cons.1 listed with rfl | later
  · exact ⟨le_rfl, .inl rfl⟩
  · obtain ⟨finish, after⟩ := List.mem_filter.1 later
    obtain ⟨other, among, same⟩ := List.mem_map.1 finish
    exact ⟨by simpa using le_of_lt (of_decide_eq_true after), .inr ⟨other, among, same⟩⟩

/-- The first time that is tried is when the activity is ready. -/
theorem exists_candidates_eq_cons (placed : List (Placed Rat)) (ready : Rat) :
    ∃ rest, candidates placed ready = ready :: rest := by
  have first : (Scalar.sort (ready :: (placed.map Placed.finish).filter (ready < ·))).head? = some ready := by
    refine Lists.head?_eq_of_least (Scalar.pairwise_sort _) (Scalar.mem_sort.2 List.mem_cons_self) ?_
    intro time member
    rcases List.mem_cons.1 (Scalar.mem_sort.1 member) with rfl | later
    · exact le_rfl
    · exact (of_decide_eq_true (List.mem_filter.1 later).2).le
  obtain ⟨rest, sorted⟩ := List.head?_eq_some_iff.1 first
  exact ⟨thinAfter ready rest, by rw [candidates, sorted, thin]⟩

/-- One of the times that are tried is no earlier than any finish, up to the tolerance. -/
theorem exists_last_candidate (placed : List (Placed Rat)) (ready : Rat) :
    ∃ time ∈ candidates placed ready, ∀ other ∈ placed, other.finish - tolerance ≤ time := by
  obtain ⟨last, among, greatest⟩ : ∃ last ∈ ready :: (placed.map Placed.finish).filter (ready < ·),
      ∀ time ∈ ready :: (placed.map Placed.finish).filter (ready < ·), time ≤ last :=
    Scalar.exists_greatest (List.cons_ne_nil _ _)
  obtain ⟨kept, tried, near⟩ := exists_thin (Scalar.mem_sort.2 among)
  refine ⟨kept, tried, ?_⟩
  intro other member
  have below : other.finish ≤ last := by
    by_cases later : ready < other.finish
    · exact greatest _ (List.mem_cons_of_mem _ (List.mem_filter.2 ⟨List.mem_map_of_mem member, by simpa using later⟩))
    · exact (not_lt.1 later).trans (greatest _ (List.mem_cons_self ..))
  linarith

/-- The start that is found is one of the times that are tried; nothing blocks it, and the horizon allows it. -/
theorem of_firstStart {blocked : Option (ScheduleConflict Rat)} {times : List Rat}
    (found : firstStart load placed activity ready blocked times = .ok start) :
    start ∈ times ∧ blocking? load placed activity start = none ∧
      start + activity.duration ≤ load.horizon + tolerance := by
  induction times generalizing blocked with
  | nil => cases found
  | cons time rest ih =>
    rw [firstStart] at found
    split at found
    · cases found
    · next within =>
      split at found
      · next free =>
        cases found
        exact ⟨List.mem_cons_self .., free, not_lt.1 within⟩
      · obtain ⟨member, free⟩ := ih found
        exact ⟨List.mem_cons_of_mem _ member, free⟩

/-- A start is found where the horizon allows all of the times and nothing blocks one of them. -/
theorem exists_firstStart {blocked : Option (ScheduleConflict Rat)} {times : List Rat}
    (within : ∀ time ∈ times, time + activity.duration ≤ load.horizon + tolerance)
    (free : ∃ time ∈ times, blocking? load placed activity time = none) :
    ∃ start, firstStart load placed activity ready blocked times = .ok start := by
  induction times generalizing blocked with
  | nil => simp at free
  | cons time rest ih =>
    obtain ⟨first, later⟩ := List.forall_mem_cons.1 within
    rw [firstStart, if_neg (not_lt.2 first)]
    cases here : blocking? load placed activity time with
    | none => exact ⟨time, rfl⟩
    | some conflict =>
      refine ih later ?_
      obtain ⟨other, member, clear⟩ := free
      rcases List.mem_cons.1 member with rfl | among
      · rw [here] at clear
        cases clear
      · exact ⟨other, among, clear⟩

/-! ### Placements -/

/-- What comes of placing an activity: it needs more than all of a resource, it cannot start, what it needs is
used up, or it is placed. -/
inductive Places (load : Workload Rat) (progress : Progress Rat) (i : Nat) (activity : Activity Rat) :
    Except (ScheduleConflict Rat) (Progress Rat) → Prop
  | excessive {conflict : ScheduleConflict Rat}
      (excess : excess? load activity (readyTime load progress i) = some conflict) :
      Places load progress i activity (.error conflict)
  | late {conflict : ScheduleConflict Rat} (fits : excess? load activity (readyTime load progress i) = none)
      (late : firstStart load progress.placed activity (readyTime load progress i)
      none (candidates progress.placed (readyTime load progress i)) = .error conflict) :
      Places load progress i activity (.error conflict)
  | exhausted {conflict : ScheduleConflict Rat} (exhausted : consume load activity progress.consumption = .error conflict) :
      Places load progress i activity (.error conflict)
  | placed {start : Rat} {consumption : NameMap Rat}
      (fits : excess? load activity (readyTime load progress i) = none)
      (starts : firstStart load progress.placed activity (readyTime load progress i)
        none (candidates progress.placed (readyTime load progress i)) = .ok start)
      (consumed : consume load activity progress.consumption = .ok consumption) :
      Places load progress i activity
        (.ok ⟨progress.placed ++ [⟨i, activity, start, start + activity.duration⟩], consumption⟩)

theorem places_place (load : Workload Rat) (progress : Progress Rat) (i : Nat) (activity : Activity Rat) :
    Places load progress i activity (place load progress i activity) := by
  rw [place]
  cases excess : excess? load activity (readyTime load progress i) with
  | some conflict => exact .excessive excess
  | none =>
    simp only [bind, Except.bind, pure, Except.pure]
    cases starts : firstStart load progress.placed activity (readyTime load progress i) none
        (candidates progress.placed (readyTime load progress i)) with
    | error conflict => exact .late excess starts
    | ok start =>
      cases consumed : consume load activity progress.consumption with
      | error conflict => exact .exhausted consumed
      | ok consumption => exact .placed excess starts consumed

/-- An activity is placed that needs no more than there is and finds a start. -/
theorem place_of_firstStart {consumption : NameMap Rat}
    (fits : excess? load activity (readyTime load progress i) = none)
    (starts : firstStart load progress.placed activity (readyTime load progress i)
      none (candidates progress.placed (readyTime load progress i)) = .ok start)
    (consumed : consume load activity progress.consumption = .ok consumption) :
    place load progress i activity =
      .ok ⟨progress.placed ++ [⟨i, activity, start, start + activity.duration⟩], consumption⟩ := by
  simp only [place, fits, starts, consumed]
  rfl

/-- Leveling goes on from where it stands after a placement. -/
theorem placeAll_of_place (next : next? load before = some i)
    (listed : load.activities[i]? = some activity) (placed : place load before i activity = .ok after) (steps : Nat) :
    placeAll load (steps + 1) before = placeAll load steps after := by
  simp only [placeAll, next, listed, placed]
  rfl

/-- Where leveling begins: nothing is placed, and nothing is gone of the resources that are there once. -/
def Workload.first (load : Workload Rat) : Progress Rat :=
  ⟨[], .ofList ((load.resources.filter (!·.renewable)).map fun resource => (resource.name, 0))⟩

/-- Where leveling stands after some placements. -/
inductive Stands (load : Workload Rat) : Progress Rat → Prop
  | first : Stands load load.first
  | place {before after : Progress Rat} {i : Nat} {activity : Activity Rat} (stands : Stands load before)
      (next : next? load before = some i) (listed : load.activities[i]? = some activity)
      (places : Places load before i activity (.ok after)) : Stands load after

/-- How leveling ends: no activity comes next, as many as there are have been placed, or one cannot be placed. -/
inductive Ends (load : Workload Rat) : Except (ScheduleConflict Rat) (Progress Rat) → Prop
  | done {final : Progress Rat} (stands : Stands load final)
      (done : next? load final = none ∨ final.placed.length = load.activities.length) : Ends load (.ok final)
  | stuck {before : Progress Rat} {i : Nat} {activity : Activity Rat} {conflict : ScheduleConflict Rat}
      (stands : Stands load before) (next : next? load before = some i) (listed : load.activities[i]? = some activity)
      (places : Places load before i activity (.error conflict)) : Ends load (.error conflict)

theorem ends_placeAll (steps : Nat) (stands : Stands load progress)
    (left : progress.placed.length + steps = load.activities.length) : Ends load (placeAll load steps progress) := by
  induction steps generalizing progress with
  | zero => exact .done stands (.inr left)
  | succ steps ih =>
    rw [placeAll]
    cases next : next? load progress with
    | none => exact .done stands (.inl next)
    | some i =>
      obtain ⟨inside, _⟩ := of_next? next
      simp only [List.getElem?_eq_getElem inside]
      have places := places_place load progress i load.activities[i]
      cases outcome : place load progress i load.activities[i] with
      | error conflict => exact .stuck stands next (List.getElem?_eq_getElem inside) (outcome ▸ places)
      | ok after =>
        rw [outcome] at places
        refine ih (.place stands next (List.getElem?_eq_getElem inside) places) ?_
        cases places
        simp only [List.length_append, List.length_singleton]
        omega

theorem ends_of_first (load : Workload Rat) : Ends load (placeAll load load.activities.length load.first) :=
  ends_placeAll _ .first (Nat.zero_add _)

end Deliberation.Leveling
