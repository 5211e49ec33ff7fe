import Deliberation.Proofs.Schedule.Consumption

/-!
What keeps an activity from starting at a time: others with which it must share no time, or resources
of which it and those that run would need more than there is.
-/

namespace Deliberation.Leveling

variable {load : Workload Rat} {activity : Activity Rat} {placed : List (Placed Rat)} {start finish time : Rat}

/-- A resource of a name that is there at any time. -/
def Renews (load : Workload Rat) (name : String) (resource : Resource Rat) : Prop :=
  load.resource? name = some resource ∧ resource.renewable = true

theorem excess?_eq_none_iff : excess? load activity time = none ↔
    ∀ entry ∈ activity.totals, ∀ resource, Renews load entry.1 resource → entry.2 ≤ resource.capacity + tolerance := by
  simp only [excess?, List.findSome?_eq_none_iff]
  refine forall₂_congr ?_
  rintro ⟨name, requested⟩ member
  cases found : load.resource? name with
  | none => simp [Renews, found]
  | some resource => simp [Renews, found]

theorem excess?_eq_some {conflict : ScheduleConflict Rat} (excess : excess? load activity time = some conflict) :
    ∃ entry ∈ activity.totals, ∃ resource, Renews load entry.1 resource ∧
      resource.capacity + tolerance < entry.2 ∧
      conflict = .capacity entry.1 activity.name time entry.2 resource.capacity := by
  obtain ⟨⟨name, requested⟩, member, refused⟩ := List.exists_of_findSome?_eq_some excess
  obtain ⟨resource, found, refused⟩ := Option.bind_eq_some_iff.1 refused
  split at refused
  · next beyond =>
    exact ⟨(name, requested), member, resource, ⟨found, beyond.1⟩, beyond.2, (Option.some.inj refused).symm⟩
  · cases refused

theorem exclusion?_eq_none_iff : exclusion? placed activity start finish = none ↔
    ∀ other ∈ placed, other.overlaps start finish = true →
      other.activity.parallel = true ∧ activity.parallel = true := by
  simp only [exclusion?, Option.map_eq_none_iff, List.find?_eq_none]
  refine forall₂_congr ?_
  intro other member
  simp

/-- The times at which capacities are looked at: the start, and when others start before the activity finishes. -/
def Checked (placed : List (Placed Rat)) (start finish time : Rat) : Prop :=
  time = start ∨ (∃ other ∈ placed, other.start = time) ∧ start < time ∧ time < finish - tolerance

theorem overload?_eq_none_iff : overload? load placed activity start finish = none ↔
    ∀ entry ∈ activity.totals, ∀ resource, Renews load entry.1 resource → ∀ time, Checked placed start finish time →
      usage placed entry.1 time + entry.2 ≤ resource.capacity + tolerance := by
  simp only [overload?, List.findSome?_eq_none_iff]
  refine forall₂_congr ?_
  rintro ⟨name, requested⟩ member
  cases found : load.resource? name with
  | none => simp [Renews, found]
  | some resource =>
    by_cases renewable : resource.renewable = true
    · simp [Renews, found, renewable, Checked, Scalar.mem_sort]
    · simp [Renews, found, renewable]

/-- Nothing blocks an activity that takes no time, and no other where it shares no time against the rules and
nothing is in use too much. -/
theorem blocking?_eq_none_iff : blocking? load placed activity start = none ↔ activity.duration ≤ tolerance ∨
    exclusion? placed activity start (start + activity.duration) = none ∧
      overload? load placed activity start (start + activity.duration) = none := by
  rw [blocking?]
  have length : start + activity.duration - start = activity.duration := add_sub_cancel_left _ _
  simp only [length]
  split
  · next brief => simp [brief]
  · next long => simp [long]

end Deliberation.Leveling
