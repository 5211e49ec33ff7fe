import Mathlib.Algebra.Order.BigOperators.Group.List
import Mathlib.Data.List.Induction
import Deliberation.Proofs.Lists
import Deliberation.Proofs.Number.Exact

/-!
What activities need. The totals of an activity name each resource that its demands name, once, with
the sum of the quantities.
-/

namespace Deliberation

/-- How much of a resource demands ask for in all. -/
def needed (demands : List (Demand Rat)) (name : String) : Rat :=
  ((demands.filter (·.resource = name)).map Demand.quantity).sum

/-- How much of a resource an activity needs. -/
def Activity.need (activity : Activity Rat) (name : String) : Rat := needed activity.demands name

/-- No demand asks for less than nothing. -/
def Activity.Asks (activity : Activity Rat) : Prop := ∀ demand ∈ activity.demands, 0 ≤ demand.quantity

variable {demands : List (Demand Rat)} {demand : Demand Rat} {name : String} {amount : Rat} {activity : Activity Rat}

theorem needed_append : needed (demands ++ [demand]) name =
    needed demands name + if demand.resource = name then demand.quantity else 0 := by
  by_cases same : demand.resource = name <;> simp [needed, same]

theorem needed_eq_zero (unasked : ∀ demand ∈ demands, demand.resource ≠ name) : needed demands name = 0 := by
  have none : demands.filter (·.resource = name) = [] := by
    simpa [List.filter_eq_nil_iff] using unasked
  simp [needed, none]

theorem Activity.Asks.need_nonneg (asks : activity.Asks) (name : String) : 0 ≤ activity.need name := by
  refine List.sum_nonneg ?_
  intro amount member
  obtain ⟨demand, among, rfl⟩ := List.mem_map.1 member
  exact asks demand (List.mem_of_mem_filter among)

/-- Totals have an entry for each resource that is asked for, and it is what is needed of it. -/
structure Totals (totals : List (String × Rat)) (demands : List (Demand Rat)) : Prop where
  distinct : (totals.map Prod.fst).Nodup
  mem_iff : ∀ name amount, (name, amount) ∈ totals ↔
    (∃ demand ∈ demands, demand.resource = name) ∧ amount = needed demands name

theorem Totals.add {totals : List (String × Rat)} (tallies : Totals totals demands) :
    Totals (addQuantity totals demand) (demands ++ [demand]) := by
  rw [addQuantity]
  by_cases known : totals.any (·.1 = demand.resource) = true
  · rw [if_pos known]
    obtain ⟨⟨_, stored⟩, among, rfl⟩ : ∃ entry ∈ totals, entry.1 = demand.resource := by simpa using known
    have asked := ((tallies.mem_iff _ _).1 among).1
    constructor
    · rw [List.map_map]
      exact tallies.distinct
    · intro name amount
      simp only [List.mem_map, Prod.mk.injEq, Prod.exists, tallies.mem_iff, needed_append, List.mem_append,
        List.mem_singleton]
      constructor
      · rintro ⟨_, _, ⟨⟨other, member, rfl⟩, rfl⟩, rfl, rfl⟩
        exact ⟨⟨other, .inl member, rfl⟩, by grind⟩
      · rintro ⟨⟨other, member, rfl⟩, rfl⟩
        refine ⟨other.resource, needed demands other.resource, ⟨?_, rfl⟩, rfl, by grind⟩
        rcases member with old | rfl
        · exact ⟨other, old, rfl⟩
        · exact asked
  · rw [if_neg known]
    have fresh : ∀ entry ∈ totals, entry.1 ≠ demand.resource := by
      intro entry member same
      exact known (List.any_eq_true.2 ⟨entry, member, by simp [same]⟩)
    have unasked : ∀ other ∈ demands, other.resource ≠ demand.resource := by
      intro other member same
      exact fresh _ ((tallies.mem_iff other.resource _).2 ⟨⟨other, member, rfl⟩, rfl⟩) same
    constructor
    · rw [List.map_append, List.nodup_append]
      refine ⟨tallies.distinct, by simp, ?_⟩
      simp only [List.map_cons, List.map_nil, List.mem_map, List.mem_singleton]
      rintro _ ⟨entry, member, rfl⟩ _ rfl
      exact fresh entry member
    · intro name amount
      simp only [List.mem_append, List.mem_singleton, Prod.mk.injEq, tallies.mem_iff, needed_append]
      constructor
      · rintro (⟨⟨other, member, rfl⟩, rfl⟩ | ⟨rfl, rfl⟩)
        · exact ⟨⟨other, .inl member, rfl⟩, by simp [(unasked other member).symm]⟩
        · exact ⟨⟨demand, .inr rfl, rfl⟩, by simp [needed_eq_zero unasked]⟩
      · rintro ⟨⟨other, old | rfl, rfl⟩, rfl⟩
        · exact .inl ⟨⟨other, old, rfl⟩, by simp [(unasked other old).symm]⟩
        · exact .inr ⟨rfl, by simp [needed_eq_zero unasked]⟩

theorem totals_totals (activity : Activity Rat) : Totals activity.totals activity.demands := by
  rw [Activity.totals]
  induction activity.demands using List.reverseRecOn with
  | nil => exact ⟨by simp, by simp⟩
  | append_singleton rest demand ih =>
    rw [List.foldl_append]
    exact ih.add

/-- The entries of an activity's totals are what it needs. -/
theorem Activity.need_of_mem_totals (member : (name, amount) ∈ activity.totals) : amount = activity.need name :=
  ((totals_totals activity).mem_iff _ _).1 member |>.2

/-- What is not among an activity's totals, it does not need. -/
theorem Activity.mem_totals_or (activity : Activity Rat) (name : String) :
    (name, activity.need name) ∈ activity.totals ∨ activity.need name = 0 ∧ name ∉ activity.totals.map Prod.fst := by
  by_cases asked : ∃ demand ∈ activity.demands, demand.resource = name
  · exact .inl (((totals_totals activity).mem_iff _ _).2 ⟨asked, rfl⟩)
  · refine .inr ⟨needed_eq_zero fun demand member same => asked ⟨demand, member, same⟩, ?_⟩
    simp only [List.mem_map, Prod.exists, not_exists, not_and]
    rintro _ amount member rfl
    exact asked (((totals_totals activity).mem_iff _ _).1 member).1

/-- Looked up among the totals, a resource has what is needed of it. -/
theorem Activity.lookup_totals (activity : Activity Rat) (name : String) :
    (activity.totals.lookup name).getD 0 = activity.need name := by
  rcases activity.mem_totals_or name with member | ⟨zero, absent⟩
  · rw [Lists.lookup_eq_some_of_mem (totals_totals activity).distinct member, Option.getD_some]
  · have missing : activity.totals.lookup name = none := by
      refine List.lookup_eq_none_iff.2 ?_
      intro entry member
      rw [bne_iff_ne]
      rintro rfl
      exact absent (List.mem_map_of_mem member)
    rw [missing, zero, Option.getD_none]

end Deliberation
