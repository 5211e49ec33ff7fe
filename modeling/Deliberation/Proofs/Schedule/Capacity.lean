import Deliberation.Proofs.Schedule.Blocking

/-!
What runs at an instant. Where all times are whole, no resource is in use beyond its capacity and no
activity runs beside one it must share no time with: between the times that leveling looks at, use only falls.
-/

namespace Deliberation.Leveling

variable {load : Workload Rat} {activity : Activity Rat} {placed : List (Placed Rat)} {start finish time : Rat}
  {name : String} {resource : Resource Rat}

/-- An activity runs from its start on, and until it finishes. -/
def Placed.Runs (placed : Placed Rat) (time : Rat) : Prop := placed.start ≤ time ∧ time < placed.finish

instance (placed : Placed Rat) (time : Rat) : Decidable (placed.Runs time) := inferInstanceAs (Decidable (_ ∧ _))

/-- How much of a resource the activities need that run at an instant. -/
def inUse (placed : List (Placed Rat)) (name : String) (time : Rat) : Rat :=
  (placed.map fun other => if other.Runs time then other.activity.need name else 0).sum

theorem Placed.isActive_iff {other : Placed Rat} (starts : Whole other.start) (finishes : Whole other.finish)
    (whole : Whole time) : other.isActive time = true ↔ other.Runs time := by
  simp only [isActive, isLong, Bool.and_eq_true, decide_eq_true_eq, Runs]
  constructor
  · rintro ⟨⟨_, early⟩, late⟩
    refine ⟨starts.le_of_le_add_tolerance whole early, ?_⟩
    linarith [tolerance_pos]
  · rintro ⟨early, late⟩
    have long := starts.add_one_le finishes (early.trans_lt late)
    refine ⟨⟨?_, ?_⟩, whole.lt_sub_tolerance finishes late⟩
    · linarith [tolerance_lt_one]
    · linarith [tolerance_pos]

theorem Placed.overlaps_of_runs {other : Placed Rat} (starts : Whole other.start) (finishes : Whole other.finish)
    (start_whole : Whole start) (finish_whole : Whole finish) (runs : other.Runs time) (inside : start ≤ time ∧ time < finish) :
    other.overlaps start finish = true := by
  have before := starts.lt_sub_tolerance finish_whole (runs.1.trans_lt inside.2)
  have after := start_whole.lt_sub_tolerance finishes (inside.1.trans_lt runs.2)
  have long := starts.add_one_le finishes (runs.1.trans_lt runs.2)
  have wide := start_whole.add_one_le finish_whole (inside.1.trans_lt inside.2)
  simp only [overlaps, isLong, Bool.and_eq_true, decide_eq_true_eq]
  refine ⟨⟨⟨?_, ?_⟩, before⟩, after⟩
  · linarith [tolerance_lt_one]
  · linarith [tolerance_lt_one]

/-- Whole times are all those that leveling gives to activities of whole durations. -/
def Timed (placed : List (Placed Rat)) : Prop := ∀ other ∈ placed, Whole other.start ∧ Whole other.finish

/-- At a whole time, what leveling takes to be in use is what the running activities need. -/
theorem usage_eq_inUse (timed : Timed placed) (whole : Whole time) : usage placed name time = inUse placed name time := by
  rw [usage, Scalar.sum_eq, inUse]
  induction placed with
  | nil => rfl
  | cons other rest ih =>
    obtain ⟨⟨starts, finishes⟩, later⟩ := List.forall_mem_cons.1 timed
    rw [List.map_cons, List.sum_cons, ← ih later]
    have active := Placed.isActive_iff starts finishes whole
    by_cases runs : other.Runs time
    · rw [List.filter_cons, if_pos (active.2 runs), if_pos runs, List.filterMap_cons, ← other.activity.lookup_totals name]
      cases other.activity.totals.lookup name <;> simp
    · rw [List.filter_cons, if_neg (mt active.1 runs), if_neg runs, zero_add]

theorem inUse_eq : inUse placed name time = demandOn ((placed.filter (·.Runs time)).map Placed.activity) name := by
  rw [inUse, demandOn]
  induction placed with
  | nil => rfl
  | cons other rest ih =>
    rw [List.map_cons, List.sum_cons, ih, List.filter_cons]
    by_cases runs : other.Runs time <;> simp [runs]

/-- Where whatever runs at one time runs at another, no less is in use then. -/
theorem inUse_le_inUse {before : Rat} (asks : ∀ other ∈ placed, other.activity.Asks)
    (runs : ∀ other ∈ placed, other.Runs time → other.Runs before) :
    inUse placed name time ≤ inUse placed name before := by
  refine List.sum_le_sum ?_
  intro other member
  by_cases now : other.Runs time
  · rw [if_pos now, if_pos (runs other member now)]
  · rw [if_neg now]
    split
    · exact (asks other member).need_nonneg name
    · exact le_rfl

/-- An activity that may start fits beside what runs, at every instant until it finishes. -/
theorem inUse_add_need_le (timed : Timed placed) (asks : ∀ other ∈ placed, other.activity.Asks)
    (starts : Whole start) (finishes : Whole finish)
    (clear : overload? load placed activity start finish = none) (renews : Renews load name resource)
    (respected : inUse placed name time ≤ resource.capacity + tolerance) (inside : start ≤ time ∧ time < finish) :
    inUse placed name time + activity.need name ≤ resource.capacity + tolerance := by
  rcases activity.mem_totals_or name with member | ⟨zero, _⟩
  · -- What runs at the time runs at the latest start before it, and that is one of the times looked at.
    obtain ⟨point, among, greatest⟩ :
        ∃ point ∈ start :: (placed.map Placed.start).filter (fun other => start < other ∧ other ≤ time),
          ∀ other ∈ start :: (placed.map Placed.start).filter (fun other => start < other ∧ other ≤ time), other ≤ point :=
      Scalar.exists_greatest (List.cons_ne_nil _ _)
    have looked : Checked placed start finish point ∧ Whole point ∧ point ≤ time := by
      rcases List.mem_cons.1 among with rfl | later
      · exact ⟨.inl rfl, starts, inside.1⟩
      · obtain ⟨begun, between⟩ := List.mem_filter.1 later
        obtain ⟨other, there, rfl⟩ := List.mem_map.1 begun
        simp only [decide_eq_true_eq] at between
        have whole := (timed other there).1
        exact ⟨.inr ⟨⟨other, there, rfl⟩, between.1,
          whole.lt_sub_tolerance finishes (between.2.trans_lt inside.2)⟩, whole, between.2⟩
    obtain ⟨checked, whole, early⟩ := looked
    have fits := overload?_eq_none_iff.1 clear _ member resource renews point checked
    rw [usage_eq_inUse timed whole] at fits
    have falls : inUse placed name time ≤ inUse placed name point := by
      refine inUse_le_inUse asks ?_
      rintro other there ⟨begun, running⟩
      refine ⟨?_, early.trans_lt running⟩
      by_cases before : other.start ≤ start
      · exact before.trans (greatest _ (List.mem_cons_self ..))
      · refine greatest _ (List.mem_cons_of_mem _ (List.mem_filter.2 ⟨List.mem_map_of_mem there, ?_⟩))
        simpa using ⟨not_le.1 before, begun⟩
    exact (add_le_add_left falls _).trans fits
  · rw [zero, add_zero]
    exact respected

end Deliberation.Leveling
