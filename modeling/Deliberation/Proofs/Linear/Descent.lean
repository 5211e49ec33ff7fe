import Deliberation.Proofs.Linear.Pivot
import Mathlib.Logic.Relation

/-!
Minimizing a cost as a series of pivots. Each step brings in the first column that improves the cost, in
the place of the first basic column among those that limit it most; no bound becomes negative and the
cost does not rise.
-/

namespace Deliberation.Simplex

variable {table before after : Table Rat} {line : Line Rat} {x : Nat → Rat} {column row j steps : Nat} {cost : List Rat}
  {allowed : Nat → Bool} {outcome : Outcome Rat}

/-- A column that enters: the first of those allowed that improves the cost. -/
structure Enters (cost : List Rat) (allowed : Nat → Bool) (table : Table Rat) (column : Nat) : Prop where
  within : column < table.width
  admitted : allowed column = true
  improves : table.reducedCost cost column < 0
  first : ∀ j < column, allowed j = true → 0 ≤ table.reducedCost cost j

theorem enters_of_entering? (entering : table.entering? 0 cost allowed = some column) :
    Enters cost allowed table column := by
  rw [Table.entering?, List.find?_filter, List.find?_range_eq_some] at entering
  obtain ⟨found, inside, first⟩ := entering
  simp only [neg_zero, Bool.decide_and, Bool.decide_eq_true, Bool.and_eq_true, decide_eq_true_eq] at found
  constructor
  · exact List.mem_range.1 inside
  · exact found.1
  · exact found.2
  · intro j before open_
    simpa [open_] using first j before

theorem reducedCost_nonneg_of_entering? (none : table.entering? 0 cost allowed = none) (inside : j < table.width)
    (open_ : allowed j = true) : 0 ≤ table.reducedCost cost j := by
  rw [Table.entering?, List.find?_filter, List.find?_range_eq_none] at none
  simpa [open_] using none j inside

/-- A line whose basic column leaves: of those that limit the entering column most, the one with the first
basic column. -/
structure Leaves (table : Table Rat) (column row : Nat) (line : Line Rat) : Prop where
  listed : table.lines[row]? = some line
  positive : 0 < line.entry column
  least : ∀ other ∈ table.lines, 0 < other.entry column →
    line.bound / line.entry column ≤ other.bound / other.entry column
  first : ∀ other ∈ table.lines, 0 < other.entry column →
    other.bound / other.entry column = line.bound / line.entry column → line.basic ≤ other.basic

theorem mem_ratios {i : Nat} {ratio : Rat} : (i, line, ratio) ∈ table.ratios 0 column ↔
    table.lines[i]? = some line ∧ 0 < line.entry column ∧ ratio = line.bound / line.entry column := by
  simp only [Table.ratios, List.mem_map, List.mem_filter, Prod.exists, Prod.mk.injEq, List.mk_mem_zipIdx_iff_getElem?,
    decide_eq_true_eq]
  constructor
  · rintro ⟨other, k, ⟨listed, positive⟩, rfl, rfl, rfl⟩
    exact ⟨listed, positive, rfl⟩
  · rintro ⟨listed, positive, rfl⟩
    exact ⟨line, i, ⟨listed, positive⟩, rfl, rfl, rfl⟩

theorem leaves_of_leaving? (leaving : table.leaving? 0 column = some row) : ∃ line, Leaves table column row line := by
  simp only [Table.leaving?, Option.bind_eq_bind, Option.bind_eq_some_iff, Prod.exists] at leaving
  obtain ⟨least, found, i, line, ratio, chosen, same⟩ := leaving
  cases same
  have listed := List.minOn?_mem chosen
  obtain ⟨ratios, tie⟩ := List.mem_filter.1 listed
  obtain ⟨there, positive, rfl⟩ := mem_ratios.1 ratios
  obtain ⟨_, below⟩ := Scalar.leastBy?_eq_some found
  have lowest (other : Line Rat) (among : other ∈ table.lines) (limits : 0 < other.entry column) :
      least ≤ other.bound / other.entry column := by
    obtain ⟨k, other_listed⟩ := List.mem_iff_getElem?.1 among
    exact below _ (List.mem_map.2 ⟨_, mem_ratios.2 ⟨other_listed, limits, rfl⟩, rfl⟩)
  have equal : line.bound / line.entry column = least := by
    refine le_antisymm ?_ (lowest line (List.mem_of_getElem? there) positive)
    simpa using tie
  refine ⟨line, there, positive, ?_, ?_⟩
  · intro other among limits
    rw [equal]
    exact lowest other among limits
  · intro other among limits ties
    obtain ⟨k, other_listed⟩ := List.mem_iff_getElem?.1 among
    have candidate : (k, other, other.bound / other.entry column) ∈
        (table.ratios 0 column).filter fun (_, _, ratio) => ratio ≤ least + 0 := by
      refine List.mem_filter.2 ⟨mem_ratios.2 ⟨other_listed, limits, rfl⟩, ?_⟩
      simp [ties, equal]
    have smallest := Lists.le_of_minOn? chosen candidate
    exact smallest

theorem entry_nonpos_of_leaving? (none : table.leaving? 0 column = none) (member : line ∈ table.lines) :
    line.entry column ≤ 0 := by
  by_contra limits
  obtain ⟨i, listed⟩ := List.mem_iff_getElem?.1 member
  have candidate := List.mem_map_of_mem (f := fun entry => entry.2.2) (mem_ratios.2 ⟨listed, not_le.1 limits, rfl⟩)
  simp only [Table.leaving?, Option.bind_eq_bind] at none
  cases found : Scalar.leastBy? id ((table.ratios 0 column).map (·.2.2)) with
  | none =>
    rw [Scalar.leastBy?_eq_none.1 found] at candidate
    cases candidate
  | some least =>
    -- The least ratio itself is among those that do not exceed it.
    obtain ⟨entry, among, rfl⟩ := List.mem_map.1 (Scalar.leastBy?_eq_some found).1
    have kept : entry ∈ (table.ratios 0 column).filter fun (_, _, ratio) => ratio ≤ entry.2.2 + 0 :=
      List.mem_filter.2 ⟨among, by simp⟩
    obtain ⟨chosen, picked⟩ := Option.isSome_iff_exists.1
      (List.isSome_minOn?_of_mem (f := fun (_, line, _) => line.basic) kept)
    have second := Option.bind_eq_none_iff.1 none _ found
    cases Option.bind_eq_none_iff.1 second _ picked

/-! ### Steps -/

/-- A proper table that shows no negative values. -/
structure Table.Canonical (table : Table Rat) : Prop where
  proper : table.Proper
  nonneg : ∀ line ∈ table.lines, 0 ≤ line.bound

theorem Table.Canonical.shown_nonneg (canonical : table.Canonical) (j : Nat) : 0 ≤ table.shown j := by
  by_cases basic : table.Basic j
  · obtain ⟨line, member, rfl⟩ := basic
    rw [canonical.proper.shown_basic member]
    exact canonical.nonneg line member
  · rw [Table.shown_eq_zero basic]

/-- Tables over the same columns with the same solutions. -/
structure Table.Kin (table other : Table Rat) : Prop where
  artificial : other.artificial = table.artificial
  solves : ∀ x, other.Solves x ↔ table.Solves x

namespace Table.Kin

theorem refl (table : Table Rat) : table.Kin table := ⟨rfl, fun _ => Iff.rfl⟩

theorem trans {middle : Table Rat} (first : before.Kin middle) (second : middle.Kin after) : before.Kin after :=
  ⟨second.artificial.trans first.artificial, fun x => (second.solves x).trans (first.solves x)⟩

theorem width (kin : before.Kin after) : after.width = before.width := by
  rw [Table.width, Table.width, kin.artificial]

theorem isArtificial (kin : before.Kin after) (j : Nat) : after.isArtificial j = before.isArtificial j := by
  rw [Table.isArtificial, Table.isArtificial, kin.artificial]

end Table.Kin

theorem Table.Proper.kin_pivot (proper : table.Proper) (listed : table.lines[row]? = some line)
    (nonzero : line.entry column ≠ 0) : table.Kin (table.pivot row column) :=
  ⟨artificial_pivot, fun _ => proper.solves_pivot listed nonzero⟩

/-- Where a column leaves that limits the entering one most, no bound becomes negative. -/
theorem Leaves.canonical_pivot (leaves : Leaves table column row line) (canonical : table.Canonical)
    (within : column < table.width) : (table.pivot row column).Canonical := by
  refine ⟨canonical.proper.pivot leaves.listed leaves.positive.ne' within, ?_⟩
  have member := List.mem_of_getElem? leaves.listed
  have ratio : 0 ≤ line.bound / line.entry column := div_nonneg (canonical.nonneg line member) leaves.positive.le
  intro new among
  obtain ⟨other, there, rfl⟩ := (canonical.proper.mem_pivot leaves.listed).1 among
  by_cases same : other.basic = line.basic
  · cases canonical.proper.basic_inj there member same
    rw [Line.swap_self]
    exact ratio
  · rw [Line.bound_swap same]
    by_cases limits : 0 < other.entry column
    · have enough := (le_div_iff₀ limits).1 (leaves.least other there limits)
      linarith
    · have own := canonical.nonneg other there
      have part := mul_nonpos_of_nonpos_of_nonneg (not_lt.1 limits) ratio
      linarith

/-- One pivot of minimizing a cost over the allowed columns. -/
inductive Step (cost : List Rat) (allowed : Nat → Bool) (before : Table Rat) : Table Rat → Prop
  | pivot {column row : Nat} {line : Line Rat} (enters : Enters cost allowed before column)
      (leaves : Leaves before column row line) : Step cost allowed before (before.pivot row column)

theorem Step.canonical (step : Step cost allowed before after) (canonical : before.Canonical) : after.Canonical := by
  cases step with
  | pivot enters leaves => exact leaves.canonical_pivot canonical enters.within

theorem Step.kin (step : Step cost allowed before after) (canonical : before.Canonical) : before.Kin after := by
  cases step with
  | pivot enters leaves => exact canonical.proper.kin_pivot leaves.listed leaves.positive.ne'

theorem canonical_of_reaches (reaches : Relation.ReflTransGen (Step cost allowed) before after)
    (canonical : before.Canonical) : after.Canonical ∧ before.Kin after := by
  induction reaches with
  | refl => exact ⟨canonical, .refl before⟩
  | tail _ step ih => exact ⟨step.canonical ih.1, ih.2.trans (step.kin ih.1)⟩

/-- How minimizing a cost ends: at a table that no column improves, at a column that nothing limits, or after
all the steps it may take. -/
inductive Ends (cost : List Rat) (allowed : Nat → Bool) (table : Table Rat) (steps : Nat) : Outcome Rat → Prop
  | optimal {reached : Table Rat} (reaches : Relation.ReflTransGen (Step cost allowed) table reached)
      (least : reached.entering? 0 cost allowed = none) : Ends cost allowed table steps (.optimal reached)
  | unbounded {reached : Table Rat} {column : Nat} (reaches : Relation.ReflTransGen (Step cost allowed) table reached)
      (enters : Enters cost allowed reached column) (free : ∀ line ∈ reached.lines, line.entry column ≤ 0) :
      Ends cost allowed table steps .unbounded
  | unending (run : Nat → Table Rat) (start : run 0 = table)
      (step : ∀ i < steps, Step cost allowed (run i) (run (i + 1))) : Ends cost allowed table steps .unending

theorem Ends.step (step : Step cost allowed before after) (ends : Ends cost allowed after steps outcome) :
    Ends cost allowed before (steps + 1) outcome := by
  cases ends with
  | optimal reaches least => exact .optimal (.head step reaches) least
  | unbounded reaches enters free => exact .unbounded (.head step reaches) enters free
  | unending run start steps =>
    refine .unending (fun i => if i = 0 then before else run (i - 1)) (if_pos rfl) ?_
    intro i below
    cases i with
    | zero => simpa [start] using step
    | succ i => simpa using steps i (by omega)

theorem ends_minimize (cost : List Rat) (allowed : Nat → Bool) (steps : Nat) (table : Table Rat) :
    Ends cost allowed table steps (minimize 0 cost allowed steps table) := by
  induction steps generalizing table with
  | zero =>
    refine .unending (fun _ => table) rfl ?_
    intro i below
    omega
  | succ steps ih =>
    rw [minimize]
    split
    · next least => exact .optimal .refl least
    · next column entering =>
      have enters := enters_of_entering? entering
      split
      · next none => exact .unbounded .refl enters fun line member => entry_nonpos_of_leaving? none member
      · next row leaving =>
        obtain ⟨line, leaves⟩ := leaves_of_leaving? leaving
        exact .step (.pivot enters leaves) (ih _)

end Deliberation.Simplex
