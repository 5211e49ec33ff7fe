import Mathlib.Algebra.Order.Group.Unbundled.Abs
import Mathlib.Algebra.Order.Ring.Rat
import Mathlib.Data.List.MinMax
import Mathlib.Data.Rat.Floor
import Mathlib.Tactic.Linarith
import Mathlib.Tactic.NormNum
import Deliberation.Schedule.CriticalPath

/-!
Arithmetic read as exact. Over the rational numbers, sums, bounds, sorting and the choice of a least
element are those of the ordered field; whole numbers are farther apart than the tolerance.
-/

namespace Deliberation

namespace Scalar

theorem sum_eq (l : List Rat) : Scalar.sum l = l.sum := by
  rw [Scalar.sum, List.sum_eq_foldl]

theorem max_eq (a b : Rat) : Scalar.max a b = Max.max a b := by
  rw [Scalar.max]
  by_cases below : a < b
  · simp [below, max_eq_right below.le]
  · simp [below, max_eq_left (not_lt.1 below)]

theorem min_eq (a b : Rat) : Scalar.min a b = Min.min a b := by
  rw [Scalar.min]
  by_cases below : b < a
  · simp [below, min_eq_right below.le]
  · simp [below, min_eq_left (not_lt.1 below)]

theorem abs_eq (a : Rat) : Scalar.abs a = |a| := by
  rw [Scalar.abs]
  by_cases negative : a < 0
  · simp [negative, abs_of_neg negative]
  · by_cases zero : a = 0
    · simp [zero]
    · simp [negative, zero, abs_of_nonneg (not_lt.1 negative)]

theorem ofNat_eq (n : Nat) : (Scalar.ofNat n : Rat) = n := Int.cast_natCast n

theorem floorNat_eq (a : Rat) : Scalar.floorNat a = ⌊a⌋₊ := Int.floor_toNat a

theorem ceilNat_eq (a : Rat) : Scalar.ceilNat a = ⌈a⌉₊ := by
  show a.ceil.toNat = ⌈a⌉₊
  rw [Rat.ceil_eq_neg_floor_neg]
  exact Int.ceil_toNat a

theorem mem_sort {l : List Rat} {a : Rat} : a ∈ Scalar.sort l ↔ a ∈ l := List.mem_mergeSort

theorem pairwise_sort (l : List Rat) : (Scalar.sort l).Pairwise (· ≤ ·) := by
  have sorted : (l.mergeSort fun a b => decide (a ≤ b)).Pairwise fun a b => decide (a ≤ b) :=
    List.pairwise_mergeSort (fun a b c first second => by simp only [decide_eq_true_eq] at *; exact first.trans second)
      (fun a b => by simpa using le_total a b) l
  exact sorted.imp of_decide_eq_true

theorem sort_eq_self {l : List Rat} (sorted : l.Pairwise (· ≤ ·)) : Scalar.sort l = l :=
  List.mergeSort_of_pairwise (sorted.imp fun order => decide_eq_true order)

/-- The least element of a list is in it, and no key is less. -/
theorem leastBy?_eq_some {α : Type} {key : α → Rat} {l : List α} {a : α} (least : leastBy? key l = some a) :
    a ∈ l ∧ ∀ b ∈ l, key a ≤ key b := by
  induction l generalizing a with
  | nil => simp [leastBy?] at least
  | cons first rest ih =>
    rw [leastBy?] at least
    cases found : leastBy? key rest with
    | none =>
      have empty : rest = [] := by
        cases rest with
        | nil => rfl
        | cons => simp only [leastBy?] at found; split at found <;> simp at found
      simp_all
    | some other =>
      obtain ⟨member, below⟩ := ih found
      simp only [found, Option.some.injEq, Scalar.sortsBefore, decide_eq_true_eq] at least
      subst least
      split
      · next first_le =>
        refine ⟨List.mem_cons_self .., ?_⟩
        intro b among
        rcases List.mem_cons.1 among with rfl | later
        · exact le_rfl
        · exact first_le.trans (below b later)
      · next greater =>
        refine ⟨List.mem_cons_of_mem _ member, ?_⟩
        intro b among
        rcases List.mem_cons.1 among with rfl | later
        · exact (not_le.1 greater).le
        · exact below b later

theorem leastBy?_eq_none {α : Type} {key : α → Rat} {l : List α} : leastBy? key l = none ↔ l = [] := by
  cases l with
  | nil => simp [leastBy?]
  | cons first rest => rw [leastBy?]; split <;> simp

theorem exists_greatest {l : List Rat} (some : l ≠ []) : ∃ a ∈ l, ∀ b ∈ l, b ≤ a := by
  have long : 0 < l.length := List.length_pos_iff.2 some
  exact ⟨l.maximum_of_length_pos long, List.maximum_of_length_pos_mem long,
    fun b member => List.le_maximum_of_length_pos_of_mem member long⟩

end Scalar

theorem tolerance_pos : (0 : Rat) < tolerance := by
  rw [tolerance]
  norm_num

theorem tolerance_lt_one : (tolerance : Rat) < 1 := by
  rw [tolerance]
  norm_num

/-- A number without a fraction. -/
def Whole (a : Rat) : Prop := ∃ n : Int, a = n

namespace Whole

variable {a b : Rat}

theorem zero : Whole 0 := ⟨0, by simp⟩

theorem add (left : Whole a) (right : Whole b) : Whole (a + b) := by
  obtain ⟨m, rfl⟩ := left
  obtain ⟨n, rfl⟩ := right
  exact ⟨m + n, by simp⟩

theorem sub (left : Whole a) (right : Whole b) : Whole (a - b) := by
  obtain ⟨m, rfl⟩ := left
  obtain ⟨n, rfl⟩ := right
  exact ⟨m - n, by simp⟩

theorem sum {l : List Rat} (whole : ∀ a ∈ l, Whole a) : Whole l.sum := by
  induction l with
  | nil => exact zero
  | cons a rest ih =>
    obtain ⟨here, later⟩ := List.forall_mem_cons.1 whole
    rw [List.sum_cons]
    exact here.add (ih later)

theorem add_one_le (left : Whole a) (right : Whole b) (less : a < b) : a + 1 ≤ b := by
  obtain ⟨m, rfl⟩ := left
  obtain ⟨n, rfl⟩ := right
  have less : m < n := by exact_mod_cast less
  exact_mod_cast less

/-- Between whole numbers, less than by more than the tolerance is less than. -/
theorem lt_sub_tolerance (left : Whole a) (right : Whole b) (less : a < b) : a < b - tolerance := by
  linarith [left.add_one_le right less, tolerance_lt_one]

/-- Between whole numbers, at most up to the tolerance is at most. -/
theorem le_of_le_add_tolerance (left : Whole a) (right : Whole b) (near : a ≤ b + tolerance) : a ≤ b := by
  by_contra greater
  linarith [right.add_one_le left (not_le.1 greater), tolerance_lt_one]

/-- A whole number within the tolerance of zero is zero. -/
theorem abs_le_tolerance_iff (whole : Whole a) : |a| ≤ tolerance ↔ a = 0 := by
  constructor
  · intro near
    obtain ⟨above, below⟩ := abs_le.1 near
    refine le_antisymm ?_ ?_
    · exact whole.le_of_le_add_tolerance zero (by linarith)
    · exact zero.le_of_le_add_tolerance whole (by linarith)
  · rintro rfl
    rw [abs_zero]
    exact tolerance_pos.le

/-- A whole number, where it is not negative, is kept when small numbers become zero. -/
theorem eq_of_nonneg [Decidable (a ≤ tolerance)] (whole : Whole a) (nonneg : 0 ≤ a) : (if a ≤ tolerance then 0 else a) = a := by
  split
  · next small => exact nonneg.antisymm (whole.le_of_le_add_tolerance zero (by simpa using small))
  · rfl

theorem settle_eq (whole : Whole a) : CriticalPath.settle a = a := by
  rw [CriticalPath.settle, Scalar.abs_eq]
  split
  · next near => exact (whole.abs_le_tolerance_iff.1 near).symm
  · rfl

end Whole

namespace CriticalPath

variable {times : List Rat} {time bound : Rat}

/-- A bound on the greatest of numbers and zero bounds them all. -/
theorem latest_le_iff : latest times ≤ time ↔ 0 ≤ time ∧ ∀ other ∈ times, other ≤ time := by
  have folded (start : Rat) : times.foldl Scalar.max start ≤ time ↔ start ≤ time ∧ ∀ other ∈ times, other ≤ time := by
    induction times generalizing start with
    | nil => simp
    | cons first rest ih => rw [List.foldl_cons, ih, Scalar.max_eq, max_le_iff, List.forall_mem_cons, and_assoc]
  exact folded 0

theorem le_latest (member : time ∈ times) : time ≤ latest times := (latest_le_iff.1 le_rfl).2 time member

theorem latest_nonneg (times : List Rat) : 0 ≤ latest times := (latest_le_iff.1 (le_refl (latest times))).1

/-- The greatest of numbers and zero is one of them. -/
theorem latest_eq_zero_or_mem (times : List Rat) : latest times = 0 ∨ latest times ∈ times := by
  have folded (start : Rat) : times.foldl Scalar.max start = start ∨ times.foldl Scalar.max start ∈ times := by
    induction times generalizing start with
    | nil => exact .inl rfl
    | cons first rest ih =>
      rw [List.foldl_cons, Scalar.max_eq]
      rcases ih (max start first) with same | later
      · rcases max_choice start first with left | right
        · exact .inl (same.trans left)
        · refine .inr ?_
          rw [same, right]
          exact List.mem_cons_self ..
      · exact .inr (List.mem_cons_of_mem _ later)
  exact folded 0

/-- A time before the smallest of numbers and a bound is before them all. -/
theorem le_earliest_iff : time ≤ earliest bound times ↔ time ≤ bound ∧ ∀ other ∈ times, time ≤ other := by
  rw [earliest]
  induction times generalizing bound with
  | nil => simp
  | cons first rest ih => rw [List.foldl_cons, ih, Scalar.min_eq, le_min_iff, List.forall_mem_cons, and_assoc]

theorem earliest_le (member : time ∈ times) : earliest bound times ≤ time := (le_earliest_iff.1 le_rfl).2 time member

theorem earliest_le_bound (bound : Rat) (times : List Rat) : earliest bound times ≤ bound :=
  (le_earliest_iff.1 (le_refl (earliest bound times))).1

/-- The smallest of numbers and a bound is one of them. -/
theorem earliest_eq_bound_or_mem (bound : Rat) (times : List Rat) :
    earliest bound times = bound ∨ earliest bound times ∈ times := by
  rw [earliest]
  induction times generalizing bound with
  | nil => exact .inl rfl
  | cons first rest ih =>
    rw [List.foldl_cons, Scalar.min_eq]
    rcases ih (min bound first) with same | later
    · rcases min_choice bound first with left | right
      · exact .inl (same.trans left)
      · refine .inr ?_
        rw [same, right]
        exact List.mem_cons_self ..
    · exact .inr (List.mem_cons_of_mem _ later)

end CriticalPath

end Deliberation
