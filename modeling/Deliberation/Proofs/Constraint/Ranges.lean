import Deliberation.Constraint.Basic
import Deliberation.Proofs.Number.Whole
import Mathlib.Data.Set.Card

/-!
The values of a range: every integer that is reached from the least one in steps, up to the greatest one,
from the least to the greatest, if there are not too many of them and the width of the range is an integer
of 64 bits.
-/

namespace Deliberation

/-- The integers from a least one on, in steps, that do not exceed a greatest one. -/
def rungs (min max step : Int) : Set Int := {n | ∃ k : Nat, n = min + k * step ∧ n ≤ max}

section

variable {min max step n : Int}

theorem mem_rungs (positive : 0 < step) :
    n ∈ rungs min max step ↔ ∃ k < ((max - min) / step + 1).toNat, n = min + k * step := by
  have within (k : Nat) : min + k * step ≤ max ↔ k < ((max - min) / step + 1).toNat := by
    rw [Int.lt_toNat, Int.lt_add_one_iff, Int.le_ediv_iff_mul_le positive]
    omega
  constructor
  · rintro ⟨k, rfl, below⟩
    exact ⟨k, (within k).1 below, rfl⟩
  · rintro ⟨k, inside, rfl⟩
    exact ⟨k, rfl, (within k).2 inside⟩

theorem ncard_rungs (positive : 0 < step) : (rungs min max step).ncard = ((max - min) / step + 1).toNat := by
  have injective : Function.Injective fun k : Nat => min + k * step := by
    intro k l same
    have scaled : (k : Int) * step = l * step := add_left_cancel same
    exact_mod_cast Int.eq_of_mul_eq_mul_right positive.ne' scaled
  have image : rungs min max step =
      ((Finset.range ((max - min) / step + 1).toNat).image fun k : Nat => min + k * step : Finset Int) := by
    ext n
    rw [mem_rungs positive]
    simp [eq_comm]
  rw [image, Set.ncard_coe_finset, Finset.card_image_of_injective _ injective, Finset.card_range]

end

namespace Domain

variable {R : Type} [Scalar R] {min max step : Int64}

/-- The width of a range and the number of its values are 64-bit integers. -/
def Fits (min max step : Int64) : Prop :=
  max.toInt - min.toInt ≤ Int64.maxValue.toInt ∧
    ((rungs min.toInt max.toInt step.toInt).ncard : Int) ≤ Int64.maxValue.toInt

/-- The steps of a range are exact as long as they do not lead beyond the greatest value. -/
theorem toInt_step (positive : 0 ≤ step.toInt) {k : Nat} (inside : min.toInt + k * step.toInt ≤ max.toInt) :
    (min + Int64.ofNat k * step).toInt = min.toInt + k * step.toInt := by
  have same : min + Int64.ofNat k * step = Int64.ofInt (min.toInt + k * step.toInt) := by
    rw [Int64.ofInt_add, Int64.ofInt_mul, Int64.ofInt_toInt, Int64.ofInt_toInt, Int64.ofInt_eq_ofNat]
  have upwards : 0 ≤ k * step.toInt := Int.mul_nonneg (Int.natCast_nonneg k) positive
  have least := min.minValue_le_toInt
  have greatest := max.toInt_le
  rw [Int64.toInt_minValue] at least
  rw [Int64.toInt_maxValue] at greatest
  rw [same]
  exact Int64.toInt_ofInt_of_le (by omega) (by omega)

theorem ncard_range (ordered : min ≤ max) (positive : 0 < step.toInt) :
    ((rungs min.toInt max.toInt step.toInt).ncard : Int) = (max.toInt - min.toInt) / step.toInt + 1 := by
  have width : 0 ≤ max.toInt - min.toInt := Int.sub_nonneg.2 (Int64.le_iff_toInt_le.1 ordered)
  rw [ncard_rungs positive, Int.toNat_of_nonneg (Int.add_nonneg (Int.ediv_nonneg width positive.le) (by decide))]

theorem not_le_zero (positive : 0 < step.toInt) : ¬ step ≤ 0 := by
  rw [Int64.le_iff_toInt_le, Int64.toInt_zero]
  omega

theorem fits_iff (ordered : min ≤ max) (positive : 0 < step.toInt) : Fits min max step ↔
    ¬ ((int64? (max.toInt - min.toInt)).isNone = true ∨
      (int64? ((max.toInt - min.toInt) / step.toInt + 1)).isNone = true) := by
  have width : 0 ≤ max.toInt - min.toInt := Int.sub_nonneg.2 (Int64.le_iff_toInt_le.1 ordered)
  have total := ncard_range ordered positive
  simp only [Option.isNone_iff_eq_none, int64?_eq_none_iff, Fits, ← total]
  rw [Int64.toInt_minValue]
  omega

/-- A range that is not empty and fits into 64 bits is only judged by how many values it has. -/
theorem expand_of_fits (name : String) (ordered : min ≤ max) (positive : 0 < step.toInt)
    (fits : Fits min max step) {count : Nat} (counted : (rungs min.toInt max.toInt step.toInt).ncard = count) :
    (Domain.range min max step).expand (R := R) name =
      if 1000000 < count then .error (.invalidDomain name (.tooMany count))
      else .ok ((List.range count).map fun k => .int (min + Int64.ofNat k * step)) := by
  have inside := (fits_iff ordered positive).1 fits
  have total := ncard_range ordered positive
  rw [← total, counted] at inside
  rw [expand, if_neg (Int64.not_lt.2 ordered), if_neg (not_le_zero positive)]
  simp only [← total, counted, if_neg inside, greatestSize, Int.toNat_natCast]
  norm_cast

theorem expand_of_not_fits (name : String) (ordered : min ≤ max) (positive : 0 < step.toInt)
    (unfit : ¬ Fits min max step) :
    (Domain.range min max step).expand (R := R) name = .error (.aborted .rangeWidth) := by
  rw [expand, if_neg (Int64.not_lt.2 ordered), if_neg (not_le_zero positive)]
  exact if_pos (not_not.1 ((fits_iff ordered positive).not.1 unfit))

/-- The values that a range lists are exact. -/
theorem map_toInt_steps (positive : 0 < step.toInt) {count : Nat}
    (counted : (rungs min.toInt max.toInt step.toInt).ncard = count) :
    ((List.range count).map fun k => min + Int64.ofNat k * step).map Int64.toInt =
      (List.range count).map fun k : Nat => min.toInt + k * step.toInt := by
  rw [List.map_map]
  refine List.map_congr_left fun k member => ?_
  have inside : k < ((max.toInt - min.toInt) / step.toInt + 1).toNat := by
    rw [← ncard_rungs positive, counted]
    exact List.mem_range.1 member
  obtain ⟨_, _, below⟩ := (mem_rungs positive).2 ⟨k, inside, rfl⟩
  exact toInt_step positive.le below

/-- A range that is not empty has the values from its least one in steps up to its greatest one, in this
order, if there are at most a million; it is refused if there are more; and it makes the program stop if its
width or their number does not fit into 64 bits. -/
theorem expand_range (name : String) (ordered : min ≤ max) (positive : 1 ≤ step) :
    let values := rungs min.toInt max.toInt step.toInt
    (Fits min max step → values.ncard ≤ 1000000 →
      ∃ listed : List Int64, (Domain.range min max step).expand (R := R) name = .ok (listed.map .int) ∧
        listed.Pairwise (· < ·) ∧ ∀ n, n ∈ listed.map Int64.toInt ↔ n ∈ values) ∧
    (Fits min max step → 1000000 < values.ncard →
      (Domain.range min max step).expand (R := R) name = .error (.invalidDomain name (.tooMany values.ncard))) ∧
    (¬ Fits min max step →
      (Domain.range min max step).expand (R := R) name = .error (.aborted .rangeWidth)) := by
  have positive : 0 < step.toInt := by
    rw [Int64.le_iff_toInt_le, Int64.toInt_one] at positive
    omega
  obtain ⟨count, counted⟩ : ∃ count, (rungs min.toInt max.toInt step.toInt).ncard = count := ⟨_, rfl⟩
  dsimp only
  rw [counted]
  refine ⟨fun fits few => ?_, fun fits many => ?_, expand_of_not_fits name ordered positive⟩
  · have exactly := map_toInt_steps positive counted
    refine ⟨(List.range count).map fun k => min + Int64.ofNat k * step, ?_, ?_, fun n => ?_⟩
    · rw [expand_of_fits name ordered positive fits counted, if_neg (not_lt.2 few), List.map_map]
      rfl
    · simp only [Int64.lt_iff_toInt_lt]
      rw [← List.pairwise_map, exactly, List.pairwise_map]
      refine List.pairwise_lt_range.imp fun {k l} before => ?_
      have further : (k : Int) * step.toInt < l * step.toInt := Int.mul_lt_mul_of_pos_right (by omega) positive
      omega
    · rw [exactly, mem_rungs positive, ← ncard_rungs positive, counted]
      simp [eq_comm]
  · rw [expand_of_fits name ordered positive fits counted, if_pos many]

theorem expand_range_by_fives :
    (∃ listed : List Int64, (Domain.range 0 10 5).expand (R := Rat) "x" = .ok (listed.map .int) ∧
      listed.Pairwise (· < ·) ∧ ∀ n, n ∈ listed.map Int64.toInt ↔ n ∈ rungs 0 10 5) ∧
    (Domain.range 0 1000000 1).expand (R := Rat) "x" = .error (.invalidDomain "x" (.tooMany 1000001)) := by
  have few : (rungs (Int64.toInt 0) (Int64.toInt 10) (Int64.toInt 5)).ncard = 3 := ncard_rungs (by decide)
  have many : (rungs (Int64.toInt 0) (Int64.toInt 1000000) (Int64.toInt 1)).ncard = 1000001 := ncard_rungs (by decide)
  have fits : Fits 0 10 5 := ⟨by decide, by rw [few]; decide⟩
  have wide : Fits 0 1000000 1 := ⟨by decide, by rw [many]; decide⟩
  refine ⟨(expand_range "x" (by decide) (by decide)).1 fits (by rw [few]; decide), ?_⟩
  rw [(expand_range "x" (by decide) (by decide)).2.1 wide (by rw [many]; decide), many]
  rfl

/-- The widest range has three values in the greatest steps, but the program stops instead of listing them. -/
theorem expand_range_aborts_on_widest : Int64.minValue ≤ Int64.maxValue ∧ 1 ≤ Int64.maxValue ∧
    (rungs Int64.minValue.toInt Int64.maxValue.toInt Int64.maxValue.toInt).ncard = 3 ∧
    (Domain.range Int64.minValue Int64.maxValue Int64.maxValue).expand (R := Rat) "x" =
      .error (.aborted .rangeWidth) := by
  refine ⟨by decide, by decide, ncard_rungs (by decide), rfl⟩

end Domain

end Deliberation
