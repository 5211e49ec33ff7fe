import Deliberation.Expr.Value

/-!
Whole numbers: those that fit into 64 bits, and their digits.
-/

namespace Deliberation

theorem toInt_of_int64? {n : Int} {word : Int64} (fits : int64? n = some word) : word.toInt = n := by
  rw [int64?] at fits
  split at fits
  · next range =>
    cases fits
    exact Int64.toInt_ofInt_of_le range.1 (Int.lt_of_le_of_lt range.2 (by decide))
  · cases fits

theorem int64?_toInt (n : Int64) : int64? n.toInt = some n := by
  rw [int64?, if_pos ⟨n.minValue_le_toInt, n.toInt_le⟩, Int64.ofInt_toInt]

theorem int64?_eq_none_iff {n : Int} : int64? n = none ↔ n < Int64.minValue.toInt ∨ Int64.maxValue.toInt < n := by
  rw [int64?]
  split
  · next inside => exact ⟨fun impossible => (by cases impossible), fun outside => by omega⟩
  · next outside => exact ⟨fun _ => by omega, fun _ => rfl⟩

/-- Turning the sign of an integer is exact, save for the least one. -/
theorem toInt_neg_of_ne {n : Int64} (notLeast : n ≠ Int64.minValue) : (-n).toInt = -n.toInt := by
  have least := n.minValue_le_toInt
  have greatest := n.toInt_le
  have strict : n.toInt ≠ Int64.minValue.toInt := fun same => notLeast (Int64.toInt_inj.1 same)
  rw [Int64.toInt_minValue] at least strict
  rw [Int64.toInt_maxValue] at greatest
  rw [Int64.toInt_neg]
  exact Int.bmod_eq_of_le (by omega) (by omega)

namespace Decimal

theorem digitValue_digitText (n : Nat) : digitValue (digitText n) = n := Nat.ofDigitChars_ten_toDigits

theorem isDigit_of_mem_digitText {n : Nat} {c : Char} (member : c ∈ digitText n) : c.isDigit :=
  Nat.isDigit_of_mem_toDigits (by decide) (by decide) member

theorem digitText_ne_nil (n : Nat) : digitText n ≠ [] := Nat.toDigits_ne_nil

end Decimal

end Deliberation
