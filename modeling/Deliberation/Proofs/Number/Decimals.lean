import Deliberation.Expr.Token
import Deliberation.Proofs.Number.Whole

/-!
What decimals look like: they start with a digit, and go on with digits and points.
-/

namespace Deliberation

open Token

theorem digitText_digit (n : Nat) : ∃ first ∈ (Decimal.digitText n).head?, first.isDigit := by
  obtain ⟨first, rest, same⟩ := List.exists_cons_of_ne_nil (Decimal.digitText_ne_nil n)
  exact ⟨first, by simp [same], Decimal.isDigit_of_mem_digitText (by rw [same]; exact List.mem_cons_self ..)⟩

theorem digitText_numeric (n : Nat) : ∀ c ∈ Decimal.digitText n, isNumeric c := by
  intro c member
  simp [isNumeric, Decimal.isDigit_of_mem_digitText member]

/-- Digits, and points after the first of them. -/
structure Decimals (text : List Char) : Prop where
  digit : ∃ first ∈ text.head?, first.isDigit
  numeric : ∀ c ∈ text, isNumeric c

theorem decimals_digitText (n : Nat) : Decimals (Decimal.digitText n) := ⟨digitText_digit n, digitText_numeric n⟩

theorem Decimals.append {text more : List Char} (decimals : Decimals text) (numeric : ∀ c ∈ more, isNumeric c) :
    Decimals (text ++ more) := by
  refine ⟨?_, List.forall_mem_append.2 ⟨decimals.numeric, numeric⟩⟩
  obtain ⟨first, here, digit⟩ := decimals.digit
  obtain ⟨rest, rfl⟩ := List.head?_eq_some_iff.1 here
  exact ⟨first, rfl, digit⟩

theorem numeric_zeros (n : Nat) : ∀ c ∈ List.replicate n '0', isNumeric c := by
  intro c member
  rw [List.eq_of_mem_replicate member]
  decide

theorem decimals_positional {whole : String} (numeric : ∀ c ∈ whole.toList, isNumeric c) (digits : Nat) (power : Int) :
    Decimals (Decimal.positional whole digits power) := by
  have digit := decimals_digitText digits
  rw [Decimal.positional]
  simp only
  split
  · exact (digit.append (numeric_zeros power.toNat)).append numeric
  · split
    · next places =>
      have point : ∀ c ∈ '.' :: (Decimal.digitText digits).drop ((Decimal.digitText digits).length - (-power).toNat), isNumeric c :=
        List.forall_mem_cons.2 ⟨by decide, fun c member => digit.numeric c (List.mem_of_mem_drop member)⟩
      refine Decimals.append ⟨?_, fun c member => digit.numeric c (List.mem_of_mem_take member)⟩ point
      obtain ⟨first, here, digit⟩ := digit.digit
      obtain ⟨rest, same⟩ := List.head?_eq_some_iff.1 here
      rw [same, List.length_cons] at places ⊢
      obtain ⟨n, positive⟩ : ∃ n, rest.length + 1 - (-power).toNat = n + 1 := ⟨rest.length - (-power).toNat, by omega⟩
      exact ⟨first, by simp [positive], digit⟩
    · refine ⟨⟨'0', rfl, by decide⟩, ?_⟩
      refine List.forall_mem_cons.2 ⟨by decide, List.forall_mem_cons.2 ⟨by decide, ?_⟩⟩
      exact List.forall_mem_append.2 ⟨numeric_zeros _, digit.numeric⟩

end Deliberation
