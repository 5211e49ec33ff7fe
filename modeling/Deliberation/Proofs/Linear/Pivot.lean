import Deliberation.Proofs.Linear.Table
import Mathlib.Algebra.BigOperators.Field

/-!
Pivots. A pivot on an entry that is not zero leaves the solutions of a table as they are and makes the
column of the entry basic in its line, in the place of the column that was.
-/

namespace Deliberation.Simplex

open Finset (range)

variable {table : Table Rat} {line other : Line Rat} {x : Nat → Rat} {column width row j : Nat}

namespace Line

theorem entry_divide (line : Line Rat) (divisor : Rat) : (line.divide divisor column).entry j = line.entry j / divisor := by
  rw [entry, divide, Lists.getD_map (f := (· / divisor)) (zero_div divisor), entry]

/-- An entry that does not count as more than zero is zero. -/
theorem entry_eq_zero (none : ¬ 0 < Scalar.abs (line.entry column)) : line.entry column = 0 := by
  rw [Scalar.abs_eq] at none
  exact abs_nonpos_iff.1 (not_lt.1 none)

/-- A line that is cleared of a column has lost the multiple of the other line, in every entry. -/
theorem entry_clear {unit : Line Rat} (even : line.coefficients.length = unit.coefficients.length) :
    (line.clear unit column).entry j = line.entry j - line.entry column * unit.entry j := by
  rw [clear]
  split
  · exact Lists.getD_zipWith (f := fun a b => a - line.entry column * b) (by rw [mul_zero, sub_zero]) even j
  · next none => rw [entry_eq_zero none, zero_mul, sub_zero]

theorem bound_clear {unit : Line Rat} : (line.clear unit column).bound = line.bound - line.entry column * unit.bound := by
  rw [clear]
  split
  · rfl
  · next none => rw [entry_eq_zero none, zero_mul, sub_zero]

theorem basic_clear {unit : Line Rat} : (line.clear unit column).basic = line.basic := by
  rw [clear]
  split <;> rfl

theorem length_clear {unit : Line Rat} (even : line.coefficients.length = unit.coefficients.length) :
    (line.clear unit column).coefficients.length = line.coefficients.length := by
  rw [clear]
  split
  · simp [even]
  · rfl

/-- What becomes of a line when a column becomes basic in some line: that one is divided, the others are cleared. -/
def swap (line : Line Rat) (column : Nat) (other : Line Rat) : Line Rat :=
  if other.basic = line.basic then line.divide (line.entry column) column
  else other.clear (line.divide (line.entry column) column) column

theorem basic_swap : (line.swap column other).basic = if other.basic = line.basic then column else other.basic := by
  rw [swap]
  split
  · rfl
  · exact basic_clear

theorem swap_self (line : Line Rat) (column : Nat) : line.swap column line = line.divide (line.entry column) column := by
  rw [swap, if_pos rfl]

theorem entry_swap (even : other.coefficients.length = line.coefficients.length) (apart : other.basic ≠ line.basic) :
    (line.swap column other).entry j = other.entry j - other.entry column * (line.entry j / line.entry column) := by
  rw [swap, if_neg apart, entry_clear, entry_divide]
  simpa [divide] using even

theorem bound_swap (apart : other.basic ≠ line.basic) :
    (line.swap column other).bound = other.bound - other.entry column * (line.bound / line.entry column) := by
  rw [swap, if_neg apart, bound_clear]
  rfl

theorem total_swap_self : (line.swap column line).total width x = line.total width x / line.entry column := by
  rw [swap_self, total, total, Finset.sum_div]
  refine Finset.sum_congr rfl ?_
  intro j _
  rw [entry_divide]
  ring

theorem total_swap (even : other.coefficients.length = line.coefficients.length) (apart : other.basic ≠ line.basic) :
    (line.swap column other).total width x =
      other.total width x - other.entry column * (line.total width x / line.entry column) := by
  rw [total, total, total, Finset.sum_div, Finset.mul_sum, ← Finset.sum_sub_distrib]
  refine Finset.sum_congr rfl ?_
  intro j _
  rw [entry_swap even apart]
  ring

end Line

/-- A pivot changes every line on its own. -/
theorem Table.Proper.lines_pivot (proper : table.Proper) (listed : table.lines[row]? = some line) :
    (table.pivot row column).lines = table.lines.map (line.swap column) := by
  rw [Table.pivot, listed]
  conv_rhs => rw [← List.zipIdx_map_fst 0 table.lines, List.map_map]
  refine List.map_congr_left ?_
  rintro ⟨other, i⟩ member
  have there := List.mk_mem_zipIdx_iff_getElem?.1 member
  simp only [Function.comp_apply, Line.swap]
  by_cases same : i = row
  · subst same
    cases Option.some.inj (listed.symm.trans there)
    simp
  · have apart : other.basic ≠ line.basic := by
      intro equal
      cases proper.basic_inj (List.mem_of_getElem? there) (List.mem_of_getElem? listed) equal
      obtain ⟨below, at_i⟩ := List.getElem?_eq_some_iff.1 there
      have distinct := List.Nodup.of_map _ proper.distinct
      exact same ((List.getElem?_inj below distinct).1 (there.trans listed.symm))
    rw [if_neg same, if_neg apart]

theorem width_pivot : (table.pivot row column).width = table.width := by
  rw [Table.pivot]
  split <;> rfl

theorem artificial_pivot : (table.pivot row column).artificial = table.artificial := by
  rw [Table.pivot]
  split <;> rfl

namespace Table.Proper

variable (proper : table.Proper) (listed : table.lines[row]? = some line)

include proper listed

theorem mem_pivot {new : Line Rat} :
    new ∈ (table.pivot row column).lines ↔ ∃ other ∈ table.lines, line.swap column other = new := by
  rw [proper.lines_pivot listed, List.mem_map]

/-- The column of a pivot was basic in no other line. -/
theorem column_ne_basic (nonzero : line.entry column ≠ 0) (among : other ∈ table.lines) (apart : other.basic ≠ line.basic) :
    other.basic ≠ column := by
  rintro rfl
  rw [proper.unit line (List.mem_of_getElem? listed) other among, if_neg apart.symm] at nonzero
  exact nonzero rfl

/-- After a pivot, the basic columns are the new one and those of the other lines. -/
theorem basic_pivot : (table.pivot row column).Basic j ↔ j = column ∨ j ≠ line.basic ∧ table.Basic j := by
  have member := List.mem_of_getElem? listed
  constructor
  · rintro ⟨new, among, rfl⟩
    obtain ⟨other, there, rfl⟩ := (proper.mem_pivot listed).1 among
    rw [Line.basic_swap]
    split
    · exact .inl rfl
    · next apart => exact .inr ⟨apart, other, there, rfl⟩
  · rintro (rfl | ⟨apart, other, there, rfl⟩)
    · refine ⟨_, (proper.mem_pivot listed).2 ⟨line, member, rfl⟩, ?_⟩
      rw [Line.basic_swap, if_pos rfl]
    · refine ⟨_, (proper.mem_pivot listed).2 ⟨other, there, rfl⟩, ?_⟩
      rw [Line.basic_swap, if_neg apart]

theorem even (among : other ∈ table.lines) : other.coefficients.length = line.coefficients.length :=
  (proper.long other among).trans (proper.long line (List.mem_of_getElem? listed)).symm

theorem distinct_pivot (nonzero : line.entry column ≠ 0) : ((table.pivot row column).lines.map Line.basic).Nodup := by
  rw [proper.lines_pivot listed, List.map_map]
  refine List.Nodup.map_on ?_ (List.Nodup.of_map _ proper.distinct)
  intro first here second there same
  simp only [Function.comp_apply, Line.basic_swap] at same
  by_cases one : first.basic = line.basic <;> by_cases two : second.basic = line.basic
  · exact proper.basic_inj here there (one.trans two.symm)
  · rw [if_pos one, if_neg two] at same
    exact absurd same.symm (proper.column_ne_basic listed nonzero there two)
  · rw [if_neg one, if_pos two] at same
    exact absurd same (proper.column_ne_basic listed nonzero here one)
  · rw [if_neg one, if_neg two] at same
    exact proper.basic_inj here there same

theorem unit_swap (nonzero : line.entry column ≠ 0) {first second : Line Rat} (here : first ∈ table.lines)
    (there : second ∈ table.lines) : (line.swap column first).entry (line.swap column second).basic =
      if (line.swap column first).basic = (line.swap column second).basic then 1 else 0 := by
  have member := List.mem_of_getElem? listed
  by_cases one : first.basic = line.basic <;> by_cases two : second.basic = line.basic
  · cases proper.basic_inj here member one
    cases proper.basic_inj there member two
    rw [Line.swap_self, Line.entry_divide, if_pos rfl]
    exact div_self nonzero
  · cases proper.basic_inj here member one
    have apart := proper.column_ne_basic listed nonzero there two
    rw [Line.swap_self, Line.entry_divide, Line.basic_swap, if_neg two, proper.unit line member second there,
      if_neg (Ne.symm two), zero_div, if_neg]
    exact apart.symm
  · cases proper.basic_inj there member two
    have apart := proper.column_ne_basic listed nonzero here one
    rw [Line.basic_swap, Line.basic_swap, if_neg one, if_pos rfl, Line.entry_swap (proper.even listed here) one,
      div_self nonzero, mul_one, sub_self, if_neg apart]
  · rw [Line.basic_swap, Line.basic_swap, if_neg one, if_neg two, Line.entry_swap (proper.even listed here) one,
      proper.unit line member second there, if_neg (Ne.symm two), zero_div, mul_zero, sub_zero,
      proper.unit first here second there]

/-- A pivot leaves a table proper. -/
theorem pivot (nonzero : line.entry column ≠ 0) (inside : column < table.width) : (table.pivot row column).Proper := by
  constructor
  · intro new among
    obtain ⟨other, there, rfl⟩ := (proper.mem_pivot listed).1 among
    rw [width_pivot, Line.swap]
    split
    · simpa [Line.divide] using proper.long line (List.mem_of_getElem? listed)
    · rw [Line.length_clear (by simpa [Line.divide] using proper.even listed there)]
      exact proper.long other there
  · intro new among
    obtain ⟨other, there, rfl⟩ := (proper.mem_pivot listed).1 among
    rw [width_pivot, Line.basic_swap]
    split
    · exact inside
    · exact proper.within other there
  · exact proper.distinct_pivot listed nonzero
  · intro new among new' among'
    obtain ⟨first, here, rfl⟩ := (proper.mem_pivot listed).1 among
    obtain ⟨second, there, rfl⟩ := (proper.mem_pivot listed).1 among'
    exact proper.unit_swap listed nonzero here there

/-- A pivot leaves the solutions of a table as they are. -/
theorem solves_pivot (nonzero : line.entry column ≠ 0) : (table.pivot row column).Solves x ↔ table.Solves x := by
  have member := List.mem_of_getElem? listed
  have bound : (line.swap column line).bound = line.bound / line.entry column := by
    rw [Line.swap_self]
    rfl
  constructor
  · intro solves
    have own : line.total table.width x = line.bound := by
      have here := solves _ ((proper.mem_pivot listed).2 ⟨line, member, rfl⟩)
      rw [width_pivot, Line.total_swap_self, bound] at here
      exact (div_left_inj' nonzero).1 here
    intro other among
    by_cases same : other.basic = line.basic
    · cases proper.basic_inj among member same
      exact own
    · have there := solves _ ((proper.mem_pivot listed).2 ⟨other, among, rfl⟩)
      rw [width_pivot, Line.total_swap (proper.even listed among) same, Line.bound_swap same, own] at there
      exact sub_left_inj.1 there
  · intro solves new among
    obtain ⟨other, there, rfl⟩ := (proper.mem_pivot listed).1 among
    rw [width_pivot]
    by_cases same : other.basic = line.basic
    · cases proper.basic_inj there member same
      rw [Line.total_swap_self, bound, solves line member]
    · rw [Line.total_swap (proper.even listed there) same, Line.bound_swap same, solves other there, solves line member]

end Table.Proper

end Deliberation.Simplex
