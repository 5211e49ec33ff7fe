import Mathlib.Algebra.BigOperators.Group.Finset.Basic
import Mathlib.Algebra.BigOperators.Ring.Finset
import Mathlib.Tactic.Ring
import Deliberation.Proofs.Lists
import Deliberation.Proofs.Number.Exact
import Deliberation.Linear.Simplex

/-!
Tables as systems of equations. In a proper table each line solves for its basic column; the table shows
one solution, in which the other columns are zero, and the cost of any solution is that of the one shown
and what the reduced costs add to it.
-/

namespace Deliberation.Simplex

open Finset (range)

variable {table : Table Rat} {line other : Line Rat} {x y : Nat → Rat} {cost : List Rat} {column width j : Nat}

/-- What the left side of a line comes to. -/
def Line.total (line : Line Rat) (width : Nat) (x : Nat → Rat) : Rat := ∑ j ∈ range width, line.entry j * x j

/-- Values of the columns that make every line true. -/
def Table.Solves (table : Table Rat) (x : Nat → Rat) : Prop :=
  ∀ line ∈ table.lines, line.total table.width x = line.bound

/-- Each line has the only entry in its basic column, which is one, and no two lines have the same. -/
structure Table.Proper (table : Table Rat) : Prop where
  long : ∀ line ∈ table.lines, line.coefficients.length = table.width
  within : ∀ line ∈ table.lines, line.basic < table.width
  distinct : (table.lines.map Line.basic).Nodup
  unit : ∀ line ∈ table.lines, ∀ other ∈ table.lines, line.entry other.basic = if line.basic = other.basic then 1 else 0

/-- A column that some line solves for. -/
def Table.Basic (table : Table Rat) (column : Nat) : Prop := ∃ line ∈ table.lines, line.basic = column

/-! ### The solution that a table shows -/

/-- What a column has by the line that solves for it; the others have nothing. -/
def Table.readOff (table : Table Rat) (value : Line Rat → Rat) (column : Nat) : Rat :=
  ((table.lines.find? (·.basic = column)).map value).getD 0

/-- The value of a column in the solution that a table shows. -/
def Table.shown (table : Table Rat) : Nat → Rat := table.readOff Line.bound

namespace Table.Proper

theorem readOff_basic (proper : table.Proper) (value : Line Rat → Rat) (member : line ∈ table.lines) :
    table.readOff value line.basic = value line := by
  rw [readOff, Lists.find?_key proper.distinct member, Option.map_some, Option.getD_some]

theorem shown_basic (proper : table.Proper) (member : line ∈ table.lines) : table.shown line.basic = line.bound :=
  proper.readOff_basic Line.bound member

theorem basic_inj (proper : table.Proper) (member : line ∈ table.lines) (among : other ∈ table.lines)
    (same : line.basic = other.basic) : line = other :=
  List.inj_on_of_nodup_map proper.distinct member among same

end Table.Proper

theorem Table.readOff_eq_zero {value : Line Rat → Rat} (absent : ¬ table.Basic column) :
    table.readOff value column = 0 := by
  have missing : table.lines.find? (·.basic = column) = none := by
    refine List.find?_eq_none.2 ?_
    intro line member same
    exact absent ⟨line, member, by simpa using same⟩
  rw [readOff, missing, Option.map_none, Option.getD_none]

theorem Table.shown_eq_zero (absent : ¬ table.Basic column) : table.shown column = 0 := readOff_eq_zero absent

namespace Table.Proper

/-- Where only basic columns have values, a line comes to the value of its own. -/
theorem total_of_basic (proper : table.Proper) (support : ∀ j < table.width, ¬ table.Basic j → x j = 0)
    (member : line ∈ table.lines) : line.total table.width x = x line.basic := by
  have own := proper.unit line member line member
  rw [if_pos rfl] at own
  rw [Line.total, Finset.sum_eq_single line.basic, own, one_mul]
  · intro j inside apart
    by_cases basic : table.Basic j
    · obtain ⟨other, among, rfl⟩ := basic
      rw [proper.unit line member other among, if_neg apart.symm, zero_mul]
    · rw [support j (Finset.mem_range.1 inside) basic, mul_zero]
  · intro outside
    exact absurd (Finset.mem_range.2 (proper.within line member)) outside

theorem solves_shown (proper : table.Proper) : table.Solves table.shown := by
  intro line member
  rw [proper.total_of_basic (fun _ _ => shown_eq_zero) member, proper.shown_basic member]

/-- A solution in which only basic columns have values is the one shown. -/
theorem eq_shown (proper : table.Proper) (support : ∀ j < table.width, ¬ table.Basic j → x j = 0)
    (solves : table.Solves x) (inside : j < table.width) : x j = table.shown j := by
  by_cases basic : table.Basic j
  · obtain ⟨line, member, rfl⟩ := basic
    rw [proper.shown_basic member, ← solves line member, proper.total_of_basic support member]
  · rw [support j inside basic, shown_eq_zero basic]

/-- A sum over the columns to which only basic ones contribute is one over the lines. -/
theorem sum_basic (proper : table.Proper) {g : Nat → Rat} (support : ∀ j < table.width, ¬ table.Basic j → g j = 0) :
    ∑ j ∈ range table.width, g j = (table.lines.map fun line => g line.basic).sum := by
  have listed := List.sum_toFinset g proper.distinct
  rw [List.map_map] at listed
  refine Eq.trans ?_ listed
  symm
  refine Finset.sum_subset ?_ ?_
  · intro j member
    obtain ⟨line, among, rfl⟩ := List.mem_map.1 (List.mem_toFinset.1 member)
    exact Finset.mem_range.2 (proper.within line among)
  · intro j inside absent
    refine support j (Finset.mem_range.1 inside) ?_
    rintro ⟨line, member, rfl⟩
    exact absent (List.mem_toFinset.2 (List.mem_map_of_mem member))

end Table.Proper

/-! ### Costs -/

/-- What values of the columns cost. -/
def worth (cost : List Rat) (width : Nat) (x : Nat → Rat) : Rat := ∑ j ∈ range width, cost.getD j 0 * x j

theorem sum_map_comm {α : Type} (l : List α) (f : α → Nat → Rat) (width : Nat) :
    ∑ j ∈ range width, (l.map (f · j)).sum = (l.map fun a => ∑ j ∈ range width, f a j).sum := by
  induction l with
  | nil => simp
  | cons a rest ih => simp only [List.map_cons, List.sum_cons, Finset.sum_add_distrib, ih]

/-- A solution costs what the table says, and what its columns add at their reduced costs. -/
theorem Table.Solves.worth_eq (solves : table.Solves x) : worth cost table.width x =
    table.cost cost + ∑ j ∈ range table.width, table.reducedCost cost j * x j := by
  have lines : ∑ j ∈ range table.width, (table.lines.map fun line => cost.getD line.basic 0 * line.entry j).sum * x j =
      (table.lines.map fun line => cost.getD line.basic 0 * line.bound).sum := by
    simp only [← List.sum_map_mul_right, sum_map_comm]
    refine congrArg List.sum (List.map_congr_left ?_)
    intro line member
    rw [← solves line member, Line.total, Finset.mul_sum]
    exact Finset.sum_congr rfl fun j _ => by ring
  simp only [worth, reducedCost, Table.cost, Scalar.sum_eq, sub_mul, Finset.sum_sub_distrib, lines]
  ring

namespace Table.Proper

theorem reducedCost_basic (proper : table.Proper) (member : line ∈ table.lines) :
    table.reducedCost cost line.basic = 0 := by
  have own : (table.lines.map fun other => cost.getD other.basic 0 * other.entry line.basic).sum =
      cost.getD line.basic 0 := by
    have single := proper.sum_basic (g := fun j => cost.getD j 0 * if j = line.basic then 1 else 0) ?_
    · have each : (table.lines.map fun other => cost.getD other.basic 0 * other.entry line.basic) =
          table.lines.map fun other => cost.getD other.basic 0 * if other.basic = line.basic then 1 else 0 := by
        refine List.map_congr_left ?_
        intro other among
        rw [proper.unit other among line member]
      rw [each, ← single]
      simp [proper.within line member]
    · intro j _ absent
      have apart : j ≠ line.basic := by
        rintro rfl
        exact absent ⟨line, member, rfl⟩
      rw [if_neg apart, mul_zero]
  rw [reducedCost, Scalar.sum_eq, own, sub_self]

/-- The cost of a table is that of the solution it shows. -/
theorem worth_shown (proper : table.Proper) : worth cost table.width table.shown = table.cost cost := by
  rw [proper.solves_shown.worth_eq, Finset.sum_eq_zero, add_zero]
  intro j inside
  by_cases basic : table.Basic j
  · obtain ⟨line, member, rfl⟩ := basic
    rw [proper.reducedCost_basic member, zero_mul]
  · rw [shown_eq_zero basic, mul_zero]

end Table.Proper

/-! ### Directions -/

/-- How the columns change when one that is not basic grows by one and the basic ones make up for it. -/
def Table.direction (table : Table Rat) (column j : Nat) : Rat :=
  (if j = column then 1 else 0) - table.readOff (·.entry column) j

theorem Table.direction_self (apart : ¬ table.Basic column) : table.direction column column = 1 := by
  rw [direction, if_pos rfl, readOff_eq_zero apart, sub_zero]

theorem Table.direction_eq_zero (apart : j ≠ column) (absent : ¬ table.Basic j) : table.direction column j = 0 := by
  rw [direction, if_neg apart, readOff_eq_zero absent, sub_zero]

namespace Table.Proper

theorem direction_basic (proper : table.Proper) (apart : ¬ table.Basic column) (member : line ∈ table.lines) :
    table.direction column line.basic = -line.entry column := by
  have other : line.basic ≠ column := by
    rintro rfl
    exact apart ⟨line, member, rfl⟩
  rw [direction, if_neg other, proper.readOff_basic _ member, zero_sub]

theorem total_direction (proper : table.Proper) (within : column < table.width) (member : line ∈ table.lines) :
    line.total table.width (table.direction column) = 0 := by
  have made_up := proper.total_of_basic (x := table.readOff (·.entry column)) (fun _ _ => readOff_eq_zero) member
  rw [proper.readOff_basic _ member] at made_up
  simp only [Line.total, direction, mul_sub, Finset.sum_sub_distrib] at made_up ⊢
  rw [made_up]
  simp [within]

/-- Going along a direction leads from one solution to others. -/
theorem solves_along (proper : table.Proper) (within : column < table.width) (solves : table.Solves x) (far : Rat) :
    table.Solves fun j => x j + far * table.direction column j := by
  intro line member
  have still := proper.total_direction within member
  simp only [Line.total] at still
  simp only [Line.total, mul_add, mul_left_comm _ far, Finset.sum_add_distrib, ← Finset.mul_sum, still, mul_zero, add_zero]
  exact solves line member

theorem sum_reducedCost_direction (proper : table.Proper) (within : column < table.width) (apart : ¬ table.Basic column) :
    ∑ j ∈ range table.width, table.reducedCost cost j * table.direction column j = table.reducedCost cost column := by
  rw [Finset.sum_eq_single column, direction_self apart, mul_one]
  · intro j _ other
    by_cases basic : table.Basic j
    · obtain ⟨line, member, rfl⟩ := basic
      rw [proper.reducedCost_basic member, zero_mul]
    · rw [direction_eq_zero other basic, mul_zero]
  · intro outside
    exact absurd (Finset.mem_range.2 within) outside

/-- Along a direction the cost changes at the reduced cost of the column. -/
theorem worth_along (proper : table.Proper) (within : column < table.width) (apart : ¬ table.Basic column)
    (solves : table.Solves x) (far : Rat) :
    worth cost table.width (fun j => x j + far * table.direction column j) =
      worth cost table.width x + far * table.reducedCost cost column := by
  rw [(proper.solves_along within solves far).worth_eq, solves.worth_eq,
    ← proper.sum_reducedCost_direction within apart]
  simp only [mul_add, mul_left_comm _ far, Finset.sum_add_distrib, ← Finset.mul_sum]
  ring

end Table.Proper

end Deliberation.Simplex
