import Deliberation.Proofs.Linear.Phases
import Mathlib.Data.List.GetD

/-!
The first table of rows. It is canonical, and what it allows are the values of the columns that meet the
rows, with what is left below a bound or goes beyond it in the columns that were added.
-/

namespace Deliberation

open Finset (range)

variable {width : Nat} {x y : Nat → Rat} {row : LinearRow Rat} {rows : List (LinearRow Rat)}

/-- How the two sides of a row compare. -/
def Relation.Holds : Relation → Rat → Rat → Prop
  | .le, left, bound => left ≤ bound
  | .ge, left, bound => bound ≤ left
  | .eq, left, bound => left = bound

/-- What the left side of a row comes to. -/
def LinearRow.left (row : LinearRow Rat) (width : Nat) (x : Nat → Rat) : Rat :=
  ∑ j ∈ range width, row.coefficients.getD j 0 * x j

/-- Values that a row admits. -/
def LinearRow.Meets (row : LinearRow Rat) (width : Nat) (x : Nat → Rat) : Prop :=
  row.relation.Holds (row.left width x) row.bound

/-- A list that has one in one place and zeros elsewhere picks out the value of that column. -/
theorem sum_unit {column : Nat} (inside : column < width) (x : Nat → Rat) :
    ∑ j ∈ range width, ((List.replicate width (0 : Rat)).set column 1).getD j 0 * x j = x column := by
  rw [Finset.sum_eq_single column]
  · simp [List.getD_eq_getElem?_getD, inside]
  · intro j _ apart
    have zero : ((List.replicate width (0 : Rat)).set column 1).getD j 0 = 0 := by
      rw [List.getD_eq_getElem?_getD, List.getElem?_set_ne apart.symm, List.getElem?_replicate]
      split <;> rfl
    rw [zero, zero_mul]
  · intro outside
    exact absurd (Finset.mem_range.2 inside) outside

theorem LinearRow.left_congr (same : ∀ j < width, x j = y j) : row.left width x = row.left width y := by
  refine Finset.sum_congr rfl ?_
  intro j inside
  rw [same j (Finset.mem_range.1 inside)]

/-- Columns beyond the coefficients of a row add nothing to its left side. -/
theorem LinearRow.left_of_le {wider : Nat} (short : row.coefficients.length ≤ width) (wide : width ≤ wider) :
    row.left wider x = row.left width x := by
  refine (Finset.sum_subset (Finset.range_subset_range.2 wide) ?_).symm
  intro j _ beyond
  have outside : row.coefficients.length ≤ j := short.trans (by simpa using beyond)
  rw [List.getD_eq_default _ _ outside, zero_mul]

namespace Simplex

/-- A row reads the same from the other side. -/
theorem meets_normalize : (normalize row).Meets width x ↔ row.Meets width x := by
  rw [normalize]
  split
  · rfl
  · have turned : (LinearRow.mk (row.coefficients.map (-·)) row.relation.flip (-row.bound)).left width x =
        -row.left width x := by
      rw [LinearRow.left, LinearRow.left, ← Finset.sum_neg_distrib]
      refine Finset.sum_congr rfl ?_
      intro j _
      rw [Lists.getD_map neg_zero, neg_mul]
    rw [LinearRow.Meets, turned, LinearRow.Meets]
    cases row.relation <;> simp [Relation.flip, Relation.Holds]

theorem bound_normalize_nonneg (row : LinearRow Rat) : 0 ≤ (normalize row).bound := by
  rw [normalize]
  split
  · next nonneg => exact nonneg
  · next negative =>
    have below : row.bound < 0 := not_le.1 negative
    simp only [Left.nonneg_neg_iff]
    exact below.le

theorem length_normalize (row : LinearRow Rat) : (normalize row).coefficients.length = row.coefficients.length := by
  rw [normalize]
  split <;> simp

/-- The columns that rows add, one row after the other. -/
def added (rows : List (LinearRow Rat)) : List (Rat × Bool) := rows.flatMap fun row => addedColumns row.relation

theorem added_cons (row : LinearRow Rat) (rest : List (LinearRow Rat)) :
    added (row :: rest) = addedColumns row.relation ++ added rest := rfl

/-- What a row says of the values of its columns and of those it adds, which come from an offset on. -/
def Filled (width : Nat) (x : Nat → Rat) : (offset : Nat) → List (LinearRow Rat) → Prop
  | _, [] => True
  | offset, row :: rest =>
    row.left width x +
        ∑ i ∈ range (addedColumns (R := Rat) row.relation).length,
          ((addedColumns row.relation).map Prod.fst).getD i 0 * x (width + offset + i) = row.bound ∧
      Filled width x (offset + (addedColumns (R := Rat) row.relation).length) rest

variable {total offset j : Nat} {line other : Line Rat}

theorem getD_padTo {l : List Rat} {length : Nat} : (padTo length l).getD j 0 = l.getD j 0 := by
  simp only [padTo, List.getD_eq_getElem?_getD]
  by_cases inside : j < l.length
  · rw [List.getElem?_append_left inside]
  · rw [List.getElem?_append_right (not_lt.1 inside), List.getElem?_eq_none (not_lt.1 inside), List.getElem?_replicate]
    split <;> rfl

theorem length_padTo {l : List Rat} {length : Nat} (short : l.length ≤ length) : (padTo length l).length = length := by
  simp only [padTo, List.length_append, List.length_replicate]
  omega

/-- The line of a row, the columns before its own being those of other rows. -/
def lineOf (width total offset : Nat) (row : LinearRow Rat) : Line Rat :=
  let own := (addedColumns (R := Rat) row.relation).map Prod.fst
  ⟨padTo width row.coefficients ++ padTo total (List.replicate offset 0 ++ own), row.bound,
    width + (offset + own.length) - 1⟩

theorem linesOf_cons (rest : List (LinearRow Rat)) : linesOf width total offset (row :: rest) =
    lineOf width total offset row :: linesOf width total (offset + (addedColumns (R := Rat) row.relation).length) rest := by
  simp [linesOf, lineOf]

section

variable (short : row.coefficients.length ≤ width)

include short

theorem entry_lineOf (inside : j < width) : (lineOf width total offset row).entry j = row.coefficients.getD j 0 := by
  have long : (padTo width row.coefficients).length = width := length_padTo short
  rw [Line.entry, lineOf, List.getD_eq_getElem?_getD, List.getElem?_append_left (by omega), ← List.getD_eq_getElem?_getD,
    getD_padTo]

theorem entry_lineOf_added (k : Nat) : (lineOf width total offset row).entry (width + k) =
    if k < offset then 0 else ((addedColumns row.relation).map Prod.fst).getD (k - offset) 0 := by
  have long : (padTo width row.coefficients).length = width := length_padTo short
  rw [Line.entry, lineOf, List.getD_eq_getElem?_getD, List.getElem?_append_right (by omega), long,
    Nat.add_sub_cancel_left, ← List.getD_eq_getElem?_getD, getD_padTo, List.getD_eq_getElem?_getD]
  split
  · next before =>
    rw [List.getElem?_append_left (by simpa using before), List.getElem?_replicate, if_pos before, Option.getD_some]
  · next after =>
    rw [List.getElem?_append_right (by simpa using after), List.length_replicate, List.getD_eq_getElem?_getD]

theorem total_lineOf (fits : offset + (addedColumns (R := Rat) row.relation).length ≤ total) :
    (lineOf width total offset row).total (width + total) x = row.left width x +
      ∑ i ∈ range (addedColumns (R := Rat) row.relation).length,
        ((addedColumns row.relation).map Prod.fst).getD i 0 * x (width + offset + i) := by
  obtain ⟨rest, rfl⟩ := Nat.exists_eq_add_of_le fits
  have before : ∑ k ∈ range offset, (lineOf width (offset + (addedColumns (R := Rat) row.relation).length + rest) offset
      row).entry (width + k) * x (width + k) = 0 := by
    refine Finset.sum_eq_zero ?_
    intro k inside
    rw [entry_lineOf_added short, if_pos (Finset.mem_range.1 inside), zero_mul]
  have after : ∑ k ∈ range rest, (lineOf width (offset + (addedColumns (R := Rat) row.relation).length + rest) offset
      row).entry (width + (offset + (addedColumns (R := Rat) row.relation).length + k)) *
        x (width + (offset + (addedColumns (R := Rat) row.relation).length + k)) = 0 := by
    refine Finset.sum_eq_zero ?_
    intro k _
    rw [entry_lineOf_added short, if_neg (by omega), List.getD_eq_getElem?_getD, List.getElem?_eq_none (by simp; omega),
      Option.getD_none, zero_mul]
  rw [Line.total, Finset.sum_range_add, Finset.sum_range_add, Finset.sum_range_add, before, after, zero_add, add_zero]
  congr 1
  · refine Finset.sum_congr rfl ?_
    intro j inside
    rw [entry_lineOf short (Finset.mem_range.1 inside)]
  · refine Finset.sum_congr rfl ?_
    intro i _
    rw [entry_lineOf_added short, if_neg (by omega), Nat.add_sub_cancel_left, Nat.add_assoc]

/-- A line has no entries in columns that later rows add. -/
theorem entry_lineOf_after {k : Nat} (after : offset + (addedColumns (R := Rat) row.relation).length ≤ k) :
    (lineOf width total offset row).entry (width + k) = 0 := by
  rw [entry_lineOf_added short, if_neg (by omega), List.getD_eq_getElem?_getD, List.getElem?_eq_none (by simp; omega),
    Option.getD_none]

theorem entry_lineOf_basic :
    (lineOf width total offset row).entry (lineOf width total offset row).basic = 1 := by
  have at_last : (lineOf width total offset row).basic =
      width + (offset + (addedColumns (R := Rat) row.relation).length - 1) := by
    cases relation : row.relation <;> simp [lineOf, addedColumns, relation]
  rw [at_last, entry_lineOf_added short]
  cases row.relation <;> simp [addedColumns]

end

/-- Where a line stands: its basic column is one that it or a row after it adds, and it has no entry in those
added before. -/
structure Framed (width total offset count : Nat) (line : Line Rat) : Prop where
  long : line.coefficients.length = width + total
  from_ : width + offset ≤ line.basic
  to_ : line.basic < width + offset + count
  before : ∀ k < offset, line.entry (width + k) = 0

theorem framed_lineOf (short : row.coefficients.length ≤ width)
    (fits : offset + (addedColumns (R := Rat) row.relation).length ≤ total) :
    Framed width total offset (addedColumns (R := Rat) row.relation).length (lineOf width total offset row) := by
  constructor
  · have first : (padTo width row.coefficients).length = width := length_padTo short
    have second : (padTo total (List.replicate offset 0 ++ (addedColumns (R := Rat) row.relation).map Prod.fst)).length =
        total := length_padTo (by simpa using fits)
    simp [lineOf, first, second]
  · cases relation : row.relation <;> simp [lineOf, addedColumns, relation]
  · cases relation : row.relation <;> simp [lineOf, addedColumns, relation]; omega
  · intro k inside
    rw [entry_lineOf_added short, if_pos inside]

theorem framed_linesOf (short : ∀ row ∈ rows, row.coefficients.length ≤ width)
    (fits : offset + (added rows).length ≤ total) :
    ∀ line ∈ linesOf width total offset rows, Framed width total offset (added rows).length line := by
  induction rows generalizing offset with
  | nil => simp [linesOf]
  | cons row rest ih =>
    obtain ⟨own, others⟩ := List.forall_mem_cons.1 short
    simp only [added_cons, List.length_append] at fits ⊢
    rw [linesOf_cons]
    intro line member
    rcases List.mem_cons.1 member with rfl | later
    · have here : Framed width total offset _ (lineOf width total offset row) := framed_lineOf own (by omega)
      obtain ⟨long, from_, to_, before⟩ := here
      exact ⟨long, from_, by omega, before⟩
    · obtain ⟨long, from_, to_, before⟩ := ih others (by omega) line later
      exact ⟨long, by omega, by omega, fun k inside => before k (by omega)⟩

theorem unit_linesOf (short : ∀ row ∈ rows, row.coefficients.length ≤ width)
    (fits : offset + (added rows).length ≤ total) :
    ((linesOf width total offset rows).map Line.basic).Nodup ∧
      ∀ line ∈ linesOf width total offset rows, ∀ other ∈ linesOf width total offset rows,
        line.entry other.basic = if line.basic = other.basic then 1 else 0 := by
  induction rows generalizing offset with
  | nil => simp [linesOf]
  | cons row rest ih =>
    obtain ⟨own, others⟩ := List.forall_mem_cons.1 short
    simp only [added_cons, List.length_append] at fits
    have here : Framed width total offset _ (lineOf width total offset row) := framed_lineOf own (by omega)
    have room : offset + (addedColumns (R := Rat) row.relation).length + (added rest).length ≤ total := by omega
    have later := framed_linesOf others room
    obtain ⟨distinct, unit⟩ := ih others room
    -- The basic column of the first line lies before those of the others.
    have apart (other : Line Rat) (member : other ∈ linesOf width total
        (offset + (addedColumns (R := Rat) row.relation).length) rest) :
        (lineOf width total offset row).basic < other.basic := by
      have start := (later other member).from_
      have stop := here.to_
      omega
    rw [linesOf_cons]
    constructor
    · rw [List.map_cons, List.nodup_cons]
      refine ⟨?_, distinct⟩
      intro again
      obtain ⟨other, member, same⟩ := List.mem_map.1 again
      exact absurd same (apart other member).ne'
    · intro line member other among
      rcases List.mem_cons.1 member with rfl | member <;> rcases List.mem_cons.1 among with rfl | among
      · rw [if_pos rfl]
        exact entry_lineOf_basic own
      · rw [if_neg (apart other among).ne]
        have start := (later other among).from_
        have after : (lineOf width total offset row).entry (width + (other.basic - width)) = 0 :=
          entry_lineOf_after own (by omega)
        rwa [Nat.add_sub_cancel' (by omega)] at after
      · rw [if_neg (apart line member).ne']
        have start := here.from_
        have stop := here.to_
        have before := (later line member).before ((lineOf width total offset row).basic - width) (by omega)
        rwa [Nat.add_sub_cancel' (by omega)] at before
      · exact unit line member other among

theorem solved_linesOf (short : ∀ row ∈ rows, row.coefficients.length ≤ width)
    (fits : offset + (added rows).length ≤ total) :
    (∀ line ∈ linesOf width total offset rows, line.total (width + total) x = line.bound) ↔
      Filled width x offset rows := by
  induction rows generalizing offset with
  | nil => simp [linesOf, Filled]
  | cons row rest ih =>
    obtain ⟨own, others⟩ := List.forall_mem_cons.1 short
    simp only [added_cons, List.length_append] at fits
    rw [linesOf_cons, List.forall_mem_cons, ih others (by omega), total_lineOf own (by omega)]
    rfl

theorem bound_linesOf (member : line ∈ linesOf width total offset rows) : ∃ row ∈ rows, line.bound = row.bound := by
  induction rows generalizing offset with
  | nil => simp [linesOf] at member
  | cons row rest ih =>
    rw [linesOf_cons] at member
    rcases List.mem_cons.1 member with rfl | later
    · exact ⟨row, List.mem_cons_self .., rfl⟩
    · obtain ⟨other, among, same⟩ := ih later
      exact ⟨other, List.mem_cons_of_mem _ among, same⟩

/-- What the added columns of rows have, from an offset on, is not negative, and nothing where they are artificial. -/
def Spare (width : Nat) (x : Nat → Rat) (offset : Nat) (columns : List (Rat × Bool)) : Prop :=
  ∀ i < columns.length, 0 ≤ x (width + offset + i) ∧ ((columns.map Prod.snd).getD i false = true → x (width + offset + i) = 0)

theorem spare_append {first second : List (Rat × Bool)} : Spare width x offset (first ++ second) ↔
    Spare width x offset first ∧ Spare width x (offset + first.length) second := by
  constructor
  · intro spare
    constructor
    · intro i inside
      obtain ⟨nonneg, real⟩ := spare i (by rw [List.length_append]; omega)
      refine ⟨nonneg, fun artificial => real ?_⟩
      rwa [List.map_append, List.getD_append _ _ _ _ (by simpa using inside)]
    · intro i inside
      obtain ⟨nonneg, real⟩ := spare (first.length + i) (by rw [List.length_append]; omega)
      rw [Nat.add_assoc width, Nat.add_assoc offset, ← Nat.add_assoc width]
      refine ⟨nonneg, fun artificial => real ?_⟩
      rwa [List.map_append, List.getD_append_right _ _ _ _ (by simp), List.length_map, Nat.add_sub_cancel_left]
  · rintro ⟨own, others⟩ i inside
    by_cases here : i < first.length
    · rw [List.map_append, List.getD_append _ _ _ _ (by simpa using here)]
      exact own i here
    · obtain ⟨k, rfl⟩ := Nat.exists_eq_add_of_le (not_lt.1 here)
      rw [List.map_append, List.getD_append_right _ _ _ _ (by simp), List.length_map, Nat.add_sub_cancel_left,
        Nat.add_assoc width, ← Nat.add_assoc offset, ← Nat.add_assoc width]
      exact others k (by rw [List.length_append] at inside; omega)

/-- Where the added columns have nothing to spare that they must not, the rows are met. -/
theorem meets_of_filled (filled : Filled width x offset rows) (spare : Spare width x offset (added rows)) :
    ∀ row ∈ rows, row.Meets width x := by
  induction rows generalizing offset with
  | nil => simp
  | cons row rest ih =>
    obtain ⟨own, others⟩ := filled
    rw [added_cons] at spare
    obtain ⟨here, later⟩ := spare_append.1 spare
    refine List.forall_mem_cons.2 ⟨?_, ih others later⟩
    rw [LinearRow.Meets]
    cases relation : row.relation with
    | le =>
      have left := here 0 (by simp [relation, addedColumns])
      simp only [relation, addedColumns, List.map_cons, List.map_nil, List.length_singleton, Finset.sum_range_one,
        List.getD_cons_zero, one_mul] at own
      change row.left width x ≤ row.bound
      linarith [left.1]
    | ge =>
      have beyond := here 0 (by simp [relation, addedColumns])
      have artificial := (here 1 (by simp [relation, addedColumns])).2 (by simp [relation, addedColumns])
      simp only [relation, addedColumns, List.map_cons, List.map_nil, List.length_cons, List.length_nil,
        Finset.sum_range_succ, Finset.sum_range_zero, List.getD_cons_zero, List.getD_cons_succ, one_mul, zero_add,
        artificial] at own
      change row.bound ≤ row.left width x
      linarith [beyond.1]
    | eq =>
      have artificial := (here 0 (by simp [relation, addedColumns])).2 (by simp [relation, addedColumns])
      simp only [relation, addedColumns, List.map_cons, List.map_nil, List.length_singleton, Finset.sum_range_one,
        List.getD_cons_zero, one_mul] at own
      change row.left width x = row.bound
      linarith

/-- What the added columns of a row have when it is met: the difference of its sides. -/
def spareOf (width : Nat) (y : Nat → Rat) (row : LinearRow Rat) : List Rat :=
  match row.relation with
  | .le => [row.bound - row.left width y]
  | .ge => [row.left width y - row.bound, 0]
  | .eq => [0]

theorem length_spareOf (width : Nat) (y : Nat → Rat) (row : LinearRow Rat) :
    (spareOf width y row).length = (addedColumns (R := Rat) row.relation).length := by
  cases relation : row.relation <;> simp [spareOf, addedColumns, relation]

/-- A row that is met is filled by the difference of its sides. -/
theorem filled_row (same : ∀ j < width, x j = y j) (meets : row.Meets width y)
    (values : ∀ i < (spareOf width y row).length, x (width + offset + i) = (spareOf width y row).getD i 0) :
    row.left width x +
        ∑ i ∈ range (addedColumns (R := Rat) row.relation).length,
          ((addedColumns row.relation).map Prod.fst).getD i 0 * x (width + offset + i) = row.bound ∧
      Spare width x offset (addedColumns row.relation) := by
  rw [LinearRow.left_congr same]
  rw [LinearRow.Meets] at meets
  rw [Spare, ← length_spareOf width y]
  cases relation : row.relation with
  | le =>
    rw [relation] at meets
    change row.left width y ≤ row.bound at meets
    simp only [spareOf, relation, List.length_singleton] at values ⊢
    have own := values 0 (by decide)
    simp only [Finset.sum_range_one, addedColumns, List.map_cons, List.map_nil, List.getD_cons_zero] at own ⊢
    refine ⟨by linarith, ?_⟩
    intro i inside
    obtain rfl : i = 0 := by omega
    rw [own]
    exact ⟨by linarith, fun artificial => by cases artificial⟩
  | ge =>
    rw [relation] at meets
    change row.bound ≤ row.left width y at meets
    simp only [spareOf, relation, List.length_cons, List.length_nil] at values ⊢
    have beyond := values 0 (by decide)
    have artificial := values 1 (by decide)
    simp only [Finset.sum_range_succ, Finset.sum_range_zero, addedColumns, List.map_cons, List.map_nil,
      List.getD_cons_zero, List.getD_cons_succ] at beyond artificial ⊢
    refine ⟨by linarith, ?_⟩
    intro i inside
    obtain rfl | rfl : i = 0 ∨ i = 1 := by omega
    · rw [beyond]
      exact ⟨by linarith, fun artificial => by cases artificial⟩
    · rw [artificial]
      exact ⟨le_rfl, fun _ => rfl⟩
  | eq =>
    rw [relation] at meets
    change row.left width y = row.bound at meets
    simp only [spareOf, relation, List.length_singleton] at values ⊢
    have own := values 0 (by decide)
    simp only [Finset.sum_range_one, addedColumns, List.map_cons, List.map_nil, List.getD_cons_zero] at own ⊢
    refine ⟨by linarith, ?_⟩
    intro i inside
    obtain rfl : i = 0 := by omega
    rw [own]
    exact ⟨le_rfl, fun _ => rfl⟩

theorem filled_of_meets (same : ∀ j < width, x j = y j) (meets : ∀ row ∈ rows, row.Meets width y)
    (values : ∀ i, x (width + offset + i) = (rows.flatMap (spareOf width y)).getD i 0) :
    Filled width x offset rows ∧ Spare width x offset (added rows) := by
  induction rows generalizing offset with
  | nil => exact ⟨trivial, fun i inside => absurd inside (by simp [added])⟩
  | cons row rest ih =>
    obtain ⟨own, others⟩ := List.forall_mem_cons.1 meets
    have shifted (i : Nat) : x (width + (offset + (addedColumns (R := Rat) row.relation).length) + i) =
        (rest.flatMap (spareOf width y)).getD i 0 := by
      rw [← length_spareOf width y, ← Nat.add_assoc width, Nat.add_assoc _ _ i, values, List.flatMap_cons,
        List.getD_append_right _ _ _ _ (by omega), Nat.add_sub_cancel_left]
    obtain ⟨filled, spare⟩ := ih others shifted
    have first : ∀ i < (spareOf width y row).length, x (width + offset + i) = (spareOf width y row).getD i 0 := by
      intro i inside
      rw [values, List.flatMap_cons, List.getD_append _ _ _ _ inside]
    obtain ⟨here, free⟩ := filled_row same own first
    exact ⟨⟨here, filled⟩, spare_append.2 ⟨free, spare⟩⟩

/-! ### The first table -/

theorem width_tableOf : (tableOf width rows).width = width + (added (rows.map normalize)).length := by
  simp [tableOf, Table.width, added, List.length_flatMap, Function.comp_def]

theorem lines_tableOf : (tableOf width rows).lines =
    linesOf width (added (rows.map normalize)).length 0 (rows.map normalize) := by
  simp [tableOf, added, List.length_flatMap, Function.comp_def]

theorem artificial_tableOf : (tableOf width rows).artificial =
    List.replicate width false ++ (added (rows.map normalize)).map Prod.snd := by
  simp [tableOf, added, List.map_flatMap]

theorem isArtificial_tableOf (inside : j < width) : (tableOf width rows).isArtificial j = false := by
  rw [Table.isArtificial, artificial_tableOf, List.getD_append _ _ _ _ (by simpa using inside),
    List.getD_eq_getElem?_getD, List.getElem?_replicate, if_pos inside, Option.getD_some]

theorem isArtificial_tableOf_added (i : Nat) : (tableOf width rows).isArtificial (width + i) =
    ((added (rows.map normalize)).map Prod.snd).getD i false := by
  rw [Table.isArtificial, artificial_tableOf, List.getD_append_right _ _ _ _ (by simp), List.length_replicate,
    Nat.add_sub_cancel_left]

section

variable (short : ∀ row ∈ rows, row.coefficients.length ≤ width)

include short

theorem short_normalize : ∀ row ∈ rows.map normalize, row.coefficients.length ≤ width := by
  intro row member
  obtain ⟨other, among, rfl⟩ := List.mem_map.1 member
  rw [length_normalize]
  exact short other among

theorem canonical_tableOf : (tableOf width rows).Canonical := by
  have short := short_normalize short
  obtain ⟨distinct, unit⟩ := unit_linesOf short (Nat.zero_add (added (rows.map normalize)).length).le
  have framed := framed_linesOf short (Nat.zero_add (added (rows.map normalize)).length).le
  refine ⟨⟨?_, ?_, ?_, ?_⟩, ?_⟩
  · rw [lines_tableOf, width_tableOf]
    exact fun line member => (framed line member).long
  · rw [lines_tableOf, width_tableOf]
    exact fun line member => (framed line member).to_
  · rw [lines_tableOf]
    exact distinct
  · rw [lines_tableOf]
    exact unit
  · rw [lines_tableOf]
    intro line member
    obtain ⟨row, among, same⟩ := bound_linesOf member
    obtain ⟨other, _, rfl⟩ := List.mem_map.1 among
    rw [same]
    exact bound_normalize_nonneg other

/-- What the first table allows, in terms of the rows that it is made of. -/
theorem allows_tableOf : (tableOf width rows).Allows x ↔ (∀ j < width, 0 ≤ x j) ∧
    Filled width x 0 (rows.map normalize) ∧ Spare width x 0 (added (rows.map normalize)) := by
  have solved : (tableOf width rows).Solves x ↔ Filled width x 0 (rows.map normalize) := by
    rw [Table.Solves, lines_tableOf, width_tableOf]
    exact solved_linesOf (short_normalize short) (Nat.zero_add _).le
  constructor
  · rintro ⟨nonneg, solves, real⟩
    rw [width_tableOf] at nonneg real
    refine ⟨fun j inside => nonneg j (by omega), solved.1 solves, ?_⟩
    intro i inside
    refine ⟨nonneg (width + i) (by omega), fun artificial => real (width + i) (by omega) ?_⟩
    rw [isArtificial_tableOf_added]
    exact artificial
  · rintro ⟨nonneg, filled, spare⟩
    refine ⟨?_, solved.2 filled, ?_⟩
    · intro j inside
      by_cases here : j < width
      · exact nonneg j here
      · obtain ⟨i, rfl⟩ := Nat.exists_eq_add_of_le (not_lt.1 here)
        rw [width_tableOf] at inside
        exact (spare i (by omega)).1
    · intro j inside artificial
      by_cases here : j < width
      · rw [isArtificial_tableOf here] at artificial
        cases artificial
      · obtain ⟨i, rfl⟩ := Nat.exists_eq_add_of_le (not_lt.1 here)
        rw [width_tableOf] at inside
        rw [isArtificial_tableOf_added] at artificial
        exact (spare i (by omega)).2 artificial

/-- What the first table allows meets the rows. -/
theorem meets_of_allows (allows : (tableOf width rows).Allows x) : ∀ row ∈ rows, row.Meets width x := by
  obtain ⟨_, filled, spare⟩ := (allows_tableOf short).1 allows
  intro row member
  exact meets_normalize.1 (meets_of_filled filled spare _ (List.mem_map_of_mem member))

/-- Values that are not negative and meet the rows extend to some that the first table allows. -/
theorem exists_allows (nonneg : ∀ j < width, 0 ≤ y j) (meets : ∀ row ∈ rows, row.Meets width y) :
    ∃ x, (tableOf width rows).Allows x ∧ ∀ j < width, x j = y j := by
  let x (j : Nat) : Rat :=
    if j < width then y j else ((rows.map normalize).flatMap (spareOf width y)).getD (j - width) 0
  have same (j : Nat) (inside : j < width) : x j = y j := if_pos inside
  have beyond (i : Nat) : x (width + 0 + i) = ((rows.map normalize).flatMap (spareOf width y)).getD i 0 := by
    simp only [x]
    rw [if_neg (by omega), Nat.add_zero, Nat.add_sub_cancel_left]
  have normal : ∀ row ∈ rows.map normalize, row.Meets width y := by
    intro row member
    obtain ⟨other, among, rfl⟩ := List.mem_map.1 member
    exact meets_normalize.2 (meets other among)
  obtain ⟨filled, spare⟩ := filled_of_meets same normal beyond
  refine ⟨x, (allows_tableOf short).2 ⟨?_, filled, spare⟩, same⟩
  intro j inside
  rw [same j inside]
  exact nonneg j inside

end

end Simplex

end Deliberation
