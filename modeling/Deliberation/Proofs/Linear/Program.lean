import Deliberation.Proofs.Linear.Form
import Deliberation.Linear.Program

/-!
Linear programs as rows over the distances of the variables from their lower bounds. What the first table
of a compiled program allows are the points within the bounds at which the constraints hold.
-/

namespace Deliberation

open Finset (range)

/-- The sum of products of coefficients and the values of the columns, over the columns. -/
theorem dot_eq {coefficients values : List Rat} {width : Nat} (first : coefficients.length ≤ width)
    (second : values.length = width) :
    dot coefficients values = ∑ j ∈ range width, coefficients.getD j 0 * values.getD j 0 := by
  rw [dot, Scalar.sum_eq]
  induction coefficients generalizing values width with
  | nil => simp
  | cons c rest ih =>
    cases values with
    | nil =>
      simp only [List.length_nil] at second
      simp [← second] at first
    | cons value others =>
      subst second
      have fits : rest.length ≤ others.length := Nat.le_of_succ_le_succ first
      rw [List.zipWith_cons_cons, List.sum_cons, ih fits rfl, List.length_cons, Finset.sum_range_succ']
      simp [add_comm]

namespace LinearProgram

/-- What the objective of a program is worth at a point. -/
def objectiveAt? (program : LinearProgram Rat) (metrics : Env Rat) (point : String → Rat) : Option Rat :=
  program.objective.worth? (LinearScope.exactEnv (program.vars.map ProgramVariable.name) metrics point)

/-- A point within the bounds of a program at which its constraints hold. -/
structure Allows (program : LinearProgram Rat) (metrics : Env Rat) (point : String → Rat) : Prop where
  bounds : ∀ v ∈ program.vars, v.lower ≤ point v.name ∧ ∀ upper, v.upper = some upper → point v.name ≤ upper
  constraints : ∀ c ∈ program.constraints,
    c.predicate.Admits (LinearScope.exactEnv (program.vars.map ProgramVariable.name) metrics point)

namespace Compiled

variable {program : Compiled Rat} {chosen : List (String × List (LinearRow Rat))} {x : Nat → Rat}

/-- No row has coefficients beyond the columns. -/
def Short (program : Compiled Rat) (chosen : List (String × List (LinearRow Rat))) : Prop :=
  ∀ entry ∈ chosen, ∀ row ∈ entry.2, row.coefficients.length ≤ program.vars.length

/-- Values of the columns, from their distances to the lower bounds. -/
def raised (program : Compiled Rat) (y : Nat → Rat) (j : Nat) : Rat := y j + program.lower.getD j 0

theorem length_lower (program : Compiled Rat) : program.lower.length = program.vars.length := List.length_map _

theorem meets_shifted {row : LinearRow Rat} (short : row.coefficients.length ≤ program.vars.length) {y : Nat → Rat} :
    LinearRow.Meets { row with bound := row.bound - dot row.coefficients program.lower } program.vars.length y ↔
      row.Meets program.vars.length (program.raised y) := by
  have left : row.left program.vars.length (program.raised y) =
      row.left program.vars.length y + dot row.coefficients program.lower := by
    rw [dot_eq short program.length_lower, LinearRow.left, LinearRow.left, ← Finset.sum_add_distrib]
    refine Finset.sum_congr rfl ?_
    intro j _
    rw [raised, mul_add]
  rw [LinearRow.Meets, LinearRow.Meets, left]
  change row.relation.Holds (row.left program.vars.length y) _ ↔ _
  cases row.relation <;> simp only [Relation.Holds] <;> constructor <;> intro compares <;> linarith

theorem meets_upperRow {v : ProgramVariable Rat} {column : Nat} (listed : program.vars[column]? = some v) {y : Nat → Rat} :
    (∀ row ∈ program.upperRow? v column, row.Meets program.vars.length y) ↔
      ∀ upper, v.upper = some upper → program.raised y column ≤ upper := by
  obtain ⟨inside, _⟩ := List.getElem?_eq_some_iff.1 listed
  have lower : program.lower.getD column 0 = v.lower := by
    simp [lower, List.getD_eq_getElem?_getD, listed]
  cases limit : v.upper with
  | none => simp [upperRow?, limit]
  | some upper =>
    have left : (LinearRow.mk ((List.replicate program.vars.length 0).set column 1) .le (upper - v.lower)).left
        program.vars.length y = y column := sum_unit inside y
    simp only [upperRow?, limit, Option.map_some, Option.mem_def, Option.some.injEq, forall_eq']
    rw [LinearRow.Meets, left]
    change y column ≤ upper - v.lower ↔ y column + _ ≤ upper
    rw [lower]
    constructor <;> intro compares <;> linarith

/-- Values of the columns within the bounds that meet the rows of chosen constraints. -/
structure Admits (program : Compiled Rat) (chosen : List (String × List (LinearRow Rat))) (x : Nat → Rat) : Prop where
  bounds : ∀ column v, program.vars[column]? = some v →
    v.lower ≤ x column ∧ ∀ upper, v.upper = some upper → x column ≤ upper
  rows : ∀ entry ∈ chosen, ∀ row ∈ entry.2, row.Meets program.vars.length x

theorem Admits.congr {y : Nat → Rat} (same : ∀ j < program.vars.length, x j = y j) (admits : program.Admits chosen x) :
    program.Admits chosen y := by
  constructor
  · intro column v listed
    obtain ⟨inside, _⟩ := List.getElem?_eq_some_iff.1 listed
    rw [← same column inside]
    exact admits.bounds column v listed
  · intro entry member row among
    rw [LinearRow.Meets, ← LinearRow.left_congr same]
    exact admits.rows entry member row among

theorem lower_getD {v : ProgramVariable Rat} {column : Nat} (listed : program.vars[column]? = some v) :
    program.lower.getD column 0 = v.lower := by
  rw [lower, List.getD_eq_getElem?_getD, List.getElem?_map, listed, Option.map_some, Option.getD_some]

/-- The rows of the distances hold where the chosen constraints do and no upper bound is passed. -/
theorem meets_shiftedRows (short : program.Short chosen) {y : Nat → Rat} :
    (∀ row ∈ program.shiftedRows chosen, row.Meets program.vars.length y) ↔
      (∀ entry ∈ chosen, ∀ row ∈ entry.2, row.Meets program.vars.length (program.raised y)) ∧
        ∀ column v, program.vars[column]? = some v → ∀ upper, v.upper = some upper → program.raised y column ≤ upper := by
  rw [shiftedRows, List.forall_mem_append]
  refine and_congr ?_ ?_
  · rw [List.forall_mem_map, List.forall_mem_flatMap]
    refine forall₂_congr fun entry member => forall₂_congr fun row among => ?_
    exact meets_shifted (short entry member row among)
  · constructor
    · intro meets column v listed
      refine (meets_upperRow listed).1 fun row made => ?_
      exact meets row (List.mem_filterMap.2 ⟨(v, column), List.mk_mem_zipIdx_iff_getElem?.2 listed, made⟩)
    · intro below row member
      obtain ⟨⟨v, column⟩, among, made⟩ := List.mem_filterMap.1 member
      have listed := List.mk_mem_zipIdx_iff_getElem?.1 among
      exact (meets_upperRow listed).2 (below column v listed) row made

theorem short_shiftedRows (short : program.Short chosen) :
    ∀ row ∈ program.shiftedRows chosen, row.coefficients.length ≤ program.vars.length := by
  rw [shiftedRows, List.forall_mem_append]
  constructor
  · rw [List.forall_mem_map, List.forall_mem_flatMap]
    exact short
  · intro row member
    obtain ⟨⟨v, column⟩, _, made⟩ := List.mem_filterMap.1 member
    obtain ⟨upper, _, rfl⟩ := Option.map_eq_some_iff.1 made
    simp

theorem canonical_table (short : program.Short chosen) : (program.table chosen).Canonical :=
  Simplex.canonical_tableOf (short_shiftedRows short)

/-- The distances that the first table allows lead to values that a program admits. -/
theorem admits_of_allows (short : program.Short chosen) {y : Nat → Rat} (allows : (program.table chosen).Allows y) :
    program.Admits chosen (program.raised y) := by
  obtain ⟨rows, below⟩ := (meets_shiftedRows short).1 (Simplex.meets_of_allows (short_shiftedRows short) allows)
  refine ⟨?_, rows⟩
  intro column v listed
  obtain ⟨inside, _⟩ := List.getElem?_eq_some_iff.1 listed
  have within : column < (program.table chosen).width := by
    rw [table, Simplex.width_tableOf]
    omega
  refine ⟨?_, below column v listed⟩
  rw [raised, lower_getD listed]
  linarith [allows.nonneg column within]

/-- What a program admits lies at distances from the lower bounds that the first table allows. -/
theorem exists_allows (short : program.Short chosen) (admits : program.Admits chosen x) :
    ∃ y, (program.table chosen).Allows y ∧ ∀ j < program.vars.length, program.raised y j = x j := by
  let distance (j : Nat) : Rat := x j - program.lower.getD j 0
  have back : program.raised distance = x := by
    funext j
    exact sub_add_cancel ..
  have nonneg : ∀ j < program.vars.length, 0 ≤ distance j := by
    intro j inside
    have listed : program.vars[j]? = some program.vars[j] := List.getElem?_eq_getElem inside
    change 0 ≤ x j - program.lower.getD j 0
    rw [lower_getD listed]
    linarith [(admits.bounds j _ listed).1]
  have meets : ∀ row ∈ program.shiftedRows chosen, row.Meets program.vars.length distance := by
    refine (meets_shiftedRows short).2 ?_
    rw [back]
    exact ⟨admits.rows, fun column v listed => (admits.bounds column v listed).2⟩
  obtain ⟨y, allows, same⟩ := Simplex.exists_allows (short_shiftedRows short) nonneg meets
  refine ⟨y, allows, ?_⟩
  intro j inside
  rw [raised, same j inside]
  exact sub_add_cancel ..

end Compiled

/-! ### Compiling -/

section

variable {program : LinearProgram Rat} {sense : Sense} {metrics : Env Rat} {compiled : Compiled Rat}

/-- What a program compiles to: the form of its objective, and the rows of each of its constraints. -/
structure Compiles (program : LinearProgram Rat) (sense : Sense) (metrics : Env Rat) (compiled : Compiled Rat) : Prop where
  vars : compiled.vars = program.vars
  sense : compiled.sense = sense
  objective : (LinearScope.mk (program.vars.map ProgramVariable.name) metrics).linear program.objective =
    .ok compiled.objective
  constraints : List.Forall₂
    (fun c entry => entry.1 = c.name ∧
      (LinearScope.mk (program.vars.map ProgramVariable.name) metrics).rows c.predicate = .ok entry.2)
    program.constraints compiled.constraints

theorem compiles_of_compile (done : program.compile sense metrics = .ok compiled) :
    program.Compiles sense metrics compiled := by
  rw [compile] at done
  split at done
  · cases done
  · obtain ⟨objective, form, done⟩ := Lists.bind_eq_ok done
    obtain ⟨constraints, each, done⟩ := Lists.bind_eq_ok done
    cases done
    refine ⟨rfl, rfl, form, (Lists.mapM_eq_ok_iff.1 each).imp ?_⟩
    intro c entry read
    obtain ⟨rows, found, rest⟩ := Lists.bind_eq_ok read
    cases rest
    exact ⟨rfl, found⟩

namespace Compiles

variable (compiles : program.Compiles sense metrics compiled)

include compiles

theorem wide : (LinearScope.mk (program.vars.map ProgramVariable.name) metrics).width ≤ compiled.vars.length := by
  rw [compiles.vars]
  exact (Lists.length_eraseDups_le _).trans_eq (List.length_map _)

theorem short : compiled.Short compiled.constraints := by
  refine Lists.forall_mem_of_forall₂ (p := fun _ => True) compiles.constraints ?_ fun _ _ => trivial
  rintro c entry ⟨_, read⟩ _ row member
  exact ((LinearScope.admits_rows c.predicate read).1 row member).trans_le compiles.wide

variable (distinct : (program.vars.map ProgramVariable.name).Nodup)

include distinct

theorem stands : LinearScope.Stands (program.vars.map ProgramVariable.name) metrics program.objective compiled.objective :=
  LinearScope.of_linear distinct program.objective compiles.objective

/-- A program allows a point when what it compiles to admits the values there. -/
theorem allows_iff {point : String → Rat} : program.Allows metrics point ↔
    compiled.Admits compiled.constraints (LinearScope.columnValues (program.vars.map ProgramVariable.name) point) := by
  have values {column : Nat} {v : ProgramVariable Rat} (listed : program.vars[column]? = some v) :
      LinearScope.columnValues (program.vars.map ProgramVariable.name) point column = point v.name := by
    rw [LinearScope.columnValues, List.getElem?_map, listed]
    rfl
  have bounds : (∀ v ∈ program.vars, v.lower ≤ point v.name ∧ ∀ upper, v.upper = some upper → point v.name ≤ upper) ↔
      ∀ column v, compiled.vars[column]? = some v →
        v.lower ≤ LinearScope.columnValues (program.vars.map ProgramVariable.name) point column ∧
          ∀ upper, v.upper = some upper →
            LinearScope.columnValues (program.vars.map ProgramVariable.name) point column ≤ upper := by
    rw [compiles.vars]
    constructor
    · intro within column v listed
      rw [values listed]
      exact within v (List.mem_of_getElem? listed)
    · intro within v member
      obtain ⟨column, listed⟩ := List.mem_iff_getElem?.1 member
      rw [← values listed]
      exact within column v listed
  have constraints := Lists.forall_mem_iff_of_forall₂ compiles.constraints
    (p := fun c => c.predicate.Admits (LinearScope.exactEnv (program.vars.map ProgramVariable.name) metrics point))
    (q := fun entry => ∀ row ∈ entry.2, row.Meets compiled.vars.length
      (LinearScope.columnValues (program.vars.map ProgramVariable.name) point)) (by
        rintro c entry ⟨_, read⟩
        rw [(LinearScope.of_rows distinct c.predicate read).2 point, compiles.vars, List.length_map])
  constructor
  · rintro ⟨within, hold⟩
    exact ⟨bounds.1 within, constraints.1 hold⟩
  · rintro ⟨within, met⟩
    exact ⟨bounds.2 within, constraints.2 met⟩

end Compiles

end

end LinearProgram

end Deliberation
