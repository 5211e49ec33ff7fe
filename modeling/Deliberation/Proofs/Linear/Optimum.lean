import Deliberation.Proofs.Linear.Program
import Deliberation.Proofs.Fact.Bindings

/-!
The best solution of a linear program. Of the points that the program allows, the one reported has the
best value of the objective; an error says that there are none, or some of any value.
-/

namespace Deliberation

open Finset (range)

/-! ### Senses -/

namespace Sense

variable {sense : Sense} {a b : Rat}

/-- One value is as good as another, or better. -/
def NoWorse : Sense → Rat → Rat → Prop
  | .minimize, a, b => a ≤ b
  | .maximize, a, b => b ≤ a

/-- One value is better than another. -/
def Better : Sense → Rat → Rat → Prop
  | .minimize, a, b => a < b
  | .maximize, a, b => b < a

/-- A number that is the smaller the better a value is. -/
def signed : Sense → Rat → Rat
  | .minimize, a => a
  | .maximize, a => -a

theorem noWorse_iff : sense.NoWorse a b ↔ sense.signed a ≤ sense.signed b := by
  cases sense <;> simp [NoWorse, signed]

theorem better_iff : sense.Better a b ↔ sense.signed a < sense.signed b := by
  cases sense <;> simp [Better, signed]

theorem signed_zero (sense : Sense) : sense.signed 0 = 0 := by
  cases sense <;> simp [signed]

theorem signed_add (sense : Sense) (a b : Rat) : sense.signed (a + b) = sense.signed a + sense.signed b := by
  cases sense <;> simp [signed, add_comm]

end Sense

/-! ### The solution of a table -/

namespace Simplex

/-- Writing the bounds of lines to the places of their basic columns. -/
theorem getD_foldl_set {lines : List (Line Rat)} {values : List Rat} {j : Nat} (distinct : (lines.map Line.basic).Nodup)
    (inside : j < values.length) :
    (lines.foldl (fun values line => values.set line.basic line.bound) values).getD j 0 =
      ((lines.find? (·.basic = j)).map Line.bound).getD (values.getD j 0) := by
  induction lines generalizing values with
  | nil => simp
  | cons line rest ih =>
    obtain ⟨fresh, distinct⟩ := List.nodup_cons.1 distinct
    rw [List.foldl_cons, ih distinct (by simpa using inside), List.find?_cons]
    by_cases same : line.basic = j
    · have absent : rest.find? (·.basic = j) = none := by
        refine List.find?_eq_none.2 ?_
        intro other member again
        have again : other.basic = j := by simpa using again
        exact fresh (List.mem_map.2 ⟨other, member, again.trans same.symm⟩)
      rw [absent]
      simp [same, List.getD_eq_getElem?_getD, inside]
    · simp [same, List.getD_eq_getElem?_getD, List.getElem?_set_ne same]

theorem length_solution (table : Table Rat) (width : Nat) : (table.solution width).length = width := by
  rw [Table.solution, Lists.length_foldl fun _ _ => List.length_set, List.length_replicate]

theorem Table.Proper.getD_solution {table : Table Rat} {width j : Nat} (proper : table.Proper) (inside : j < width) :
    (table.solution width).getD j 0 = table.shown j := by
  rw [Table.solution, getD_foldl_set proper.distinct (by simpa using inside), List.getD_eq_getElem?_getD,
    List.getElem?_replicate, if_pos inside, Option.getD_some]
  rfl

end Simplex

namespace LinearProgram

namespace Compiled

variable {program : Compiled Rat} {chosen : List (String × List (LinearRow Rat))} {table : Simplex.Table Rat}
  {x y : Nat → Rat}

/-! ### The objective -/

/-- Tables that pivots make of the first one have a column for each variable. -/
theorem le_width_of_kin (kin : (program.table chosen).Kin table) : program.vars.length ≤ table.width := by
  rw [kin.width, Compiled.table, Simplex.width_tableOf]
  omega

/-- The cost of distances is the change of the objective from the lower bounds, signed by the sense. -/
theorem worth_cost (even : program.objective.coefficients.length = program.vars.length)
    (wide : program.vars.length ≤ table.width) :
    Simplex.worth (program.cost table) table.width y =
      program.sense.signed (program.objective.at_ program.vars.length (program.raised y)) -
        program.sense.signed (program.objective.at_ program.vars.length fun j => program.lower.getD j 0) := by
  have coefficient (j : Nat) :
      (program.cost table).getD j 0 = program.sense.signed (program.objective.coefficients.getD j 0) := by
    rw [cost, Simplex.getD_padTo]
    cases program.sense with
    | minimize => rfl
    | maximize => exact Lists.getD_map neg_zero _ j
  have zero (j : Nat) (beyond : j ∉ range program.vars.length) : (program.cost table).getD j 0 * y j = 0 := by
    have outside : program.objective.coefficients.length ≤ j := by simpa [even] using beyond
    rw [coefficient, List.getD_eq_default _ _ outside, Sense.signed_zero, zero_mul]
  have change : program.objective.at_ program.vars.length (program.raised y) =
      ∑ j ∈ range program.vars.length, program.objective.coefficients.getD j 0 * y j +
        program.objective.at_ program.vars.length fun j => program.lower.getD j 0 := by
    simp only [LinearForm.at_, raised, mul_add, Finset.sum_add_distrib]
    ring
  rw [change, Sense.signed_add, add_sub_cancel_right, Simplex.worth,
    ← Finset.sum_subset (Finset.range_subset_range.2 wide) fun j _ beyond => zero j beyond]
  simp only [coefficient]
  cases program.sense <;> simp [Sense.signed]

/-- The values of the solution of a table: the distances that it shows, from the lower bounds. -/
theorem getD_values (proper : table.Proper) {j : Nat} (inside : j < program.vars.length) :
    (List.zipWith (· + ·) (table.solution program.vars.length) program.lower).getD j 0 = program.raised table.shown j := by
  rw [Lists.getD_zipWith (f := (· + ·)) (add_zero (0 : Rat)) ((Simplex.length_solution ..).trans program.length_lower.symm),
    proper.getD_solution inside, raised]

theorem length_values : (List.zipWith (· + ·) (table.solution program.vars.length) program.lower).length =
    program.vars.length := by
  rw [List.length_zipWith, Simplex.length_solution, length_lower, min_self]

theorem objective_solutionOf (proper : table.Proper)
    (even : program.objective.coefficients.length = program.vars.length) :
    (program.solutionOf table).objective = program.objective.at_ program.vars.length (program.raised table.shown) := by
  rw [solutionOf, LinearForm.value, dot_eq even.le length_values, LinearForm.at_]
  refine congrArg (· + _) (Finset.sum_congr rfl ?_)
  intro j inside
  rw [getD_values proper (Finset.mem_range.1 inside)]

theorem get?_solutionOf (proper : table.Proper) (distinct : (program.vars.map ProgramVariable.name).Nodup) {column : Nat}
    {v : ProgramVariable Rat} (listed : program.vars[column]? = some v) :
    (program.solutionOf table).values.get? v.name = some (program.raised table.shown column) := by
  obtain ⟨inside, _⟩ := List.getElem?_eq_some_iff.1 listed
  have keys : (program.vars.map ProgramVariable.name).length ≤
      (List.zipWith (· + ·) (table.solution program.vars.length) program.lower).length := by
    rw [length_values, List.length_map]
  rw [solutionOf, NameMap.get?_ofList_eq_some_iff (by rwa [List.map_fst_zip keys])]
  refine List.mem_iff_getElem?.2 ⟨column, List.getElem?_zip_eq_some.2 ⟨?_, ?_⟩⟩
  · rw [List.getElem?_map, listed, Option.map_some]
  · have inside : column < (List.zipWith (· + ·) (table.solution program.vars.length) program.lower).length := by
      rwa [length_values]
    rw [List.getElem?_eq_getElem inside, ← getD_values proper (by rwa [length_values] at inside),
      List.getD_eq_getElem _ _ inside]

/-! ### Feasibility -/

/-- A check of chosen constraints comes to an end, and finds whether they can hold within the bounds. -/
theorem feasible_eq (short : program.Short chosen) :
    ∃ holds, program.feasible ⟨0, 0⟩ chosen = .ok holds ∧ (holds = true ↔ ∃ x, program.Admits chosen x) := by
  have prepares := Simplex.prepares_phaseOne (canonical_table short)
  rw [feasible]
  generalize Simplex.phaseOne ⟨0, 0⟩ (program.table chosen) = prepared at prepares
  cases prepares with
  | ready fits kin =>
    have allows := kin.allows.1 fits.allows_shown
    exact ⟨true, rfl, iff_of_true rfl ⟨_, admits_of_allows short allows⟩⟩
  | none empty =>
    refine ⟨false, rfl, iff_of_false Bool.false_ne_true ?_⟩
    rintro ⟨x, admits⟩
    obtain ⟨y, allows, _⟩ := exists_allows short admits
    exact empty y allows

/-- Leaving out constraints comes to an end, and every check on the way finds whether the others can hold. -/
theorem exists_shrink (kept rest : List (String × List (LinearRow Rat))) (short : program.Short (kept ++ rest)) :
    ∃ conflict, program.shrink ⟨0, 0⟩ kept rest = .ok conflict ∧
      Lists.Shrinks (fun chosen => ∃ x, program.Admits chosen x) kept rest conflict := by
  induction rest generalizing kept with
  | nil => exact ⟨kept, rfl, .done⟩
  | cons c rest ih =>
    have fewer : program.Short (kept ++ rest) := by
      intro entry member
      rcases List.mem_append.1 member with first | later
      · exact short entry (List.mem_append_left _ first)
      · exact short entry (List.mem_append_right _ (List.mem_cons_of_mem c later))
    obtain ⟨holds, checked, truth⟩ := feasible_eq fewer
    rw [shrink, checked]
    cases holds with
    | true =>
      obtain ⟨conflict, shrunk, shrinks⟩ := ih (kept ++ [c]) (by simpa using short)
      exact ⟨conflict, shrunk, .keep (truth.1 rfl) shrinks⟩
    | false =>
      obtain ⟨conflict, shrunk, shrinks⟩ := ih kept fewer
      exact ⟨conflict, shrunk, .leave (fun feasible => Bool.false_ne_true (truth.2 feasible)) shrinks⟩

end Compiled

/-! ### Optimizing -/

/-- What a result says about a program: which point is best, that there is none, or that there are points of
any value. -/
inductive Decides (program : LinearProgram Rat) (sense : Sense) (metrics : Env Rat) :
    Except (ProgramError Rat) (ProgramSolution Rat) → Prop
  | best {solution : ProgramSolution Rat} {point : String → Rat}
      (values : ∀ v ∈ program.vars, solution.values.get? v.name = some (point v.name))
      (allows : program.Allows metrics point)
      (objective : program.objectiveAt? metrics point = some solution.objective)
      (noBetter : ∀ other, program.Allows metrics other →
        ∃ value, program.objectiveAt? metrics other = some value ∧ sense.NoWorse solution.objective value) :
      Decides program sense metrics (.ok solution)
  | unsatisfiable {conflicts : List String} (none : ∀ point, ¬ program.Allows metrics point) :
      Decides program sense metrics (.error (.unsatisfiable conflicts))
  | unbounded (any : ∀ limit, ∃ point value, program.Allows metrics point ∧
        program.objectiveAt? metrics point = some value ∧ sense.Better value limit) :
      Decides program sense metrics (.error .unbounded)

section

variable {program : LinearProgram Rat} {sense : Sense} {metrics : Env Rat} {compiled : Compiled Rat}

/-- A point that has given values in the columns of names. -/
def pointOf (names : List String) (x : Nat → Rat) (name : String) : Rat := x (names.idxOf name)

theorem pointOf_eq {names : List String} (distinct : names.Nodup) {name : String} {column : Nat}
    (listed : names[column]? = some name) (x : Nat → Rat) : pointOf names x name = x column := by
  obtain ⟨inside, rfl⟩ := List.getElem?_eq_some_iff.1 listed
  rw [pointOf, distinct.idxOf_getElem]

theorem columnValues_pointOf {names : List String} (distinct : names.Nodup) (x : Nat → Rat) {j : Nat}
    (inside : j < names.length) : LinearScope.columnValues names (pointOf names x) j = x j := by
  have listed : names[j]? = some names[j] := List.getElem?_eq_getElem inside
  rw [LinearScope.columnValues, listed, Option.map_some, Option.getD_some, pointOf_eq distinct listed]

namespace Compiles

variable (compiles : program.Compiles sense metrics compiled) (distinct : (program.vars.map ProgramVariable.name).Nodup)

include compiles

/-- No point lies within bounds of which an upper one is below a lower one. -/
theorem not_allows_of_crossed {v : ProgramVariable Rat} (member : v ∈ compiled.vars)
    (crossed : v.upper.any (· < v.lower) = true) (point : String → Rat) : ¬ program.Allows metrics point := by
  intro allows
  rw [compiles.vars] at member
  obtain ⟨upper, limit, below⟩ := (Option.any_eq_true _ _).1 crossed
  obtain ⟨above, within⟩ := allows.bounds v member
  linarith [within upper limit, of_decide_eq_true below]

include distinct

theorem even_objective : compiled.objective.coefficients.length = compiled.vars.length := by
  rw [(compiles.stands distinct).even, compiles.vars, List.length_map]

/-- What the objective is worth at a point, by the form that it compiles to. -/
theorem objectiveAt?_eq (point : String → Rat) : program.objectiveAt? metrics point =
    some (compiled.objective.at_ compiled.vars.length
      (LinearScope.columnValues (program.vars.map ProgramVariable.name) point)) := by
  rw [objectiveAt?, (compiles.stands distinct).worth, compiles.vars, List.length_map]

/-- Values that a compiled program admits belong to a point that the program allows, where the objective is
worth as much. -/
theorem allows_pointOf {x : Nat → Rat} (admits : compiled.Admits compiled.constraints x) :
    program.Allows metrics (pointOf (program.vars.map ProgramVariable.name) x) ∧
      program.objectiveAt? metrics (pointOf (program.vars.map ProgramVariable.name) x) =
        some (compiled.objective.at_ compiled.vars.length x) := by
  have same : ∀ j < compiled.vars.length,
      x j = LinearScope.columnValues (program.vars.map ProgramVariable.name)
        (pointOf (program.vars.map ProgramVariable.name) x) j := by
    intro j inside
    rw [columnValues_pointOf distinct x (by rwa [List.length_map, ← compiles.vars])]
  refine ⟨(compiles.allows_iff distinct).2 (admits.congr same), ?_⟩
  rw [compiles.objectiveAt?_eq distinct, LinearForm.at_congr same]

/-- A point that the program allows lies at distances that the first table allows. -/
theorem exists_allows {point : String → Rat} (allows : program.Allows metrics point) :
    ∃ y, (compiled.table compiled.constraints).Allows y ∧ program.objectiveAt? metrics point =
      some (compiled.objective.at_ compiled.vars.length (compiled.raised y)) := by
  obtain ⟨y, allowed, same⟩ := Compiled.exists_allows compiles.short ((compiles.allows_iff distinct).1 allows)
  refine ⟨y, allowed, ?_⟩
  rw [compiles.objectiveAt?_eq distinct, LinearForm.at_congr same]

/-- A table that shows a cheapest solution decides a program by the point that it shows. -/
theorem decides_solutionOf {ready last : Simplex.Table Rat} (kin : (compiled.table compiled.constraints).Kin ready)
    (proper : last.Proper) (allows : (compiled.table compiled.constraints).Allows last.shown)
    (least : ∀ y, (compiled.table compiled.constraints).Allows y →
      Simplex.worth (compiled.cost ready) ready.width last.shown ≤ Simplex.worth (compiled.cost ready) ready.width y) :
    program.Decides sense metrics (.ok (compiled.solutionOf last)) := by
  have evenObjective := compiles.even_objective distinct
  have wide := Compiled.le_width_of_kin kin
  have vars : (compiled.vars.map ProgramVariable.name).Nodup := by rwa [compiles.vars]
  obtain ⟨allowed, reached⟩ := compiles.allows_pointOf distinct (Compiled.admits_of_allows compiles.short allows)
  refine .best ?_ allowed ?_ ?_
  · intro v member
    rw [← compiles.vars] at member
    obtain ⟨column, listed⟩ := List.mem_iff_getElem?.1 member
    have named : (program.vars.map ProgramVariable.name)[column]? = some v.name := by
      rw [← compiles.vars, List.getElem?_map, listed, Option.map_some]
    rw [Compiled.get?_solutionOf proper vars listed, pointOf_eq distinct named]
  · rw [reached, Compiled.objective_solutionOf proper evenObjective]
  · intro other admitted
    obtain ⟨y, allowed, same⟩ := compiles.exists_allows distinct admitted
    refine ⟨_, same, ?_⟩
    have cheaper := least y allowed
    rw [Compiled.worth_cost evenObjective wide, Compiled.worth_cost evenObjective wide, sub_le_sub_iff_right, compiles.sense,
      ← Sense.noWorse_iff] at cheaper
    rwa [Compiled.objective_solutionOf proper evenObjective]

/-- Where distances become cheaper without end, some allowed points are better than any limit. -/
theorem exists_better {ready : Simplex.Table Rat} (kin : (compiled.table compiled.constraints).Kin ready)
    (lower : ∀ limit, ∃ y, ready.Allows y ∧ Simplex.worth (compiled.cost ready) ready.width y < limit) (limit : Rat) :
    ∃ point value, program.Allows metrics point ∧ program.objectiveAt? metrics point = some value ∧
      sense.Better value limit := by
  obtain ⟨y, allowed, cheap⟩ := lower (compiled.sense.signed limit -
    compiled.sense.signed (compiled.objective.at_ compiled.vars.length fun j => compiled.lower.getD j 0))
  have admits := Compiled.admits_of_allows compiles.short (kin.allows.1 allowed)
  obtain ⟨point, reached⟩ := compiles.allows_pointOf distinct admits
  refine ⟨_, _, point, reached, ?_⟩
  rw [Compiled.worth_cost (compiles.even_objective distinct) (Compiled.le_width_of_kin kin), sub_lt_sub_iff_right,
    compiles.sense] at cheap
  exact Sense.better_iff.2 cheap

/-- Optimizing what a program compiles to decides it. -/
theorem decides_optimize : program.Decides sense metrics (compiled.optimize ⟨0, 0⟩) := by
  have prepares := Simplex.prepares_phaseOne (Compiled.canonical_table compiles.short)
  rw [Compiled.optimize]
  split
  · next v found =>
    have crossed : v.upper.any (· < v.lower) = true := by simpa using List.find?_some found
    exact .unsatisfiable (compiles.not_allows_of_crossed (List.mem_of_find?_eq_some found) crossed)
  · generalize Simplex.phaseOne ⟨0, 0⟩ (compiled.table compiled.constraints) = prepared at prepares
    cases prepares with
    | none empty =>
      obtain ⟨conflict, shrunk, _⟩ := Compiled.exists_shrink [] _ compiles.short
      rw [shrunk]
      refine .unsatisfiable ?_
      intro point allows
      obtain ⟨y, allowed, _⟩ := compiles.exists_allows distinct allows
      exact empty y allowed
    | @ready ready fits kin =>
      have concludes := Simplex.concludes_phaseTwo fits (compiled.cost ready)
      change Decides program sense metrics
        ((Simplex.phaseTwo ⟨0, 0⟩ (compiled.cost ready) ready).mapError ProgramError.aborted >>= _)
      generalize Simplex.phaseTwo ⟨0, 0⟩ (compiled.cost ready) ready = concluded at concludes
      cases concludes with
      | cheapest there onward least =>
        refine compiles.decides_solutionOf distinct kin there.canonical.proper ?_ ?_
        · exact kin.allows.1 (onward.allows.1 there.allows_shown)
        · intro y allowed
          exact least y (kin.allows.2 allowed)
      | endless lower => exact .unbounded (compiles.exists_better distinct kin lower)

end Compiles

/-- Optimizing a program that compiles comes to an end, without giving up, and decides it. -/
theorem optimize_decides (distinct : (program.vars.map ProgramVariable.name).Nodup)
    (done : program.compile sense metrics = .ok compiled) :
    program.Decides sense metrics (program.optimize ⟨0, 0⟩ sense metrics) := by
  have decides := (compiles_of_compile done).decides_optimize distinct
  rw [optimize, done]
  exact decides

end

/-- Desks and chairs from the same wood, of which an order asks for some. -/
def workshop : LinearProgram Rat where
  vars := [⟨"desks", 0, some 4⟩, ⟨"chairs", 1, none⟩]
  objective := .arith .add (.arith .mul (.const (.num 3)) (.var "desks")) (.arith .mul (.var "price") (.var "chairs"))
  constraints := [⟨"wood", .compare .lt (.arith .add (.var "desks") (.var "chairs")) (.const (.num 6)), 0⟩,
    ⟨"order", .compare .ge (.arith .add (.var "desks") (.arith .mul (.const (.num 2)) (.var "chairs"))) (.const (.num 5)), 0⟩]

def workshop.metrics : Env Rat := fun name => if name = "price" then some (.num 2) else none

theorem workshop_decided : (workshop.vars.map ProgramVariable.name).Nodup ∧
    (∃ compiled, workshop.compile .maximize workshop.metrics = .ok compiled) ∧
    ∃ solution, workshop.optimize ⟨0, 0⟩ .maximize workshop.metrics = .ok solution ∧ solution.objective = 16 ∧
      workshop.Decides .maximize workshop.metrics (.ok solution) := by
  have distinct : (workshop.vars.map ProgramVariable.name).Nodup := by decide
  have compiles : ∃ compiled, workshop.compile .maximize workshop.metrics = .ok compiled := ⟨_, rfl⟩
  obtain ⟨compiled, done⟩ := compiles
  have decides := optimize_decides distinct done
  have value : (workshop.optimize ⟨0, 0⟩ .maximize workshop.metrics).map (·.objective) = .ok 16 := by
    with_unfolding_all rfl
  obtain ⟨solution, found, worth⟩ := Lists.map_eq_ok value
  rw [found] at decides
  exact ⟨distinct, ⟨compiled, done⟩, solution, found, worth, decides⟩

end LinearProgram

end Deliberation
