import Deliberation.Proofs.Linear.Program

/-!
Linear forms and rows at values that are listed by column. The form of an expression comes to what the
expression is worth, and the rows of a predicate hold where the predicate does, whatever values the variables
of a program have; a variable goes before another name that is spelled like it.
-/

namespace Deliberation

open Finset (range)

namespace LinearScope

variable {names : List String} {metrics : Env Rat} {point : String → Rat} {name : String}

/-- What names stand for in an evaluation: the variables are numbers, the others are as the metrics have them. -/
def pointEnv (names : List String) (metrics : Env Rat) (point : String → Rat) : Env Rat := fun name =>
  if name ∈ names then some (.num (point name)) else metrics name

theorem number?_pointEnv : (pointEnv names metrics point name).bind Value.number? = exactEnv names metrics point name := by
  rw [pointEnv, exactEnv]
  split <;> rfl

/-- The values of the variables, listed, are those of the columns. -/
theorem getD_map_point (j : Nat) : (names.map point).getD j 0 = columnValues names point j := by
  rw [List.getD_eq_getElem?_getD, List.getElem?_map, columnValues]

theorem dot_map_point {coefficients : List Rat} (even : coefficients.length = names.length) :
    dot coefficients (names.map point) =
      ∑ j ∈ range names.length, coefficients.getD j 0 * columnValues names point j := by
  rw [dot_eq even.le (List.length_map _)]
  refine Finset.sum_congr rfl fun j _ => ?_
  rw [getD_map_point]

theorem value_map_point {form : LinearForm Rat} (even : form.coefficients.length = names.length) :
    form.value (names.map point) = form.at_ names.length (columnValues names point) := by
  rw [LinearForm.value, dot_map_point even, LinearForm.at_]

/-- A row is met when its sum of products compares with its bound. -/
theorem meets_iff_dot {row : LinearRow Rat} (even : row.coefficients.length = names.length) :
    row.Meets names.length (columnValues names point) ↔
      row.relation.Holds (dot row.coefficients (names.map point)) row.bound := by
  rw [dot_map_point even]
  rfl

end LinearScope

namespace LinearProgram

open LinearScope (exactEnv pointEnv)

/-- How the expressions of a program are read. -/
def scope (program : LinearProgram Rat) (metrics : Env Rat) : LinearScope Rat :=
  ⟨program.vars.map ProgramVariable.name, metrics⟩

/-- At any values of the variables, the form of an expression is worth what the expression is worth in exact
arithmetic, and the rows of a predicate hold exactly where the predicate does. -/
theorem forms_exact {program : LinearProgram Rat} (distinct : (program.vars.map ProgramVariable.name).Nodup)
    (metrics : Env Rat) :
    let names := program.vars.map ProgramVariable.name
    (∀ e form, (program.scope metrics).linear e = .ok form →
      form.coefficients.length = names.length ∧
      ∀ point, e.worth? (exactEnv names metrics point) = some (form.value (names.map point)) ∧
        ∀ v, e.eval (pointEnv names metrics point) = .ok v → v.number? = some (form.value (names.map point))) ∧
    ∀ e rows, (program.scope metrics).rows e = .ok rows →
      (∀ row ∈ rows, row.coefficients.length = names.length) ∧
      ∀ point, (∀ row ∈ rows, row.relation.Holds (dot row.coefficients (names.map point)) row.bound) ↔
        e.Admits (exactEnv names metrics point) := by
  intro names
  refine ⟨fun e form compiled => ?_, fun e rows compiled => ?_⟩
  · have stands := LinearScope.of_linear distinct e compiled
    have worth (point : String → Rat) :
        e.worth? (exactEnv names metrics point) = some (form.value (names.map point)) := by
      rw [stands.worth, LinearScope.value_map_point stands.even]
    refine ⟨stands.even, fun point => ⟨worth point, fun v evaluated => ?_⟩⟩
    refine Expr.number?_of_eval e evaluated ?_
    simpa only [LinearScope.number?_pointEnv] using worth point
  · obtain ⟨even, met⟩ := LinearScope.of_rows distinct e compiled
    refine ⟨even, fun point => ?_⟩
    rw [met point]
    exact forall₂_congr fun row member => (LinearScope.meets_iff_dot (even row member)).symm

/-- Ale and bread at a rate; the product of two variables is linear since one of them cancels. -/
def larder.cost : Expr Rat :=
  .arith .sub
    (.arith .add (.arith .mul (.arith .sub (.var "ale") (.var "ale")) (.var "bread"))
      (.arith .div (.arith .mul (.var "rate") (.var "bread")) (.const (.int 2))))
    (.neg (.var "ale"))

def larder.stock : Expr Rat :=
  .logic .and (.compare .lt (.arith .add (.var "ale") (.var "bread")) (.const (.num 8)))
    (.compare .ge (.arith .mul (.var "rate") (.var "ale")) (.arith .sub (.var "bread") (.const (.int 1))))

def larder : LinearProgram Rat := ⟨[⟨"ale", 0, none⟩, ⟨"bread", 0, none⟩], larder.cost, [⟨"stock", larder.stock, 0⟩]⟩

/-- One of the metrics is spelled like a variable. -/
def larder.metrics : Env Rat := fun name =>
  if name = "rate" then some (.num 4) else if name = "ale" then some (.num 100) else none

def larder.point (name : String) : Rat := if name = "ale" then 3 else 5

theorem larder_exact : (larder.vars.map ProgramVariable.name).Nodup ∧
    (larder.scope larder.metrics).linear larder.cost = .ok ⟨[1, 2], 0⟩ ∧
    larder.cost.worth? (exactEnv ["ale", "bread"] larder.metrics larder.point) = some 13 ∧
    (larder.scope larder.metrics).rows larder.stock = .ok [⟨[1, 1], .le, 8⟩, ⟨[4, -1], .ge, -1⟩] ∧
    larder.stock.Admits (exactEnv ["ale", "bread"] larder.metrics larder.point) := by
  have distinct : (larder.vars.map ProgramVariable.name).Nodup := by decide
  obtain ⟨forms, rows⟩ := forms_exact distinct larder.metrics
  have linear : (larder.scope larder.metrics).linear larder.cost = .ok ⟨[1, 2], 0⟩ := by with_unfolding_all rfl
  have compared : (larder.scope larder.metrics).rows larder.stock = .ok [⟨[1, 1], .le, 8⟩, ⟨[4, -1], .ge, -1⟩] := by
    with_unfolding_all rfl
  have value : (LinearForm.mk [1, 2] 0).value (["ale", "bread"].map larder.point) = 13 := by with_unfolding_all rfl
  refine ⟨distinct, linear, ?_, compared, ?_⟩
  · exact ((forms _ _ linear).2 larder.point).1.trans (congrArg some value)
  · refine ((rows _ _ compared).2 larder.point).1 ?_
    have sums : dot [1, 1] (["ale", "bread"].map larder.point) = 8 ∧ dot [4, -1] (["ale", "bread"].map larder.point) = 7 := by
      constructor <;> with_unfolding_all rfl
    simp only [List.forall_mem_cons]
    refine ⟨sums.1.le, ?_, by simp⟩
    exact (show (-1 : Rat) ≤ 7 by norm_num).trans_eq sums.2.symm

end LinearProgram

end Deliberation
