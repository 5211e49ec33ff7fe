import Deliberation.Proofs.Expr.Arithmetic
import Deliberation.Proofs.Linear.Rows
import Deliberation.Linear.Form

/-!
Linear expressions. The form of an expression is worth what the expression is worth in exact arithmetic,
at any values of the variables, and the rows of a predicate are met exactly where it holds, strict
comparisons being read as if they were not.
-/

namespace Deliberation

open Finset (range)

/-! ### Forms -/

namespace LinearForm

variable {width : Nat} {x : Nat → Rat} {a b form : LinearForm Rat}

/-- What a form is worth when the columns have values. -/
def at_ (form : LinearForm Rat) (width : Nat) (x : Nat → Rat) : Rat :=
  ∑ j ∈ range width, form.coefficients.getD j 0 * x j + form.constant

theorem at_congr {y : Nat → Rat} (same : ∀ j < width, x j = y j) : form.at_ width x = form.at_ width y := by
  rw [at_, at_]
  refine congrArg (· + _) (Finset.sum_congr rfl ?_)
  intro j inside
  rw [same j (Finset.mem_range.1 inside)]

theorem at_const (value : Rat) : (LinearForm.const width value).at_ width x = value := by
  rw [at_, const, Finset.sum_eq_zero, zero_add]
  intro j inside
  rw [List.getD_eq_getElem?_getD, List.getElem?_replicate, if_pos (Finset.mem_range.1 inside), Option.getD_some, zero_mul]

theorem at_of_isConst (constant : form.isConst = true) : form.at_ width x = form.constant := by
  rw [at_, Finset.sum_eq_zero, zero_add]
  intro j _
  rw [List.getD_eq_getElem?_getD]
  cases listed : form.coefficients[j]? with
  | none => rw [Option.getD_none, zero_mul]
  | some c =>
    have zero : c = 0 := by simpa using List.all_eq_true.1 constant c (List.mem_of_getElem? listed)
    rw [zero, Option.getD_some, zero_mul]

theorem at_neg : form.neg.at_ width x = -form.at_ width x := by
  simp only [at_, neg, neg_add, ← Finset.sum_neg_distrib]
  refine congrArg (· + _) (Finset.sum_congr rfl ?_)
  intro j _
  rw [Lists.getD_map neg_zero, neg_mul]

theorem at_scale (factor : Rat) : (form.scale factor).at_ width x = form.at_ width x * factor := by
  simp only [at_, scale, add_mul, Finset.sum_mul]
  refine congrArg (· + _) (Finset.sum_congr rfl ?_)
  intro j _
  rw [Lists.getD_map (f := (· * factor)) (zero_mul factor)]
  ring

theorem at_add (even : a.coefficients.length = b.coefficients.length) :
    (a.add b).at_ width x = a.at_ width x + b.at_ width x := by
  have sum : ∑ j ∈ range width, (a.add b).coefficients.getD j 0 * x j =
      ∑ j ∈ range width, a.coefficients.getD j 0 * x j + ∑ j ∈ range width, b.coefficients.getD j 0 * x j := by
    rw [← Finset.sum_add_distrib]
    refine Finset.sum_congr rfl ?_
    intro j _
    rw [add, Lists.getD_zipWith (add_zero 0) even, add_mul]
  rw [at_, sum, at_, at_, add]
  ring

theorem at_sub (even : a.coefficients.length = b.coefficients.length) :
    (a.sub b).at_ width x = a.at_ width x - b.at_ width x := by
  have sum : ∑ j ∈ range width, (a.sub b).coefficients.getD j 0 * x j =
      ∑ j ∈ range width, a.coefficients.getD j 0 * x j - ∑ j ∈ range width, b.coefficients.getD j 0 * x j := by
    rw [← Finset.sum_sub_distrib]
    refine Finset.sum_congr rfl ?_
    intro j _
    rw [sub, Lists.getD_zipWith (sub_zero 0) even, sub_mul]
  rw [at_, sum, at_, at_, sub]
  ring

end LinearForm

/-! ### Forms of expressions -/

namespace LinearScope

section

variable {scope : LinearScope Rat} {e left right : Expr Rat} {op : ArithOp} {a b form : LinearForm Rat}

/-- What names stand for where the columns have values: a variable has the value of its column, the others are
as the metrics have them. -/
def columnEnv (scope : LinearScope Rat) (x : Nat → Rat) (name : String) : Option Rat :=
  match scope.column? name with
  | some column => some (x column)
  | none => (scope.metrics name).bind Value.number?

/-- A form shows an expression when it has a coefficient for each name and is worth the same, whatever values
the columns have. -/
structure Shows (scope : LinearScope Rat) (e : Expr Rat) (form : LinearForm Rat) : Prop where
  long : form.coefficients.length = scope.width
  worth : ∀ x, e.worth? (scope.columnEnv x) = some (form.at_ scope.width x)

theorem Shows.combine (first : scope.Shows left a) (second : scope.Shows right b) (done : combine e op a b = .ok form) :
    scope.Shows (.arith op left right) form := by
  have even := first.long.trans second.long.symm
  have worth (x : Nat → Rat) : (Expr.arith op left right).worth? (scope.columnEnv x) =
      op.result? (a.at_ scope.width x) (b.at_ scope.width x) := by
    rw [Expr.worth?, first.worth, second.worth]
    rfl
  cases op with
  | add =>
    cases done
    refine ⟨?_, fun x => ?_⟩
    · simp [LinearForm.add, first.long, second.long]
    · rw [worth, LinearForm.at_add even]
      rfl
  | sub =>
    cases done
    refine ⟨?_, fun x => ?_⟩
    · simp [LinearForm.sub, first.long, second.long]
    · rw [worth, LinearForm.at_sub even]
      rfl
  | mul =>
    rw [LinearScope.combine] at done
    split at done
    · next constant =>
      cases done
      refine ⟨?_, fun x => ?_⟩
      · simp [LinearForm.scale, first.long]
      · rw [worth, LinearForm.at_scale, LinearForm.at_of_isConst constant]
        rfl
    · split at done
      · next constant =>
        cases done
        refine ⟨?_, fun x => ?_⟩
        · simp [LinearForm.scale, second.long]
        · rw [worth, LinearForm.at_scale, LinearForm.at_of_isConst constant, mul_comm]
          rfl
      · cases done
  | div =>
    rw [LinearScope.combine] at done
    split at done
    · next divisor =>
      cases done
      simp only [Bool.and_eq_true, Bool.not_eq_true', beq_eq_false_iff_ne] at divisor
      refine ⟨?_, fun x => ?_⟩
      · simp [LinearForm.scale, first.long]
      · rw [worth, LinearForm.at_scale, LinearForm.at_of_isConst divisor.1, ArithOp.result?, if_neg divisor.2, mul_one_div]
    · cases done

theorem of_constant {fault : LinearFault} {value : Value Rat} (done : scope.constant e fault value = .ok form) :
    form.coefficients.length = scope.width ∧ ∀ x, value.number? = some (form.at_ scope.width x) := by
  rw [constant] at done
  split at done
  · next number =>
    cases done
    refine ⟨by simp [LinearForm.const], fun x => ?_⟩
    rw [number, LinearForm.at_const]
  · cases done

theorem shows_unit {name : String} {column : Nat} (found : scope.column? name = some column)
    (done : scope.unit column = .ok form) : scope.Shows (.var name) form := by
  rw [unit] at done
  split at done
  · next inside =>
    cases done
    refine ⟨by simp, fun x => ?_⟩
    rw [Expr.worth?, columnEnv, found, LinearForm.at_, sum_unit inside, add_zero]
  · cases done

/-- What compiles to a form is worth what the form is worth. -/
theorem shows_linear : (e : Expr Rat) → {form : LinearForm Rat} → scope.linear e = .ok form → scope.Shows e form
  | .const value, form, done => by
    rw [linear] at done
    obtain ⟨long, worth⟩ := of_constant done
    exact ⟨long, worth⟩
  | .var name, form, done => by
    rw [linear] at done
    split at done
    · next column found => exact shows_unit found done
    · next none =>
      split at done
      · next value known =>
        obtain ⟨long, worth⟩ := of_constant done
        refine ⟨long, fun x => ?_⟩
        rw [Expr.worth?, columnEnv, none, known, Option.bind_some]
        exact worth x
      · cases done
  | .neg operand, form, done => by
    rw [linear] at done
    obtain ⟨inner, compiled, rest⟩ := Lists.bind_eq_ok done
    cases rest
    have shows := shows_linear operand compiled
    refine ⟨?_, fun x => ?_⟩
    · simp [LinearForm.neg, shows.long]
    · rw [Expr.worth?, shows.worth, LinearForm.at_neg]
      rfl
  | .arith op left right, form, done => by
    rw [linear] at done
    obtain ⟨a, first, rest⟩ := Lists.bind_eq_ok done
    obtain ⟨b, second, combined⟩ := Lists.bind_eq_ok rest
    exact (shows_linear left first).combine (shows_linear right second) combined
  | .not _, _, done => by cases done
  | .compare _ _ _, _, done => by cases done
  | .logic _ _ _, _, done => by cases done
  | .member _ _, _, done => by cases done
  | .call _ _, _, done => by cases done

/-- The row of a comparison is met exactly where the forms compare that way. -/
theorem meets_difference {op : CompareOp} {relation : Relation} {width : Nat} {x : Nat → Rat}
    (read : LinearScope.relation e op = .ok relation) (even : a.coefficients.length = b.coefficients.length) :
    (LinearRow.mk (a.sub b).coefficients relation (-(a.sub b).constant)).Meets width x ↔
      op.Admits (a.at_ width x) (b.at_ width x) := by
  have left : (LinearRow.mk (a.sub b).coefficients relation (-(a.sub b).constant)).left width x =
      a.at_ width x - b.at_ width x - (a.sub b).constant := by
    rw [← LinearForm.at_sub even, LinearForm.at_, add_sub_cancel_right]
    rfl
  rw [LinearRow.Meets, left]
  cases op <;> cases read <;> simp only [Relation.Holds, CompareOp.Admits] <;> constructor <;> intro compares <;> linarith

/-- The rows of a predicate have a coefficient for each name, and are met exactly where it holds, whatever
values the columns have. -/
theorem admits_rows : (e : Expr Rat) → {rows : List (LinearRow Rat)} → scope.rows e = .ok rows →
    (∀ row ∈ rows, row.coefficients.length = scope.width) ∧
      ∀ x, e.Admits (scope.columnEnv x) ↔ ∀ row ∈ rows, row.Meets scope.width x
  | .logic .and left right, rows, done => by
    rw [LinearScope.rows] at done
    obtain ⟨first, own, rest⟩ := Lists.bind_eq_ok done
    obtain ⟨second, other, rest⟩ := Lists.bind_eq_ok rest
    cases rest
    obtain ⟨long, meets⟩ := admits_rows left own
    obtain ⟨long', meets'⟩ := admits_rows right other
    refine ⟨List.forall_mem_append.2 ⟨long, long'⟩, fun x => ?_⟩
    rw [Expr.Admits, meets, meets', List.forall_mem_append]
  | .compare op left right, rows, done => by
    rw [LinearScope.rows] at done
    obtain ⟨relation, read, rest⟩ := Lists.bind_eq_ok done
    obtain ⟨a, first, rest⟩ := Lists.bind_eq_ok rest
    obtain ⟨b, second, rest⟩ := Lists.bind_eq_ok rest
    cases rest
    have own := shows_linear left first
    have other := shows_linear right second
    refine ⟨?_, fun x => ?_⟩
    · intro row member
      rw [List.mem_singleton.1 member]
      simp [LinearForm.sub, own.long, other.long]
    · rw [List.forall_mem_singleton, meets_difference read (own.long.trans other.long.symm), Expr.Admits, own.worth,
        other.worth]
      simp
  | .logic .or _ _, _, done => by cases done
  | .logic .implies _ _, _, done => by cases done
  | .const _, _, done => by cases done
  | .var _, _, done => by cases done
  | .neg _, _, done => by cases done
  | .arith _ _ _, _, done => by cases done
  | .not _, _, done => by cases done
  | .member _ _, _, done => by cases done
  | .call _ _, _, done => by cases done

end

/-! ### Points -/

section

variable {names : List String} {metrics : Env Rat} {point : String → Rat} {name : String} {column : Nat}

/-- What names stand for: the variables have the values of a point, the others those of the metrics. -/
def exactEnv (names : List String) (metrics : Env Rat) (point : String → Rat) (name : String) : Option Rat :=
  if name ∈ names then some (point name) else (metrics name).bind Value.number?

/-- The values that the columns have at a point. -/
def columnValues (names : List String) (point : String → Rat) (j : Nat) : Rat := (names[j]?.map point).getD 0

theorem getElem?_of_column? (found : (LinearScope.mk names metrics).column? name = some column) :
    names[column]? = some name := by
  obtain ⟨⟨other, j⟩, last, rfl⟩ := Option.map_eq_some_iff.1 found
  have same : other = name := by simpa using List.find?_some last
  have member := List.mem_reverse.1 (List.mem_of_find?_eq_some last)
  rw [← same]
  exact List.mk_mem_zipIdx_iff_getElem?.1 member

theorem not_mem_of_column? (none : (LinearScope.mk names metrics).column? name = none) : name ∉ names := by
  intro member
  obtain ⟨j, listed⟩ := List.mem_iff_getElem?.1 member
  have missing := List.find?_eq_none.1 (Option.map_eq_none_iff.1 none) (name, j)
    (List.mem_reverse.2 (List.mk_mem_zipIdx_iff_getElem?.2 listed))
  exact missing (by simp)

/-- At a point the columns have the values of their variables. -/
theorem columnEnv_columnValues (names : List String) (metrics : Env Rat) (point : String → Rat) :
    (LinearScope.mk names metrics).columnEnv (columnValues names point) = exactEnv names metrics point := by
  funext name
  rw [columnEnv, exactEnv]
  split
  · next column found =>
    have listed := getElem?_of_column? found
    rw [if_pos (List.mem_of_getElem? listed), columnValues, listed]
    rfl
  · next none => rw [if_neg (not_mem_of_column? none)]

/-- A form stands for an expression when it has a coefficient for each name and is worth the same at every point. -/
structure Stands (names : List String) (metrics : Env Rat) (e : Expr Rat) (form : LinearForm Rat) : Prop where
  even : form.coefficients.length = names.length
  worth : ∀ point, e.worth? (exactEnv names metrics point) = some (form.at_ names.length (columnValues names point))

variable (distinct : names.Nodup)

include distinct

theorem width_eq : (LinearScope.mk names metrics).width = names.length := by
  rw [width, Lists.eraseDups_of_nodup distinct]

/-- What compiles to a form is worth what the form is worth at every point. -/
theorem of_linear (e : Expr Rat) {form : LinearForm Rat} (done : (LinearScope.mk names metrics).linear e = .ok form) :
    Stands names metrics e form := by
  have shows := shows_linear e done
  refine ⟨shows.long.trans (width_eq distinct), fun point => ?_⟩
  rw [← columnEnv_columnValues, shows.worth, width_eq distinct]

/-- The rows of a predicate have a coefficient for each name, and are met exactly where it holds. -/
theorem of_rows (e : Expr Rat) {rows : List (LinearRow Rat)} (done : (LinearScope.mk names metrics).rows e = .ok rows) :
    (∀ row ∈ rows, row.coefficients.length = names.length) ∧
      ∀ point, e.Admits (exactEnv names metrics point) ↔
        ∀ row ∈ rows, row.Meets names.length (columnValues names point) := by
  obtain ⟨long, admits⟩ := admits_rows e done
  rw [width_eq distinct] at long admits
  refine ⟨long, fun point => ?_⟩
  rw [← columnEnv_columnValues, admits]

end

end LinearScope

end Deliberation
