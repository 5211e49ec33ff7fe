import Deliberation.Proofs.Expr.Faults
import Deliberation.Proofs.Number.Whole
import Mathlib.Data.Rat.Cast.Defs
import Mathlib.Tactic.Linarith

/-!
Exact arithmetic. An operation on integers comes to its exact result if 64 bits hold it, and is refused if
they do not; what an expression is worth in exact arithmetic is what it evaluates to, if it has a value.
-/

namespace Deliberation

/-! ### Integers -/

/-- The result of an operation on numbers; a division by zero has none. -/
def ArithOp.result? : ArithOp → Rat → Rat → Option Rat
  | .add, a, b => some (a + b)
  | .sub, a, b => some (a - b)
  | .mul, a, b => some (a * b)
  | .div, a, b => if b = 0 then none else some (a / b)

namespace Expr

section

variable {R : Type} [Scalar R] {op : ArithOp} {a b : Int64} {q : Rat}

/-- How an operation on integers turns out whose exact result is a number: an integer if 64 bits hold it, an
overflow if they do not, and no integer if it is none. -/
inductive Settles (q : Rat) : Result R (Value R) → Prop
  | held {n : Int64} (worth : (n.toInt : Rat) = q) : Settles q (.ok (.int n))
  | overflow {n : Int} (worth : (n : Rat) = q) (beyond : ∀ word : Int64, word.toInt ≠ n) :
      Settles q (.error (.mistyped .overflow))
  | between {m n : Int} (worth : (m / n : Rat) = q) (fraction : ∀ k : Int, (k : Rat) ≠ q) :
      Settles q (.ok (.num (Scalar.ofInt m / Scalar.ofInt n)))

theorem settles_integer {n : Int} (worth : (n : Rat) = q) : Settles q (integer n : Result R (Value R)) := by
  rw [integer]
  split
  · next word fits =>
    refine .held ?_
    rw [toInt_of_int64? fits, worth]
  · next unfit =>
    refine .overflow worth ?_
    rintro word rfl
    rw [int64?_toInt] at unfit
    cases unfit

theorem settles_negate (a : Int64) : Settles (-a.toInt) (negate (.int a) : Result R (Value R)) :=
  settles_integer (Int.cast_neg _)

theorem settles_abs (a : Int64) : Settles |(a.toInt : Rat)| (applyFunc .abs [.int a] : Result R (Value R)) := by
  refine settles_integer ?_
  rw [Int.natCast_natAbs, Int.cast_abs]

/-- Arithmetic on integers is exact or refused, save for the quotient of the least integer and minus one. -/
theorem settles_arithInt (finite : ¬ (op = .div ∧ a = Int64.minValue ∧ b = -1)) :
    (∀ q, op.result? a.toInt b.toInt = some q → Settles q (arithInt op a b : Result R (Value R))) ∧
      (op.result? a.toInt b.toInt = none → (arithInt op a b : Result R (Value R)) = .error (.mistyped .divisionByZero)) := by
  cases op with
  | add => exact ⟨fun q worth => settles_integer ((Int.cast_add ..).trans (Option.some.inj worth)), fun none => by cases none⟩
  | sub => exact ⟨fun q worth => settles_integer ((Int.cast_sub ..).trans (Option.some.inj worth)), fun none => by cases none⟩
  | mul => exact ⟨fun q worth => settles_integer ((Int.cast_mul ..).trans (Option.some.inj worth)), fun none => by cases none⟩
  | div =>
    rw [arithInt, ArithOp.result?]
    by_cases zero : b = 0
    · subst zero
      exact ⟨fun q worth => (by cases worth), fun _ => rfl⟩
    have nonzero : (b.toInt : Rat) ≠ 0 := by
      intro same
      exact zero (Int64.toInt_inj.1 (by exact_mod_cast same))
    rw [if_neg nonzero, if_neg zero, if_neg fun least => finite ⟨rfl, least⟩]
    refine ⟨fun q worth => ?_, fun none => by cases none⟩
    cases worth
    split
    · next divides => exact settles_integer (Int.cast_div divides nonzero)
    · next rest =>
      refine .between rfl fun k same => rest ⟨k, ?_⟩
      rw [eq_div_iff nonzero] at same
      rw [mul_comm]
      exact_mod_cast same.symm

/-- Evaluation stops exactly where it comes to the quotient of the least integer and minus one. Everywhere
else it has a value or an error, and an operation on integers comes to its exact result, is an overflow if 64
bits do not hold it, or a division by zero; a quotient is an integer exactly if there is no rest. -/
theorem eval_exact (env : Env R) :
    (∀ (e : Expr R) (reason : Abort),
      e.eval env = .error (.aborted reason) ↔ reason = .leastQuotient ∧ ReachesLeastQuotient env e) ∧
    (∀ (operand : Expr R) (a : Int64), operand.eval env = .ok (.int a) →
      Settles (-a.toInt) ((Expr.neg operand).eval env) ∧ Settles |(a.toInt : Rat)| ((Expr.call .abs [operand]).eval env)) ∧
    ∀ (op : ArithOp) (left right : Expr R) (a b : Int64), left.eval env = .ok (.int a) → right.eval env = .ok (.int b) →
      ¬ (op = .div ∧ a = Int64.minValue ∧ b = -1) →
      (∀ q, op.result? a.toInt b.toInt = some q → Settles q ((Expr.arith op left right).eval env)) ∧
        (op.result? a.toInt b.toInt = none →
          (Expr.arith op left right).eval env = .error (.mistyped .divisionByZero)) := by
  refine ⟨fun e reason => eval_aborted_iff, fun operand a evaluated => ?_,
    fun op left right a b first second finite => ?_⟩
  · rw [eval, eval, evalAll, evalAll, evaluated]
    exact ⟨settles_negate a, settles_abs a⟩
  · rw [eval, first, second]
    exact settles_arithInt finite

end

/-- Every name has one value. -/
def everywhere (n : Int64) : Env Rat := fun _ => some (.int n)

theorem eval_exact_at_seven :
    Settles (-7) ((Expr.neg (.var "x")).eval (everywhere 7)) ∧
      Settles (7 / 2) ((Expr.arith .div (.var "x") (.const (.int 2))).eval (everywhere 7)) ∧
      (Expr.arith .div (.var "x") (.const (.int 0))).eval (everywhere 7) = .error (.mistyped .divisionByZero) := by
  obtain ⟨_, unary, binary⟩ := eval_exact (everywhere 7)
  refine ⟨(unary (.var "x") 7 rfl).1, ?_, ?_⟩
  · exact (binary .div (.var "x") (.const (.int 2)) 7 2 rfl rfl (by decide)).1 _ rfl
  · exact (binary .div (.var "x") (.const (.int 0)) 7 0 rfl rfl (by decide)).2 rfl

/-- The least integer divided by minus one is worth a number that 64 bits do not hold, but evaluation stops
instead of saying so. -/
theorem eval_aborts_on_least : (∀ word : Int64, word.toInt ≠ 2 ^ 63) ∧
    ArithOp.div.result? Int64.minValue.toInt (Int64.toInt (-1)) = some (2 ^ 63) ∧
    (Expr.arith .div (.var "x") (.const (.int (-1)))).eval (everywhere Int64.minValue) =
      .error (.aborted .leastQuotient) := by
  refine ⟨fun word same => ?_, ?_, rfl⟩
  · have greatest := word.toInt_le
    rw [same, Int64.toInt_maxValue] at greatest
    omega
  · have one : Int64.toInt (-1) = -1 := rfl
    rw [Int64.toInt_minValue, one, ArithOp.result?]
    norm_num

end Expr

/-! ### Expressions -/

/-- Whether a comparison holds, a strict one being read as if it were not. -/
def CompareOp.Admits : CompareOp → Rat → Rat → Prop
  | .le, a, b => a ≤ b
  | .lt, a, b => a ≤ b
  | .ge, a, b => b ≤ a
  | .gt, a, b => b ≤ a
  | .eq, a, b => a = b
  | .ne, a, b => a ≠ b

namespace Expr

/-- What an arithmetic expression is worth. -/
def worth? (env : String → Option Rat) : Expr Rat → Option Rat
  | .const value => value.number?
  | .var name => env name
  | .neg operand => (operand.worth? env).map (-·)
  | .arith op left right => do op.result? (← left.worth? env) (← right.worth? env)
  | _ => none

/-- Whether comparisons, of which all have to hold, do. -/
def Admits (env : String → Option Rat) : Expr Rat → Prop
  | .logic .and left right => left.Admits env ∧ right.Admits env
  | .compare op left right => ∃ a b, left.worth? env = some a ∧ right.worth? env = some b ∧ op.Admits a b
  | _ => False

theorem Settles.number? {q : Rat} {v : Value Rat} (settles : Settles q (.ok v)) : v.number? = some q := by
  cases settles with
  | held worth => exact congrArg some worth
  | between worth _ => exact congrArg some worth

variable {env : Env Rat} {v left right : Value Rat} {op : ArithOp} {a b : Rat}

/-- Arithmetic on values is exact on what they are worth. -/
theorem number?_of_arithInt {m n : Int64} (done : arithInt op m n = .ok v) :
    v.number? = op.result? m.toInt n.toInt := by
  have finite : ¬ (op = .div ∧ m = Int64.minValue ∧ n = -1) := by
    rintro ⟨rfl, rfl, rfl⟩
    cases done
  obtain ⟨settles, undefined⟩ := settles_arithInt (R := Rat) finite
  rw [done] at settles undefined
  cases result : op.result? m.toInt n.toInt with
  | none => cases undefined result
  | some q => exact (settles q result).number?

theorem number?_of_negate (done : negate left = .ok v) (worth : left.number? = some a) : v.number? = some (-a) := by
  cases left with
  | int n =>
    have settles := settles_negate (R := Rat) n
    rw [done] at settles
    cases worth
    exact settles.number?
  | num x =>
    cases worth
    cases done
    rfl
  | bool _ => cases worth
  | sym _ => cases worth

theorem number?_of_arithNum (done : arithNum op a b = .ok v) : v.number? = op.result? a b := by
  cases op with
  | add | sub | mul =>
    cases done
    rfl
  | div =>
    rw [arithNum] at done
    split at done
    · cases done
    · next nonzero =>
      cases done
      rw [ArithOp.result?, if_neg (by simpa using nonzero)]
      rfl

theorem number?_of_number (done : number v = .ok a) : v.number? = some a := by
  rw [number] at done
  split at done
  · next found =>
    cases done
    exact found
  · cases done

theorem number?_of_applyArith (done : applyArith op left right = .ok v) (first : left.number? = some a)
    (second : right.number? = some b) : v.number? = op.result? a b := by
  unfold applyArith at done
  split at done
  · cases first
    cases second
    exact number?_of_arithInt done
  · obtain ⟨a', own, done⟩ := Lists.bind_eq_ok done
    obtain ⟨b', other, done⟩ := Lists.bind_eq_ok done
    cases (number?_of_number own).symm.trans first
    cases (number?_of_number other).symm.trans second
    exact number?_of_arithNum done

/-- An expression that has a value has the one that exact arithmetic gives it. -/
theorem number?_of_eval : (e : Expr Rat) → {v : Value Rat} → {a : Rat} → e.eval env = .ok v →
    e.worth? (fun name => (env name).bind Value.number?) = some a → v.number? = some a
  | .const value, v, a, done, worth => by
    rw [eval] at done
    cases done
    exact worth
  | .var name, v, a, done, worth => by
    rw [eval] at done
    split at done
    · next found =>
      cases done
      rwa [worth?, found] at worth
    · cases done
  | .neg operand, v, a, done, worth => by
    rw [eval] at done
    obtain ⟨inner, evaluated, done⟩ := Lists.bind_eq_ok done
    rw [worth?] at worth
    obtain ⟨b, own, rfl⟩ := Option.map_eq_some_iff.1 worth
    exact number?_of_negate done (number?_of_eval operand evaluated own)
  | .arith op left right, v, a, done, worth => by
    rw [eval] at done
    obtain ⟨first, evaluated, done⟩ := Lists.bind_eq_ok done
    obtain ⟨second, evaluated', done⟩ := Lists.bind_eq_ok done
    rw [worth?] at worth
    obtain ⟨b, own, worth⟩ := Option.bind_eq_some_iff.1 worth
    obtain ⟨c, other, worth⟩ := Option.bind_eq_some_iff.1 worth
    rw [number?_of_applyArith done (number?_of_eval left evaluated own) (number?_of_eval right evaluated' other), worth]
  | .not _, _, _, _, worth => by cases worth
  | .compare _ _ _, _, _, _, worth => by cases worth
  | .logic _ _ _, _, _, _, worth => by cases worth
  | .member _ _, _, _, _, worth => by cases worth
  | .call _ _, _, _, _, worth => by cases worth

end Expr

end Deliberation
