import Deliberation.Abort
import Deliberation.Expr.Basic

/-!
The meaning of expressions. Integer operations are exact or refused; an integer divided by an
integer is an integer when the division leaves no rest. As a predicate, an expression holds, fails
or is undecided for want of a variable's value, and one that cannot be evaluated fails.
-/

namespace Deliberation

inductive TypeFault (R : Type) where
  | expectedBoolean (value : Value R)
  | expectedNumber (value : Value R)
  | overflow
  | cannotNegate (value : Value R)
  | divisionByZero
  | cannotOrder (left right : Value R)
  | argumentCount (func : Func) (expected actual : Nat)
  | noArguments (func : Func)

inductive EvalError (R : Type) where
  | unbound (name : String)
  | mistyped (fault : TypeFault R)
  | aborted (reason : Abort)

def TypeFault.message : TypeFault Float → String
  | .expectedBoolean value => s!"expected a boolean, got {value.text}"
  | .expectedNumber value => s!"expected a number, got {value.text}"
  | .overflow => "integer overflow"
  | .cannotNegate value => s!"cannot negate {value.text}"
  | .divisionByZero => "division by zero"
  | .cannotOrder left right => s!"cannot order {left.text} and {right.text}"
  | .argumentCount func expected actual => s!"{func.name} takes {expected} argument(s), got {actual}"
  | .noArguments func => s!"{func.name} needs arguments"

abbrev Env (R : Type) := String → Option (Value R)

namespace Expr

variable {R : Type} [Scalar R]

/-- The outcome of a step of evaluation. -/
abbrev Result (R α : Type) := Except (EvalError R) α

def boolean : Value R → Result R Bool
  | .bool b => .ok b
  | value => .error (.mistyped (.expectedBoolean value))

/-- What a number is worth. -/
def number (value : Value R) : Result R R :=
  match value.number? with
  | some x => .ok x
  | none => .error (.mistyped (.expectedNumber value))

/-- An integer of 64 bits, or an overflow. -/
def integer (n : Int) : Result R (Value R) :=
  match int64? n with
  | some word => .ok (.int word)
  | none => .error (.mistyped .overflow)

def arithInt (op : ArithOp) (a b : Int64) : Result R (Value R) :=
  match op with
  | .add => integer (a.toInt + b.toInt)
  | .sub => integer (a.toInt - b.toInt)
  | .mul => integer (a.toInt * b.toInt)
  | .div =>
    if b = 0 then .error (.mistyped .divisionByZero)
    else if a = Int64.minValue ∧ b = -1 then .error (.aborted .leastQuotient)
    else if b.toInt ∣ a.toInt then integer (a.toInt / b.toInt)
    else .ok (.num (Scalar.ofInt a.toInt / Scalar.ofInt b.toInt))

def arithNum (op : ArithOp) (a b : R) : Result R (Value R) :=
  match op with
  | .add => .ok (.num (a + b))
  | .sub => .ok (.num (a - b))
  | .mul => .ok (.num (a * b))
  | .div => if b == 0 then .error (.mistyped .divisionByZero) else .ok (.num (a / b))

/-- Arithmetic: exact on two integers, and on what its operands are worth otherwise. -/
def applyArith (op : ArithOp) : Value R → Value R → Result R (Value R)
  | .int a, .int b => arithInt op a b
  | left, right => do
    let a ← number left
    let b ← number right
    arithNum op a b

def order (left right : Value R) : Result R Ordering :=
  match left.compare? right with
  | some ordering => .ok ordering
  | none => .error (.mistyped (.cannotOrder left right))

/-- Comparison; equality has an answer for values of any kind. -/
def applyCompare (op : CompareOp) (left right : Value R) : Result R Bool :=
  match op with
  | .eq => .ok (left.looselyEq right)
  | .ne => .ok (!left.looselyEq right)
  | .lt => (order left right).map (·.isLT)
  | .le => (order left right).map (·.isLE)
  | .gt => (order left right).map (·.isGT)
  | .ge => (order left right).map (·.isGE)

/-- The first of the least or greatest values, which all have to be ordered. -/
def extremum (better : Ordering → Bool) (best : Value R) : List (Value R) → Result R (Value R)
  | [] => .ok best
  | value :: rest => do
    let ordering ← order value best
    extremum better (if better ordering then value else best) rest

/-- Whether no two values are loosely equal. -/
def allDifferent : List (Value R) → Bool
  | [] => true
  | value :: rest => !rest.any (value.looselyEq ·) && allDifferent rest

def applyFunc (func : Func) (args : List (Value R)) : Result R (Value R) :=
  match func, args with
  | .abs, [.int n] => integer n.toInt.natAbs
  | .abs, [value] => (number value).map fun x => .num (Scalar.abs x)
  | .abs, args => .error (.mistyped (.argumentCount .abs 1 args.length))
  | .min, first :: rest => extremum (·.isLT) first rest
  | .max, first :: rest => extremum (·.isGT) first rest
  | .min, [] => .error (.mistyped (.noArguments .min))
  | .max, [] => .error (.mistyped (.noArguments .max))
  | .allDifferent, args => .ok (.bool (allDifferent args))

def negate : Value R → Result R (Value R)
  | .int n => integer (-n.toInt)
  | .num x => .ok (.num (-x))
  | value => .error (.mistyped (.cannotNegate value))

/-- What the left operand alone makes of a connective, if it decides. -/
def shortCut? : LogicOp → Bool → Option Bool
  | .and, false => some false
  | .or, true => some true
  | .implies, false => some true
  | _, _ => none

mutual

/-- The value of an expression; the right operand of a connective counts only when the left one does not decide. -/
def eval (env : Env R) : Expr R → Result R (Value R)
  | .const value => .ok value
  | .var name =>
    match env name with
    | some value => .ok value
    | none => .error (.unbound name)
  | .neg operand => do
    let value ← operand.eval env
    negate value
  | .not operand => do
    let value ← operand.eval env
    let b ← boolean value
    return .bool !b
  | .arith op left right => do
    let a ← left.eval env
    let b ← right.eval env
    applyArith op a b
  | .compare op left right => do
    let a ← left.eval env
    let b ← right.eval env
    return .bool (← applyCompare op a b)
  | .logic op left right => do
    let value ← left.eval env
    let b ← boolean value
    match shortCut? op b with
    | some decided => return .bool decided
    | none =>
      let value ← right.eval env
      return .bool (← boolean value)
  | .member element set => do
    let value ← element.eval env
    return .bool (set.any (value.looselyEq ·))
  | .call func args => do
    let values ← evalAll env args
    applyFunc func values

def evalAll (env : Env R) : List (Expr R) → Result R (List (Value R))
  | [] => .ok []
  | e :: rest => do
    let value ← e.eval env
    let values ← evalAll env rest
    return value :: values

end

/-- Whether a predicate holds: undecided when a variable has no value, and false when its value is no truth
value or its operands do not fit. -/
def holds (env : Env R) (e : Expr R) : Except Abort (Option Bool) :=
  match e.eval env with
  | .ok (.bool b) => .ok (some b)
  | .ok _ => .ok (some false)
  | .error (.unbound _) => .ok none
  | .error (.mistyped _) => .ok (some false)
  | .error (.aborted reason) => .error reason

end Expr

end Deliberation
