import Deliberation.Expr.Eval
import Deliberation.Linear.Error

/-!
Linear forms: a constant and one coefficient for each column. Expressions that are sums of constant
multiples of variables become linear forms, and comparisons of such expressions become rows.
-/

namespace Deliberation

/-- The number `constant + Σ coefficient · x`. -/
structure LinearForm (R : Type) where
  coefficients : List R
  constant : R

/-- How the form of a row compares with its bound. -/
inductive Relation where
  | le
  | ge
  | eq
  deriving DecidableEq, Repr

/-- The demand that `Σ coefficient · x` compares with a bound. -/
structure LinearRow (R : Type) where
  coefficients : List R
  relation : Relation
  bound : R

/-- A relation read from the other side. -/
def Relation.flip : Relation → Relation
  | .le => .ge
  | .ge => .le
  | .eq => .eq

variable {R : Type} [Scalar R]

/-- The sum of products, as far as both lists go. -/
def dot (coefficients values : List R) : R := Scalar.sum (List.zipWith (· * ·) coefficients values)

namespace LinearForm

def const (width : Nat) (value : R) : LinearForm R := ⟨List.replicate width 0, value⟩

def isConst (form : LinearForm R) : Bool := form.coefficients.all (· == 0)

/-- The form times a number. -/
def scale (form : LinearForm R) (factor : R) : LinearForm R :=
  ⟨form.coefficients.map (· * factor), form.constant * factor⟩

def neg (form : LinearForm R) : LinearForm R := ⟨form.coefficients.map (-·), -form.constant⟩

def add (a b : LinearForm R) : LinearForm R :=
  ⟨List.zipWith (· + ·) a.coefficients b.coefficients, a.constant + b.constant⟩

def sub (a b : LinearForm R) : LinearForm R :=
  ⟨List.zipWith (· - ·) a.coefficients b.coefficients, a.constant - b.constant⟩

/-- What a form is worth when the columns have values. -/
def value (form : LinearForm R) (values : List R) : R := dot form.coefficients values + form.constant

end LinearForm

/-- The variables of a program, and the values of other names, which count as constants. -/
structure LinearScope (R : Type) where
  vars : List String
  metrics : Env R

namespace LinearScope

/-- How many coefficients a form has: one for each name. -/
def width (scope : LinearScope R) : Nat := scope.vars.eraseDups.length

/-- The column of a variable: where its name stands last. -/
def column? (scope : LinearScope R) (name : String) : Option Nat :=
  (scope.vars.zipIdx.reverse.find? (·.1 = name)).map (·.2)

def unit (scope : LinearScope R) (column : Nat) : Except (ProgramError R) (LinearForm R) :=
  if column < scope.width then .ok ⟨(List.replicate scope.width 0).set column 1, 0⟩
  else .error (.aborted .columnOutside)

/-- The form of a constant that an expression stands for. -/
def constant (scope : LinearScope R) (e : Expr R) (fault : LinearFault) (value : Value R) :
    Except (ProgramError R) (LinearForm R) :=
  match value.number? with
  | some x => .ok (.const scope.width x)
  | none => .error (.nonLinear e fault)

/-- The form of two forms that arithmetic joins in an expression: one factor of a product and the divisor of a
quotient have to be constant. -/
def combine (e : Expr R) (op : ArithOp) (a b : LinearForm R) : Except (ProgramError R) (LinearForm R) :=
  match op with
  | .add => .ok (a.add b)
  | .sub => .ok (a.sub b)
  | .mul =>
    if b.isConst then .ok (a.scale b.constant)
    else if a.isConst then .ok (b.scale a.constant)
    else .error (.nonLinear e .productOfVariables)
  | .div =>
    if b.isConst && !(b.constant == 0) then .ok (a.scale (1 / b.constant)) else .error (.nonLinear e .divisor)

def linear (scope : LinearScope R) (e : Expr R) : Except (ProgramError R) (LinearForm R) :=
  match e with
  | .const value => scope.constant e .constantNotNumeric value
  | .var name =>
    match scope.column? name with
    | some column => scope.unit column
    | none =>
      match scope.metrics name with
      | some value => scope.constant e .metricNotNumeric value
      | none => .error (.unknownVariable name)
  | .neg operand => do return (← scope.linear operand).neg
  | .arith op left right => do
    let a ← scope.linear left
    let b ← scope.linear right
    combine e op a b
  | _ => .error (.nonLinear e .unsupported)

/-- The relation of a comparison, where strict ones count as if they were not. -/
def relation (e : Expr R) : CompareOp → Except (ProgramError R) Relation
  | .le | .lt => .ok .le
  | .ge | .gt => .ok .ge
  | .eq => .ok .eq
  | .ne => .error (.nonLinear e .inequation)

/-- The rows of a predicate: comparisons that all have to hold. -/
def rows (scope : LinearScope R) (e : Expr R) : Except (ProgramError R) (List (LinearRow R)) :=
  match e with
  | .logic .and left right => do
    let first ← scope.rows left
    return first ++ (← scope.rows right)
  | .compare op left right => do
    let relation ← relation e op
    let difference := (← scope.linear left).sub (← scope.linear right)
    return [⟨difference.coefficients, relation, -difference.constant⟩]
  | _ => .error (.nonLinear e .noComparison)

end LinearScope

end Deliberation
