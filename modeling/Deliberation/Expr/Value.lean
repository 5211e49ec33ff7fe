import Deliberation.Number.Decimal
import Deliberation.Number.Scalar

/-!
The values of expressions: truth values, 64-bit integers, numbers and symbols. Integers and numbers
compare by what they are worth.
-/

namespace Deliberation

/-- A truth value, an integer, a number or a symbol. -/
inductive Value (R : Type) where
  | bool (b : Bool)
  | int (n : Int64)
  | num (x : R)
  | sym (name : String)
  deriving BEq, Repr

/-- The 64-bit integer of this worth, if there is one. -/
def int64? (n : Int) : Option Int64 :=
  if Int64.minValue.toInt ≤ n ∧ n ≤ Int64.maxValue.toInt then some (Int64.ofInt n) else none

namespace Value

variable {R : Type} [Scalar R]

/-- What an integer or a number is worth. -/
def number? : Value R → Option R
  | .int n => some (Scalar.ofInt n.toInt)
  | .num x => some x
  | _ => none

/-- Equality up to the kind of number: two integers compare exactly, an integer and a number by worth. -/
def looselyEq : Value R → Value R → Bool
  | .int a, .int b => a == b
  | .int a, .num b => Scalar.ofInt a.toInt == b
  | .num a, .int b => a == Scalar.ofInt b.toInt
  | .num a, .num b => a == b
  | .bool a, .bool b => a == b
  | .sym a, .sym b => a == b
  | _, _ => false

/-- How two numbers, two symbols or two truth values compare; values of different kinds do not. -/
def compare? : Value R → Value R → Option Ordering
  | .int a, .int b => some (compare a b)
  | .int a, .num b => Scalar.compare? (Scalar.ofInt a.toInt) b
  | .num a, .int b => Scalar.compare? a (Scalar.ofInt b.toInt)
  | .num a, .num b => Scalar.compare? a b
  | .sym a, .sym b => some (compare a b)
  | .bool a, .bool b => some (compare a b)
  | _, _ => none

def text : Value Float → String
  | .bool true => "true"
  | .bool false => "false"
  | .int n => toString n.toInt
  | .num x => Decimal.plain x
  | .sym name => name

end Value

end Deliberation
