/-!
The arithmetic of durations, capacities, weights, probabilities and utilities. The program computes
with IEEE doubles; every algorithm is written over this class, so that it can also be read over the
exact rationals.
-/

namespace Deliberation

/-- A number type with field operations, comparisons and the few roundings that the algorithms use. -/
class Scalar (R : Type) extends Zero R, One R, Add R, Sub R, Mul R, Div R, Neg R, LT R, LE R, BEq R,
    OfScientific R where
  /-- The number nearest to an integer. -/
  ofInt : Int → R
  decLt : DecidableLT R
  decLe : DecidableLE R
  /-- Neither infinite nor undefined. -/
  isFinite : R → Bool
  /-- A total order that extends `≤`; it sorts. -/
  sortsBefore : R → R → Bool
  /-- The least whole number that is not below, and zero for negative numbers. -/
  ceilNat : R → Nat
  /-- The greatest whole number that is not above, and zero for negative numbers. -/
  floorNat : R → Nat

namespace Scalar

variable {R : Type} [Scalar R]

instance : DecidableLT R := decLt

instance : DecidableLE R := decLe

/-- The number nearest to a natural number. -/
def ofNat (n : Nat) : R := ofInt n

/-- The greater of two numbers; an undefined one gives way to the other. -/
def max (a b : R) : R := if a < b then b else if a == a then a else b

/-- The smaller of two numbers; an undefined one gives way to the other. -/
def min (a b : R) : R := if b < a then b else if a == a then a else b

def abs (a : R) : R := if a < 0 then -a else if a == 0 then 0 else a

/-- The sum from left to right. -/
def sum (l : List R) : R := l.foldl (· + ·) 0

/-- How two numbers compare, if both are defined. -/
def compare? (a b : R) : Option Ordering :=
  if a < b then some .lt else if b < a then some .gt else if a == b then some .eq else none

def sort (l : List R) : List R := l.mergeSort sortsBefore

/-- The first of the elements whose key sorts before all others. -/
def leastBy? {α : Type} (key : α → R) : List α → Option α
  | [] => none
  | a :: rest =>
    match leastBy? key rest with
    | some b => some (if sortsBefore (key a) (key b) then a else b)
    | none => some a

end Scalar

/-- The order of doubles by sign and magnitude, in which a negative zero comes before a positive one and
undefined numbers stand at the ends. -/
def doubleSortKey (x : Float) : Int :=
  let bits := x.toBits.toNat
  if bits < 0x8000000000000000 then bits else -(bits - 0x8000000000000000 : Int) - 1

instance : Scalar Float where
  zero := 0.0
  one := 1.0
  ofInt := Float.ofInt
  decLt := inferInstance
  decLe := inferInstance
  isFinite := Float.isFinite
  sortsBefore a b := decide (doubleSortKey a ≤ doubleSortKey b)
  ceilNat x := x.ceil.toUInt64.toNat
  floorNat x := x.toUInt64.toNat

instance : Scalar Rat where
  zero := 0
  one := 1
  ofInt n := (n : Rat)
  decLt := inferInstance
  decLe := inferInstance
  isFinite _ := true
  sortsBefore a b := decide (a ≤ b)
  ceilNat x := x.ceil.toNat
  floorNat x := x.floor.toNat

end Deliberation
