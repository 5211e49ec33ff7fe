import Deliberation.Expr.Value

/-!
Expressions over variables: arithmetic, comparison, logic, membership in a finite set and four
functions.
-/

namespace Deliberation

inductive ArithOp where
  | add
  | sub
  | mul
  | div
  deriving DecidableEq, Repr

inductive CompareOp where
  | eq
  | ne
  | lt
  | le
  | gt
  | ge
  deriving DecidableEq, Repr

inductive LogicOp where
  | and
  | or
  | implies
  deriving DecidableEq, Repr

inductive Func where
  | abs
  | min
  | max
  | allDifferent
  deriving DecidableEq, Repr

inductive Expr (R : Type) where
  | const (value : Value R)
  | var (name : String)
  | neg (operand : Expr R)
  | not (operand : Expr R)
  | arith (op : ArithOp) (left right : Expr R)
  | compare (op : CompareOp) (left right : Expr R)
  | logic (op : LogicOp) (left right : Expr R)
  | member (element : Expr R) (set : List (Value R))
  | call (func : Func) (args : List (Expr R))
  deriving Inhabited

def Func.name : Func → String
  | .abs => "abs"
  | .min => "min"
  | .max => "max"
  | .allDifferent => "all_different"

/-- The function of a name; one has a short name besides its own. -/
def Func.ofName? : String → Option Func
  | "abs" => some .abs
  | "min" => some .min
  | "max" => some .max
  | "all_different" => some .allDifferent
  | "alldiff" => some .allDifferent
  | _ => none

namespace Expr

variable {R : Type}

mutual

/-- The variables at all the places where one stands, from left to right. -/
def mentions : Expr R → List String
  | .const _ => []
  | .var name => [name]
  | .neg operand => operand.mentions
  | .not operand => operand.mentions
  | .arith _ left right => left.mentions ++ right.mentions
  | .compare _ left right => left.mentions ++ right.mentions
  | .logic _ left right => left.mentions ++ right.mentions
  | .member element _ => element.mentions
  | .call _ args => mentionsOf args

def mentionsOf : List (Expr R) → List String
  | [] => []
  | e :: rest => e.mentions ++ mentionsOf rest

end

/-- The variables, in the order in which they first appear. -/
def vars (e : Expr R) : List String := e.mentions.eraseDups

variable [BEq R]

mutual

/-- Whether two expressions are the same tree, numbers being compared as numbers. -/
def same : Expr R → Expr R → Bool
  | .const v, .const w => v == w
  | .var v, .var w => v == w
  | .neg a, .neg b => a.same b
  | .not a, .not b => a.same b
  | .arith op a b, .arith op' a' b' => op == op' && a.same a' && b.same b'
  | .compare op a b, .compare op' a' b' => op == op' && a.same a' && b.same b'
  | .logic op a b, .logic op' a' b' => op == op' && a.same a' && b.same b'
  | .member a set, .member b set' => a.same b && set == set'
  | .call f args, .call f' args' => f == f' && sameAll args args'
  | _, _ => false

def sameAll : List (Expr R) → List (Expr R) → Bool
  | [], [] => true
  | a :: as, b :: bs => a.same b && sameAll as bs
  | _, _ => false

end

instance : BEq (Expr R) := ⟨same⟩

end Expr

end Deliberation
