import Deliberation.Expr.Basic
import Deliberation.Text.Cut

/-!
The text of expressions. Parentheses stand only where an operand binds less tightly than its place
asks for.
-/

namespace Deliberation

def ArithOp.sign : ArithOp → String
  | .add => "+"
  | .sub => "-"
  | .mul => "*"
  | .div => "/"

def CompareOp.sign : CompareOp → String
  | .eq => "=="
  | .ne => "!="
  | .lt => "<"
  | .le => "<="
  | .gt => ">"
  | .ge => ">="

def LogicOp.sign : LogicOp → String
  | .and => "&&"
  | .or => "||"
  | .implies => "->"

/-- The text of a value in an expression: symbols are quoted, and a number shows that it is no integer. -/
def Value.literal : Value Float → String
  | .sym name => "\"" ++ name ++ "\""
  | .num x => Decimal.literal x
  | value => value.text

namespace Expr

/-- How tightly an expression holds together; the tightest are names, constants and calls. -/
def precedence {R : Type} : Expr R → Nat
  | .logic .implies _ _ => 1
  | .logic .or _ _ => 2
  | .logic .and _ _ => 3
  | .not _ => 4
  | .compare _ _ _ => 5
  | .member _ _ => 5
  | .arith .add _ _ => 6
  | .arith .sub _ _ => 6
  | .arith .mul _ _ => 7
  | .arith .div _ _ => 7
  | .neg _ => 8
  | .const _ => 9
  | .var _ => 9
  | .call _ _ => 9

/-- A text in parentheses, if they are needed. -/
def parenthesize (needed : Bool) (text : List Char) : List Char :=
  if needed then '(' :: text ++ [')'] else text

/-- Two operands with a sign between them. -/
def infixText (left : List Char) (sign : String) (right : List Char) : List Char :=
  left ++ ' ' :: sign.toList ++ ' ' :: right

mutual

def render : Expr Float → List Char
  | .const value => value.literal.toList
  | .var name => name.toList
  | .neg operand => '-' :: parenthesize (operand.precedence < 8) operand.render
  | .not operand => '!' :: parenthesize (operand.precedence < 5) operand.render
  | .arith op left right =>
    let level := (arith op left right).precedence
    infixText (parenthesize (left.precedence < level) left.render) op.sign
      (parenthesize (right.precedence < level + 1) right.render)
  | .compare op left right =>
    infixText (parenthesize (left.precedence < 6) left.render) op.sign
      (parenthesize (right.precedence < 6) right.render)
  | .logic .implies left right =>
    infixText (parenthesize (left.precedence < 2) left.render) LogicOp.implies.sign
      (parenthesize (right.precedence < 1) right.render)
  | .logic op left right =>
    let level := (logic op left right).precedence
    infixText (parenthesize (left.precedence < level) left.render) op.sign
      (parenthesize (right.precedence < level + 1) right.render)
  | .member element set =>
    infixText (parenthesize (element.precedence < 6) element.render) "in"
      ('\x7b' :: Text.join ", " (set.map (·.literal.toList)) ++ ['\x7d'])
  | .call func args => func.name.toList ++ '(' :: Text.join ", " (renderAll args) ++ [')']

def renderAll : List (Expr Float) → List (List Char)
  | [] => []
  | e :: rest => e.render :: renderAll rest

end

def text (e : Expr Float) : String := String.ofList e.render

end Expr

end Deliberation
