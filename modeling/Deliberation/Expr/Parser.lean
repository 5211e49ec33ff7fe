import Deliberation.Expr.Printer
import Deliberation.Expr.Token

/-!
Reading expressions. From loose to tight the levels are implication, or, and, not, comparison, sum,
product, sign and the primaries; sums and products group to the left, implications to the right, and
comparisons do not chain.
-/

namespace Deliberation

namespace Expr

/-- A reader takes tokens from the front; a fault comes with the tokens at whose front it is. -/
abbrev Reader := StateT (List Token) (Except (ExprFault × List Token))

namespace Reader

def fail {α : Type} (fault : ExprFault) : Reader α := do throw (fault, ← get)

/-- Takes one of some operators, if it comes next. -/
def operator? (choices : List String) : Reader (Option String) := fun tokens =>
  match tokens with
  | ⟨.op text, _, _⟩ :: rest => if text ∈ choices then .ok (some text, rest) else .ok (none, tokens)
  | _ => .ok (none, tokens)

/-- Takes a keyword in any letter case, if it comes next. -/
def keyword? (word : String) : Reader Bool := fun tokens =>
  match tokens with
  | ⟨.name text, _, _⟩ :: rest =>
    if Text.isWord word text.toList then .ok (true, rest) else .ok (false, tokens)
  | _ => .ok (false, tokens)

/-- Takes an operator that has to come next. -/
def expect (text : String) : Reader Unit := do
  match ← operator? [text] with
  | some _ => pure ()
  | none => fail (.expected text)

/-- Takes an operator or a keyword of the same meaning, if it comes next. -/
def connective? (sign word : String) : Reader Bool := do
  match ← operator? [sign] with
  | some _ => pure true
  | none => keyword? word

/-- How often a sign comes next; each time takes a token, so `bound` is how many tokens there are. -/
def countSigns (sign? : Reader Bool) : (bound : Nat) → Reader Nat
  | 0 => pure 0
  | bound + 1 => do
    if ← sign? then return (← countSigns sign? bound) + 1 else return 0

/-- Operands with operators between them, grouped to the left. -/
def chain {α β : Type} (operator? : Reader (Option β)) (operand : Reader α) (combine : β → α → α → α) :
    (bound : Nat) → α → Reader α
  | 0, left => pure left
  | bound + 1, left => do
    match ← operator? with
    | none => pure left
    | some op =>
      let right ← operand
      chain operator? operand combine bound (combine op left right)

/-- What follows an opening bracket: items with commas between them, up to the closing bracket; an item takes
a token at least, so `bound` is more than there are tokens. -/
def items {α : Type} (item : Reader α) (close : String) : (bound : Nat) → Reader (List α)
  | 0 => fail (.expected ",")
  | bound + 1 => do
    let first ← item
    match ← operator? [close] with
    | some _ => return [first]
    | none =>
      expect ","
      return first :: (← items item close bound)

/-- The items of a bracket that may hold none. -/
def bracketed {α : Type} (item : Reader α) (close : String) : Reader (List α) := do
  match ← operator? [close] with
  | some _ => return []
  | none => items item close ((← get).length + 1)

end Reader

open Reader

/-- The expression with its sign turned, where a constant takes the sign itself. -/
def turnSign : Expr Float → Expr Float
  | .const (.int n) => .const (.int (-n))
  | .const (.num x) => .const (.num (-x))
  | e => .neg e

/-- Constants, names, calls, and expressions in parentheses. -/
def primary (nested : Reader (Expr Float)) : Reader (Expr Float) := fun tokens =>
  match tokens with
  | [] => .error (.unexpectedEnd, tokens)
  | token :: rest =>
    match token.kind with
    | .int n => .ok (.const (.int n), rest)
    | .num x => .ok (.const (.num x), rest)
    | .sym name => .ok (.const (.sym name), rest)
    | .op "(" => (do
        let inner ← nested
        expect ")"
        return inner : Reader (Expr Float)) rest
    | .op text => .error (.unexpectedToken text, tokens)
    | .name "true" => .ok (.const (.bool true), rest)
    | .name "false" => .ok (.const (.bool false), rest)
    | .name name =>
      match rest with
      | ⟨.op "(", _, _⟩ :: inside =>
        match Func.ofName? name with
        | none => .error (.unknownFunction name, rest)
        | some func => (do return .call func (← bracketed nested ")") : Reader (Expr Float)) inside
      | _ => .ok (.var name, rest)

/-- A primary with any number of signs before it. -/
def signed (nested : Reader (Expr Float)) : Reader (Expr Float) := do
  let signs ← countSigns (do return (← operator? ["-"]).isSome) (← get).length
  let operand ← primary nested
  return Nat.repeat turnSign signs operand

/-- A chain of arithmetic operations of one level. -/
def arithmetic (operand : Reader (Expr Float)) (operations : List ArithOp) : Reader (Expr Float) := do
  let first ← operand
  let next? : Reader (Option ArithOp) := do
    match ← operator? (operations.map ArithOp.sign) with
    | none => return none
    | some sign => return operations.find? (·.sign == sign)
  chain next? operand .arith (← get).length first

/-- A product, or a quotient. -/
def product (nested : Reader (Expr Float)) : Reader (Expr Float) := arithmetic (signed nested) [.mul, .div]

/-- A sum, or a difference. -/
def additive (nested : Reader (Expr Float)) : Reader (Expr Float) := arithmetic (product nested) [.add, .sub]

/-- A member of a set: a constant, or a bare word for a symbol. -/
def setMember (nested : Reader (Expr Float)) : Reader (Value Float) := do
  match ← signed nested with
  | .const value => return value
  | .var name => return .sym name
  | other => fail (.setMember other.text)

/-- The comparison of a sign; equality has two signs. -/
def compareOp? : String → Option CompareOp
  | "==" => some .eq
  | "=" => some .eq
  | "!=" => some .ne
  | "<=" => some .le
  | ">=" => some .ge
  | "<" => some .lt
  | ">" => some .gt
  | _ => none

/-- At most one comparison of two sums, or the membership of a sum in a set. -/
def comparison (nested : Reader (Expr Float)) : Reader (Expr Float) := do
  let left ← additive nested
  if ← keyword? "in" then
    expect "\x7b"
    return .member left (← bracketed (setMember nested) "\x7d")
  match (← operator? ["==", "=", "!=", "<=", ">=", "<", ">"]).bind compareOp? with
  | none => return left
  | some op => return .compare op left (← additive nested)

/-- A comparison with any number of negations before it. -/
def negation (nested : Reader (Expr Float)) : Reader (Expr Float) := do
  let negations ← countSigns (connective? "!" "not") (← get).length
  let operand ← comparison nested
  return Nat.repeat .not negations operand

def connected (op : LogicOp) (word : String) (operand : Reader (Expr Float)) : Reader (Expr Float) := do
  let first ← operand
  let next? : Reader (Option LogicOp) := do
    if ← connective? op.sign word then return some op else return none
  chain next? operand .logic (← get).length first

/-- Alternatives of conjunctions. -/
def disjunction (nested : Reader (Expr Float)) : Reader (Expr Float) :=
  connected .or "or" (connected .and "and" (negation nested))

/-- Disjunctions with arrows between them, grouped to the right. -/
def implication (nested : Reader (Expr Float)) : (bound : Nat) → Reader (Expr Float)
  | 0 => disjunction nested
  | bound + 1 => do
    let left ← disjunction nested
    match ← operator? ["->", "=>"] with
    | none => return left
    | some _ => return .logic .implies left (← implication nested bound)

/-- An expression whose parentheses nest to a depth at most. -/
def reader : (depth : Nat) → Reader (Expr Float)
  | 0 => fail .unexpectedEnd
  | depth + 1 => do implication (reader depth) (← get).length

/-- The byte at which the first of some tokens stands, and the length of the text when there is none. -/
def placeOf (text : List Char) (tokens : List Token) : Nat :=
  match tokens with
  | [] => Text.byteLength text
  | token :: _ => token.start

/-- The expression that a text stands for, or a fault and the byte where it is. -/
def read (text : List Char) : Except (ExprFault × Nat) (Expr Float) := do
  let tokens ← Token.tokenize text
  match reader (tokens.length + 1) tokens with
  | .error (fault, rest) => .error (fault, placeOf text rest)
  | .ok (e, []) => .ok e
  | .ok (_, rest) => .error (.trailingInput, placeOf text rest)

def parse (text : String) : Except ParseError (Expr Float) :=
  (read text.toList).mapError fun (fault, offset) => ⟨text, .expression fault offset⟩

end Expr

end Deliberation
