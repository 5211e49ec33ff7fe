import Deliberation.Expr.Value
import Deliberation.ParseError
import Deliberation.Text.Cut

/-!
The tokens of expressions: numbers, quoted symbols, names and operators. A token knows the bytes of
the text that it covers; between tokens there is only blank ASCII.
-/

namespace Deliberation

inductive Token.Kind where
  | int (n : Int64)
  | num (x : Float)
  | sym (name : String)
  | name (name : String)
  | op (text : String)
  deriving BEq, Repr

/-- A token, and the bytes from `start` to before `stop` that it covers. -/
structure Token where
  kind : Token.Kind
  start : Nat
  stop : Nat
  deriving BEq, Repr

namespace Token

/-- The operators; where two fit, the one named first is taken. -/
def operators : List String :=
  ["->", "=>", "==", "!=", "<=", ">=", "&&", "||", "<", ">", "=", "!", "+", "-", "*", "/", "(", ")",
    "\x7b", "\x7d", ","]

def isSpace (c : Char) : Bool := c ∈ [' ', '\t', '\n', '\x0c', '\r']

def isNumeric (c : Char) : Bool := c.isDigit || c == '.'

/-- The characters that a name starts with. -/
def startsName (c : Char) : Bool := c.isAlpha || c == '_'

def continuesName (c : Char) : Bool := c.isAlphanum || c == '_' || c == '.'

/-- The number that digits and points write: an integer of 64 bits, or a number with one point. -/
def readNumber (text : List Char) : Except ExprFault Kind :=
  match Text.splitOn '.' text with
  | [digits] =>
    match int64? (Decimal.digitValue digits) with
    | some n => .ok (.int n)
    | none => .error (.invalidNumber (String.ofList text))
  | [before, after] => .ok (.num (Decimal.nearest before after 0))
  | _ => .error (.invalidNumber (String.ofList text))

/-- The first token of a text that starts with no blank, the characters that it covers, and the rest. -/
def lexeme (first : Char) (rest : List Char) : Except ExprFault (Kind × List Char × List Char) :=
  let text := first :: rest
  if first.isDigit then do
    let covered := text.takeWhile isNumeric
    let kind ← readNumber covered
    return (kind, covered, text.dropWhile isNumeric)
  else if startsName first then
    let covered := text.takeWhile continuesName
    .ok (.name (String.ofList covered), covered, text.dropWhile continuesName)
  else if first = '"' ∨ first = '\'' then
    let inner := rest.takeWhile (· ≠ first)
    match rest.dropWhile (· ≠ first) with
    | [] => .error .unterminatedString
    | close :: after => .ok (.sym (String.ofList inner), first :: inner ++ [close], after)
  else
    match operators.find? (·.toList.isPrefixOf text) with
    | some op => .ok (.op op, op.toList, text.drop op.length)
    | none => .error (.unexpectedCharacter first)

/-- The tokens of a text that starts at byte `offset`. A token or a blank covers a character at least, so the
length of the text bounds the steps. -/
def scan : (steps offset : Nat) → List Char → Except (ExprFault × Nat) (List Token)
  | 0, _, _ => .ok []
  | _ + 1, _, [] => .ok []
  | steps + 1, offset, first :: rest =>
    if isSpace first then scan steps (offset + 1) rest
    else
      match lexeme first rest with
      | .error fault => .error (fault, offset)
      | .ok (kind, covered, after) => do
        let stop := offset + Text.byteLength covered
        let tokens ← scan steps stop after
        return ⟨kind, offset, stop⟩ :: tokens

/-- The tokens of a text, or a fault and the byte where it is. -/
def tokenize (text : List Char) : Except (ExprFault × Nat) (List Token) := scan text.length 0 text

end Token

end Deliberation
