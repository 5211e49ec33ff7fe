import Deliberation.Abort
import Deliberation.Rule.Basic

/-!
The text form of rules, as in IF bird(?x) AND not penguin(?x) THEN flies(?x). The word IF may be
left out, an arrow may stand for THEN and an ampersand for AND, and keywords have no letter case.
-/

namespace Deliberation

inductive RuleError where
  | refused (error : ParseError)
  | aborted (reason : Abort)

namespace Rule

def render (rule : Rule) : List Char :=
  "IF ".toList ++ Text.join " AND " (rule.antecedent.map Literal.render) ++ " THEN ".toList ++
    rule.consequent.render

def text (rule : Rule) : String := String.ofList rule.render

/-- The antecedent without the word IF, which is looked for in its first three bytes. -/
def dropIf (body : List Char) : Except RuleError (List Char) :=
  if Text.byteLength body < 3 then .ok body
  else
    match Text.splitAtByte? 3 body with
    | none => .error (.aborted .splitCharacter)
    | some (start, rest) => .ok (if Text.isWord "IF " start then rest else body)

/-- The literals of a conjunction; a conjunction may end in a separator. Each separator shortens the text, so
its length bounds the number of literals. -/
def readConjunction : (bound : Nat) → List Char → Except ParseError (List Literal)
  | 0, _ => .ok []
  | bound + 1, text =>
    if text.isEmpty then .ok []
    else do
      let (part, rest) := (Text.cutAtFirst? [" AND ", "&&", "&"] text).getD (text, [])
      let literal ← Literal.read part
      let literals ← readConjunction bound (Text.trim rest)
      pure (literal :: literals)

def parse (text : String) : Except RuleError Rule := do
  match Text.cutAtFirst? [" THEN ", "->", "=>"] (Text.trim text.toList) with
  | none => .error (.refused ⟨text, .missingConsequent⟩)
  | some (body, head) =>
    let body ← dropIf (Text.trim body)
    let body := Text.trim body
    let antecedent ← (readConjunction body.length body).mapError .refused
    let consequent ← (Literal.read head).mapError .refused
    if consequent.negated then .error (.refused ⟨text, .negatedConsequent⟩)
    else .ok ⟨none, antecedent, consequent.atom⟩

end Rule

end Deliberation
