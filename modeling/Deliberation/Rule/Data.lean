import Deliberation.Fact.Data
import Deliberation.Rule.Text

/-!
Rules in structured data: a rule is given as its text or in its parts.
-/

namespace Deliberation.Rule

def decodeText (data : Data) : Decoded Rule := do
  match parse (← Decode.text data) with
  | .ok rule => return rule
  | .error (.refused _) => Decode.refuse
  | .error (.aborted reason) => throw (.aborted reason)

def decodeParts (data : Data) : Decoded Rule := do
  let row ← Decode.Row.named [["name"], ["if", "when"], ["then"]] data
  return {
    name := ← row.optional "name" Decode.text
    antecedent := ← row.withDefault "if" (Decode.list Literal.decode) []
    consequent := ← row.required "then" Atom.decode }

/-- A rule from its text or from its parts. -/
def decode : Data → Decoded Rule := Decode.firstOf [decodeText, decodeParts]

def toData (rule : Rule) : Data :=
  .record (Data.optional "name" .text rule.name ++
    [("if", .texts (rule.antecedent.map Literal.text)), ("then", .text rule.consequent.text)])

end Deliberation.Rule
