import Deliberation.Fact.Data
import Deliberation.Inference.Backward
import Deliberation.Inference.Forward

/-!
Inferences and proofs as structured data.
-/

namespace Deliberation

def Derivation.toData (derivation : Derivation) : Data :=
  .record [("fact", .text derivation.fact.text), ("rule", .text derivation.rule),
    ("pass", .nat derivation.pass), ("premises", Fact.listData derivation.premises)]

/-- The facts of an inference, its derivations and its number of passes. -/
def Inference.toData (inference : Inference) : Data :=
  .record [("facts", inference.facts.toData), ("derived", .list (inference.derived.map Derivation.toData)),
    ("passes", .nat inference.passes)]

namespace Proof

mutual

/-- The goal of a proof and how it is justified. -/
def toData : Proof → Data
  | .asserted goal => .record [("goal", .text goal.text), ("justification", .record [("kind", .text "asserted")])]
  | .rule goal label premises absent =>
    .record [("goal", .text goal.text),
      ("justification", .record [("kind", .text "rule"), ("rule", .text label),
        ("premises", .list (listData premises)), ("absent", Fact.listData absent)])]

def listData : List Proof → List Data
  | [] => []
  | proof :: rest => proof.toData :: listData rest

end

end Proof

end Deliberation
