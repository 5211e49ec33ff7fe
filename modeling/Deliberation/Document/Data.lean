import Deliberation.Constraint.Data
import Deliberation.Decision.Data
import Deliberation.Document.Basic
import Deliberation.Planning.Data
import Deliberation.Rule.Data
import Deliberation.Schedule.Report

/-!
Documents in structured data: a record with an entry for each section.
-/

namespace Deliberation.Document

/-- The document in which a section holds what data says. -/
def readSection (doc : Document) (part : Section) (data : Data) : Decoded Document := do
  match part with
  | .facts => return { doc with facts := ← FactSet.decode data }
  | .rules => return { doc with rules := ← Decode.list Rule.decode data }
  | .vars => return { doc with vars := ← Variable.decodeAll data }
  | .constraints => return { doc with constraints := ← Decode.list Constraint.decode data }
  | .softConstraints => return { doc with softConstraints := ← Decode.list Constraint.decode data }
  | .objects => return { doc with objects := ← Decode.list Decode.text data }
  | .operators => return { doc with operators := ← Decode.list Operator.decode data }
  | .initialState => return { doc with initialState := ← FactSet.decode data }
  | .goalState => return { doc with goalState := ← FactSet.decode data }
  | .resources => return { doc with resources := ← Decode.list Resource.decode data }
  | .activities => return { doc with activities := ← Decode.list Activity.decode data }
  | .precedence => return { doc with precedence := ← Decode.list Precedence.decode data }
  | .objective => return { doc with objective := ← Objective.decode data }
  | .scheduleConstraints => return { doc with scheduleConstraints := ← Decode.list Constraint.decode data }
  | .decisionTree => return { doc with decisionTree := ← Decode.option DecisionNode.decode data }
  | .risks => return { doc with risks := ← Decode.list Risk.decode data }

/-- The document with the sections of entries besides those read before. They are read as they stand, each of
them once; other keys are passed over. -/
def readEntries (before : List Section) (doc : Document) : List (String × Data) → Decoded Document
  | [] => pure doc
  | (key, data) :: rest =>
    match Section.ofName? key with
    | none => readEntries before doc rest
    | some part =>
      if part ∈ before then Decode.refuse
      else do readEntries (part :: before) (← doc.readSection part data) rest

/-- A document: a record of its sections, or a list of them in order. -/
def decode : Data → Decoded Document :=
  Decode.inParts fun data =>
    match data with
    | .record entries => readEntries [] .empty entries
    | .list items => do
      let doc ← readEntries [] .empty ((Section.all.map Section.name).zip items)
      if items.length ≤ Section.all.length || (← read) == .lenient then return doc else Decode.refuse
    | _ => Decode.refuse

def sectionData (doc : Document) : Section → Data
  | .facts => doc.facts.toData
  | .rules => .list (doc.rules.map Rule.toData)
  | .vars => .list (doc.vars.map Variable.toData)
  | .constraints => .list (doc.constraints.map Constraint.toData)
  | .softConstraints => .list (doc.softConstraints.map Constraint.toData)
  | .objects => .texts doc.objects
  | .operators => .list (doc.operators.map Operator.toData)
  | .initialState => doc.initialState.toData
  | .goalState => doc.goalState.toData
  | .resources => .list (doc.resources.map Resource.toData)
  | .activities => .list (doc.activities.map Activity.toData)
  | .precedence => .list (doc.precedence.map Precedence.toData)
  | .objective => doc.objective.toData
  | .scheduleConstraints => .list (doc.scheduleConstraints.map Constraint.toData)
  | .decisionTree => .orNull DecisionNode.toData doc.decisionTree
  | .risks => .list (doc.risks.map Risk.toData)

/-- Whether a section is written: variables, objects and the decision tree only if they say anything. -/
def isWritten (doc : Document) : Section → Bool
  | .vars => doc.has .vars
  | .objects => doc.has .objects
  | .decisionTree => doc.has .decisionTree
  | _ => true

def toData (doc : Document) : Data :=
  .record ((Section.all.filter doc.isWritten).map fun part => (part.name, doc.sectionData part))

end Deliberation.Document
