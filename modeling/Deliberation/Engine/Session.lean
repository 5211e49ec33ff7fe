import Deliberation.Engine.Basic

/-!
Sessions: an engine at work on one document, which changes by what is found. A step that fails
leaves the session as it was, except that a patch keeps what it changed before the section that
stopped it.
-/

namespace Deliberation

structure Session where
  engine : Engine
  doc : Document

/-- Whether a patch may replace a section. -/
def Section.isPatchable : Section → Bool
  | .facts | .rules | .vars | .constraints | .softConstraints | .resources | .activities | .precedence
  | .objective | .scheduleConstraints | .decisionTree | .risks => true
  | .objects | .operators | .initialState | .goalState => false

namespace Session

/-- Adds what the facts lead to, and tells which facts are new. -/
def absorb (session : Session) : Except EngineError (Session × FactSet) := do
  let inference ← Engine.infer session.engine.config session.doc
  return ({ session with doc.facts := inference.facts }, inference.derivedFacts)

/-- The facts that a proof of a goal rests on; none if there is no proof. -/
def support (session : Session) (goal : Atom) : Except EngineError FactSet :=
  (Engine.prove session.doc goal).map fun
    | some proof => proof.facts
    | none => .empty

/-- Moves to the final state of a plan, and tells its actions. -/
def advance (session : Session) : Except EngineError (Session × List Action) := do
  let plan ← Engine.plan session.engine.config session.doc
  return ({ session with doc.initialState := plan.finalState }, plan.actions)

/-- Replaces sections by what another document says in them, in order, up to the first section that no patch
may replace, which is told. -/
def patch (session : Session) (source : Document) : Session × Option Section :=
  let replaced := source.sections.takeWhile Section.isPatchable
  ({ session with doc := replaced.foldl (·.withSection source ·) session.doc },
    source.sections.find? (!·.isPatchable))

end Session

end Deliberation
