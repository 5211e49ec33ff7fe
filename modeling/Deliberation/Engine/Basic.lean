import Deliberation.Constraint.Conflict
import Deliberation.Document.Basic
import Deliberation.Engine.Config
import Deliberation.Inference.Backward
import Deliberation.Planning.Replay

/-!
Queries about documents, and their answers. An engine is a configuration that was not refused; it
keeps nothing between queries, which read their options from the configuration alone.
-/

namespace Deliberation

/-- A configuration that passed its checks. -/
structure Engine where
  config : Config
  valid : config.validate = .ok ()

/-- A question about a document. An inference derives what it can, or proves a goal. -/
inductive Query where
  | infer (goal : Option Atom)
  | solve
  | plan
  | validatePlan (actions : List Action)
  | schedule
  | simulate
  | sensitivity (targets : List Target)
  | evaluate
  | risks

inductive QueryAnswer where
  | inference (inference : Inference)
  | proof (proof : Option Proof)
  | solution (solution : Solution Float)
  | plan (plan : Plan)
  | validPlan (final : FactSet)
  | schedule (schedule : Schedule Float)
  | simulation (summary : SimulationSummary Float)
  | sensitivity (reports : List (SensitivityReport Float))
  | evaluation (evaluation : Evaluation Float)
  | risks (report : RiskReport Float)

/-- Why a query has no answer. -/
inductive EngineError where
  | config (fault : ConfigFault)
  | missing (part : Section)
  | infer (error : InferError)
  | solve (error : SolveError Float)
  | plan (error : PlanError)
  | schedule (error : ScheduleError Float)
  | decide (error : DecideError Float)

def EngineError.message : EngineError → String
  | .config fault => s!"invalid configuration: {fault.message}"
  | .missing part => s!"document has no {part.name} section"
  | .infer error => error.message
  | .solve error => error.message
  | .plan error => error.message
  | .schedule error => error.message
  | .decide error => error.message

namespace Engine

def ofConfig (config : Config) : Except EngineError Engine :=
  match valid : config.validate with
  | .ok () => .ok ⟨config, valid⟩
  | .error fault => .error (.config fault)

def infer (config : Config) (doc : Document) : Except EngineError Inference :=
  (Inference.forwardChain doc.facts doc.rules config.maxPasses).mapError .infer

def prove (doc : Document) (goal : Atom) : Except EngineError (Option Proof) :=
  (Backward.prove goal doc.facts doc.rules).mapError .infer

/-- Refuses a document without a section. -/
def require (doc : Document) (part : Section) : Except EngineError Unit :=
  if doc.has part then .ok () else .error (.missing part)

def solve (config : Config) (doc : Document) : Except EngineError (Solution Float) := do
  require doc .vars
  (Deliberation.solve doc.vars doc.constraints doc.softConstraints config.solver).mapError .solve

/-- A plan for the goal of a document; a goal without facts is reached at once. -/
def plan (config : Config) (doc : Document) : Except EngineError Plan :=
  (PlanSearch.plan doc.planProblem config.planner).mapError .plan

/-- The state that given actions lead to. -/
def validatePlan (doc : Document) (actions : List Action) : Except EngineError FactSet :=
  (Plan.validate doc.initialState doc.goalState doc.operators actions).mapError .plan

def schedule (config : Config) (doc : Document) : Except EngineError (Schedule Float) := do
  require doc .activities
  (doc.scheduleProblem.solve config.scheduling).mapError .schedule

def simulate (config : Config) (doc : Document) : Except EngineError (SimulationSummary Float) := do
  require doc .activities
  Except.mapError .schedule do
    doc.scheduleProblem.validate
    let network ← Network.build doc.activities doc.precedence
    Simulation.simulate doc.activities network config.simulation

/-- How a document's schedule responds to changes. -/
def sensitivity (config : Config) (doc : Document) (targets : List Target) :
    Except EngineError (List (SensitivityReport Float)) := do
  require doc .activities
  (doc.scheduleProblem.sensitivity targets config.sensitivity config.scheduling).mapError .schedule

def evaluate (doc : Document) : Except EngineError (Evaluation Float) :=
  match doc.decisionTree with
  | some tree => tree.evaluate.mapError .decide
  | none => .error (.missing .decisionTree)

def risks (doc : Document) : Except EngineError (RiskReport Float) := do
  require doc .risks
  (Risk.assess doc.risks).mapError .decide

def run (engine : Engine) (doc : Document) : Query → Except EngineError QueryAnswer
  | .infer none => (infer engine.config doc).map .inference
  | .infer (some goal) => (prove doc goal).map .proof
  | .solve => (solve engine.config doc).map .solution
  | .plan => (plan engine.config doc).map .plan
  | .validatePlan actions => (validatePlan doc actions).map .validPlan
  | .schedule => (schedule engine.config doc).map .schedule
  | .simulate => (simulate engine.config doc).map .simulation
  | .sensitivity targets => (sensitivity engine.config doc targets).map .sensitivity
  | .evaluate => (evaluate doc).map .evaluation
  | .risks => (risks doc).map .risks

end Engine

end Deliberation
