import Deliberation.Decision.Risk
import Deliberation.Decision.Tree
import Deliberation.Planning.Problem
import Deliberation.Schedule.Problem

/-!
Documents: everything that a query can be about, in sections that may all be left out.
-/

namespace Deliberation

structure Document where
  facts : FactSet
  rules : List Rule
  vars : List (Variable Float)
  constraints : List (Constraint Float)
  softConstraints : List (Constraint Float)
  objects : List String
  operators : List Operator
  initialState : FactSet
  goalState : FactSet
  resources : List (Resource Float)
  activities : List (Activity Float)
  precedence : List Precedence
  objective : Objective Float
  scheduleConstraints : List (Constraint Float)
  decisionTree : Option (DecisionNode Float)
  risks : List (Risk Float)
  deriving BEq

/-- The sections of a document, in order. -/
inductive Section where
  | facts
  | rules
  | vars
  | constraints
  | softConstraints
  | objects
  | operators
  | initialState
  | goalState
  | resources
  | activities
  | precedence
  | objective
  | scheduleConstraints
  | decisionTree
  | risks
  deriving DecidableEq, Repr

namespace Section

def all : List Section :=
  [.facts, .rules, .vars, .constraints, .softConstraints, .objects, .operators, .initialState, .goalState,
    .resources, .activities, .precedence, .objective, .scheduleConstraints, .decisionTree, .risks]

def name : Section → String
  | .facts => "FACTS"
  | .rules => "RULES"
  | .vars => "VARIABLES"
  | .constraints => "CONSTRAINTS"
  | .softConstraints => "SOFT_CONSTRAINTS"
  | .objects => "OBJECTS"
  | .operators => "OPERATORS"
  | .initialState => "INITIAL_STATE"
  | .goalState => "GOAL_STATE"
  | .resources => "RESOURCES"
  | .activities => "ACTIVITIES"
  | .precedence => "PRECEDENCE"
  | .objective => "OBJECTIVE_FUNCTION"
  | .scheduleConstraints => "SCHEDULE_CONSTRAINTS"
  | .decisionTree => "DECISION_TREE"
  | .risks => "RISKS"

def ofName? (name : String) : Option Section := all.find? fun part => part.name = name

end Section

namespace Document

def empty : Document where
  facts := .empty
  rules := []
  vars := []
  constraints := []
  softConstraints := []
  objects := []
  operators := []
  initialState := .empty
  goalState := .empty
  resources := []
  activities := []
  precedence := []
  objective := .minimizeMakespan
  scheduleConstraints := []
  decisionTree := none
  risks := []

/-- Whether a section says anything. -/
def has (doc : Document) : Section → Bool
  | .facts => !doc.facts.isEmpty
  | .rules => !doc.rules.isEmpty
  | .vars => !doc.vars.isEmpty
  | .constraints => !doc.constraints.isEmpty
  | .softConstraints => !doc.softConstraints.isEmpty
  | .objects => !doc.objects.isEmpty
  | .operators => !doc.operators.isEmpty
  | .initialState => !doc.initialState.isEmpty
  | .goalState => !doc.goalState.isEmpty
  | .resources => !doc.resources.isEmpty
  | .activities => !doc.activities.isEmpty
  | .precedence => !doc.precedence.isEmpty
  | .objective => doc.objective.program?.isSome
  | .scheduleConstraints => !doc.scheduleConstraints.isEmpty
  | .decisionTree => doc.decisionTree.isSome
  | .risks => !doc.risks.isEmpty

/-- The sections that say anything, in order. -/
def sections (doc : Document) : List Section := Section.all.filter doc.has

def planProblem (doc : Document) : PlanProblem :=
  ⟨doc.initialState, doc.goalState, doc.operators, doc.objects, doc.rules⟩

def scheduleProblem (doc : Document) : ScheduleProblem Float :=
  ⟨doc.activities, doc.resources, doc.precedence, doc.objective, doc.scheduleConstraints⟩

/-- The document with one section taken from another. -/
def withSection (doc source : Document) : Section → Document
  | .facts => { doc with facts := source.facts }
  | .rules => { doc with rules := source.rules }
  | .vars => { doc with vars := source.vars }
  | .constraints => { doc with constraints := source.constraints }
  | .softConstraints => { doc with softConstraints := source.softConstraints }
  | .objects => { doc with objects := source.objects }
  | .operators => { doc with operators := source.operators }
  | .initialState => { doc with initialState := source.initialState }
  | .goalState => { doc with goalState := source.goalState }
  | .resources => { doc with resources := source.resources }
  | .activities => { doc with activities := source.activities }
  | .precedence => { doc with precedence := source.precedence }
  | .objective => { doc with objective := source.objective }
  | .scheduleConstraints => { doc with scheduleConstraints := source.scheduleConstraints }
  | .decisionTree => { doc with decisionTree := source.decisionTree }
  | .risks => { doc with risks := source.risks }

end Document

end Deliberation
