import Deliberation.Fact.Join
import Deliberation.Rule.Basic

/-!
Forward chaining: rules add the facts that they conclude until a pass adds none. A pass runs through
the rules in order, and a fact counts from the moment of its derivation. A rule rests until one of
its positive predicates gains a fact.
-/

namespace Deliberation

/-- A fact that a rule added, the pass in which it did, and the facts that matched its positive literals. -/
structure Derivation where
  fact : Fact
  rule : String
  pass : Nat
  premises : List Fact
  deriving DecidableEq, Repr

/-- A set of facts closed under rules, and how it came about. -/
structure Inference where
  facts : FactSet
  derived : List Derivation
  passes : Nat

namespace Inference

def derivedFacts (inference : Inference) : FactSet := .ofList (inference.derived.map Derivation.fact)

def derivationOf? (inference : Inference) (fact : Fact) : Option Derivation :=
  inference.derived.find? (·.fact = fact)

/-- The greatest count of passes: words have 64 bits. -/
def greatestBound : Nat := UInt64.size - 1

/-- How many facts rules can add at most: one for each way to bind the variables of a consequent. -/
def possibleFacts (facts : FactSet) (rules : List Rule) : Nat :=
  let constants := max 1 (Rule.vocabulary facts rules).size
  rules.foldl (fun n rule => n + Nat.pow constants rule.consequent.vars.length) facts.size

/-- A number of passes that add a fact, at least as great as any run has. -/
def passBound (facts : FactSet) (rules : List Rule) : Nat :=
  min greatestBound (max 1 rules.length * max 1 (possibleFacts facts rules))

/-- The facts so far, the derivations in order, and the places of the rules that are not at rest. -/
structure Saturation where
  facts : FactSet
  derived : List Derivation
  awake : OrdSet Nat

/-- Adds what a rule concludes under bindings, unless that is a fact or a negated literal has become one. -/
def fire (rules : List Rule) (rule : Rule) (place pass : Nat) (state : Saturation) (bindings : Bindings) :
    Saturation :=
  match rule.consequent.ground? bindings with
  | none => state
  | some fact =>
    if fact ∈ state.facts then state
    else if (rule.negatives.filterMap (·.ground? bindings)).any (· ∈ state.facts) then state
    else
      { facts := state.facts.insert fact
        derived := state.derived ++
          [⟨fact, rule.label place, pass, rule.positives.filterMap (·.ground? bindings)⟩]
        awake := state.awake.insertAll (Rule.triggeredBy rules fact.predicate) }

/-- Evaluates a rule against the facts as they stand when it starts, and puts it to rest. -/
def evaluate (rules : List Rule) (pass : Nat) (state : Saturation) (rule : Rule) (place : Nat) : Saturation :=
  (Literal.satisfyingBindings rule.antecedent state.facts).foldl (fire rules rule place pass)
    { state with awake := state.awake.erase place }

/-- One pass over the rules in order, in which those at rest are left out. -/
def runPass (rules : List Rule) (pass : Nat) (state : Saturation) : Saturation :=
  rules.zipIdx.foldl (fun state (rule, place) =>
    if place ∈ state.awake then evaluate rules pass state rule place else state) state

/-- Whether a pass added nothing. -/
def Settled (before after : Saturation) : Prop := after.derived.length = before.derived.length

instance (before after : Saturation) : Decidable (Settled before after) :=
  inferInstanceAs (Decidable (_ = _))

/-- Passes until one adds nothing, of which at most `remaining` may add a fact. -/
def saturate (rules : List Rule) (bound : Nat) : (remaining pass : Nat) → Saturation →
    Except InferError Inference
  | 0, pass, state =>
    let next := runPass rules pass state
    if Settled state next then .ok ⟨next.facts, next.derived, pass⟩
    else .error (.stalled pass bound next.facts)
  | remaining + 1, pass, state =>
    let next := runPass rules pass state
    if Settled state next then .ok ⟨next.facts, next.derived, pass⟩
    else saturate rules bound remaining (pass + 1) next

/-- The closure of facts under safe rules, unless more passes than `maxPasses` add a fact. -/
def forwardChain (facts : FactSet) (rules : List Rule) (maxPasses : Option Nat) :
    Except InferError Inference := do
  Rule.validateAll rules
  let natural := passBound facts rules
  let bound := (maxPasses.map (min · natural)).getD natural
  saturate rules bound bound 1 ⟨facts, [], .ofList (List.range rules.length)⟩

end Inference

end Deliberation
