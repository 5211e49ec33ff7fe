import Deliberation.Fact.Basic
import Deliberation.Fact.Text

/-!
Rules: a conjunction of literals from which an atom follows. A rule is safe when each variable of
its consequent and of its negated literals also stands in a positive literal.
-/

namespace Deliberation

/-- An atom that follows from a conjunction of literals. -/
structure Rule where
  name : Option String
  antecedent : List Literal
  consequent : Atom
  deriving DecidableEq, Repr

inductive InferError where
  | stalled (passes bound : Nat) (facts : FactSet)
  | circularDependency (cycle : List Fact)
  | unsafeVariable (rule name : String)
  | openQuery (query : Atom)

def InferError.message : InferError → String
  | .stalled passes bound _ =>
    s!"forward chaining did not reach a fixpoint within {bound} passes ({passes} run)"
  | .circularDependency cycle =>
    let chain := Text.joinWith " -> " (cycle.map Fact.text)
    s!"circular proof dependency: {chain}"
  | .unsafeVariable rule name =>
    s!"unsafe rule '{rule}': variable ?{name} does not occur in a positive antecedent"
  | .openQuery query => s!"backward chaining query '{query.text}' must be ground"

namespace Rule

/-- How derivations and errors call a rule: by its name, or by its place in the list. -/
def label (rule : Rule) (place : Nat) : String := rule.name.getD s!"rule#{place}"

def positives (rule : Rule) : List Atom := Literal.positives rule.antecedent

/-- The atoms whose failure the antecedent asks for. -/
def negatives (rule : Rule) : List Atom := Literal.negatives rule.antecedent

/-- The variables of a conjunction of atoms that a safe rule has to bind: those of its consequent, then those
of its negated literals. -/
def needed (rule : Rule) : List String :=
  rule.consequent.vars ++ rule.negatives.flatMap Atom.vars

/-- The variables that the positive literals bind. -/
def bound (rule : Rule) : List String := rule.positives.flatMap Atom.vars

/-- Whether every needed variable is bound. -/
def Safe (rule : Rule) : Prop := ∀ name ∈ rule.needed, name ∈ rule.bound

instance (rule : Rule) : Decidable rule.Safe := inferInstanceAs (Decidable (∀ _ ∈ _, _))

/-- Refuses a rule for its first needed variable that is not bound. -/
def validate (rule : Rule) (place : Nat) : Except InferError Unit :=
  match rule.needed.find? (· ∉ rule.bound) with
  | some name => .error (.unsafeVariable (rule.label place) name)
  | none => .ok ()

/-- Refuses the first rule of a list that is not safe. -/
def validateAll (rules : List Rule) : Except InferError Unit :=
  rules.zipIdx.forM fun (rule, place) => rule.validate place

/-- The rules that conclude a predicate, with their places. -/
def concluding (rules : List Rule) (predicate : String) : List (Rule × Nat) :=
  rules.zipIdx.filter fun (rule, _) => rule.consequent.predicate = predicate

/-- The places of the rules that ask for a predicate. -/
def triggeredBy (rules : List Rule) (predicate : String) : List Nat :=
  (rules.zipIdx.filter fun (rule, _) => rule.positives.any (·.predicate = predicate)).map (·.2)

def constants (rule : Rule) : List String :=
  rule.consequent.constants ++ rule.antecedent.flatMap (·.atom.constants)

/-- The constants of facts and rules. -/
def vocabulary (facts : FactSet) (rules : List Rule) : OrdSet String :=
  facts.constants.insertAll (rules.flatMap constants)

end Rule

end Deliberation
