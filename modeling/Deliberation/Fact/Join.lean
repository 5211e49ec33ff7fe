import Deliberation.Fact.Basic

/-!
Conjunctions against a set of facts: the bindings under which every positive literal is a fact, and
those under which no negated literal is one.
-/

namespace Deliberation.Literal

/-- The bindings that extend given ones so that one atom is a fact. -/
def extensions (atom : Atom) (facts : FactSet) (bindings : Bindings) : List Bindings :=
  let pattern := atom.substitute bindings
  match pattern.ground? bindings with
  | some fact => if fact ∈ facts then [bindings] else []
  | none => (facts.withPredicate pattern.predicate).filterMap (pattern.match? · bindings)

/-- The bindings that extend `seed` so that every positive literal is a fact. -/
def joinPositive (literals : List Literal) (facts : FactSet) (seed : Bindings) : List Bindings :=
  (positives literals).foldl (fun frontier atom => frontier.flatMap (extensions atom facts)) [seed]

/-- Whether no atom is a fact, each in turn; unknown when one with an unbound variable is met before a fact is. -/
def noneHolds (facts : FactSet) (bindings : Bindings) : List Atom → Option Bool
  | [] => some true
  | atom :: rest =>
    match atom.ground? bindings with
    | none => none
    | some fact => if fact ∈ facts then some false else noneHolds facts bindings rest

/-- Whether every negated literal fails; unknown when one has an unbound variable. -/
def negationsHold (literals : List Literal) (facts : FactSet) (bindings : Bindings) : Option Bool :=
  noneHolds facts bindings (negatives literals)

/-- The bindings under which a whole conjunction holds. -/
def satisfyingBindings (literals : List Literal) (facts : FactSet) : List Bindings :=
  (joinPositive literals facts .empty).filter fun bindings =>
    negationsHold literals facts bindings == some true

end Deliberation.Literal
