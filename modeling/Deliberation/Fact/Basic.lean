import Deliberation.NameMap
import Deliberation.OrdSet

/-!
Ground facts, and the patterns over them: a term is a constant or a variable, an atom applies a
predicate to terms, a literal is an atom or its negation. Bindings give variables their constants.
-/

namespace Deliberation

structure Fact where
  predicate : String
  args : List String
  deriving DecidableEq, Hashable, Repr, Inhabited

/-- A constant, or a variable named without its question mark. -/
inductive Term where
  | const (name : String)
  | var (name : String)
  deriving DecidableEq, Repr

structure Atom where
  predicate : String
  terms : List Term
  deriving DecidableEq, Repr

/-- An atom that has to hold, or one that has to fail. -/
structure Literal where
  atom : Atom
  negated : Bool
  deriving DecidableEq, Repr

/-- The constants of variables. -/
abbrev Bindings := NameMap String

/-- Facts are ordered by predicate and then by their arguments, a shorter list before its extensions. -/
instance : Ord Fact := ⟨compareLex (compareOn Fact.predicate) (compareOn Fact.args)⟩

instance : Std.TransOrd Fact :=
  inferInstanceAs (Std.TransCmp (compareLex (compareOn Fact.predicate) (compareOn Fact.args)))

instance : Std.LawfulEqOrd Fact where
  eq_of_compare {a b} same := by
    have parts : compare a.predicate b.predicate = .eq ∧ compare a.args b.args = .eq := by
      simpa [compare, compareLex, compareOn, Ordering.then_eq_eq] using same
    cases a; cases b
    simp only [Std.LawfulEqOrd.compare_eq_iff_eq] at parts
    simp [parts]

abbrev FactSet := OrdSet Fact

namespace Fact

def arity (fact : Fact) : Nat := fact.args.length

/-- The fact as an atom without variables. -/
def toAtom (fact : Fact) : Atom := ⟨fact.predicate, fact.args.map .const⟩

end Fact

namespace Term

def isVariable : Term → Bool
  | .const _ => false
  | .var _ => true

/-- The constant that a term stands for, if it is one or is bound to one. -/
def resolve? (bindings : Bindings) : Term → Option String
  | .const name => some name
  | .var name => bindings.get? name

/-- A bound variable gives way to its constant. -/
def substitute (bindings : Bindings) : Term → Term
  | .const name => .const name
  | .var name =>
    match bindings.get? name with
    | some constant => .const constant
    | none => .var name

end Term

namespace Atom

def arity (atom : Atom) : Nat := atom.terms.length

def isGround (atom : Atom) : Bool := atom.terms.all (!·.isVariable)

/-- The variables, in the order in which they first appear. -/
def vars (atom : Atom) : List String :=
  (atom.terms.filterMap fun
    | .const _ => none
    | .var name => some name).eraseDups

/-- The constants, one for each place where one stands. -/
def constants (atom : Atom) : List String :=
  atom.terms.filterMap fun
    | .const name => some name
    | .var _ => none

/-- The fact that an atom becomes when every variable is bound. -/
def ground? (atom : Atom) (bindings : Bindings) : Option Fact :=
  (atom.terms.mapM (Term.resolve? bindings)).map (⟨atom.predicate, ·⟩)

/-- The atom with its bound variables replaced. -/
def substitute (atom : Atom) (bindings : Bindings) : Atom :=
  ⟨atom.predicate, atom.terms.map (Term.substitute bindings)⟩

/-- Bindings extended so that terms become the given constants. -/
def matchTerms? (bindings : Bindings) : List Term → List String → Option Bindings
  | [], [] => some bindings
  | .const name :: terms, value :: values => if name = value then matchTerms? bindings terms values else none
  | .var name :: terms, value :: values =>
    match bindings.get? name with
    | some bound => if bound = value then matchTerms? bindings terms values else none
    | none => matchTerms? (bindings.insert name value) terms values
  | _, _ => none

/-- Bindings extended so that the atom becomes the fact. -/
def match? (atom : Atom) (fact : Fact) (bindings : Bindings) : Option Bindings :=
  if atom.predicate = fact.predicate then matchTerms? bindings atom.terms fact.args else none

end Atom

def Literal.positive (atom : Atom) : Literal := ⟨atom, false⟩

/-- The literal that asks for the failure of an atom. -/
def Literal.negative (atom : Atom) : Literal := ⟨atom, true⟩

/-- The literals of a conjunction that ask for an atom. -/
def Literal.positives (literals : List Literal) : List Atom :=
  (literals.filter (!·.negated)).map Literal.atom

/-- The literals of a conjunction that ask for the failure of an atom. -/
def Literal.negatives (literals : List Literal) : List Atom :=
  (literals.filter Literal.negated).map Literal.atom

namespace FactSet

def withPredicate (facts : FactSet) (predicate : String) : List Fact :=
  facts.toList.filter (·.predicate = predicate)

/-- The constants that occur as arguments. -/
def constants (facts : FactSet) : OrdSet String := .ofList (facts.toList.flatMap Fact.args)

end FactSet

end Deliberation
