import Deliberation.Fact.Basic
import Deliberation.ParseError
import Deliberation.Text.Alphanumeric
import Deliberation.Text.Blank
import Deliberation.Text.Cut

/-!
The text form of facts and patterns: a predicate, and its terms in parentheses when there are any.
Variables start with a question mark, negated literals with the word not.
-/

namespace Deliberation

/-- The characters of names: letters, digits and six marks. -/
def isNameChar (c : Char) : Bool := Text.isAlphanumeric c || c ∈ ['_', '-', '.', ':', '/', '@']

/-- A name is not empty and has name characters only. -/
def isName (text : List Char) : Bool := !text.isEmpty && text.all isNameChar

namespace Term

def render : Term → List Char
  | .const name => name.toList
  | .var name => '?' :: name.toList

/-- The term that a text stands for, blanks around it left out. -/
def read (text : List Char) : Except ParseCause Term :=
  match Text.trim text with
  | '?' :: name =>
    if isName name then .ok (.var (String.ofList name)) else .error (.invalidVariable (String.ofList name))
  | name =>
    if isName name then .ok (.const (String.ofList name)) else .error (.invalidTerm (String.ofList name))

def parse (text : String) : Except ParseCause Term := read text.toList

def text (term : Term) : String := String.ofList term.render

end Term

namespace Atom

/-- The text of an atom: terms stand in parentheses, and an atom without terms has none. -/
def render (atom : Atom) : List Char :=
  if atom.terms.isEmpty then atom.predicate.toList
  else atom.predicate.toList ++ '(' :: Text.join ", " (atom.terms.map Term.render) ++ [')']

def text (atom : Atom) : String := String.ofList atom.render

/-- The terms that stand between the parentheses of an atom. -/
def readTerms (inner : List Char) : Except ParseCause (List Term) :=
  if (Text.trim inner).isEmpty then .ok [] else (Text.splitOn ',' inner).mapM Term.read

/-- The atom that a text stands for; its terms are looked at before its predicate. -/
def read (text : List Char) : Except ParseCause Atom := do
  let text := Text.trim text
  let (name, terms) ←
    match text.dropWhile (· ≠ '(') with
    | [] => pure (text, [])
    | _ :: after =>
      match [')'].isSuffixOf? after with
      | none => .error .unclosedArguments
      | some inner => do
        let terms ← readTerms inner
        pure (Text.trim (text.takeWhile (· ≠ '(')), terms)
  if isName name then .ok ⟨String.ofList name, terms⟩ else .error (.invalidPredicate (String.ofList name))

def parse (text : String) : Except ParseError Atom := (read text.toList).mapError (⟨text, ·⟩)

end Atom

namespace Fact

def text (fact : Fact) : String := fact.toAtom.text

/-- The fact that a text stands for: an atom without variables. -/
def parse (text : String) : Except ParseError Fact := do
  let atom ← Atom.parse text
  match atom.ground? .empty with
  | some fact => .ok fact
  | none => .error ⟨text, .notGround⟩

end Fact

namespace Literal

def render (literal : Literal) : List Char :=
  if literal.negated then "not ".toList ++ literal.atom.render else literal.atom.render

def text (literal : Literal) : String := String.ofList literal.render

/-- What follows the sign of a negated literal: the word not and a space, or one of two marks. -/
def negatedPart? (text : List Char) : Option (List Char) :=
  match "not ".toList.isPrefixOf? text with
  | some rest => some rest
  | none =>
    match text with
    | '!' :: rest => some rest
    | '¬' :: rest => some rest
    | _ => none

/-- The literal that a text stands for, or why there is none. -/
def read (text : List Char) : Except ParseError Literal :=
  let text := Text.trim text
  match negatedPart? text with
  | some rest => (Atom.parse (String.ofList rest)).map .negative
  | none => (Atom.parse (String.ofList text)).map .positive

def parse (text : String) : Except ParseError Literal := read text.toList

end Literal

def FactSet.text (facts : FactSet) : String :=
  "\x7b" ++ Text.joinWith ", " (facts.toList.map Fact.text) ++ "\x7d"

end Deliberation
