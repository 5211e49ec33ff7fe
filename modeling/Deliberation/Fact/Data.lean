import Deliberation.Data.Decode
import Deliberation.Fact.Text

/-!
Facts and patterns in structured data: each is written as its text, a set of facts as a list.
-/

namespace Deliberation

def Fact.decode : Data → Decoded Fact := Decode.parsed Fact.parse

def Atom.decode : Data → Decoded Atom := Decode.parsed Atom.parse

def Literal.decode : Data → Decoded Literal := Decode.parsed Literal.parse

/-- A set of facts from a list of their texts. -/
def FactSet.decode : Data → Decoded FactSet := Decode.set Fact.decode

def Fact.listData (facts : List Fact) : Data := .texts (facts.map Fact.text)

def FactSet.toData (facts : FactSet) : Data := Fact.listData facts.toList

/-- The constants of bound variables. -/
def Bindings.toData (bindings : Bindings) : Data :=
  .record (bindings.toList.map fun (name, constant) => (name, .text constant))

end Deliberation
