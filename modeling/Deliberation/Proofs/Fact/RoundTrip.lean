import Deliberation.Planning.Operator
import Deliberation.Proofs.Fact.Stored

/-!
Texts as names of values. The values that are read from some text are those that consist of names, each is
read from its own text, and so no two of them share a text.
-/

namespace Deliberation

/-- A reading and a writing of values belong together: the values that some text is read as are the valid
ones, and each of these is read from its own text. -/
structure Faithful {α ε : Type} (parse : String → Except ε α) (text : α → String) (Valid : α → Prop) : Prop where
  valid : ∀ s a, parse s = .ok a → Valid a
  returns : ∀ a, Valid a → parse (text a) = .ok a

namespace Faithful

variable {α ε : Type} {parse : String → Except ε α} {text : α → String} {Valid : α → Prop}

/-- What was read is read again from its own text. -/
theorem again (faithful : Faithful parse text Valid) {s : String} {a : α} (read : parse s = .ok a) : parse (text a) = .ok a :=
  faithful.returns a (faithful.valid s a read)

/-- Different values have different texts. -/
theorem injOn (faithful : Faithful parse text Valid) : Set.InjOn text {a | Valid a} := by
  intro a valid b other same
  have read := faithful.returns a valid
  rw [same, faithful.returns b other] at read
  exact (Except.ok.inj read).symm

end Faithful

/-- A fact of names. -/
structure Fact.Named (fact : Fact) : Prop where
  predicate : isName fact.predicate.toList
  args : ∀ arg ∈ fact.args, isName arg.toList

theorem Fact.named_toAtom_iff {fact : Fact} : fact.toAtom.Named ↔ fact.Named := by
  constructor
  · intro named
    exact ⟨named.predicate, List.forall_mem_map.1 named.terms⟩
  · intro named
    exact ⟨named.predicate, List.forall_mem_map.2 named.args⟩

/-- An action of names. -/
structure Action.Named (action : Action) : Prop where
  operator : isName action.operator.toList
  args : ∀ arg ∈ action.args, isName arg.toList

theorem Fact.faithful : Faithful parse text Named where
  valid _ _ read := named_toAtom_iff.1 (named_of_parse read)
  returns _ named := parse_rendered (named_toAtom_iff.2 named)

theorem Atom.faithful : Faithful parse text Named where
  valid _ _ read := named_of_parse read
  returns _ named := parse_rendered named

theorem Literal.faithful : Faithful parse text (·.atom.Named) where
  valid _ _ read := named_of_parse read
  returns _ named := parse_rendered named

/-- An action is read and written as the fact of the same text. -/
theorem Action.faithful : Faithful parse text Named where
  valid s action read := by
    obtain ⟨fact, parsed, rfl⟩ := Lists.map_eq_ok read
    have named := Fact.faithful.valid s fact parsed
    exact ⟨named.predicate, named.args⟩
  returns action named := by
    have parsed := Fact.faithful.returns action.toFact ⟨named.operator, named.args⟩
    rw [parse, text, parsed]
    rfl

/-- Facts, atoms, literals and actions come back from their texts: those that were read, and all that consist
of names, of which no two have one text. -/
theorem texts_come_back :
    ((∀ s fact, Fact.parse s = .ok fact → Fact.parse fact.text = .ok fact) ∧
      (∀ fact : Fact, fact.Named → Fact.parse fact.text = .ok fact) ∧ Set.InjOn Fact.text {fact | fact.Named}) ∧
    ((∀ s atom, Atom.parse s = .ok atom → Atom.parse atom.text = .ok atom) ∧
      (∀ atom : Atom, atom.Named → Atom.parse atom.text = .ok atom) ∧ Set.InjOn Atom.text {atom | atom.Named}) ∧
    ((∀ s literal, Literal.parse s = .ok literal → Literal.parse literal.text = .ok literal) ∧
      (∀ literal : Literal, literal.atom.Named → Literal.parse literal.text = .ok literal) ∧
      Set.InjOn Literal.text {literal | literal.atom.Named}) ∧
    (∀ s action, Action.parse s = .ok action → Action.parse action.text = .ok action) ∧
      (∀ action : Action, action.Named → Action.parse action.text = .ok action) ∧ Set.InjOn Action.text {action | action.Named} :=
  ⟨⟨fun _ _ read => Fact.faithful.again read, Fact.faithful.returns, Fact.faithful.injOn⟩,
    ⟨fun _ _ read => Atom.faithful.again read, Atom.faithful.returns, Atom.faithful.injOn⟩,
    ⟨fun _ _ read => Literal.faithful.again read, Literal.faithful.returns, Literal.faithful.injOn⟩,
    fun _ _ read => Action.faithful.again read, Action.faithful.returns, Action.faithful.injOn⟩

/-- Texts with spaces and with the names of signs come back, and what they are read as stays apart. -/
theorem spaced_texts_come_back :
    (∃ one other : Fact, Fact.parse "at( robot, not )" = .ok one ∧ one.Named ∧ other.Named ∧
      Fact.parse one.text = .ok one ∧ Fact.parse other.text = .ok other ∧ one.text ≠ other.text) ∧
    (∃ one other : Atom, Atom.parse " not(?x,x)" = .ok one ∧ one.Named ∧ other.Named ∧
      Atom.parse one.text = .ok one ∧ Atom.parse other.text = .ok other ∧ one.text ≠ other.text) ∧
    (∃ one other : Literal, Literal.parse "¬not ( ?x )" = .ok one ∧ one.atom.Named ∧ other.atom.Named ∧
      Literal.parse one.text = .ok one ∧ Literal.parse other.text = .ok other ∧ one.text ≠ other.text) ∧
    ∃ one other : Action, Action.parse "move( not ,x)" = .ok one ∧ one.Named ∧ other.Named ∧
      Action.parse one.text = .ok one ∧ Action.parse other.text = .ok other ∧ one.text ≠ other.text := by
  obtain ⟨facts, atoms, literals, actions⟩ := texts_come_back
  -- one value comes back for it was read, the other one for it consists of names
  have both {α ε : Type} {parse : String → Except ε α} {text : α → String} {Valid : α → Prop} {s t : String} {one other : α}
      (faithful : Faithful parse text Valid) (read : parse s = .ok one) (known : parse t = .ok other) (different : one ≠ other)
      (back : (∀ s a, parse s = .ok a → parse (text a) = .ok a) ∧ (∀ a, Valid a → parse (text a) = .ok a) ∧
        Set.InjOn text {a | Valid a}) :
      ∃ one other, parse s = .ok one ∧ Valid one ∧ Valid other ∧ parse (text one) = .ok one ∧
        parse (text other) = .ok other ∧ text one ≠ text other := by
    have named := faithful.valid s one read
    have alike := faithful.valid t other known
    exact ⟨one, other, read, named, alike, back.1 s one read, back.2.1 other alike,
      fun same => different (back.2.2 named alike same)⟩
  have fact : Fact.parse "at( robot, not )" = .ok ⟨"at", ["robot", "not"]⟩ := rfl
  have bare : Fact.parse "not" = .ok ⟨"not", []⟩ := rfl
  have atom : Atom.parse " not(?x,x)" = .ok ⟨"not", [.var "x", .const "x"]⟩ := rfl
  have ground : Atom.parse "not(x,x)" = .ok ⟨"not", [.const "x", .const "x"]⟩ := rfl
  have negative : Literal.parse "¬not ( ?x )" = .ok (.negative ⟨"not", [.var "x"]⟩) := rfl
  have positive : Literal.parse "not( ?x )" = .ok (.positive ⟨"not", [.var "x"]⟩) := rfl
  have action : Action.parse "move( not ,x)" = .ok ⟨"move", ["not", "x"]⟩ := rfl
  have plain : Action.parse "move" = .ok ⟨"move", []⟩ := rfl
  exact ⟨both Fact.faithful fact bare (by decide) facts, both Atom.faithful atom ground (by decide) atoms,
    both Literal.faithful negative positive (by decide) literals, both Action.faithful action plain (by decide) actions⟩

end Deliberation
