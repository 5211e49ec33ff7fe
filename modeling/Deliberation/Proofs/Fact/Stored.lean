import Deliberation.Fact.Data
import Deliberation.Proofs.Data.Decoding
import Deliberation.Proofs.Fact.Bindings
import Deliberation.Proofs.Text

/-!
Facts and patterns come back from their texts. What was read consists of names, and names have neither
blanks nor the marks between which they stand.
-/

namespace Deliberation

/-! ### Names -/

theorem isNameChar_eq_false_of_isBlank {c : Char} (blank : Text.isBlank c) : isNameChar c = false := by
  have codes : ∀ n ∈ [9, 10, 11, 12, 13, 0x20, 0x85, 0xa0, 0x1680, 0x2000, 0x2001, 0x2002, 0x2003, 0x2004, 0x2005, 0x2006, 0x2007,
      0x2008, 0x2009, 0x200a, 0x2028, 0x2029, 0x202f, 0x205f, 0x3000], isNameChar (Char.ofNat n) = false := by decide +kernel
  rw [← Char.ofNat_toNat c]
  refine codes c.toNat ?_
  simp only [Text.isBlank, Bool.or_eq_true, Bool.and_eq_true, decide_eq_true_eq, beq_iff_eq] at blank
  simp only [List.mem_cons, List.not_mem_nil, or_false]
  omega

/-- The characters that stand around names. -/
theorem isNameChar_marks : ∀ c ∈ ['(', ')', ',', '?', '!', '¬', ' '], isNameChar c = false := by
  simp only [List.forall_mem_cons, List.not_mem_nil, false_implies, implies_true, and_true]
  decide +kernel

theorem isNameChar_of_name {name : List Char} (named : isName name) {c : Char} (member : c ∈ name) : isNameChar c = true := by
  simp only [isName, Bool.and_eq_true, List.all_eq_true] at named
  exact named.2 c member

theorem notMem_of_name {name : List Char} (named : isName name) {c : Char} (mark : c ∈ ['(', ')', ',', '?', '!', '¬', ' ']) :
    c ∉ name := by
  intro member
  exact Bool.false_ne_true ((isNameChar_marks c mark).symm.trans (isNameChar_of_name named member))

theorem not_blank_of_name {name : List Char} (named : isName name) : ∀ c ∈ name, Text.isBlank c = false := by
  intro c member
  rw [← Bool.not_eq_true]
  intro blank
  exact Bool.false_ne_true ((isNameChar_eq_false_of_isBlank blank).symm.trans (isNameChar_of_name named member))

theorem trimmed_of_name {name : List Char} (named : isName name) : Text.Trimmed name := by
  have solid := not_blank_of_name named
  have nonempty : name ≠ [] := by
    rintro rfl
    cases named
  exact ⟨⟨name.head nonempty, List.head?_eq_some_head nonempty, solid _ (List.head_mem nonempty)⟩,
    ⟨name.getLast nonempty, List.getLast?_eq_some_getLast nonempty, solid _ (List.getLast_mem nonempty)⟩⟩

/-! ### Terms -/

/-- A term whose constant or variable has a name. -/
def Term.Named : Term → Prop
  | .const name => isName name.toList
  | .var name => isName name.toList

/-- An atom that consists of names. -/
structure Atom.Named (atom : Atom) : Prop where
  predicate : isName atom.predicate.toList
  terms : ∀ term ∈ atom.terms, term.Named

namespace Term

theorem named_of_read {text : List Char} {term : Term} (done : read text = .ok term) : term.Named := by
  unfold read at done
  split at done
  · split at done
    · next named =>
      cases done
      simpa [Named] using named
    · cases done
  · split at done
    · next named =>
      cases done
      simpa [Named] using named
    · cases done

theorem trimmed_render {term : Term} (named : term.Named) : Text.Trimmed term.render := by
  cases term with
  | const name => exact trimmed_of_name named
  | var name => exact (Text.trimmed_singleton (by decide)).append (trimmed_of_name named) []

theorem apart_render {term : Term} (named : term.Named) : ',' ∉ term.render := by
  cases term with
  | const name => exact notMem_of_name named (by decide)
  | var name => simpa [render] using notMem_of_name (c := ',') named (by decide)

/-- A term is read from its text, without the blanks around it. -/
theorem read_of_trim {text : List Char} {term : Term} (named : term.Named) (trimmed : Text.trim text = term.render) :
    read text = .ok term := by
  rw [read, trimmed]
  cases term with
  | const name =>
    rw [render]
    split
    · next rest same =>
      have marked : '?' ∈ name.toList := by simp [same]
      exact (notMem_of_name named (by decide) marked).elim
    · rw [if_pos (show isName name.toList from named), String.ofList_toList]
  | var name =>
    rw [render]
    simp [show isName name.toList from named]

end Term

/-! ### Atoms -/

namespace Atom

theorem named_of_readTerms {inner : List Char} {terms : List Term} (done : readTerms inner = .ok terms) : ∀ term ∈ terms, term.Named := by
  rw [readTerms] at done
  split at done
  · cases done
    simp
  · intro term member
    obtain ⟨_, _, read⟩ := (Lists.mem_iff_of_mapM done).1 member
    exact Term.named_of_read read

theorem named_of_read {text : List Char} {atom : Atom} (done : read text = .ok atom) : atom.Named := by
  have closing {name : List Char} {terms : List Term} (named : ∀ term ∈ terms, term.Named)
      (done : (if isName name then .ok ⟨String.ofList name, terms⟩ else .error (ParseCause.invalidPredicate (String.ofList name))) =
        Except.ok atom) : atom.Named := by
    split at done
    · next predicate =>
      cases done
      exact ⟨by simpa using predicate, named⟩
    · cases done
  unfold read at done
  simp only at done
  split at done
  · exact closing (by simp) done
  · split at done
    · cases done
    · obtain ⟨terms, found, done⟩ := Lists.bind_eq_ok done
      exact closing (named_of_readTerms found) done

theorem named_of_parse {text : String} {atom : Atom} (done : parse text = .ok atom) : atom.Named :=
  named_of_read (Lists.mapError_eq_ok done)

theorem trimmed_render {atom : Atom} (named : atom.Named) : Text.Trimmed atom.render := by
  have start := trimmed_of_name named.predicate
  rw [render]
  split
  · exact start
  · have whole := start.append (Text.trimmed_singleton (by decide : Text.isBlank ')' = false)) ('(' :: Text.join ", " (atom.terms.map Term.render))
    simpa using whole

theorem readTerms_join {first : Term} {rest : List Term} (named : ∀ term ∈ first :: rest, term.Named) :
    readTerms (Text.join ", " ((first :: rest).map Term.render)) = .ok (first :: rest) := by
  obtain ⟨here, later⟩ := List.forall_mem_cons.1 named
  have apart : ∀ piece ∈ (first :: rest).map Term.render, ',' ∉ piece := by
    intro piece member
    obtain ⟨term, listed, rfl⟩ := List.mem_map.1 member
    exact Term.apart_render (named term listed)
  have inside : ¬(Text.trim (Text.join ", " ((first :: rest).map Term.render))).isEmpty := by
    obtain ⟨c, starts, solid⟩ := (Term.trimmed_render here).first
    have listed : c ∈ Text.join ", " ((first :: rest).map Term.render) := by
      rw [List.map_cons, Text.join_cons]
      exact List.mem_append_left _ (List.mem_of_mem_head? starts)
    simpa using Text.trim_ne_nil listed solid
  rw [readTerms, if_neg inside, List.map_cons, Text.splitOn_join apart, List.map_map, Lists.mapM_eq_ok_iff]
  refine .cons (Term.read_of_trim here (Term.trimmed_render here).trim) ?_
  rw [List.forall₂_map_left_iff]
  refine List.forall₂_same.2 fun term member => ?_
  have known := later term member
  exact Term.read_of_trim known (Term.trimmed_render known).trim_space

/-- An atom of names is read from its text. -/
theorem read_render {atom : Atom} (named : atom.Named) : read atom.render = .ok atom := by
  have whole := (trimmed_render named).trim
  obtain ⟨predicate, terms⟩ := atom
  have apart : '(' ∉ predicate.toList := notMem_of_name named.predicate (by decide)
  have inside : ∀ c ∈ predicate.toList, decide (c ≠ '(') = true := by
    intro c member
    rw [decide_eq_true_eq]
    rintro rfl
    exact apart member
  unfold read
  rw [whole]
  cases terms with
  | nil =>
    have none : predicate.toList.dropWhile (· ≠ '(') = [] := List.dropWhile_eq_nil_iff.2 inside
    simp only [render, List.isEmpty_nil, if_true, none]
    simp [pure, Except.pure, bind, Except.bind, named.predicate]
  | cons first rest =>
    have shape : render ⟨predicate, first :: rest⟩ =
        predicate.toList ++ '(' :: (Text.join ", " ((first :: rest).map Term.render) ++ [')']) := by
      simp [render]
    have stops : ∀ c ∈ ('(' :: (Text.join ", " ((first :: rest).map Term.render) ++ [')'])).head?, decide (c ≠ '(') = false := by simp
    have last : [')'].isSuffixOf? (Text.join ", " ((first :: rest).map Term.render) ++ [')']) =
        some (Text.join ", " ((first :: rest).map Term.render)) := by
      simp [List.isSuffixOf?, List.isPrefixOf?]
    rw [shape]
    simp only [Lists.dropWhile_append_closed inside stops, Lists.takeWhile_append_closed inside stops, last,
      readTerms_join named.terms, (trimmed_of_name named.predicate).trim]
    simp [pure, Except.pure, bind, Except.bind, named.predicate]

/-- An atom of names comes back from its text. -/
theorem parse_rendered {atom : Atom} (named : atom.Named) : parse atom.text = .ok atom := by
  rw [parse, text, String.toList_ofList, read_render named]
  rfl

/-- Where no parenthesis has opened yet, the text of an atom has a name. -/
theorem exists_render (atom : Atom) :
    ∃ rest, atom.render = atom.predicate.toList ++ rest ∧ ∀ c ∈ rest.head?, c = '(' := by
  rw [render]
  split
  · exact ⟨[], by simp, by simp⟩
  · exact ⟨'(' :: Text.join ", " (atom.terms.map Term.render) ++ [')'], by simp, by simp⟩

end Atom

/-! ### Literals -/

namespace Literal

theorem named_of_read {text : List Char} {literal : Literal} (done : read text = .ok literal) : literal.atom.Named := by
  unfold read at done
  simp only at done
  split at done
  · obtain ⟨atom, parsed, same⟩ := Lists.map_eq_ok done
    cases same
    exact Atom.named_of_parse parsed
  · obtain ⟨atom, parsed, same⟩ := Lists.map_eq_ok done
    cases same
    exact Atom.named_of_parse parsed

theorem named_of_parse {text : String} {literal : Literal} (done : parse text = .ok literal) : literal.atom.Named := named_of_read done

theorem negatedPart?_atom {atom : Atom} (named : atom.Named) : negatedPart? atom.render = none := by
  obtain ⟨rest, shape, opens⟩ := atom.exists_render
  have apart {c : Char} (mark : c ∈ ['(', ')', ',', '?', '!', '¬', ' ']) : c ∉ atom.predicate.toList := notMem_of_name named.predicate mark
  have noWord : "not ".toList.isPrefixOf? atom.render = none := by
    refine Option.eq_none_iff_forall_ne_some.2 fun tail found => ?_
    rw [List.isPrefixOf?_eq_some_iff_append_eq, shape] at found
    rcases List.append_eq_append_iff.1 found with ⟨more, same, _⟩ | ⟨more, same, follows⟩
    · exact apart (c := ' ') (by decide) (by rw [same]; simp)
    · cases more with
      | nil => exact apart (c := ' ') (by decide) (by rw [List.append_nil] at same; simp [← same])
      | cons c more =>
        obtain rfl : c = '(' := opens c (by simp [follows])
        have opened : '(' ∈ "not ".toList := by simp [same]
        exact absurd opened (by decide)
  obtain ⟨first, starts, _⟩ := (trimmed_of_name named.predicate).first
  obtain ⟨others, name⟩ := List.head?_eq_some_iff.1 starts
  have listed : first ∈ atom.predicate.toList := List.mem_of_mem_head? starts
  unfold negatedPart?
  rw [noWord, shape, name, List.cons_append]
  simp only
  split
  · next same =>
    cases same
    exact (apart (by decide) listed).elim
  · next same =>
    cases same
    exact (apart (by decide) listed).elim
  · rfl

theorem trimmed_render {literal : Literal} (named : literal.atom.Named) : Text.Trimmed literal.render := by
  have trimmed := Atom.trimmed_render named
  rw [render]
  split
  · exact (Text.trimmed_singleton (by decide : Text.isBlank 'n' = false)).append trimmed ['o', 't', ' ']
  · exact trimmed

/-- A literal of names comes back from its text. -/
theorem parse_rendered {literal : Literal} (named : literal.atom.Named) : parse literal.text = .ok literal := by
  have trimmed := (trimmed_render named).trim
  obtain ⟨atom, negated⟩ := literal
  have parsed := Atom.parse_rendered named
  rw [Atom.text] at parsed
  rw [parse, text, String.toList_ofList, read, trimmed]
  cases negated with
  | true =>
    have part : negatedPart? (render ⟨atom, true⟩) = some atom.render := rfl
    simp only [part, parsed]
    rfl
  | false =>
    have part : negatedPart? (render ⟨atom, false⟩) = none := negatedPart?_atom named
    simp only [part]
    rw [show render ⟨atom, false⟩ = atom.render from rfl, parsed]
    rfl

end Literal

/-! ### Facts -/

namespace Fact

theorem named_of_parse {text : String} {fact : Fact} (done : parse text = .ok fact) : fact.toAtom.Named := by
  obtain ⟨atom, parsed, done⟩ := Lists.bind_eq_ok done
  have named := Atom.named_of_parse parsed
  split at done
  · next ground =>
    cases done
    obtain ⟨same, resolved⟩ := Atom.ground?_eq_some_iff.1 ground
    have predicate : fact.toAtom.predicate = atom.predicate := same
    refine ⟨predicate ▸ named.predicate, fun term member => ?_⟩
    obtain ⟨constant, listed, rfl⟩ := List.mem_map.1 member
    obtain ⟨term, here, stands⟩ := List.mem_map.1 (resolved ▸ List.mem_map_of_mem listed : some constant ∈ _)
    cases term with
    | const name =>
      cases stands
      exact named.terms _ here
    | var name => cases stands
  · cases done

/-- A fact of names comes back from its text. -/
theorem parse_rendered {fact : Fact} (named : fact.toAtom.Named) : parse fact.text = .ok fact := by
  rw [parse, text, Atom.parse_rendered named]
  simp [bind, Except.bind, Atom.ground?_toAtom]

end Fact

/-! ### In data -/

open Decode

theorem Atom.named_of_decode {atom : Atom} (known : Read Atom.decode atom) : atom.Named := by
  obtain ⟨s, parsed⟩ := known.of_parsed
  exact named_of_parse parsed

theorem Atom.returns {atom : Atom} (named : atom.Named) (limit : Nat) : Returns decode (fun atom => .text atom.text) limit atom :=
  ⟨.text _, parsed_back (parse_rendered named) _⟩

theorem Literal.named_of_decode {literal : Literal} (known : Read Literal.decode literal) : literal.atom.Named := by
  obtain ⟨s, parsed⟩ := known.of_parsed
  exact named_of_parse parsed

theorem Literal.returns {literal : Literal} (named : literal.atom.Named) (limit : Nat) :
    Returns decode (fun literal => .text literal.text) limit literal :=
  ⟨.text _, parsed_back (parse_rendered named) _⟩

theorem Fact.returns {fact : Fact} (named : fact.toAtom.Named) (limit : Nat) : Returns decode (fun fact => .text fact.text) limit fact :=
  ⟨.text _, parsed_back (parse_rendered named) _⟩

namespace FactSet

/-- Facts that consist of names. -/
def Named (facts : FactSet) : Prop := ∀ fact ∈ facts, fact.toAtom.Named

theorem named_of_decode {facts : FactSet} {data : Data} {rigor : Rigor} (done : decode data rigor = .ok facts) : facts.Named := by
  obtain ⟨found, read, same⟩ := bind_eq_ok done
  cases same
  intro fact member
  obtain ⟨s, parsed⟩ := (Read.of_list ⟨data, rigor, read⟩ fact (OrdSet.mem_ofList.1 member)).of_parsed
  exact Fact.named_of_parse parsed

theorem returns {facts : FactSet} (named : facts.Named) (limit : Nat) : Returns decode toData (limit + 1) facts := by
  have list : Returns (Decode.list Fact.decode) Fact.listData (limit + 1) facts.toList :=
    returns_written fun fact member => Fact.returns (named fact member) limit
  refine ⟨list.plain, (bind_ok list.back).trans ?_⟩
  rw [OrdSet.ofList_toList]
  rfl

end FactSet

end Deliberation
