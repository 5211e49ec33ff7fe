import Deliberation.Document.Format
import Deliberation.Proofs.Data.JsonText
import Deliberation.Proofs.Decision.Stored
import Deliberation.Proofs.Planning.Stored
import Deliberation.Proofs.Schedule.Stored

/-!
Documents come back from their JSON texts. A document is written section by section, each of them in
one of the forms in which it may be given; what was read before is what the sections are read as again,
unless an expression or the name of a parameter has no text of its own.
-/

namespace Deliberation

open Decode

/-- A value that its text in an expression gives away: a number is finite, and a symbol has no quotes. -/
def Value.IsClear : Value Float → Bool
  | .num x => x.isFinite
  | .sym name => '"' ∉ name.toList
  | _ => true

namespace Document

/-- The expressions of a document: what its constraints ask for, and what its objective is about. -/
def expressions (doc : Document) : List (Expr Float) :=
  (doc.constraints ++ doc.softConstraints ++ doc.scheduleConstraints).map Constraint.predicate ++ doc.objective.expressions

/-- A document that its text gives away: its expressions have clear values, and nothing can be taken off its
parameters. -/
structure Legible (doc : Document) : Prop where
  clear : ∀ e ∈ doc.expressions, ∀ value ∈ e.values, value.IsClear
  bare : ∀ op ∈ doc.operators, ∀ parameter ∈ op.parameters, Operator.parameterName parameter = parameter

instance (doc : Document) : Decidable doc.Legible :=
  decidable_of_iff ((∀ e ∈ doc.expressions, ∀ value ∈ e.values, value.IsClear) ∧
      ∀ op ∈ doc.operators, ∀ parameter ∈ op.parameters, Operator.parameterName parameter = parameter)
    ⟨fun ⟨clear, bare⟩ => ⟨clear, bare⟩, fun legible => ⟨legible.clear, legible.bare⟩⟩

-- What is taken off a parameter may leave something to be taken off the next time.
example : Operator.parameterName "? x" = " x" ∧ Operator.parameterName " x" = "x" := by decide +kernel

/-- The numbers in the expressions of a document. -/
def literals (doc : Document) : List Float :=
  (doc.expressions.flatMap Expr.values).filterMap fun value =>
    match value with
    | .num x => some x
    | _ => none

theorem mem_literals {doc : Document} {e : Expr Float} (member : e ∈ doc.expressions) {x : Float}
    (among : .num x ∈ e.values) : x ∈ doc.literals :=
  List.mem_filterMap.2 ⟨.num x, List.mem_flatMap.2 ⟨e, member, among⟩, rfl⟩

/-- The numbers of a document come back from their texts. -/
structure ReadsBack (doc : Document) : Prop where
  data : ∀ x ∈ doc.toData.numbers, Json.ReadsBack x
  literals : ∀ x ∈ doc.literals, x.isFinite → Deliberation.ReadsBack x

/-- How deep the data of a section may nest in JSON. -/
def sectionDepth : Nat := Json.depthLimit - 1

/-! ### Reading -/

/-- What is known of a document that was read: its atoms consist of names, its expressions have a form in
which expressions are read, and its decision tree nests no deeper than a text may. -/
structure Formed (doc : Document) : Prop where
  facts : doc.facts.Named
  rules : ∀ rule ∈ doc.rules, rule.Named
  constraints : ∀ c ∈ doc.constraints, Expr.Free c.predicate
  softConstraints : ∀ c ∈ doc.softConstraints, Expr.Free c.predicate
  operators : ∀ op ∈ doc.operators, op.Named
  initialState : doc.initialState.Named
  goalState : doc.goalState.Named
  objective : ∀ e ∈ doc.objective.expressions, Expr.Free e
  scheduleConstraints : ∀ c ∈ doc.scheduleConstraints, Expr.Free c.predicate
  decisionTree : ∀ node ∈ doc.decisionTree, node.toData.Plain Data.IsWord sectionDepth

theorem formed_empty : Formed .empty := by
  constructor <;> simp [empty, FactSet.Named, Objective.expressions, Objective.program?]

theorem Formed.free {doc : Document} (formed : doc.Formed) : ∀ e ∈ doc.expressions, Expr.Free e := by
  refine List.forall_mem_append.2 ⟨List.forall_mem_map.2 ?_, formed.objective⟩
  refine List.forall_mem_append.2 ⟨List.forall_mem_append.2 ⟨?_, ?_⟩, formed.scheduleConstraints⟩
  · exact formed.constraints
  · exact formed.softConstraints

variable {doc next : Document} {rigor : Rigor}

/-- A section that is read keeps what is known of a document. -/
theorem Formed.readSection (formed : doc.Formed) {part : Section} {data : Data}
    (done : doc.readSection part (data.within sectionDepth) rigor = .ok next) : next.Formed := by
  have free {data : Data} {cs : List (Constraint Float)} (read : list Constraint.decode data rigor = .ok cs) :
      ∀ c ∈ cs, Expr.Free c.predicate := fun c member => Constraint.free_of_decode (Read.of_list ⟨data, rigor, read⟩ c member)
  cases part with
  | facts =>
    obtain ⟨facts, read, same⟩ := bind_eq_ok done
    cases same
    exact { formed with facts := FactSet.named_of_decode read }
  | rules =>
    obtain ⟨rules, read, same⟩ := bind_eq_ok done
    cases same
    exact { formed with rules := fun rule member => Rule.named_of_decode (Read.of_list ⟨_, _, read⟩ rule member) }
  | constraints =>
    obtain ⟨constraints, read, same⟩ := bind_eq_ok done
    cases same
    exact { formed with constraints := free read }
  | softConstraints =>
    obtain ⟨constraints, read, same⟩ := bind_eq_ok done
    cases same
    exact { formed with softConstraints := free read }
  | operators =>
    obtain ⟨operators, read, same⟩ := bind_eq_ok done
    cases same
    exact { formed with operators := fun op member => Operator.named_of_decode (Read.of_list ⟨_, _, read⟩ op member) }
  | initialState =>
    obtain ⟨facts, read, same⟩ := bind_eq_ok done
    cases same
    exact { formed with initialState := FactSet.named_of_decode read }
  | goalState =>
    obtain ⟨facts, read, same⟩ := bind_eq_ok done
    cases same
    exact { formed with goalState := FactSet.named_of_decode read }
  | objective =>
    obtain ⟨objective, read, same⟩ := bind_eq_ok done
    cases same
    exact { formed with objective := Objective.free_of_decode ⟨_, _, read⟩ }
  | scheduleConstraints =>
    obtain ⟨constraints, read, same⟩ := bind_eq_ok done
    cases same
    exact { formed with scheduleConstraints := free read }
  | decisionTree =>
    obtain ⟨tree, read, same⟩ := bind_eq_ok done
    cases same
    refine { formed with decisionTree := fun node member => ?_ }
    rw [show tree = some node from member] at read
    exact DecisionNode.plain_of_decode (option_eq_ok read)
  | vars | objects | resources | activities | precedence | risks =>
    obtain ⟨_, _, same⟩ := bind_eq_ok done
    cases same
    exact { formed with }

theorem Formed.readEntries (formed : doc.Formed) {before : List Section} {entries : List (String × Data)}
    (done : readEntries before doc (Data.withinEntries sectionDepth entries) rigor = .ok next) : next.Formed := by
  induction entries generalizing doc before with
  | nil =>
    cases done
    exact formed
  | cons entry rest ih =>
    obtain ⟨key, data⟩ := entry
    rw [Data.withinEntries, Document.readEntries] at done
    cases known : Section.ofName? key with
    | none =>
      rw [known] at done
      exact ih formed done
    | some part =>
      simp only [known] at done
      split at done
      · cases done
      · obtain ⟨middle, read, done⟩ := bind_eq_ok done
        exact ih (formed.readSection read) done

/-- What is read of the data of a text is a document of which all this is known. -/
theorem formed_of_decode {data : Data} (done : decode (data.within Json.depthLimit) rigor = .ok doc) : doc.Formed := by
  have done := inParts_eq_ok done
  cases data with
  | record entries => exact formed_empty.readEntries done
  | list items =>
    obtain ⟨found, read, done⟩ := bind_eq_ok done
    have pairs : (Section.all.map Section.name).zip (Data.withinAll sectionDepth items) =
        Data.withinEntries sectionDepth ((Section.all.map Section.name).zip items) := by
      rw [Data.withinAll_eq, Data.withinEntries_eq, List.zip_map_right]
      rfl
    have formed : found.Formed := formed_empty.readEntries (pairs ▸ read)
    obtain ⟨_, _, done⟩ := bind_eq_ok done
    split at done
    · cases done
      exact formed
    · cases done
  | unreadable start => cases done
  | _ => cases done

theorem formed_of_parse {text : String} (parsed : Document.parse .json text = .ok doc) : doc.Formed := by
  rw [Document.parse, Format.read, Format.parse, Json.parse] at parsed
  split at parsed
  · next data scanned =>
    split at scanned
    · cases scanned
      exact formed_of_decode parsed
    · cases scanned
  · obtain ⟨_, _, refused⟩ := bind_eq_ok parsed
    cases refused

/-! ### Writing -/

/-- What is written of a document that was read nests no deeper than a text may. -/
theorem Formed.plain_section (formed : doc.Formed) (part : Section) : (doc.sectionData part).Plain Data.IsWord sectionDepth := by
  have constraints (cs : List (Constraint Float)) : (Data.list (cs.map Constraint.toData)).Plain Data.IsWord 2 :=
    Data.plain_list fun c _ => c.plain_toData 0
  cases part with
  | facts => exact (FactSet.returns formed.facts 0).plain.mono (by decide)
  | rules => exact (Data.plain_list fun rule member => (Rule.returns (formed.rules rule member) 0).plain).mono (by decide)
  | vars => exact (Variable.returns_all doc.vars 0).plain.mono (by decide)
  | constraints => exact (constraints doc.constraints).mono (by decide)
  | softConstraints => exact (constraints doc.softConstraints).mono (by decide)
  | objects => exact Data.plain_texts _ doc.objects
  | operators => exact (Data.plain_list fun op _ => op.plain_toData 0).mono (by decide)
  | initialState => exact (FactSet.returns formed.initialState 0).plain.mono (by decide)
  | goalState => exact (FactSet.returns formed.goalState 0).plain.mono (by decide)
  | resources => exact (Data.plain_list fun resource _ => (resource.returns 0).plain).mono (by decide)
  | activities => exact (Data.plain_list fun activity _ => (activity.returns 0).plain).mono (by decide)
  | precedence => exact (Data.plain_list fun link _ => (link.returns 0).plain).mono (by decide)
  | objective => exact (doc.objective.plain_toData 0).mono (by decide)
  | scheduleConstraints => exact (constraints doc.scheduleConstraints).mono (by decide)
  | decisionTree =>
    show (Data.orNull DecisionNode.toData doc.decisionTree).Plain _ _
    cases tree : doc.decisionTree with
    | none => exact .null
    | some node => exact formed.decisionTree node tree
  | risks => exact (Data.plain_list fun risk _ => (risk.returns 0).plain).mono (by decide)

theorem Formed.plain_toData (formed : doc.Formed) : doc.toData.Plain Data.IsWord Json.depthLimit := by
  refine .record fun entry member => ?_
  obtain ⟨part, _, rfl⟩ := List.mem_map.1 member
  exact formed.plain_section part

/-- The text of a document stands for the data that was written. -/
theorem Formed.parse_indentedText (formed : doc.Formed) (readsBack : ∀ x ∈ doc.toData.numbers, Json.ReadsBack x) :
    Document.parse .json (Json.indentedText doc.toData) = decode doc.toData .strict := by
  rw [Document.parse, Format.read, Format.parse, Json.parse_indentedText formed.plain_toData readsBack]
  rfl

/-! ### Coming back -/

/-- What is written of a section is read as the section of the same document. -/
theorem Formed.readSection_written (formed : doc.Formed) (legible : doc.Legible)
    (readsBack : ∀ x ∈ doc.literals, x.isFinite → Deliberation.ReadsBack x) (part : Section) (found : Document) :
    found.readSection part (doc.sectionData part) .strict = .ok (found.withSection doc part) := by
  have parses : ∀ e ∈ doc.expressions, Expr.parse e.text = .ok e := fun e member => by
    have free := formed.free e member
    refine Expr.parse_text_of_free free (free.legible (fun x among => ?_) (fun name among => ?_) fun x among => ?_)
    · exact legible.clear e member (.num x) among
    · exact of_decide_eq_true (legible.clear e member (.sym name) among)
    · exact readsBack x (mem_literals member among)
  have constraints : ∀ c ∈ doc.constraints ++ doc.softConstraints ++ doc.scheduleConstraints,
      Constraint.decode c.toData .strict = .ok c := fun c member =>
    (Constraint.returns (parses _ (List.mem_append_left _ (List.mem_map_of_mem member))) 0).back
  simp only [List.forall_mem_append] at constraints
  cases part with
  | facts => exact (bind_ok (FactSet.returns formed.facts 0).back).trans rfl
  | rules => exact (bind_ok (list_back fun rule member => (Rule.returns (formed.rules rule member) 0).back)).trans rfl
  | vars => exact (bind_ok (Variable.returns_all doc.vars 0).back).trans rfl
  | constraints => exact (bind_ok (list_back constraints.1.1)).trans rfl
  | softConstraints => exact (bind_ok (list_back constraints.1.2)).trans rfl
  | objects => exact (bind_ok (returns_texts doc.objects 0).back).trans rfl
  | operators =>
    have operators := list_back fun op member => (Operator.returns (formed.operators op member) (legible.bare op member) 0).back
    exact (bind_ok operators).trans rfl
  | initialState => exact (bind_ok (FactSet.returns formed.initialState 0).back).trans rfl
  | goalState => exact (bind_ok (FactSet.returns formed.goalState 0).back).trans rfl
  | resources =>
    have resources := list_back fun resource (_ : resource ∈ doc.resources) => (resource.returns 0).back
    exact (bind_ok resources).trans rfl
  | activities =>
    have activities := list_back fun activity (_ : activity ∈ doc.activities) => (activity.returns 0).back
    exact (bind_ok activities).trans rfl
  | precedence => exact (bind_ok (list_back fun link (_ : link ∈ doc.precedence) => (link.returns 0).back)).trans rfl
  | objective =>
    have objective := Objective.returns (fun e member => parses e (List.mem_append_right _ member)) 0
    exact (bind_ok objective.back).trans rfl
  | scheduleConstraints => exact (bind_ok (list_back constraints.2)).trans rfl
  | decisionTree =>
    rw [sectionData, withSection]
    cases tree : doc.decisionTree with
    | none => rfl
    | some node =>
      have held : node.toData ≠ .null := by simp [DecisionNode.toData]
      exact (bind_ok (option_back held (DecisionNode.returns (formed.decisionTree node tree)).back)).trans rfl
  | risks => exact (bind_ok (list_back fun risk (_ : risk ∈ doc.risks) => (risk.returns 0).back)).trans rfl

theorem ofName?_name (part : Section) : Section.ofName? part.name = some part := by cases part <;> decide

/-- The entries of some sections are read as these sections of the same document. -/
theorem readEntries_written {before parts : List Section} (distinct : parts.Nodup) (apart : ∀ part ∈ parts, part ∉ before)
    (each : ∀ part (found : Document), found.readSection part (doc.sectionData part) .strict = .ok (found.withSection doc part))
    (found : Document) : readEntries before found (parts.map fun part => (part.name, doc.sectionData part)) .strict =
      .ok (parts.foldl (·.withSection doc ·) found) := by
  induction parts generalizing before found with
  | nil => rfl
  | cons part rest ih =>
    obtain ⟨fresh, distinct⟩ := List.nodup_cons.1 distinct
    rw [List.map_cons, Document.readEntries, ofName?_name]
    dsimp only
    rw [if_neg (apart part (by simp)), bind_ok (each part found)]
    refine ih distinct (fun other member => ?_) _
    rw [List.mem_cons, not_or]
    exact ⟨fun same => fresh (same ▸ member), apart other (List.mem_cons_of_mem _ member)⟩

/-- The sections that are not written have nothing in them, so that the written ones make up the document. -/
theorem foldl_written (doc : Document) : (Section.all.filter doc.isWritten).foldl (·.withSection doc ·) .empty = doc := by
  have always : ∀ part, part ∉ [Section.vars, .objects, .decisionTree] → doc.isWritten part = true := fun part apart => by
    cases part <;> first | rfl | simp at apart
  have vars : doc.isWritten .vars = false → doc.vars = [] := by simp [isWritten, has]
  have objects : doc.isWritten .objects = false → doc.objects = [] := by simp [isWritten, has]
  have decisionTree : doc.isWritten .decisionTree = false → doc.decisionTree = none := by simp [isWritten, has]
  cases first : doc.isWritten .vars <;> cases second : doc.isWritten .objects <;>
    cases third : doc.isWritten .decisionTree <;>
    simp [Section.all, always, withSection, empty, first, second, third] <;> cases doc <;> simp_all

theorem Formed.decode_toData (formed : doc.Formed) (legible : doc.Legible)
    (readsBack : ∀ x ∈ doc.literals, x.isFinite → Deliberation.ReadsBack x) : decode doc.toData .strict = .ok doc := by
  have distinct : (Section.all.filter doc.isWritten).Nodup := List.Nodup.filter _ (by decide)
  have read := @readEntries_written doc [] _ distinct (by simp) (formed.readSection_written legible readsBack) .empty
  rw [foldl_written] at read
  exact read

/-- A document that was read comes back from its JSON text. -/
theorem parse_written {text : String} (parsed : Document.parse .json text = .ok doc) (legible : doc.Legible)
    (readsBack : doc.ReadsBack) : ∃ written, doc.text? .json = some written ∧ Document.parse .json written = .ok doc := by
  have formed := formed_of_parse parsed
  refine ⟨_, rfl, ?_⟩
  rw [formed.parse_indentedText readsBack.data]
  exact formed.decode_toData legible readsBack.literals

/-- Where something is found to hold of what a text is read as, the text is read as a document of which it holds. -/
theorem exists_parsed {text : String} {holds : Document → Bool}
    (known : (Document.parse .json text).toOption.any holds = true) :
    ∃ doc, Document.parse .json text = .ok doc ∧ holds doc := by
  cases parsed : Document.parse .json text with
  | error refusal =>
    rw [parsed] at known
    cases known
  | ok doc =>
    rw [parsed] at known
    exact ⟨doc, rfl, known⟩

/-- A constraint given by its text alone, and an operator given by its values in order. -/
def shortText : String := "\x7b\"CONSTRAINTS\":[\"x > 2.5\"],\"OPERATORS\":[[\"go\",[\"?a\"]]]\x7d"

theorem short_text_comes_back : ∃ doc, Document.parse .json shortText = .ok doc ∧
    ∃ written, doc.text? .json = some written ∧ Document.parse .json written = .ok doc := by
  have known : (Document.parse .json shortText).toOption.any
      (fun doc => doc.Legible ∧ doc.toData.numbers = [1] ∧ doc.literals = [2.5]) = true := by decide +kernel
  obtain ⟨doc, parsed, known⟩ := exists_parsed known
  obtain ⟨legible, numbers, literals⟩ := of_decide_eq_true known
  have weight : Json.ReadsBack 1 := by rfl
  have literal : Deliberation.ReadsBack 2.5 := by
    rw [Deliberation.ReadsBack, show Decimal.literal 2.5 = "2.5" by decide +kernel]
    exact Expr.parse_eq_ok_iff.2 ⟨[⟨.num 2.5, 0, 3⟩], by rfl, by rfl⟩
  have readsBack : doc.ReadsBack := ⟨by simpa [numbers] using weight, by simpa [literals] using fun _ => literal⟩
  exact ⟨doc, parsed, parse_written parsed legible readsBack⟩

/-- A constraint that names a symbol with a quote in it. -/
def quotedText : String := "\x7b\"CONSTRAINTS\":[\"x == 'a\\\"b'\"]\x7d"

/-- A symbol with a quote in it is written between quotes, and these are not read again. -/
theorem quoted_text_is_lost : ∃ doc, Document.parse .json quotedText = .ok doc ∧
    ∃ written, doc.text? .json = some written ∧ (Document.parse .json written).isOk = false := by
  have known : (Document.parse .json quotedText).toOption.any
      (fun doc => doc.toData.numbers = [1] ∧ (decode doc.toData .strict).isOk = false) = true := by decide +kernel
  obtain ⟨doc, parsed, known⟩ := exists_parsed known
  obtain ⟨numbers, lost⟩ := of_decide_eq_true known
  have weight : Json.ReadsBack 1 := by rfl
  refine ⟨doc, parsed, _, rfl, ?_⟩
  rwa [(formed_of_parse parsed).parse_indentedText (by simpa [numbers] using weight)]

end Document

end Deliberation
