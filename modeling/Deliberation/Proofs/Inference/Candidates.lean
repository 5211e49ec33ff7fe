import Deliberation.Proofs.Inference.Instances

/-!
The bindings that are tried for an atom with free variables: they extend the given ones, and they
reach every fact that is stated or that some consequent becomes.
-/

namespace Deliberation.Backward

variable {known : Knowledge} {pattern : Atom} {bindings : Bindings}

/-- A fact that is stated or that some consequent becomes, over the constants at hand. -/
structure Knowledge.Coverable (known : Knowledge) (fact : Fact) : Prop where
  stated : fact ∈ known.facts ∨ ∃ rule ∈ known.rules, ∃ bindings, rule.consequent.ground? bindings = some fact
  overPool : fact.Over (Rule.vocabulary known.facts known.rules).toList

/-- The facts of a predicate that are asserted or that a consequent without variables becomes. -/
def Knowledge.stated (known : Knowledge) (predicate : String) : List Fact :=
  known.facts.withPredicate predicate ++
    ((Rule.concluding known.rules predicate).map fun (rule, _) => rule.consequent).filterMap (·.ground? .empty)

/-- Some consequent of the pattern's predicate and arity has variables. -/
def Knowledge.Guessing (known : Knowledge) (pattern : Atom) : Prop :=
  ∃ rule ∈ known.rules, rule.consequent.predicate = pattern.predicate ∧ rule.consequent.ground? .empty = none ∧
    rule.consequent.arity = pattern.arity

theorem mem_candidates {found : Bindings} {guess : Bool} :
    (found, guess) ∈ candidates known pattern bindings ↔
      guess = false ∧ (∃ fact ∈ known.stated pattern.predicate, pattern.match? fact bindings = some found) ∨
      guess = true ∧ known.Guessing pattern ∧
        found ∈ groundings (Rule.vocabulary known.facts known.rules).toList pattern.vars bindings ∧
        ¬ ∃ fact ∈ known.stated pattern.predicate, pattern.match? fact bindings = some found := by
  have guessing : (((Rule.concluding known.rules pattern.predicate).map fun (rule, _) => rule.consequent).any
      fun head => (head.ground? .empty).isNone && head.arity == pattern.arity) = true ↔ known.Guessing pattern := by
    simp only [List.any_map, List.any_eq_true, Function.comp, Bool.and_eq_true, Option.isNone_iff_eq_none, beq_iff_eq]
    constructor
    · rintro ⟨⟨rule, place⟩, member, free, arity⟩
      obtain ⟨among, concludes⟩ := Rule.mem_concluding member
      exact ⟨rule, among, concludes, free, arity⟩
    · rintro ⟨rule, among, concludes, free, arity⟩
      obtain ⟨place, member⟩ := Rule.exists_mem_concluding among
      exact ⟨(rule, place), concludes ▸ member, free, arity⟩
  have matching : found ∈ ((known.stated pattern.predicate).filterMap (pattern.match? · bindings)).eraseDups ↔
      ∃ fact ∈ known.stated pattern.predicate, pattern.match? fact bindings = some found := by
    rw [List.mem_eraseDups, List.mem_filterMap]
  rw [candidates]
  simp only [List.mem_append, List.mem_map, Prod.mk.injEq, ← matching, ← guessing]
  constructor
  · rintro (⟨other, member, rfl, rfl⟩ | ⟨other, member, rfl, rfl⟩)
    · exact .inl ⟨rfl, member⟩
    · rw [List.mem_ite_nil_right, List.mem_filter] at member
      have fresh := member.2.2
      rw [Bool.not_eq_true', List.contains_eq_mem, decide_eq_false_iff_not] at fresh
      exact .inr ⟨rfl, member.1, member.2.1, fresh⟩
  · rintro (⟨rfl, member⟩ | ⟨rfl, there, member, fresh⟩)
    · exact .inl ⟨found, member, rfl, rfl⟩
    · refine .inr ⟨found, ?_, rfl, rfl⟩
      rw [List.mem_ite_nil_right, List.mem_filter]
      rw [Bool.not_eq_true', List.contains_eq_mem, decide_eq_false_iff_not]
      exact ⟨there, member, fresh⟩

theorem mem_stated {predicate : String} {fact : Fact} :
    fact ∈ known.stated predicate ↔ fact ∈ known.facts ∧ fact.predicate = predicate ∨
      ∃ rule ∈ known.rules, rule.consequent.predicate = predicate ∧ rule.consequent.ground? .empty = some fact := by
  simp only [Knowledge.stated, List.mem_append, FactSet.mem_withPredicate, List.mem_filterMap, List.mem_map]
  refine or_congr_right ⟨?_, ?_⟩
  · rintro ⟨_, ⟨⟨rule, place⟩, member, rfl⟩, ground⟩
    obtain ⟨among, concludes⟩ := Rule.mem_concluding member
    exact ⟨rule, among, concludes, ground⟩
  · rintro ⟨rule, among, concludes, ground⟩
    obtain ⟨place, member⟩ := Rule.exists_mem_concluding among
    exact ⟨_, ⟨(rule, place), concludes ▸ member, rfl⟩, ground⟩

theorem candidates_sound {pool : List String} (covers : Rule.Covers pool known.facts known.rules)
    (overPool : bindings.Over pool) {found : Bindings} {guess : Bool}
    (member : (found, guess) ∈ candidates known pattern bindings) : found.Extends bindings ∧ found.Over pool := by
  have every : ∀ fact ∈ known.stated pattern.predicate, fact.Over pool := by
    intro fact stated
    rcases mem_stated.1 stated with ⟨asserted, _⟩ | ⟨rule, among, _, ground⟩
    · exact covers.fact asserted
    · refine Atom.fact_over ground (covers.consequent among) fun name _ value bound => ?_
      simp at bound
  rcases mem_candidates.1 member with ⟨_, fact, stated, matched⟩ | ⟨_, _, guessed, _⟩
  · exact ⟨(Atom.match?_sound matched).1, Atom.match?_over matched overPool (every fact stated)⟩
  · obtain ⟨extended, within⟩ := groundings_sound guessed
    exact ⟨extended, within pool covers overPool⟩

/-- Below any bindings under which the pattern is a coverable fact there is a candidate under which it is that
fact. -/
theorem candidates_complete {whole : Bindings} {fact : Fact} (extended : whole.Extends bindings)
    (ground : pattern.ground? whole = some fact) (coverable : known.Coverable fact) :
    ∃ found guess, (found, guess) ∈ candidates known pattern bindings ∧ whole.Extends found ∧
      pattern.ground? found = some fact := by
  have predicate := Atom.predicate_of_ground? ground
  obtain ⟨found, matched, within⟩ := Atom.match?_complete extended ground
  -- A grounding may have been found already by matching a stated fact.
  by_cases stated : fact ∈ known.stated pattern.predicate
  · exact ⟨found, false, mem_candidates.2 (.inl ⟨rfl, fact, stated, matched⟩), within, (Atom.match?_sound matched).2⟩
  · obtain ⟨rule, among, head, concludes⟩ := coverable.stated.resolve_left fun asserted =>
      stated (mem_stated.2 (.inl ⟨asserted, predicate⟩))
    have own := (Atom.predicate_of_ground? concludes).symm.trans predicate
    have free : rule.consequent.ground? .empty = none := by
      cases now : rule.consequent.ground? .empty with
      | none => rfl
      | some other =>
        have same := (Atom.ground?_of_extends (NameMap.extends_empty head) now).symm.trans concludes
        exact absurd (mem_stated.2 (.inr ⟨rule, among, own, now.trans same⟩)) stated
    have arity : rule.consequent.arity = pattern.arity := by
      have left := congrArg List.length (Atom.ground?_eq_some_iff.1 concludes).2
      have right := congrArg List.length (Atom.ground?_eq_some_iff.1 ground).2
      simp only [List.length_map] at left right
      exact left.trans right.symm
    have bound : ∀ name ∈ pattern.vars,
        ∃ value ∈ (Rule.vocabulary known.facts known.rules).toList, whole.get? name = some value := by
      intro name place
      obtain ⟨value, stored⟩ := Atom.exists_ground?_iff.1 ⟨fact, ground⟩ name place
      exact ⟨value, coverable.overPool value (Atom.value_mem_args ground place stored), stored⟩
    obtain ⟨grounding, member, inside, agree⟩ := groundings_complete extended bound
    have becomes : pattern.ground? grounding = some fact := (Atom.ground?_congr agree).trans ground
    by_cases already : ∃ fact ∈ known.stated pattern.predicate, pattern.match? fact bindings = some grounding
    · exact ⟨grounding, false, mem_candidates.2 (.inl ⟨rfl, already⟩), inside, becomes⟩
    · exact ⟨grounding, true, mem_candidates.2 (.inr ⟨rfl, ⟨rule, among, own, free, arity⟩, member, already⟩), inside, becomes⟩

end Deliberation.Backward
