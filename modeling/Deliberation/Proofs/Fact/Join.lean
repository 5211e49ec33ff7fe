import Deliberation.Fact.Join
import Deliberation.Proofs.Fact.Bindings

/-!
Joins find exactly the bindings that make the positive literals facts: what they find is right, and
below any bindings that make all of them facts they find some.
-/

namespace Deliberation

theorem FactSet.mem_withPredicate {facts : FactSet} {predicate : String} {fact : Fact} :
    fact ∈ facts.withPredicate predicate ↔ fact ∈ facts ∧ fact.predicate = predicate := by
  simp [FactSet.withPredicate]

/-- A predicate without arguments stands before its facts and after those of lower predicates. -/
theorem Fact.compare_bare_eq_lt {fact : Fact} {predicate : String} :
    compare fact ⟨predicate, []⟩ = .lt ↔ compare fact.predicate predicate = .lt := by
  refine ⟨fun below => ?_, fun lower => Ordering.then_eq_lt.2 (.inl lower)⟩
  rcases Ordering.then_eq_lt.1 below with lower | ⟨_, shorter⟩
  · exact lower
  · -- no list of arguments stands before the empty one
    rcases fact with ⟨name, _ | ⟨first, others⟩⟩ <;> cases shorter

/-- Facts in order have their predicates in order. -/
theorem Fact.isLE_predicate_of_lt {fact other : Fact} (below : compare fact other = .lt) :
    (compare fact.predicate other.predicate).isLE := by
  rcases Ordering.then_eq_lt.1 below with lower | ⟨same, _⟩
  · exact Ordering.isLE_of_eq_lt lower
  · exact Ordering.isLE_of_eq_eq same

/-- The facts of a predicate stand together: they are those from the predicate without arguments on, up to the
first fact of another. -/
theorem FactSet.withPredicate_eq_scan (facts : FactSet) (predicate : String) : facts.withPredicate predicate =
    (facts.toList.dropWhile fun fact => compare fact ⟨predicate, []⟩ = .lt).takeWhile (·.predicate = predicate) := by
  have lower : facts.toList.Pairwise fun fact other =>
      decide (compare other ⟨predicate, []⟩ = .lt) → decide (compare fact ⟨predicate, []⟩ = .lt) :=
    facts.increasing.imp fun below => by simpa using Std.TransCmp.lt_trans below
  rw [Lists.dropWhile_eq_filter lower, Lists.takeWhile_eq_filter, List.filter_filter]
  · rw [withPredicate]
    refine List.filter_congr fun fact _ => ?_
    by_cases same : fact.predicate = predicate
    · simp [same, Fact.compare_bare_eq_lt]
    · simp [same]
  · refine List.pairwise_filter.2 (facts.increasing.imp ?_)
    intro fact other below unpassed _ same
    have above : compare fact.predicate predicate ≠ .lt := by simpa [Fact.compare_bare_eq_lt] using unpassed
    have atMost := Fact.isLE_predicate_of_lt below
    rw [of_decide_eq_true same, Ordering.isLE_iff_eq_lt_or_eq_eq] at atMost
    exact decide_eq_true (Std.LawfulEqOrd.eq_of_compare (atMost.resolve_left above))

namespace Literal

theorem extensions_sound {atom : Atom} {facts : FactSet} {bindings found : Bindings}
    (member : found ∈ extensions atom facts bindings) :
    found.Extends bindings ∧ ∃ fact ∈ facts, atom.ground? found = some fact := by
  have same := Atom.ground?_substitute (.refl bindings) atom
  rw [extensions] at member
  cases ground : (atom.substitute bindings).ground? bindings with
  | some fact =>
    simp only [ground, List.mem_ite_nil_right, List.mem_singleton] at member
    obtain ⟨known, rfl⟩ := member
    exact ⟨.refl _, fact, known, by rw [← same, ground]⟩
  | none =>
    simp only [ground, List.mem_filterMap, FactSet.mem_withPredicate] at member
    obtain ⟨fact, ⟨known, _⟩, matched⟩ := member
    obtain ⟨extended, found⟩ := Atom.match?_sound matched
    exact ⟨extended, fact, known, by rw [← Atom.ground?_substitute extended, found]⟩

theorem extensions_complete {atom : Atom} {facts : FactSet} {bindings whole : Bindings} {fact : Fact}
    (extended : whole.Extends bindings) (known : fact ∈ facts) (ground : atom.ground? whole = some fact) :
    ∃ found ∈ extensions atom facts bindings, whole.Extends found := by
  rw [← Atom.ground?_substitute extended] at ground
  rw [extensions]
  cases now : (atom.substitute bindings).ground? bindings with
  | some present =>
    have same : present = fact := Option.some.inj ((Atom.ground?_of_extends extended now).symm.trans ground)
    exact ⟨bindings, by simp [same, known], extended⟩
  | none =>
    obtain ⟨found, matched, within⟩ := Atom.match?_complete extended ground
    refine ⟨found, ?_, within⟩
    simp only [List.mem_filterMap, FactSet.mem_withPredicate]
    exact ⟨fact, ⟨known, Atom.predicate_of_ground? ground⟩, matched⟩

theorem extensions_binds {atom : Atom} {facts : FactSet} {bindings found : Bindings}
    (member : found ∈ extensions atom facts bindings) {name value : String} (stored : found.get? name = some value) :
    bindings.get? name = some value ∨ name ∈ atom.vars := by
  rw [extensions] at member
  cases ground : (atom.substitute bindings).ground? bindings with
  | some fact =>
    simp only [ground, List.mem_ite_nil_right, List.mem_singleton] at member
    exact .inl (member.2 ▸ stored)
  | none =>
    simp only [ground, List.mem_filterMap] at member
    obtain ⟨fact, _, matched⟩ := member
    simp only [Atom.match?, Option.ite_none_right_eq_some] at matched
    exact (Atom.matchTerms?_binds matched.2 stored).imp_right fun among =>
      Atom.mem_vars_of_substitute (Atom.mem_vars.2 among)

private theorem join_sound {atoms : List Atom} {facts : FactSet} {frontier : List Bindings} {found : Bindings}
    (member : found ∈ atoms.foldl (fun frontier atom => frontier.flatMap (extensions atom facts)) frontier) :
    (∃ start ∈ frontier, found.Extends start) ∧ Atom.AllAre (· ∈ facts) atoms found := by
  induction atoms generalizing frontier with
  | nil => exact ⟨⟨found, member, .refl _⟩, by simp [Atom.AllAre]⟩
  | cons atom rest ih =>
    obtain ⟨⟨middle, reached, later⟩, holds⟩ := ih member
    obtain ⟨start, began, step⟩ := List.mem_flatMap.1 reached
    obtain ⟨first, fact, known, ground⟩ := extensions_sound step
    refine ⟨⟨start, began, later.trans first⟩, ?_⟩
    intro other place
    rcases List.mem_cons.1 place with rfl | place
    · exact ⟨fact, known, Atom.ground?_of_extends later ground⟩
    · exact holds other place

private theorem join_complete {atoms : List Atom} {facts : FactSet} {frontier : List Bindings}
    {start whole : Bindings} (began : start ∈ frontier) (extended : whole.Extends start)
    (holds : Atom.AllAre (· ∈ facts) atoms whole) :
    ∃ found ∈ atoms.foldl (fun frontier atom => frontier.flatMap (extensions atom facts)) frontier,
      whole.Extends found := by
  induction atoms generalizing frontier start with
  | nil => exact ⟨start, began, extended⟩
  | cons atom rest ih =>
    obtain ⟨fact, known, ground⟩ := holds atom (by simp)
    obtain ⟨middle, step, within⟩ := extensions_complete extended known ground
    exact ih (List.mem_flatMap.2 ⟨start, began, step⟩) within fun other place => holds other (by simp [place])

theorem joinPositive_sound {literals : List Literal} {facts : FactSet} {seed found : Bindings}
    (member : found ∈ joinPositive literals facts seed) :
    found.Extends seed ∧ Atom.AllAre (· ∈ facts) (positives literals) found := by
  obtain ⟨⟨start, began, extended⟩, holds⟩ := join_sound member
  rw [List.mem_singleton] at began
  exact ⟨began ▸ extended, holds⟩

/-- A join binds no variables but those of the positive literals. -/
theorem joinPositive_binds {literals : List Literal} {facts : FactSet} {seed found : Bindings}
    (member : found ∈ joinPositive literals facts seed) {name value : String} (stored : found.get? name = some value) :
    seed.get? name = some value ∨ ∃ atom ∈ positives literals, name ∈ atom.vars := by
  have from_frontier (atoms : List Atom) (frontier : List Bindings)
      (member : found ∈ atoms.foldl (fun frontier atom => frontier.flatMap (extensions atom facts)) frontier) :
      (∃ start ∈ frontier, start.get? name = some value) ∨ ∃ atom ∈ atoms, name ∈ atom.vars := by
    induction atoms generalizing frontier with
    | nil => exact .inl ⟨found, member, stored⟩
    | cons atom rest ih =>
      rcases ih _ member with ⟨middle, reached, bound⟩ | ⟨other, among, place⟩
      · obtain ⟨start, began, step⟩ := List.mem_flatMap.1 reached
        rcases extensions_binds step bound with before | own
        · exact .inl ⟨start, began, before⟩
        · exact .inr ⟨atom, by simp, own⟩
      · exact .inr ⟨other, by simp [among], place⟩
  refine (from_frontier _ _ member).imp_left ?_
  rintro ⟨start, began, bound⟩
  rw [List.mem_singleton] at began
  exact began ▸ bound

theorem joinPositive_complete {literals : List Literal} {facts : FactSet} {seed whole : Bindings}
    (extended : whole.Extends seed) (holds : Atom.AllAre (· ∈ facts) (positives literals) whole) :
    ∃ found ∈ joinPositive literals facts seed, whole.Extends found :=
  join_complete (List.mem_singleton_self seed) extended holds

theorem noneHolds_eq_true_iff {facts : FactSet} {bindings : Bindings} {atoms : List Atom} :
    noneHolds facts bindings atoms = some true ↔ Atom.AllAre (· ∉ facts) atoms bindings := by
  induction atoms with
  | nil => simp [noneHolds, Atom.AllAre]
  | cons atom rest ih =>
    rw [noneHolds]
    cases ground : atom.ground? bindings with
    | none => simp [Atom.AllAre, ground]
    | some fact =>
      by_cases known : fact ∈ facts
      · simp [Atom.AllAre, ground, known]
      · simp only [known, if_false, ih]
        simp [Atom.AllAre, ground, known]

/-- A conjunction holds under what is found. -/
theorem satisfyingBindings_sound {literals : List Literal} {facts : FactSet} {found : Bindings}
    (member : found ∈ satisfyingBindings literals facts) :
    Atom.AllAre (· ∈ facts) (positives literals) found ∧ Atom.AllAre (· ∉ facts) (negatives literals) found := by
  simp only [satisfyingBindings, List.mem_filter, beq_iff_eq] at member
  exact ⟨(joinPositive_sound member.1).2, noneHolds_eq_true_iff.1 member.2⟩

end Literal

end Deliberation
