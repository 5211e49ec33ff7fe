import Deliberation.Proofs.Fact.Join

/-!
The solutions of a conjunction. What a join returns solves the conjunction, and every solution extends
something that is returned; since both bind the same variables, they are equal. No solution is returned
twice, because no bindings extend two that stand at different places of the frontier.
-/

namespace Deliberation

/-- No bindings extend both. -/
def NameMap.Apart {β : Type} (one other : NameMap β) : Prop :=
  ∀ whole : NameMap β, whole.Extends one → ¬ whole.Extends other

theorem NameMap.Apart.of_extends {β : Type} {one other larger larger' : NameMap β} (apart : one.Apart other)
    (extended : larger.Extends one) (extended' : larger'.Extends other) : larger.Apart larger' :=
  fun whole above above' => apart whole (above.trans extended) (above'.trans extended')

theorem NameMap.Apart.ne {β : Type} {one other : NameMap β} (apart : one.Apart other) : one ≠ other := by
  rintro rfl
  exact apart one (.refl one) (.refl one)

namespace Literal

variable {literals : List Literal} {facts : FactSet} {seed found : Bindings}

/-- Bindings solve a conjunction from given ones: they extend these by the variables of the positive literals
and by no others, and each of these literals becomes a fact. -/
structure Solves (literals : List Literal) (facts : FactSet) (seed found : Bindings) : Prop where
  above : found.Extends seed
  binds : ∀ name, found.contains name ↔ seed.contains name ∨ ∃ atom ∈ positives literals, name ∈ atom.vars
  holds : Atom.AllAre (· ∈ facts) (positives literals) found

theorem solves_of_mem (member : found ∈ joinPositive literals facts seed) : Solves literals facts seed found := by
  obtain ⟨above, holds⟩ := joinPositive_sound member
  refine ⟨above, fun name => ⟨fun bound => ?_, ?_⟩, holds⟩
  · obtain ⟨value, stored⟩ := Option.isSome_iff_exists.1 bound
    exact (joinPositive_binds member stored).imp_left fun given => Option.isSome_iff_exists.2 ⟨value, given⟩
  · rintro (given | ⟨atom, among, place⟩)
    · obtain ⟨value, stored⟩ := Option.isSome_iff_exists.1 given
      exact Option.isSome_iff_exists.2 ⟨value, above name value stored⟩
    · obtain ⟨fact, _, ground⟩ := holds atom among
      exact Option.isSome_iff_exists.2 (Atom.exists_ground?_iff.1 ⟨fact, ground⟩ name place)

/-- What a join returns are the solutions. -/
theorem mem_joinPositive_iff : found ∈ joinPositive literals facts seed ↔ Solves literals facts seed found := by
  refine ⟨solves_of_mem, fun solves => ?_⟩
  obtain ⟨smaller, member, extended⟩ := joinPositive_complete solves.above solves.holds
  have same : found = smaller := extended.eq_of_contains fun name bound =>
    ((solves_of_mem member).binds name).2 ((solves.binds name).1 bound)
  exact same ▸ member

/-- An atom is extended to each fact at most once, and bindings under which it is one fact are not extended to
another. -/
theorem extensions_apart (atom : Atom) (facts : FactSet) (bindings : Bindings) :
    (extensions atom facts bindings).Pairwise NameMap.Apart := by
  rw [extensions]
  cases (atom.substitute bindings).ground? bindings with
  | some fact =>
    dsimp only
    split
    · exact List.pairwise_singleton ..
    · exact .nil
  | none =>
    have distinct : (facts.withPredicate (atom.substitute bindings).predicate).Nodup := facts.nodup_toList.filter _
    refine List.pairwise_filterMap.2 (distinct.imp fun {fact other} differ => ?_)
    intro found matched found' matched' whole above above'
    have ground := Atom.ground?_of_extends above (Atom.match?_sound matched).2
    have ground' := Atom.ground?_of_extends above' (Atom.match?_sound matched').2
    exact differ (Option.some.inj (ground.symm.trans ground'))

/-- Bindings that are apart stay so when they are extended, atom by atom. -/
theorem joinPositive_apart (literals : List Literal) (facts : FactSet) (seed : Bindings) :
    (joinPositive literals facts seed).Pairwise NameMap.Apart := by
  refine List.foldlRecOn (motive := List.Pairwise NameMap.Apart) _ _ (List.pairwise_singleton ..) ?_
  intro frontier apart atom _
  refine List.pairwise_flatMap.2 ⟨fun bindings _ => extensions_apart atom facts bindings, apart.imp ?_⟩
  intro one other apart found member found' member'
  exact apart.of_extends (extensions_sound member).1 (extensions_sound member').1

theorem nodup_joinPositive (literals : List Literal) (facts : FactSet) (seed : Bindings) :
    (joinPositive literals facts seed).Nodup :=
  (joinPositive_apart literals facts seed).imp NameMap.Apart.ne

theorem mem_satisfyingBindings_iff : found ∈ satisfyingBindings literals facts ↔
    Solves literals facts .empty found ∧ Atom.AllAre (· ∉ facts) (negatives literals) found := by
  rw [satisfyingBindings, List.mem_filter, mem_joinPositive_iff, beq_iff_eq, negationsHold, noneHolds_eq_true_iff]

/-- A join returns exactly the solutions from given bindings, each once, and a conjunction is satisfied by
exactly those from no bindings under which its negated literals become facts that are not known. -/
theorem joins_are_solutions (literals : List Literal) (facts : FactSet) :
    (∀ seed, (joinPositive literals facts seed).Nodup ∧
      ∀ found, found ∈ joinPositive literals facts seed ↔ Solves literals facts seed found) ∧
    (satisfyingBindings literals facts).Nodup ∧
      ∀ found, found ∈ satisfyingBindings literals facts ↔
        Solves literals facts .empty found ∧ Atom.AllAre (· ∉ facts) (negatives literals) found := by
  refine ⟨fun seed => ⟨nodup_joinPositive literals facts seed, fun _ => mem_joinPositive_iff⟩, ?_, ?_⟩
  · exact (nodup_joinPositive literals facts .empty).filter _
  · exact fun _ => mem_satisfyingBindings_iff

end Literal

end Deliberation
