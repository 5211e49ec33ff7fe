import Deliberation.Planning.Problem
import Deliberation.Proofs.Fact.Solutions
import Deliberation.Proofs.Inference.Instances
import Deliberation.Proofs.Planning.Operator

/-!
What an operator is tried under. The solutions of its positive preconditions are completed over the pool,
and no bindings come up twice: two solutions are extended by no bindings in common, and neither are two
constants for one parameter. So the choices that lead to successors are each action that an operator takes, once.
-/

namespace Deliberation

variable {pool names : List String} {state : FactSet} {bindings found : Bindings}

/-- The pool of a problem repeats no constant. -/
theorem PlanProblem.nodup_pool (problem : PlanProblem) : problem.pool.Nodup := by
  rw [pool]
  refine List.nodup_append.2 ⟨Lists.nodup_eraseDups _, (OrdSet.nodup_toList _).filter _, ?_⟩
  rintro constant declared _ other rfl
  have undeclared : constant ∉ problem.objects.eraseDups := of_decide_eq_true (List.mem_filter.1 other).2
  exact undeclared declared

/-! ### Completions -/

theorem completions_eq_groundings (pool names : List String) (bindings : Bindings) :
    completions pool names bindings = Backward.groundings pool names bindings := by
  induction names generalizing bindings with
  | nil => rfl
  | cons name rest ih => simp only [completions, Backward.groundings, ih]

/-- Bindings complete given ones by names: they bind these names besides, and what is new is from the pool. -/
structure Completes (pool names : List String) (bindings found : Bindings) : Prop where
  above : found.Extends bindings
  binds : ∀ name, found.contains name ↔ bindings.contains name ∨ name ∈ names
  drawn : ∀ name value, found.get? name = some value → bindings.get? name = some value ∨ value ∈ pool

theorem contains_of_mem_completions (member : found ∈ completions pool names bindings) (name : String) :
    found.contains name ↔ bindings.contains name ∨ name ∈ names := by
  induction names generalizing bindings with
  | nil =>
    obtain rfl : found = bindings := by simpa [completions] using member
    simp
  | cons first rest ih =>
    rw [completions] at member
    split at member
    · next bound =>
      rw [ih member, List.mem_cons]
      by_cases same : name = first <;> simp [same, bound]
    · obtain ⟨constant, _, later⟩ := List.mem_flatMap.1 member
      rw [ih later, List.mem_cons, NameMap.contains, NameMap.get?_insert]
      by_cases same : name = first <;> simp [same, NameMap.contains]

theorem completes_of_mem (member : found ∈ completions pool names bindings) : Completes pool names bindings found := by
  have binds := contains_of_mem_completions member
  rw [completions_eq_groundings] at member
  obtain ⟨above, drawn⟩ := Backward.groundings_extends member
  exact ⟨above, binds, drawn⟩

/-- The completions are the bindings that complete. -/
theorem mem_completions_iff : found ∈ completions pool names bindings ↔ Completes pool names bindings found := by
  refine ⟨completes_of_mem, fun completes => ?_⟩
  have bound : ∀ name ∈ names, ∃ value, found.get? name = some value ∧ (bindings.get? name = none → value ∈ pool) := by
    intro name listed
    obtain ⟨value, stored⟩ := Option.isSome_iff_exists.1 ((completes.binds name).2 (.inr listed))
    refine ⟨value, stored, fun free => ?_⟩
    refine (completes.drawn name value stored).resolve_left fun given => ?_
    rw [free] at given
    cases given
  obtain ⟨smaller, member, extended, _⟩ := Backward.exists_grounding completes.above bound
  rw [← completions_eq_groundings] at member
  have same : found = smaller := extended.eq_of_contains fun name contained =>
    ((completes_of_mem member).binds name).2 ((completes.binds name).1 contained)
  exact same ▸ member

/-- No bindings extend two completions over a pool that repeats no constant. -/
theorem completions_apart (distinct : pool.Nodup) (names : List String) (bindings : Bindings) :
    (completions pool names bindings).Pairwise NameMap.Apart := by
  induction names generalizing bindings with
  | nil => exact List.pairwise_singleton ..
  | cons name rest ih =>
    rw [completions]
    split
    · exact ih bindings
    · refine List.pairwise_flatMap.2 ⟨fun constant _ => ih _, distinct.imp fun {one other} differ => ?_⟩
      intro found member found' member'
      have apart : NameMap.Apart (bindings.insert name one) (bindings.insert name other) := by
        intro whole above above'
        have stored : whole.get? name = some one := above name one (by simp)
        have stored' : whole.get? name = some other := above' name other (by simp)
        exact differ (Option.some.inj (stored.symm.trans stored'))
      exact apart.of_extends (completes_of_mem member).above (completes_of_mem member').above

/-! ### Choices -/

namespace Operator

variable {op : Operator} {ground : GroundAction} {choice other : Bindings × GroundAction}

/-- The bindings that an operator is tried under and that make an applicable action, each with its action,
in the order of the successors. -/
def choices (op : Operator) (pool : List String) (state : FactSet) : List (Bindings × GroundAction) :=
  (Literal.joinPositive op.preconditions state .empty).flatMap fun seed =>
    (completions pool op.parameters seed).filterMap fun bindings =>
      ((op.ground? bindings).filter (·.applicable state)).map (bindings, ·)

theorem successors_eq_map_choices (op : Operator) (pool : List String) (state : FactSet) :
    op.successors pool state =
      (op.choices pool state).map fun choice => (choice.2.action, choice.2.apply state) := by
  rw [choices, successors, List.map_flatMap]
  congr 1
  funext seed
  rw [List.map_filterMap]
  congr 1
  funext bindings
  cases op.ground? bindings with
  | none => rfl
  | some ground => by_cases applicable : ground.applicable state <;> simp [applicable]

/-- Bindings of exactly the parameters of an operator, each parameter of no positive precondition to a
constant of the pool, with the action that they make: what it requires is in the state, and nothing that it
forbids. -/
structure Takes (op : Operator) (pool : List String) (state : FactSet) (choice : Bindings × GroundAction) : Prop where
  binds : ∀ name, choice.1.contains name ↔ name ∈ op.parameters
  drawn : ∀ name ∈ op.parameters, (∀ atom ∈ Literal.positives op.preconditions, name ∉ atom.vars) →
    ∃ value ∈ pool, choice.1.get? name = some value
  grounds : op.Grounds choice.1 choice.2
  required : ∀ fact ∈ choice.2.requires, fact ∈ state
  allowed : ∀ fact ∈ choice.2.forbids, fact ∉ state

theorem Grounds.requires_hold (grounds : op.Grounds bindings ground) (applicable : ground.applicable state = true) :
    Atom.AllAre (· ∈ state) (Literal.positives op.preconditions) bindings :=
  Atom.allAre_iff.2 ⟨ground.requires, grounds.requires, (GroundAction.applicable_iff.1 applicable).1⟩

theorem mem_choices_iff_completion : choice ∈ op.choices pool state ↔
    ∃ seed ∈ Literal.joinPositive op.preconditions state .empty, choice.1 ∈ completions pool op.parameters seed ∧
      op.ground? choice.1 = some choice.2 ∧ choice.2.applicable state = true := by
  obtain ⟨bindings, ground⟩ := choice
  simp only [choices, List.mem_flatMap, List.mem_filterMap, Option.map_eq_some_iff, Option.filter_eq_some_iff,
    Prod.mk.injEq]
  constructor
  · rintro ⟨seed, joined, found, member, made, ⟨grounds, applicable⟩, rfl, rfl⟩
    exact ⟨seed, joined, member, grounds, applicable⟩
  · rintro ⟨seed, joined, member, grounds, applicable⟩
    exact ⟨seed, joined, bindings, member, ground, ⟨grounds, applicable⟩, rfl, rfl⟩

/-- A variable of a positive precondition is a parameter. -/
theorem Valid.mem_parameters (valid : op.Valid) {atom : Atom} (among : atom ∈ Literal.positives op.preconditions)
    {name : String} (place : name ∈ atom.vars) : name ∈ op.parameters :=
  valid.declared atom (by simp [atoms, Literal.atom_mem_of_positives among]) name place

/-- The choices of a valid operator are what it takes. -/
theorem Valid.mem_choices_iff (valid : op.Valid) : choice ∈ op.choices pool state ↔ op.Takes pool state choice := by
  rw [mem_choices_iff_completion]
  constructor
  · rintro ⟨seed, joined, member, grounds, applicable⟩
    have solves := Literal.solves_of_mem joined
    have completes := completes_of_mem member
    have parts := ground?_eq_some_iff.1 grounds
    obtain ⟨required, allowed⟩ := GroundAction.applicable_iff.1 applicable
    refine ⟨fun name => ?_, fun name declared loose => ?_, parts, required, allowed⟩
    · rw [completes.binds, solves.binds]
      refine ⟨?_, .inr⟩
      rintro ((given | ⟨atom, among, place⟩) | declared)
      · cases given
      · exact valid.mem_parameters among place
      · exact declared
    · obtain ⟨value, stored⟩ := Option.isSome_iff_exists.1 ((completes.binds name).2 (.inr declared))
      refine ⟨value, (completes.drawn name value stored).resolve_left fun joins => ?_, stored⟩
      -- the join binds no parameter but those of the positive preconditions
      rcases (solves.binds name).1 (Option.isSome_iff_exists.2 ⟨value, joins⟩) with given | ⟨atom, among, place⟩
      · cases given
      · exact loose atom among place
  · rintro ⟨binds, drawn, parts, required, allowed⟩
    have applicable := GroundAction.applicable_iff.2 ⟨required, allowed⟩
    obtain ⟨seed, joined, extended⟩ :=
      Literal.joinPositive_complete (NameMap.extends_empty choice.1) (parts.requires_hold applicable)
    have solves := Literal.solves_of_mem joined
    refine ⟨seed, joined, mem_completions_iff.2 ⟨extended, fun name => ?_, fun name value stored => ?_⟩,
      ground?_eq_some_iff.2 parts, applicable⟩
    · rw [binds]
      refine ⟨.inr, ?_⟩
      rintro (bound | declared)
      · obtain ⟨value, stored⟩ := Option.isSome_iff_exists.1 bound
        exact (binds name).1 (Option.isSome_iff_exists.2 ⟨value, extended name value stored⟩)
      · exact declared
    · by_cases joins : ∃ atom ∈ Literal.positives op.preconditions, name ∈ atom.vars
      · obtain ⟨bound, given⟩ := Option.isSome_iff_exists.1 ((solves.binds name).2 (.inr joins))
        exact .inl (by rw [given, ← extended name bound given, stored])
      · have declared := (binds name).1 (Option.isSome_iff_exists.2 ⟨value, stored⟩)
        obtain ⟨constant, among, same⟩ := drawn name declared (by simpa using joins)
        exact .inr (Option.some.inj (same.symm.trans stored) ▸ among)

/-- The bindings of the choices are pairwise apart. -/
theorem choices_apart (distinct : pool.Nodup) (op : Operator) (state : FactSet) :
    (op.choices pool state).Pairwise fun choice other => choice.1.Apart other.1 := by
  refine List.pairwise_flatMap.2 ⟨fun seed _ => ?_, (Literal.joinPositive_apart op.preconditions state .empty).imp ?_⟩
  · refine List.pairwise_filterMap.2 ((completions_apart distinct op.parameters seed).imp ?_)
    intro one other apart choice made choice' made'
    obtain ⟨_, _, rfl⟩ := Option.map_eq_some_iff.1 made
    obtain ⟨_, _, rfl⟩ := Option.map_eq_some_iff.1 made'
    exact apart
  · intro seed seed' apart choice member choice' member'
    obtain ⟨bindings, completed, made⟩ := List.mem_filterMap.1 member
    obtain ⟨bindings', completed', made'⟩ := List.mem_filterMap.1 member'
    obtain ⟨_, _, rfl⟩ := Option.map_eq_some_iff.1 made
    obtain ⟨_, _, rfl⟩ := Option.map_eq_some_iff.1 made'
    exact apart.of_extends (completes_of_mem completed).above (completes_of_mem completed').above

theorem nodup_choices (distinct : pool.Nodup) (op : Operator) (state : FactSet) :
    ((op.choices pool state).map Prod.fst).Nodup :=
  List.pairwise_map.2 ((choices_apart distinct op state).imp NameMap.Apart.ne)

/-- An action has its arguments from one choice only. -/
theorem Takes.bindings_eq (takes : op.Takes pool state choice) (takes' : op.Takes pool state other)
    (same : choice.2.action = other.2.action) : choice.1 = other.1 := by
  have values : op.parameters.map choice.1.get? = op.parameters.map other.1.get? := by
    rw [takes.grounds.args, takes'.grounds.args, same]
  refine NameMap.eq_of_get?_eq fun name => ?_
  by_cases declared : name ∈ op.parameters
  · exact List.map_inj_left.1 values name declared
  · have free : choice.1.get? name = none := by simpa [NameMap.contains] using mt (takes.binds name).1 declared
    have free' : other.1.get? name = none := by simpa [NameMap.contains] using mt (takes'.binds name).1 declared
    rw [free, free']

/-- No action of a valid operator is listed twice. -/
theorem Valid.nodup_actions (valid : op.Valid) (distinct : pool.Nodup) (state : FactSet) :
    ((op.choices pool state).map (·.2.action)).Nodup := by
  refine List.pairwise_map.2 (List.Pairwise.imp_of_mem ?_ (List.pairwise_map.1 (nodup_choices distinct op state)))
  intro choice other member member' differ same
  exact differ ((valid.mem_choices_iff.1 member).bindings_eq (valid.mem_choices_iff.1 member') same)

end Operator

end Deliberation
