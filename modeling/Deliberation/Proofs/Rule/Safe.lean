import Deliberation.Proofs.Fact.Join
import Deliberation.Rule.Basic

/-!
Safe rules: validation accepts exactly these, and bindings that make the positive literals facts
make facts of the consequent and of the negated literals as well.
-/

namespace Deliberation.Rule

theorem validate_eq_ok_iff {rule : Rule} {place : Nat} : rule.validate place = .ok () ↔ rule.Safe := by
  rw [validate]
  cases found : rule.needed.find? (· ∉ rule.bound) with
  | none => simpa [Safe] using found
  | some name =>
    have needed := List.mem_of_find?_eq_some found
    have unbound := List.find?_some found
    simp only [reduceCtorEq, false_iff]
    intro safe
    simp [safe name needed] at unbound

theorem validateAll_eq_ok_iff {rules : List Rule} : validateAll rules = .ok () ↔ ∀ rule ∈ rules, rule.Safe := by
  rw [validateAll, Lists.forM_eq_ok_iff]
  constructor
  · intro accepted rule member
    obtain ⟨place, found⟩ := List.mem_iff_getElem?.1 member
    exact validate_eq_ok_iff.1 (accepted (rule, place) (List.mk_mem_zipIdx_iff_getElem?.2 found))
  · rintro safe ⟨rule, place⟩ listed
    exact validate_eq_ok_iff.2 (safe rule (List.fst_mem_of_mem_zipIdx listed))

/-- Rules are only refused for a variable that is not bound. -/
theorem validateAll_error {rules : List Rule} {error : InferError} (refused : validateAll rules = .error error) :
    ∃ label name, error = .unsafeVariable label name := by
  obtain ⟨⟨rule, place⟩, _, failed⟩ := Lists.exists_error_of_forM refused
  simp only [validate] at failed
  split at failed
  · next name _ => exact ⟨_, name, (Except.error.inj failed).symm⟩
  · cases failed

theorem mem_concluding {rules : List Rule} {predicate : String} {rule : Rule} {place : Nat}
    (member : (rule, place) ∈ concluding rules predicate) :
    rule ∈ rules ∧ rule.consequent.predicate = predicate := by
  obtain ⟨listed, concludes⟩ := List.mem_filter.1 member
  exact ⟨List.fst_mem_of_mem_zipIdx listed, by simpa using concludes⟩

theorem exists_mem_concluding {rules : List Rule} {rule : Rule} (member : rule ∈ rules) :
    ∃ place, (rule, place) ∈ concluding rules rule.consequent.predicate := by
  obtain ⟨place, found⟩ := List.mem_iff_getElem?.1 member
  exact ⟨place, List.mem_filter.2 ⟨List.mk_mem_zipIdx_iff_getElem?.2 found, by simp⟩⟩

variable {rule : Rule} {kind : Fact → Prop} {bindings : Bindings}

/-- Bindings that make the positive literals facts bind every variable that a safe rule needs. -/
theorem Safe.binds (safe : rule.Safe) (positives : Atom.AllAre kind rule.positives bindings) {name : String}
    (needed : name ∈ rule.needed) : ∃ value, bindings.get? name = some value := by
  obtain ⟨atom, among, place⟩ := List.mem_flatMap.1 (safe name needed)
  obtain ⟨fact, _, ground⟩ := positives atom among
  exact Atom.exists_ground?_iff.1 ⟨fact, ground⟩ name place

theorem Safe.consequent_ground (safe : rule.Safe) (positives : Atom.AllAre kind rule.positives bindings) :
    ∃ fact, rule.consequent.ground? bindings = some fact :=
  Atom.exists_ground?_iff.2 fun _ place => safe.binds positives (List.mem_append_left _ place)

theorem Safe.negative_ground (safe : rule.Safe) (positives : Atom.AllAre kind rule.positives bindings) {atom : Atom}
    (among : atom ∈ rule.negatives) : ∃ fact, atom.ground? bindings = some fact :=
  Atom.exists_ground?_iff.2 fun _ place =>
    safe.binds positives (List.mem_append_right _ (List.mem_flatMap.2 ⟨atom, among, place⟩))

/-- The antecedent of a safe rule is satisfied by bindings below any that satisfy it, and they conclude the same. -/
theorem Safe.satisfyingBindings_complete (safe : rule.Safe) {facts : FactSet} {whole : Bindings} {fact : Fact}
    (holds : Atom.AllAre (· ∈ facts) rule.positives whole) (fails : Atom.AllAre (· ∉ facts) rule.negatives whole)
    (ground : rule.consequent.ground? whole = some fact) :
    ∃ found ∈ Literal.satisfyingBindings rule.antecedent facts, whole.Extends found ∧
      rule.consequent.ground? found = some fact := by
  obtain ⟨found, member, within⟩ := Literal.joinPositive_complete (NameMap.extends_empty whole) holds
  have positives := (Literal.joinPositive_sound member).2
  refine ⟨found, List.mem_filter.2 ⟨member, ?_⟩, within, ?_⟩
  · rw [beq_iff_eq, Literal.negationsHold, Literal.noneHolds_eq_true_iff]
    intro atom among
    obtain ⟨absent, unknown, becomes⟩ := fails atom among
    obtain ⟨present, already⟩ := safe.negative_ground positives among
    have same := (Atom.ground?_of_extends within already).symm.trans becomes
    exact ⟨present, Option.some.inj same ▸ unknown, already⟩
  · obtain ⟨present, already⟩ := safe.consequent_ground positives
    rw [already, ← ground, Atom.ground?_of_extends within already]

theorem mem_triggeredBy {rules : List Rule} {predicate : String} {place : Nat} :
    place ∈ triggeredBy rules predicate ↔
      ∃ rule, (rule, place) ∈ rules.zipIdx ∧ ∃ atom ∈ rule.positives, atom.predicate = predicate := by
  simp [triggeredBy]

end Deliberation.Rule
