import Deliberation.Proofs.Inference.Calls
import Deliberation.Proofs.Inference.Passes

/-!
The derivations of a run account for its facts. Each is justified where it stands: a rule makes its fact of
premises that were given or derived before, when none of the facts that the rule's negated literals are
about had been.
-/

namespace Deliberation

/-- The facts that atoms become, where all become some. -/
theorem Atom.AllAre.map_ground? {kind : Fact → Prop} {atoms : List Atom} {bindings : Bindings}
    (all : AllAre kind atoms bindings) :
    atoms.map (·.ground? bindings) = (atoms.filterMap (·.ground? bindings)).map some ∧
      ∀ fact ∈ atoms.filterMap (·.ground? bindings), kind fact := by
  obtain ⟨facts, same, every⟩ := allAre_iff.1 all
  have found : atoms.filterMap (·.ground? bindings) = facts := by
    simpa [List.filterMap_map] using congrArg (List.filterMap id) same
  rw [found]
  exact ⟨same, every⟩

/-- A fact is given, or one of the derivations is of it. -/
def Derivation.Known (facts : FactSet) (derived : List Derivation) (fact : Fact) : Prop :=
  fact ∈ facts ∨ fact ∈ derived.map Derivation.fact

/-- A rule of the label applies: it makes the fact of the premises, which are known, and what its negated
literals are about is not known. -/
def Derivation.Justified (rules : List Rule) (known : Fact → Prop) (derivation : Derivation) : Prop :=
  ∃ rule place absent, (rule, place) ∈ rules.zipIdx ∧ derivation.rule = rule.label place ∧
    rule.Applies derivation.fact derivation.premises absent ∧
    (∀ premise ∈ derivation.premises, known premise) ∧ ∀ fact ∈ absent, ¬ known fact

namespace Inference

open Deliberation.Derivation (Known)

variable {facts : FactSet} {rules : List Rule} {rule : Rule} {place pass : Nat} {state : Saturation} {derived : List Derivation}

/-- Derivations of facts that differ from one another and from those given, pass after pass, each justified by
what is known before it. -/
structure Trace (facts : FactSet) (rules : List Rule) (derived : List Derivation) : Prop where
  distinct : (derived.map Derivation.fact).Nodup
  fresh : ∀ derivation ∈ derived, derivation.fact ∉ facts
  ordered : (derived.map Derivation.pass).Pairwise (· ≤ ·)
  positive : ∀ derivation ∈ derived, 1 ≤ derivation.pass
  justified : ∀ before derivation after, derived = before ++ derivation :: after →
    derivation.Justified rules (Known facts before)

theorem trace_nil (facts : FactSet) (rules : List Rule) : Trace facts rules [] := by
  refine ⟨.nil, by simp, .nil, by simp, fun before derivation after split => ?_⟩
  simp at split

/-- A trace goes on with a fact that is not known, in the same pass or a later one. -/
theorem Trace.snoc (trace : Trace facts rules derived) {derivation : Derivation}
    (fresh : ¬ Known facts derived derivation.fact) (positive : 1 ≤ derivation.pass)
    (latest : ∀ earlier ∈ derived, earlier.pass ≤ derivation.pass)
    (justified : derivation.Justified rules (Known facts derived)) : Trace facts rules (derived ++ [derivation]) := by
  obtain ⟨ungiven, underived⟩ := not_or.1 fresh
  refine ⟨?_, ?_, ?_, ?_, ?_⟩
  · simpa using trace.distinct.concat underived
  · exact List.forall_mem_append.2 ⟨trace.fresh, by simpa using ungiven⟩
  · rw [List.map_append, List.map_singleton, List.pairwise_append]
    exact ⟨trace.ordered, List.pairwise_singleton .., by simpa using latest⟩
  · exact List.forall_mem_append.2 ⟨trace.positive, by simpa using positive⟩
  · intro before other after split
    rcases List.eq_nil_or_concat after with rfl | ⟨rest, last, rfl⟩
    · obtain ⟨rfl, same⟩ := List.append_inj' split rfl
      cases same
      exact justified
    · have longer : derived ++ [derivation] = (before ++ other :: rest) ++ [last] := by simpa using split
      exact trace.justified before other rest (List.append_inj' longer rfl).1

/-- The facts of a state are those known by its derivations, which trace how they came about up to a pass. -/
structure Traced (facts : FactSet) (rules : List Rule) (pass : Nat) (state : Saturation) : Prop where
  known : ∀ fact, fact ∈ state.facts ↔ Known facts state.derived fact
  trace : Trace facts rules state.derived
  latest : ∀ derivation ∈ state.derived, derivation.pass ≤ pass

theorem Traced.later (traced : Traced facts rules pass state) {next : Nat} (after : pass ≤ next) :
    Traced facts rules next state :=
  ⟨traced.known, traced.trace, fun derivation member => (traced.latest derivation member).trans after⟩

/-- A firing under bindings that make the positive literals facts is justified, if it adds anything. -/
theorem Traced.fire (traced : Traced facts rules pass state) (positive : 1 ≤ pass) (listed : (rule, place) ∈ rules.zipIdx)
    (safe : rule.Safe) {bindings : Bindings} (holds : Atom.AllAre (· ∈ state.facts) rule.positives bindings) :
    Traced facts rules pass (Inference.fire rules rule place pass state bindings) := by
  rcases fire_cases rules rule place pass state bindings with ⟨same, _⟩ | ⟨fact, ground, fresh, absent, added⟩
  · rw [same]
    exact traced
  · have fails : Atom.AllAre (· ∉ state.facts) rule.negatives bindings := by
      intro atom among
      obtain ⟨other, becomes⟩ := safe.negative_ground holds among
      exact ⟨other, absent atom among other becomes, becomes⟩
    obtain ⟨positives, premises⟩ := holds.map_ground?
    obtain ⟨negatives, absences⟩ := fails.map_ground?
    rw [added]
    refine ⟨fun other => ?_, traced.trace.snoc ?_ positive traced.latest ?_, ?_⟩
    · rw [OrdSet.mem_insert, traced.known, Known, Known, List.map_append, List.mem_append, List.map_singleton, List.mem_singleton]
      tauto
    · rwa [traced.known] at fresh
    · refine ⟨rule, place, _, listed, rfl, ⟨bindings, ground, positives, negatives⟩, fun premise member => ?_, fun other member => ?_⟩
      · exact (traced.known premise).1 (premises premise member)
      · exact fun known => absences other member ((traced.known other).2 known)
    · exact List.forall_mem_append.2 ⟨traced.latest, by simp⟩

/-- The bindings are those of the facts at the start, and what is a fact stays one while the rule fires. -/
theorem Traced.evaluate (traced : Traced facts rules pass state) (positive : 1 ≤ pass)
    (listed : (rule, place) ∈ rules.zipIdx) (safe : rule.Safe) :
    Traced facts rules pass (Inference.evaluate rules pass state rule place) := by
  have firings (frontier : List Bindings) (current : Saturation) (traced : Traced facts rules pass current)
      (holds : ∀ bindings ∈ frontier, Atom.AllAre (· ∈ current.facts) rule.positives bindings) :
      Traced facts rules pass (frontier.foldl (Inference.fire rules rule place pass) current) := by
    induction frontier generalizing current with
    | nil => exact traced
    | cons bindings rest ih =>
      obtain ⟨here, others⟩ := List.forall_mem_cons.1 holds
      refine ih _ (traced.fire positive listed safe here) fun other member => ?_
      exact (others other member).imp fire_grows.facts
  refine firings _ _ ⟨traced.known, traced.trace, traced.latest⟩ fun bindings member => ?_
  exact (Literal.satisfyingBindings_sound member).1

theorem Traced.runPass (traced : Traced facts rules pass state) (positive : 1 ≤ pass) (safe : ∀ rule ∈ rules, rule.Safe) :
    Traced facts rules pass (Inference.runPass rules pass state) :=
  runPass_keeps traced fun _ kept rule _ listed =>
    kept.evaluate positive listed (safe rule (List.fst_mem_of_mem_zipIdx listed))

theorem Runs.trace {inference : Inference} (runs : Runs rules pass state inference) (safe : ∀ rule ∈ rules, rule.Safe)
    (positive : 1 ≤ pass) (traced : Traced facts rules pass state) :
    (∀ fact, fact ∈ inference.facts ↔ Known facts inference.derived fact) ∧ Trace facts rules inference.derived := by
  induction runs with
  | settled _ =>
    have last := traced.runPass positive safe
    exact ⟨last.known, last.trace⟩
  | productive _ _ ih => exact ih (by omega) ((traced.runPass positive safe).later (Nat.le_succ _))

/-- What forward chaining returns are the given facts and those of its derivations, and these trace how each
came about. -/
theorem forwardChain_trace {maxPasses : Option Nat} {inference : Inference}
    (finished : forwardChain facts rules maxPasses = .ok inference) :
    (∀ fact, fact ∈ inference.facts ↔ Known facts inference.derived fact) ∧ Trace facts rules inference.derived := by
  have safe := safe_of_forwardChain finished
  rw [forwardChain_eq_saturate safe] at finished
  refine (runs_of_saturate finished).trace safe le_rfl ⟨fun fact => ?_, trace_nil facts rules, by simp⟩
  simp [Known]

def rivals : FactSet := .ofList [⟨"rival", ["a", "b"]⟩, ⟨"rival", ["b", "a"]⟩]

/-- Either of two rivals could be picked when the rule starts; the one that is picked first keeps the other
from it. -/
def picked : Inference where
  facts := rivals.insertAll [⟨"picked", ["a"]⟩, ⟨"rival", ["a", "c"]⟩]
  derived :=
    [⟨⟨"picked", ["a"]⟩, "pick", 1, [⟨"rival", ["a", "b"]⟩]⟩, ⟨⟨"rival", ["a", "c"]⟩, "rule#1", 1, [⟨"picked", ["a"]⟩]⟩]
  passes := 2

theorem picking_trace : forwardChain rivals picking (some 1) = .ok picked ∧
    (∀ fact, fact ∈ picked.facts ↔ Known rivals picked.derived fact) ∧ Trace rivals picking picked.derived := by
  have finished : forwardChain rivals picking (some 1) = .ok picked := rfl
  exact ⟨finished, forwardChain_trace finished⟩

end Inference

end Deliberation
