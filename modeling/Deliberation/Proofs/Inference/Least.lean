import Deliberation.Proofs.Inference.Agreement
import Deliberation.Proofs.Inference.Fixpoint

/-!
Under rules without negated literals forward chaining returns the least facts that have the given ones
and are closed. That leaves no choice: neither the order of the rules nor their repetition matters,
and with more facts or more rules there are no fewer facts in the end.
-/

namespace Deliberation

/-- A set is known by its members. -/
theorem OrdSet.ext_mem {α : Type} [Ord α] [Std.TransOrd α] {s t : OrdSet α} (same : ∀ a, a ∈ s ↔ a ∈ t) : s = t := by
  have members : s.toList = t.toList := Lists.eq_of_increasing id s.increasing t.increasing same
  cases s
  cases t
  cases members
  rfl

namespace Inference

variable {facts : FactSet} {rules : List Rule} {maxPasses : Option Nat} {inference : Inference}

theorem ClosedOver.of_subset {fewer : FactSet} {part : List Rule} {kind : Set Fact} (closed : ClosedOver facts rules kind)
    (known : ∀ fact ∈ fewer, fact ∈ facts) (among : part ⊆ rules) : ClosedOver fewer part kind :=
  ⟨fun fact member => closed.given fact (known fact member), fun rule member => closed.closed rule (among member)⟩

theorem isLeast_of_forwardChain (positive : ∀ rule ∈ rules, rule.negatives = [])
    (finished : forwardChain facts rules maxPasses = .ok inference) :
    IsLeast {kind | ClosedOver facts rules kind} {fact | fact ∈ inference.facts} := by
  obtain ⟨last, chained, same, _⟩ := chained_of_forwardChain finished
  have given : ∀ fact ∈ facts, fact ∈ inference.facts := by
    rw [same]
    exact chained.given
  refine ⟨⟨given, closed_of_forwardChain finished⟩, fun kind closed fact known => ?_⟩
  have reached : fact ∈ last.facts := same ▸ known
  exact chained.mem_of_closedOver positive closed reached

/-- Forward chaining under rules without negated literals returns the least facts that have the given ones and
are closed. Whatever lists the same rules leads to the same facts, unless these are more than passes can be
counted; more facts and more rules lead to no fewer. -/
theorem forwardChain_least (positive : ∀ rule ∈ rules, rule.negatives = [])
    (finished : forwardChain facts rules maxPasses = .ok inference) :
    IsLeast {kind | ClosedOver facts rules kind} {fact | fact ∈ inference.facts} ∧
      (∀ others : List Rule, (∀ rule, rule ∈ others ↔ rule ∈ rules) →
        match forwardChain facts others none with
        | .ok again => again.facts = inference.facts
        | .error error => ∃ passes reached, error = .stalled passes greatestBound reached ∧
            greatestBound < reached.size ∧ ∀ fact ∈ reached, fact ∈ inference.facts) ∧
      ∀ (more : FactSet) (others : List Rule) (limit : Option Nat) (larger : Inference),
        (∀ fact ∈ facts, fact ∈ more) → rules ⊆ others → (∀ rule ∈ others, rule.negatives = []) →
        forwardChain more others limit = .ok larger → ∀ fact ∈ inference.facts, fact ∈ larger.facts := by
  have least := isLeast_of_forwardChain positive finished
  refine ⟨least, fun others same => ?_, fun more others limit larger known among free finished' => ?_⟩
  · have safe : ∀ rule ∈ others, rule.Safe := fun rule member => safe_of_forwardChain finished rule ((same rule).1 member)
    have positive' : ∀ rule ∈ others, rule.negatives = [] := fun rule member => positive rule ((same rule).1 member)
    have closed : ClosedOver facts others {fact | fact ∈ inference.facts} :=
      least.1.of_subset (fun _ => id) fun rule => (same rule).1
    rcases @forwardChain_cases others facts safe with ⟨again, _, finished', _⟩ | ⟨passes, last, stalled, full⟩
    · rw [finished']
      have least' := isLeast_of_forwardChain positive' finished'
      refine OrdSet.ext_mem fun fact => ⟨fun known => least'.2 closed known, fun known => least.2 ?_ known⟩
      exact least'.1.of_subset (fun _ => id) fun rule => (same rule).2
    · obtain ⟨reached, chained, own⟩ := chained_of_stalled safe stalled
      rw [stalled]
      refine ⟨passes, last, rfl, full, fun fact known => ?_⟩
      rw [own] at known
      exact chained.mem_of_closedOver positive' closed known
  · have least' := isLeast_of_forwardChain free finished'
    exact fun fact member => least.2 (least'.1.of_subset known among) member

/-- One gets along roads, and from there on. -/
def joining : List Rule :=
  [⟨none, [.positive ⟨"along", [.var "x", .var "y"]⟩, .positive ⟨"along", [.var "y", .var "z"]⟩],
      ⟨"along", [.var "x", .var "z"]⟩⟩,
    ⟨some "start", [.positive ⟨"road", [.var "x", .var "y"]⟩], ⟨"along", [.var "x", .var "y"]⟩⟩]

/-- The rules in the other order, each of them twice, take two passes fewer to the same facts; the second rule
alone leads to some of them. -/
theorem joining_least :
    (∀ rule ∈ joining, rule.negatives = []) ∧
      ∃ first second part, forwardChain roads joining none = .ok first ∧ first.passes = 4 ∧
        forwardChain roads (joining.reverse ++ joining) none = .ok second ∧ second.passes = 2 ∧
        second.facts = first.facts ∧ forwardChain roads joining.tail none = .ok part ∧
        ∀ fact ∈ part.facts, fact ∈ first.facts := by
  have positive : ∀ rule ∈ joining, rule.negatives = [] := by decide
  obtain ⟨first, finished, passes⟩ : ∃ first, forwardChain roads joining none = .ok first ∧ first.passes = 4 :=
    ⟨_, rfl, rfl⟩
  obtain ⟨second, finished', passes'⟩ :
      ∃ second, forwardChain roads (joining.reverse ++ joining) none = .ok second ∧ second.passes = 2 := ⟨_, rfl, rfl⟩
  obtain ⟨part, fewer⟩ : ∃ part, forwardChain roads joining.tail none = .ok part := ⟨_, rfl⟩
  have same := (forwardChain_least positive finished).2.1 (joining.reverse ++ joining) (by simp)
  rw [finished'] at same
  have grows := (forwardChain_least (by decide) fewer).2.2 roads joining none first (fun _ => id)
    (List.tail_subset joining) positive finished
  exact ⟨positive, first, second, part, finished, passes, finished', passes', same, fewer, grows⟩

end Inference

end Deliberation
