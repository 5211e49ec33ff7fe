import Deliberation.Proofs.Inference.Naive

/-!
What forward chaining returns is a fixpoint: no rule has anything to add to it, and to chain forward
from it again is one pass that derives nothing.
-/

namespace Deliberation.Inference

variable {facts : FactSet} {rules : List Rule} {maxPasses : Option Nat} {inference : Inference}

theorem safe_of_forwardChain (finished : forwardChain facts rules maxPasses = .ok inference) :
    ∀ rule ∈ rules, rule.Safe := by
  obtain ⟨⟨⟩, valid, _⟩ := Lists.bind_eq_ok finished
  exact Rule.validateAll_eq_ok_iff.1 valid

/-- Whatever the limit on passes, what is returned are the facts at the end of a run, to which no rule has
anything to add. -/
theorem chained_of_forwardChain (finished : forwardChain facts rules maxPasses = .ok inference) :
    ∃ last, Chained facts rules last ∧ inference.facts = last.facts ∧ ∀ rule ∈ rules, Closed rule last.facts := by
  have safe := safe_of_forwardChain finished
  rw [forwardChain_eq_saturate safe] at finished
  rcases saturate_cases (fun _ _ chained => chained.runPass safe) (chained_start facts rules) with
    ⟨other, last, final, returned, chained, settled, same⟩ | ⟨last, final, stalled, _, _⟩
  · have own : other = inference := Except.ok.inj (returned.symm.trans finished)
    rw [← own, same]
    exact ⟨_, chained.runPass safe, rfl, chained.closed safe settled⟩
  · rw [stalled] at finished
    cases finished

theorem closed_of_forwardChain (finished : forwardChain facts rules maxPasses = .ok inference) :
    ∀ rule ∈ rules, Closed rule inference.facts := by
  obtain ⟨last, _, same, closed⟩ := chained_of_forwardChain finished
  rw [same]
  exact closed

/-- The facts that are reported where passes run out are those of a run that goes on. -/
theorem chained_of_stalled (safe : ∀ rule ∈ rules, rule.Safe) {passes bound : Nat} {reached : FactSet}
    (stalled : forwardChain facts rules maxPasses = .error (.stalled passes bound reached)) :
    ∃ last, Chained facts rules last ∧ reached = last.facts := by
  rw [forwardChain_eq_saturate safe] at stalled
  rcases saturate_cases (fun _ _ chained => chained.runPass safe) (chained_start facts rules) with
    ⟨other, _, _, finished, _⟩ | ⟨last, final, failed, chained, _⟩
  · rw [finished] at stalled
    cases stalled
  · have same := Except.error.inj (failed.symm.trans stalled)
    rw [InferError.stalled.injEq] at same
    exact ⟨last, chained, same.2.2.symm⟩

/-- Facts to which no rule has anything to add are returned after one pass. -/
theorem forwardChain_of_closed (safe : ∀ rule ∈ rules, rule.Safe) (closed : ∀ rule ∈ rules, Closed rule facts)
    (maxPasses : Option Nat) : forwardChain facts rules maxPasses = .ok ⟨facts, [], 1⟩ := by
  have idle : Naive.runPass rules 1 ⟨facts, []⟩ = ⟨facts, []⟩ := Naive.runPass_of_closed closed
  rw [forwardChain_eq_naive, Naive.forwardChain, Rule.validateAll_eq_ok_iff.2 safe]
  dsimp only [bind, Except.bind]
  cases (maxPasses.map (min · (passBound facts rules))).getD (passBound facts rules) with
  | zero => rw [Naive.saturate, idle, if_pos rfl]
  | succ _ => rw [Naive.saturate, idle, if_pos rfl]

/-- The facts that forward chaining returns are closed under the rules, whatever the bindings, and chaining
forward again from them returns them after one pass without a derivation. -/
theorem forwardChain_fixpoint (finished : forwardChain facts rules maxPasses = .ok inference) :
    (∀ rule ∈ rules, ∀ bindings, Atom.AllAre (· ∈ inference.facts) rule.positives bindings →
        (∀ atom ∈ rule.negatives, ∀ absent, atom.ground? bindings = some absent → absent ∉ inference.facts) →
        ∃ fact ∈ inference.facts, rule.consequent.ground? bindings = some fact) ∧
      ∀ again, forwardChain inference.facts rules again = .ok ⟨inference.facts, [], 1⟩ := by
  have safe := safe_of_forwardChain finished
  have closed := closed_of_forwardChain finished
  constructor
  · intro rule member bindings holds fails
    obtain ⟨fact, ground⟩ := (safe rule member).consequent_ground holds
    have absent : Atom.AllAre (· ∉ inference.facts) rule.negatives bindings := by
      intro atom among
      obtain ⟨absent, becomes⟩ := (safe rule member).negative_ground holds among
      exact ⟨absent, fails atom among absent becomes, becomes⟩
    exact ⟨fact, closed rule member fact ⟨bindings, ground, holds, absent⟩, ground⟩
  · exact forwardChain_of_closed safe closed

/-- One gets along open roads, and from there on. -/
def travelling : List Rule :=
  [⟨none, [.positive ⟨"along", [.var "x", .var "y"]⟩, .positive ⟨"along", [.var "y", .var "z"]⟩],
      ⟨"along", [.var "x", .var "z"]⟩⟩,
    ⟨none, [.positive ⟨"road", [.var "x", .var "y"]⟩, .negative ⟨"shut", [.var "y"]⟩], ⟨"along", [.var "x", .var "y"]⟩⟩]

def roads : FactSet :=
  .ofList [⟨"road", ["a", "b"]⟩, ⟨"road", ["b", "c"]⟩, ⟨"road", ["c", "d"]⟩, ⟨"shut", ["d"]⟩]

/-- Where one gets, found in two passes that derive something and one that does not. -/
def travelled : Inference where
  facts := roads.insertAll [⟨"along", ["a", "b"]⟩, ⟨"along", ["b", "c"]⟩, ⟨"along", ["a", "c"]⟩]
  derived :=
    [⟨⟨"along", ["a", "b"]⟩, "rule#1", 1, [⟨"road", ["a", "b"]⟩]⟩,
      ⟨⟨"along", ["b", "c"]⟩, "rule#1", 1, [⟨"road", ["b", "c"]⟩]⟩,
      ⟨⟨"along", ["a", "c"]⟩, "rule#0", 2, [⟨"along", ["a", "b"]⟩, ⟨"along", ["b", "c"]⟩]⟩]
  passes := 3

theorem travelling_fixpoint :
    forwardChain roads travelling (some 2) = .ok travelled ∧
      forwardChain travelled.facts travelling none = .ok ⟨travelled.facts, [], 1⟩ := by
  have finished : forwardChain roads travelling (some 2) = .ok travelled := rfl
  exact ⟨finished, (forwardChain_fixpoint finished).2 none⟩

end Deliberation.Inference
