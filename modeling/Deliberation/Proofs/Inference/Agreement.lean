import Deliberation.Proofs.Inference.Proving
import Deliberation.Proofs.Inference.Saturation

/-!
Backward chaining agrees with the model of stratified rules, and with forward chaining where no rule
has a negated literal.
-/

namespace Deliberation.Inference

variable {facts : FactSet} {rules : List Rule}

/-- Without negated literals one level is enough. -/
theorem levelled_of_positive (positive : ∀ rule ∈ rules, rule.negatives = []) : Rule.Levelled rules fun _ => 0 := by
  refine ⟨fun _ _ _ _ => le_rfl, fun rule member atom among => ?_⟩
  rw [positive rule member] at among
  simp at among

/-- Facts that are closed under rules without negated literals have all facts of the model. -/
theorem mem_of_model {closure : FactSet} (given : ∀ fact ∈ facts, fact ∈ closure)
    (closed : ∀ rule ∈ rules, Closed rule closure) (positive : ∀ rule ∈ rules, rule.negatives = []) {fact : Fact}
    (holds : Model facts rules (fun _ => 0) fact) : fact ∈ closure := by
  obtain ⟨steps, within⟩ := (model_iff_derivable (levelled_of_positive positive)).1 holds
  induction steps generalizing fact with
  | zero => exact given fact within
  | succ steps ih =>
    rcases within with known | ⟨_, rule, member, bindings, ground, premises, _⟩
    · exact given fact known
    · have kept : Atom.AllAre (· ∈ closure) rule.positives bindings := premises.imp fun premise derivable =>
        ih ((model_iff_derivable (levelled_of_positive positive)).2 ⟨steps, derivable⟩) derivable
      have none : Atom.AllAre (· ∉ closure) rule.negatives bindings := by simp [positive rule member, Atom.AllAre]
      exact closed rule member fact ⟨bindings, ground, kept, none⟩

/-- A kind of facts that has the given ones, and to which rules have nothing to add. -/
structure ClosedOver (facts : FactSet) (rules : List Rule) (kind : Set Fact) : Prop where
  given : ∀ fact ∈ facts, fact ∈ kind
  closed : ∀ rule ∈ rules, ∀ fact, rule.Concludes (· ∈ kind) (· ∉ kind) fact → fact ∈ kind

/-- The facts of a run lie in every kind that is closed, as long as no rule asks for absence. -/
theorem Chained.mem_of_closedOver {state : Saturation} (chained : Chained facts rules state)
    (positive : ∀ rule ∈ rules, rule.negatives = []) {kind : Set Fact} (closed : ClosedOver facts rules kind)
    {fact : Fact} (known : fact ∈ state.facts) : fact ∈ kind := by
  refine chained.least (· ∈ kind) closed.given ?_ fact known
  rintro rule member fails conclusion ⟨bindings, ground, premises, _⟩
  refine closed.closed rule member conclusion ⟨bindings, ground, premises, ?_⟩
  simp [positive rule member, Atom.AllAre]

/-- The facts of a run under rules without negated literals belong to the model. -/
theorem Chained.model {state : Saturation} (chained : Chained facts rules state)
    (positive : ∀ rule ∈ rules, rule.negatives = []) {fact : Fact} (known : fact ∈ state.facts) :
    Model facts rules (fun _ => 0) fact := by
  have closed : ClosedOver facts rules {fact | Model facts rules (fun _ => 0) fact} :=
    ⟨fun given member => ⟨0, member⟩, fun rule member conclusion concludes =>
      .of_concludes (levelled_of_positive positive) member concludes⟩
  exact chained.mem_of_closedOver positive closed known

/-- Backward chaining proves exactly the facts of the model of stratified rules, and without negated
literals exactly what forward chaining adds; that run can only fail by reaching more facts than passes
can be counted. -/
theorem prove_agrees_with_model (safe : ∀ rule ∈ rules, rule.Safe) (goal : Fact) :
    (Rule.Stratified rules → (∃ level, Rule.Levelled rules level) ∧ ∀ level, Rule.Levelled rules level →
        ((∃ proof, Backward.prove goal.toAtom facts rules = .ok (some proof)) ↔ Model facts rules level goal)) ∧
      ((∀ rule ∈ rules, rule.negatives = []) →
        match forwardChain facts rules none with
        | .ok inference =>
          (∃ proof, Backward.prove goal.toAtom facts rules = .ok (some proof)) ↔ goal ∈ inference.facts
        | .error error => ∃ passes reached, error = .stalled passes greatestBound reached ∧
            greatestBound < reached.size) := by
  constructor
  · intro stratified
    exact ⟨Rule.stratified_iff_exists_levelled.1 stratified,
      fun level levelled => Backward.exists_prove_iff_model safe levelled⟩
  · intro positive
    rcases @forwardChain_cases rules facts safe with ⟨inference, last, finished, chained, same, closed⟩ |
      ⟨passes, reached, stalled, full⟩
    · rw [finished]
      dsimp only
      rw [Backward.exists_prove_iff_model safe (levelled_of_positive positive), same]
      exact ⟨mem_of_model chained.given closed positive, chained.model positive⟩
    · rw [stalled]
      exact ⟨passes, reached, rfl, full⟩

/-- A rule of one negated literal: birds fly that are not penguins. -/
def flyingBirds : List Rule :=
  [⟨none, [.positive ⟨"bird", [.var "x"]⟩, .negative ⟨"penguin", [.var "x"]⟩], ⟨"flies", [.var "x"]⟩⟩]

theorem bird_flies_in_model :
    (∀ rule ∈ flyingBirds, rule.Safe) ∧
      Model (.ofList [⟨"bird", ["tweety"]⟩]) flyingBirds (fun name => if name = "flies" then 1 else 0)
        ⟨"flies", ["tweety"]⟩ := by
  have safe : ∀ rule ∈ flyingBirds, rule.Safe := by decide
  have levelled : Rule.Levelled flyingBirds (fun name => if name = "flies" then 1 else 0) :=
    ⟨by decide, by decide⟩
  have stratified := Rule.stratified_iff_exists_levelled.2 ⟨_, levelled⟩
  have agrees := @prove_agrees_with_model (.ofList [⟨"bird", ["tweety"]⟩]) _ safe ⟨"flies", ["tweety"]⟩
  exact ⟨safe, ((agrees.1 stratified).2 _ levelled).1 ⟨_, rfl⟩⟩

end Deliberation.Inference
