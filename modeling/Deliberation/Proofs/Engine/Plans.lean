import Deliberation.Engine.Basic
import Deliberation.Proofs.Inference.Fixpoint
import Deliberation.Proofs.Planning.Replay

/-!
Plans of documents and their validation. The search starts from the initial state closed under the
rules, validation from the initial state as it is written. So validation can only miss facts that
closing adds, and where it adds none, it accepts every plan that is found.
-/

namespace Deliberation

/-- The larger of two states has what the smaller one has, and besides that only facts of a kind. -/
structure FactSet.UpTo (kind : Fact → Prop) (smaller larger : FactSet) : Prop where
  kept : ∀ fact ∈ smaller, fact ∈ larger
  extra : ∀ fact ∈ larger, fact ∈ smaller ∨ kind fact

section Replaying

variable {kind : Fact → Prop} {smaller larger final goal : FactSet} {ground : GroundAction} {operators : List Operator}
  {actions : List Action} {step : Nat}

theorem FactSet.UpTo.apply (upTo : smaller.UpTo kind larger) (ground : GroundAction) :
    FactSet.UpTo kind (ground.apply smaller) (ground.apply larger) := by
  constructor
  · intro fact member
    rw [GroundAction.mem_apply] at member ⊢
    exact member.imp_right fun ⟨known, kept⟩ => ⟨upTo.kept fact known, kept⟩
  · intro fact member
    rw [GroundAction.mem_apply] at member ⊢
    rcases member with added | ⟨known, kept⟩
    · exact .inl (.inl added)
    · exact (upTo.extra fact known).imp_left fun known => .inr ⟨known, kept⟩

/-- What stands in the way of an action that is applicable in the larger state is of the kind. -/
theorem FactSet.UpTo.unmet (upTo : smaller.UpTo kind larger) (applicable : ground.applicable larger = true) :
    ∀ fact ∈ ground.unmet smaller, kind fact := by
  obtain ⟨required, forbidden⟩ := GroundAction.applicable_iff.1 applicable
  intro fact member
  rw [GroundAction.unmet, List.mem_append, List.mem_filter, List.mem_filter] at member
  rcases member with ⟨needed, lacking⟩ | ⟨barred, present⟩
  · exact (upTo.extra fact (required fact needed)).resolve_left (by simpa using lacking)
  · exact absurd (upTo.kept fact (by simpa using present)) (forbidden fact barred)

theorem FactSet.UpTo.missing (upTo : smaller.UpTo kind larger) (reaches : ∀ fact ∈ goal, fact ∈ larger) :
    ∀ fact ∈ smaller.missing goal, kind fact := by
  intro fact member
  obtain ⟨wanted, lacking⟩ := List.mem_filter.1 member
  exact (upTo.extra fact (reaches fact wanted)).resolve_left (by simpa using lacking)

namespace Plan

/-- What the replay of a plan comes to where the initial state lacks facts of a kind: it ends in the final
state but for such facts, or it is refused for want of some of them. -/
inductive EndsUpTo (kind : Fact → Prop) (final : FactSet) : Except PlanError FactSet → Prop
  | reached {state : FactSet} (upTo : state.UpTo kind final) : EndsUpTo kind final (.ok state)
  | unmet {step : Nat} {action : Action} {facts : List Fact} (any : facts ≠ []) (lacking : ∀ fact ∈ facts, kind fact) :
      EndsUpTo kind final (.error (.invalidPlan step action facts))
  | missing {facts : List Fact} (any : facts ≠ []) (lacking : ∀ fact ∈ facts, kind fact) :
      EndsUpTo kind final (.error (.goalNotReached facts))

/-- A step that can be replayed belongs to the operator of its name and is applicable. -/
theorem replay_cons {action : Action} {rest : List Action} {state : FactSet}
    (replayed : replay operators step (action :: rest) state = .ok final) :
    ∃ op, operators.find? (·.name = action.operator) = some op ∧ ∃ ground, op.instantiate action.args = .ok ground ∧
      ground.applicable state = true ∧ replay operators (step + 1) rest (ground.apply state) = .ok final := by
  rw [replay] at replayed
  split at replayed
  · cases replayed
  · next op found =>
    obtain ⟨ground, made, replayed⟩ := Lists.bind_eq_ok replayed
    refine ⟨op, found, ground, Lists.mapError_eq_ok made, ?_⟩
    split at replayed
    · next met => exact ⟨GroundAction.unmet_eq_nil_iff.1 met, replayed⟩
    · cases replayed

/-- What can be replayed from the larger state can be replayed from the smaller one as far as the facts of the
kind are not needed. -/
theorem replay_upTo (upTo : smaller.UpTo kind larger) (replayed : replay operators step actions larger = .ok final) :
    EndsUpTo kind final (replay operators step actions smaller) := by
  -- along the actions, with both states side by side
  induction actions generalizing smaller larger step with
  | nil =>
    cases replayed
    exact .reached upTo
  | cons action rest ih =>
    obtain ⟨op, found, ground, made, applicable, later⟩ := replay_cons replayed
    rw [replay, found]
    simp only [made, Except.mapError, bind, Except.bind]
    cases unmet : ground.unmet smaller with
    | nil => exact ih (upTo.apply ground) later
    | cons first others => exact .unmet (by simp) (unmet ▸ upTo.unmet applicable)

theorem validate_upTo (upTo : smaller.UpTo kind larger) (replayed : replay operators 1 actions larger = .ok final)
    (reaches : ∀ fact ∈ goal, fact ∈ final) : EndsUpTo kind final (validate smaller goal operators actions) := by
  rw [validate]
  have ends := replay_upTo upTo replayed
  generalize replay operators 1 actions smaller = outcome at ends
  cases ends with
  | unmet any lacking => exact .unmet any lacking
  | missing any lacking => exact .missing any lacking
  | @reached state upTo =>
    simp only [bind, Except.bind]
    cases missing : state.missing goal with
    | nil => exact .reached upTo
    | cons first others => exact .missing (by simp) (missing ▸ upTo.missing reaches)

end Plan

end Replaying

namespace PlanSearch

variable {problem : PlanProblem} {options : PlanOptions} {initial : FactSet}

/-- Closing an initial state takes no fact away. -/
theorem subset_of_closedInitial (closed : closedInitial problem options = .ok initial) :
    ∀ fact ∈ problem.initial, fact ∈ initial := by
  intro fact member
  rw [closedInitial] at closed
  split at closed
  · obtain ⟨inference, finished, rfl⟩ := Lists.map_eq_ok closed
    obtain ⟨last, chained, same, _⟩ := Inference.chained_of_forwardChain finished
    exact same ▸ chained.given fact member
  · cases closed
    exact member

/-- Closing adds nothing to an initial state that is closed already. -/
theorem closedInitial_eq (closed : closedInitial problem options = .ok initial)
    (already : options.closeUnderRules = true → ∀ rule ∈ problem.rules, Inference.Closed rule problem.initial) :
    initial = problem.initial := by
  rw [closedInitial] at closed
  split at closed
  · next closes =>
    obtain ⟨inference, finished, rfl⟩ := Lists.map_eq_ok closed
    rw [Bool.and_eq_true] at closes
    rw [Inference.forwardChain_of_closed (Inference.safe_of_forwardChain finished) (already closes.1)] at finished
    cases finished
    rfl
  · cases closed
    rfl

end PlanSearch

namespace Engine

variable {config : Config} {doc : Document} {plan : Plan}

/-- A plan that is found is accepted up to the facts that closing adds to the initial state; where it is
closed already or is not to be closed, the plan is accepted and ends in its final state. -/
theorem validatePlan_of_plan (distinct : (doc.operators.map Operator.name).Nodup)
    (found : Engine.plan config doc = .ok plan) :
    (∃ initial, PlanSearch.closedInitial doc.planProblem config.planner = .ok initial ∧
      ∃ outcome, validatePlan doc plan.actions = outcome.mapError .plan ∧
        Plan.EndsUpTo (fun fact => fact ∈ initial ∧ fact ∉ doc.initialState) plan.finalState outcome) ∧
    ((config.planner.closeUnderRules = true → ∀ rule ∈ doc.rules, Inference.Closed rule doc.initialState) →
      validatePlan doc plan.actions = .ok plan.finalState) := by
  obtain ⟨valid, initial, closed, achieves⟩ := PlanSearch.achieves_of_planWith (Lists.mapError_eq_ok found)
  obtain ⟨steps, leads, names⟩ := achieves.leads
  have replayed : Plan.replay doc.operators 1 plan.actions initial = .ok plan.finalState :=
    names ▸ leads.replay distinct valid 1
  constructor
  · have upTo : FactSet.UpTo (fun fact => fact ∈ initial ∧ fact ∉ doc.initialState) doc.initialState initial := by
      refine ⟨PlanSearch.subset_of_closedInitial closed, ?_⟩
      intro fact member
      by_cases known : fact ∈ doc.initialState
      · exact .inl known
      · exact .inr ⟨member, known⟩
    exact ⟨initial, closed, _, rfl, Plan.validate_upTo upTo replayed achieves.reaches⟩
  · intro already
    have same : initial = doc.initialState := PlanSearch.closedInitial_eq closed already
    have accepted : Plan.validate doc.initialState doc.goalState doc.operators plan.actions = .ok plan.finalState :=
      Plan.validate_eq_ok (same ▸ replayed) achieves.reaches
    rw [validatePlan, accepted]
    rfl

end Engine

/-- The corridor as a document, with a rule that is about the other room. -/
def Document.corridor : Document :=
  { Document.empty with
    rules := [⟨none, [.positive ⟨"at", [.const "b"]⟩], ⟨"arrived", []⟩⟩]
    operators := (PlanProblem.corridor "a" "b").operators
    initialState := (PlanProblem.corridor "a" "b").initial
    goalState := (PlanProblem.corridor "a" "b").goal }

namespace Engine

theorem validatePlan_of_corridor :
    (Document.corridor.operators.map Operator.name).Nodup ∧ ∃ plan, Engine.plan .standard .corridor = .ok plan ∧
      plan.actions = [⟨"move", ["a", "b"]⟩] ∧ validatePlan .corridor plan.actions = .ok plan.finalState := by
  have distinct : (Document.corridor.operators.map Operator.name).Nodup := by decide
  -- Nobody is in the other room at first.
  have already : ∀ rule ∈ Document.corridor.rules, Inference.Closed rule Document.corridor.initialState := by
    rintro rule member conclusion ⟨bindings, _, positives, _⟩
    obtain rfl := List.mem_singleton.1 member
    obtain ⟨fact, present, becomes⟩ := positives ⟨"at", [.const "b"]⟩ (by decide)
    have there : fact = ⟨"at", ["b"]⟩ := (Option.some.inj becomes).symm
    exact absurd (there ▸ present) (by decide)
  have closed : PlanSearch.closedInitial Document.corridor.planProblem .standard =
      .ok Document.corridor.initialState := by
    rfl
  have planned : PlanSearch.plan Document.corridor.planProblem .standard =
      .ok ⟨[⟨"move", ["a", "b"]⟩], .ofList [⟨"at", ["b"]⟩, ⟨"adjacent", ["a", "b"]⟩], 1, 2⟩ := by
    refine PlanSearch.planWith_of_step rfl (by decide) rfl rfl closed ?_ ?_ ?_ ?_ <;> decide
  have found : Engine.plan .standard .corridor =
      .ok ⟨[⟨"move", ["a", "b"]⟩], .ofList [⟨"at", ["b"]⟩, ⟨"adjacent", ["a", "b"]⟩], 1, 2⟩ :=
    congrArg (Except.mapError EngineError.plan) planned
  exact ⟨distinct, _, found, rfl, (validatePlan_of_plan distinct found).2 fun _ => already⟩

/-- Validation refuses a plan that needs a fact of the closed initial state. -/
theorem derived_start_refused :
    let doc : Document := { Document.empty with
      rules := [⟨none, [.positive ⟨"a", []⟩], ⟨"b", []⟩⟩]
      operators := [⟨"go", [], [.positive ⟨"b", []⟩], [⟨"c", []⟩], []⟩]
      initialState := .ofList [⟨"a", []⟩]
      goalState := .ofList [⟨"c", []⟩] }
    (doc.operators.map Operator.name).Nodup ∧
      Engine.plan .standard doc =
        .ok ⟨[⟨"go", []⟩], .ofList [⟨"a", []⟩, ⟨"b", []⟩, ⟨"c", []⟩], 1, 2⟩ ∧
      validatePlan doc [⟨"go", []⟩] = .error (.plan (.invalidPlan 1 ⟨"go", []⟩ [⟨"b", []⟩])) := by
  intro doc
  have closed : PlanSearch.closedInitial doc.planProblem .standard = .ok (.ofList [⟨"a", []⟩, ⟨"b", []⟩]) := by rfl
  have planned : PlanSearch.plan doc.planProblem .standard =
      .ok ⟨[⟨"go", []⟩], .ofList [⟨"a", []⟩, ⟨"b", []⟩, ⟨"c", []⟩], 1, 2⟩ := by
    refine PlanSearch.planWith_of_step rfl (by decide) rfl rfl closed ?_ ?_ ?_ ?_ <;> decide
  exact ⟨by decide, congrArg (Except.mapError EngineError.plan) planned, rfl⟩

end Engine

end Deliberation
