import Deliberation.Proofs.Inference.Saturation

/-!
Forward chaining without rest: every pass evaluates every rule. That rules rest makes no difference
to the facts, nor to the derivations, their order, their passes and their premises.
-/

namespace Deliberation.Inference

namespace Naive

/-- The facts so far and the derivations in order. -/
structure Deduction where
  facts : FactSet
  derived : List Derivation

/-- Adds what a rule concludes under bindings, unless that is a fact or a negated literal is one. -/
def conclude (rule : Rule) (place pass : Nat) (deduction : Deduction) (bindings : Bindings) : Deduction :=
  match rule.consequent.ground? bindings with
  | none => deduction
  | some fact =>
    if fact ∈ deduction.facts ∨ (rule.negatives.filterMap (·.ground? bindings)).any (· ∈ deduction.facts) then deduction
    else
      { facts := deduction.facts.insert fact
        derived := deduction.derived ++
          [⟨fact, rule.label place, pass, rule.positives.filterMap (·.ground? bindings)⟩] }

/-- Concludes under each of the bindings that satisfy a rule's antecedent when its turn comes. -/
def evaluate (pass : Nat) (deduction : Deduction) (rule : Rule) (place : Nat) : Deduction :=
  (Literal.satisfyingBindings rule.antecedent deduction.facts).foldl (conclude rule place pass) deduction

/-- One pass over all rules in order. -/
def runPass (rules : List Rule) (pass : Nat) (deduction : Deduction) : Deduction :=
  rules.zipIdx.foldl (fun deduction (rule, place) => evaluate pass deduction rule place) deduction

/-- Passes until one derives nothing, of which at most `remaining` may derive something. -/
def saturate (rules : List Rule) (bound : Nat) : (remaining pass : Nat) → Deduction → Except InferError Inference
  | 0, pass, deduction =>
    let next := runPass rules pass deduction
    if next.derived.length = deduction.derived.length then .ok ⟨next.facts, next.derived, pass⟩
    else .error (.stalled pass bound next.facts)
  | remaining + 1, pass, deduction =>
    let next := runPass rules pass deduction
    if next.derived.length = deduction.derived.length then .ok ⟨next.facts, next.derived, pass⟩
    else saturate rules bound remaining (pass + 1) next

/-- The closure of facts under safe rules by passes over all rules, under the same limit on passes. -/
def forwardChain (facts : FactSet) (rules : List Rule) (maxPasses : Option Nat) : Except InferError Inference := do
  Rule.validateAll rules
  let natural := passBound facts rules
  let bound := (maxPasses.map (min · natural)).getD natural
  saturate rules bound bound 1 ⟨facts, []⟩

/-- What is known after so many passes. -/
def afterPasses (rules : List Rule) (start : Deduction) : Nat → Deduction
  | 0 => start
  | passes + 1 => runPass rules (passes + 1) (afterPasses rules start passes)

variable {rule : Rule} {place pass : Nat} {deduction : Deduction}

/-- A rule that has nothing to add concludes nothing. -/
theorem evaluate_of_closed (closed : Closed rule deduction.facts) : evaluate pass deduction rule place = deduction := by
  have idle : ∀ bindings ∈ Literal.satisfyingBindings rule.antecedent deduction.facts,
      conclude rule place pass deduction bindings = deduction := by
    intro bindings member
    obtain ⟨holds, fails⟩ := Literal.satisfyingBindings_sound member
    rw [conclude]
    cases ground : rule.consequent.ground? bindings with
    | none => rfl
    | some fact =>
      have known : fact ∈ deduction.facts := closed fact ⟨bindings, ground, holds, fails⟩
      simp [known]
  rw [evaluate]
  refine List.foldlRecOn (motive := (· = deduction)) _ _ rfl ?_
  rintro _ rfl bindings member
  exact idle bindings member

theorem runPass_of_closed {rules : List Rule} (closed : ∀ rule ∈ rules, Closed rule deduction.facts) :
    runPass rules pass deduction = deduction := by
  refine List.foldlRecOn (motive := (· = deduction)) _ _ rfl ?_
  rintro _ rfl ⟨rule, place⟩ listed
  exact evaluate_of_closed (closed rule (List.fst_mem_of_mem_zipIdx listed))

end Naive

/-- What a state knows, apart from which rules rest. -/
def Saturation.deduction (state : Saturation) : Naive.Deduction := ⟨state.facts, state.derived⟩

/-- The state after so many passes. -/
def afterPasses (rules : List Rule) (start : Saturation) : Nat → Saturation
  | 0 => start
  | passes + 1 => runPass rules (passes + 1) (afterPasses rules start passes)

variable {rules : List Rule} {rule : Rule} {place pass : Nat} {state : Saturation}

theorem deduction_fire (bindings : Bindings) :
    (fire rules rule place pass state bindings).deduction =
      Naive.conclude rule place pass state.deduction bindings := by
  rw [fire, Naive.conclude]
  cases rule.consequent.ground? bindings with
  | none => rfl
  | some fact =>
    dsimp only
    by_cases known : fact ∈ state.facts
    · rw [if_pos known]
      exact (if_pos (Or.inl known)).symm
    · rw [if_neg known]
      by_cases present : (rule.negatives.filterMap (·.ground? bindings)).any (· ∈ state.facts) = true
      · rw [if_pos present]
        exact (if_pos (Or.inr present)).symm
      · rw [if_neg present]
        exact (if_neg (not_or.2 ⟨known, present⟩)).symm

theorem deduction_evaluate :
    (evaluate rules pass state rule place).deduction = Naive.evaluate pass state.deduction rule place :=
  (List.foldl_hom Saturation.deduction fun _ bindings => (deduction_fire bindings).symm).symm

/-- A pass that leaves out the rules at rest knows as much as one over all rules. -/
theorem deduction_runPass (safe : ∀ rule ∈ rules, rule.Safe) (resting : Resting rules state) (pass : Nat) :
    (runPass rules pass state).deduction = Naive.runPass rules pass state.deduction := by
  have entries (listed : List (Rule × Nat)) (subset : listed ⊆ rules.zipIdx) (current : Saturation)
      (resting : Resting rules current) :
      (listed.foldl (fun state entry =>
          if entry.2 ∈ state.awake then evaluate rules pass state entry.1 entry.2 else state) current).deduction =
        listed.foldl (fun deduction entry => Naive.evaluate pass deduction entry.1 entry.2) current.deduction := by
    induction listed generalizing current with
    | nil => rfl
    | cons entry rest ih =>
      obtain ⟨rule, place⟩ := entry
      obtain ⟨here, later⟩ := List.cons_subset.1 subset
      rw [List.foldl_cons, List.foldl_cons]
      by_cases awake : place ∈ current.awake
      · rw [if_pos awake, ← deduction_evaluate]
        exact ih later _ (evaluate_resting (safe rule (List.fst_mem_of_mem_zipIdx here)) here resting)
      · have closed : Closed rule current.deduction.facts := resting rule place here awake
        rw [if_neg awake, Naive.evaluate_of_closed closed]
        exact ih later current resting
  exact entries rules.zipIdx (List.Subset.refl _) state resting

theorem saturate_eq_naive (safe : ∀ rule ∈ rules, rule.Safe) {bound remaining : Nat} (resting : Resting rules state) :
    saturate rules bound remaining pass state = Naive.saturate rules bound remaining pass state.deduction := by
  have same := deduction_runPass safe resting pass
  induction remaining generalizing pass state with
  | zero =>
    rw [saturate, Naive.saturate, ← same]
    rfl
  | succ remaining ih =>
    have later : Resting rules (runPass rules pass state) := runPass_resting safe resting
    rw [saturate, Naive.saturate, ← same, ← ih later (deduction_runPass safe later (pass + 1))]
    rfl

/-- That rules rest makes no difference to the outcome. -/
theorem forwardChain_eq_naive (facts : FactSet) (rules : List Rule) (maxPasses : Option Nat) :
    forwardChain facts rules maxPasses = Naive.forwardChain facts rules maxPasses := by
  rw [forwardChain, Naive.forwardChain]
  cases valid : Rule.validateAll rules with
  | error fault => rfl
  | ok _ => exact saturate_eq_naive (Rule.validateAll_eq_ok_iff.1 valid) (chained_start facts rules).resting

theorem deduction_afterPasses (safe : ∀ rule ∈ rules, rule.Safe) (resting : Resting rules state) (passes : Nat) :
    Resting rules (afterPasses rules state passes) ∧
      (afterPasses rules state passes).deduction = Naive.afterPasses rules state.deduction passes := by
  induction passes with
  | zero => exact ⟨resting, rfl⟩
  | succ passes ih =>
    obtain ⟨resting, same⟩ := ih
    refine ⟨runPass_resting safe resting, ?_⟩
    rw [afterPasses, Naive.afterPasses, deduction_runPass safe resting, same]

/-- Forward chaining has the outcome of passes over all rules, and after each pass it knows the same facts by
the same derivations in the same order. -/
theorem forwardChain_agrees_with_naive (safe : ∀ rule ∈ rules, rule.Safe) (facts : FactSet) (maxPasses : Option Nat) :
    forwardChain facts rules maxPasses = Naive.forwardChain facts rules maxPasses ∧
      ∀ passes, (afterPasses rules ⟨facts, [], .ofList (List.range rules.length)⟩ passes).deduction =
        Naive.afterPasses rules ⟨facts, []⟩ passes :=
  ⟨forwardChain_eq_naive facts rules maxPasses,
    fun passes => (deduction_afterPasses safe (chained_start facts rules).resting passes).2⟩

/-- Of rivals one is picked, and a pick makes a new rival, which wakes the rule that picks. -/
def picking : List Rule :=
  [⟨some "pick", [.positive ⟨"rival", [.var "x", .var "y"]⟩, .negative ⟨"picked", [.var "y"]⟩], ⟨"picked", [.var "x"]⟩⟩,
    ⟨none, [.positive ⟨"picked", [.var "x"]⟩], ⟨"rival", [.var "x", .const "c"]⟩⟩]

theorem picking_agrees_with_naive :
    (∀ rule ∈ picking, rule.Safe) ∧
      (let facts : FactSet := .ofList [⟨"rival", ["a", "b"]⟩, ⟨"rival", ["b", "a"]⟩]
      forwardChain facts picking none = Naive.forwardChain facts picking none ∧
        (afterPasses picking ⟨facts, [], .ofList [0, 1]⟩ 2).deduction = Naive.afterPasses picking ⟨facts, []⟩ 2 ∧
        (Naive.afterPasses picking ⟨facts, []⟩ 2).derived =
          [⟨⟨"picked", ["a"]⟩, "pick", 1, [⟨"rival", ["a", "b"]⟩]⟩,
            ⟨⟨"rival", ["a", "c"]⟩, "rule#1", 1, [⟨"picked", ["a"]⟩]⟩]) := by
  have safe : ∀ rule ∈ picking, rule.Safe := by decide
  have agrees := forwardChain_agrees_with_naive safe (.ofList [⟨"rival", ["a", "b"]⟩, ⟨"rival", ["b", "a"]⟩]) none
  exact ⟨safe, agrees.1, agrees.2 2, by decide⟩

end Deliberation.Inference
