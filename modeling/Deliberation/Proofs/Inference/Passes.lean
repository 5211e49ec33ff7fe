import Deliberation.Proofs.Inference.Fixpoint
import Mathlib.Data.List.Dedup

/-!
How many passes a run takes. Every pass but the last derives something and labels it with its own
number, so the derivations tell how many passes were productive. A limit on these cuts the run off
exactly where they are more, and otherwise changes nothing.
-/

namespace Deliberation.Inference

variable {facts : FactSet} {rules : List Rule} {rule : Rule} {place pass : Nat} {state : Saturation} {inference : Inference}

/-- How many passes derived something. -/
def productivePasses (inference : Inference) : Nat := (inference.derived.map Derivation.pass).dedup.length

/-- What one state has derived beyond another was derived in one pass. -/
def DerivesIn (pass : Nat) (before after : Saturation) : Prop :=
  ∃ added, after.derived = before.derived ++ added ∧ ∀ derivation ∈ added, derivation.pass = pass

theorem DerivesIn.refl (pass : Nat) (state : Saturation) : DerivesIn pass state state := ⟨[], by simp⟩

theorem DerivesIn.trans {first second third : Saturation} (before : DerivesIn pass first second)
    (after : DerivesIn pass second third) : DerivesIn pass first third := by
  obtain ⟨some, same, own⟩ := before
  obtain ⟨more, same', own'⟩ := after
  refine ⟨some ++ more, by rw [same', same, List.append_assoc], fun derivation member => ?_⟩
  exact (List.mem_append.1 member).elim (own derivation) (own' derivation)

theorem fire_derivesIn (bindings : Bindings) : DerivesIn pass state (fire rules rule place pass state bindings) := by
  rcases fire_cases rules rule place pass state bindings with ⟨same, _⟩ | ⟨fact, _, _, _, added⟩
  · rw [same]
    exact .refl pass state
  · rw [added]
    exact ⟨[⟨fact, rule.label place, pass, _⟩], rfl, by simp⟩

theorem evaluate_derivesIn : DerivesIn pass state (evaluate rules pass state rule place) := by
  have start : DerivesIn pass state { state with awake := state.awake.erase place } := ⟨[], by simp⟩
  exact List.foldlRecOn _ _ start fun _ kept _ _ => kept.trans (fire_derivesIn _)

theorem runPass_derivesIn (rules : List Rule) (pass : Nat) (state : Saturation) :
    DerivesIn pass state (runPass rules pass state) :=
  runPass_keeps (.refl pass state) fun _ kept _ _ _ => kept.trans evaluate_derivesIn

/-- The passes before this one, and no other, have derived something. -/
def Labelled (pass : Nat) (derived : List Derivation) : Prop :=
  ∀ n, n ∈ derived.map Derivation.pass ↔ 1 ≤ n ∧ n < pass

theorem Labelled.runPass (labelled : Labelled pass state.derived) (positive : 1 ≤ pass)
    (productive : ¬ Settled state (runPass rules pass state)) :
    Labelled (pass + 1) (Inference.runPass rules pass state).derived := by
  obtain ⟨added, same, own⟩ := runPass_derivesIn rules pass state
  have some : added ≠ [] := by
    rintro rfl
    exact productive (by rw [Settled, same, List.append_nil])
  have here (n : Nat) : n ∈ added.map Derivation.pass ↔ n = pass := by
    constructor
    · intro member
      obtain ⟨derivation, listed, rfl⟩ := List.mem_map.1 member
      exact own derivation listed
    · rintro rfl
      obtain ⟨derivation, listed⟩ := List.exists_mem_of_ne_nil added some
      exact List.mem_map.2 ⟨derivation, listed, own derivation listed⟩
  intro n
  rw [same, List.map_append, List.mem_append, labelled n, here n]
  omega

/-- As many numbers are below a pass as passes went before it. -/
theorem Labelled.count (labelled : Labelled pass state.derived) :
    (state.derived.map Derivation.pass).dedup.length = pass - 1 := by
  have perm : (state.derived.map Derivation.pass).dedup.Perm (List.range' 1 (pass - 1)) := by
    refine (List.perm_ext_iff_of_nodup (List.nodup_dedup _) List.nodup_range').2 fun n => ?_
    rw [List.mem_dedup, labelled n, List.mem_range'_1]
    omega
  rw [perm.length_eq, List.length_range']

/-- A run without a limit: passes that derive something, up to one that does not. -/
inductive Runs (rules : List Rule) : (pass : Nat) → Saturation → Inference → Prop
  | settled {pass : Nat} {state : Saturation} (settled : Settled state (runPass rules pass state)) :
    Runs rules pass state ⟨(runPass rules pass state).facts, (runPass rules pass state).derived, pass⟩
  | productive {pass : Nat} {state : Saturation} {inference : Inference}
    (productive : ¬ Settled state (runPass rules pass state))
    (later : Runs rules (pass + 1) (runPass rules pass state) inference) : Runs rules pass state inference

theorem runs_of_saturate {bound remaining : Nat} (finished : saturate rules bound remaining pass state = .ok inference) :
    Runs rules pass state inference := by
  induction remaining generalizing pass state with
  | zero =>
    rw [saturate] at finished
    split at finished
    · next settled =>
      cases finished
      exact .settled settled
    · cases finished
  | succ remaining ih =>
    rw [saturate] at finished
    split at finished
    · next settled =>
      cases finished
      exact .settled settled
    · next productive => exact .productive productive (ih finished)

theorem Runs.pass_le (runs : Runs rules pass state inference) : pass ≤ inference.passes := by
  induction runs with
  | settled _ => exact le_rfl
  | productive _ _ ih => omega

theorem Runs.mem_facts (runs : Runs rules pass state inference) {fact : Fact} (known : fact ∈ state.facts) :
    fact ∈ inference.facts := by
  induction runs with
  | settled _ => exact runPass_facts known
  | productive _ _ ih => exact ih (runPass_facts known)

/-- The pass that ends a run derives nothing, and every pass before it does. -/
theorem Runs.passes_eq (runs : Runs rules pass state inference) (positive : 1 ≤ pass)
    (labelled : Labelled pass state.derived) : inference.passes = inference.productivePasses + 1 := by
  induction runs with
  | @settled pass state settled =>
    obtain ⟨added, same, _⟩ := runPass_derivesIn rules pass state
    have idle : added = [] := by
      rw [Settled, same, List.length_append] at settled
      exact List.length_eq_zero_iff.1 (by omega)
    rw [productivePasses, same, idle, List.append_nil, labelled.count]
    dsimp only
    omega
  | productive productive _ ih => exact ih (by omega) (labelled.runPass positive productive)

/-- Under a limit a run ends as it does without, if enough passes may derive something. -/
theorem Runs.saturate_eq_ok (runs : Runs rules pass state inference) (bound : Nat) {remaining : Nat}
    (enough : inference.passes ≤ pass + remaining) : saturate rules bound remaining pass state = .ok inference := by
  induction runs generalizing remaining with
  | settled settled => cases remaining <;> rw [saturate, if_pos settled]
  | productive productive later ih =>
    have more := later.pass_le
    cases remaining with
    | zero => omega
    | succ remaining =>
      rw [saturate, if_neg productive]
      exact ih (by omega)

/-- With fewer passes it is cut off between where it starts and where it would end. -/
theorem Runs.saturate_eq_stalled (runs : Runs rules pass state inference) (bound : Nat) {remaining : Nat}
    (few : pass + remaining < inference.passes) :
    ∃ reached, saturate rules bound remaining pass state = .error (.stalled (pass + remaining) bound reached) ∧
      (∀ fact ∈ state.facts, fact ∈ reached) ∧ ∀ fact ∈ reached, fact ∈ inference.facts := by
  induction runs generalizing remaining with
  | settled settled => exact absurd few (by dsimp only; omega)
  | @productive pass state _ productive later ih =>
    cases remaining with
    | zero =>
      rw [saturate, if_neg productive]
      exact ⟨_, rfl, fun _ => runPass_facts, fun _ => later.mem_facts⟩
    | succ remaining =>
      obtain ⟨reached, stalled, above, below⟩ := @ih remaining (by omega)
      rw [saturate, if_neg productive, stalled, Nat.add_right_comm, Nat.add_assoc]
      exact ⟨reached, rfl, fun fact known => above fact (runPass_facts known), below⟩

theorem labelled_start : Labelled 1 [] := fun n => by simp; omega

/-- As long as passes can be counted, forward chaining under safe rules succeeds, and a limit on passes stops
it exactly where more passes than that derive something, with the given facts and only facts that are returned
otherwise. -/
theorem forwardChain_passes (safe : ∀ rule ∈ rules, rule.Safe)
    (countable : max 1 rules.length * max 1 (possibleFacts facts rules) ≤ greatestBound) :
    ∃ inference, forwardChain facts rules none = .ok inference ∧
      ∀ limit,
        (limit < inference.productivePasses → ∃ reached,
          forwardChain facts rules (some limit) = .error (.stalled (limit + 1) limit reached) ∧
            (∀ fact ∈ facts, fact ∈ reached) ∧ ∀ fact ∈ reached, fact ∈ inference.facts) ∧
        (inference.productivePasses ≤ limit → forwardChain facts rules (some limit) = .ok inference) := by
  obtain ⟨inference, finished⟩ : ∃ inference, forwardChain facts rules none = .ok inference := by
    rcases @forwardChain_cases rules facts safe with ⟨inference, _, finished, _⟩ | ⟨passes, reached, stalled, full⟩
    · exact ⟨inference, finished⟩
    · obtain ⟨last, chained, rfl⟩ := chained_of_stalled safe stalled
      have most := chained.size_le safe
      have room := possibleFacts_le facts rules
      omega
  refine ⟨inference, finished, fun limit => ?_⟩
  have run : saturate rules (passBound facts rules) (passBound facts rules) 1
      ⟨facts, [], .ofList (List.range rules.length)⟩ = .ok inference := by
    rw [← finished]
    exact (forwardChain_eq_saturate safe none).symm
  have limited : forwardChain facts rules (some limit) = saturate rules (min limit (passBound facts rules))
      (min limit (passBound facts rules)) 1 ⟨facts, [], .ofList (List.range rules.length)⟩ :=
    forwardChain_eq_saturate safe (some limit)
  have runs := runs_of_saturate run
  have passes := runs.passes_eq le_rfl labelled_start
  have within : inference.passes ≤ 1 + passBound facts rules := by
    by_contra more
    obtain ⟨_, stalled, _⟩ := runs.saturate_eq_stalled (passBound facts rules) (Nat.lt_of_not_le more)
    rw [run] at stalled
    cases stalled
  rw [limited]
  constructor
  · intro few
    have own : min limit (passBound facts rules) = limit := by omega
    rw [own, Nat.add_comm limit 1]
    exact runs.saturate_eq_stalled limit (by omega)
  · intro enough
    exact runs.saturate_eq_ok _ (by omega)

/-- One gets along the roads in two passes; a limit of one keeps only what the first finds. -/
theorem travelling_passes :
    (∀ rule ∈ travelling, rule.Safe) ∧ max 1 travelling.length * max 1 (possibleFacts roads travelling) ≤ greatestBound ∧
      travelled.productivePasses = 2 ∧ forwardChain roads travelling (some 2) = .ok travelled ∧
      ∃ reached, forwardChain roads travelling (some 1) = .error (.stalled 2 1 reached) ∧
        ∀ fact ∈ reached, fact ∈ travelled.facts := by
  have safe : ∀ rule ∈ travelling, rule.Safe := by decide
  have countable : max 1 travelling.length * max 1 (possibleFacts roads travelling) ≤ greatestBound := by decide +kernel
  obtain ⟨inference, finished, limits⟩ := forwardChain_passes safe countable
  obtain rfl : travelled = inference := Except.ok.inj finished
  obtain ⟨reached, stalled, _, below⟩ := (limits 1).1 (by decide)
  exact ⟨safe, countable, rfl, (limits 2).2 (by decide), reached, stalled, below⟩

end Deliberation.Inference
