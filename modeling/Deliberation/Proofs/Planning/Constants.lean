import Deliberation.Proofs.Inference.Fixpoint
import Deliberation.Proofs.Planning.Traces

/-!
The constants of planning. Actions are made of the constants of their state, of their operator and of the
pool, so that a search whose initial state is made of the pool stays in it and misses no action on the
constants of a state. Closing the initial state under rules can bring in constants that the pool does not have.
-/

namespace Deliberation

variable {pool larger : List String} {state final : FactSet} {ground : GroundAction}

namespace FactSet

theorem mem_constants {constant : String} : constant ∈ state.constants ↔ ∃ fact ∈ state, constant ∈ fact.args := by
  rw [constants, OrdSet.mem_ofList, List.mem_flatMap]
  rfl

/-- All facts of a state are made of constants of a pool. -/
def Over (state : FactSet) (pool : List String) : Prop := ∀ fact ∈ state, fact.Over pool

theorem over_iff : state.Over pool ↔ ∀ constant ∈ state.constants, constant ∈ pool := by
  constructor
  · intro within constant member
    obtain ⟨fact, known, among⟩ := mem_constants.1 member
    exact within fact known constant among
  · intro constants fact known constant among
    exact constants constant (mem_constants.2 ⟨fact, known, among⟩)

end FactSet

/-- The pool has the declared objects, and the constants of the operators, the goal and the initial state. -/
theorem PlanProblem.mem_pool {problem : PlanProblem} {constant : String} : constant ∈ problem.pool ↔
    constant ∈ problem.objects ∨ (∃ op ∈ problem.operators, constant ∈ op.constants) ∨
      constant ∈ problem.goal.constants ∨ constant ∈ problem.initial.constants := by
  by_cases declared : constant ∈ problem.objects <;> simp [pool, OrdSet.mem_insertAll, declared]

namespace Operator

variable {op : Operator}

/-- What an offered action leads to is made of the constants of the state, the operator and the pool. -/
theorem Offers.apply_over (valid : op.Valid) (offers : op.Offers pool state ground)
    (constants : ∀ constant ∈ op.constants, constant ∈ larger) (subset : pool ⊆ larger) (within : state.Over larger) :
    (ground.apply state).Over larger := by
  obtain ⟨bindings, becomes, applicable, drawn⟩ := offers
  have grounds := ground?_eq_some_iff.1 becomes
  have values : ∀ name ∈ op.parameters, ∀ value, bindings.get? name = some value → value ∈ larger := by
    intro name declared value bound
    -- a parameter takes its value from the state, or where no positive precondition has it from the pool
    by_cases joined : ∃ atom ∈ Literal.positives op.preconditions, name ∈ atom.vars
    · obtain ⟨atom, among, place⟩ := joined
      obtain ⟨fact, known, made⟩ := grounds.requires_hold applicable atom among
      exact within fact known value (Atom.value_mem_args made place bound)
    · obtain ⟨constant, member, same⟩ := drawn name declared (by simpa using joined)
      exact subset (Option.some.inj (same.symm.trans bound) ▸ member)
  intro fact member
  rcases GroundAction.mem_apply.1 member with added | ⟨kept, _⟩
  · obtain ⟨atom, among, made⟩ : ∃ atom ∈ op.add, atom.ground? bindings = some fact := by
      have listed : some fact ∈ op.add.map (·.ground? bindings) := grounds.add ▸ List.mem_map_of_mem added
      simpa using listed
    have own : atom ∈ op.atoms := by simp [atoms, among]
    refine Atom.fact_over made ?_ fun name place => values name (valid.declared atom own name place)
    exact fun constant occurs => constants constant (List.mem_flatMap.2 ⟨atom, own, occurs⟩)
  · exact within fact kept

/-- An applicable action on constants of the pool is offered. -/
theorem offers_of_args {bindings : Bindings} (becomes : op.ground? bindings = some ground)
    (applicable : ground.applicable state = true) (args : ∀ constant ∈ ground.action.args, constant ∈ pool) :
    op.Offers pool state ground := by
  refine ⟨bindings, becomes, applicable, fun name declared _ => ?_⟩
  have listed : bindings.get? name ∈ ground.action.args.map some :=
    (ground?_eq_some_iff.1 becomes).args ▸ List.mem_map_of_mem declared
  obtain ⟨value, among, same⟩ := List.mem_map.1 listed
  exact ⟨value, args value among, same.symm⟩

end Operator

/-- Actions do not lead out of a pool that has the constants of the operators. -/
theorem Leads.final_over {operators : List Operator} {steps : List GroundAction} (valid : ∀ op ∈ operators, op.Valid)
    (constants : ∀ op ∈ operators, ∀ constant ∈ op.constants, constant ∈ larger) (subset : pool ⊆ larger)
    (leads : Leads operators pool state steps final) (within : state.Over larger) : final.Over larger := by
  induction leads with
  | here => exact within
  | step available _ ih =>
    obtain ⟨op, member, offers⟩ := available
    exact ih (offers.apply_over (valid op member) (constants op member) subset within)

/-- Rules that are safe derive facts over a pool from facts over it, where the pool has the constants of
what they conclude. -/
theorem Inference.over_of_forwardChain {facts : FactSet} {rules : List Rule} {limit : Option Nat} {inference : Inference}
    (finished : forwardChain facts rules limit = .ok inference) (given : facts.Over pool)
    (constants : ∀ rule ∈ rules, rule.consequent.Over pool) : inference.facts.Over pool := by
  obtain ⟨last, chained, same, _⟩ := chained_of_forwardChain finished
  have safe := safe_of_forwardChain finished
  rw [same]
  exact chained.least (·.Over pool) given fun rule member _ _ concludes =>
    (safe rule member).conclusion_over (constants rule member) concludes

namespace PlanSearch

variable {problem : PlanProblem} {options : PlanOptions} {initial : FactSet} {setting : Setting}

/-- Closing brings in no constants but those of what rules conclude. -/
theorem over_of_closedInitial (closed : closedInitial problem options = .ok initial) (given : problem.initial.Over larger)
    (constants : options.closeUnderRules = true → ∀ rule ∈ problem.rules, rule.consequent.Over larger) :
    initial.Over larger := by
  rw [closedInitial] at closed
  split at closed
  · next closing =>
    obtain ⟨inference, finished, rfl⟩ := Lists.map_eq_ok closed
    exact Inference.over_of_forwardChain finished given (constants (Bool.and_eq_true_iff.1 closing).1)
  · cases closed
    exact given

/-- The constants of what rules conclude, if the initial state is closed under them. -/
def concluded (problem : PlanProblem) (options : PlanOptions) : List String :=
  if options.closeUnderRules then problem.rules.flatMap fun rule => rule.consequent.constants else []

theorem mem_concluded {constant : String} : constant ∈ concluded problem options ↔
    options.closeUnderRules = true ∧ ∃ rule ∈ problem.rules, constant ∈ rule.consequent.constants := by
  rw [concluded]
  split
  · next closing => simp [closing]
  · next kept => simp [kept]

/-- Actions lead to every state that a search reaches. -/
theorem Stands.reached_leads (valid : ∀ op ∈ setting.operators, op.Valid) {progress : Progress} {expanded : Nat}
    (stands : Stands setting setting.beginning expanded progress) {depth : Nat}
    (reached : progress.reached[state]? = some depth) :
    ∃ steps, Leads setting.operators setting.pool setting.initial steps state := by
  induction stands generalizing depth with
  | start =>
    obtain ⟨rfl, _⟩ := reached_beginning.1 reached
    exact ⟨[], .here _⟩
  | advance stands advances ih =>
    obtain ⟨_, _, _, _, step⟩ := advances.step
    rcases step.bears.entered _ _ reached with before | ⟨node, new, rfl, _⟩
    · exact ih before
    · have waits : node ∈ _ := step.frontier ▸ mem_place.2 (.inl new)
      obtain ⟨steps, leads, _⟩ := ((stands.advance advances).traced valid node waits).leads
      exact ⟨steps, leads⟩

/-- A state whose constants are all in the pool, and whose successors miss no applicable action on its constants. -/
structure AtHand (operators : List Operator) (pool : List String) (state : FactSet) : Prop where
  constants : ∀ constant ∈ state.constants, constant ∈ pool
  actions : ∀ op ∈ operators, ∀ bindings ground, op.ground? bindings = some ground → ground.applicable state = true →
    (∀ constant ∈ ground.action.args, constant ∈ state.constants) →
    (ground.action, ground.apply state) ∈ successors operators pool state

theorem atHand_of_over {operators : List Operator} (valid : ∀ op ∈ operators, op.Valid) (within : state.Over pool) :
    AtHand operators pool state := by
  have constants := FactSet.over_iff.1 within
  refine ⟨constants, fun op member bindings ground becomes applicable args => ?_⟩
  have offers : op.Offers pool state ground :=
    Operator.offers_of_args becomes applicable fun constant occurs => constants constant (args constant occurs)
  exact (mem_successors valid).2 ⟨ground, ⟨op, member, offers⟩, rfl, rfl⟩

/-- A state that a search generates: one that it has reached, or an outcome of an action from one. -/
inductive Generates (setting : Setting) : FactSet → Prop
  | reached {expanded depth : Nat} {progress : Progress} {state : FactSet}
      (stands : Stands setting setting.beginning expanded progress) (known : progress.reached[state]? = some depth) :
      Generates setting state
  | outcome {expanded depth : Nat} {progress : Progress} {state next : FactSet} {action : Action}
      (stands : Stands setting setting.beginning expanded progress) (known : progress.reached[state]? = some depth)
      (among : (action, next) ∈ successors setting.operators setting.pool state) : Generates setting next

theorem Generates.leads (valid : ∀ op ∈ setting.operators, op.Valid) (generates : Generates setting state) :
    ∃ steps, Leads setting.operators setting.pool setting.initial steps state := by
  cases generates with
  | reached stands known => exact stands.reached_leads valid known
  | outcome stands known among =>
    obtain ⟨steps, leads⟩ := stands.reached_leads valid known
    obtain ⟨ground, available, _, rfl⟩ := (mem_successors valid).1 among
    exact ⟨steps ++ [ground], leads.extend available⟩

/-- Every state that a search generates has constants of the pool, or of what the rules conclude under
which the initial state is closed. All constants are in the pool exactly where those of the closed initial
state are, and then no applicable action on the constants of a state is left out of its successors; they
are where the pool has the constants of what the rules conclude. -/
theorem states_atHand (accepted : problem.operators.forM Operator.validate = .ok ())
    (closed : closedInitial problem options = .ok initial) :
    (∀ heuristic state, Generates (searchFrom problem options heuristic initial) state →
      ∃ steps, Leads problem.operators problem.pool initial steps state) ∧
    (∀ steps state, Leads problem.operators problem.pool initial steps state → ∀ constant ∈ state.constants,
      constant ∈ problem.pool ∨ options.closeUnderRules = true ∧ ∃ rule ∈ problem.rules, constant ∈ rule.consequent.constants) ∧
    ((∀ steps state, Leads problem.operators problem.pool initial steps state →
      AtHand problem.operators problem.pool state) ↔ ∀ constant ∈ initial.constants, constant ∈ problem.pool) ∧
    ((options.closeUnderRules = true → ∀ rule ∈ problem.rules, rule.consequent.Over problem.pool) →
      ∀ constant ∈ initial.constants, constant ∈ problem.pool) := by
  have valid := Operator.validateAll_eq_ok_iff.1 accepted
  have constants : ∀ op ∈ problem.operators, ∀ constant ∈ op.constants, constant ∈ problem.pool :=
    fun op member constant occurs => PlanProblem.mem_pool.2 (.inr (.inl ⟨op, member, occurs⟩))
  have given : problem.initial.Over problem.pool :=
    FactSet.over_iff.2 fun constant occurs => PlanProblem.mem_pool.2 (.inr (.inr (.inr occurs)))
  refine ⟨fun heuristic state generates => generates.leads valid, ?_, ⟨?_, ?_⟩, ?_⟩
  · intro steps state leads constant occurs
    -- together with what the rules conclude, the pool is one that actions do not lead out of
    have kept := List.subset_append_left problem.pool (concluded problem options)
    have begins : initial.Over (problem.pool ++ concluded problem options) := by
      refine over_of_closedInitial closed (fun fact known constant among => kept (given fact known constant among)) ?_
      exact fun closing rule member constant among =>
        List.mem_append_right _ (mem_concluded.2 ⟨closing, rule, member, among⟩)
    have within := leads.final_over valid (fun op member constant among => kept (constants op member constant among)) kept begins
    exact (List.mem_append.1 (FactSet.over_iff.1 within constant occurs)).imp_right mem_concluded.1
  · exact fun atHand => (atHand [] initial (.here _)).constants
  · intro within steps state leads
    exact atHand_of_over valid (leads.final_over valid constants (List.Subset.refl _) (FactSet.over_iff.2 within))
  · intro derived
    exact FactSet.over_iff.1 (over_of_closedInitial closed given derived)

end PlanSearch

/-- A shed in which there is a tool when it is open. -/
def PlanProblem.shed (objects : List String) : PlanProblem where
  initial := .ofList [⟨"open", []⟩]
  goal := .ofList [⟨"done", []⟩]
  operators := [⟨"use", ["x"], [.negative ⟨"broken", [.var "x"]⟩], [⟨"done", []⟩], []⟩]
  objects := objects
  rules := [⟨none, [.positive ⟨"open", []⟩], ⟨"tool", [.const "k"]⟩⟩]

namespace PlanSearch

theorem closedInitial_shed (objects : List String) : closedInitial (.shed objects) .standard =
    .ok (.ofList [⟨"open", []⟩, ⟨"tool", ["k"]⟩]) := by rfl

/-- Where the tool is a declared object, it can be used. -/
theorem shed_atHand : (PlanProblem.shed ["k"]).operators.forM Operator.validate = .ok () ∧
    AtHand (PlanProblem.shed ["k"]).operators (PlanProblem.shed ["k"]).pool
      (.ofList [⟨"open", []⟩, ⟨"tool", ["k"]⟩]) := by
  have accepted : (PlanProblem.shed ["k"]).operators.forM Operator.validate = .ok () := rfl
  obtain ⟨_, _, all, _⟩ := states_atHand accepted (closedInitial_shed ["k"])
  exact ⟨accepted, all.2 (by decide) [] _ (.here _)⟩

/-- Where it is not, the pool does not have the tool that the rule brings in, and nothing can be used. -/
theorem shed_out_of_reach : ∃ state op bindings ground,
    closedInitial (.shed []) .standard = .ok state ∧ "k" ∈ state.constants ∧ "k" ∉ (PlanProblem.shed []).pool ∧
    op ∈ (PlanProblem.shed []).operators ∧ op.ground? bindings = some ground ∧ ground.applicable state = true ∧
    (∀ constant ∈ ground.action.args, constant ∈ state.constants) ∧
    (ground.action, ground.apply state) ∉ successors (PlanProblem.shed []).operators (PlanProblem.shed []).pool state :=
  ⟨_, _, NameMap.empty.insert "x" "k", ⟨⟨"use", ["k"]⟩, [], [⟨"broken", ["k"]⟩], [⟨"done", []⟩], []⟩,
    closedInitial_shed [], by decide, by decide, List.mem_singleton.2 rfl, by decide, by decide, by decide, by decide⟩

end PlanSearch

end Deliberation
