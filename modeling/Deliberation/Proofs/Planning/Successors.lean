import Deliberation.Proofs.Planning.Enumeration

/-!
The actions that are available in a state. Successors are exactly their outcomes: the join over the
positive preconditions with constants of the pool for the other parameters misses no action and adds none.
-/

namespace Deliberation

variable {pool : List String} {state next : FactSet} {ground : GroundAction} {action : Action}

/-- An operator offers an action in a state when it is applicable there and each parameter of no positive
precondition has a constant of the pool. -/
def Operator.Offers (op : Operator) (pool : List String) (state : FactSet) (ground : GroundAction) : Prop :=
  ∃ bindings, op.ground? bindings = some ground ∧ ground.applicable state = true ∧
    ∀ name ∈ op.parameters, (∀ atom ∈ Literal.positives op.preconditions, name ∉ atom.vars) →
      ∃ value ∈ pool, bindings.get? name = some value

/-- One of the operators offers the action. -/
def Available (operators : List Operator) (pool : List String) (state : FactSet) (ground : GroundAction) : Prop :=
  ∃ op ∈ operators, op.Offers pool state ground

/-- Actions lead from one state to another, each available in the state to which the ones before it lead. -/
inductive Leads (operators : List Operator) (pool : List String) : FactSet → List GroundAction → FactSet → Prop
  | here (state : FactSet) : Leads operators pool state [] state
  | step {state final : FactSet} {ground : GroundAction} {rest : List GroundAction}
      (available : Available operators pool state ground) (later : Leads operators pool (ground.apply state) rest final) :
      Leads operators pool state (ground :: rest) final

namespace Operator

variable {op : Operator}

/-- What is offered is what is taken under bindings of the parameters alone. -/
theorem Valid.offers_iff_exists_takes (valid : op.Valid) :
    op.Offers pool state ground ↔ ∃ bindings, op.Takes pool state (bindings, ground) := by
  constructor
  · rintro ⟨whole, grounds, applicable, drawn⟩
    have parts := ground?_eq_some_iff.1 grounds
    have same := valid.ground?_congr (fun _ => valid.get?_argumentsOf parts) grounds
    obtain ⟨required, allowed⟩ := GroundAction.applicable_iff.1 applicable
    refine ⟨op.argumentsOf ground, valid.contains_argumentsOf parts, ?_, ground?_eq_some_iff.1 same, required, allowed⟩
    intro name declared loose
    rw [valid.get?_argumentsOf parts declared]
    exact drawn name declared loose
  · rintro ⟨bindings, takes⟩
    exact ⟨bindings, ground?_eq_some_iff.2 takes.grounds, GroundAction.applicable_iff.2 ⟨takes.required, takes.allowed⟩,
      takes.drawn⟩

/-- The successors by a valid operator are the outcomes of the actions that it offers. -/
theorem Valid.mem_successors (valid : op.Valid) : (action, next) ∈ op.successors pool state ↔
    ∃ ground, op.Offers pool state ground ∧ ground.action = action ∧ ground.apply state = next := by
  rw [successors_eq_map_choices, List.mem_map]
  constructor
  · rintro ⟨choice, member, outcome⟩
    exact ⟨choice.2, valid.offers_iff_exists_takes.2 ⟨choice.1, valid.mem_choices_iff.1 member⟩, Prod.mk.inj outcome⟩
  · rintro ⟨ground, offers, rfl, rfl⟩
    obtain ⟨bindings, takes⟩ := valid.offers_iff_exists_takes.1 offers
    exact ⟨(bindings, ground), valid.mem_choices_iff.2 takes, rfl⟩

end Operator

/-- The successors of a state are the outcomes of the available actions. -/
theorem mem_successors {operators : List Operator} (valid : ∀ op ∈ operators, op.Valid) :
    (action, next) ∈ successors operators pool state ↔
      ∃ ground, Available operators pool state ground ∧ ground.action = action ∧ ground.apply state = next := by
  rw [successors, List.mem_flatMap]
  constructor
  · rintro ⟨op, member, among⟩
    obtain ⟨ground, offers, outcome⟩ := (valid op member).mem_successors.1 among
    exact ⟨ground, ⟨op, member, offers⟩, outcome⟩
  · rintro ⟨ground, ⟨op, member, offers⟩, outcome⟩
    exact ⟨op, member, (valid op member).mem_successors.2 ⟨ground, offers, outcome⟩⟩

/-- Two rooms, of which only the second can be entered from the other one. -/
def PlanProblem.corridor (start goal : String) : PlanProblem where
  initial := .ofList [⟨"at", [start]⟩, ⟨"adjacent", ["a", "b"]⟩]
  goal := .ofList [⟨"at", [goal]⟩]
  operators := [{
    name := "move"
    parameters := ["from", "to"]
    preconditions := [.positive ⟨"at", [.var "from"]⟩, .positive ⟨"adjacent", [.var "from", .var "to"]⟩]
    add := [⟨"at", [.var "to"]⟩]
    delete := [⟨"at", [.var "from"]⟩] }]
  objects := []
  rules := []

example : successors (PlanProblem.corridor "a" "b").operators (PlanProblem.corridor "a" "b").pool
    (PlanProblem.corridor "a" "b").initial =
      [(⟨"move", ["a", "b"]⟩, .ofList [⟨"at", ["b"]⟩, ⟨"adjacent", ["a", "b"]⟩])] := by decide

/-- The successors of a state are listed operator by operator in order. An operator has a successor for
each of its choices, which are all that it takes, none under the same bindings or with the same action as
another, and which make the actions that it offers. An action stands with the state that has what the
action adds, and of the facts before it those that the action does not delete. -/
theorem successors_enumerate {operators : List Operator} (accepted : operators.forM Operator.validate = .ok ())
    (distinct : pool.Nodup) (state : FactSet) :
    successors operators pool state = operators.flatMap (fun op =>
      (op.choices pool state).map fun choice => (choice.2.action, choice.2.apply state)) ∧
    (∀ op ∈ operators,
      ((op.choices pool state).map Prod.fst).Nodup ∧ ((op.choices pool state).map (·.2.action)).Nodup ∧
      (∀ choice, choice ∈ op.choices pool state ↔ op.Takes pool state choice) ∧
      ∀ ground, op.Offers pool state ground ↔ ∃ bindings, (bindings, ground) ∈ op.choices pool state) ∧
    ∀ (ground : GroundAction) (fact : Fact),
      fact ∈ ground.apply state ↔ fact ∈ ground.add ∨ fact ∈ state ∧ fact ∉ ground.delete := by
  have valid := Operator.validateAll_eq_ok_iff.1 accepted
  refine ⟨?_, fun op member => ⟨op.nodup_choices distinct state, ?_, ?_, fun ground => ?_⟩,
    fun ground fact => GroundAction.mem_apply⟩
  · simp only [successors, Operator.successors_eq_map_choices]
  · exact (valid op member).nodup_actions distinct state
  · exact fun choice => (valid op member).mem_choices_iff
  · simp only [(valid op member).offers_iff_exists_takes, (valid op member).mem_choices_iff]

/-- Bare walls can be painted in a colour that has not dried up. -/
def Operator.paint : Operator where
  name := "paint"
  parameters := ["wall", "colour"]
  preconditions := [.positive ⟨"bare", [.var "wall"]⟩, .negative ⟨"dry", [.var "colour"]⟩]
  add := [⟨"painted", [.var "wall", .var "colour"]⟩]
  delete := [⟨"bare", [.var "wall"]⟩]

/-- Two bare walls, and red has dried up: each wall can be painted blue, once. -/
theorem paint_enumerates :
    let walls : FactSet := .ofList [⟨"bare", ["north"]⟩, ⟨"bare", ["south"]⟩, ⟨"dry", ["red"]⟩]
    let blue (wall other : String) : FactSet := .ofList [⟨"painted", [wall, "blue"]⟩, ⟨"bare", [other]⟩, ⟨"dry", ["red"]⟩]
    [Operator.paint].forM Operator.validate = .ok () ∧ ["red", "blue"].Nodup ∧
    successors [.paint] ["red", "blue"] walls =
      [(⟨"paint", ["north", "blue"]⟩, blue "north" "south"), (⟨"paint", ["south", "blue"]⟩, blue "south" "north")] ∧
    ((Operator.paint.choices ["red", "blue"] walls).map Prod.fst).Nodup ∧
    ∀ choice, choice ∈ Operator.paint.choices ["red", "blue"] walls ↔ Operator.paint.Takes ["red", "blue"] walls choice := by
  intro walls blue
  have accepted : [Operator.paint].forM Operator.validate = .ok () := rfl
  -- the constants of a problem that declares the two colours as its objects
  have distinct : ["red", "blue"].Nodup := PlanProblem.nodup_pool ⟨.empty, .empty, [], ["red", "blue"], []⟩
  obtain ⟨listed, each, _⟩ := successors_enumerate accepted distinct walls
  obtain ⟨nodup, _, taken, _⟩ := each .paint (List.mem_singleton_self _)
  refine ⟨accepted, distinct, ?_, nodup, taken⟩
  rw [listed]
  decide

end Deliberation
