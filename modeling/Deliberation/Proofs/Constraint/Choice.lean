import Deliberation.Constraint.Conflict
import Deliberation.Proofs.Expr.Evaluation
import Deliberation.Proofs.Fact.Bindings
import Mathlib.Data.List.Nodup

/-!
What a constraint problem asks for: a value of its domain for each variable, so that every constraint
holds. A search works with places instead of names and with the positions of values in their domains;
picking positions is choosing values.
-/

namespace Deliberation

variable {R : Type} [Scalar R]

/-- Every variable has a value of its domain. -/
def Chosen (vars : List (Variable R)) (env : Env R) : Prop :=
  ∀ v ∈ vars, ∃ values, v.domain.expand v.name = .ok values ∧ ∃ value ∈ values, env v.name = some value

/-- Values only come from the domains of the variables; some may have none. -/
def Drawn (vars : List (Variable R)) (env : Env R) : Prop :=
  ∀ name value, env name = some value →
    ∃ v ∈ vars, v.name = name ∧ ∃ values, v.domain.expand v.name = .ok values ∧ value ∈ values

/-- Every constraint holds. -/
def AllHold (env : Env R) (constraints : List (Constraint R)) : Prop :=
  ∀ c ∈ constraints, c.holds env = .ok (some true)

/-- Some choice of a value for each variable makes every constraint hold. -/
def Satisfiable (vars : List (Variable R)) (constraints : List (Constraint R)) : Prop :=
  ∃ env, Chosen vars env ∧ AllHold env constraints

/-- The constraints are over the variables. -/
def Declared (vars : List (Variable R)) (constraints : List (Constraint R)) : Prop :=
  ∀ c ∈ constraints, ∀ name ∈ c.vars, name ∈ vars.map Variable.name

/-- Every domain can be expanded. -/
def Expandable (vars : List (Variable R)) : Prop := ∀ v ∈ vars, ∃ values, v.domain.expand v.name = .ok values

/-- What validation makes sure of. -/
structure Accepted (vars : List (Variable R)) (hard soft : List (Constraint R)) : Prop where
  distinct : (vars.map Variable.name).Nodup
  declared : Declared vars (hard ++ soft)
  weights : ∀ c ∈ soft, ¬ c.weight < 0

theorem firstRepeated?_eq_none_iff {α : Type} [DecidableEq α] {seen l : List α} :
    firstRepeated? seen l = none ↔ l.Nodup ∧ ∀ a ∈ l, a ∉ seen := by
  induction l generalizing seen with
  | nil => simp [firstRepeated?]
  | cons a rest ih =>
    rw [firstRepeated?, List.nodup_cons, List.forall_mem_cons]
    by_cases known : a ∈ seen
    · simp [known]
    · rw [if_neg known, ih]
      simp only [List.mem_cons, not_or]
      constructor
      · rintro ⟨distinct, fresh⟩
        exact ⟨⟨fun again => (fresh a again).1 rfl, distinct⟩, known, fun b member => (fresh b member).2⟩
      · rintro ⟨⟨first, distinct⟩, -, fresh⟩
        refine ⟨distinct, fun b member => ⟨?_, fresh b member⟩⟩
        rintro rfl
        exact first member

theorem accepted_of_validate {vars : List (Variable R)} {hard soft : List (Constraint R)}
    (valid : validateConstraints vars hard soft = .ok ()) : Accepted vars hard soft := by
  rw [validateConstraints] at valid
  cases repeated : firstRepeated? [] (vars.map Variable.name) with
  | some name =>
    rw [repeated] at valid
    cases valid
  | none =>
    rw [repeated] at valid
    obtain ⟨_, named, valid⟩ := Lists.bind_eq_ok valid
    obtain ⟨_, weighed, _⟩ := Lists.bind_eq_ok valid
    refine ⟨(firstRepeated?_eq_none_iff.1 repeated).1, fun c member name mentioned => ?_, fun c member => ?_⟩
    · have step := Lists.forIn_eq_ok (fun c outcome ran => ?_) named c member
      · cases unknown : c.vars.find? (· ∉ vars.map Variable.name) with
        | some other =>
          rw [unknown] at step
          cases step
        | none =>
          have known := List.find?_eq_none.1 unknown name mentioned
          simpa using known
      · split at ran
        · cases ran
        · cases ran
          rfl
    · have step := Lists.forIn_eq_ok (fun c outcome ran => ?_) weighed c member
      · split at step
        · cases step
        · next fine =>
          intro negative
          simp [negative] at fine
      · split at ran
        · cases ran
        · cases ran
          rfl

theorem AllHold.congr {env env' : Env R} {constraints : List (Constraint R)}
    (agree : ∀ c ∈ constraints, ∀ name ∈ c.vars, env name = env' name) (holds : AllHold env constraints) :
    AllHold env' constraints := by
  intro c member
  rw [← Constraint.holds_congr (agree c member)]
  exact holds c member

theorem Satisfiable.mono {vars : List (Variable R)} {fewer more : List (Constraint R)} (subset : fewer ⊆ more)
    (satisfiable : Satisfiable vars more) : Satisfiable vars fewer := by
  obtain ⟨env, chosen, holds⟩ := satisfiable
  exact ⟨env, chosen, fun c member => holds c (subset member)⟩

section Scope

variable {vars : List (Variable R)}

/-- The variables that constraints mention. -/
def scope (vars : List (Variable R)) (constraints : List (Constraint R)) : List (Variable R) :=
  vars.filter fun v => constraints.any fun c => c.vars.contains v.name

omit [Scalar R] in
theorem mem_scope {constraints : List (Constraint R)} {v : Variable R} :
    v ∈ scope vars constraints ↔ v ∈ vars ∧ ∃ c ∈ constraints, v.name ∈ c.vars := by
  simp [scope]

omit [Scalar R] in
theorem declared_scope {constraints : List (Constraint R)} (declared : Declared vars constraints) :
    Declared (scope vars constraints) constraints := by
  intro c member name mentioned
  obtain ⟨v, among, rfl⟩ := List.mem_map.1 (declared c member name mentioned)
  exact List.mem_map.2 ⟨v, mem_scope.2 ⟨among, c, member, mentioned⟩, rfl⟩

omit [Scalar R] in
theorem nodup_scope (constraints : List (Constraint R)) (distinct : (vars.map Variable.name).Nodup) :
    ((scope vars constraints).map Variable.name).Nodup :=
  distinct.sublist (List.filter_sublist.map Variable.name)

end Scope

namespace ConstraintSearch

/-- The position of a variable's value. -/
def State.given (state : State) (place : Nat) : Option Nat := (state.assigned[place]?).getD none

/-- The values at picked positions. -/
def Problem.picked (problem : Problem R) (pick : Nat → Nat) : Env R := fun name => do
  let place ← problem.places.get? name
  problem.value? place (pick place)

/-- Picked positions lie in the domains. -/
def Problem.Picks (problem : Problem R) (pick : Nat → Nat) : Prop :=
  ∀ place < problem.values.size, pick place < problem.domainSize place

/-- Picked positions at which everything holds that has to. -/
structure Problem.Solves (problem : Problem R) (pick : Nat → Nat) : Prop where
  picks : problem.Picks pick
  holds : ∀ c ∈ problem.hard, c.constraint.holds (problem.picked pick) = .ok (some true)

/-- The places of constraints are those of their variables. -/
structure Problem.Proper (problem : Problem R) : Prop where
  covers : ∀ c ∈ problem.hard ++ problem.soft, ∀ name ∈ c.constraint.vars,
    ∃ place ∈ c.places, problem.places.get? name = some place
  inside : ∀ c ∈ problem.hard ++ problem.soft, ∀ place ∈ c.places, place < problem.values.size

section Translation

variable {vars : List (Variable R)} {hard soft : List (Constraint R)} {problem : Problem R}

/-- A problem has the domains of its variables, in their order, and the constraints. -/
structure Translates (vars : List (Variable R)) (hard soft : List (Constraint R)) (problem : Problem R) : Prop where
  size : problem.values.size = vars.length
  domain : ∀ (place : Nat) (v : Variable R), vars[place]? = some v →
    ∃ values, v.domain.expand v.name = .ok values ∧ problem.values[place]? = some values.toArray
  place : ∀ (name : String) (place : Nat), problem.places.get? name = some place ↔
    (vars.map Variable.name)[place]? = some name
  names : problem.names = vars.map Variable.name
  hard : problem.hard.map Placed.constraint = hard
  soft : problem.soft.map Placed.constraint = soft
  proper : problem.Proper

theorem translates_of (built : Problem.of vars hard soft = .ok problem) (distinct : (vars.map Variable.name).Nodup)
    (declared : Declared vars (hard ++ soft)) : Translates vars hard soft problem := by
  rw [Problem.of] at built
  cases expanded : vars.mapM fun v => v.domain.expand v.name with
  | error fault =>
    rw [expanded] at built
    cases built
  | ok values =>
    rw [expanded] at built
    cases built
    have each := Lists.mapM_eq_ok_iff.1 expanded
    have place (name : String) (place : Nat) :
        (NameMap.ofList (vars.map Variable.name).zipIdx).get? name = some place ↔
          (vars.map Variable.name)[place]? = some name := by
      rw [NameMap.get?_ofList_eq_some_iff, List.mk_mem_zipIdx_iff_getElem?]
      rwa [List.zipIdx_map_fst]
    have size : values.length = vars.length := each.length_eq.symm
    refine ⟨?_, ?_, place, rfl, ?_, ?_, ?_, ?_⟩
    · simpa using size
    · intro place v there
      obtain ⟨inside, own⟩ := List.getElem?_eq_some_iff.1 there
      refine ⟨values[place], ?_, ?_⟩
      · rw [← own]
        exact each.get inside (by omega)
      · simp [size, inside]
    · simp [Function.comp_def]
    · simp [Function.comp_def]
    · intro c member name mentioned
      have own : ∃ original ∈ hard ++ soft, c = ⟨original, original.vars.filterMap
          (NameMap.ofList (vars.map Variable.name).zipIdx).get?⟩ := by
        simp only [← List.map_append, List.mem_map] at member
        obtain ⟨original, among, rfl⟩ := member
        exact ⟨original, among, rfl⟩
      obtain ⟨original, among, rfl⟩ := own
      obtain ⟨position, there⟩ := List.mem_iff_getElem?.1 (declared original among name mentioned)
      have found := (place name position).2 there
      exact ⟨position, List.mem_filterMap.2 ⟨name, mentioned, found⟩, found⟩
    · intro c member position listed
      simp only [← List.map_append, List.mem_map] at member
      obtain ⟨original, _, rfl⟩ := member
      obtain ⟨name, _, found⟩ := List.mem_filterMap.1 listed
      have inside := (List.getElem?_eq_some_iff.1 ((place name position).1 found)).1
      simpa [size] using inside

/-- A problem is built when every domain can be expanded. -/
theorem exists_of {values : List (List (Value R))} (expanded : vars.mapM (fun v => v.domain.expand v.name) = .ok values) :
    ∃ problem, Problem.of vars hard soft = .ok problem := by
  rw [Problem.of, expanded]
  exact ⟨_, rfl⟩

namespace Translates

variable (translates : Translates vars hard soft problem)

include translates

theorem place_lt {name : String} {place : Nat} (found : problem.places.get? name = some place) :
    place < problem.values.size := by
  have inside := (List.getElem?_eq_some_iff.1 ((translates.place name place).1 found)).1
  rw [translates.size]
  simpa using inside

/-- What stands at a position of a variable's domain is a value of the domain. -/
theorem value_drawn {name : String} {place position : Nat} {value : Value R}
    (found : problem.places.get? name = some place) (stored : problem.value? place position = some value) :
    ∃ v ∈ vars, v.name = name ∧ ∃ values, v.domain.expand v.name = .ok values ∧ value ∈ values := by
  have named := (translates.place name place).1 found
  rw [List.getElem?_map, Option.map_eq_some_iff] at named
  obtain ⟨v, there, own⟩ := named
  obtain ⟨values, expanded, listed⟩ := translates.domain place v there
  rw [Problem.value?, listed] at stored
  refine ⟨v, List.mem_of_getElem? there, own, values, expanded, ?_⟩
  have entry : values[position]? = some value := by simpa using stored
  exact List.mem_of_getElem? entry

theorem env_drawn (assigned : Array (Option Nat)) : Drawn vars (problem.env assigned) := by
  intro name value stored
  obtain ⟨place, found, stored⟩ := Option.bind_eq_some_iff.1 stored
  obtain ⟨position, _, stored⟩ := Option.bind_eq_some_iff.1 stored
  exact translates.value_drawn found stored

theorem picked_chosen {pick : Nat → Nat} (picks : problem.Picks pick) : Chosen vars (problem.picked pick) := by
  intro v member
  obtain ⟨place, there⟩ := List.mem_iff_getElem?.1 member
  obtain ⟨values, expanded, listed⟩ := translates.domain place v there
  have found : problem.places.get? v.name = some place := (translates.place v.name place).2 (by simp [there])
  have inside := picks place (translates.place_lt found)
  rw [Problem.domainSize, listed] at inside
  have position : pick place < values.length := by simpa using inside
  refine ⟨values, expanded, values[pick place], List.getElem_mem position, ?_⟩
  simp [Problem.picked, found, Problem.value?, listed, position]

/-- Every choice of values picks positions. -/
theorem exists_picks {env : Env R} (chosen : Chosen vars env) :
    ∃ pick, problem.Picks pick ∧ ∀ name ∈ vars.map Variable.name, env name = problem.picked pick name := by
  have each : ∀ place : Nat, ∃ position : Nat, ∀ v, vars[place]? = some v →
      position < problem.domainSize place ∧ env v.name = problem.value? place position := by
    intro place
    cases there : vars[place]? with
    | none => exact ⟨0, fun _ some => by simp at some⟩
    | some v =>
      obtain ⟨values, expanded, value, among, own⟩ := chosen v (List.mem_of_getElem? there)
      obtain ⟨values', expanded', listed⟩ := translates.domain place v there
      rw [expanded, Except.ok.injEq] at expanded'
      subst expanded'
      obtain ⟨position, inside, rfl⟩ := List.mem_iff_getElem.1 among
      refine ⟨position, fun _ same => ?_⟩
      cases same
      rw [own]
      simp [Problem.domainSize, Problem.value?, listed, inside]
  obtain ⟨pick, picked⟩ := Classical.skolem.1 each
  refine ⟨pick, fun place inside => ?_, fun name declared => ?_⟩
  · rw [translates.size] at inside
    exact (picked place _ (List.getElem?_eq_getElem inside)).1
  · obtain ⟨place, there⟩ := List.mem_iff_getElem?.1 declared
    have found := (translates.place name place).2 there
    rw [List.getElem?_map, Option.map_eq_some_iff] at there
    obtain ⟨v, listed, rfl⟩ := there
    rw [(picked place v listed).2, Problem.picked, found]
    rfl

/-- Positions that solve the problem make everything hold. -/
theorem allHold {pick : Nat → Nat} (solves : problem.Solves pick) : AllHold (problem.picked pick) hard := by
  intro c listed
  rw [← translates.hard] at listed
  obtain ⟨placed, member, rfl⟩ := List.mem_map.1 listed
  exact solves.holds placed member

/-- Positions of values that make everything hold solve the problem. -/
theorem solves (declared : Declared vars hard) {env : Env R} {pick : Nat → Nat} (picks : problem.Picks pick)
    (agree : ∀ name ∈ vars.map Variable.name, env name = problem.picked pick name) (holds : AllHold env hard) :
    problem.Solves pick := by
  refine ⟨picks, fun c member => ?_⟩
  have listed : c.constraint ∈ hard := translates.hard ▸ List.mem_map_of_mem member
  rw [← Constraint.holds_congr fun name mentioned => agree name (declared _ listed name mentioned)]
  exact holds _ listed

/-- What has to hold holds for a choice of values exactly when picked positions solve the problem. -/
theorem satisfiable_iff (declared : Declared vars hard) : Satisfiable vars hard ↔ ∃ pick, problem.Solves pick := by
  constructor
  · rintro ⟨env, chosen, holds⟩
    obtain ⟨pick, picks, agree⟩ := translates.exists_picks chosen
    exact ⟨pick, translates.solves declared picks agree holds⟩
  · rintro ⟨pick, solves⟩
    exact ⟨problem.picked pick, translates.picked_chosen solves.picks, translates.allHold solves⟩

end Translates

end Translation

end ConstraintSearch

end Deliberation
