import Deliberation.Proofs.Constraint.Leaves
import Mathlib.Data.List.Sections

/-!
There are at most as many leaves as choices of values that make everything hold that has to.
-/

namespace Deliberation

variable {R : Type} [Scalar R]

/-- The values of a variable's domain; none where it cannot be expanded. -/
def Variable.values (v : Variable R) : List (Value R) :=
  match v.domain.expand v.name with
  | .ok values => values
  | .error _ => []

/-- The choices of a value for each variable. -/
def choices (vars : List (Variable R)) : List (List (Value R)) := (vars.map Variable.values).sections

/-- The values of a choice by the names of their variables. -/
def choiceEnv (vars : List (Variable R)) (choice : List (Value R)) : Env R := fun name =>
  ((vars.map Variable.name).zip choice).lookup name

/-- Whether every constraint holds. -/
def meetsAll (env : Env R) (constraints : List (Constraint R)) : Bool :=
  constraints.all fun c => match c.holds env with
    | .ok (some true) => true
    | _ => false

theorem meetsAll_iff {env : Env R} {constraints : List (Constraint R)} :
    meetsAll env constraints = true ↔ AllHold env constraints := by
  rw [meetsAll, List.all_eq_true, AllHold]
  refine forall₂_congr fun c _ => ?_
  rcases c.holds env with reason | _ | _ | _ <;> simp

/-- The choices that make every constraint hold. -/
def satisfyingChoices (vars : List (Variable R)) (constraints : List (Constraint R)) : List (List (Value R)) :=
  (choices vars).filter fun choice => meetsAll (choiceEnv vars choice) constraints

section Positions

variable {α : Type}

theorem map_fst_sections (domains : List (List α)) :
    (domains.map List.zipIdx).sections.map (List.map Prod.fst) = domains.sections := by
  have rows : List.Forall₂ (List.Forall₂ fun entry a => entry.1 = a) (domains.map List.zipIdx) domains := by
    rw [List.forall₂_map_left_iff, List.forall₂_same]
    intro values _
    rw [← List.forall₂_map_left_iff, List.forall₂_eq_eq_eq]
    exact List.zipIdx_map_fst 0 values
  have choices := List.rel_sections rows
  rw [← List.forall₂_eq_eq_eq, List.forall₂_map_left_iff]
  refine choices.imp fun code choice each => ?_
  rwa [← List.forall₂_eq_eq_eq, List.forall₂_map_left_iff]

/-- Positions in lists make one of the choices from these lists. -/
theorem exists_section (domains : List (List α)) (pick : Nat → Nat)
    (inside : ∀ place values, domains[place]? = some values → pick place < values.length) :
    ∃ code ∈ (domains.map List.zipIdx).sections, code.map Prod.snd = (List.range domains.length).map pick ∧
      ∀ place values, domains[place]? = some values → (code.map Prod.fst)[place]? = values[pick place]? := by
  induction domains generalizing pick with
  | nil => exact ⟨[], by simp [List.sections], rfl, fun place values listed => by simp at listed⟩
  | cons first rest ih =>
    obtain ⟨code, among, positions, values⟩ := ih (fun place => pick (place + 1)) fun place values listed =>
      inside (place + 1) values listed
    have here : pick 0 < first.length := inside 0 first rfl
    refine ⟨(first[pick 0], pick 0) :: code, ?_, ?_, fun place row listed => ?_⟩
    · rw [List.map_cons, List.sections, List.mem_flatMap]
      refine ⟨code, among, List.mem_map.2 ⟨_, ?_, rfl⟩⟩
      rw [List.mk_mem_zipIdx_iff_getElem?, List.getElem?_eq_getElem here]
    · rw [List.map_cons, positions, List.length_cons, List.range_succ_eq_map]
      simp [Function.comp_def]
    · cases place with
      | zero =>
        cases listed
        simp [here]
      | succ place => exact values place row listed

end Positions

namespace ConstraintSearch

variable {vars : List (Variable R)} {hard soft : List (Constraint R)} {problem : Problem R} {pick : Nat → Nat}

theorem Translates.values (translates : Translates vars hard soft problem) {place : Nat} {values : List (Value R)}
    (listed : (vars.map Variable.values)[place]? = some values) : problem.values[place]? = some values.toArray := by
  rw [List.getElem?_map, Option.map_eq_some_iff] at listed
  obtain ⟨v, there, rfl⟩ := listed
  obtain ⟨values, expanded, row⟩ := translates.domain place v there
  rw [row, Variable.values, expanded]

/-- Every solution of a problem is a choice that makes everything hold. -/
theorem Problem.Solves.exists_choice (solves : problem.Solves pick) (translates : Translates vars hard soft problem)
    (distinct : (vars.map Variable.name).Nodup) (declared : Declared vars hard) :
    ∃ code ∈ ((vars.map Variable.values).map List.zipIdx).sections,
      meetsAll (choiceEnv vars (code.map Prod.fst)) hard = true ∧
        code.map Prod.snd = (List.range problem.values.size).map pick := by
  have size : (vars.map Variable.values).length = problem.values.size := by
    rw [translates.size, List.length_map]
  obtain ⟨code, among, positions, values⟩ := exists_section (vars.map Variable.values) pick
    fun place values listed => by
      have row := translates.values listed
      have within := solves.picks place (Array.getElem?_eq_some_iff.1 row).1
      rwa [Problem.domainSize, row] at within
  refine ⟨code, among, meetsAll_iff.2 ((translates.allHold solves).congr ?_), size ▸ positions⟩
  intro c member name mentioned
  obtain ⟨place, there⟩ := List.mem_iff_getElem?.1 (declared c member name mentioned)
  have inside : place < (vars.map Variable.values).length := by
    have bound := (List.getElem?_eq_some_iff.1 there).1
    rwa [List.length_map] at bound ⊢
  have listed := List.getElem?_eq_getElem inside
  rw [choiceEnv, Lists.lookup_zip distinct there, values place _ listed, Problem.picked,
    (translates.place name place).2 there]
  show problem.value? place (pick place) = _
  rw [Problem.value?, translates.values listed]
  simp

/-- Leaves are choices that make everything hold, each another one. -/
theorem Translates.length_leaves_le (translates : Translates vars hard soft problem)
    (distinct : (vars.map Variable.name).Nodup) (declared : Declared vars hard) {order : VariableOrder} {state : State}
    (sound : problem.Sound state) (depth : Nat) :
    (leaves problem order depth state).length ≤ (satisfyingChoices vars hard).length := by
  let codes := ((vars.map Variable.values).map List.zipIdx).sections.filter fun code =>
    meetsAll (choiceEnv vars (code.map Prod.fst)) hard
  let positions (leaf : State) : List Nat := (List.range problem.values.size).map leaf.pick
  have counted : (satisfyingChoices vars hard).length = codes.length := by
    rw [satisfyingChoices, choices, ← map_fst_sections, List.filter_map, List.length_map]
    rfl
  have apart : ((leaves problem order depth state).map positions).Nodup := by
    refine List.pairwise_map.2 ((leaves_distinct translates.proper sound).imp fun differ same => ?_)
    obtain ⟨place, inside, differ⟩ := differ
    exact differ (List.map_inj_left.1 same place (List.mem_range.2 inside))
  have among : (leaves problem order depth state).map positions ⊆ codes.map (List.map Prod.snd) := by
    intro row member
    obtain ⟨leaf, below, rfl⟩ := List.mem_map.1 member
    have known := leaf_of_mem translates.proper sound below
    obtain ⟨code, listed, holds, same⟩ :=
      (known.sound.solves translates.proper known.full).exists_choice translates distinct declared
    exact List.mem_map.2 ⟨code, List.mem_filter.2 ⟨listed, holds⟩, same⟩
  have bound := (apart.subperm among).length_le
  rwa [List.length_map, List.length_map, ← counted] at bound

end ConstraintSearch

end Deliberation
