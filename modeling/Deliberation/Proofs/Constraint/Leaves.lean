import Deliberation.Proofs.Constraint.Complete
import Mathlib.Data.Finset.Card
import Mathlib.Data.Finset.Range

/-!
The leaves of the tree that searches walk through, in the order in which they are met: the states in
which every variable has a value. No two of them give the same values.
-/

namespace Deliberation.ConstraintSearch

variable {R : Type} [Scalar R] {problem : Problem R} {order : VariableOrder} {state child : State}

section Enumeration

/-- The state that a live value of a variable leads to when it passes all checks. -/
def child? (problem : Problem R) (state : State) (place value : Nat) : Option State :=
  if state.isAlive place value then
    match attempt problem state place value with
    | .ok (true, child) => some child
    | _ => none
  else none

/-- The leaves below a state with less than `depth` open variables. -/
def leaves (problem : Problem R) (order : VariableOrder) : (depth : Nat) → State → List State
  | 0, _ => []
  | depth + 1, state =>
    match problem.select order state with
    | none => [state]
    | some place => (List.range' 0 (problem.domainSize place)).flatMap fun value =>
        (child? problem state place value).elim [] (leaves problem order depth)

/-- The leaves below the children for a variable from a value on. -/
def leavesFrom (problem : Problem R) (order : VariableOrder) (depth : Nat) (state : State) (place value : Nat) :
    List State :=
  (List.range' value (problem.domainSize place - value)).flatMap fun value =>
    (child? problem state place value).elim [] (leaves problem order depth)

theorem leaves_full (full : problem.select order state = none) (depth : Nat) :
    leaves problem order (depth + 1) state = [state] := by
  simp only [leaves, full]

theorem leaves_inner {place : Nat} (chosen : problem.select order state = some place) (depth : Nat) :
    leaves problem order (depth + 1) state = leavesFrom problem order depth state place 0 := by
  simp only [leaves, chosen]
  rfl

theorem leavesFrom_beyond {place value : Nat} (beyond : problem.domainSize place ≤ value) (depth : Nat) :
    leavesFrom problem order depth state place value = [] := by
  rw [leavesFrom, Nat.sub_eq_zero_of_le beyond]
  rfl

theorem leavesFrom_within {place value : Nat} (within : value < problem.domainSize place) (depth : Nat) :
    leavesFrom problem order depth state place value =
      (child? problem state place value).elim [] (leaves problem order depth) ++
        leavesFrom problem order depth state place (value + 1) := by
  have more : problem.domainSize place - value = problem.domainSize place - (value + 1) + 1 := by omega
  rw [leavesFrom, more, List.range'_succ, List.flatMap_cons]
  rfl

theorem child?_eq_some_iff {place value : Nat} : child? problem state place value = some child ↔
    state.isAlive place value = true ∧ attempt problem state place value = .ok (true, child) := by
  rw [child?]
  by_cases live : state.isAlive place value = true
  · rw [if_pos live]
    cases tried : attempt problem state place value with
    | error reason => simp
    | ok result =>
      obtain ⟨passed, next⟩ := result
      cases passed <;> simp [live]
  · simp [live]

theorem child?_eq_none {place value : Nat} (failed : ∀ child, state.isAlive place value = true →
    attempt problem state place value ≠ .ok (true, child)) : child? problem state place value = none := by
  rw [Option.eq_none_iff_forall_ne_some]
  intro child tried
  obtain ⟨live, passed⟩ := child?_eq_some_iff.1 tried
  exact failed child live passed

end Enumeration

section Depth

/-- The variables without values. -/
def Problem.openPlaces (problem : Problem R) (state : State) : Finset Nat :=
  (Finset.range problem.values.size).filter fun place => state.isOpen place = true

omit [Scalar R] in
theorem mem_openPlaces {place : Nat} :
    place ∈ problem.openPlaces state ↔ place < problem.values.size ∧ state.isOpen place = true := by
  rw [Problem.openPlaces, Finset.mem_filter, Finset.mem_range]

omit [Scalar R] in
theorem card_openPlaces_le (state : State) : (problem.openPlaces state).card ≤ problem.values.size := by
  have bound := Finset.card_filter_le (Finset.range problem.values.size) fun place => state.isOpen place = true
  rwa [Finset.card_range] at bound

theorem Tried.given {place value : Nat} {passed : Bool} (tried : Tried problem state place value passed child)
    (sound : problem.Sound state) (inside : place < problem.values.size) (other : Nat) :
    child.given other = if other = place then some value else state.given other :=
  given_of_assigned (sound.size.symm ▸ inside) tried.assigned other

/-- A child keeps the values of its parent. -/
theorem Tried.keeps {place value : Nat} {passed : Bool} (tried : Tried problem state place value passed child)
    (sound : problem.Sound state) (inside : place < problem.values.size) (vacant : state.isOpen place = true)
    {other position : Nat} (stored : state.given other = some position) : child.given other = some position := by
  rw [tried.given sound inside]
  by_cases same : other = place
  · subst same
    rw [State.isOpen_eq_true_iff, stored] at vacant
    cases vacant
  · rw [if_neg same, stored]

/-- A child has fewer open variables than its parent. -/
theorem Tried.card_openPlaces_lt {place value : Nat} {passed : Bool}
    (tried : Tried problem state place value passed child) (sound : problem.Sound state)
    (inside : place < problem.values.size) (vacant : state.isOpen place = true) :
    (problem.openPlaces child).card < (problem.openPlaces state).card := by
  refine Finset.card_lt_card (Finset.ssubset_iff_subset_ne.2 ⟨fun other member => ?_, fun same => ?_⟩)
  · obtain ⟨within, free⟩ := mem_openPlaces.1 member
    refine mem_openPlaces.2 ⟨within, ?_⟩
    rw [State.isOpen_eq_true_iff, tried.given sound inside] at free
    rw [State.isOpen_eq_true_iff]
    split at free
    · cases free
    · exact free
  · have member : place ∈ problem.openPlaces child := same ▸ mem_openPlaces.2 ⟨inside, vacant⟩
    have free := (mem_openPlaces.1 member).2
    rw [State.isOpen_eq_true_iff, tried.given sound inside, if_pos rfl] at free
    cases free

end Depth

section Members

/-- What is known of a leaf below a state. -/
structure Leaf (problem : Problem R) (order : VariableOrder) (state leaf : State) : Prop where
  sound : problem.Sound leaf
  full : problem.select order leaf = none
  keeps : ∀ place value, state.given place = some value → leaf.given place = some value

theorem Leaf.below {leaf : State} {place value : Nat} {passed : Bool} (below : Leaf problem order child leaf)
    (tried : Tried problem state place value passed child) (sound : problem.Sound state)
    (inside : place < problem.values.size) (vacant : state.isOpen place = true) : Leaf problem order state leaf :=
  ⟨below.sound, below.full, fun other position stored =>
    below.keeps other position (tried.keeps sound inside vacant stored)⟩

variable (proper : problem.Proper)

include proper

theorem leaf_of_mem {depth : Nat} (sound : problem.Sound state) {leaf : State}
    (member : leaf ∈ leaves problem order depth state) : Leaf problem order state leaf := by
  induction depth generalizing state with
  | zero => simp [leaves] at member
  | succ depth ih =>
    cases chosen : problem.select order state with
    | none =>
      rw [leaves_full chosen, List.mem_singleton] at member
      subst member
      exact ⟨sound, chosen, fun _ _ => id⟩
    | some place =>
      obtain ⟨inside, vacant⟩ := isOpen_of_select chosen
      rw [leaves_inner chosen, leavesFrom, List.mem_flatMap] at member
      obtain ⟨value, range, member⟩ := member
      cases tried : child? problem state place value with
      | none => simp [tried] at member
      | some child =>
        have within : value < problem.domainSize place := by
          have bounds := List.mem_range'_1.1 range
          omega
        have effect := tried_of_attempt proper sound vacant inside within (child?_eq_some_iff.1 tried).2
        rw [tried] at member
        exact (ih (effect.sound rfl) member).below effect sound inside vacant

/-- The leaves below a child have its value. -/
theorem pick_of_mem {depth place value : Nat} (sound : problem.Sound state) (inside : place < problem.values.size)
    (vacant : state.isOpen place = true) (within : value < problem.domainSize place) {leaf : State}
    (member : leaf ∈ (child? problem state place value).elim [] (leaves problem order depth)) :
    leaf.pick place = value := by
  cases tried : child? problem state place value with
  | none => simp [tried] at member
  | some child =>
    have effect := tried_of_attempt proper sound vacant inside within (child?_eq_some_iff.1 tried).2
    rw [tried] at member
    have kept := (leaf_of_mem proper (effect.sound rfl) member).keeps place value
    rw [State.pick, kept (by rw [effect.given sound inside, if_pos rfl])]
    rfl

/-- No two leaves give the same values. -/
theorem leaves_distinct {depth : Nat} (sound : problem.Sound state) : (leaves problem order depth state).Pairwise
    fun a b => ∃ place < problem.values.size, a.pick place ≠ b.pick place := by
  induction depth generalizing state with
  | zero => exact .nil
  | succ depth ih =>
    cases chosen : problem.select order state with
    | none =>
      rw [leaves_full chosen]
      exact List.pairwise_singleton _ _
    | some place =>
      obtain ⟨inside, vacant⟩ := isOpen_of_select chosen
      have within : ∀ value ∈ List.range' 0 (problem.domainSize place - 0), value < problem.domainSize place := by
        intro value range
        have bounds := List.mem_range'_1.1 range
        omega
      rw [leaves_inner chosen, leavesFrom, List.pairwise_flatMap]
      constructor
      · intro value range
        cases tried : child? problem state place value with
        | none => exact .nil
        | some child =>
          have effect := tried_of_attempt proper sound vacant inside (within value range) (child?_eq_some_iff.1 tried).2
          exact ih (effect.sound rfl)
      · have apart : (List.range' 0 (problem.domainSize place - 0)).Pairwise (· ≠ ·) := List.nodup_range'
        refine apart.imp_of_mem fun first second differ a below b below' => ⟨place, inside, ?_⟩
        rwa [pick_of_mem proper sound inside vacant (within _ first) below,
          pick_of_mem proper sound inside vacant (within _ second) below']

end Members

end Deliberation.ConstraintSearch
