import Deliberation.Constraint.Search
import Mathlib.Data.List.Perm.Basic

/-!
States of the search. Deaths on the trail can be undone: whatever was killed and given since a state,
undoing the trail down to its length and taking the value back gives that state again.
-/

namespace Deliberation.ConstraintSearch

namespace State

variable {state base later : State} {place value : Nat}

/-- The life of a value in a table. -/
def liveIn (alive : Array (Array Bool)) (death : Nat × Nat) : Option Bool := (alive[death.1]?).bind (·[death.2]?)

theorem isAlive_iff : state.isAlive place value = true ↔ liveIn state.alive (place, value) = some true := by
  rw [isAlive, liveIn]
  cases (state.alive[place]?).bind (·[value]?) <;> simp

theorem liveIn_mark {alive : Array (Array Bool)} {live : Bool} {death other : Nat × Nat} :
    liveIn (mark alive live death) other =
      if other = death then (liveIn alive other).map fun _ => live else liveIn alive other := by
  obtain ⟨place, value⟩ := death
  obtain ⟨place', value'⟩ := other
  rw [liveIn, mark, liveIn, Array.getElem?_modify]
  by_cases samePlace : place = place'
  · subst samePlace
    cases alive[place]? with
    | none => simp
    | some row =>
      by_cases sameValue : value = value'
      · subst sameValue
        by_cases inside : value < row.size <;> simp [inside]
      · have apart : ¬ value' = value := fun same => sameValue same.symm
        simp [sameValue, apart]
  · have apart : ¬ place' = place := fun same => samePlace same.symm
    simp [samePlace, apart]

theorem isAlive_prune {other position : Nat} : (state.prune place value).isAlive other position = true ↔
    state.isAlive other position = true ∧ (other, position) ≠ (place, value) := by
  rw [isAlive_iff, isAlive_iff]
  show liveIn (mark state.alive false (place, value)) (other, position) = some true ↔ _
  rw [liveIn_mark]
  split
  · next same => simp [same]
  · next apart => simp [apart]

theorem mark_mark (alive : Array (Array Bool)) (first second : Bool) (death : Nat × Nat) :
    mark (mark alive first death) second death = mark alive second death := by
  apply Array.ext_getElem?
  intro place
  rw [mark, mark, mark, Array.getElem?_modify, Array.getElem?_modify, Array.getElem?_modify]
  by_cases same : death.1 = place
  · cases alive[place]? <;> simp [same]
  · simp [same]

theorem mark_comm (alive : Array (Array Bool)) (live : Bool) (first second : Nat × Nat) :
    mark (mark alive live first) live second = mark (mark alive live second) live first := by
  by_cases equal : first = second
  · rw [equal]
  apply Array.ext_getElem?
  intro place
  rw [mark, mark, mark, mark, Array.getElem?_modify, Array.getElem?_modify, Array.getElem?_modify, Array.getElem?_modify]
  by_cases one : first.1 = place
  · by_cases two : second.1 = place
    · have apart : first.2 ≠ second.2 := fun same => equal (Prod.ext (one.trans two.symm) same)
      cases alive[place]? with
      | none => simp [one, two]
      | some row => simp [one, two, Array.setIfInBounds_comm _ _ apart]
    · simp [one, two]
  · simp [one]

theorem mark_of_live {alive : Array (Array Bool)} {death : Nat × Nat} (live : liveIn alive death = some true) :
    mark alive true death = alive := by
  obtain ⟨row, there, entry⟩ := Option.bind_eq_some_iff.1 live
  apply Array.ext_getElem?
  intro place
  rw [mark, Array.getElem?_modify]
  by_cases same : death.1 = place
  · subst same
    rw [if_pos rfl, there, Option.map_some, Option.some.injEq]
    obtain ⟨inside, own⟩ := Array.getElem?_eq_some_iff.1 entry
    apply Array.ext_getElem?
    intro value
    rw [Array.getElem?_setIfInBounds]
    by_cases here : death.2 = value
    · subst here
      simp [inside, own]
    · rw [if_neg here]
  · rw [if_neg same]

theorem foldl_mark (deaths : List (Nat × Nat)) (alive : Array (Array Bool)) (death : Nat × Nat) :
    mark (deaths.foldl (mark · true ·) alive) true death = deaths.foldl (mark · true ·) (mark alive true death) := by
  induction deaths generalizing alive with
  | nil => rfl
  | cons first rest ih => rw [List.foldl_cons, List.foldl_cons, ih, mark_comm]

theorem foldl_mark_append (first second : List (Nat × Nat)) (alive : Array (Array Bool)) :
    (first ++ second).foldl (mark · true ·) alive = (second ++ first).foldl (mark · true ·) alive := by
  have commutes : RightCommutative (mark · true ·) := ⟨fun alive death other => mark_comm alive true death other⟩
  exact List.perm_append_comm.foldl_eq alive

/-- A state that killed values of an earlier one, all of them since on the trail. -/
structure Since (base state : State) : Prop where
  trail : state.trail.extract 0 base.trail.size = base.trail
  alive : (state.trail.extract base.trail.size state.trail.size).foldl (mark · true ·) state.alive = base.alive

theorem Since.refl (state : State) : Since state state := by
  refine ⟨?_, ?_⟩
  · simp
  · simp

theorem Since.size_le (since : Since base state) : base.trail.size ≤ state.trail.size := by
  have size := congrArg Array.size since.trail
  rw [Array.size_extract] at size
  omega

/-- Since an earlier state, the trail has grown by deaths that lead back to it when they are undone. -/
theorem since_iff : Since base state ↔ ∃ deaths, state.trail.toList = base.trail.toList ++ deaths ∧
    deaths.foldl (mark · true ·) state.alive = base.alive := by
  have front : (state.trail.extract 0 base.trail.size).toList = state.trail.toList.take base.trail.size := by simp
  have rest : (state.trail.extract base.trail.size state.trail.size).toList = state.trail.toList.drop base.trail.size := by
    rw [Array.toList_extract, List.extract_eq_take_drop]
    exact List.take_of_length_le (by simp)
  constructor
  · rintro ⟨kept, undone⟩
    refine ⟨state.trail.toList.drop base.trail.size, ?_, ?_⟩
    · rw [← congrArg Array.toList kept, front, List.take_append_drop]
    · rw [← undone, ← Array.foldl_toList, rest]
  · rintro ⟨deaths, grown, undone⟩
    constructor
    · apply Array.ext'
      rw [front, grown, List.take_left']
      exact Array.length_toList
    · rw [← Array.foldl_toList, rest, grown, List.drop_left' Array.length_toList, undone]

theorem Since.trans (first : Since base state) (second : Since state later) : Since base later := by
  obtain ⟨deaths, grown, undone⟩ := since_iff.1 first
  obtain ⟨more, grown', undone'⟩ := since_iff.1 second
  refine since_iff.2 ⟨deaths ++ more, by rw [grown', grown, List.append_assoc], ?_⟩
  rw [foldl_mark_append, List.foldl_append, undone', undone]

theorem Since.prune (since : Since base state) (live : state.isAlive place value = true) :
    Since base (state.prune place value) := by
  have longer := since.size_le
  refine ⟨?_, ?_⟩
  · show (state.trail.push (place, value)).extract 0 base.trail.size = base.trail
    rw [Array.extract_push_of_le longer, since.trail]
  · show ((state.trail.push (place, value)).extract base.trail.size (state.trail.push (place, value)).size).foldl
      (mark · true ·) (mark state.alive false (place, value)) = base.alive
    have shorter : ¬ state.trail.size + 1 ≤ state.trail.size := by omega
    rw [Array.size_push, Array.extract_push, if_neg shorter, if_pos longer, Array.foldl_push, ← Array.foldl_toList,
      foldl_mark, mark_mark, mark_of_live (isAlive_iff.1 live), Array.foldl_toList, since.alive]

theorem Since.undo (since : Since base state) : state.undo base.trail.size = ⟨base.alive, state.assigned, base.trail⟩ := by
  rw [State.undo, since.trail, since.alive]

theorem since_assign (state : State) (place : Nat) (value : Option Nat) : Since state (state.assign place value) :=
  ⟨(Since.refl state).trail, (Since.refl state).alive⟩

theorem assign_assign (state : State) (place : Nat) (first second : Option Nat) :
    (state.assign place first).assign place second = state.assign place second := by
  simp only [State.assign, Array.setIfInBounds_setIfInBounds]

/-- An open variable has no value to take away. -/
theorem assign_none (vacant : state.isOpen place = true) : state.assign place none = state := by
  have same : state.assigned.setIfInBounds place none = state.assigned := by
    apply Array.ext_getElem?
    intro other
    rw [Array.getElem?_setIfInBounds]
    by_cases here : place = other
    · subst here
      rw [isOpen] at vacant
      cases stored : state.assigned[place]? with
      | none =>
        have outside := Array.getElem?_eq_none_iff.1 stored
        simp [Nat.not_lt.2 outside]
      | some content =>
        have inside := (Array.getElem?_eq_some_iff.1 stored).1
        have empty : content = none := by simpa [stored] using vacant
        simp [inside, empty]
    · rw [if_neg here]
  rw [assign, same]

theorem undo_refl (state : State) : state.undo state.trail.size = state := (Since.refl state).undo

/-- What a value of an open variable led to is undone by undoing the deaths and taking the value back. -/
theorem Since.restore (since : Since base state) (vacant : base.isOpen place = true) {value : Option Nat}
    (given : state.assigned = (base.assign place value).assigned) :
    (state.undo base.trail.size).assign place none = base := by
  have undone : state.undo base.trail.size = base.assign place value := by
    rw [since.undo, given]
    rfl
  rw [undone, assign_assign, assign_none vacant]

end State

end Deliberation.ConstraintSearch
