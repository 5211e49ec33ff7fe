import Deliberation.Proofs.Schedule.Order
import Mathlib.Data.List.Perm.Subperm
import Mathlib.Logic.Relation

/-!
The order in which a walk is done with activities. What the links of an activity lead to is done with
before it, or leads back to it; so an activity that does not stand before one that it leads to lies on
a cycle, and in a network without cycles every activity stands before all that follow it.
-/

open Relation (ReflTransGen TransGen)

namespace Deliberation.Network

variable {n : Nat} {links : List (Nat × Nat)}

/-- Links lead on from one activity to another, or the two are the same. -/
def Reaches (links : List (Nat × Nat)) : Nat → Nat → Prop := ReflTransGen fun i j => (i, j) ∈ links

/-- Of each activity done with, the latest first: what its links lead to was done with before, or leads back to it. -/
def Settled (links : List (Nat × Nat)) : List Nat → Prop
  | [] => True
  | i :: earlier => (∀ j, (i, j) ∈ links → j ∈ earlier ∨ Reaches links j i) ∧ Settled links earlier

theorem Settled.of_split {front earlier : List Nat} {i j : Nat} (settled : Settled links (front ++ i :: earlier))
    (link : (i, j) ∈ links) : j ∈ earlier ∨ Reaches links j i := by
  induction front with
  | nil => exact settled.1 j link
  | cons _ _ ih => exact ih settled.2

/-- A walk that is on its way to the activities of a stack: they are met, and it is not done with them. -/
structure Walk.Sound (n : Nat) (links : List (Nat × Nat)) (stack : List Nat) (walk : Walk) : Prop where
  met : ∀ i, i ∈ walk.met ↔ i ∈ stack ∨ i ∈ walk.done
  distinct : (stack ++ walk.done).Nodup
  inside : ∀ i ∈ stack, i < n
  settled : Settled links walk.done

theorem length_le_of_lt {stack : List Nat} (distinct : stack.Nodup) (inside : ∀ i ∈ stack, i < n) : stack.length ≤ n := by
  have among : stack ⊆ List.range n := fun i member => List.mem_range.2 (inside i member)
  simpa using (List.subperm_of_subset distinct among).length_le

theorem foldl_sound {visit : Walk → Nat → Walk} {stack l : List Nat}
    (goes : ∀ walk : Walk, ∀ j ∈ l, walk.Goes n (visit walk j))
    (each : ∀ walk : Walk, walk.Sound n links stack → ∀ j ∈ l, (visit walk j).Sound n links stack ∧ j ∈ (visit walk j).met)
    {walk : Walk} (sound : walk.Sound n links stack) :
    (l.foldl visit walk).Sound n links stack ∧ ∀ j ∈ l, j ∈ (l.foldl visit walk).met := by
  induction l generalizing walk with
  | nil => exact ⟨sound, by simp⟩
  | cons j rest ih =>
    have later : ∀ walk : Walk, ∀ k ∈ rest, walk.Goes n (visit walk k) := fun walk k member =>
      goes walk k (List.mem_cons_of_mem _ member)
    obtain ⟨first, here⟩ := each walk sound j (List.mem_cons_self ..)
    obtain ⟨all, others⟩ := ih later (fun walk sound k member => each walk sound k (List.mem_cons_of_mem _ member)) first
    refine ⟨all, List.forall_mem_cons.2 ⟨?_, others⟩⟩
    exact (foldl_goes later (visit walk j)).met j here

/-- An activity that is done with after all that follow it takes its place before them. -/
theorem Walk.Sound.finish {walk : Walk} {stack : List Nat} {i : Nat} (sound : walk.Sound n links (i :: stack))
    (followed : ∀ j, (i, j) ∈ links → j ∈ walk.met) (above : ∀ a ∈ stack, Reaches links a i) :
    Walk.Sound n links stack { walk with done := i :: walk.done } where
  met j := by
    have known := sound.met j
    simp only [List.mem_cons] at known ⊢
    rw [known]
    tauto
  distinct := List.perm_middle.nodup_iff.2 sound.distinct
  inside j member := sound.inside j (List.mem_cons_of_mem _ member)
  settled := by
    refine ⟨?_, sound.settled⟩
    intro j link
    rcases (sound.met j).1 (followed j link) with waiting | finished
    · rcases List.mem_cons.1 waiting with rfl | waiting
      · exact .inr .refl
      · exact .inr (above j waiting)
    · exact .inl finished

/-- A walk to an activity comes back with the stack as it was. The stack is a path without repetition, so the
depth is never used up. -/
theorem explore_sound (within : ∀ i j, (i, j) ∈ links → j < n) (depth : Nat) {walk : Walk} {stack : List Nat} {i : Nat}
    (sound : walk.Sound n links stack) (inside : i < n) (above : ∀ a ∈ stack, Reaches links a i)
    (room : n ≤ depth + stack.length) :
    (explore n links depth walk i).Sound n links stack ∧ i ∈ (explore n links depth walk i).met := by
  induction depth generalizing walk stack i with
  | zero =>
    rw [explore]
    refine ⟨sound, (sound.met i).2 (.inl ?_)⟩
    by_contra fresh
    have distinct : (i :: stack).Nodup := List.nodup_cons.2 ⟨fresh, sound.distinct.of_append_left⟩
    have fits := length_le_of_lt distinct (List.forall_mem_cons.2 ⟨inside, sound.inside⟩)
    rw [List.length_cons] at fits
    omega
  | succ depth ih =>
    rw [explore]
    split
    · next known => exact ⟨sound, known⟩
    · next fresh =>
      extract_lets after next
      have fresh := not_or.1 (mt (sound.met i).2 fresh)
      have started : Walk.Sound n links (i :: stack) { walk with met := i :: walk.met } := by
        refine ⟨?_, ?_, List.forall_mem_cons.2 ⟨inside, sound.inside⟩, sound.settled⟩
        · intro j
          simp only [List.mem_cons, sound.met j, or_assoc]
        · exact List.nodup_cons.2 ⟨by simp [fresh.1, fresh.2], sound.distinct⟩
      have linked : ∀ j ∈ after, (i, j) ∈ links := fun j member => by simpa using (List.mem_filter.1 member).2
      obtain ⟨visited, followed⟩ : next.Sound n links (i :: stack) ∧ ∀ j ∈ after, j ∈ next.met := by
        refine foldl_sound ?_ ?_ started
        · intro walk j member
          exact explore_goes depth walk (within i j (linked j member))
        · intro walk sound j member
          have reached : ∀ a ∈ i :: stack, Reaches links a j := by
            refine List.forall_mem_cons.2 ⟨.single (linked j member), fun a waiting => ?_⟩
            exact (above a waiting).tail (linked j member)
          refine ih sound (within i j (linked j member)) reached ?_
          rw [List.length_cons]
          omega
      have all : ∀ j, (i, j) ∈ links → j ∈ next.met := by
        intro j link
        exact followed j (List.mem_filter.2 ⟨List.mem_range.2 (within i j link), by simpa using link⟩)
      exact ⟨visited.finish all above, (visited.met i).2 (.inl (List.mem_cons_self ..))⟩

theorem walkOrder_sound (within : ∀ i j, (i, j) ∈ links → j < n) :
    Walk.Sound n links [] ((List.range n).foldl (explore n links n) ⟨[], []⟩) := by
  have started : Walk.Sound n links [] ⟨[], []⟩ := ⟨by simp, by simp, by simp, trivial⟩
  refine (foldl_sound ?_ ?_ started).1
  · intro walk i member
    exact explore_goes n walk (List.mem_range.1 member)
  · intro walk sound i member
    exact explore_sound within n sound (List.mem_range.1 member) (by simp) (by simp)

/-- The order of a walk lists every activity once. -/
theorem nodup_walkOrder (within : ∀ i j, (i, j) ∈ links → j < n) : (walkOrder n links).Nodup :=
  (walkOrder_sound within).distinct

theorem perm_walkOrder (within : ∀ i j, (i, j) ∈ links → j < n) : (walkOrder n links).Perm (List.range n) := by
  refine (List.perm_ext_iff_of_nodup (nodup_walkOrder within) List.nodup_range).2 fun i => ?_
  rw [mem_walkOrder, List.mem_range]

/-- A misplaced activity leads to one before which it does not stand. -/
theorem of_misplaced?_eq_some {before order : List Nat} {early : Nat} (found : misplaced? links before order = some early) :
    ∃ front j back, order = front ++ j :: back ∧ (early, j) ∈ links ∧ early ∉ before ∧ early ∉ front := by
  induction order generalizing before with
  | nil => cases found
  | cons i rest ih =>
    rw [misplaced?] at found
    split at found
    · next here =>
      cases found
      have member := List.mem_of_find?_eq_some here
      have absent : early ∉ before := by simpa using List.find?_some here
      exact ⟨[], i, rest, rfl, by simpa [predecessorsIn] using member, absent, by simp⟩
    · obtain ⟨front, j, back, rfl, link, absent, later⟩ := ih found
      obtain ⟨apart, absent⟩ := not_or.1 (mt List.mem_cons.2 absent)
      exact ⟨i :: front, j, back, rfl, link, absent, by simp [apart, later]⟩

/-- Where no activity is misplaced, each one stands after all that lead to it. -/
theorem mem_of_misplaced?_eq_none {before order front back : List Nat} {i j : Nat}
    (fits : misplaced? links before order = none) (split : order = front ++ j :: back) (link : (i, j) ∈ links) :
    i ∈ before ∨ i ∈ front := by
  induction front generalizing before order with
  | nil =>
    subst split
    rw [List.nil_append, misplaced?] at fits
    split at fits
    · cases fits
    · next placed =>
      have among : i ∈ predecessorsIn links j := by simpa [predecessorsIn] using link
      exact .inl (by simpa using List.find?_eq_none.1 placed i among)
  | cons first front ih =>
    subst split
    rw [List.cons_append, misplaced?] at fits
    split at fits
    · cases fits
    · rcases ih fits rfl with member | member
      · rcases List.mem_cons.1 member with rfl | member
        · exact .inr (List.mem_cons_self ..)
        · exact .inl member
      · exact .inr (List.mem_cons_of_mem _ member)

/-- An activity that the order of a walk has misplaced lies on a cycle. -/
theorem cyclic_of_misplaced? (within : ∀ i j, (i, j) ∈ links → i < n ∧ j < n) {i : Nat}
    (found : misplaced? links [] (walkOrder n links) = some i) : TransGen (fun i j => (i, j) ∈ links) i i := by
  have sound := walkOrder_sound fun i j link => (within i j link).2
  obtain ⟨front, j, back, split, link, -, late⟩ := of_misplaced?_eq_some found
  have listed : i ∈ front ++ j :: back := split ▸ mem_walkOrder.2 (within i j link).1
  refine TransGen.head' link ?_
  rcases List.mem_cons.1 ((List.mem_append.1 listed).resolve_left late) with rfl | later
  · exact .refl
  · obtain ⟨between, earlier, rfl⟩ := List.append_of_mem later
    have done : walkOrder n links = (front ++ j :: between) ++ i :: earlier := by rw [split]; simp
    have settled : Settled links ((front ++ j :: between) ++ i :: earlier) := done ▸ sound.settled
    have distinct : ((front ++ j :: between) ++ i :: earlier).Nodup := done ▸ sound.distinct
    have apart : j ∉ earlier := fun member =>
      List.disjoint_of_nodup_append distinct (by simp) (List.mem_cons_of_mem _ member)
    exact (settled.of_split link).resolve_left apart

/-- Along an order without misplaced activities, every link leads further. -/
theorem idxOf_lt_of_misplaced? {order : List Nat} (fits : misplaced? links [] order = none) {i j : Nat}
    (member : j ∈ order) (link : (i, j) ∈ links) : order.idxOf i < order.idxOf j := by
  obtain ⟨front, back, split, first⟩ := List.eq_append_cons_of_mem member
  have earlier : i ∈ front := (mem_of_misplaced?_eq_none fits split link).resolve_left (by simp)
  rw [split, List.idxOf_append_of_mem earlier, List.idxOf_append_of_notMem first, List.idxOf_cons_self]
  exact Nat.lt_of_lt_of_le (List.idxOf_lt_length_iff.2 earlier) (Nat.le_add_right ..)

/-- An order without misplaced activities leaves no room for cycles. -/
theorem acyclic_of_misplaced? {order : List Nat} (fits : misplaced? links [] order = none)
    (listed : ∀ i j, (i, j) ∈ links → j ∈ order) (i : Nat) : ¬ TransGen (fun i j => (i, j) ∈ links) i i := by
  intro cycle
  have rises : TransGen (fun a b : Nat => a < b) (order.idxOf i) (order.idxOf i) :=
    cycle.lift order.idxOf fun a b link => idxOf_lt_of_misplaced? fits (listed a b link) link
  rw [Relation.transGen_eq_self] at rises
  exact Nat.lt_irrefl _ rises

end Deliberation.Network
