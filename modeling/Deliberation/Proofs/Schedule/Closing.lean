import Deliberation.Proofs.Schedule.Settled
import Mathlib.Data.List.Chain

/-!
Shortest paths from an activity back to itself. Paths are extended until one has a link back to its
start; an activity that lies on a cycle is always led back to, so what is returned is a cycle.
-/

open Relation (ReflTransGen TransGen)

namespace Deliberation.Network

/-- A list that follows links from an activity back to it, and meets none of the others twice. -/
def Closes {α : Type} (follows : α → α → Prop) (cycle : List α) : Prop :=
  ∃ start rest, cycle = start :: rest ++ [start] ∧ (start :: rest).Nodup ∧ cycle.IsChain follows

variable {n start : Nat} {links : List (Nat × Nat)}

theorem mem_successorsIn {i j : Nat} : j ∈ successorsIn links i ↔ (i, j) ∈ links := by
  simp [successorsIn]

theorem mem_predecessorsIn {i j : Nat} : i ∈ predecessorsIn links j ↔ (i, j) ∈ links := by
  simp [predecessorsIn]

theorem nodup_successorsIn (distinct : links.Nodup) (i : Nat) : (successorsIn links i).Nodup := by
  refine List.Nodup.map_on ?_ (distinct.filter _)
  rintro ⟨a, b⟩ first ⟨c, d⟩ second same
  simp_all

theorem nodup_predecessorsIn (distinct : links.Nodup) (j : Nat) : (predecessorsIn links j).Nodup := by
  refine List.Nodup.map_on ?_ (distinct.filter _)
  rintro ⟨a, b⟩ first ⟨c, d⟩ second same
  simp_all

/-- A path that follows links from its start, listed from its end. -/
structure Trail (links : List (Nat × Nat)) (start : Nat) (path : List Nat) : Prop where
  starts : path.getLast? = some start
  chain : path.IsChain fun j i => (i, j) ∈ links
  distinct : path.Nodup

theorem Trail.extend {end_ j : Nat} {rest : List Nat} (trail : Trail links start (end_ :: rest))
    (link : (end_, j) ∈ links) (fresh : j ∉ end_ :: rest) : Trail links start (j :: end_ :: rest) where
  starts := by rw [List.getLast?_cons_cons, trail.starts]
  chain := List.isChain_cons_cons.2 ⟨link, trail.chain⟩
  distinct := List.nodup_cons.2 ⟨fresh, trail.distinct⟩

/-- A path with a link back to its start closes to a cycle. -/
theorem Trail.closes {end_ : Nat} {rest : List Nat} (trail : Trail links start (end_ :: rest)) (link : (end_, start) ∈ links) :
    Closes (fun i j => (i, j) ∈ links) (start :: end_ :: rest).reverse := by
  obtain ⟨front, split⟩ := List.getLast?_eq_some_iff.1 trail.starts
  refine ⟨start, front.reverse, ?_, ?_, ?_⟩
  · rw [List.reverse_cons, split]
    simp
  · have turned := List.nodup_reverse.2 trail.distinct
    rw [split] at turned
    simpa using turned
  · rw [List.isChain_reverse]
    exact List.isChain_cons_cons.2 ⟨link, trail.chain⟩

/-- Paths that are still to be extended, and the activities besides the start to which a path has been made. -/
structure Searching (n : Nat) (links : List (Nat × Nat)) (start steps : Nat) (met : List Nat) (paths : List (List Nat)) :
    Prop where
  trails : ∀ path ∈ paths, Trail links start path ∧ ∀ i ∈ path, i ∈ start :: met
  distinct : (start :: met).Nodup
  inside : ∀ i ∈ start :: met, i < n
  closed : ∀ i ∈ start :: met, (∃ path ∈ paths, path.head? = some i) ∨
    ((i, start) ∉ links ∧ ∀ j, (i, j) ∈ links → j ∈ met)
  room : (start :: met).length + steps = n + paths.length

/-- As long as the start lies on a cycle, there are paths left to extend. -/
theorem Searching.not_nil {steps : Nat} {met : List Nat} (searching : Searching n links start steps met [])
    (cyclic : TransGen (fun i j => (i, j) ∈ links) start start) : False := by
  have leaves : ∀ i ∈ start :: met, (i, start) ∉ links ∧ ∀ j, (i, j) ∈ links → j ∈ met := by
    intro i member
    simpa using searching.closed i member
  obtain ⟨last, reached, link⟩ := TransGen.tail'_iff.1 cyclic
  have known : last ∈ start :: met := by
    clear link
    induction reached with
    | refl => exact List.mem_cons_self ..
    | tail _ link ih => exact List.mem_cons_of_mem _ ((leaves _ ih).2 _ link)
  exact (leaves last known).1 link

/-- As long as the start lies on a cycle, there is a path to extend and a step left for it. -/
theorem Searching.exists_path {steps : Nat} {met : List Nat} {paths : List (List Nat)}
    (searching : Searching n links start steps met paths) (cyclic : TransGen (fun i j => (i, j) ∈ links) start start) :
    ∃ end_ rest others left, paths = (end_ :: rest) :: others ∧ steps = left + 1 := by
  cases paths with
  | nil => exact (searching.not_nil cyclic).elim
  | cons path others =>
    have fits := length_le_of_lt searching.distinct searching.inside
    have room := searching.room
    simp only [List.length_cons] at fits room
    obtain ⟨trail, -⟩ := searching.trails path (List.mem_cons_self ..)
    cases path with
    | nil => cases trail.starts
    | cons end_ rest => exact ⟨end_, rest, others, steps - 1, rfl, by omega⟩

theorem searching_start (inside : start < n) : Searching n links start n [] [[start]] where
  trails path member := by
    obtain rfl : path = [start] := by simpa using member
    exact ⟨⟨rfl, by simp, by simp⟩, by simp⟩
  distinct := by simp
  inside := by simpa using inside
  closed i member := by
    obtain rfl : i = start := by simpa using member
    exact .inl ⟨[i], by simp, rfl⟩
  room := by simp [Nat.add_comm]

/-- A path that does not lead back to the start makes way for its extensions. -/
theorem Searching.extend {steps end_ : Nat} {met rest : List Nat} {paths : List (List Nat)} (apart : links.Nodup)
    (within : ∀ i j, (i, j) ∈ links → j < n)
    (searching : Searching n links start (steps + 1) met ((end_ :: rest) :: paths)) (open_ : (end_, start) ∉ links) :
    Searching n links start steps ((successorsIn links end_).filter (· ∉ met) ++ met)
      (paths ++ ((successorsIn links end_).filter (· ∉ met)).map (· :: end_ :: rest)) := by
  obtain ⟨fresh, named⟩ : ∃ fresh, fresh = (successorsIn links end_).filter (· ∉ met) := ⟨_, rfl⟩
  have mem_fresh {j : Nat} : j ∈ fresh ↔ (end_, j) ∈ links ∧ j ∉ met := by simp [named, mem_successorsIn]
  rw [← named]
  have others : ∀ j ∈ fresh, j ∉ start :: met := by
    intro j member known
    rcases List.mem_cons.1 known with rfl | known
    · exact open_ (mem_fresh.1 member).1
    · exact (mem_fresh.1 member).2 known
  have grown {i : Nat} (member : i ∈ start :: met) : i ∈ start :: (fresh ++ met) := by
    simp only [List.mem_cons, List.mem_append] at member ⊢
    tauto
  obtain ⟨trail, along⟩ := searching.trails _ (List.mem_cons_self ..)
  constructor
  · intro path member
    rcases List.mem_append.1 member with old | new
    · obtain ⟨trail, along⟩ := searching.trails path (List.mem_cons_of_mem _ old)
      exact ⟨trail, fun i on => grown (along i on)⟩
    · obtain ⟨j, among, rfl⟩ := List.mem_map.1 new
      refine ⟨trail.extend (mem_fresh.1 among).1 fun on => others j among (along j on), ?_⟩
      exact List.forall_mem_cons.2 ⟨by simp [among], fun i on => grown (along i on)⟩
  · have disjoint : (fresh ++ start :: met).Nodup := by
      refine List.nodup_append.2 ⟨named ▸ (nodup_successorsIn apart end_).filter _, searching.distinct, ?_⟩
      rintro j member _ known rfl
      exact others j member known
    exact List.perm_middle.nodup_iff.1 disjoint
  · intro i member
    simp only [List.mem_cons, List.mem_append] at member
    rcases member with rfl | new | old
    · exact searching.inside _ (List.mem_cons_self ..)
    · exact within end_ i (mem_fresh.1 new).1
    · exact searching.inside i (List.mem_cons_of_mem _ old)
  · intro i member
    by_cases new : i ∈ fresh
    · exact .inl ⟨i :: end_ :: rest, by simp [new], rfl⟩
    · have old : i ∈ start :: met := by
        simp only [List.mem_cons, List.mem_append] at member ⊢
        tauto
      rcases searching.closed i old with ⟨path, among, ends⟩ | ⟨leaves, all⟩
      · rcases List.mem_cons.1 among with rfl | among
        · obtain rfl : end_ = i := by simpa using ends
          refine .inr ⟨open_, fun j link => ?_⟩
          by_cases known : j ∈ met
          · simp [known]
          · simp [mem_fresh.2 ⟨link, known⟩]
        · exact .inl ⟨path, by simp [among], ends⟩
      · exact .inr ⟨leaves, fun j link => by simp [all j link]⟩
  · have room := searching.room
    simp only [List.length_cons, List.length_append, List.length_map] at room ⊢
    omega

/-- What is returned for an activity on a cycle is a cycle: the search never gives up. -/
theorem closes_closePath (apart : links.Nodup) (within : ∀ i j, (i, j) ∈ links → j < n)
    (cyclic : TransGen (fun i j => (i, j) ∈ links) start start) (steps : Nat) {met : List Nat} {paths : List (List Nat)}
    (searching : Searching n links start steps met paths) :
    Closes (fun i j => (i, j) ∈ links) (closePath links start steps met paths) := by
  induction steps generalizing met paths with
  | zero =>
    obtain ⟨_, _, _, left, _, none⟩ := searching.exists_path cyclic
    cases none
  | succ steps ih =>
    obtain ⟨end_, rest, others, _, rfl, _⟩ := searching.exists_path cyclic
    obtain ⟨trail, -⟩ := searching.trails _ (List.mem_cons_self ..)
    rw [closePath, List.headD_cons]
    split
    · next back => exact trail.closes (mem_successorsIn.1 back)
    · next open_ => exact ih (searching.extend apart within (mt mem_successorsIn.2 open_))

theorem closes_cycleThrough (apart : links.Nodup) (within : ∀ i j, (i, j) ∈ links → i < n ∧ j < n)
    (cyclic : TransGen (fun i j => (i, j) ∈ links) start start) :
    Closes (fun i j => (i, j) ∈ links) (cycleThrough n links start) := by
  obtain ⟨_, link, _⟩ := TransGen.head'_iff.1 cyclic
  exact closes_closePath apart (fun i j link => (within i j link).2) cyclic n (searching_start (within _ _ link).1)

end Deliberation.Network
