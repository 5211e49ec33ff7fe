import Mathlib
import Deliberation.Proofs.Constraint.Partition
import Deliberation.Proofs.Fact.Bindings

/-!
Groups by disjoint sets. Constraints and variables are the places of a union-find, each constraint is united
with the declared variables that it mentions, and constraints are gathered by the roots of their sets, in
order. That gives the groups that linking gives. All of Mathlib is imported because no part of it comes with
the union-find of Batteries.
-/

open Batteries (UnionFind)
open Relation (ReflTransGen)

namespace Deliberation

/-! ### Sets of places -/

section Sets

variable {sets : UnionFind} {pairs : List (Nat × Nat)} {i j n : Nat}

/-- A set for each of some places. -/
def apartSets (n : Nat) : UnionFind := Nat.repeat UnionFind.push n .empty

/-- Makes the sets of two places one. -/
def unite (sets : UnionFind) (pair : Nat × Nat) : UnionFind :=
  if inside : pair.1 < sets.size ∧ pair.2 < sets.size then sets.union ⟨pair.1, inside.1⟩ ⟨pair.2, inside.2⟩ else sets

theorem size_apartSets (n : Nat) : (apartSets n).size = n := by
  induction n with
  | zero => rfl
  | succ n ih =>
    have grown : (apartSets (n + 1)).size = (apartSets n).size + 1 := Array.size_push _
    rw [grown, ih]

theorem equiv_apartSets : (apartSets n).Equiv i j ↔ i = j := by
  induction n with
  | zero => exact UnionFind.equiv_empty
  | succ n ih => exact UnionFind.equiv_push.trans ih

theorem size_unite (sets : UnionFind) (pair : Nat × Nat) : (unite sets pair).size = sets.size := by
  unfold unite
  split
  · simp [UnionFind.union, UnionFind.link, UnionFind.size]
  · rfl

theorem equiv_unite (first : i < sets.size) (second : j < sets.size) {a b : Nat} : (unite sets (i, j)).Equiv a b ↔
    sets.Equiv a b ∨ sets.Equiv a i ∧ sets.Equiv j b ∨ sets.Equiv a j ∧ sets.Equiv i b := by
  rw [unite, dif_pos ⟨first, second⟩, UnionFind.equiv_union]

theorem size_uniteAll (sets : UnionFind) (pairs : List (Nat × Nat)) : (pairs.foldl unite sets).size = sets.size := by
  induction pairs generalizing sets with
  | nil => rfl
  | cons pair rest ih => rw [List.foldl_cons, ih, size_unite]

theorem equiv_unite_of_equiv (equiv : sets.Equiv i j) (pair : Nat × Nat) : (unite sets pair).Equiv i j := by
  by_cases inside : pair.1 < sets.size ∧ pair.2 < sets.size
  · exact (equiv_unite inside.1 inside.2).2 (.inl equiv)
  · rwa [unite, dif_neg inside]

theorem equiv_uniteAll_of_equiv (equiv : sets.Equiv i j) (pairs : List (Nat × Nat)) : (pairs.foldl unite sets).Equiv i j := by
  induction pairs generalizing sets with
  | nil => exact equiv
  | cons pair rest ih => exact ih (equiv_unite_of_equiv equiv pair)

/-- Places that are united come into one set. -/
theorem equiv_uniteAll_of_mem (inside : ∀ pair ∈ pairs, pair.1 < sets.size ∧ pair.2 < sets.size)
    (member : (i, j) ∈ pairs) : (pairs.foldl unite sets).Equiv i j := by
  obtain ⟨before, after, rfl⟩ := List.append_of_mem member
  obtain ⟨first, second⟩ := inside (i, j) member
  rw [← size_uniteAll sets before] at first second
  rw [List.foldl_append, List.foldl_cons]
  exact equiv_uniteAll_of_equiv ((equiv_unite first second).2 (.inr (.inl ⟨.rfl, .rfl⟩))) after

/-- Where united places have the same label, so have the places of one set. -/
theorem eq_of_equiv_uniteAll {α : Type} {label : Nat → α} (each : ∀ pair ∈ pairs, label pair.1 = label pair.2)
    (start : ∀ i j, sets.Equiv i j → label i = label j) :
    ∀ i j, (pairs.foldl unite sets).Equiv i j → label i = label j := by
  induction pairs generalizing sets with
  | nil => exact start
  | cons pair rest ih =>
    obtain ⟨same, each⟩ := List.forall_mem_cons.1 each
    refine ih each fun i j equiv => ?_
    by_cases inside : pair.1 < sets.size ∧ pair.2 < sets.size
    · rcases (equiv_unite inside.1 inside.2).1 equiv with before | ⟨first, second⟩ | ⟨first, second⟩
      · exact start i j before
      · exact ((start _ _ first).trans same).trans (start _ _ second)
      · exact ((start _ _ first).trans same.symm).trans (start _ _ second)
    · rw [unite, dif_neg inside] at equiv
      exact start i j equiv

end Sets

/-! ### Constraints united with variables -/

section Mentions

variable {R : Type} {vars : List (Variable R)} {constraints : List (Constraint R)} {i j place : Nat}

/-- The place of a name among the variables, the last one where variables have it in common. -/
def variablePlace? (vars : List (Variable R)) : String → Option Nat :=
  (NameMap.ofList (vars.map Variable.name).zipIdx).get?

/-- Every constraint with the places of the declared variables that it mentions, which come after the constraints. -/
def mentions (vars : List (Variable R)) (constraints : List (Constraint R)) : List (Nat × Nat) :=
  constraints.zipIdx.flatMap fun (c, i) =>
    (c.vars.filterMap (variablePlace? vars)).map fun place => (i, constraints.length + place)

/-- The sets of constraints and variables, after every constraint is united with what it mentions. -/
def unitedSets (vars : List (Variable R)) (constraints : List (Constraint R)) : UnionFind :=
  (mentions vars constraints).foldl unite (apartSets (constraints.length + vars.length))

theorem getElem?_of_variablePlace? {name : String} (found : variablePlace? vars name = some place) :
    (vars.map Variable.name)[place]? = some name :=
  List.mk_mem_zipIdx_iff_getElem?.1 (NameMap.mem_of_get?_ofList found)

theorem exists_variablePlace? {v : Variable R} (declared : v ∈ vars) : ∃ place, variablePlace? vars v.name = some place := by
  refine NameMap.exists_get?_ofList ?_
  rw [List.zipIdx_map_fst]
  exact List.mem_map_of_mem declared

theorem mem_mentions : (i, constraints.length + place) ∈ mentions vars constraints ↔
    ∃ c, constraints[i]? = some c ∧ ∃ name ∈ c.vars, variablePlace? vars name = some place := by
  simp only [mentions, List.mem_flatMap, List.mem_map, List.mem_filterMap, Prod.mk.injEq, Nat.add_left_cancel_iff]
  constructor
  · rintro ⟨⟨c, k⟩, member, position, ⟨name, among, found⟩, rfl, rfl⟩
    exact ⟨c, List.mk_mem_zipIdx_iff_getElem?.1 member, name, among, found⟩
  · rintro ⟨c, there, name, among, found⟩
    exact ⟨(c, i), List.mk_mem_zipIdx_iff_getElem?.2 there, place, ⟨name, among, found⟩, rfl, rfl⟩

theorem lt_of_mem_mentions {pair : Nat × Nat} (member : pair ∈ mentions vars constraints) :
    pair.1 < (apartSets (constraints.length + vars.length)).size ∧
      pair.2 < (apartSets (constraints.length + vars.length)).size := by
  obtain ⟨⟨c, i⟩, listed, among⟩ := List.mem_flatMap.1 member
  obtain ⟨place, found, rfl⟩ := List.mem_map.1 among
  obtain ⟨name, -, found⟩ := List.mem_filterMap.1 found
  have inside := (List.getElem?_eq_some_iff.1 (List.mk_mem_zipIdx_iff_getElem?.1 listed)).1
  have within := (List.getElem?_eq_some_iff.1 (getElem?_of_variablePlace? found)).1
  rw [List.length_map] at within
  rw [size_apartSets]
  exact ⟨by omega, by omega⟩

/-- Constraints that mention a variable in common are in one set. -/
theorem Neighbours.equiv (neighbours : Neighbours vars constraints i j) : (unitedSets vars constraints).Equiv i j := by
  obtain ⟨c, d, here, there, v, declared, mentioned, shared⟩ := neighbours
  obtain ⟨place, found⟩ := exists_variablePlace? declared
  have united {k : Nat} {e : Constraint R} (own : constraints[k]? = some e) (among : v.name ∈ e.vars) :
      (unitedSets vars constraints).Equiv k (constraints.length + place) :=
    equiv_uniteAll_of_mem (fun _ => lt_of_mem_mentions) (mem_mentions.2 ⟨e, own, v.name, among, found⟩)
  exact (united here mentioned).trans (united there shared).symm

theorem equiv_of_chain (leads : ReflTransGen (Neighbours vars constraints) i j) : (unitedSets vars constraints).Equiv i j := by
  induction leads with
  | refl => exact .rfl
  | tail _ last ih => exact ih.trans last.equiv

/-- Constraints that mention one variable are in one group. -/
theorem same_root_of_mentions (first : (i, constraints.length + place) ∈ mentions vars constraints)
    (second : (j, constraints.length + place) ∈ mentions vars constraints) :
    (groupRoots vars constraints)[i]? = (groupRoots vars constraints)[j]? := by
  obtain ⟨c, here, name, mentioned, found⟩ := mem_mentions.1 first
  obtain ⟨d, there, other, shared, found'⟩ := mem_mentions.1 second
  have own := getElem?_of_variablePlace? found
  obtain rfl : name = other := Option.some.inj (own.symm.trans (getElem?_of_variablePlace? found'))
  obtain ⟨v, declared, rfl⟩ := List.mem_map.1 (List.mem_of_getElem? own)
  exact Neighbours.same_root ⟨c, d, here, there, v, declared, mentioned, shared⟩

/-- The group of a constraint, or of the constraints that mention a variable. -/
def groupOfPlace (vars : List (Variable R)) (constraints : List (Constraint R)) (i : Nat) : Option Nat :=
  if i < constraints.length then (groupRoots vars constraints)[i]?
  else ((mentions vars constraints).find? (·.2 = i)).bind fun pair => (groupRoots vars constraints)[pair.1]?

theorem groupOfPlace_eq_of_mem {pair : Nat × Nat} (member : pair ∈ mentions vars constraints) :
    groupOfPlace vars constraints pair.1 = groupOfPlace vars constraints pair.2 := by
  obtain ⟨⟨c, i⟩, listed, among⟩ := List.mem_flatMap.1 member
  obtain ⟨place, found, rfl⟩ := List.mem_map.1 among
  have inside : i < constraints.length := (List.getElem?_eq_some_iff.1 (List.mk_mem_zipIdx_iff_getElem?.1 listed)).1
  rw [groupOfPlace, groupOfPlace, if_pos inside, if_neg (by omega)]
  cases first : (mentions vars constraints).find? (·.2 = constraints.length + place) with
  | none => exact absurd (decide_eq_true rfl) (List.find?_eq_none.1 first _ member)
  | some pair =>
    obtain ⟨k, other⟩ := pair
    obtain rfl : other = constraints.length + place := by simpa using List.find?_some first
    exact same_root_of_mentions member (List.mem_of_find?_eq_some first)

/-- Constraints are in one set exactly when they are in one group. -/
theorem equiv_unitedSets_iff (inside : i < constraints.length) (within : j < constraints.length) :
    (unitedSets vars constraints).Equiv i j ↔ (groupRoots vars constraints)[i]? = (groupRoots vars constraints)[j]? := by
  constructor
  · intro equiv
    -- groups label the variables as well, so that a set that goes through one keeps its label
    have same := eq_of_equiv_uniteAll (fun _ => groupOfPlace_eq_of_mem)
      (fun i j equiv => congrArg (groupOfPlace vars constraints) (equiv_apartSets.1 equiv)) i j equiv
    rwa [groupOfPlace, groupOfPlace, if_pos inside, if_pos within] at same
  · exact fun same => equiv_of_chain ((groupRoots_eq_iff inside).1 same)

end Mentions

/-! ### Places gathered by their roots -/

section Gathering

variable {root : Nat → Nat} {i n : Nat}

/-- Puts a place into the group of its root, which is a new one at the end where there is none yet. -/
def enter (root : Nat → Nat) (groups : List (Nat × List Nat)) (i : Nat) : List (Nat × List Nat) :=
  if groups.any (·.1 = root i) then
    groups.map fun (other, members) => (other, if other = root i then members ++ [i] else members)
  else groups ++ [(root i, [i])]

/-- Places, one after the other, in the groups of their roots. -/
def gather (root : Nat → Nat) (n : Nat) : List (List Nat) := ((List.range n).foldl (enter root) []).map Prod.snd

/-- The places that have no earlier one with their root. -/
def firsts (root : Nat → Nat) (n : Nat) : List Nat := (List.range n).filter fun i => ∀ j < i, root j ≠ root i

/-- The places with the root of a place. -/
def alike (root : Nat → Nat) (n i : Nat) : List Nat := (List.range n).filter fun j => root j = root i

theorem mem_firsts : i ∈ firsts root n ↔ i < n ∧ ∀ j < i, root j ≠ root i := by
  simp [firsts]

theorem mem_alike {j : Nat} : j ∈ alike root n i ↔ j < n ∧ root j = root i := by
  simp [alike]

theorem exists_first (inside : i < n) : ∃ first ∈ firsts root n, root first = root i := by
  have some : ∃ j, root j = root i := ⟨i, rfl⟩
  refine ⟨Nat.find some, mem_firsts.2 ⟨(Nat.find_min' some rfl).trans_lt inside, fun j earlier => ?_⟩, Nat.find_spec some⟩
  rw [Nat.find_spec some]
  exact Nat.find_min some earlier

theorem firsts_succ (root : Nat → Nat) (n : Nat) :
    firsts root (n + 1) = if ∀ j < n, root j ≠ root n then firsts root n ++ [n] else firsts root n := by
  rw [firsts, List.range_succ, List.filter_append, List.filter_singleton, ← firsts, Bool.cond_decide]
  by_cases new : ∀ j < n, root j ≠ root n
  · rw [if_pos new, if_pos new]
  · rw [if_neg new, if_neg new, List.append_nil]

theorem alike_succ (root : Nat → Nat) (n i : Nat) :
    alike root (n + 1) i = if root n = root i then alike root n i ++ [n] else alike root n i := by
  rw [alike, List.range_succ, List.filter_append, List.filter_singleton, ← alike, Bool.cond_decide]
  by_cases same : root n = root i
  · rw [if_pos same, if_pos same]
  · rw [if_neg same, if_neg same, List.append_nil]

/-- The groups stand in the order of their first places, and each has the places with its root. -/
theorem foldl_enter (root : Nat → Nat) (n : Nat) :
    (List.range n).foldl (enter root) [] = (firsts root n).map fun i => (root i, alike root n i) := by
  induction n with
  | zero => rfl
  | succ n ih =>
    rw [List.range_succ, List.foldl_append, ih, List.foldl_cons, List.foldl_nil, enter, firsts_succ]
    by_cases new : ∀ j < n, root j ≠ root n
    · have apart : ∀ i ∈ firsts root n, root i ≠ root n := fun i member => new i (mem_firsts.1 member).1
      have alone : alike root (n + 1) n = [n] := by
        rw [alike_succ, if_pos rfl, alike, List.filter_eq_nil_iff.2, List.nil_append]
        simpa using new
      rw [if_neg (by simpa using apart), if_pos new, List.map_append, List.map_singleton, alone, List.append_left_inj]
      refine List.map_congr_left fun i member => ?_
      rw [alike_succ, if_neg (apart i member).symm]
    · obtain ⟨j, earlier, same⟩ : ∃ j < n, root j = root n := by simpa using new
      obtain ⟨first, member, alike⟩ := exists_first earlier
      rw [if_pos (by simpa using ⟨first, member, alike.trans same⟩), if_neg new, List.map_map]
      refine List.map_congr_left fun i _ => ?_
      simp only [Function.comp_apply, alike_succ, eq_comm]

theorem gather_eq (root : Nat → Nat) (n : Nat) : gather root n = (firsts root n).map (alike root n) := by
  rw [gather, foldl_enter, List.map_map]
  rfl

end Gathering

section Groups

variable {R : Type} {vars : List (Variable R)} {constraints : List (Constraint R)}

theorem rootD_eq_iff {i j : Nat} (inside : i < constraints.length) (within : j < constraints.length) :
    (unitedSets vars constraints).rootD i = (unitedSets vars constraints).rootD j ↔
      (groupRoots vars constraints)[i]? = (groupRoots vars constraints)[j]? := equiv_unitedSets_iff inside within

theorem lt_of_groupRoots {i root : Nat} (there : (groupRoots vars constraints)[i]? = some root) : i < constraints.length := by
  rw [← length_groupRoots vars]
  exact (List.getElem?_eq_some_iff.1 there).1

theorem leaders_eq_firsts (vars : List (Variable R)) (constraints : List (Constraint R)) :
    leaders (groupRoots vars constraints) = firsts (unitedSets vars constraints).rootD constraints.length := by
  refine List.Pairwise.eq_of_mem_iff (pairwise_places _ _) (List.pairwise_lt_range.filter _) fun i => ?_
  rw [mem_firsts]
  refine mem_leaders.trans ?_
  constructor
  · intro own
    have inside := lt_of_groupRoots own
    refine ⟨inside, fun j earlier same => ?_⟩
    have there := ((rootD_eq_iff (earlier.trans inside) inside).1 same).trans own
    exact earlier.not_ge (groupRoots_chained there).1
  · rintro ⟨inside, first⟩
    obtain ⟨root, own, there⟩ := exists_group vars inside
    have back := mem_leaders.1 own
    rcases (groupRoots_chained there).1.eq_or_lt with rfl | earlier
    · exact there
    · exact absurd ((rootD_eq_iff (lt_of_groupRoots back) inside).2 (back.trans there.symm)) (first root earlier)

theorem groupOf_eq_alike {leader : Nat} (own : leader ∈ leaders (groupRoots vars constraints)) :
    groupOf (groupRoots vars constraints) leader = alike (unitedSets vars constraints).rootD constraints.length leader := by
  have back := mem_leaders.1 own
  refine List.Pairwise.eq_of_mem_iff (pairwise_groupOf _ leader) (List.pairwise_lt_range.filter _) fun i => ?_
  rw [mem_groupOf, mem_alike]
  constructor
  · intro there
    have inside := lt_of_groupRoots there
    exact ⟨inside, (rootD_eq_iff inside (lt_of_groupRoots back)).2 (there.trans back.symm)⟩
  · rintro ⟨inside, same⟩
    exact ((rootD_eq_iff inside (lt_of_groupRoots back)).1 same).trans back

/-- The groups of constraints are their sets, each in order and by the order of their first members. -/
theorem components_eq_gather (vars : List (Variable R)) (constraints : List (Constraint R)) :
    components vars constraints = gather (unitedSets vars constraints).rootD constraints.length := by
  rw [components_eq, gather_eq, leaders_eq_firsts]
  refine List.map_congr_left fun leader own => ?_
  rw [← leaders_eq_firsts] at own
  exact groupOf_eq_alike own

end Groups

end Deliberation
