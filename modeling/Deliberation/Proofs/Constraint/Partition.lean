import Deliberation.Proofs.Constraint.Components
import Deliberation.Proofs.Constraint.Solving
import Mathlib.Data.List.Nodup
import Mathlib.Logic.Relation

/-!
The groups partition the constraints: two constraints are in one group exactly when a chain of
constraints leads from one to the other and neighbours on it share a declared variable.
-/

open Relation (ReflTransGen)

namespace Deliberation

variable {R : Type}

section Names

variable {lists more : List (List String)} {i j : Nat}

/-- Lists, by their places, that have a name in common. -/
def Shares (lists : List (List String)) (i j : Nat) : Prop :=
  ∃ a b, lists[i]? = some a ∧ lists[j]? = some b ∧ ∃ name ∈ a, name ∈ b

instance (lists : List (List String)) : Std.Symm (Shares lists) where
  symm _ _ := fun ⟨a, b, first, second, name, listed, shared⟩ => ⟨b, a, second, first, name, shared, listed⟩

theorem Shares.append (shares : Shares lists i j) (more : List (List String)) : Shares (lists ++ more) i j := by
  obtain ⟨a, b, first, second, common⟩ := shares
  refine ⟨a, b, ?_, ?_, common⟩
  · rw [List.getElem?_append_left (List.getElem?_eq_some_iff.1 first).1, first]
  · rw [List.getElem?_append_left (List.getElem?_eq_some_iff.1 second).1, second]

end Names

section Linking

variable {linked : Linked} {names : List String} {index root i : Nat} {entry : List String × Nat}

/-- The first member of a group comes no later than its members, and a chain leads to it from each. -/
structure Linked.Joined (linked : Linked) : Prop where
  le : ∀ (i : Nat) entry, linked[i]? = some entry → entry.2 ≤ i
  chained : ∀ (i : Nat) entry, linked[i]? = some entry → ReflTransGen (Shares (linked.map Prod.fst)) i entry.2

theorem Linked.Joined.chained_append (joined : linked.Joined) (names : List String) (there : linked[i]? = some entry) :
    ReflTransGen (Shares (linked.map Prod.fst ++ [names])) i entry.2 :=
  ReflTransGen.mono (fun _ _ shares => shares.append [names]) _ _ (joined.chained i entry there)

/-- A constraint comes after the groups that it meets, and a chain leads from it to each of them. -/
theorem Linked.Joined.met (joined : linked.Joined) {group : Nat} (met : group ∈ linked.met names) :
    group < linked.length ∧ ReflTransGen (Shares (linked.map Prod.fst ++ [names])) linked.length group := by
  obtain ⟨entry, member, rfl, name, listed, shared⟩ := Linked.mem_met.1 met
  obtain ⟨i, there⟩ := List.mem_iff_getElem?.1 member
  have inside := (List.getElem?_eq_some_iff.1 there).1
  refine ⟨(joined.le i entry there).trans_lt inside, ?_⟩
  have step : Shares (linked.map Prod.fst ++ [names]) linked.length i := by
    refine ⟨names, entry.1, by simp, ?_, name, shared, listed⟩
    rw [List.getElem?_append_left (by rwa [List.length_map]), List.getElem?_map, there]
    rfl
  exact (joined.chained_append names there).head step

theorem Linked.Joined.link_apart (joined : linked.Joined) (names : List String) :
    Linked.Joined (linked ++ [(names, linked.length)]) := by
  constructor
  · intro i entry there
    rcases Lists.getElem?_concat there with there | ⟨rfl, rfl⟩
    · exact joined.le i entry there
    · exact le_rfl
  · intro i entry there
    rw [List.map_append, List.map_singleton]
    rcases Lists.getElem?_concat there with there | ⟨rfl, rfl⟩
    · exact joined.chained_append names there
    · exact .refl

/-- Under its new first member, which is the least of the groups that are met, a group still has a chain to it. -/
theorem Linked.Joined.merged (joined : linked.Joined) (among : root ∈ linked.met names)
    (least : ∀ group ∈ linked.met names, root ≤ group) (there : linked[i]? = some entry) :
    merge (linked.met names) root entry.2 ≤ i ∧
      ReflTransGen (Shares (linked.map Prod.fst ++ [names])) i (merge (linked.met names) root entry.2) := by
  have bound := joined.le i entry there
  have leads := joined.chained_append names there
  by_cases met : entry.2 ∈ linked.met names
  · rw [merge_of_mem met]
    -- from the old first member over the new constraint to the new first member
    have across := (symm_of _ (joined.met met).2).trans (joined.met among).2
    exact ⟨(least entry.2 met).trans bound, leads.trans across⟩
  · have same : merge (linked.met names) root entry.2 = entry.2 := if_neg met
    rw [same]
    exact ⟨bound, leads⟩

theorem Linked.Joined.link_joined (joined : linked.Joined) (among : root ∈ linked.met names)
    (least : ∀ group ∈ linked.met names, root ≤ group) :
    Linked.Joined ((linked.map fun entry => (entry.1, merge (linked.met names) root entry.2)) ++ [(names, root)]) := by
  have each : ∀ (i : Nat) (entry : List String × Nat),
      ((linked.map fun entry => (entry.1, merge (linked.met names) root entry.2)) ++ [(names, root)])[i]? = some entry →
      entry.2 ≤ i ∧ ReflTransGen (Shares (linked.map Prod.fst ++ [names])) i entry.2 := by
    intro i entry there
    rcases Lists.getElem?_concat there with there | ⟨rfl, rfl⟩
    · rw [List.getElem?_map, Option.map_eq_some_iff] at there
      obtain ⟨old, here, rfl⟩ := there
      exact joined.merged among least here
    · rw [List.length_map]
      exact (joined.met among).imp_left le_of_lt
  refine ⟨fun i entry there => (each i entry there).1, fun i entry there => ?_⟩
  rw [List.map_append, List.map_map]
  exact (each i entry there).2

theorem Linked.Joined.link (joined : linked.Joined) (names : List String) :
    (Deliberation.link linked names linked.length).Joined := by
  by_cases apart : linked.met names = []
  · rw [Deliberation.link_apart apart]
    exact joined.link_apart names
  · obtain ⟨root, among, least, same⟩ := Deliberation.link_joined apart linked.length
    rw [same]
    exact joined.link_joined among least

end Linking

section Groups

variable {vars : List (Variable R)} {constraints : List (Constraint R)} {i j root : Nat}

theorem joined_linkAll (vars : List (Variable R)) (constraints : List (Constraint R)) :
    (linkAll vars constraints).Joined := by
  -- constraints are linked to those before them, so the induction takes the last one off
  induction constraints using List.reverseRecOn with
  | nil => exact ⟨fun i entry there => (by cases there), fun i entry there => (by cases there)⟩
  | append_singleton rest c ih =>
    rw [linkAll_append, ← length_linkAll vars]
    exact ih.link _

theorem neighbours_of_shares (shares : Shares ((linkAll vars constraints).map Prod.fst) i j) :
    Neighbours vars constraints i j := by
  obtain ⟨a, b, first, second, name, listed, shared⟩ := shares
  rw [map_fst_linkAll, List.getElem?_map, Option.map_eq_some_iff] at first second
  obtain ⟨c, here, rfl⟩ := first
  obtain ⟨d, there, rfl⟩ := second
  obtain ⟨mentioned, known⟩ := List.mem_filter.1 listed
  obtain ⟨v, declared, rfl⟩ := List.mem_map.1 (List.contains_iff_mem.1 known)
  exact ⟨c, d, here, there, v, declared, mentioned, (List.mem_filter.1 shared).1⟩

instance (vars : List (Variable R)) (constraints : List (Constraint R)) : Std.Symm (Neighbours vars constraints) where
  symm _ _ := fun ⟨c, d, first, second, v, known, mentioned, shared⟩ => ⟨d, c, second, first, v, known, shared, mentioned⟩

/-- The first member of a group comes no later than its members, and a chain of neighbours leads to it from each. -/
theorem groupRoots_chained (there : (groupRoots vars constraints)[i]? = some root) :
    root ≤ i ∧ ReflTransGen (Neighbours vars constraints) i root := by
  rw [groupRoots_eq, List.getElem?_map, Option.map_eq_some_iff] at there
  obtain ⟨entry, there, rfl⟩ := there
  have joined := joined_linkAll vars constraints
  exact ⟨joined.le i entry there, ReflTransGen.mono (fun _ _ => neighbours_of_shares) _ _ (joined.chained i entry there)⟩

/-- Constraints are in one group exactly when a chain of neighbours leads from one to the other. -/
theorem groupRoots_eq_iff (inside : i < constraints.length) :
    (groupRoots vars constraints)[i]? = (groupRoots vars constraints)[j]? ↔ ReflTransGen (Neighbours vars constraints) i j := by
  constructor
  · intro same
    have listed : i < (groupRoots vars constraints).length := by rwa [length_groupRoots]
    rw [List.getElem?_eq_getElem listed] at same
    have back := (groupRoots_chained same.symm).2
    exact (groupRoots_chained (List.getElem?_eq_getElem listed)).2.trans (symm_of _ back)
  · intro leads
    induction leads with
    | refl => rfl
    | tail _ last ih => exact ih.trans last.same_root

theorem mem_groupOf {roots : List Nat} : i ∈ groupOf roots root ↔ roots[i]? = some root := by
  simp only [groupOf, List.mem_map, List.mem_filter, decide_eq_true_eq]
  constructor
  · rintro ⟨⟨other, index⟩, ⟨member, rfl⟩, rfl⟩
    exact List.mk_mem_zipIdx_iff_getElem?.1 member
  · intro there
    exact ⟨(root, i), ⟨List.mk_mem_zipIdx_iff_getElem?.2 there, rfl⟩, rfl⟩

/-- Places picked from a list come in their order. -/
theorem pairwise_places (roots : List Nat) (keep : Nat × Nat → Bool) :
    ((roots.zipIdx.filter keep).map Prod.snd).Pairwise (· < ·) := by
  have all : (roots.zipIdx.map Prod.snd).Pairwise (· < ·) := by
    rw [List.zipIdx_map_snd]
    exact List.pairwise_lt_range'
  exact all.sublist (List.filter_sublist.map Prod.snd)

theorem pairwise_groupOf (roots : List Nat) (root : Nat) : (groupOf roots root).Pairwise (· < ·) :=
  pairwise_places roots _

/-- The constraints that are first in their groups. -/
def leaders (roots : List Nat) : List Nat := (roots.zipIdx.filter fun (root, index) => root = index).map Prod.snd

theorem mem_leaders {roots : List Nat} : root ∈ leaders roots ↔ roots[root]? = some root := by
  simp only [leaders, List.mem_map, List.mem_filter, decide_eq_true_eq]
  constructor
  · rintro ⟨⟨other, index⟩, ⟨member, same⟩, rfl⟩
    obtain rfl : other = index := same
    exact List.mk_mem_zipIdx_iff_getElem?.1 member
  · intro there
    exact ⟨(root, root), ⟨List.mk_mem_zipIdx_iff_getElem?.2 there, rfl⟩, rfl⟩

theorem components_eq (vars : List (Variable R)) (constraints : List (Constraint R)) : components vars constraints =
    (leaders (groupRoots vars constraints)).map (groupOf (groupRoots vars constraints)) := by
  rw [components, leaders, List.map_map]
  apply List.map_congr_left
  rintro ⟨root, index⟩ member
  have same : root = index := of_decide_eq_true (List.mem_filter.1 member).2
  rw [Function.comp_apply, ← same]
  rfl

/-- The leader of a group is its first member. -/
theorem head?_groupOf (own : root ∈ leaders (groupRoots vars constraints)) :
    (groupOf (groupRoots vars constraints) root).head? = some root :=
  Lists.head?_eq_of_least ((pairwise_groupOf _ root).imp le_of_lt) (mem_groupOf.2 (mem_leaders.1 own))
    fun _ member => (groupRoots_chained (mem_groupOf.1 member)).1

theorem nodup_flatten_components (vars : List (Variable R)) (constraints : List (Constraint R)) :
    (components vars constraints).flatten.Nodup := by
  rw [components_eq, List.nodup_flatten]
  constructor
  · intro group member
    obtain ⟨root, _, rfl⟩ := List.mem_map.1 member
    exact (pairwise_groupOf _ root).imp ne_of_lt
  · refine List.pairwise_map.2 ((pairwise_places _ _).imp fun {a b} before i here there => ?_)
    have same := (mem_groupOf.1 here).symm.trans (mem_groupOf.1 there)
    exact before.ne (Option.some.inj same)

/-- A constraint is in the group of its leader. -/
theorem exists_group (vars : List (Variable R)) (inside : i < constraints.length) :
    ∃ root ∈ leaders (groupRoots vars constraints), (groupRoots vars constraints)[i]? = some root := by
  have listed : i < (groupRoots vars constraints).length := by rwa [length_groupRoots]
  have there := List.getElem?_eq_getElem listed
  exact ⟨_, mem_leaders.2 (groupRoots_root there), there⟩

theorem mem_flatten_components : i ∈ (components vars constraints).flatten ↔ i < constraints.length := by
  rw [components_eq, List.mem_flatten]
  constructor
  · rintro ⟨group, member, among⟩
    obtain ⟨root, _, rfl⟩ := List.mem_map.1 member
    rw [← length_groupRoots vars]
    exact (List.getElem?_eq_some_iff.1 (mem_groupOf.1 among)).1
  · intro inside
    obtain ⟨root, own, there⟩ := exists_group vars inside
    exact ⟨_, List.mem_map_of_mem own, mem_groupOf.2 there⟩

/-- A group holds two constraints exactly when they have the same leader. -/
theorem exists_group_iff (inside : i < constraints.length) :
    (∃ group ∈ components vars constraints, i ∈ group ∧ j ∈ group) ↔
      (groupRoots vars constraints)[i]? = (groupRoots vars constraints)[j]? := by
  constructor
  · rintro ⟨group, member, here, there⟩
    obtain ⟨root, _, rfl⟩ := mem_components.1 member
    rw [mem_groupOf.1 here, mem_groupOf.1 there]
  · intro same
    obtain ⟨root, own, there⟩ := exists_group vars inside
    exact ⟨_, mem_components.2 ⟨root, mem_leaders.1 own, rfl⟩, mem_groupOf.2 there, mem_groupOf.2 (same ▸ there)⟩

/-- The groups hold every constraint once; two constraints are in one group exactly when a chain of
constraints leads from one to the other where neighbours have a declared variable in common. The members
of a group come in their order, and the groups in the order of their first members. -/
theorem components_partition (vars : List (Variable R)) (constraints : List (Constraint R)) :
    (components vars constraints).flatten.Perm (List.range constraints.length) ∧
      (∀ i < constraints.length, ∀ j, (∃ group ∈ components vars constraints, i ∈ group ∧ j ∈ group) ↔
        ReflTransGen (Neighbours vars constraints) i j) ∧
      (∀ group ∈ components vars constraints, group ≠ [] ∧ group.Pairwise (· < ·)) ∧
      (components vars constraints).Pairwise fun first second => ∀ i ∈ first.head?, ∀ j ∈ second.head?, i < j := by
  refine ⟨?_, fun i inside j => (exists_group_iff inside).trans (groupRoots_eq_iff inside), ?_, ?_⟩
  · refine (List.perm_ext_iff_of_nodup (nodup_flatten_components vars constraints) List.nodup_range).2 fun i => ?_
    rw [mem_flatten_components, List.mem_range]
  · intro group member
    obtain ⟨root, own, rfl⟩ := mem_components.1 member
    exact ⟨List.ne_nil_of_mem (mem_groupOf.2 own), pairwise_groupOf _ root⟩
  · rw [components_eq, List.pairwise_map]
    have increasing : (leaders (groupRoots vars constraints)).Pairwise (· < ·) := pairwise_places _ _
    refine increasing.imp_of_mem fun {a b} first second before i here j there => ?_
    rw [head?_groupOf first, Option.mem_some_iff] at here
    rw [head?_groupOf second, Option.mem_some_iff] at there
    exact here ▸ there ▸ before

/-- Two groups whose members take turns: one on `a` and `b`, the other on `c`. -/
def twoGroups : List (Constraint Rat) :=
  [⟨"a < b", .compare .lt (.var "a") (.var "b"), 1⟩, ⟨"c > 1", .compare .gt (.var "c") (.const (.int 1)), 1⟩,
    ⟨"b < 3", .compare .lt (.var "b") (.const (.int 3)), 1⟩, ⟨"c < 3", .compare .lt (.var "c") (.const (.int 3)), 1⟩]

/-- The variables of the two groups. -/
def fourValued : List (Variable Rat) := ["a", "b", "c"].map (listedVariable · [0, 1, 2, 3])

theorem components_of_twoGroups : components fourValued twoGroups = [[0, 2], [1, 3]] ∧
    ReflTransGen (Neighbours fourValued twoGroups) 0 2 ∧ ¬ ReflTransGen (Neighbours fourValued twoGroups) 0 1 := by
  have groups : components fourValued twoGroups = [[0, 2], [1, 3]] := by decide +kernel
  obtain ⟨_, linked, _⟩ := components_partition fourValued twoGroups
  have first := linked 0 (by decide)
  rw [groups] at first
  exact ⟨groups, (first 2).1 (by decide), fun leads => absurd ((first 1).2 leads) (by decide)⟩

end Groups

end Deliberation
