import Deliberation.Proofs.Constraint.Choice
import Mathlib.Data.List.Induction

/-!
Groups of constraints are independent: constraints of different groups share no variable, and choices
of values for the groups make up one for all constraints.
-/

namespace Deliberation

variable {R : Type}

section Linking

variable {linked : Linked} {names : List String} {index root : Nat}

/-- Constraints that share a variable are in one group, and the first member of a group is a member of it. -/
structure Linked.Grouped (linked : Linked) : Prop where
  shares : ∀ a ∈ linked, ∀ b ∈ linked, ∀ name ∈ a.1, name ∈ b.1 → a.2 = b.2
  roots : ∀ entry ∈ linked, ∃ names, linked[entry.2]? = some (names, entry.2)

/-- The groups that share a variable with a constraint. -/
def Linked.met (linked : Linked) (names : List String) : List Nat :=
  (linked.filter fun (others, _) => others.any (names.contains ·)).map (·.2)

theorem Linked.mem_met : root ∈ linked.met names ↔ ∃ entry ∈ linked, entry.2 = root ∧ ∃ name ∈ entry.1, name ∈ names := by
  simp only [Linked.met, List.mem_map, List.mem_filter, List.any_eq_true, List.contains_iff_mem]
  constructor
  · rintro ⟨entry, ⟨member, shared⟩, same⟩
    exact ⟨entry, member, same, shared⟩
  · rintro ⟨entry, member, same, shared⟩
    exact ⟨entry, ⟨member, shared⟩, same⟩

/-- A group under its new first member. -/
def merge (met : List Nat) (root group : Nat) : Nat := if group ∈ met then root else group

theorem merge_of_mem {met : List Nat} {group : Nat} (member : group ∈ met) : merge met root group = root := if_pos member

theorem link_eq (linked : Linked) (names : List String) (index : Nat) : link linked names index =
    match (linked.met names).min? with
    | none => linked ++ [(names, index)]
    | some root => (linked.map fun entry => (entry.1, merge (linked.met names) root entry.2)) ++ [(names, root)] := rfl

theorem link_apart (apart : linked.met names = []) : link linked names index = linked ++ [(names, index)] := by
  rw [link_eq, apart]
  rfl

theorem link_joined (joined : linked.met names ≠ []) (index : Nat) : ∃ root ∈ linked.met names,
    (∀ group ∈ linked.met names, root ≤ group) ∧ link linked names index =
      (linked.map fun entry => (entry.1, merge (linked.met names) root entry.2)) ++ [(names, root)] := by
  cases least : (linked.met names).min? with
  | none => exact absurd (List.min?_eq_none_iff.1 least) joined
  | some root =>
    obtain ⟨among, below⟩ := List.min?_eq_some_iff.1 least
    exact ⟨root, among, below, by rw [link_eq, least]⟩

theorem map_fst_link (linked : Linked) (names : List String) (index : Nat) :
    (link linked names index).map Prod.fst = linked.map Prod.fst ++ [names] := by
  by_cases apart : linked.met names = []
  · rw [link_apart apart]
    simp
  · obtain ⟨root, _, _, same⟩ := link_joined apart index
    rw [same]
    simp

theorem Linked.Grouped.link_apart (grouped : linked.Grouped) (apart : linked.met names = []) :
    Linked.Grouped (linked ++ [(names, linked.length)]) := by
  have unshared : ∀ entry ∈ linked, ∀ name ∈ entry.1, name ∉ names := by
    intro entry member name among shared
    have met : entry.2 ∈ linked.met names := Linked.mem_met.2 ⟨entry, member, rfl, name, among, shared⟩
    simp [apart] at met
  constructor
  · intro a first b second name among shared
    rw [List.mem_append, List.mem_singleton] at first second
    rcases first with first | rfl <;> rcases second with second | rfl
    · exact grouped.shares a first b second name among shared
    · exact absurd shared (unshared a first name among)
    · exact absurd among (unshared b second name shared)
    · rfl
  · intro entry member
    rw [List.mem_append, List.mem_singleton] at member
    rcases member with member | rfl
    · obtain ⟨others, there⟩ := grouped.roots entry member
      exact ⟨others, by rw [List.getElem?_append_left (List.getElem?_eq_some_iff.1 there).1, there]⟩
    · exact ⟨names, by simp⟩

theorem Linked.Grouped.link_joined (grouped : linked.Grouped) (among : root ∈ linked.met names) :
    Linked.Grouped ((linked.map fun entry => (entry.1, merge (linked.met names) root entry.2)) ++ [(names, root)]) := by
  have shared_met : ∀ entry ∈ linked, ∀ name ∈ entry.1, name ∈ names → merge (linked.met names) root entry.2 = root :=
    fun entry member name listed shared =>
      merge_of_mem (Linked.mem_met.2 ⟨entry, member, rfl, name, listed, shared⟩)
  have own : ∀ (group : Nat) (others : List String), linked[group]? = some (others, group) →
      ((linked.map fun entry => (entry.1, merge (linked.met names) root entry.2)) ++ [(names, root)])[group]? =
        some (others, merge (linked.met names) root group) := by
    intro group others there
    have inside : group < (linked.map fun entry => (entry.1, merge (linked.met names) root entry.2)).length := by
      rw [List.length_map]
      exact (List.getElem?_eq_some_iff.1 there).1
    rw [List.getElem?_append_left inside, List.getElem?_map, there]
    rfl
  have first_of : ∃ others, ((linked.map fun entry => (entry.1, merge (linked.met names) root entry.2)) ++
      [(names, root)])[root]? = some (others, root) := by
    obtain ⟨first, member, rfl, _⟩ := Linked.mem_met.1 among
    obtain ⟨others, there⟩ := grouped.roots first member
    exact ⟨others, by rw [own _ others there, merge_of_mem among]⟩
  constructor
  · intro a first b second name listed shared
    rw [List.mem_append, List.mem_singleton, List.mem_map] at first second
    rcases first with ⟨a, first, rfl⟩ | rfl <;> rcases second with ⟨b, second, rfl⟩ | rfl
    · show merge (linked.met names) root a.2 = merge (linked.met names) root b.2
      rw [grouped.shares a first b second name listed shared]
    · exact shared_met a first name listed shared
    · exact (shared_met b second name shared listed).symm
    · rfl
  · intro entry member
    rw [List.mem_append, List.mem_singleton, List.mem_map] at member
    rcases member with ⟨entry, member, rfl⟩ | rfl
    · by_cases joined : entry.2 ∈ linked.met names
      · rw [merge_of_mem joined]
        exact first_of
      · obtain ⟨others, there⟩ := grouped.roots entry member
        have same : merge (linked.met names) root entry.2 = entry.2 := if_neg joined
        refine ⟨others, ?_⟩
        show _ = some (others, merge (linked.met names) root entry.2)
        rw [show (entry.1, merge (linked.met names) root entry.2).2 = entry.2 from same, own _ others there]
    · exact first_of

theorem Linked.Grouped.link (grouped : linked.Grouped) (names : List String) :
    (Deliberation.link linked names linked.length).Grouped := by
  by_cases apart : linked.met names = []
  · rw [Deliberation.link_apart apart]
    exact grouped.link_apart apart
  · obtain ⟨root, among, _, same⟩ := Deliberation.link_joined apart linked.length
    rw [same]
    exact grouped.link_joined among

end Linking

section Groups

variable {vars : List (Variable R)} {constraints : List (Constraint R)}

/-- Constraints with the first members of their groups. -/
def linkAll (vars : List (Variable R)) (constraints : List (Constraint R)) : Linked :=
  constraints.zipIdx.foldl (fun linked (c, index) =>
    link linked (c.vars.filter (vars.map Variable.name).contains) index) []

theorem linkAll_append (c : Constraint R) : linkAll vars (constraints ++ [c]) =
    link (linkAll vars constraints) (c.vars.filter (vars.map Variable.name).contains) constraints.length := by
  rw [linkAll, List.zipIdx_append, List.foldl_append]
  simp [linkAll]

theorem map_fst_linkAll (vars : List (Variable R)) (constraints : List (Constraint R)) :
    (linkAll vars constraints).map Prod.fst =
      constraints.map fun c => c.vars.filter (vars.map Variable.name).contains := by
  induction constraints using List.reverseRecOn with
  | nil => rfl
  | append_singleton rest c ih => rw [linkAll_append, map_fst_link, ih, List.map_append, List.map_singleton]

theorem length_linkAll (vars : List (Variable R)) (constraints : List (Constraint R)) :
    (linkAll vars constraints).length = constraints.length := by
  have lengths := congrArg List.length (map_fst_linkAll vars constraints)
  rwa [List.length_map, List.length_map] at lengths

theorem grouped_linkAll (vars : List (Variable R)) (constraints : List (Constraint R)) :
    (linkAll vars constraints).Grouped := by
  induction constraints using List.reverseRecOn with
  | nil => exact ⟨fun a member => (by cases member), fun entry member => (by cases member)⟩
  | append_singleton rest c ih =>
    rw [linkAll_append, ← length_linkAll vars]
    exact ih.link _

theorem groupRoots_eq (vars : List (Variable R)) (constraints : List (Constraint R)) :
    groupRoots vars constraints = (linkAll vars constraints).map Prod.snd := rfl

theorem length_groupRoots (vars : List (Variable R)) (constraints : List (Constraint R)) :
    (groupRoots vars constraints).length = constraints.length := by
  rw [groupRoots_eq, List.length_map, length_linkAll]

/-- The first member of a group is its own. -/
theorem groupRoots_root {i root : Nat} (there : (groupRoots vars constraints)[i]? = some root) :
    (groupRoots vars constraints)[root]? = some root := by
  rw [groupRoots_eq, List.getElem?_map, Option.map_eq_some_iff] at there
  obtain ⟨entry, listed, rfl⟩ := there
  obtain ⟨names, own⟩ := (grouped_linkAll vars constraints).roots entry (List.mem_of_getElem? listed)
  rw [groupRoots_eq, List.getElem?_map, own]
  rfl

theorem linkAll_getElem? (vars : List (Variable R)) {i : Nat} {c : Constraint R} (there : constraints[i]? = some c) :
    ∃ entry, (linkAll vars constraints)[i]? = some entry ∧
      entry.1 = c.vars.filter (vars.map Variable.name).contains := by
  have names : ((linkAll vars constraints).map Prod.fst)[i]? =
      some (c.vars.filter (vars.map Variable.name).contains) := by
    rw [map_fst_linkAll, List.getElem?_map, there]
    rfl
  rwa [List.getElem?_map, Option.map_eq_some_iff] at names

/-- Constraints, by their places, that have a declared variable in common. -/
def Neighbours (vars : List (Variable R)) (constraints : List (Constraint R)) (i j : Nat) : Prop :=
  ∃ c d, constraints[i]? = some c ∧ constraints[j]? = some d ∧ ∃ v ∈ vars, v.name ∈ c.vars ∧ v.name ∈ d.vars

/-- Neighbours are in one group. -/
theorem Neighbours.same_root {i j : Nat} (neighbours : Neighbours vars constraints i j) :
    (groupRoots vars constraints)[i]? = (groupRoots vars constraints)[j]? := by
  obtain ⟨c, d, first, second, v, known, mentioned, shared⟩ := neighbours
  have declared : (vars.map Variable.name).contains v.name = true :=
    List.contains_iff_mem.2 (List.mem_map_of_mem known)
  obtain ⟨a, here, names⟩ := linkAll_getElem? vars first
  obtain ⟨b, there, names'⟩ := linkAll_getElem? vars second
  have same := (grouped_linkAll vars constraints).shares a (List.mem_of_getElem? here) b (List.mem_of_getElem? there)
    v.name (by rw [names]; exact List.mem_filter.2 ⟨mentioned, declared⟩)
    (by rw [names']; exact List.mem_filter.2 ⟨shared, declared⟩)
  rw [groupRoots_eq, List.getElem?_map, List.getElem?_map, here, there, Option.map_some, Option.map_some, same]

/-- Constraints that share a variable are in one group. -/
theorem groupRoots_shared (declared : Declared vars constraints) {i j : Nat} {c d : Constraint R}
    (first : constraints[i]? = some c) (second : constraints[j]? = some d) {name : String} (mentioned : name ∈ c.vars)
    (shared : name ∈ d.vars) : (groupRoots vars constraints)[i]? = (groupRoots vars constraints)[j]? := by
  obtain ⟨v, known, rfl⟩ := List.mem_map.1 (declared c (List.mem_of_getElem? first) name mentioned)
  exact Neighbours.same_root ⟨c, d, first, second, v, known, mentioned, shared⟩

/-- The constraints of a group. -/
def membersOf (constraints : List (Constraint R)) (group : List Nat) : List (Constraint R) :=
  group.filterMap (constraints[·]?)

/-- The group of a first member. -/
def groupOf (roots : List Nat) (root : Nat) : List Nat := (roots.zipIdx.filter fun (other, _) => other = root).map (·.2)

theorem mem_components {group : List Nat} : group ∈ components vars constraints ↔
    ∃ root, (groupRoots vars constraints)[root]? = some root ∧ group = groupOf (groupRoots vars constraints) root := by
  rw [components, List.mem_map]
  constructor
  · rintro ⟨⟨root, index⟩, member, rfl⟩
    rw [List.mem_filter, List.mk_mem_zipIdx_iff_getElem?, decide_eq_true_eq] at member
    obtain ⟨there, rfl⟩ := member
    exact ⟨root, there, rfl⟩
  · rintro ⟨root, there, rfl⟩
    refine ⟨(root, root), List.mem_filter.2 ⟨?_, by simp⟩, rfl⟩
    exact List.mk_mem_zipIdx_iff_getElem?.2 there

theorem mem_membersOf_groupOf {roots : List Nat} {root : Nat} {c : Constraint R} :
    c ∈ membersOf constraints (groupOf roots root) ↔ ∃ i : Nat, roots[i]? = some root ∧ constraints[i]? = some c := by
  simp only [membersOf, groupOf, List.mem_filterMap, List.mem_map, List.mem_filter, decide_eq_true_eq]
  constructor
  · rintro ⟨i, ⟨⟨other, index⟩, ⟨member, rfl⟩, rfl⟩, there⟩
    exact ⟨index, List.mk_mem_zipIdx_iff_getElem?.1 member, there⟩
  · rintro ⟨i, here, there⟩
    exact ⟨i, ⟨(root, i), ⟨List.mk_mem_zipIdx_iff_getElem?.2 here, rfl⟩, rfl⟩, there⟩

/-- The constraints of a group come in their order. -/
theorem sublist_of_mem_components {group : List Nat} (member : group ∈ components vars constraints) :
    (membersOf constraints group).Sublist constraints := by
  obtain ⟨root, _, rfl⟩ := mem_components.1 member
  have all : ((groupRoots vars constraints).zipIdx.map Prod.snd).filterMap (constraints[·]?) = constraints := by
    rw [List.zipIdx_map_snd, ← List.range_eq_range', length_groupRoots, Lists.filterMap_getElem?_range]
  have fewer : (membersOf constraints (groupOf (groupRoots vars constraints) root)).Sublist
      (((groupRoots vars constraints).zipIdx.map Prod.snd).filterMap (constraints[·]?)) :=
    (List.filter_sublist.map Prod.snd).filterMap _
  rwa [all] at fewer

end Groups

section Independence

variable [Scalar R] {vars : List (Variable R)} {constraints : List (Constraint R)}

/-- Every variable has a value to take. -/
def Stocked (vars : List (Variable R)) : Prop :=
  ∀ v ∈ vars, ∃ first rest, v.domain.expand v.name = .ok (first :: rest)

theorem Stocked.expandable (stocked : Stocked vars) : Expandable vars := fun v member => by
  obtain ⟨first, rest, expanded⟩ := stocked v member
  exact ⟨first :: rest, expanded⟩

theorem Stocked.exists_chosen (stocked : Stocked vars) (distinct : (vars.map Variable.name).Nodup) :
    ∃ env, Chosen vars env := by
  induction vars with
  | nil => exact ⟨fun _ => none, fun v member => (by cases member)⟩
  | cons v rest ih =>
    obtain ⟨fresh, distinct⟩ := List.nodup_cons.1 distinct
    obtain ⟨env, chosen⟩ := ih (fun other member => stocked other (List.mem_cons_of_mem v member)) distinct
    obtain ⟨first, others, expanded⟩ := stocked v List.mem_cons_self
    refine ⟨fun name => if name = v.name then some first else env name, fun other member => ?_⟩
    rcases List.mem_cons.1 member with rfl | member
    · exact ⟨first :: others, expanded, first, List.mem_cons_self, if_pos rfl⟩
    · have apart : other.name ≠ v.name := fun same => fresh (same ▸ List.mem_map_of_mem member)
      simp only [if_neg apart]
      exact chosen other member

/-- A choice that follows, for each name, some choice is a choice. -/
theorem chosen_of_each {choice : String → Env R} (each : ∀ name, Chosen vars (choice name)) :
    Chosen vars fun name => choice name name := fun v member => each v.name v member

/-- Values for the variables that constraints mention can be completed. -/
theorem satisfiable_of_scope (stocked : Stocked vars) (distinct : (vars.map Variable.name).Nodup)
    (satisfiable : Satisfiable (scope vars constraints) constraints) : Satisfiable vars constraints := by
  classical
  obtain ⟨env, chosen, holds⟩ := satisfiable
  obtain ⟨default, filled⟩ := stocked.exists_chosen distinct
  refine ⟨fun name => if ∃ c ∈ constraints, name ∈ c.vars then env name else default name, fun v member => ?_, ?_⟩
  · by_cases mentioned : ∃ c ∈ constraints, v.name ∈ c.vars
    · simp only [if_pos mentioned]
      exact chosen v (mem_scope.2 ⟨member, mentioned⟩)
    · simp only [if_neg mentioned]
      exact filled v member
  · refine holds.congr fun c member name mentioned => ?_
    exact (if_pos ⟨c, member, mentioned⟩).symm

/-- Where each group can hold, all constraints can. -/
theorem satisfiable_of_components (stocked : Stocked vars) (distinct : (vars.map Variable.name).Nodup)
    (declared : Declared vars constraints)
    (each : ∀ group ∈ components vars constraints, Satisfiable vars (membersOf constraints group)) :
    Satisfiable vars constraints := by
  obtain ⟨default, filled⟩ := stocked.exists_chosen distinct
  have choose : ∀ root, ∃ env, Chosen vars env ∧ ((groupRoots vars constraints)[root]? = some root →
      AllHold env (membersOf constraints (groupOf (groupRoots vars constraints) root))) := by
    intro root
    by_cases own : (groupRoots vars constraints)[root]? = some root
    · obtain ⟨env, chosen, holds⟩ := each _ (mem_components.2 ⟨root, own, rfl⟩)
      exact ⟨env, chosen, fun _ => holds⟩
    · exact ⟨default, filled, fun own' => absurd own' own⟩
  obtain ⟨choice, chosen⟩ := Classical.skolem.1 choose
  -- Each name takes its value from the choice for the only group that mentions it.
  have owner : ∀ name, ∃ env, Chosen vars env ∧ ∀ (i : Nat) c root, constraints[i]? = some c → name ∈ c.vars →
      (groupRoots vars constraints)[i]? = some root → env = choice root := by
    intro name
    by_cases mentioned : ∃ (i : Nat) (c : Constraint R) (root : Nat), constraints[i]? = some c ∧ name ∈ c.vars ∧
        (groupRoots vars constraints)[i]? = some root
    · obtain ⟨i, c, root, there, among, grouped⟩ := mentioned
      refine ⟨choice root, (chosen root).1, fun j d root' there' among' grouped' => ?_⟩
      rw [groupRoots_shared declared there there' among among', grouped'] at grouped
      rw [Option.some.inj grouped]
    · refine ⟨default, filled, fun i c root there among grouped => ?_⟩
      exact absurd ⟨i, c, root, there, among, grouped⟩ mentioned
  obtain ⟨envOf, owned⟩ := Classical.skolem.1 owner
  refine ⟨fun name => envOf name name, chosen_of_each fun name => (owned name).1, fun c member => ?_⟩
  obtain ⟨i, there⟩ := List.mem_iff_getElem?.1 member
  have inside : i < (groupRoots vars constraints).length := by
    rw [length_groupRoots]
    exact (List.getElem?_eq_some_iff.1 there).1
  have grouped := List.getElem?_eq_getElem inside
  have holds := (chosen _).2 (groupRoots_root grouped) c (mem_membersOf_groupOf.2 ⟨i, grouped, there⟩)
  rw [← holds]
  refine Constraint.holds_congr fun name mentioned => ?_
  rw [(owned name).2 i c _ there mentioned grouped]

end Independence

end Deliberation
