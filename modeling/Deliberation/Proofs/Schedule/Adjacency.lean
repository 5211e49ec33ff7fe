import Deliberation.Proofs.Schedule.Passes
import Mathlib.Data.List.Induction

/-!
Links as lists for each activity. Where declared activities are linked one pair at a time, and each keeps a
list of those that it waits for and a list of those that wait for it, these lists are the predecessors and the
successors in the list of all links. A search for a cycle that follows these lists, and stays among the
activities that lead on to each other, comes to the cycle that the search over all links comes to.
-/

open Relation (ReflTransGen TransGen)

namespace Deliberation.Network

/-! ### Lists of neighbours -/

/-- For each activity, by its place, those before it and those after it. -/
structure Adjacency where
  before : List (List Nat)
  after : List (List Nat)

namespace Adjacency

/-- No two of some activities are linked. -/
def unlinked (n : Nat) : Adjacency := ⟨List.replicate n [], List.replicate n []⟩

/-- Links two activities, unless they are linked already. -/
def link (adjacency : Adjacency) (pair : Nat × Nat) : Adjacency :=
  if pair.1 ∈ adjacency.before.getD pair.2 [] then adjacency
  else ⟨adjacency.before.modify pair.2 (· ++ [pair.1]), adjacency.after.modify pair.1 (· ++ [pair.2])⟩

/-- The neighbours in a list of links. -/
def ofLinks (n : Nat) (links : List (Nat × Nat)) : Adjacency :=
  ⟨(List.range n).map (predecessorsIn links), (List.range n).map (successorsIn links)⟩

variable {n : Nat} {links : List (Nat × Nat)} {pair : Nat × Nat}

theorem predecessorsIn_concat (links : List (Nat × Nat)) (pair : Nat × Nat) (i : Nat) :
    predecessorsIn (links ++ [pair]) i = if pair.2 = i then predecessorsIn links i ++ [pair.1] else predecessorsIn links i := by
  rw [predecessorsIn, predecessorsIn, List.filter_append, List.filter_singleton, List.map_append]
  by_cases own : pair.2 = i <;> simp [own]

theorem successorsIn_concat (links : List (Nat × Nat)) (pair : Nat × Nat) (i : Nat) :
    successorsIn (links ++ [pair]) i = if pair.1 = i then successorsIn links i ++ [pair.2] else successorsIn links i := by
  rw [successorsIn, successorsIn, List.filter_append, List.filter_singleton, List.map_append]
  by_cases own : pair.1 = i <;> simp [own]

theorem modify_map_range {α : Type} (f : Nat → α) (change : α → α) (n k : Nat) :
    ((List.range n).map f).modify k change = (List.range n).map fun i => if k = i then change (f i) else f i := by
  refine List.ext_getElem (by simp) fun i first second => ?_
  simp [List.getElem_modify]

theorem unlinked_eq (n : Nat) : unlinked n = ofLinks n [] := by
  have none (neighbours : List (Nat × Nat) → Nat → List Nat) (empty : ∀ i, neighbours [] i = []) :
      List.replicate n [] = (List.range n).map (neighbours []) := by
    rw [List.map_congr_left fun i _ => empty i, List.map_const', List.length_range]
  exact congrArg₂ mk (none predecessorsIn fun _ => rfl) (none successorsIn fun _ => rfl)

theorem link_of_mem (known : pair ∈ links) (inside : pair.2 < n) : (ofLinks n links).link pair = ofLinks n links := by
  refine if_pos ?_
  simpa [ofLinks, inside, mem_predecessorsIn] using known

theorem link_of_notMem (fresh : pair ∉ links) (inside : pair.2 < n) :
    (ofLinks n links).link pair = ofLinks n (links ++ [pair]) := by
  have apart : pair.1 ∉ (ofLinks n links).before.getD pair.2 [] := by
    simpa [ofLinks, inside, mem_predecessorsIn] using fresh
  rw [link, if_neg apart]
  simp only [ofLinks, modify_map_range, ← predecessorsIn_concat, ← successorsIn_concat]

/-- Pairs that are linked one after the other come to the links among them, each of them once. -/
theorem foldl_link (inside : ∀ pair ∈ links, pair.2 < n) : links.foldl link (unlinked n) = ofLinks n links.eraseDups := by
  -- pairs are linked in order, so the induction takes the last one off
  induction links using List.reverseRecOn with
  | nil => exact unlinked_eq n
  | append_singleton rest pair ih =>
    have within := inside pair (by simp)
    rw [List.foldl_append, ih fun other member => inside other (List.mem_append_left _ member), Lists.eraseDups_concat]
    by_cases known : pair ∈ rest
    · rw [if_pos known]
      exact link_of_mem (List.mem_eraseDups.2 known) within
    · rw [if_neg known]
      exact link_of_notMem (mt List.mem_eraseDups.1 known) within

variable {R : Type} {activities : List (Activity R)} {precedence : List Precedence}

/-- The place of a declared activity. -/
def place (activities : List (Activity R)) (name source : String) : Except (ScheduleError R) Nat :=
  match (activities.map Activity.name).idxOf? name with
  | some i => .ok i
  | none => .error (.unknownActivity name source)

/-- Links declared activities, each to its own predecessors in its turn, and then the pairs that are declared apart. -/
def declare (activities : List (Activity R)) (precedence : List Precedence) : Except (ScheduleError R) Adjacency := do
  let own ← activities.zipIdx.foldlM (fun adjacency (activity, i) =>
    activity.predecessors.foldlM (fun adjacency before => do
      return adjacency.link (← place activities before activity.name, i)) adjacency) (unlinked activities.length)
  precedence.foldlM (fun adjacency pair => do
    return adjacency.link (← place activities pair.before "PRECEDENCE", ← place activities pair.after "PRECEDENCE")) own

/-- The pairs of an activity, whose place is known, and its predecessors. -/
def ownPairs (activities : List (Activity R)) (entry : Activity R × Nat) : Except (ScheduleError R) (List (Nat × Nat)) :=
  entry.1.predecessors.mapM fun before => do return (← place activities before entry.1.name, entry.2)

/-- A pair that is declared apart. -/
def apartPair (activities : List (Activity R)) (pair : Precedence) : Except (ScheduleError R) (Nat × Nat) := do
  return (← place activities pair.before "PRECEDENCE", ← place activities pair.after "PRECEDENCE")

theorem place_self (distinct : (activities.map Activity.name).Nodup) {activity : Activity R} {i : Nat}
    (there : activities[i]? = some activity) (source : String) : place activities activity.name source = .ok i := by
  have found : (activities.map Activity.name).idxOf? activity.name = some i := by
    rw [idxOf?_eq_some_iff_getElem? distinct, List.getElem?_map, there]
    rfl
  rw [place, found]

theorem declaredLinks_eq (distinct : (activities.map Activity.name).Nodup) : declaredLinks activities precedence = do
    let own ← activities.zipIdx.flatMapM (ownPairs activities)
    let apart ← precedence.mapM (apartPair activities)
    return (own ++ apart).eraseDups := by
  have same : activities.zipIdx.flatMapM (ownPairs activities) = activities.flatMapM fun activity =>
      activity.predecessors.mapM fun before => do
        return (← place activities before activity.name, ← place activities activity.name activity.name) := by
    rw [Lists.flatMapM_eq, Lists.flatMapM_eq]
    refine congrArg (Except.map List.flatten) (Lists.mapM_congr ?_)
    rw [← List.zipIdx_map_fst 0 activities, List.forall₂_map_right_iff, List.zipIdx_map_fst, List.forall₂_same]
    rintro ⟨activity, i⟩ member
    simp only [ownPairs, place_self distinct (List.mk_mem_zipIdx_iff_getElem?.1 member)]
    rfl
  rw [same]
  rfl

theorem declare_eq_foldl (activities : List (Activity R)) (precedence : List Precedence) :
    declare activities precedence = do
      let own ← activities.zipIdx.flatMapM (ownPairs activities)
      let apart ← precedence.mapM (apartPair activities)
      return (own ++ apart).foldl link (unlinked activities.length) := by
  have each (entry : Activity R × Nat) (adjacency : Adjacency) :
      (entry.1.predecessors.foldlM (fun adjacency before => do
        return adjacency.link (← place activities before entry.1.name, entry.2)) adjacency :
        Except (ScheduleError R) Adjacency) = (ownPairs activities entry).map fun pairs => pairs.foldl link adjacency := by
    rw [ownPairs, ← Lists.foldlM_eq]
    simp only [bind_assoc, pure_bind]
  have listed (adjacency : Adjacency) :
      (precedence.foldlM (fun adjacency pair => do
        return adjacency.link (← place activities pair.before "PRECEDENCE", ← place activities pair.after "PRECEDENCE"))
        adjacency : Except (ScheduleError R) Adjacency) =
      (precedence.mapM (apartPair activities)).map fun pairs => pairs.foldl link adjacency := by
    rw [← Lists.foldlM_eq]
    simp only [apartPair, bind_assoc, pure_bind]
  simp only [declare, each, listed, Lists.foldlM_flatten_eq]
  cases activities.zipIdx.flatMapM (ownPairs activities) with
  | error fault => rfl
  | ok own =>
    cases precedence.mapM (apartPair activities) with
    | error fault => rfl
    | ok apart => exact congrArg Except.ok List.foldl_append.symm

/-- Linking comes to the lists of the declared links, and fails where they do. -/
theorem declare_eq (distinct : (activities.map Activity.name).Nodup) :
    declare activities precedence = (declaredLinks activities precedence).map (ofLinks activities.length) := by
  have within {found : List (Nat × Nat)} (declared : declaredLinks activities precedence = .ok found.eraseDups) :
      ∀ pair ∈ found, pair.2 < activities.length := fun pair member =>
    (links_lt declared (List.mem_eraseDups.2 member)).2
  rw [declaredLinks_eq distinct] at within ⊢
  rw [declare_eq_foldl]
  cases owned : activities.zipIdx.flatMapM (ownPairs activities) with
  | error fault => rfl
  | ok own =>
    cases listed : precedence.mapM (apartPair activities) with
    | error fault => rfl
    | ok apart => exact congrArg Except.ok (foldl_link (within (by rw [owned, listed]; rfl)))

end Adjacency

/-- The lists of a network are those that linking its pairs one by one comes to. -/
theorem declare_of_build {R : Type} {activities : List (Activity R)} {precedence : List Precedence} {network : Network}
    (built : build activities precedence = .ok network) : Adjacency.declare activities precedence =
      .ok ⟨(List.range network.size).map network.predecessors, (List.range network.size).map network.successors⟩ := by
  rw [Adjacency.declare_eq (distinct_of_build built), (built_of_build built).links, (represents_of_build built).2.size_eq]
  rfl

/-! ### A cycle within a component -/

/-- How activities were met, each with the one it was met from, the latest first, and those whose links are still to be
followed. -/
structure Line where
  parents : List (Nat × Nat)
  waiting : List Nat

/-- Puts those that follow an activity in line, if they are members that were not met before. Nothing, where the start
follows it. -/
def enqueue? (members : List Nat) (start i : Nat) : List Nat → Line → Option Line
  | [], line => some line
  | j :: rest, line =>
    if j = start then none
    else if j ∈ members ∧ line.parents.lookup j = none then
      enqueue? members start i rest ⟨(j, i) :: line.parents, line.waiting ++ [j]⟩
    else enqueue? members start i rest line

/-- From an activity back to the one that was not met from another. -/
def trace (parents : List (Nat × Nat)) : (steps : Nat) → Nat → List Nat
  | 0, i => [i]
  | steps + 1, i =>
    match parents.lookup i with
    | none => [i]
    | some parent => i :: trace parents steps parent

/-- Follows links among members from the start on until one leads back to it; the members, where none does. -/
def closeWithin (after : List (List Nat)) (members : List Nat) (start : Nat) : (steps : Nat) → Line → List Nat
  | 0, _ => members.mergeSort
  | _ + 1, ⟨_, []⟩ => members.mergeSort
  | steps + 1, ⟨parents, i :: waiting⟩ =>
    match enqueue? members start i (after.getD i []) ⟨parents, waiting⟩ with
    | none => (trace parents parents.length i).reverse ++ [start]
    | some line => closeWithin after members start steps line

section Component

variable {n start i j : Nat} {links : List (Nat × Nat)} {members met path : List Nat} {paths : List (List Nat)} {line : Line}
  {parents : List (Nat × Nat)}

/-- The activities that lead on from one to another and back. -/
def IsComponent (links : List (Nat × Nat)) (start : Nat) (members : List Nat) : Prop :=
  ∀ i, i ∈ members ↔ Reaches links start i ∧ Reaches links i start

theorem enqueue?_eq_none (back : start ∈ path) (line : Line) : enqueue? members start i path line = none := by
  induction path generalizing line with
  | nil => cases back
  | cons j rest ih =>
    rw [enqueue?]
    by_cases here : j = start
    · rw [if_pos here]
    · have later : start ∈ rest := by simpa [Ne.symm here] using back
      rw [if_neg here]
      split
      · exact ih later _
      · exact ih later _

/-- The members among some activities that were not met before. -/
def freshIn (members : List Nat) (parents : List (Nat × Nat)) (next : List Nat) : List Nat :=
  next.filter fun j => j ∈ members ∧ parents.lookup j = none

theorem enqueue?_eq_some {next : List Nat} (open_ : start ∉ next) (distinct : next.Nodup) (line : Line) :
    enqueue? members start i next line = some ⟨(freshIn members line.parents next).reverse.map (·, i) ++ line.parents,
      line.waiting ++ freshIn members line.parents next⟩ := by
  induction next generalizing line with
  | nil => simp [enqueue?, freshIn]
  | cons j rest ih =>
    obtain ⟨apart, open_⟩ := not_or.1 (mt List.mem_cons.2 open_)
    obtain ⟨absent, distinct⟩ := List.nodup_cons.1 distinct
    rw [enqueue?, if_neg (Ne.symm apart)]
    by_cases fresh : j ∈ members ∧ line.parents.lookup j = none
    · have others : freshIn members ((j, i) :: line.parents) rest = freshIn members line.parents rest := by
        refine List.filter_congr fun k among => ?_
        have differs : (k == j) = false := beq_false_of_ne fun same => absent (same ▸ among)
        rw [List.lookup_cons, differs]
      have whole : freshIn members line.parents (j :: rest) = j :: freshIn members line.parents rest :=
        List.filter_cons_of_pos (decide_eq_true fresh)
      rw [if_pos fresh, ih open_ distinct, others, whole]
      simp
    · have whole : freshIn members line.parents (j :: rest) = freshIn members line.parents rest :=
        List.filter_cons_of_neg (by simpa using fresh)
      rw [if_neg fresh, ih open_ distinct, whole]

/-- A path of parents from an activity back to the start. -/
inductive Leads (parents : List (Nat × Nat)) (start : Nat) : List Nat → Prop
  | start : Leads parents start [start]
  | step {i j : Nat} {rest : List Nat} (met : parents.lookup j = some i) (earlier : Leads parents start (i :: rest)) :
      Leads parents start (j :: i :: rest)

theorem Leads.trace_eq (leads : Leads parents start path) (first : parents.lookup start = none) {steps : Nat}
    (head : path.head? = some i) (enough : path.length ≤ steps + 1) : trace parents steps i = path := by
  induction leads generalizing i steps with
  | start =>
    obtain rfl : start = i := by simpa using head
    cases steps with
    | zero => rfl
    | succ steps => rw [trace, first]
  | @step i' j rest met _ ih =>
    obtain rfl : j = i := by simpa using head
    cases steps with
    | zero => simp at enough
    | succ steps =>
      rw [trace, met]
      exact congrArg (j :: ·) (ih rfl (by simpa using enough))

theorem Leads.length_le (leads : Leads parents start path) (distinct : path.Nodup) : path.length ≤ parents.length + 1 := by
  have keys : path.dropLast ⊆ parents.map Prod.fst := by
    clear distinct
    induction leads with
    | start => simp
    | step met _ ih =>
      obtain ⟨before, after, split, _⟩ := List.lookup_eq_some_iff.1 met
      rw [List.dropLast_cons_cons]
      exact List.cons_subset.2 ⟨by simp [split], ih⟩
  have fewer := (List.subperm_of_subset (distinct.sublist (List.dropLast_sublist path)) keys).length_le
  rw [List.length_dropLast, List.length_map] at fewer
  omega

/-- What is met later is met from elsewhere. -/
theorem Leads.grow {new : List (Nat × Nat)} (fresh : ∀ pair ∈ new, parents.lookup pair.1 = none)
    (leads : Leads parents start path) : Leads (new ++ parents) start path := by
  induction leads with
  | start => exact .start
  | @step i j rest met _ ih =>
    refine .step ?_ ih
    have absent : new.lookup j = none := by
      refine List.lookup_eq_none_iff.2 fun pair member => ?_
      have differs : j ≠ pair.1 := by
        rintro rfl
        rw [fresh pair member] at met
        cases met
      simpa using differs
    rw [List.lookup_append, absent, Option.none_or, met]

theorem lookup_map_pair {l : List Nat} : (l.map (·, i)).lookup j = if j ∈ l then some i else none := by
  induction l with
  | nil => rfl
  | cons k rest ih =>
    by_cases same : j = k
    · simp [same]
    · simp [List.lookup_cons, beq_false_of_ne same, ih, same]

/-- The members that paths have come to. -/
def ends (members : List Nat) (paths : List (List Nat)) : List Nat := (paths.filterMap List.head?).filter (· ∈ members)

theorem ends_cons_of_mem (inside : i ∈ members) (rest : List Nat) (paths : List (List Nat)) :
    ends members ((i :: rest) :: paths) = i :: ends members paths :=
  List.filter_cons_of_pos (decide_eq_true inside)

theorem ends_cons_of_notMem (outside : i ∉ members) (rest : List Nat) (paths : List (List Nat)) :
    ends members ((i :: rest) :: paths) = ends members paths :=
  List.filter_cons_of_neg (by simpa using outside)

theorem ends_extended (members : List Nat) (paths : List (List Nat)) (next path : List Nat) :
    ends members (paths ++ next.map (· :: path)) = ends members paths ++ next.filter (· ∈ members) := by
  simp [ends, List.filterMap_map, Function.comp_def]

/-- The line holds what a search over all links has met and is still to extend, as far as it is among the members. -/
structure Tracks (start : Nat) (members met : List Nat) (paths : List (List Nat)) (line : Line) : Prop where
  waiting : line.waiting = ends members paths
  known : ∀ i ∈ members, line.parents.lookup i = none ↔ i = start ∨ i ∉ met
  leads : ∀ path ∈ paths, ∀ i ∈ path.head?, i ∈ members → Leads line.parents start path

/-- What follows a member goes in line if it is a member, as the extensions of a path go to the other paths. -/
theorem Tracks.extend {rest waiting next : List Nat} (inside : i ∈ members) (open_ : start ∉ next)
    (tracks : Tracks start members met ((i :: rest) :: paths) ⟨parents, i :: waiting⟩) :
    Tracks start members (next.filter (· ∉ met) ++ met) (paths ++ (next.filter (· ∉ met)).map (· :: i :: rest))
      ⟨(freshIn members parents next).reverse.map (·, i) ++ parents, waiting ++ freshIn members parents next⟩ := by
  have among : freshIn members parents next = (next.filter (· ∉ met)).filter (· ∈ members) := by
    rw [List.filter_filter, freshIn]
    refine List.filter_congr fun j follows => ?_
    have apart : j ≠ start := fun same => open_ (same ▸ follows)
    by_cases member : j ∈ members
    · have known := tracks.known j member
      simp only [apart, false_or] at known
      simp [member, known]
    · simp [member]
  have mem_fresh {j : Nat} : j ∈ freshIn members parents next ↔ (j ∈ next ∧ j ∉ met) ∧ j ∈ members := by
    simp only [among, List.mem_filter, decide_eq_true_eq]
  constructor
  · have waits := tracks.waiting
    rw [ends_cons_of_mem inside, List.cons.injEq] at waits
    rw [ends_extended, among, waits.2]
  · intro j member
    rw [List.lookup_append, Option.or_eq_none_iff, lookup_map_pair, tracks.known j member]
    by_cases same : j = start
    · simp [same, mem_fresh, open_]
    · simp [same, mem_fresh, member]
  · have new : ∀ pair ∈ (freshIn members parents next).reverse.map (·, i), parents.lookup pair.1 = none := by
      intro pair listed
      obtain ⟨j, met, rfl⟩ := List.mem_map.1 listed
      have fresh := mem_fresh.1 (List.mem_reverse.1 met)
      exact (tracks.known j fresh.2).2 (.inr fresh.1.2)
    intro path listed j head member
    rcases List.mem_append.1 listed with old | extended
    · exact (tracks.leads path (List.mem_cons_of_mem _ old) j head member).grow new
    · obtain ⟨k, follows, rfl⟩ := List.mem_map.1 extended
      obtain rfl : k = j := by simpa using head
      have fresh : k ∈ freshIn members parents next := mem_fresh.2 ⟨by simpa using follows, member⟩
      refine .step ?_ ((tracks.leads _ (List.mem_cons_self ..) i rfl inside).grow new)
      rw [List.lookup_append, lookup_map_pair, if_pos (List.mem_reverse.2 fresh), Option.some_or]

/-- From what is not a member, no link leads to one, and nothing goes in line. -/
theorem Tracks.pass {rest next : List Nat} (outside : i ∉ members) (away : ∀ j ∈ next, j ∉ members)
    (tracks : Tracks start members met ((i :: rest) :: paths) line) :
    Tracks start members (next.filter (· ∉ met) ++ met) (paths ++ (next.filter (· ∉ met)).map (· :: i :: rest)) line := by
  constructor
  · have none : (next.filter (· ∉ met)).filter (· ∈ members) = [] := by
      simpa using fun j follows member => absurd member (away j follows)
    rw [tracks.waiting, ends_cons_of_notMem outside, ends_extended, none, List.append_nil]
  · intro j member
    have unmet : j ∉ next := fun follows => away j follows member
    simp [tracks.known j member, unmet]
  · intro path listed j head member
    rcases List.mem_append.1 listed with old | extended
    · exact tracks.leads path (List.mem_cons_of_mem _ old) j head member
    · obtain ⟨k, follows, rfl⟩ := List.mem_map.1 extended
      obtain rfl : k = j := by simpa using head
      exact absurd member (away k (List.mem_filter.1 follows).1)

theorem Trail.reaches {rest : List Nat} (trail : Trail links start (i :: rest)) : Reaches links start i := by
  have chain := trail.chain
  have starts := trail.starts
  clear trail
  induction rest generalizing i with
  | nil =>
    obtain rfl : i = start := by simpa using starts
    exact .refl
  | cons j rest ih =>
    obtain ⟨link, chain⟩ := List.isChain_cons_cons.1 chain
    exact (ih chain (by simpa using starts)).tail link

/-- What lies outside the component, and is led to from the start, does not lead into it. -/
theorem IsComponent.away (component : IsComponent links start members) (reached : Reaches links start i) (outside : i ∉ members)
    (link : (i, j) ∈ links) : j ∉ members := fun member =>
  outside ((component i).2 ⟨reached, .head link ((component j).1 member).2⟩)

/-- The search within the component of the start keeps up with the search over all links, and both come to one cycle. -/
theorem closeWithin_eq_closePath (apart : links.Nodup) (within : ∀ i j, (i, j) ∈ links → j < n)
    (cyclic : TransGen (fun i j => (i, j) ∈ links) start start) (component : IsComponent links start members)
    {steps more : Nat} (enough : steps ≤ more) (searching : Searching n links start steps met paths)
    (tracks : Tracks start members met paths line) :
    closeWithin (Adjacency.ofLinks n links).after members start more line = closePath links start steps met paths := by
  have own : start ∈ members := (component start).2 ⟨.refl, .refl⟩
  induction steps generalizing met paths line more with
  | zero =>
    obtain ⟨_, _, _, left, _, none⟩ := searching.exists_path cyclic
    cases none
  | succ steps ih =>
    obtain ⟨i, rest, others, _, rfl, _⟩ := searching.exists_path cyclic
    obtain ⟨trail, along⟩ := searching.trails _ (List.mem_cons_self ..)
    rw [closePath, List.headD_cons]
    -- a path that has left the component is extended over all links only: a step of one search and none of the other
    by_cases member : i ∈ members
    · obtain ⟨parents, waiting⟩ := line
      obtain rfl : waiting = i :: ends members others := by rw [← ends_cons_of_mem member rest, ← tracks.waiting]
      obtain ⟨more, rfl⟩ : ∃ left, more = left + 1 := ⟨more - 1, by omega⟩
      have inside : i < n := searching.inside i (along i (List.mem_cons_self ..))
      have follow : (Adjacency.ofLinks n links).after.getD i [] = successorsIn links i := by simp [Adjacency.ofLinks, inside]
      rw [closeWithin, follow]
      by_cases back : start ∈ successorsIn links i
      · have leads := tracks.leads _ (List.mem_cons_self ..) i rfl member
        have first : parents.lookup start = none := (tracks.known start own).2 (.inl rfl)
        rw [if_pos back, enqueue?_eq_none back]
        dsimp only
        rw [leads.trace_eq first rfl (leads.length_le trail.distinct), ← List.reverse_cons]
      · rw [if_neg back, enqueue?_eq_some back (nodup_successorsIn apart i)]
        exact ih (by omega) (searching.extend apart within (mt mem_successorsIn.2 back)) (tracks.extend member back)
    · have away : ∀ j ∈ successorsIn links i, j ∉ members := fun j follows =>
        component.away trail.reaches member (mem_successorsIn.1 follows)
      have open_ : start ∉ successorsIn links i := fun back => away start back own
      rw [if_neg open_]
      exact ih (by omega) (searching.extend apart within (mt mem_successorsIn.2 open_)) (tracks.pass member away)

theorem closeWithin_eq_cycleThrough (apart : links.Nodup) (within : ∀ i j, (i, j) ∈ links → i < n ∧ j < n)
    (cyclic : TransGen (fun i j => (i, j) ∈ links) start start) (component : IsComponent links start members) :
    closeWithin (Adjacency.ofLinks n links).after members start n ⟨[], [start]⟩ = cycleThrough n links start := by
  obtain ⟨_, link, _⟩ := TransGen.head'_iff.1 cyclic
  refine closeWithin_eq_closePath apart (fun i j link => (within i j link).2) cyclic component le_rfl
    (searching_start (within _ _ link).1) ⟨?_, by simp, ?_⟩
  · simp [ends, (component start).2 ⟨.refl, .refl⟩]
  · intro path listed i head _
    obtain rfl : path = [start] := by simpa using listed
    exact .start

/-- A cycle that is reported is an activity that waits for itself, or the one that is found within the component of an
activity on the lists of those after each. -/
theorem cycle_of_build {R : Type} {activities : List (Activity R)} {precedence : List Precedence} {cycle : List String}
    (failed : build activities precedence = .error (.cycle cycle)) :
    ∃ links start, declaredLinks activities precedence = .ok links ∧
      ((start, start) ∈ links ∧ cycle = namedPlaces activities [start, start] ∨
        ∀ members, IsComponent links start members → cycle = namedPlaces activities
          (closeWithin (Adjacency.ofLinks activities.length links).after members start activities.length ⟨[], [start]⟩)) := by
  rw [build] at failed
  simp only [bind, Except.bind, pure, Except.pure, throw, throwThe, MonadExceptOf.throw, List.length_map] at failed
  split at failed
  · cases failed
  split at failed
  · next fault undeclared =>
    obtain ⟨_, _, _, rfl⟩ := unknown_of_declaredLinks undeclared
    cases failed
  next links declared =>
  have within (i j : Nat) (link : (i, j) ∈ links) := links_lt declared link
  split at failed
  · next i found =>
    cases failed
    exact ⟨links, i, declared, .inl ⟨by simpa using List.find?_some found, rfl⟩⟩
  split at failed
  · next start found =>
    cases failed
    refine ⟨links, start, declared, .inr fun members component => ?_⟩
    rw [closeWithin_eq_cycleThrough (nodup_declaredLinks declared) within (cyclic_of_misplaced? within found) component]
    rfl
  · cases failed

end Component

end Deliberation.Network
