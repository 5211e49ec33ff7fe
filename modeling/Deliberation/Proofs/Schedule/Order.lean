import Deliberation.Proofs.Lists
import Deliberation.Schedule.Network

/-!
Orders of networks. The order of a network that is built lists every activity, each after its
predecessors; so as long as some activities are left, one of them has no predecessor among them.
-/

namespace Deliberation.Network

variable {n : Nat} {links : List (Nat × Nat)}

/-- What a walk has met stays met, and what it meets it gets done with. -/
structure Walk.Goes (n : Nat) (before after : Walk) : Prop where
  met : ∀ i ∈ before.met, i ∈ after.met
  done : ∀ i ∈ before.done, i ∈ after.done
  finished : ∀ i ∈ after.met, i ∈ before.met ∨ i ∈ after.done
  within : ∀ i ∈ after.done, i ∈ before.done ∨ i < n

theorem Walk.Goes.refl (walk : Walk) : walk.Goes n walk := by
  constructor <;> simp +contextual

theorem Walk.Goes.trans {first second third : Walk} (goes : first.Goes n second) (on : second.Goes n third) :
    first.Goes n third where
  met i member := on.met i (goes.met i member)
  done i member := on.done i (goes.done i member)
  finished i member := by
    rcases on.finished i member with old | new
    · exact (goes.finished i old).imp_right (on.done i)
    · exact .inr new
  within i member := by
    rcases on.within i member with old | inside
    · exact goes.within i old
    · exact .inr inside

theorem foldl_goes {visit : Walk → Nat → Walk} {l : List Nat} (each : ∀ walk : Walk, ∀ i ∈ l, walk.Goes n (visit walk i))
    (walk : Walk) : walk.Goes n (l.foldl visit walk) := by
  induction l generalizing walk with
  | nil => exact .refl walk
  | cons i rest ih =>
    have first := each walk i (List.mem_cons_self ..)
    exact first.trans (ih (fun walk j member => each walk j (List.mem_cons_of_mem _ member)) _)

theorem explore_goes (depth : Nat) (walk : Walk) {i : Nat} (inside : i < n) :
    walk.Goes n (explore n links depth walk i) := by
  induction depth generalizing walk i with
  | zero => exact .refl walk
  | succ depth ih =>
    rw [explore]
    split
    · exact .refl walk
    · extract_lets after next
      have goes : Walk.Goes n { walk with met := i :: walk.met } next := by
        refine foldl_goes ?_ _
        intro walk j member
        exact ih walk (List.mem_range.1 (List.mem_filter.1 member).1)
      constructor
      · intro j member
        exact goes.met j (List.mem_cons_of_mem _ member)
      · intro j member
        exact List.mem_cons_of_mem _ (goes.done j member)
      · intro j member
        rcases goes.finished j member with old | new
        · rcases List.mem_cons.1 old with rfl | old
          · exact .inr (List.mem_cons_self ..)
          · exact .inl old
        · exact .inr (List.mem_cons_of_mem _ new)
      · intro j member
        rcases List.mem_cons.1 member with rfl | member
        · exact .inr inside
        · exact goes.within j member

theorem mem_met_explore (depth : Nat) (walk : Walk) (i : Nat) : i ∈ (explore n links (depth + 1) walk i).met := by
  rw [explore]
  split
  · next known => exact known
  · extract_lets after next
    have goes : Walk.Goes n { walk with met := i :: walk.met } next := by
      refine foldl_goes ?_ _
      intro walk j member
      exact explore_goes depth walk (List.mem_range.1 (List.mem_filter.1 member).1)
    exact goes.met i (List.mem_cons_self ..)

/-- The order of a walk lists exactly the activities. -/
theorem mem_walkOrder {i : Nat} : i ∈ walkOrder n links ↔ i < n := by
  have goes : Walk.Goes n ⟨[], []⟩ ((List.range n).foldl (explore n links n) ⟨[], []⟩) :=
    foldl_goes (fun walk j member => explore_goes n walk (List.mem_range.1 member)) _
  constructor
  · intro member
    exact (goes.within i member).resolve_left (by simp)
  · intro inside
    obtain ⟨depth, rfl⟩ : ∃ depth, n = depth + 1 := ⟨n - 1, by omega⟩
    obtain ⟨front, rest, split⟩ := List.append_of_mem (List.mem_range.2 inside)
    have later : ∀ j ∈ rest, j < depth + 1 := by
      intro j member
      exact List.mem_range.1 (split ▸ by simp [member])
    have met : i ∈ ((List.range (depth + 1)).foldl (explore (depth + 1) links (depth + 1)) ⟨[], []⟩).met := by
      rw [split, List.foldl_append, List.foldl_cons]
      exact (foldl_goes (fun walk j member => explore_goes _ walk (later j member)) _).met i
        (mem_met_explore depth _ i)
    exact (goes.finished i met).resolve_left (by simp)

/-- Along an order in which no activity is misplaced, the first one that is left comes after its predecessors,
and they are not left. -/
theorem exists_ready_of_misplaced? {placed : Nat → Prop} {before order : List Nat}
    (fits : misplaced? links before order = none) (behind : ∀ i ∈ before, placed i) {i : Nat} (member : i ∈ order)
    (left : ¬ placed i) : ∃ j ∈ order, ¬ placed j ∧ ∀ p ∈ predecessorsIn links j, placed p := by
  induction order generalizing before with
  | nil => simp at member
  | cons first rest ih =>
    rw [misplaced?] at fits
    split at fits
    · cases fits
    · next inOrder =>
      by_cases here : placed first
      · have others : i ∈ rest := (List.mem_cons.1 member).resolve_left (fun same => left (same ▸ here))
        obtain ⟨j, among, ready⟩ := ih fits (List.forall_mem_cons.2 ⟨here, behind⟩) others
        exact ⟨j, List.mem_cons_of_mem _ among, ready⟩
      · refine ⟨first, List.mem_cons_self .., here, ?_⟩
        intro p among
        have known := List.find?_eq_none.1 inOrder p among
        exact behind p (by simpa using known)

variable {R : Type} {activities : List (Activity R)} {precedence : List Precedence} {network : Network}

/-- The parts of a network that is built. -/
structure Built (activities : List (Activity R)) (precedence : List Precedence) (network : Network) : Prop where
  links : declaredLinks activities precedence = .ok network.links
  order : network.order = walkOrder activities.length network.links
  fits : misplaced? network.links [] network.order = none

theorem built_of_build (done : build activities precedence = .ok network) : Built activities precedence network := by
  rw [build] at done
  simp only [bind, Except.bind, pure, Except.pure, throw, throwThe, MonadExceptOf.throw] at done
  split at done
  · cases done
  split at done
  · cases done
  next links declared =>
  split at done
  · cases done
  split at done
  · cases done
  next fits =>
  cases done
  refine ⟨declared, ?_, fits⟩
  rw [List.length_map]

/-- A link from the place of one name to that of another: of a predecessor to the activity that lists it, or
declared apart. -/
inductive Declares (activities : List (Activity R)) (precedence : List Precedence) (i j : Nat) : Prop
  | own {activity : Activity R} {before : String} (member : activity ∈ activities)
      (among : before ∈ activity.predecessors) (first : (activities.map Activity.name).idxOf? before = some i)
      (second : (activities.map Activity.name).idxOf? activity.name = some j) : Declares activities precedence i j
  | apart {link : Precedence} (member : link ∈ precedence)
      (first : (activities.map Activity.name).idxOf? link.before = some i)
      (second : (activities.map Activity.name).idxOf? link.after = some j) : Declares activities precedence i j

/-- The links are exactly the declared ones. -/
theorem mem_links_iff (declared : declaredLinks activities precedence = .ok links) {i j : Nat} :
    (i, j) ∈ links ↔ Declares activities precedence i j := by
  unfold declaredLinks at declared
  extract_lets names place at declared
  have placed (name source : String) (k : Nat) : place name source = .ok k ↔ names.idxOf? name = some k := by
    simp only [place]
    cases names.idxOf? name <;> simp
  have paired {before after : String} {source source' : String} {pair : Nat × Nat} :
      (do return (← place before source, ← place after source') : Except (ScheduleError R) (Nat × Nat)) = .ok pair ↔
        names.idxOf? before = some pair.1 ∧ names.idxOf? after = some pair.2 := by
    rw [← placed before source, ← placed after source']
    obtain ⟨a, b⟩ := pair
    cases place before source <;> cases place after source' <;> simp [bind, Except.bind, pure, Except.pure]
  obtain ⟨own, owned, rest⟩ := Lists.bind_eq_ok declared
  obtain ⟨apart, listed, rest⟩ := Lists.bind_eq_ok rest
  cases rest
  rw [Lists.flatMapM_eq] at owned
  obtain ⟨parts, each, rfl⟩ := Lists.map_eq_ok owned
  rw [List.mem_eraseDups, List.mem_append, List.mem_flatten, Lists.mem_iff_of_mapM listed]
  simp only [paired]
  constructor
  · rintro (⟨part, among, member⟩ | ⟨link, member, first, second⟩)
    · obtain ⟨activity, here, found⟩ := (Lists.mem_iff_of_mapM each).1 among
      obtain ⟨before, listed, pair⟩ := (Lists.mem_iff_of_mapM found).1 member
      obtain ⟨first, second⟩ := paired.1 pair
      exact .own here listed first second
    · exact .apart member first second
  · rintro (⟨here, among, first, second⟩ | ⟨member, first, second⟩)
    · obtain ⟨part, listed, found⟩ := Lists.exists_of_mapM each here
      exact .inl ⟨part, listed, (Lists.mem_iff_of_mapM found).2 ⟨_, among, paired.2 ⟨first, second⟩⟩⟩
    · exact .inr ⟨_, member, first, second⟩

/-- Links lead from one of the activities to another. -/
theorem links_lt (declared : declaredLinks activities precedence = .ok links) {i j : Nat} (member : (i, j) ∈ links) :
    i < activities.length ∧ j < activities.length := by
  have inside {name : String} {k : Nat} (found : (activities.map Activity.name).idxOf? name = some k) :
      k < activities.length := by
    obtain ⟨below, _⟩ := List.idxOf?_eq_some_iff.1 found
    simpa using below
  cases (mem_links_iff declared).1 member with
  | own _ _ first second => exact ⟨inside first, inside second⟩
  | apart _ first second => exact ⟨inside first, inside second⟩

/-- As long as some activities are left, one of them has no predecessor among them. -/
theorem Built.exists_ready (built : Built activities precedence network) {placed : Nat → Prop} {i : Nat}
    (inside : i < activities.length) (left : ¬ placed i) :
    ∃ j < activities.length, ¬ placed j ∧ ∀ p ∈ network.predecessors j, placed p := by
  have listed : i ∈ network.order := built.order ▸ mem_walkOrder.2 inside
  obtain ⟨j, member, ready⟩ := exists_ready_of_misplaced? built.fits (by simp) listed left
  rw [built.order] at member
  exact ⟨j, mem_walkOrder.1 member, ready⟩

end Deliberation.Network
