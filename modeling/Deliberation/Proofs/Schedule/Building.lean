import Deliberation.Proofs.Constraint.Choice
import Deliberation.Proofs.Schedule.Closing

/-!
What becomes of declared activities and links. There is a network of them exactly when the names are
different, every name that is referred to is declared, and no activity comes before itself; it has the
declared links, in both directions, and its order follows them. A cycle that is reported is one of
declared links.
-/

open Relation (ReflTransGen TransGen)

namespace Deliberation.Network

variable {R : Type} {activities : List (Activity R)} {precedence : List Precedence} {links : List (Nat × Nat)}

/-- A declared link: an activity lists its predecessor, or the two are linked apart. -/
inductive Follows (activities : List (Activity R)) (precedence : List Precedence) (before after : String) : Prop
  | own {activity : Activity R} (member : activity ∈ activities) (named : activity.name = after)
      (among : before ∈ activity.predecessors) : Follows activities precedence before after
  | apart {link : Precedence} (member : link ∈ precedence) (first : link.before = before) (second : link.after = after) :
      Follows activities precedence before after

/-- Every name that is referred to is that of an activity. -/
structure Known (activities : List (Activity R)) (precedence : List Precedence) : Prop where
  own : ∀ activity ∈ activities, ∀ before ∈ activity.predecessors, before ∈ activities.map Activity.name
  apart : ∀ link ∈ precedence,
    link.before ∈ activities.map Activity.name ∧ link.after ∈ activities.map Activity.name

/-- No activity comes before itself along declared links. -/
def Acyclic (activities : List (Activity R)) (precedence : List Precedence) : Prop :=
  ∀ name, ¬ TransGen (Follows activities precedence) name name

/-- A network shows the declared links, from either end and each of them once, and its order follows them. -/
structure Represents (activities : List (Activity R)) (precedence : List Precedence) (network : Network) : Prop where
  names : network.names = activities.map Activity.name
  mirrored : ∀ i j, j ∈ network.successors i ↔ i ∈ network.predecessors j
  distinct : ∀ i, (network.predecessors i).Nodup ∧ (network.successors i).Nodup
  declared : ∀ i j, i ∈ network.predecessors j ↔ ∃ before after, network.names[i]? = some before ∧
    network.names[j]? = some after ∧ Follows activities precedence before after
  order : network.order.Perm (List.range activities.length)
  ordered : ∀ i j, i ∈ network.predecessors j → network.order.idxOf i < network.order.idxOf j

/-! ### Names and places -/

theorem idxOf?_eq_some_iff_getElem? {names : List String} (distinct : names.Nodup) {name : String} {i : Nat} :
    names.idxOf? name = some i ↔ names[i]? = some name := by
  rw [List.idxOf?_eq_some_iff]
  constructor
  · rintro ⟨below, here, -⟩
    rw [List.getElem?_eq_getElem below, here]
  · intro there
    obtain ⟨below, here⟩ := List.getElem?_eq_some_iff.1 there
    refine ⟨below, by simp [here], ?_⟩
    intro j earlier
    have apart : names[j] ≠ names[i] := fun same => by
      have := (List.Nodup.getElem_inj_iff distinct).1 same
      omega
    simpa [here] using apart

theorem declares_iff {i j : Nat} : Declares activities precedence i j ↔ ∃ before after,
    (activities.map Activity.name).idxOf? before = some i ∧ (activities.map Activity.name).idxOf? after = some j ∧
      Follows activities precedence before after := by
  constructor
  · rintro (⟨member, among, first, second⟩ | ⟨member, first, second⟩)
    · exact ⟨_, _, first, second, .own member rfl among⟩
    · exact ⟨_, _, first, second, .apart member rfl rfl⟩
  · rintro ⟨before, after, first, second, ⟨member, rfl, among⟩ | ⟨member, rfl, rfl⟩⟩
    · exact .own member among first second
    · exact .apart member first second

theorem Known.place {name other : String} (known : Known activities precedence)
    (follows : Follows activities precedence name other) :
    name ∈ activities.map Activity.name ∧ other ∈ activities.map Activity.name := by
  cases follows with
  | own member named among =>
    subst named
    exact ⟨known.own _ member _ among, List.mem_map_of_mem member⟩
  | apart member first second =>
    subst first second
    exact known.apart _ member

/-- Where links are found, every name is known. -/
theorem known_of_declaredLinks (declared : declaredLinks activities precedence = .ok links) :
    Known activities precedence := by
  unfold declaredLinks at declared
  extract_lets names place at declared
  have placed {name source : String} {i : Nat} (found : place name source = .ok i) : name ∈ names := by
    simp only [place] at found
    split at found
    · next there => exact List.isSome_idxOf?.1 (there ▸ rfl)
    · cases found
  obtain ⟨own, owned, rest⟩ := Lists.bind_eq_ok declared
  obtain ⟨apart, listed, -⟩ := Lists.bind_eq_ok rest
  rw [Lists.flatMapM_eq] at owned
  obtain ⟨parts, each, -⟩ := Lists.map_eq_ok owned
  constructor
  · intro activity member before among
    obtain ⟨part, -, found⟩ := Lists.exists_of_mapM each member
    obtain ⟨pair, -, linked⟩ := Lists.exists_of_mapM found among
    obtain ⟨i, first, -⟩ := Lists.bind_eq_ok linked
    exact placed first
  · intro link member
    obtain ⟨pair, -, linked⟩ := Lists.exists_of_mapM listed member
    obtain ⟨i, first, linked⟩ := Lists.bind_eq_ok linked
    obtain ⟨j, second, -⟩ := Lists.bind_eq_ok linked
    exact ⟨placed first, placed second⟩

/-- Where no links are found, some name is not known, and it is reported. -/
theorem unknown_of_declaredLinks {fault : ScheduleError R} (failed : declaredLinks activities precedence = .error fault) :
    ¬ Known activities precedence ∧ ∃ reference source, fault = .unknownActivity reference source := by
  unfold declaredLinks at failed
  extract_lets names place at failed
  have refused {name source : String} {fault : ScheduleError R} (failed : place name source = .error fault) :
      name ∉ names ∧ ∃ reference source, fault = .unknownActivity reference source := by
    simp only [place] at failed
    split at failed
    · cases failed
    · next absent =>
      cases failed
      exact ⟨by simpa using absent, name, source, rfl⟩
  rcases Lists.bind_eq_error failed with owned | ⟨own, -, failed⟩
  · rw [Lists.flatMapM_eq] at owned
    obtain ⟨activity, member, failed⟩ := Lists.exists_error_of_mapM (Lists.map_eq_error owned)
    obtain ⟨before, among, failed⟩ := Lists.exists_error_of_mapM failed
    rcases Lists.bind_eq_error failed with first | ⟨i, -, failed⟩
    · exact (refused first).imp_left fun absent known => absent (known.own activity member before among)
    · rcases Lists.bind_eq_error failed with second | ⟨j, -, impossible⟩
      · exact ((refused second).1 (List.mem_map_of_mem member)).elim
      · cases impossible
  · rcases Lists.bind_eq_error failed with listed | ⟨apart, -, impossible⟩
    · obtain ⟨link, member, failed⟩ := Lists.exists_error_of_mapM listed
      rcases Lists.bind_eq_error failed with first | ⟨i, -, failed⟩
      · exact (refused first).imp_left fun absent known => absent (known.apart link member).1
      · rcases Lists.bind_eq_error failed with second | ⟨j, -, impossible⟩
        · exact (refused second).imp_left fun absent known => absent (known.apart link member).2
        · cases impossible
    · cases impossible

theorem nodup_declaredLinks (declared : declaredLinks activities precedence = .ok links) : links.Nodup := by
  unfold declaredLinks at declared
  obtain ⟨own, -, rest⟩ := Lists.bind_eq_ok declared
  obtain ⟨apart, -, rest⟩ := Lists.bind_eq_ok rest
  cases rest
  exact Lists.nodup_eraseDups _

/-! ### Cycles of places and of names -/

/-- The activities at some places. -/
def namedPlaces (activities : List (Activity R)) (places : List Nat) : List String :=
  places.map fun i => (activities.map Activity.name).getD i ""

theorem follows_of_link (declared : declaredLinks activities precedence = .ok links) {i j : Nat} (link : (i, j) ∈ links) :
    Follows activities precedence ((activities.map Activity.name).getD i "") ((activities.map Activity.name).getD j "") := by
  obtain ⟨before, after, first, second, follows⟩ := declares_iff.1 ((mem_links_iff declared).1 link)
  have named {name : String} {k : Nat} (found : (activities.map Activity.name).idxOf? name = some k) :
      (activities.map Activity.name).getD k "" = name := by
    obtain ⟨below, here, -⟩ := List.idxOf?_eq_some_iff.1 found
    rw [List.getD_eq_getElem?_getD, List.getElem?_eq_getElem below, here]
    rfl
  rwa [named first, named second]

/-- Links lead in a circle exactly when names do. -/
theorem acyclic_iff (declared : declaredLinks activities precedence = .ok links) :
    Acyclic activities precedence ↔ ∀ i, ¬ TransGen (fun i j => (i, j) ∈ links) i i := by
  constructor
  · intro acyclic i cycle
    exact acyclic _ (cycle.lift _ fun a b link => follows_of_link declared link)
  · intro acyclic name cycle
    let place (name : String) : Nat := ((activities.map Activity.name).idxOf? name).getD 0
    refine acyclic (place name) (cycle.lift place fun before after follows => ?_)
    have placed {name : String} (member : name ∈ activities.map Activity.name) :
        (activities.map Activity.name).idxOf? name = some (place name) := by
      obtain ⟨i, found⟩ := Option.isSome_iff_exists.1 (List.isSome_idxOf?.2 member)
      simp only [place, found, Option.getD_some]
    obtain ⟨first, second⟩ := (known_of_declaredLinks declared).place follows
    exact (mem_links_iff declared).2 (declares_iff.2 ⟨before, after, placed first, placed second, follows⟩)

theorem getD_inj {names : List String} (distinct : names.Nodup) {i j : Nat} (first : i < names.length)
    (second : j < names.length) (same : names.getD i "" = names.getD j "") : i = j := by
  simp only [List.getD_eq_getElem?_getD, List.getElem?_eq_getElem, first, second, Option.getD_some] at same
  exact (distinct.getElem_inj_iff).1 same

theorem exists_next_of_isChain {α : Type} {follows : α → α → Prop} {l : List α} {last a : α}
    (chain : (l ++ [last]).IsChain follows) (member : a ∈ l) : ∃ b, follows a b := by
  obtain ⟨front, back, rfl⟩ := List.append_of_mem member
  rw [List.append_assoc, List.cons_append] at chain
  have onward := (List.isChain_append.1 chain).2.1
  cases back with
  | nil => exact ⟨last, (List.isChain_cons_cons.1 onward).1⟩
  | cons b back => exact ⟨b, (List.isChain_cons_cons.1 onward).1⟩

/-- A cycle of places is one of names, where the names are different. -/
theorem closes_namedPlaces (distinct : (activities.map Activity.name).Nodup)
    (declared : declaredLinks activities precedence = .ok links) {cycle : List Nat}
    (closes : Closes (fun i j => (i, j) ∈ links) cycle) :
    Closes (Follows activities precedence) (namedPlaces activities cycle) := by
  obtain ⟨start, rest, rfl, apart, chain⟩ := closes
  refine ⟨(activities.map Activity.name).getD start "", namedPlaces activities rest, by simp [namedPlaces], ?_, ?_⟩
  · have inside : ∀ i ∈ start :: rest, i < (activities.map Activity.name).length := by
      intro i member
      obtain ⟨j, link⟩ := exists_next_of_isChain chain member
      simpa using (links_lt declared link).1
    exact apart.map_on fun i first j second same => getD_inj distinct (inside i first) (inside j second) same
  · exact List.isChain_map_of_isChain _ (fun i j link => follows_of_link declared link) chain

/-! ### Outcomes -/

/-- What can become of declared activities and links. -/
inductive Outcome (activities : List (Activity R)) (precedence : List Precedence) :
    Except (ScheduleError R) Network → Prop
  | repeated {name : String} (twice : ¬ (activities.map Activity.name).Nodup) :
      Outcome activities precedence (.error (.duplicateActivity name))
  | unknown {reference source : String} (missing : ¬ Known activities precedence) :
      Outcome activities precedence (.error (.unknownActivity reference source))
  | cyclic {cycle : List String} (circular : ¬ Acyclic activities precedence)
      (closes : Closes (Follows activities precedence) cycle) : Outcome activities precedence (.error (.cycle cycle))
  | built {network : Network} (distinct : (activities.map Activity.name).Nodup) (known : Known activities precedence)
      (acyclic : Acyclic activities precedence) (represents : Represents activities precedence network) :
      Outcome activities precedence (.ok network)

theorem represents_of_misplaced? (distinct : (activities.map Activity.name).Nodup)
    (declared : declaredLinks activities precedence = .ok links)
    (fits : misplaced? links [] (walkOrder activities.length links) = none) :
    Represents activities precedence ⟨activities.map Activity.name, links, walkOrder activities.length links⟩ where
  names := rfl
  mirrored i j := mem_successorsIn.trans mem_predecessorsIn.symm
  distinct i := ⟨nodup_predecessorsIn (nodup_declaredLinks declared) i, nodup_successorsIn (nodup_declaredLinks declared) i⟩
  declared i j := by
    refine mem_predecessorsIn.trans ((mem_links_iff declared).trans (declares_iff.trans ?_))
    simp only [idxOf?_eq_some_iff_getElem? distinct]
  order := perm_walkOrder fun i j link => (links_lt declared link).2
  ordered i j before := by
    have link := mem_predecessorsIn.1 before
    exact idxOf_lt_of_misplaced? fits (mem_walkOrder.2 (links_lt declared link).2) link

/-- A network is built of what can be built, and otherwise the error says what is wrong. -/
theorem outcome_build (activities : List (Activity R)) (precedence : List Precedence) :
    Outcome activities precedence (build activities precedence) := by
  rw [build]
  simp only [bind, Except.bind, pure, Except.pure, throw, throwThe, MonadExceptOf.throw, List.length_map]
  split
  · next name twice =>
    refine .repeated fun distinct => ?_
    rw [firstRepeated?_eq_none_iff.2 ⟨distinct, by simp⟩] at twice
    cases twice
  next once =>
  obtain ⟨distinct, -⟩ := firstRepeated?_eq_none_iff.1 once
  split
  · next fault failed =>
    obtain ⟨missing, reference, source, rfl⟩ := unknown_of_declaredLinks failed
    exact .unknown missing
  next links declared =>
  have circular {i : Nat} (cycle : TransGen (fun i j => (i, j) ∈ links) i i) : ¬ Acyclic activities precedence :=
    fun acyclic => (acyclic_iff declared).1 acyclic i cycle
  split
  · next i found =>
    have loop : (i, i) ∈ links := by simpa using List.find?_some found
    have closes : Closes (fun i j => (i, j) ∈ links) [i, i] := ⟨i, [], rfl, by simp, by simp [loop]⟩
    exact .cyclic (circular (.single loop)) (closes_namedPlaces distinct declared closes)
  next =>
  have within (i j : Nat) (link : (i, j) ∈ links) := links_lt declared link
  split
  · next start found =>
    have cycle := cyclic_of_misplaced? within found
    have closes := closes_cycleThrough (nodup_declaredLinks declared) within cycle
    exact .cyclic (circular cycle) (closes_namedPlaces distinct declared closes)
  · next fits =>
    have acyclic := acyclic_of_misplaced? fits fun i j link => mem_walkOrder.2 (within i j link).2
    exact .built distinct (known_of_declaredLinks declared) ((acyclic_iff declared).2 acyclic)
      (represents_of_misplaced? distinct declared fits)

/-- There is a network exactly when names are different and known and no activity comes before itself. It
shows the declared links and has an order along them; a cycle that is reported instead is one of declared
links. -/
theorem build_decides (activities : List (Activity R)) (precedence : List Precedence) :
    ((∃ network, build activities precedence = .ok network) ↔
      (activities.map Activity.name).Nodup ∧ Known activities precedence ∧ Acyclic activities precedence) ∧
    (∀ network, build activities precedence = .ok network → Represents activities precedence network) ∧
    ∀ cycle, build activities precedence = .error (.cycle cycle) → Closes (Follows activities precedence) cycle := by
  have outcome := outcome_build activities precedence
  generalize build activities precedence = result at outcome
  cases outcome with
  | repeated twice => simp [twice]
  | unknown missing => simp [missing]
  | cyclic circular closes => simp [circular, closes]
  | built distinct known acyclic represents => simp [distinct, known, acyclic, represents]

/-- Three activities that wait for each other in a ring, behind one that does not. -/
def ring : List (Activity Rat) :=
  [⟨"start", 1, none, [], [], true⟩, ⟨"x", 1, none, [], ["start", "z"], true⟩, ⟨"y", 1, none, [], ["x"], true⟩,
    ⟨"z", 1, none, [], ["y"], true⟩]

theorem ring_closes : build ring [] = .error (.cycle ["z", "x", "y", "z"]) ∧
    Closes (Follows ring []) ["z", "x", "y", "z"] := by
  have reported : build ring [] = .error (.cycle ["z", "x", "y", "z"]) := by rfl
  exact ⟨reported, (build_decides ring []).2.2 _ reported⟩

end Deliberation.Network
