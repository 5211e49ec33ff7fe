import Deliberation.Proofs.Constraint.Choice
import Deliberation.Proofs.Constraint.State

/-!
Propagation loses no solution: a value dies only when no solution with the values given so far has
it, and a state is given up only when no solution has these values.
-/

namespace Deliberation.ConstraintSearch

variable {R : Type} [Scalar R] {problem : Problem R} {state next : State} {pick : Nat → Nat}

namespace State

/-- Picked positions are those of the values given so far. -/
def Agrees (state : State) (pick : Nat → Nat) : Prop :=
  ∀ place value, state.given place = some value → pick place = value

/-- Picked positions are those of the values given so far, and alive. -/
structure Admits (problem : Problem R) (state : State) (pick : Nat → Nat) : Prop where
  agrees : state.Agrees pick
  alive : ∀ place < problem.values.size, state.isAlive place (pick place) = true

theorem isOpen_eq_false_iff {place : Nat} : state.isOpen place = false ↔ ∃ value, state.given place = some value := by
  rw [isOpen, ← given]
  cases state.given place <;> simp

theorem isOpen_eq_true_iff {place : Nat} : state.isOpen place = true ↔ state.given place = none := by
  rw [isOpen, ← given]
  cases state.given place <;> simp

theorem given_assign {place other : Nat} {value : Option Nat} (inside : place < state.assigned.size) :
    (state.assign place value).given other = if other = place then value else state.given other := by
  rw [given, assign, Array.getElem?_setIfInBounds]
  by_cases same : other = place
  · subst same
    simp [inside]
  · have apart : ¬ place = other := fun equal => same equal.symm
    simp [same, apart, given]

theorem Agrees.assign {place : Nat} (agrees : state.Agrees pick) (inside : place < state.assigned.size) :
    (state.assign place (some (pick place))).Agrees pick := by
  intro other value stored
  rw [given_assign inside] at stored
  split at stored
  · next same => rw [same, Option.some.inj stored]
  · exact agrees other value stored

end State

omit [Scalar R] in
theorem env_given {name : String} {place value : Nat} (found : problem.places.get? name = some place)
    (stored : state.given place = some value) : problem.env state.assigned name = problem.value? place value := by
  have read : (state.assigned[place]?).getD none = some value := stored
  simp [Problem.env, found, read]

omit [Scalar R] in
/-- The values given so far are among the picked ones. -/
theorem picked_extends (agrees : state.Agrees pick) : (problem.picked pick).Extends (problem.env state.assigned) := by
  intro name value stored
  obtain ⟨place, found, stored⟩ := Option.bind_eq_some_iff.1 stored
  obtain ⟨position, there, stored⟩ := Option.bind_eq_some_iff.1 stored
  rw [Problem.picked, found, ← stored]
  exact congrArg (problem.value? place) (agrees place position there)

/-- A constraint whose variables have values is judged by them. -/
theorem holds_env_eq (proper : problem.Proper) (agrees : state.Agrees pick) {c : Placed R}
    (member : c ∈ problem.hard ++ problem.soft) (decided : ∀ place ∈ c.places, state.isOpen place = false) :
    c.constraint.holds (problem.env state.assigned) = c.constraint.holds (problem.picked pick) := by
  refine Constraint.holds_congr fun name mentioned => ?_
  obtain ⟨place, listed, found⟩ := proper.covers c member name mentioned
  obtain ⟨value, stored⟩ := State.isOpen_eq_false_iff.1 (decided place listed)
  rw [env_given found stored, Problem.picked, found, ← agrees place value stored]
  rfl

theorem Placed.holds_eq_ok_iff {c : Placed R} {verdict : Bool} : c.holds problem state = .ok verdict ↔
    ∃ found, c.constraint.holds (problem.env state.assigned) = .ok found ∧ verdict = (found == some true) := by
  rw [Placed.holds]
  cases c.constraint.holds (problem.env state.assigned) <;> simp [bind, Except.bind, pure, Except.pure, eq_comm]

theorem Placed.holds_eq_true_iff {c : Placed R} : c.holds problem state = .ok true ↔
    c.constraint.holds (problem.env state.assigned) = .ok (some true) := by
  rw [Placed.holds_eq_ok_iff]
  constructor
  · rintro ⟨found, holds, same⟩
    rw [holds, beq_iff_eq.1 same.symm]
  · exact fun holds => ⟨_, holds, rfl⟩

theorem Placed.not_holds_of_false {c : Placed R} (failed : c.holds problem state = .ok false) :
    c.constraint.holds (problem.env state.assigned) ≠ .ok (some true) := by
  intro holds
  rw [Placed.holds_eq_true_iff.2 holds] at failed
  simp at failed

/-- A constraint that does not hold for given values excludes every solution with these values. -/
theorem Problem.Solves.not_agrees (proper : problem.Proper) (solves : problem.Solves pick) {c : Placed R}
    (member : c ∈ problem.hard) (decided : ∀ place ∈ c.places, state.isOpen place = false)
    (failed : c.holds problem state = .ok false) : ¬ state.Agrees pick := by
  intro agrees
  refine Placed.not_holds_of_false failed ?_
  rw [holds_env_eq proper agrees (List.mem_append_left _ member) decided]
  exact solves.holds c member

/-- What a search keeps true of its states. -/
structure Problem.Sound (problem : Problem R) (state : State) : Prop where
  size : state.assigned.size = problem.values.size
  inside : ∀ place value, state.given place = some value → value < problem.domainSize place
  admits : ∀ pick, problem.Solves pick → state.Agrees pick → state.Admits problem pick
  checked : ∀ c ∈ problem.hard, (∀ place ∈ c.places, state.isOpen place = false) →
    c.constraint.holds (problem.env state.assigned) = .ok (some true)

section Consistency

theorem consistent_true {cs : List (Placed R)} (passed : consistent problem state cs = .ok true) :
    ∀ c ∈ cs, (∀ place ∈ c.places, state.isOpen place = false) →
      c.constraint.holds (problem.env state.assigned) = .ok (some true) := by
  induction cs with
  | nil => simp
  | cons c rest ih =>
    rw [consistent] at passed
    by_cases vacant : c.places.any state.isOpen = true
    · rw [if_pos vacant] at passed
      intro other member decided
      rcases List.mem_cons.1 member with rfl | member
      · obtain ⟨place, listed, free⟩ := List.any_eq_true.1 vacant
        rw [decided place listed] at free
        cases free
      · exact ih passed other member decided
    · rw [if_neg vacant] at passed
      cases verdict : c.holds problem state with
      | error reason => simp [verdict, bind, Except.bind] at passed
      | ok holds =>
        cases holds with
        | false => simp [verdict, bind, Except.bind, pure, Except.pure] at passed
        | true =>
          have later : consistent problem state rest = .ok true := by simpa [verdict, bind, Except.bind] using passed
          intro other member decided
          rcases List.mem_cons.1 member with rfl | member
          · exact Placed.holds_eq_true_iff.1 verdict
          · exact ih later other member decided

theorem consistent_false {cs : List (Placed R)} (failed : consistent problem state cs = .ok false) :
    ∃ c ∈ cs, (∀ place ∈ c.places, state.isOpen place = false) ∧ c.holds problem state = .ok false := by
  induction cs with
  | nil => simp [consistent] at failed
  | cons c rest ih =>
    rw [consistent] at failed
    by_cases vacant : c.places.any state.isOpen = true
    · rw [if_pos vacant] at failed
      obtain ⟨other, member, found⟩ := ih failed
      exact ⟨other, List.mem_cons_of_mem _ member, found⟩
    · rw [if_neg vacant] at failed
      cases verdict : c.holds problem state with
      | error reason => simp [verdict, bind, Except.bind] at failed
      | ok holds =>
        cases holds with
        | false => exact ⟨c, by simp, by simpa using vacant, verdict⟩
        | true =>
          have later : consistent problem state rest = .ok false := by simpa [verdict, bind, Except.bind] using failed
          obtain ⟨other, member, found⟩ := ih later
          exact ⟨other, List.mem_cons_of_mem _ member, found⟩

end Consistency

section Pruning

/-- Values are killed that no solution has, and the trail knows of all of them. -/
structure Prunes (problem : Problem R) (state next : State) : Prop where
  assigned : next.assigned = state.assigned
  since : ∀ base, State.Since base state → State.Since base next
  admits : ∀ pick, problem.Solves pick → state.Admits problem pick → next.Admits problem pick

theorem Prunes.refl (problem : Problem R) (state : State) : Prunes problem state state :=
  ⟨rfl, fun _ => id, fun _ _ => id⟩

theorem Prunes.trans {middle : State} (first : Prunes problem state middle) (second : Prunes problem middle next) :
    Prunes problem state next :=
  ⟨second.assigned.trans first.assigned, fun base since => second.since base (first.since base since),
    fun pick solves admits => second.admits pick solves (first.admits pick solves admits)⟩

/-- One value of the only open variable of a constraint may be killed when the constraint fails for it. -/
theorem prunes_prune (proper : problem.Proper) (size : state.assigned.size = problem.values.size) {c : Placed R}
    (member : c ∈ problem.hard) {place value : Nat} (inside : place < problem.values.size)
    (decided : ∀ other ∈ c.places, other ≠ place → state.isOpen other = false)
    (live : state.isAlive place value = true) (failed : c.holds problem (state.assign place (some value)) = .ok false) :
    Prunes problem state (state.prune place value) := by
  refine ⟨rfl, fun base since => since.prune live, fun pick solves admits => ⟨admits.agrees, fun other among => ?_⟩⟩
  refine State.isAlive_prune.2 ⟨admits.alive other among, fun killed => ?_⟩
  obtain ⟨rfl, rfl⟩ := Prod.mk.inj killed
  refine absurd (admits.agrees.assign (size.symm ▸ inside)) (solves.not_agrees proper member ?_ failed)
  intro third listed
  rw [State.isOpen_eq_false_iff, State.given_assign (size.symm ▸ inside)]
  by_cases same : third = other
  · exact ⟨_, if_pos same⟩
  · rw [if_neg same]
    exact State.isOpen_eq_false_iff.1 (decided third listed same)

theorem pruneValues_prunes (proper : problem.Proper) {c : Placed R} (member : c ∈ problem.hard) {place : Nat}
    (inside : place < problem.values.size) {remaining value : Nat} (size : state.assigned.size = problem.values.size)
    (decided : ∀ other ∈ c.places, other ≠ place → state.isOpen other = false)
    (pruned : pruneValues problem c place remaining value state = .ok next) : Prunes problem state next := by
  induction remaining generalizing value state with
  | zero =>
    rw [pruneValues, Except.ok.injEq] at pruned
    exact pruned ▸ .refl problem state
  | succ remaining ih =>
    rw [pruneValues] at pruned
    cases live : state.isAlive place value with
    | false =>
      simp only [live, Bool.not_false, if_true] at pruned
      exact ih size decided pruned
    | true =>
      simp only [live, Bool.not_true, Bool.false_eq_true, if_false] at pruned
      cases verdict : c.holds problem (state.assign place (some value)) with
      | error reason => simp [verdict, bind, Except.bind] at pruned
      | ok holds =>
        cases holds with
        | true =>
          simp only [verdict, bind, Except.bind, if_true] at pruned
          exact ih size decided pruned
        | false =>
          simp only [verdict, bind, Except.bind, Bool.false_eq_true, if_false] at pruned
          have first := prunes_prune proper size member inside decided live verdict
          exact first.trans (ih size decided pruned)

omit [Scalar R] in
theorem not_admits_of_liveCount {place : Nat} (inside : place < problem.values.size)
    (dead : state.liveCount place = 0) : ¬ state.Admits problem pick := by
  intro admits
  have alive := State.isAlive_iff.1 (admits.alive place inside)
  obtain ⟨row, there, entry⟩ := Option.bind_eq_some_iff.1 alive
  have listed : true ∈ row := Array.mem_of_getElem? entry
  have positive := Array.count_pos_iff.2 listed
  have own : state.alive[place]? = some row := there
  rw [State.liveCount, own] at dead
  simp only [Option.map_some, Option.getD_some] at dead
  omega

/-- Forward checking keeps every solution, and gives up only where there is none. -/
theorem forwardCheck_prunes (proper : problem.Proper) {cs : List (Placed R)} (members : ∀ c ∈ cs, c ∈ problem.hard)
    (size : state.assigned.size = problem.values.size) {passed : Bool}
    (checked : forwardCheck problem cs state = .ok (passed, next)) :
    Prunes problem state next ∧ (passed = false → ∀ pick, problem.Solves pick → ¬ state.Admits problem pick) := by
  induction cs generalizing state with
  | nil =>
    rw [forwardCheck, Except.ok.injEq, Prod.mk.injEq] at checked
    obtain ⟨rfl, rfl⟩ := checked
    exact ⟨.refl problem _, fun failed => by cases failed⟩
  | cons c rest ih =>
    simp only [List.forall_mem_cons] at members
    rw [forwardCheck] at checked
    split at checked
    · next place only =>
      have among : place ∈ c.places.filter state.isOpen := by simp [only]
      have inside := proper.inside c (List.mem_append_left _ members.1) place (List.mem_filter.1 among).1
      have decided : ∀ other ∈ c.places, other ≠ place → state.isOpen other = false := by
        intro other listed apart
        by_contra vacant
        have member : other ∈ c.places.filter state.isOpen := List.mem_filter.2 ⟨listed, by simpa using vacant⟩
        rw [only, List.mem_singleton] at member
        exact apart member
      cases pruned : pruneValues problem c place (problem.domainSize place) 0 state with
      | error reason => simp [pruned, bind, Except.bind] at checked
      | ok middle =>
        have first := pruneValues_prunes proper members.1 inside size decided pruned
        by_cases dead : middle.liveCount place = 0
        · simp only [pruned, bind, Except.bind, dead, if_true, pure, Except.pure, Except.ok.injEq, Prod.mk.injEq]
            at checked
          obtain ⟨rfl, rfl⟩ := checked
          exact ⟨first, fun _ pick solves admits => not_admits_of_liveCount inside dead (first.admits pick solves admits)⟩
        · simp only [pruned, bind, Except.bind, dead, if_false] at checked
          have sized : middle.assigned.size = problem.values.size := first.assigned.symm ▸ size
          obtain ⟨second, refuted⟩ := ih members.2 sized checked
          exact ⟨first.trans second, fun failed pick solves admits =>
            refuted failed pick solves (first.admits pick solves admits)⟩
    · exact ih members.2 size checked

end Pruning

end Deliberation.ConstraintSearch
