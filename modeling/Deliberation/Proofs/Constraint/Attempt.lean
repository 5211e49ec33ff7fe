import Deliberation.Proofs.Constraint.Propagation

/-!
How the states of a search come about: one to start from, and from each state those that a value of an
open variable leads to. All of them are sound.
-/

namespace Deliberation.ConstraintSearch

variable {R : Type} [Scalar R] {problem : Problem R} {state next : State} {pick : Nat → Nat}

section Start

/-- Where no variable has a value, those of a constraint's single variable can be judged one by one. -/
private theorem holds_of_single (proper : problem.Proper) (solves : problem.Solves pick)
    (empty : ∀ place, state.given place = none) (size : state.assigned.size = problem.values.size) {c : Placed R}
    (member : c ∈ problem.hard) {place : Nat} (only : c.places = [place]) :
    c.holds problem (state.assign place (some (pick place))) = .ok true := by
  have inside := proper.inside c (List.mem_append_left _ member) place (by simp [only])
  have agrees : state.Agrees pick := fun other value stored => by simp [empty other] at stored
  rw [Placed.holds_eq_true_iff, holds_env_eq proper (agrees.assign (size.symm ▸ inside)) (List.mem_append_left _ member)]
  · exact solves.holds c member
  · intro other listed
    rw [only, List.mem_singleton] at listed
    rw [State.isOpen_eq_false_iff, State.given_assign (size.symm ▸ inside)]
    exact ⟨_, if_pos listed⟩

omit [Scalar R] in
theorem isAlive_keepOnly {place other value : Nat} {verdicts : List Bool} :
    (keepOnly state place verdicts).isAlive other value = true ↔
      state.isAlive other value = true ∧ (other = place → verdicts[value]? = some true) := by
  simp only [State.isAlive_iff, State.liveIn, keepOnly, Array.getElem?_modify]
  by_cases same : place = other
  · subst same
    cases state.alive[place]? with
    | none => simp
    | some row =>
      simp only [if_true, Option.map_some, Option.bind_some, Array.getElem?_zipWith, List.getElem?_toArray]
      cases row[value]? <;> cases verdicts[value]? <;> simp
  · rw [if_neg same]
    exact (and_iff_left fun equal => absurd equal.symm same).symm

/-- Values that a constraint on one variable excludes are in no solution. -/
private theorem keepOnly_admits (proper : problem.Proper) (solves : problem.Solves pick)
    (empty : ∀ place, state.given place = none) (size : state.assigned.size = problem.values.size) {c : Placed R}
    (member : c ∈ problem.hard) {place : Nat} (only : c.places = [place]) {verdicts : List Bool}
    (judged : c.verdicts problem state place = .ok verdicts) (admits : state.Admits problem pick) :
    (keepOnly state place verdicts).Admits problem pick := by
  have each := Lists.mapM_eq_ok_iff.1 judged
  refine ⟨admits.agrees, fun other inside => isAlive_keepOnly.2 ⟨admits.alive other inside, fun same => ?_⟩⟩
  subst same
  have range := List.getElem?_range (solves.picks other inside)
  obtain ⟨first, _⟩ := List.getElem?_eq_some_iff.1 range
  have second : pick other < verdicts.length := each.length_eq ▸ first
  have verdict := each.get first second
  rw [List.get_eq_getElem, List.getElem_range] at verdict
  rw [holds_of_single proper solves empty size member only, Except.ok.injEq] at verdict
  simpa [second] using verdict.symm

/-- What has come of making constraints consistent: no solution is lost, and where a state is given up there
is none. -/
def Readied (problem : Problem R) (cs : List (Placed R)) (state : State) : Option State → Prop
  | none => ∀ pick, problem.Solves pick → ¬ state.Admits problem pick
  | some next => next.assigned = state.assigned ∧
      (∀ pick, problem.Solves pick → state.Admits problem pick → next.Admits problem pick) ∧
      ∀ c ∈ cs, c.places = [] → c.constraint.holds (problem.env state.assigned) = .ok (some true)

/-- One more constraint is made consistent before the others. -/
theorem Readied.cons {middle : State} {c : Placed R} {rest : List (Placed R)} {result : Option State}
    (later : Readied problem rest middle result) (assigned : middle.assigned = state.assigned)
    (admits : ∀ pick, problem.Solves pick → state.Admits problem pick → middle.Admits problem pick)
    (constant : c.places = [] → c.constraint.holds (problem.env state.assigned) = .ok (some true)) :
    Readied problem (c :: rest) state result := by
  cases result with
  | none => exact fun pick solves admitted => later pick solves (admits pick solves admitted)
  | some next =>
    obtain ⟨same, kept, holds⟩ := later
    refine ⟨same.trans assigned, fun pick solves admitted => kept pick solves (admits pick solves admitted), ?_⟩
    intro other listed free
    rcases List.mem_cons.1 listed with rfl | listed
    · exact constant free
    · rw [← assigned]
      exact holds other listed free

theorem nodeConsistent_readied (proper : problem.Proper) {cs : List (Placed R)} (members : ∀ c ∈ cs, c ∈ problem.hard)
    (empty : ∀ place, state.given place = none) (size : state.assigned.size = problem.values.size)
    {result : Option State} (made : nodeConsistent problem cs state = .ok result) : Readied problem cs state result := by
  induction cs generalizing state with
  | nil =>
    rw [nodeConsistent, Except.ok.injEq] at made
    subst made
    exact ⟨rfl, fun _ _ => id, by simp⟩
  | cons c rest ih =>
    simp only [List.forall_mem_cons] at members
    rw [nodeConsistent] at made
    split at made
    · next none =>
      obtain ⟨holds, verdict, made⟩ := Lists.bind_eq_ok made
      cases holds with
      | false =>
        cases made
        intro pick solves admits
        exact solves.not_agrees proper members.1 (by simp [none]) verdict admits.agrees
      | true => exact (ih members.2 empty size made).cons rfl (fun _ _ => id) fun _ => Placed.holds_eq_true_iff.1 verdict
    · next place only =>
      obtain ⟨verdicts, judged, made⟩ := Lists.bind_eq_ok made
      have admits : ∀ pick, problem.Solves pick → state.Admits problem pick →
          (keepOnly state place verdicts).Admits problem pick := fun pick solves =>
        keepOnly_admits proper solves empty size members.1 only judged
      dsimp only at made
      by_cases dead : (keepOnly state place verdicts).liveCount place = 0
      · rw [if_pos dead] at made
        cases made
        intro pick solves admitted
        have inside := proper.inside c (List.mem_append_left _ members.1) place (by simp [only])
        exact not_admits_of_liveCount inside dead (admits pick solves admitted)
      · rw [if_neg dead] at made
        have vacant : ∀ other, (keepOnly state place verdicts).given other = none := empty
        have later := ih members.2 vacant size made
        exact later.cons rfl admits fun free => by rw [only] at free; cases free
    · next some several =>
      exact (ih members.2 empty size made).cons rfl (fun _ _ => id) fun free => absurd free some

omit [Scalar R] in
theorem given_start (problem : Problem R) (place : Nat) : problem.start.given place = none := by
  rw [State.given, Problem.start, Array.getElem?_replicate]
  split <;> rfl

omit [Scalar R] in
theorem start_admits (picks : problem.Picks pick) : problem.start.Admits problem pick := by
  refine ⟨fun place value stored => by simp [given_start] at stored, fun place inside => State.isAlive_iff.2 ?_⟩
  have within := picks place inside
  have row : problem.values[place]? = some problem.values[place] := Array.getElem?_eq_getElem inside
  rw [Problem.domainSize, row, Option.map_some, Option.getD_some] at within
  simp [State.liveIn, Problem.start, row, within]

/-- Every search starts soundly. -/
theorem start_sound (proper : problem.Proper) {result : Option State}
    (made : nodeConsistent problem problem.hard problem.start = .ok result) :
    match result with
    | none => ∀ pick, ¬ problem.Solves pick
    | some next => problem.Sound next ∧ ∀ place, next.given place = none := by
  have size : problem.start.assigned.size = problem.values.size := by simp [Problem.start]
  have sound := nodeConsistent_readied proper (fun _ => id) (given_start problem) size made
  cases result with
  | none => exact fun pick solves => sound pick solves (start_admits solves.picks)
  | some next =>
    obtain ⟨assigned, admits, constant⟩ := sound
    have empty : ∀ place, next.given place = none := fun place => by
      rw [State.given, assigned]
      exact given_start problem place
    refine ⟨⟨assigned ▸ size, fun place value stored => ?_, fun pick solves _ => ?_, fun c member decided => ?_⟩, empty⟩
    · rw [empty] at stored
      cases stored
    · exact admits pick solves (start_admits solves.picks)
    · rw [assigned]
      refine constant c member (List.eq_nil_iff_forall_not_mem.2 fun place listed => ?_)
      obtain ⟨value, stored⟩ := State.isOpen_eq_false_iff.1 (decided place listed)
      rw [empty] at stored
      cases stored

end Start

section Attempts

/-- A value is tried: whether it passes the checks, and the state that they leave. -/
def attempt (problem : Problem R) (base : State) (place value : Nat) : Except Abort (Bool × State) := do
  let state := base.assign place (some value)
  if !(← consistent problem state (problem.hardOf place)) then pure (false, state)
  else forwardCheck problem (problem.hardOf place) state

/-- What a value that is tried leads to, with the deaths that can be undone. -/
structure Tried (problem : Problem R) (base : State) (place value : Nat) (passed : Bool) (next : State) : Prop where
  since : State.Since base next
  assigned : next.assigned = (base.assign place (some value)).assigned
  sound : passed = true → problem.Sound next
  refuted : passed = false → ∀ pick, problem.Solves pick → base.Agrees pick → pick place ≠ value

omit [Scalar R] in
theorem given_of_assigned {base : State} {place value : Nat} (fits : place < base.assigned.size)
    (assigned : next.assigned = (base.assign place (some value)).assigned) (other : Nat) :
    next.given other = if other = place then some value else base.given other := by
  rw [State.given, assigned]
  exact State.given_assign fits

omit [Scalar R] in
/-- A pick that has the values of the new state has those of the old one. -/
theorem State.Agrees.of_assigned {base : State} {place value : Nat} (fits : place < base.assigned.size)
    (vacant : base.isOpen place = true) (assigned : next.assigned = (base.assign place (some value)).assigned)
    (agrees : next.Agrees pick) : base.Agrees pick := by
  intro other position stored
  refine agrees other position ?_
  rw [given_of_assigned fits assigned, if_neg fun same => ?_, stored]
  rw [State.isOpen_eq_true_iff, ← same, stored] at vacant
  cases vacant

/-- Constraints without open variables hold after a value that they are consistent with. -/
theorem checked_of_consistent (proper : problem.Proper) {base : State} (sound : problem.Sound base) {place value : Nat}
    (fits : place < base.assigned.size) (assigned : next.assigned = (base.assign place (some value)).assigned)
    (passed : consistent problem (base.assign place (some value)) (problem.hardOf place) = .ok true) {c : Placed R}
    (member : c ∈ problem.hard) (decided : ∀ other ∈ c.places, next.isOpen other = false) :
    c.constraint.holds (problem.env next.assigned) = .ok (some true) := by
  -- Only constraints on the new value are checked; the others are judged as they were before it.
  by_cases mentioned : place ∈ c.places
  · rw [assigned]
    refine consistent_true passed c (List.mem_filter.2 ⟨member, by simpa using mentioned⟩) fun other listed => ?_
    have closed := decided other listed
    rw [State.isOpen, assigned] at closed
    exact closed
  · have same : ∀ other ∈ c.places, next.given other = base.given other := by
      intro other listed
      have apart : other ≠ place := fun equal => mentioned (equal ▸ listed)
      rw [given_of_assigned fits assigned, if_neg apart]
    rw [← sound.checked c member fun other listed => ?_]
    · refine Constraint.holds_congr fun name among => ?_
      obtain ⟨other, listed, found⟩ := proper.covers c (List.mem_append_left _ member) name among
      obtain ⟨position, stored⟩ := State.isOpen_eq_false_iff.1 (decided other listed)
      rw [env_given found stored, env_given found ((same other listed).symm.trans stored)]
    · have closed := decided other listed
      rw [State.isOpen_eq_false_iff, same other listed] at closed
      exact State.isOpen_eq_false_iff.2 closed

/-- A state stays sound when a value passes the checks. -/
theorem sound_of_consistent (proper : problem.Proper) {base : State} (sound : problem.Sound base) {place value : Nat}
    (vacant : base.isOpen place = true) (inside : place < problem.values.size)
    (within : value < problem.domainSize place) (prunes : Prunes problem (base.assign place (some value)) next)
    (passed : consistent problem (base.assign place (some value)) (problem.hardOf place) = .ok true) :
    problem.Sound next := by
  have fits : place < base.assigned.size := sound.size.symm ▸ inside
  refine ⟨?_, fun other position stored => ?_, fun pick solves agrees => ?_, fun c member decided => ?_⟩
  · rw [prunes.assigned, ← sound.size]
    exact Array.size_setIfInBounds
  · rw [given_of_assigned fits prunes.assigned] at stored
    split at stored
    · next same =>
      rw [same, ← Option.some.inj stored]
      exact within
    · exact sound.inside other position stored
  · refine prunes.admits pick solves ⟨fun other position stored => agrees other position ?_, ?_⟩
    · rw [State.given, prunes.assigned]
      exact stored
    · exact (sound.admits pick solves (agrees.of_assigned fits vacant prunes.assigned)).alive
  · exact checked_of_consistent proper sound fits prunes.assigned passed member decided

theorem tried_of_attempt (proper : problem.Proper) {base : State} (sound : problem.Sound base) {place value : Nat}
    (vacant : base.isOpen place = true) (inside : place < problem.values.size)
    (within : value < problem.domainSize place) {passed : Bool}
    (tried : attempt problem base place value = .ok (passed, next)) : Tried problem base place value passed next := by
  have fits : place < base.assigned.size := sound.size.symm ▸ inside
  have members : ∀ c ∈ problem.hardOf place, c ∈ problem.hard := fun c member => (List.mem_filter.1 member).1
  have sized : (base.assign place (some value)).assigned.size = problem.values.size := by
    simpa [State.assign] using sound.size
  rw [attempt] at tried
  obtain ⟨fine, checked, tried⟩ := Lists.bind_eq_ok tried
  cases fine with
  | false =>
    cases tried
    refine ⟨State.since_assign _ _ _, rfl, (by simp), fun _ pick solves agrees same => ?_⟩
    obtain ⟨c, member, decided, failed⟩ := consistent_false checked
    subst same
    exact solves.not_agrees proper (members c member) decided failed (agrees.assign fits)
  | true =>
    obtain ⟨prunes, refuted⟩ := forwardCheck_prunes proper members sized tried
    refine ⟨prunes.since base (State.since_assign _ _ _), prunes.assigned, fun _ => ?_, ?_⟩
    · exact sound_of_consistent proper sound vacant inside within prunes checked
    · intro failed pick solves agrees same
      subst same
      exact refuted failed pick solves ⟨agrees.assign fits, (sound.admits pick solves agrees).alive⟩

end Attempts

end Deliberation.ConstraintSearch
