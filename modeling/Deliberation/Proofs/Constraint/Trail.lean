import Deliberation.Proofs.Constraint.Budget
import Deliberation.Proofs.Constraint.Moments

/-!
What the trail of a search knows. At each moment of a search just those values are dead that node consistency has
removed and those on the trail, where none is twice; the variables that have values when another one is selected are
those of the open frames; and undoing the trail down to the mark of an open frame leads back to the values that were
alive when it was opened.
-/

namespace Deliberation.ConstraintSearch

variable {R : Type} [Scalar R] {problem : Problem R} {options : SolveOptions} {cs : List (Placed R)}
  {state base next : State} {place value : Nat}

/-- A constraint on one variable removes the values for which it fails, when no other variable has a value. -/
def Problem.Removes (problem : Problem R) (cs : List (Placed R)) (place value : Nat) : Prop :=
  ∃ c ∈ cs, c.places = [place] ∧ c.holds problem (problem.start.assign place (some value)) = .ok false

/-- Of the values in the domains, those are alive that no constraint removes and that are not on the trail,
which has none of them twice. -/
structure Problem.Marked (problem : Problem R) (cs : List (Placed R)) (state : State) : Prop where
  alive : ∀ place value, state.isAlive place value = true ↔
    value < problem.domainSize place ∧ ¬ problem.Removes cs place value ∧ (place, value) ∉ state.trail
  once : state.trail.toList.Nodup

section Marks

theorem Problem.Marked.dead (marked : problem.Marked cs state) (inside : value < problem.domainSize place) :
    state.isAlive place value = false ↔ problem.Removes cs place value ∨ (place, value) ∈ state.trail := by
  rw [← Bool.not_eq_true, marked.alive]
  tauto

theorem Problem.Marked.prune (marked : problem.Marked cs state) (live : state.isAlive place value = true) :
    problem.Marked cs (state.prune place value) := by
  obtain ⟨-, -, fresh⟩ := (marked.alive place value).1 live
  constructor
  · intro other position
    show _ ↔ _ ∧ _ ∧ (other, position) ∉ state.trail.push (place, value)
    rw [State.isAlive_prune, marked.alive, Array.mem_push]
    tauto
  · show (state.trail.push (place, value)).toList.Nodup
    rw [Array.toList_push]
    refine List.nodup_append.2 ⟨marked.once, List.nodup_singleton _, fun death member other here same => ?_⟩
    rw [List.mem_singleton.1 here] at same
    exact fresh (Array.mem_toList_iff.1 (same ▸ member))

theorem Problem.Marked.assign (marked : problem.Marked cs state) (place : Nat) (value : Option Nat) :
    problem.Marked cs (state.assign place value) := ⟨marked.alive, marked.once⟩

end Marks

section Consistency

theorem holds_congr_assigned (c : Placed R) (same : next.assigned = state.assigned) :
    c.holds problem next = c.holds problem state := by
  rw [Placed.holds, Placed.holds, same]

/-- The verdicts on the values of a variable, when no other variable has a value. -/
theorem verdicts_eq_some_true {c : Placed R} {verdicts : List Bool} (untouched : state.assigned = problem.start.assigned)
    (judged : c.verdicts problem state place = .ok verdicts) (inside : value < problem.domainSize place) :
    verdicts[value]? = some true ↔ c.holds problem (problem.start.assign place (some value)) ≠ .ok false := by
  have each := Lists.mapM_eq_ok_iff.1 judged
  have same : c.holds problem (state.assign place (some value)) = c.holds problem (problem.start.assign place (some value)) :=
    holds_congr_assigned c (by rw [State.assign, State.assign, untouched])
  have first : value < (List.range (problem.domainSize place)).length := by simpa using inside
  have second : value < verdicts.length := each.length_eq ▸ first
  have verdict := each.get first second
  rw [List.get_eq_getElem, List.getElem_range, List.get_eq_getElem, same] at verdict
  rw [verdict, List.getElem?_eq_getElem second]
  cases verdicts[value] <;> simp

omit [Scalar R] in
theorem isAlive_start : problem.start.isAlive place value = true ↔ value < problem.domainSize place := by
  rw [State.isAlive_iff, State.liveIn, Problem.start, Problem.domainSize, Array.getElem?_map]
  cases problem.values[place]? with
  | none => simp
  | some row => simp [Array.getElem?_replicate]

theorem marked_start (problem : Problem R) : problem.Marked [] problem.start where
  alive place value := by
    rw [isAlive_start]
    simp [Problem.Removes, Problem.start]
  once := List.nodup_nil

theorem removes_append {c : Placed R} : problem.Removes (cs ++ [c]) place value ↔ problem.Removes cs place value ∨
    c.places = [place] ∧ c.holds problem (problem.start.assign place (some value)) = .ok false := by
  constructor
  · rintro ⟨other, member, excludes⟩
    rcases List.mem_append.1 member with earlier | own
    · exact .inl ⟨other, earlier, excludes⟩
    · exact .inr (List.mem_singleton.1 own ▸ excludes)
  · rintro (⟨other, member, excludes⟩ | excludes)
    · exact ⟨other, List.mem_append_left _ member, excludes⟩
    · exact ⟨c, List.mem_append_right _ (List.mem_singleton_self c), excludes⟩

/-- A constraint on one variable leaves the values alive that it does not remove. -/
theorem Problem.Marked.keepOnly {c : Placed R} {verdicts : List Bool} (marked : problem.Marked cs state)
    (untouched : state.assigned = problem.start.assigned) (only : c.places = [place])
    (judged : c.verdicts problem state place = .ok verdicts) :
    problem.Marked (cs ++ [c]) (keepOnly state place verdicts) := by
  refine ⟨fun other position => ?_, marked.once⟩
  show _ ↔ _ ∧ _ ∧ (other, position) ∉ state.trail
  rw [isAlive_keepOnly, marked.alive, removes_append, only, List.singleton_inj]
  by_cases same : other = place
  · subst same
    constructor
    · rintro ⟨⟨inside, left, fresh⟩, verdict⟩
      have passed := (verdicts_eq_some_true untouched judged inside).1 (verdict rfl)
      exact ⟨inside, not_or.2 ⟨left, fun excludes => passed excludes.2⟩, fresh⟩
    · rintro ⟨inside, left, fresh⟩
      obtain ⟨before, passed⟩ := not_or.1 left
      exact ⟨⟨inside, before, fresh⟩, fun _ =>
        (verdicts_eq_some_true untouched judged inside).2 fun failed => passed ⟨rfl, failed⟩⟩
  · have apart : ¬ place = other := fun equal => same equal.symm
    simp [same, apart]

/-- Other constraints remove no value. -/
theorem Problem.Marked.skip {c : Placed R} (marked : problem.Marked cs state) (several : ∀ place, c.places ≠ [place]) :
    problem.Marked (cs ++ [c]) state := by
  refine ⟨fun other position => ?_, marked.once⟩
  rw [marked.alive, removes_append]
  simp [several other]

/-- After node consistency just the values are dead that a constraint removes. -/
theorem marked_of_nodeConsistent {done : List (Placed R)} (marked : problem.Marked done state)
    (untouched : state.assigned = problem.start.assigned) (empty : state.trail = #[])
    (made : nodeConsistent problem cs state = .ok (some next)) :
    problem.Marked (done ++ cs) next ∧ next.assigned = problem.start.assigned ∧ next.trail = #[] := by
  induction cs generalizing done state with
  | nil =>
    cases made
    exact ⟨by rwa [List.append_nil], untouched, empty⟩
  | cons c rest ih =>
    rw [nodeConsistent] at made
    rw [List.append_cons]
    split at made
    · next none =>
      obtain ⟨holds, -, made⟩ := Lists.bind_eq_ok made
      cases holds with
      | false => cases made
      | true => exact ih (marked.skip (by simp [none])) untouched empty made
    · next place only =>
      obtain ⟨verdicts, judged, made⟩ := Lists.bind_eq_ok made
      dsimp only at made
      split at made
      · cases made
      · exact ih (marked.keepOnly untouched only judged) untouched empty made
    · next none several => exact ih (marked.skip several) untouched empty made

end Consistency

section Propagation

/-- What holds of a state, whatever is pruned, holds after a constraint has been propagated to a variable. -/
theorem pruneValues_kept (holds : State → Prop)
    (kept : ∀ state place value, holds state → state.isAlive place value = true → holds (state.prune place value))
    {c : Placed R} {remaining : Nat} (before : holds state)
    (pruned : pruneValues problem c place remaining value state = .ok next) : holds next := by
  induction remaining generalizing value state with
  | zero =>
    cases pruned
    exact before
  | succ remaining ih =>
    rw [pruneValues] at pruned
    split at pruned
    · exact ih before pruned
    · next live =>
      obtain ⟨verdict, -, pruned⟩ := Lists.bind_eq_ok pruned
      split at pruned
      · exact ih before pruned
      · exact ih (kept state place value before (by simpa using live)) pruned

theorem forwardCheck_kept (holds : State → Prop)
    (kept : ∀ state place value, holds state → state.isAlive place value = true → holds (state.prune place value))
    {passed : Bool} (before : holds state) (checked : forwardCheck problem cs state = .ok (passed, next)) : holds next := by
  induction cs generalizing state with
  | nil =>
    cases checked
    exact before
  | cons c rest ih =>
    rw [forwardCheck] at checked
    split at checked
    · next place only =>
      obtain ⟨middle, pruned, checked⟩ := Lists.bind_eq_ok checked
      have after := pruneValues_kept holds kept before pruned
      split at checked
      · cases checked
        exact after
      · exact ih after checked
    · exact ih before checked

/-- What holds of a state, whatever is pruned and given, holds of all states while a constraint is propagated. -/
theorem always_pruneValuesLogged (holds : State → Prop)
    (kept : ∀ state place value, holds state → state.isAlive place value = true → holds (state.prune place value))
    (given : ∀ state place value, holds state → holds (state.assign place value))
    {c : Placed R} {remaining : Nat} (before : holds state) :
    (pruneValuesLogged problem c place remaining value state).Always holds := by
  induction remaining generalizing value state with
  | zero => exact Logged.always_pure _
  | succ remaining ih =>
    rw [pruneValuesLogged]
    split
    · exact ih before
    · next live =>
      have after := kept state place value before (by simpa using live)
      refine .note_bind (given _ _ _ before) (.lift_bind fun verdict _ => ?_)
      split
      · exact ih before
      · exact .note_bind after (ih after)

theorem always_forwardCheckLogged (holds : State → Prop)
    (kept : ∀ state place value, holds state → state.isAlive place value = true → holds (state.prune place value))
    (given : ∀ state place value, holds state → holds (state.assign place value)) (before : holds state) :
    (forwardCheckLogged problem cs state).Always holds := by
  induction cs generalizing state with
  | nil => exact Logged.always_pure _
  | cons c rest ih =>
    rw [forwardCheckLogged]
    split
    · next place only =>
      refine Logged.always_bind.2 ⟨always_pruneValuesLogged holds kept given before, fun middle pruned => ?_⟩
      rw [pruneValuesLogged_result] at pruned
      split
      · exact Logged.always_pure _
      · exact ih (pruneValues_kept holds kept before pruned)
    · exact ih before

end Propagation

section Stacks

variable {notes : List Moment} {frame : Frame} {frames : List Frame} {bases : List State}

/-- A state that has killed values of an earlier one since. -/
structure Problem.Pruned (problem : Problem R) (base state : State) : Prop where
  marked : problem.Marked problem.hard state
  since : State.Since base state

/-- A frame was opened in a state, at the moment in which its variable was selected, on top of other frames. -/
structure Opened (problem : Problem R) (options : SolveOptions) (notes : List Moment) (frame : Frame)
    (frames : List Frame) (bases : List State) (base : State) : Prop where
  noted : ⟨true, base, frames, bases⟩ ∈ notes
  chosen : problem.select options.order base = some frame.place
  mark : frame.mark = base.trail.size

/-- The open frames of a state, with the states in which they were opened: each of these has one value less
than the next. -/
inductive Stacked (problem : Problem R) (options : SolveOptions) (notes : List Moment) :
    List Frame → List State → State → Prop
  | bottom {state : State} (marked : problem.Marked problem.hard state)
      (untouched : state.assigned = problem.start.assigned) : Stacked problem options notes [] [] state
  | frame {frame : Frame} {frames : List Frame} {bases : List State} {base state : State} {value : Nat}
      (below : Stacked problem options notes frames bases base)
      (opened : Opened problem options notes frame frames bases base) (pruned : problem.Pruned base state)
      (given : state.assigned = (base.assign frame.place (some value)).assigned) :
      Stacked problem options notes (frame :: frames) (base :: bases) state

/-- Undoing the trail down to the mark of an open frame gives back what was alive, and the trail, when it was
opened. -/
inductive Restores (problem : Problem R) (options : SolveOptions) (notes : List Moment) (state : State) :
    List Frame → List State → Prop
  | bottom : Restores problem options notes state [] []
  | frame {frame : Frame} {frames : List Frame} {bases : List State} {base : State}
      (opened : Opened problem options notes frame frames bases base)
      (undone : state.undo frame.mark = { base with assigned := state.assigned })
      (below : Restores problem options notes state frames bases) :
      Restores problem options notes state (frame :: frames) (base :: bases)

/-- What is true at each moment of a search that takes some notes. -/
structure Moment.Sound (problem : Problem R) (options : SolveOptions) (notes : List Moment) (moment : Moment) : Prop where
  dead : ∀ place value, value < problem.domainSize place → (moment.state.isAlive place value = false ↔
    problem.Removes problem.hard place value ∨ (place, value) ∈ moment.state.trail)
  once : moment.state.trail.toList.Nodup
  given : moment.selects = true → ∀ place,
    moment.state.isOpen place = false ↔ ∃ frame ∈ moment.frames, frame.place = place
  restores : Restores problem options notes moment.state moment.frames moment.bases

theorem Problem.Pruned.prune (pruned : problem.Pruned base state) (live : state.isAlive place value = true) :
    problem.Pruned base (state.prune place value) := ⟨pruned.marked.prune live, pruned.since.prune live⟩

theorem Problem.Pruned.assign (pruned : problem.Pruned base state) (place : Nat) (value : Option Nat) :
    problem.Pruned base (state.assign place value) :=
  ⟨pruned.marked.assign place value, pruned.since.trans (State.since_assign state place value)⟩

theorem Stacked.marked (stacked : Stacked problem options notes frames bases state) :
    problem.Marked problem.hard state := by
  cases stacked with
  | bottom marked _ => exact marked
  | frame _ _ pruned _ => exact pruned.marked

theorem Stacked.pruned (stacked : Stacked problem options notes frames bases state) : problem.Pruned state state :=
  ⟨stacked.marked, .refl state⟩

theorem Stacked.size (stacked : Stacked problem options notes frames bases state) :
    state.assigned.size = problem.values.size := by
  induction stacked with
  | bottom _ untouched => rw [untouched]; simp [Problem.start]
  | frame _ _ _ given ih => rw [given, ← ih]; exact Array.size_setIfInBounds

/-- The variables that have values are those of the open frames. -/
theorem Stacked.isOpen_eq_false_iff (stacked : Stacked problem options notes frames bases state) :
    state.isOpen place = false ↔ ∃ frame ∈ frames, frame.place = place := by
  induction stacked with
  | bottom _ untouched =>
    have vacant : problem.start.given place = none := given_start problem place
    rw [State.isOpen_eq_false_iff, State.given, untouched, ← State.given, vacant]
    simp
  | @frame frame frames bases base state value below opened _ given ih =>
    have inside : frame.place < base.assigned.size := below.size.symm ▸ (isOpen_of_select opened.chosen).1
    have own : state.given place = if place = frame.place then some value else base.given place := by
      rw [State.given, given, ← State.given, State.given_assign inside]
    rw [List.exists_mem_cons_iff, ← ih, State.isOpen_eq_false_iff, State.isOpen_eq_false_iff, own]
    by_cases same : place = frame.place
    · simp [same]
    · have apart : ¬ frame.place = place := fun equal => same equal.symm
      simp [same, apart]

theorem Stacked.restores {later : State} (stacked : Stacked problem options notes frames bases state)
    (since : State.Since state later) : Restores problem options notes later frames bases := by
  -- Whatever was killed since a deeper frame was opened was killed since each frame below it was.
  induction stacked with
  | bottom => exact .bottom
  | frame below opened pruned _ ih =>
    have whole := pruned.since.trans since
    exact .frame opened (opened.mark ▸ whole.undo) (ih whole)

/-- A moment at the beginning of a turn. -/
theorem Stacked.sound_turning (stacked : Stacked problem options notes frames bases state) (descends : Bool) :
    Moment.Sound problem options notes ⟨descends, state, frames, bases⟩ where
  dead _ _ inside := stacked.marked.dead inside
  once := stacked.marked.once
  given _ _ := stacked.isOpen_eq_false_iff
  restores := stacked.restores (.refl state)

/-- A moment in which values of the innermost frame are tried. -/
theorem Stacked.sound_trying (below : Stacked problem options notes frames bases base)
    (opened : Opened problem options notes frame frames bases base) (pruned : problem.Pruned base state) :
    Moment.Sound problem options notes ⟨false, state, frame :: frames, base :: bases⟩ where
  dead _ _ inside := pruned.marked.dead inside
  once := pruned.marked.once
  given selects := by cases selects
  restores := .frame opened (opened.mark ▸ pruned.since.undo) (below.restores pruned.since)

end Stacks

section Trying

variable {notes : List Moment} {frame : Frame} {frames before : List Frame} {bases : List State} {progress : Progress R}
  {tally : Tally R} {remaining : Nat} {passed : Bool}

omit [Scalar R] in
theorem Opened.vacant (opened : Opened problem options notes frame frames bases base) :
    base.isOpen frame.place = true := (isOpen_of_select opened.chosen).2

omit [Scalar R] in
/-- The next value of a frame does not count for how it was opened. -/
theorem Opened.move (opened : Opened problem options notes frame frames bases base) (value : Nat) :
    Opened problem options notes ⟨frame.place, value, frame.mark⟩ frames bases base :=
  ⟨opened.noted, opened.chosen, opened.mark⟩

omit [Scalar R] in
/-- What a value of a frame led to is undone by undoing the trail down to its mark and taking the value back. -/
theorem Opened.restore (opened : Opened problem options notes frame frames bases base) (since : State.Since base state)
    {value : Option Nat} (given : state.assigned = (base.assign frame.place value).assigned) :
    (state.undo frame.mark).assign frame.place none = base := by
  rw [opened.mark]
  exact since.restore opened.vacant given

theorem Stacked.pruned_undo (below : Stacked problem options notes frames bases base)
    (opened : Opened problem options notes frame frames bases base) (since : State.Since base state) :
    problem.Pruned base (state.undo frame.mark) := by
  rw [opened.mark, since.undo]
  exact ⟨⟨below.marked.alive, below.marked.once⟩, (State.Since.refl base).trail, (State.Since.refl base).alive⟩

theorem forwardCheck_pruned (pruned : problem.Pruned base state) (checked : forwardCheck problem cs state = .ok (passed, next)) :
    problem.Pruned base next ∧ next.assigned = state.assigned :=
  forwardCheck_kept (fun later => problem.Pruned base later ∧ later.assigned = state.assigned)
    (fun _ _ _ kept live => ⟨kept.1.prune live, kept.2⟩) ⟨pruned, rfl⟩ checked

/-- What comes of trying values for a frame: another value is given, or what is left is the state in which the
frame was opened. -/
def Stands (problem : Problem R) (options : SolveOptions) (notes : List Moment) (frames : List Frame)
    (bases : List State) (base : State) : Attempt R → Prop
  | .advanced progress => Stacked problem options notes progress.frames (base :: bases) progress.state
  | .failed progress => progress.frames = frames ∧ progress.state = base
  | .overBudget _ => True

theorem attempt_pruned (pruned : problem.Pruned base base) (tried : attempt problem base place value = .ok (passed, next)) :
    problem.Pruned base next ∧ next.assigned = (base.assign place (some value)).assigned := by
  have given := pruned.assign place (some value)
  rw [attempt] at tried
  obtain ⟨fine, -, tried⟩ := Lists.bind_eq_ok tried
  cases fine with
  | false =>
    cases tried
    exact ⟨given, rfl⟩
  | true => exact forwardCheck_pruned given tried

theorem judge_pruned (pruned : problem.Pruned base base)
    (judged : judge problem options tally base place value = .ok (passed, next)) :
    problem.Pruned base next ∧ next.assigned = (base.assign place (some value)).assigned := by
  rw [judge] at judged
  obtain ⟨bounded, -, judged⟩ := Lists.bind_eq_ok judged
  cases bounded with
  | true => exact attempt_pruned pruned judged
  | false =>
    obtain ⟨_, -, judged⟩ := Lists.bind_eq_ok judged
    cases judged
    exact ⟨pruned.assign place (some value), rfl⟩

theorem tryValues_stands (below : Stacked problem options notes frames bases base)
    (opened : Opened problem options notes frame frames bases base) {result : Attempt R}
    (tried : tryValues problem options frame.place frame.mark frames remaining value (tally.within base before) = .ok result) :
    Stands problem options notes frames bases base result := by
  induction remaining generalizing value tally with
  | zero =>
    cases tried
    exact ⟨rfl, rfl⟩
  | succ remaining ih =>
    cases live : base.isAlive frame.place value with
    | false =>
      rw [tryValues_dead live] at tried
      exact ih tried
    | true =>
      rw [tryValues_judge live] at tried
      split at tried
      · cases tried
        trivial
      · obtain ⟨⟨passed, child⟩, judged, tried⟩ := Lists.bind_eq_ok tried
        obtain ⟨pruned, given⟩ := judge_pruned below.pruned judged
        cases passed with
        | true =>
          cases tried
          exact .frame below (opened.move (value + 1)) pruned given
        | false =>
          dsimp only at tried
          rw [opened.restore pruned.since given] at tried
          exact ih tried

/-- All moments in which values of a frame are tried are sound. -/
theorem always_tryValuesLogged (below : Stacked problem options notes frames bases base)
    (opened : Opened problem options notes frame frames bases base) (stands : progress.state = base) :
    (tryValuesLogged problem options frame.place frame.mark frames (base :: bases) remaining value progress).Always
      (Moment.Sound problem options notes) := by
  induction remaining generalizing value progress with
  | zero => exact Logged.always_pure _
  | succ remaining ih =>
    rw [tryValuesLogged]
    split
    · exact ih stands
    · dsimp only
      split
      · exact Logged.always_pure _
      · rw [stands]
        have given := below.pruned.assign frame.place (some value)
        have sound {state : State} (pruned : problem.Pruned base state) := below.sound_trying (opened.move (value + 1)) pruned
        refine .note_bind (sound given) (.lift_bind fun bounded _ => .lift_bind fun fine _ => ?_)
        refine Logged.always_bind.2 ⟨?_, fun judged same => ?_⟩
        · split
          · exact Logged.always_pure _
          · refine Logged.always_mapNotes.2 fun state member => sound ?_
            exact always_forwardCheckLogged (problem.Pruned base) (fun _ _ _ kept live => kept.prune live)
              (fun _ place value kept => kept.assign place value) given state member
        -- Whether a check fails at once or in the middle of propagation, all that is left to undo is on the trail.
        · have left : problem.Pruned base judged.2 ∧ judged.2.assigned = (base.assign frame.place (some value)).assigned := by
            split at same
            · cases same
              exact ⟨given, rfl⟩
            · rw [Logged.result_mapNotes, forwardCheckLogged_result] at same
              exact forwardCheck_pruned given same
          split
          · exact Logged.always_pure _
          · refine .note_bind (sound (below.pruned_undo opened left.1.since)) ?_
            rw [opened.restore left.1.since left.2]
            exact .note_bind (sound below.pruned) (ih rfl)

end Trying

section Turns

variable {notes : List Moment} {frame : Frame} {frames : List Frame} {bases : List State} {progress : Progress R}

/-- The innermost frame is open, whether or not its variable has a value; going back to its mark leads to the
state in which it was opened. -/
inductive Ready (problem : Problem R) (options : SolveOptions) (notes : List Moment) :
    List Frame → List State → State → Prop
  | bottom {state : State} : Ready problem options notes [] [] state
  | frame {frame : Frame} {frames : List Frame} {bases : List State} {base state : State}
      (below : Stacked problem options notes frames bases base)
      (opened : Opened problem options notes frame frames bases base) (since : State.Since base state)
      (restored : (state.undo frame.mark).assign frame.place none = base) :
      Ready problem options notes (frame :: frames) (base :: bases) state

theorem Stacked.ready (stacked : Stacked problem options notes frames bases state) :
    Ready problem options notes frames bases state := by
  cases stacked with
  | bottom => exact .bottom
  | frame below opened pruned given => exact .frame below opened pruned.since (opened.restore pruned.since given)

/-- A frame that was opened just now. -/
theorem Stacked.ready_opened (stacked : Stacked problem options notes frames bases state)
    (opened : Opened problem options notes frame frames bases state) :
    Ready problem options notes (frame :: frames) (state :: bases) state := by
  refine .frame stacked opened (.refl state) ?_
  rw [opened.mark, State.undo_refl, State.assign_none opened.vacant]

theorem advance_stands (below : Stacked problem options notes frames bases base)
    (opened : Opened problem options notes frame frames bases base)
    (restored : (progress.state.undo frame.mark).assign frame.place none = base) {result : Attempt R}
    (tried : advance problem options frame frames progress = .ok result) :
    Stands problem options notes frames bases base result := by
  rw [advance, restored] at tried
  have tried' : tryValues problem options frame.place frame.mark frames _ frame.next
      ((⟨progress.best, progress.seen, progress.nodes⟩ : Tally R).within base progress.frames) = .ok result := tried
  exact tryValues_stands below opened tried'

theorem always_advanceLogged (below : Stacked problem options notes frames bases base)
    (opened : Opened problem options notes frame frames bases base) (since : State.Since base progress.state)
    (restored : (progress.state.undo frame.mark).assign frame.place none = base) :
    (advanceLogged problem options frame frames (base :: bases) progress).Always (Moment.Sound problem options notes) := by
  have undone := below.pruned_undo opened since
  refine .note_bind (below.sound_trying opened undone) (.note_bind (below.sound_trying opened (undone.assign _ _)) ?_)
  exact always_tryValuesLogged below opened restored

theorem record_keeps {found : Progress R} (recorded : record problem progress = .ok found) :
    found.state = progress.state ∧ found.frames = progress.frames := by
  rw [record] at recorded
  obtain ⟨failures, -, recorded⟩ := Lists.bind_eq_ok recorded
  cases recorded
  exact ⟨rfl, rfl⟩

/-- A frame is opened in the state in which its variable is selected; at an assignment no frame is opened. -/
theorem ready_descendFrom (stacked : Stacked problem options notes progress.frames bases progress.state)
    (noted : ⟨true, progress.state, progress.frames, bases⟩ ∈ notes) {turned : Bool × List State × Progress R}
    (descended : descendFrom problem options bases progress = .ok turned) :
    Ready problem options notes turned.2.2.frames turned.2.1 turned.2.2.state := by
  rw [descendFrom] at descended
  split at descended
  · next place chosen =>
    cases descended
    exact stacked.ready_opened ⟨noted, chosen, rfl⟩
  · obtain ⟨found, recorded, descended⟩ := Lists.bind_eq_ok descended
    cases descended
    obtain ⟨sameState, sameFrames⟩ := record_keeps recorded
    show Ready problem options notes found.frames bases found.state
    rw [sameState, sameFrames]
    exact stacked.ready

theorem always_runLogged {turns : Nat} {descends : Bool}
    (stacked : Stacked problem options notes progress.frames bases progress.state)
    (noted : (runLogged problem options turns descends bases progress).Always (· ∈ notes)) :
    (runLogged problem options turns descends bases progress).Always (Moment.Sound problem options notes) := by
  induction turns generalizing descends bases progress with
  | zero => exact Logged.always_pure _
  | succ turns ih =>
    rw [runLogged] at noted ⊢
    -- The note of this turn is where a frame that it opens was opened; the notes after it are those of later turns.
    obtain ⟨turning, noted⟩ := Logged.always_bind.1 noted
    have noted := (Logged.always_bind.1 (noted () rfl)).2
    refine .note_bind (stacked.sound_turning descends) (.lift_bind fun turned same => ?_)
    have noted := noted turned same
    have ready : Ready problem options notes turned.2.2.frames turned.2.1 turned.2.2.state := by
      cases descends with
      | true => exact ready_descendFrom stacked (Logged.always_note.1 turning) same
      | false =>
        cases same
        exact stacked.ready
    obtain ⟨ended, bases, state, frames, tally⟩ := turned
    cases ended with
    | true => exact Logged.always_pure _
    | false =>
      cases ready with
      | bottom => exact Logged.always_pure _
      | frame below opened since restored =>
        refine Logged.always_bind.2 ⟨always_advanceLogged below opened since restored, fun result tried => ?_⟩
        have noted := (Logged.always_bind.1 noted).2 result tried
        rw [advanceLogged_result] at tried
        have stands := advance_stands below opened restored tried
        cases result with
        | advanced progress => exact ih stands noted
        | failed progress =>
          obtain ⟨sameFrames, sameState⟩ := stands
          exact ih (sameFrames ▸ sameState ▸ below) noted
        | overBudget best => exact Logged.always_pure _

/-- All moments of a search are sound. -/
theorem always_searchLogged (noted : (searchLogged problem options).Always (· ∈ notes)) :
    (searchLogged problem options).Always (Moment.Sound problem options notes) := by
  rw [searchLogged] at noted ⊢
  refine .lift_bind fun ready made => ?_
  have noted := (Logged.always_bind.1 noted).2 ready made
  cases ready with
  | none => exact Logged.always_pure _
  | some state =>
    obtain ⟨marked, untouched, -⟩ := marked_of_nodeConsistent (marked_start problem) rfl rfl made
    exact always_runLogged (.bottom marked untouched) noted

end Turns

/-- A search passes through states in which just those values are dead that node consistency has removed and
those on the trail, which has none twice. When it selects a variable, those with values are the variables of
the open frames; and whatever has come in between, undoing the trail down to the mark of an open frame gives
back what was alive when that frame was opened. -/
theorem search_moments (problem : Problem R) (options : SolveOptions) :
    (∀ cs state, nodeConsistent problem cs problem.start = .ok (some state) → state.trail = #[] ∧
      ∀ place value, value < problem.domainSize place →
        (state.isAlive place value = false ↔ problem.Removes cs place value)) ∧
    (searchLogged problem options).result = search problem options ∧
    ∀ moment ∈ (searchLogged problem options).notes,
      moment.Sound problem options (searchLogged problem options).notes := by
  refine ⟨fun cs state made => ?_, searchLogged_result problem options, ?_⟩
  · obtain ⟨marked, -, empty⟩ := marked_of_nodeConsistent (marked_start problem) rfl rfl made
    rw [List.nil_append] at marked
    refine ⟨empty, fun place value inside => ?_⟩
    rw [marked.dead inside, empty]
    simp
  · exact always_searchLogged fun _ member => member

/-- A positive bit that is below another number. -/
def risingBit : Problem Rat where
  names := ["x", "y"]
  places := .ofList [("x", 0), ("y", 1)]
  values := #[#[.int 0, .int 1], #[.int 0, .int 1, .int 2]]
  hard := [⟨positive "x", [0]⟩, ⟨⟨"x < y", .compare .lt (.var "x") (.var "y"), 1⟩, [0, 1]⟩]
  soft := []

theorem risingBit_moments :
    (∃ state, nodeConsistent risingBit risingBit.hard risingBit.start = .ok (some state) ∧ state.trail = #[] ∧
      (state.isAlive 0 0 = false ↔ risingBit.Removes risingBit.hard 0 0)) ∧
    (searchLogged risingBit .standard).result = search risingBit .standard ∧
    ∃ moment ∈ (searchLogged risingBit .standard).notes, moment.selects = true ∧
      moment.state.trail = #[(1, 0), (1, 1)] ∧
      moment.Sound risingBit .standard (searchLogged risingBit .standard).notes := by
  obtain ⟨consistent, same, sound⟩ := search_moments risingBit .standard
  have passes : ((nodeConsistent risingBit risingBit.hard risingBit.start).toOption.bind id).isSome = true := by decide +kernel
  obtain ⟨state, made⟩ : ∃ state, nodeConsistent risingBit risingBit.hard risingBit.start = .ok (some state) := by
    rcases made : nodeConsistent risingBit risingBit.hard risingBit.start with _ | _ | state
    · rw [made] at passes
      cases passes
    · rw [made] at passes
      cases passes
    · exact ⟨state, rfl⟩
  obtain ⟨empty, dead⟩ := consistent _ state made
  obtain ⟨moment, found⟩ := Option.isSome_iff_exists.1 (show ((searchLogged risingBit .standard).notes.find? fun moment =>
    moment.selects && moment.state.trail == #[(1, 0), (1, 1)]).isSome = true by decide +kernel)
  have member := List.mem_of_find?_eq_some found
  have late := List.find?_some found
  rw [Bool.and_eq_true, beq_iff_eq] at late
  exact ⟨⟨state, made, empty, dead 0 0 (by decide)⟩, same, moment, member, late.1, late.2, sound moment member⟩

end Deliberation.ConstraintSearch
