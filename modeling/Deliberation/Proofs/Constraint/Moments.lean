import Deliberation.Proofs.Constraint.Exploration

/-!
What a search passes on its way. Beside its outcome, a search gives its moments: each of its states, with the frames
that are open then and the states in which they were opened. A search that is stopped gives those up to the stop.
-/

namespace Deliberation.ConstraintSearch

/-- A computation with the notes that it takes, up to where it is stopped. -/
structure Logged (Note α : Type) where
  notes : List Note
  result : Except Abort α

namespace Logged

variable {Note Note' α β : Type} {holds : Note → Prop}

protected def bind (first : Logged Note α) (next : α → Logged Note β) : Logged Note β :=
  match first.result with
  | .ok a => ⟨first.notes ++ (next a).notes, (next a).result⟩
  | .error reason => ⟨first.notes, .error reason⟩

instance : Monad (Logged Note) where
  pure a := ⟨[], .ok a⟩
  bind := Logged.bind

/-- A computation that takes no notes. -/
instance : MonadLift (Except Abort) (Logged Note) where
  monadLift result := ⟨[], result⟩

def note (note : Note) : Logged Note Unit := ⟨[note], .ok ()⟩

/-- The same computation, its notes put otherwise. -/
def mapNotes (f : Note → Note') (logged : Logged Note α) : Logged Note' α := ⟨logged.notes.map f, logged.result⟩

@[simp] theorem result_lift (result : Except Abort α) : (liftM result : Logged Note α).result = result := rfl

@[simp] theorem result_note (n : Note) : (note n).result = .ok () := rfl

@[simp] theorem result_mapNotes (f : Note → Note') (logged : Logged Note α) : (logged.mapNotes f).result = logged.result :=
  rfl

@[simp] theorem result_bind (first : Logged Note α) (next : α → Logged Note β) :
    (first >>= next).result = first.result >>= fun a => (next a).result := by
  show (Logged.bind first next).result = _
  rw [Logged.bind]
  cases first.result <;> rfl

/-- Two computations in turn come to what the first one's result comes to, of which the second uses a part. -/
theorem result_bind_map {γ : Type} {first : Logged Note α} {next : α → Logged Note β} {f : α → γ} {result : Except Abort γ}
    {results : γ → Except Abort β} (here : first.result.map f = result) (later : ∀ a, (next a).result = results (f a)) :
    (first >>= next).result = result >>= results := by
  rw [result_bind, ← here]
  cases first.result with
  | error reason => rfl
  | ok a => exact later a

theorem result_bind_eq {first : Logged Note α} {next : α → Logged Note β} {result : Except Abort α}
    {results : α → Except Abort β} (here : first.result = result) (later : ∀ a, (next a).result = results a) :
    (first >>= next).result = result >>= results := by
  rw [result_bind, here]
  exact congrArg (result >>= ·) (funext later)

/-- A note changes no result. -/
theorem result_note_bind {n : Note} {next : Logged Note β} {result : Except Abort β} (later : next.result = result) :
    (note n >>= fun _ => next).result = result := by
  rw [result_bind, result_note]
  exact later

/-- All notes of a computation have a property. -/
def Always (holds : Note → Prop) (logged : Logged Note α) : Prop := ∀ note ∈ logged.notes, holds note

@[simp] theorem always_pure (a : α) : Always holds (pure a : Logged Note α) := fun _ member => by cases member

@[simp] theorem always_lift (result : Except Abort α) : Always holds (liftM result : Logged Note α) :=
  fun _ member => by cases member

@[simp] theorem always_note {n : Note} : Always holds (note n) ↔ holds n := by simp [Always, note]

@[simp] theorem always_mapNotes {f : Note → Note'} {holds : Note' → Prop} {logged : Logged Note α} :
    Always holds (logged.mapNotes f) ↔ Always (fun note => holds (f note)) logged := by simp [Always, mapNotes]

/-- The notes of two computations are those of the first, and those of the second where the first comes to a
result. -/
theorem always_bind {first : Logged Note α} {next : α → Logged Note β} :
    Always holds (first >>= next) ↔ Always holds first ∧ ∀ a, first.result = .ok a → Always holds (next a) := by
  show Always holds (Logged.bind first next) ↔ _
  rw [Always, Logged.bind]
  cases first.result with
  | error reason => simp [Always]
  | ok a => simp [Always, or_imp, forall_and]

theorem Always.note_bind {n : Note} {next : Logged Note β} (here : holds n) (later : Always holds next) :
    Always holds (note n >>= fun _ => next) := always_bind.2 ⟨always_note.2 here, fun _ _ => later⟩

theorem Always.lift_bind {result : Except Abort α} {next : α → Logged Note β}
    (later : ∀ a, result = .ok a → Always holds (next a)) : Always holds ((liftM result : Logged Note α) >>= next) :=
  always_bind.2 ⟨always_lift _, later⟩

end Logged

open Logged (note)

variable {R : Type} [Scalar R]

/-- A state of a search with its open frames, the innermost first, and the states in which they were opened. A
search selects a variable, or not. -/
structure Moment where
  selects : Bool
  state : State
  frames : List Frame
  bases : List State

/-- `pruneValues`, with all states on its way. -/
def pruneValuesLogged (problem : Problem R) (c : Placed R) (place : Nat) : (remaining value : Nat) → State →
    Logged State State
  | 0, _, state => pure state
  | remaining + 1, value, state => do
    if !state.isAlive place value then pruneValuesLogged problem c place remaining (value + 1) state
    else
      note (state.assign place (some value))
      if ← c.holds problem (state.assign place (some value)) then
        pruneValuesLogged problem c place remaining (value + 1) state
      else
        note (state.prune place value)
        pruneValuesLogged problem c place remaining (value + 1) (state.prune place value)

/-- `forwardCheck`, with all states on its way. -/
def forwardCheckLogged (problem : Problem R) : List (Placed R) → State → Logged State (Bool × State)
  | [], state => pure (true, state)
  | c :: rest, state => do
    match c.places.filter state.isOpen with
    | [place] =>
      let next ← pruneValuesLogged problem c place (problem.domainSize place) 0 state
      if next.liveCount place = 0 then return (false, next) else forwardCheckLogged problem rest next
    | _ => forwardCheckLogged problem rest state

/-- `tryValues`, with its moments. The frame of the values that are tried is open. -/
def tryValuesLogged (problem : Problem R) (options : SolveOptions) (place mark : Nat) (frames : List Frame)
    (bases : List State) : (remaining value : Nat) → Progress R → Logged Moment (Attempt R)
  | 0, _, progress => pure (.failed { progress with frames := frames })
  | remaining + 1, value, progress => do
    if !progress.state.isAlive place value then
      tryValuesLogged problem options place mark frames bases remaining (value + 1) progress
    else
      let progress := { progress with nodes := progress.nodes + 1 }
      if options.nodeBudget < progress.nodes then return .overBudget progress.best
      else
        let state := progress.state.assign place (some value)
        let moment (state : State) : Moment := ⟨false, state, ⟨place, value + 1, mark⟩ :: frames, bases⟩
        note (moment state)
        let bounded ← withinBound problem options progress state
        let fine ← consistent problem state (problem.hardOf place)
        let (passed, state) ← (
          if !fine || !bounded then pure (false, state)
          else (forwardCheckLogged problem (problem.hardOf place) state).mapNotes moment)
        if passed then
          return .advanced { progress with state, frames := ⟨place, value + 1, mark⟩ :: frames }
        else
          note (moment (state.undo mark))
          note (moment ((state.undo mark).assign place none))
          tryValuesLogged problem options place mark frames bases remaining (value + 1)
            { progress with state := (state.undo mark).assign place none }

/-- `advance`, with its moments. -/
def advanceLogged (problem : Problem R) (options : SolveOptions) (frame : Frame) (frames : List Frame)
    (bases : List State) (progress : Progress R) : Logged Moment (Attempt R) := do
  note ⟨false, progress.state.undo frame.mark, frame :: frames, bases⟩
  note ⟨false, (progress.state.undo frame.mark).assign frame.place none, frame :: frames, bases⟩
  tryValuesLogged problem options frame.place frame.mark frames bases (problem.domainSize frame.place - frame.next)
    frame.next { progress with state := (progress.state.undo frame.mark).assign frame.place none }

/-- `descend`, with the states in which frames were opened; a new frame is opened in the state at hand. -/
def descendFrom (problem : Problem R) (options : SolveOptions) (bases : List State) (progress : Progress R) :
    Except Abort (Bool × List State × Progress R) := do
  match problem.select options.order progress.state with
  | some place =>
    return (false, progress.state :: bases,
      { progress with frames := ⟨place, 0, progress.state.trail.size⟩ :: progress.frames })
  | none =>
    let progress ← record problem progress
    return (isOver options progress, bases, progress)

/-- `run`, with its moments. In a turn in which it descends, it selects a variable. -/
def runLogged (problem : Problem R) (options : SolveOptions) : (turns : Nat) → (descends : Bool) → List State →
    Progress R → Logged Moment (Outcome R)
  | 0, _, _, progress => pure progress.outcome
  | turns + 1, descends, bases, progress => do
    note ⟨descends, progress.state, progress.frames, bases⟩
    let (ended, bases, progress) ← (
      if descends then descendFrom problem options bases progress else .ok (false, bases, progress) : Except Abort _)
    if ended then return progress.outcome
    else
      match progress.frames with
      | [] => return progress.outcome
      | frame :: frames =>
        match ← advanceLogged problem options frame frames bases progress with
        | .advanced progress => runLogged problem options turns true bases progress
        | .failed progress => runLogged problem options turns false bases.tail progress
        | .overBudget best => return .overBudget (best.map fun best => { best with nodes := options.nodeBudget })

/-- `search`, with its moments, from the state that node consistency leaves on. -/
def searchLogged (problem : Problem R) (options : SolveOptions) : Logged Moment (Outcome R) := do
  match ← nodeConsistent problem problem.hard problem.start with
  | none => return .exhausted 0
  | some state => runLogged problem options (turnBound options) true [] ⟨state, [], none, 0, 0⟩

/-! ### The search is the one that takes no notes -/

variable {problem : Problem R} {options : SolveOptions}

theorem pruneValuesLogged_result (c : Placed R) (place remaining value : Nat) (state : State) :
    (pruneValuesLogged problem c place remaining value state).result =
      pruneValues problem c place remaining value state := by
  induction remaining generalizing value state with
  | zero => rfl
  | succ remaining ih =>
    rw [pruneValuesLogged, pruneValues]
    split
    · exact ih ..
    · refine Logged.result_note_bind (Logged.result_bind_eq rfl fun holds => ?_)
      split
      · exact ih ..
      · exact Logged.result_note_bind (ih ..)

theorem forwardCheckLogged_result (cs : List (Placed R)) (state : State) :
    (forwardCheckLogged problem cs state).result = forwardCheck problem cs state := by
  induction cs generalizing state with
  | nil => rfl
  | cons c rest ih =>
    rw [forwardCheckLogged, forwardCheck]
    rcases c.places.filter state.isOpen with _ | ⟨place, _ | ⟨_, _⟩⟩
    · exact ih state
    · refine Logged.result_bind_eq (pruneValuesLogged_result ..) fun next => ?_
      split
      · rfl
      · exact ih next
    · exact ih state

theorem tryValuesLogged_result (place mark : Nat) (frames : List Frame) (bases : List State) (remaining value : Nat)
    (progress : Progress R) : (tryValuesLogged problem options place mark frames bases remaining value progress).result =
      tryValues problem options place mark frames remaining value progress := by
  induction remaining generalizing value progress with
  | zero => rfl
  | succ remaining ih =>
    rw [tryValuesLogged, tryValues]
    split
    · exact ih ..
    · dsimp only
      split
      · rfl
      · refine Logged.result_note_bind (Logged.result_bind_eq rfl fun bounded => Logged.result_bind_eq rfl fun fine => ?_)
        refine (Logged.result_bind_eq ?_ fun judged => ?_).trans (apply_ite (· >>= _) _ _ _)
        · split
          · rfl
          · exact forwardCheckLogged_result ..
        · split
          · rfl
          · exact Logged.result_note_bind (Logged.result_note_bind (ih ..))

theorem advanceLogged_result (frame : Frame) (frames : List Frame) (bases : List State) (progress : Progress R) :
    (advanceLogged problem options frame frames bases progress).result = advance problem options frame frames progress :=
  Logged.result_note_bind (Logged.result_note_bind (tryValuesLogged_result ..))

theorem descendFrom_eq (bases : List State) (progress : Progress R) :
    ((descendFrom problem options bases progress).map fun next => (next.1, next.2.2)) =
      descend problem options progress := by
  rw [descendFrom, descend]
  cases problem.select options.order progress.state with
  | some place => rfl
  | none =>
    dsimp only
    cases record problem progress <;> rfl

theorem runLogged_result (turns : Nat) (descends : Bool) (bases : List State) (progress : Progress R) :
    (runLogged problem options turns descends bases progress).result = run problem options turns descends progress := by
  induction turns generalizing descends bases progress with
  | zero => rfl
  | succ turns ih =>
    rw [runLogged, run]
    refine Logged.result_note_bind ?_
    refine (Logged.result_bind_map (f := fun next => (next.1, next.2.2)) ?_ fun next => ?_).trans (apply_ite (· >>= _) _ _ _)
    · rw [Logged.result_lift]
      split
      · exact descendFrom_eq bases progress
      · rfl
    · obtain ⟨ended, bases, progress⟩ := next
      cases ended with
      | true => rfl
      | false =>
        obtain ⟨state, frames, tally⟩ := progress
        cases frames with
        | nil => rfl
        | cons frame frames =>
          refine Logged.result_bind_eq (advanceLogged_result ..) fun result => ?_
          cases result with
          | advanced progress => exact ih ..
          | failed progress => exact ih ..
          | overBudget best => rfl

/-- Taking notes does not change the search. -/
theorem searchLogged_result (problem : Problem R) (options : SolveOptions) :
    (searchLogged problem options).result = search problem options := by
  refine Logged.result_bind_eq rfl fun ready => ?_
  cases ready with
  | none => rfl
  | some state => exact runLogged_result ..

end Deliberation.ConstraintSearch
