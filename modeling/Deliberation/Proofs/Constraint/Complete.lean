import Deliberation.Proofs.Constraint.Exploration

/-!
A search finds an assignment exactly when there is one, unless it ends at its budget or a constraint
cannot be judged.
-/

namespace Deliberation.ConstraintSearch

variable {R : Type} [Scalar R] {problem : Problem R} {options : SolveOptions}

section Walks

variable {part : Part} {state : State} {tally : Tally R} {ending : Ending R}

/-- A variable whose values are tried is open. -/
def Part.Fits (problem : Problem R) (state : State) : Part → Prop
  | .node => True
  | .children place _ => place < problem.values.size ∧ state.isOpen place = true

/-- The picks that a part of the tree is about. -/
def Part.Has (pick : Nat → Nat) : Part → Prop
  | .node => True
  | .children place value => value ≤ pick place

/-- The positions of the values that a state gives. -/
def State.pick (state : State) (place : Nat) : Nat := (state.given place).getD 0

omit [Scalar R] in
theorem State.agrees_pick (state : State) : state.Agrees state.pick := by
  intro place value stored
  rw [State.pick, stored]
  rfl

/-- The values of a state without open variables solve the problem. -/
theorem Problem.Sound.solves (proper : problem.Proper) (sound : problem.Sound state) {order : VariableOrder}
    (full : problem.select order state = none) : problem.Solves state.pick := by
  refine ⟨fun place inside => ?_, fun c member => ?_⟩
  · obtain ⟨value, stored⟩ := State.isOpen_eq_false_iff.1 (closed_of_select full inside)
    rw [State.pick, stored]
    exact sound.inside place value stored
  · have decided : ∀ place ∈ c.places, state.isOpen place = false := fun place listed =>
      closed_of_select full (proper.inside c (List.mem_append_left _ member) place listed)
    rw [← holds_env_eq proper state.agrees_pick (List.mem_append_left _ member) decided]
    exact sound.checked c member decided

/-- What a search knows when it has covered some picks: `known` stays true of the best assignment, and
assignments and bounds cover what they are about. -/
structure Coverage (problem : Problem R) (options : SolveOptions) (known : Option (Solution R) → Prop)
    (covered : Option (Solution R) → (Nat → Nat) → Prop) : Prop where
  stays : ∀ {state} {tally found : Tally R}, tally.record problem state = .ok found → known tally.best → known found.best
  grows : ∀ {state} {tally found : Tally R}, tally.record problem state = .ok found → known tally.best →
    ∀ pick, covered tally.best pick → covered found.best pick
  leaf : ∀ {state} {tally found : Tally R}, tally.record problem state = .ok found → known tally.best →
    ∀ pick, state.Agrees pick → covered found.best pick
  outbid : ∀ {state before} {tally : Tally R}, withinBound problem options (tally.within before []) state = .ok false →
    known tally.best → ∀ pick, state.Agrees pick → covered tally.best pick

/-- A walk that comes back has covered every solution. -/
theorem Walk.covers (proper : problem.Proper) {known : Option (Solution R) → Prop}
    {covered : Option (Solution R) → (Nat → Nat) → Prop} (coverage : Coverage problem options known covered)
    (walk : Walk problem options part state tally ending) (sound : problem.Sound state)
    (fits : part.Fits problem state) (start : known tally.best) {after : Tally R} (back : ending = .back after) :
    known after.best ∧ (∀ pick, covered tally.best pick → covered after.best pick) ∧
      ∀ pick, problem.Solves pick → state.Agrees pick → part.Has pick → covered after.best pick := by
  induction walk generalizing after with
  | @leaf state tally found full recorded more =>
    cases back
    exact ⟨coverage.stays recorded start, coverage.grows recorded start,
      fun pick _ agrees _ => coverage.leaf recorded start pick agrees⟩
  | final full recorded finished => cases back
  | @inner state tally ending place chosen walked ih =>
    obtain ⟨still, kept, covers⟩ := ih sound (isOpen_of_select chosen) start back
    exact ⟨still, kept, fun pick solves agrees _ => covers pick solves agrees (Nat.zero_le _)⟩
  | @last state tally place value beyond =>
    cases back
    refine ⟨start, fun _ => id, fun pick solves _ has => ?_⟩
    have inside := solves.picks place fits.1
    have atLeast : value ≤ pick place := has
    omega
  | @dead state tally ending place value within dead rest ih =>
    obtain ⟨still, kept, covers⟩ := ih sound fits start back
    refine ⟨still, kept, fun pick solves agrees has => covers pick solves agrees ?_⟩
    have beyond : value ≤ pick place := has
    have live := (sound.admits pick solves agrees).alive place fits.1
    have apart : value ≠ pick place := by
      rintro rfl
      rw [dead] at live
      cases live
    exact lt_of_le_of_ne beyond apart
  | overBudget within live spent => cases back
  | @outbid state tally ending place value within live bound rest ih =>
    obtain ⟨still, kept, covers⟩ := ih sound fits start back
    refine ⟨still, kept, fun pick solves agrees has => ?_⟩
    have beyond : value ≤ pick place := has
    -- The pick itself may lie below an outbid value, and then it is the bound that covers it.
    by_cases here : value = pick place
    · subst here
      have within := agrees.assign (sound.size.symm ▸ fits.1)
      exact kept pick (coverage.outbid bound start pick within)
    · exact covers pick solves agrees (lt_of_le_of_ne beyond here)
  | @refuted state left tally ending place value within live tried rest ih =>
    obtain ⟨still, kept, covers⟩ := ih sound fits start back
    have effect := tried_of_attempt proper sound fits.2 fits.1 within tried
    refine ⟨still, kept, fun pick solves agrees has => covers pick solves agrees ?_⟩
    exact lt_of_le_of_ne has (effect.refuted rfl pick solves agrees).symm
  | @entered state child tally middle ending place value within live bound tried walked rest first second =>
    have effect := tried_of_attempt proper sound fits.2 fits.1 within tried
    obtain ⟨still, kept, covers⟩ := first (effect.sound rfl) trivial start rfl
    obtain ⟨still', kept', covers'⟩ := second sound fits still back
    -- A pick lies below this child or below a later one; what the first walk covers stays covered in the second.
    refine ⟨still', fun pick covered => kept' pick (kept pick covered), fun pick solves agrees has => ?_⟩
    have beyond : value ≤ pick place := has
    by_cases here : value = pick place
    · subst here
      refine kept' pick (covers pick solves ?_ trivial)
      intro other position stored
      rw [State.given, effect.assigned] at stored
      exact agrees.assign (sound.size.symm ▸ fits.1) other position stored
    · exact covers' pick solves agrees (lt_of_le_of_ne beyond here)
  | stopped within live bound tried final walked ih => exact absurd back (final after)

/-- The best assignment that is known when a walk ends. -/
def Ending.best : Ending R → Option (Solution R)
  | .back tally => tally.best
  | .finished tally => tally.best
  | .overBudget best => best

theorem isSome_of_record {found : Tally R} (recorded : tally.record problem state = .ok found) : found.best.isSome := by
  obtain ⟨_, _, _, _, ⟨better, _⟩ | ⟨_, _, _, kept⟩⟩ := record_cases recorded
  · rw [better]
    rfl
  · rw [kept]
    rfl

/-- A solution is the assignment of a state in which every variable has a value, with its rating. -/
structure Problem.Yields (problem : Problem R) (order : VariableOrder) (state : State) (solution : Solution R) : Prop where
  sound : problem.Sound state
  full : problem.select order state = none
  assignment : solution.assignment = problem.assignment state
  rated : ∃ failures, failing problem state problem.soft = .ok failures ∧
    solution.cost = Scalar.sum (failures.map Constraint.weight) ∧ solution.violated = failures.map Constraint.name

/-- The best assignment, if there is one, is that of a state. -/
def Attained (problem : Problem R) (order : VariableOrder) (best : Option (Solution R)) : Prop :=
  ∀ solution, best = some solution → ∃ state, problem.Yields order state solution

theorem attained_none {order : VariableOrder} : Attained problem order none := fun _ impossible => by cases impossible

theorem Attained.record {order : VariableOrder} {found : Tally R} (attained : Attained problem order tally.best)
    (sound : problem.Sound state) (full : problem.select order state = none)
    (recorded : tally.record problem state = .ok found) : Attained problem order found.best := by
  intro solution same
  obtain ⟨_, _, failures, judged, ⟨better, _⟩ | ⟨best, before, _, kept⟩⟩ := record_cases recorded
  · rw [better] at same
    cases same
    exact ⟨state, sound, full, rfl, failures, judged, rfl, rfl⟩
  · rw [kept] at same
    cases same
    exact attained _ before

/-- How many values were tried does not count. -/
theorem Attained.tried {order : VariableOrder} {best : Option (Solution R)} (attained : Attained problem order best)
    (nodes : Nat) : Attained problem order (best.map fun best => { best with nodes := nodes }) := by
  intro solution same
  obtain ⟨held, known, rfl⟩ := Option.map_eq_some_iff.1 same
  obtain ⟨state, sound, full, assignment, rated⟩ := attained held known
  exact ⟨state, sound, full, assignment, rated⟩

/-- A walk only keeps assignments of states that it has come to. -/
theorem Walk.attained (proper : problem.Proper) (walk : Walk problem options part state tally ending)
    (sound : problem.Sound state) (fits : part.Fits problem state) (start : Attained problem options.order tally.best) :
    Attained problem options.order ending.best := by
  induction walk with
  | leaf full recorded more => exact start.record sound full recorded
  | final full recorded finished => exact start.record sound full recorded
  | inner chosen walked ih => exact ih sound (isOpen_of_select chosen) start
  | last beyond => exact start
  | dead within dead rest ih => exact ih sound fits start
  | overBudget within live spent => exact start
  | outbid within live bound rest ih => exact ih sound fits start
  | refuted within live tried rest ih => exact ih sound fits start
  | entered within live bound tried walked rest first second =>
    have effect := tried_of_attempt proper sound fits.2 fits.1 within tried
    exact second sound fits (first (effect.sound rfl) trivial start)
  | stopped within live bound tried final walked ih =>
    have effect := tried_of_attempt proper sound fits.2 fits.1 within tried
    exact ih (effect.sound rfl) trivial start

/-- A search is over only after an assignment. -/
theorem Walk.isOver (walk : Walk problem options part state tally ending) {after : Tally R}
    (finished : ending = .finished after) : after.best.isSome ∧ after.isOver options = true := by
  induction walk with
  | leaf full recorded more => cases finished
  | final full recorded enough =>
    cases finished
    exact ⟨isSome_of_record recorded, enough⟩
  | inner chosen walked ih => exact ih finished
  | last beyond => cases finished
  | dead within dead rest ih => exact ih finished
  | overBudget within live spent => cases finished
  | outbid within live bound rest ih => exact ih finished
  | refuted within live tried rest ih => exact ih finished
  | entered within live bound tried walked rest first second => exact second finished
  | stopped within live bound tried final walked ih => exact ih finished

end Walks

section Searches

omit [Scalar R] in
theorem outcome_eq_exhausted_iff {tally : Tally R} {nodes : Nat} :
    tally.outcome = .exhausted nodes ↔ tally.best = none ∧ tally.nodes = nodes := by
  obtain ⟨best, seen, nodes⟩ := tally
  cases best <;> simp [Tally.outcome, Progress.outcome, Tally.within]

omit [Scalar R] in
theorem outcome_eq_found_iff {tally : Tally R} {solution : Solution R} :
    tally.outcome = .found solution ↔ ∃ best, tally.best = some best ∧ solution = { best with nodes := tally.nodes } := by
  obtain ⟨best, seen, nodes⟩ := tally
  cases best <;> simp [Tally.outcome, Progress.outcome, Tally.within, eq_comm]

/-- A search fails at once, or it is a walk through the whole tree. -/
theorem search_cases (proper : problem.Proper) {outcome : Outcome R} (searched : search problem options = .ok outcome) :
    (nodeConsistent problem problem.hard problem.start = .ok none ∧ outcome = .exhausted 0 ∧
        ∀ pick, ¬ problem.Solves pick) ∨
      ∃ state ending, nodeConsistent problem problem.hard problem.start = .ok (some state) ∧ problem.Sound state ∧
        (∀ pick, state.Agrees pick) ∧ Walk problem options .node state ⟨none, 0, 0⟩ ending ∧
        match ending with
        | .back after => outcome = after.outcome
        | .finished after => outcome = after.outcome
        | .overBudget best => outcome = .overBudget (best.map fun best => { best with nodes := options.nodeBudget }) := by
  rw [search] at searched
  cases made : nodeConsistent problem problem.hard problem.start with
  | error reason => simp [made, bind, Except.bind] at searched
  | ok result =>
    have started := start_sound proper made
    cases result with
    | none =>
      simp only [made, bind, Except.bind, pure, Except.pure, Except.ok.injEq] at searched
      exact .inl ⟨rfl, searched.symm, started⟩
    | some state =>
      obtain ⟨sound, empty⟩ := started
      simp only [made, bind, Except.bind] at searched
      have enough : turnsNeeded options true (0 : Nat) ([] : List Frame).length ≤ turnBound options := by
        simp only [turnsNeeded, turnBound, if_true, List.length_nil]
        omega
      obtain ⟨ending, walk, continues⟩ :=
        (walked proper (turnBound options)).1 state ⟨none, 0, 0⟩ [] outcome sound enough searched
      refine .inr ⟨state, ending, rfl, sound, fun pick place value stored => by simp [empty] at stored, walk, ?_⟩
      cases ending with
      | finished after => exact continues
      | overBudget best => exact continues
      | back after =>
        obtain ⟨later, _, needed, ran⟩ := continues
        cases later with
        | zero => simp [turnsNeeded] at needed
        | succ later =>
          rw [run] at ran
          exact (Except.ok.inj ran).symm

/-- The best assignment that a search has to show. -/
def Outcome.best : Outcome R → Option (Solution R)
  | .found solution => some solution
  | .exhausted _ => none
  | .overBudget best => best

omit [Scalar R] in
theorem best_outcome (tally : Tally R) :
    tally.outcome.best = tally.best.map fun best => { best with nodes := tally.nodes } := by
  obtain ⟨best, seen, nodes⟩ := tally
  cases best <;> rfl

/-- What a search has to show is the assignment of a state in which every variable has a value. -/
theorem search_attained (proper : problem.Proper) {outcome : Outcome R}
    (searched : search problem options = .ok outcome) : Attained problem options.order outcome.best := by
  rcases search_cases proper searched with ⟨_, rfl, _⟩ | ⟨state, ending, _, sound, _, walk, ended⟩
  · exact attained_none
  · have attained := walk.attained proper sound trivial attained_none
    cases ending with
    | back after =>
      rw [show outcome = after.outcome from ended, best_outcome]
      exact attained.tried after.nodes
    | finished after =>
      rw [show outcome = after.outcome from ended, best_outcome]
      exact attained.tried after.nodes
    | overBudget best =>
      rw [show outcome = _ from ended]
      exact attained.tried options.nodeBudget

theorem search_found (proper : problem.Proper) {solution : Solution R}
    (searched : search problem options = .ok (.found solution)) : ∃ pick, problem.Solves pick := by
  obtain ⟨state, yields⟩ := search_attained proper searched solution rfl
  exact ⟨state.pick, yields.sound.solves proper yields.full⟩

theorem search_exhausted (proper : problem.Proper) {nodes : Nat}
    (searched : search problem options = .ok (.exhausted nodes)) : ∀ pick, ¬ problem.Solves pick := by
  rcases search_cases proper searched with ⟨_, _, none⟩ | ⟨state, ending, _, sound, agrees, walk, outcome⟩
  · exact none
  · cases ending with
    | back after =>
      obtain ⟨none, _⟩ := outcome_eq_exhausted_iff.1 outcome.symm
      have coverage : Coverage problem options (fun _ => True) (fun best _ => best.isSome = true) := by
        refine ⟨fun _ _ => trivial, fun recorded _ _ _ => isSome_of_record recorded,
          fun recorded _ _ _ => isSome_of_record recorded, fun bound _ _ _ => ?_⟩
        obtain ⟨_, best, _, known, _⟩ := withinBound_false bound
        rw [known]
        rfl
      obtain ⟨_, _, covers⟩ := walk.covers proper coverage sound trivial trivial rfl
      intro pick solves
      have met : after.best.isSome = true := covers pick solves (agrees pick) trivial
      rw [none] at met
      cases met
    | finished after =>
      obtain ⟨none, _⟩ := outcome_eq_exhausted_iff.1 outcome.symm
      have met := (walk.isOver rfl).1
      simp [none] at met
    | overBudget best => cases outcome

end Searches

end Deliberation.ConstraintSearch
