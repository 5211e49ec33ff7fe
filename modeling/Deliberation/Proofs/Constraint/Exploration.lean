import Deliberation.Proofs.Constraint.Attempt
import Mathlib.Order.Nat

/-!
The search as a walk through a tree. The stack of frames, the trail and the undoing of deaths are a
way to walk through the tree of the states that values lead to, from each node to its children in
turn and back; the walk ends early when the search is over or at its budget.
-/

namespace Deliberation.ConstraintSearch

variable {R : Type} [Scalar R]

/-- What a search knows beside where it stands. -/
structure Tally (R : Type) where
  best : Option (Solution R)
  seen : Nat
  nodes : Nat

namespace Tally

/-- A search that stands at a state with some frames. -/
def within (tally : Tally R) (state : State) (frames : List Frame) : Progress R :=
  ⟨state, frames, tally.best, tally.seen, tally.nodes⟩

/-- One more value is tried. -/
def tick (tally : Tally R) : Tally R := { tally with nodes := tally.nodes + 1 }

/-- The tally after the assignment of a state. -/
def record (problem : Problem R) (state : State) (tally : Tally R) : Except Abort (Tally R) := do
  let progress ← ConstraintSearch.record problem (tally.within state [])
  return ⟨progress.best, progress.seen, progress.nodes⟩

/-- Whether there are enough assignments, or none can cost less. -/
def isOver (options : SolveOptions) (tally : Tally R) : Bool :=
  ConstraintSearch.isOver options (tally.within ⟨#[], #[], #[]⟩ [])

/-- The outcome of a search that has ended. -/
def outcome (tally : Tally R) : Outcome R := (tally.within ⟨#[], #[], #[]⟩ []).outcome

end Tally

/-- How a walk through a part of the tree ends: it comes back, the search is over, or its budget is. -/
inductive Ending (R : Type) where
  | back (tally : Tally R)
  | finished (tally : Tally R)
  | overBudget (best : Option (Solution R))

/-- A part of the tree: a whole node, or its children for a variable from a value on. -/
inductive Part where
  | node
  | children (place value : Nat)

/-- A walk through a part of the tree below a state. -/
inductive Walk (problem : Problem R) (options : SolveOptions) : Part → State → Tally R → Ending R → Prop
  | leaf {state : State} {tally found : Tally R} (full : problem.select options.order state = none)
      (recorded : tally.record problem state = .ok found) (more : found.isOver options = false) :
      Walk problem options .node state tally (.back found)
  | final {state : State} {tally found : Tally R} (full : problem.select options.order state = none)
      (recorded : tally.record problem state = .ok found) (finished : found.isOver options = true) :
      Walk problem options .node state tally (.finished found)
  | inner {state : State} {tally : Tally R} {ending : Ending R} {place : Nat}
      (chosen : problem.select options.order state = some place)
      (walked : Walk problem options (.children place 0) state tally ending) :
      Walk problem options .node state tally ending
  | last {state : State} {tally : Tally R} {place value : Nat} (beyond : problem.domainSize place ≤ value) :
      Walk problem options (.children place value) state tally (.back tally)
  | dead {state : State} {tally : Tally R} {ending : Ending R} {place value : Nat}
      (within : value < problem.domainSize place) (dead : state.isAlive place value = false)
      (rest : Walk problem options (.children place (value + 1)) state tally ending) :
      Walk problem options (.children place value) state tally ending
  | overBudget {state : State} {tally : Tally R} {place value : Nat} (within : value < problem.domainSize place)
      (live : state.isAlive place value = true) (spent : options.nodeBudget < tally.tick.nodes) :
      Walk problem options (.children place value) state tally (.overBudget tally.best)
  | outbid {state : State} {tally : Tally R} {ending : Ending R} {place value : Nat}
      (within : value < problem.domainSize place) (live : state.isAlive place value = true)
      (bound : withinBound problem options (tally.tick.within state []) (state.assign place (some value)) = .ok false)
      (rest : Walk problem options (.children place (value + 1)) state tally.tick ending) :
      Walk problem options (.children place value) state tally ending
  | refuted {state left : State} {tally : Tally R} {ending : Ending R} {place value : Nat}
      (within : value < problem.domainSize place) (live : state.isAlive place value = true)
      (tried : attempt problem state place value = .ok (false, left))
      (rest : Walk problem options (.children place (value + 1)) state tally.tick ending) :
      Walk problem options (.children place value) state tally ending
  | entered {state child : State} {tally after : Tally R} {ending : Ending R} {place value : Nat}
      (within : value < problem.domainSize place) (live : state.isAlive place value = true)
      (bound : withinBound problem options (tally.tick.within state []) (state.assign place (some value)) = .ok true)
      (tried : attempt problem state place value = .ok (true, child))
      (walked : Walk problem options .node child tally.tick (.back after))
      (rest : Walk problem options (.children place (value + 1)) state after ending) :
      Walk problem options (.children place value) state tally ending
  | stopped {state child : State} {tally : Tally R} {ending : Ending R} {place value : Nat}
      (within : value < problem.domainSize place) (live : state.isAlive place value = true)
      (bound : withinBound problem options (tally.tick.within state []) (state.assign place (some value)) = .ok true)
      (tried : attempt problem state place value = .ok (true, child)) (final : ∀ after, ending ≠ .back after)
      (walked : Walk problem options .node child tally.tick ending) :
      Walk problem options (.children place value) state tally ending

section Trying

variable {problem : Problem R} {options : SolveOptions} {base : State} {tally : Tally R} {frames before : List Frame}
  {place value : Nat}

/-- What trying the values of a variable amounts to: nothing passes, or one child is entered. -/
def Trying (problem : Problem R) (options : SolveOptions) (base : State) (tally : Tally R) (place value : Nat)
    (frames : List Frame) : Attempt R → Prop
  | .failed progress => ∃ after, progress = after.within base frames ∧ tally.nodes ≤ after.nodes ∧
      Walk problem options (.children place value) base tally (.back after)
  | .overBudget best => Walk problem options (.children place value) base tally (.overBudget best)
  | .advanced progress => ∃ child after entered,
      progress = after.within child (⟨place, entered + 1, base.trail.size⟩ :: frames) ∧
      tally.nodes < after.nodes ∧ after.nodes ≤ options.nodeBudget ∧ Tried problem base place entered true child ∧
      ∀ ending, Walk problem options .node child after ending →
        match ending with
        | .back later => ∀ ending, Walk problem options (.children place (entered + 1)) base later ending →
            Walk problem options (.children place value) base tally ending
        | ending => Walk problem options (.children place value) base tally ending

/-- A value that leads nowhere is passed over. -/
theorem Trying.skip {after : Tally R} {result : Attempt R} (nodes : tally.nodes ≤ after.nodes)
    (skipped : ∀ ending, Walk problem options (.children place (value + 1)) base after ending →
      Walk problem options (.children place value) base tally ending)
    (trying : Trying problem options base after place (value + 1) frames result) :
    Trying problem options base tally place value frames result := by
  cases result with
  | failed progress =>
    obtain ⟨last, same, more, walked⟩ := trying
    exact ⟨last, same, nodes.trans more, skipped _ walked⟩
  | overBudget best => exact skipped _ trying
  | advanced progress =>
    obtain ⟨child, last, entered, same, more, enough, tried, enter⟩ := trying
    refine ⟨child, last, entered, same, nodes.trans_lt more, enough, tried, fun ending walked => ?_⟩
    have entered := enter ending walked
    cases ending with
    | back later => exact fun ending rest => skipped ending (entered ending rest)
    | finished later => exact skipped _ entered
    | overBudget best => exact skipped _ entered

/-- The next child is entered when its value passes all checks. -/
theorem trying_advanced {child : State} (proper : problem.Proper) (sound : problem.Sound base)
    (vacant : base.isOpen place = true) (inside : place < problem.values.size)
    (within : value < problem.domainSize place) (live : base.isAlive place value = true)
    (enough : ¬ options.nodeBudget < tally.tick.nodes)
    (bound : withinBound problem options (tally.tick.within base []) (base.assign place (some value)) = .ok true)
    (tried : attempt problem base place value = .ok (true, child)) :
    Trying problem options base tally place value frames
      (.advanced (tally.tick.within child (⟨place, value + 1, base.trail.size⟩ :: frames))) := by
  refine ⟨child, tally.tick, value, rfl, Nat.lt_succ_self _, Nat.not_lt.1 enough,
    tried_of_attempt proper sound vacant inside within tried, fun ending walked => ?_⟩
  cases ending with
  | back later => exact fun ending rest => Walk.entered within live bound tried walked rest
  | finished later => exact .stopped within live bound tried (by simp) walked
  | overBudget best => exact .stopped within live bound tried (by simp) walked

/-- A dead value is passed over. -/
theorem tryValues_dead {mark remaining : Nat} (dead : base.isAlive place value = false) :
    tryValues problem options place mark frames (remaining + 1) value (tally.within base before) =
      tryValues problem options place mark frames remaining (value + 1) (tally.within base before) := by
  have skip : (!(tally.within base before).state.isAlive place value) = true := by simp [Tally.within, dead]
  rw [tryValues, if_pos skip]

/-- What becomes of a live value. -/
theorem tryValues_live {mark remaining : Nat} (live : base.isAlive place value = true) :
    tryValues problem options place mark frames (remaining + 1) value (tally.within base before) =
      if options.nodeBudget < tally.tick.nodes then .ok (.overBudget tally.best)
      else (do
        if ← withinBound problem options (tally.tick.within base []) (base.assign place (some value)) then
          match ← attempt problem base place value with
          | (true, child) => .ok (.advanced (tally.tick.within child (⟨place, value + 1, mark⟩ :: frames)))
          | (false, left) =>
            tryValues problem options place mark frames remaining (value + 1)
              (tally.tick.within ((left.undo mark).assign place none) before)
        else
          let _ ← consistent problem (base.assign place (some value)) (problem.hardOf place)
          tryValues problem options place mark frames remaining (value + 1)
            (tally.tick.within (((base.assign place (some value)).undo mark).assign place none) before)) := by
  have enter : ¬ (!(tally.within base before).state.isAlive place value) = true := by simp [Tally.within, live]
  rw [tryValues, if_neg enter]
  show (if options.nodeBudget < tally.tick.nodes then _ else _) = _
  by_cases spent : options.nodeBudget < tally.tick.nodes
  · rw [if_pos spent, if_pos spent]
    rfl
  · rw [if_neg spent, if_neg spent]
    show (withinBound problem options (tally.tick.within base []) (base.assign place (some value)) >>= _) = _
    cases withinBound problem options (tally.tick.within base []) (base.assign place (some value)) with
    | error reason => rfl
    | ok bounded =>
      rw [attempt]
      show (consistent problem (base.assign place (some value)) (problem.hardOf place) >>= _) = _
      cases consistent problem (base.assign place (some value)) (problem.hardOf place) with
      | error reason => cases bounded <;> rfl
      | ok fine =>
        -- A value that is outbid is checked all the same: the check may stop the search.
        cases bounded <;> cases fine
        · rfl
        · rfl
        · rfl
        · show (forwardCheck problem (problem.hardOf place) (base.assign place (some value)) >>= _) =
            (forwardCheck problem (problem.hardOf place) (base.assign place (some value)) >>= _)
          cases forwardCheck problem (problem.hardOf place) (base.assign place (some value)) with
          | error reason => rfl
          | ok checked =>
            obtain ⟨passed, left⟩ := checked
            cases passed <;> rfl

theorem tryValues_trying (proper : problem.Proper) (sound : problem.Sound base) (vacant : base.isOpen place = true)
    (inside : place < problem.values.size) {remaining : Nat} (left : remaining = problem.domainSize place - value)
    {result : Attempt R} (ran : tryValues problem options place base.trail.size frames remaining value
      (tally.within base before) = .ok result) :
    Trying problem options base tally place value frames result := by
  -- What stands on the stack while values are passed over is not read, hence any `before`.
  induction remaining generalizing value tally before with
  | zero =>
    rw [tryValues, Except.ok.injEq] at ran
    subst ran
    exact ⟨tally, rfl, le_rfl, .last (by omega)⟩
  | succ remaining ih =>
    have within : value < problem.domainSize place := by omega
    have fewer : remaining = problem.domainSize place - (value + 1) := by omega
    by_cases dead : base.isAlive place value = false
    · rw [tryValues_dead dead] at ran
      exact (ih fewer ran).skip le_rfl fun _ rest => .dead within dead rest
    · have live : base.isAlive place value = true := by simpa using dead
      rw [tryValues_live live] at ran
      by_cases spent : options.nodeBudget < tally.tick.nodes
      · rw [if_pos spent, Except.ok.injEq] at ran
        subst ran
        exact .overBudget within live spent
      · rw [if_neg spent] at ran
        cases bound : withinBound problem options (tally.tick.within base []) (base.assign place (some value)) with
        | error reason => simp [bound, bind, Except.bind] at ran
        | ok bounded =>
          cases bounded with
          | false =>
            cases checked : consistent problem (base.assign place (some value)) (problem.hardOf place) with
            | error reason => simp [bound, checked, bind, Except.bind] at ran
            | ok fine =>
              simp only [bound, checked, bind, Except.bind, Bool.false_eq_true, if_false] at ran
              rw [(State.since_assign base place (some value)).restore vacant rfl] at ran
              exact (ih fewer ran).skip (Nat.le_succ _) fun _ rest => .outbid within live bound rest
          | true =>
            cases tried : attempt problem base place value with
            | error reason => simp [bound, tried, bind, Except.bind] at ran
            | ok result =>
              obtain ⟨passed, child⟩ := result
              have effect := tried_of_attempt proper sound vacant inside within tried
              cases passed with
              | true =>
                simp only [bound, tried, bind, Except.bind, if_true, Except.ok.injEq] at ran
                subst ran
                exact trying_advanced proper sound vacant inside within live spent bound tried
              | false =>
                simp only [bound, tried, bind, Except.bind, if_true] at ran
                rw [effect.since.restore vacant effect.assigned] at ran
                exact (ih fewer ran).skip (Nat.le_succ _) fun _ rest => .refuted within live tried rest

end Trying

section Selection

variable {problem : Problem R} {order : VariableOrder} {state : State}

omit [Scalar R] in
theorem mem_open {place : Nat} : place ∈ (List.range problem.values.size).filter state.isOpen ↔
    place < problem.values.size ∧ state.isOpen place = true := by
  rw [List.mem_filter, List.mem_range]

omit [Scalar R] in
theorem isOpen_of_select {place : Nat} (chosen : problem.select order state = some place) :
    place < problem.values.size ∧ state.isOpen place = true := by
  rw [Problem.select] at chosen
  rw [← mem_open]
  cases open_ : (List.range problem.values.size).filter state.isOpen with
  | nil => simp [open_] at chosen
  | cons first rest =>
    cases order with
    | declaration =>
      simp only [open_, Option.some.injEq] at chosen
      simp [chosen]
    | mostConstrained =>
      simp only [open_, Option.some.injEq] at chosen
      have kept : ∀ best ∈ first :: rest, ∀ v ∈ rest,
          (if problem.precedes state v best then v else best) ∈ first :: rest := by
        intro best among v later
        split
        · exact List.mem_cons_of_mem _ later
        · exact among
      rw [← chosen]
      exact List.foldlRecOn (motive := (· ∈ first :: rest)) rest _ (by simp) kept

omit [Scalar R] in
theorem closed_of_select (full : problem.select order state = none) {place : Nat} (inside : place < problem.values.size) :
    state.isOpen place = false := by
  rw [Problem.select] at full
  cases open_ : (List.range problem.values.size).filter state.isOpen with
  | nil =>
    by_contra vacant
    have member : place ∈ (List.range problem.values.size).filter state.isOpen :=
      mem_open.2 ⟨inside, by simpa using vacant⟩
    rw [open_] at member
    simp at member
  | cons first rest => cases order <;> simp [open_] at full

end Selection

section Turns

variable {problem : Problem R} {options : SolveOptions} {turns : Nat}

/-- How many turns are left to take at most, for so many values tried and frames open. -/
def turnsNeeded (options : SolveOptions) (descends : Bool) (nodes frames : Nat) : Nat :=
  2 * (options.nodeBudget - nodes) + frames + if descends then 2 else 1

/-- What a search does after a walk through a part of its tree. -/
def Continues (problem : Problem R) (options : SolveOptions) (turns : Nat) (state : State) (frames : List Frame)
    (outcome : Outcome R) : Ending R → Prop
  | .back tally => ∃ later ≤ turns, turnsNeeded options false tally.nodes frames.length ≤ later ∧
      run problem options later false (tally.within state frames) = .ok outcome
  | .finished tally => outcome = tally.outcome
  | .overBudget best => outcome = .overBudget (best.map fun best => { best with nodes := options.nodeBudget })

/-- With so many turns a search walks through the tree below a state, and then goes on. -/
def NodeWalked (problem : Problem R) (options : SolveOptions) (turns : Nat) : Prop :=
  ∀ state tally frames outcome, problem.Sound state → turnsNeeded options true tally.nodes frames.length ≤ turns →
    run problem options turns true (tally.within state frames) = .ok outcome →
      ∃ ending, Walk problem options .node state tally ending ∧ Continues problem options turns state frames outcome ending

/-- With so many turns a search walks through what is left of a frame, and then goes on. -/
def ChildrenWalked (problem : Problem R) (options : SolveOptions) (turns : Nat) : Prop :=
  ∀ state base tally place value frames outcome, problem.Sound base → place < problem.values.size →
    base.isOpen place = true → (state.undo base.trail.size).assign place none = base →
    turnsNeeded options false tally.nodes (frames.length + 1) ≤ turns →
    run problem options turns false (tally.within state (⟨place, value, base.trail.size⟩ :: frames)) = .ok outcome →
      ∃ ending, Walk problem options (.children place value) base tally ending ∧
        Continues problem options turns base frames outcome ending

theorem Continues.mono {fewer : Nat} (le : fewer ≤ turns) {state : State} {frames : List Frame} {outcome : Outcome R}
    {ending : Ending R} (continues : Continues problem options fewer state frames outcome ending) :
    Continues problem options turns state frames outcome ending := by
  cases ending with
  | back tally =>
    obtain ⟨later, less, enough, ran⟩ := continues
    exact ⟨later, less.trans le, enough, ran⟩
  | finished tally => exact continues
  | overBudget best => exact continues

theorem run_children (state : State) (frame : Frame) (frames : List Frame) (tally : Tally R) :
    run problem options (turns + 1) false (tally.within state (frame :: frames)) = (do
      match ← tryValues problem options frame.place frame.mark frames (problem.domainSize frame.place - frame.next)
          frame.next (tally.within ((state.undo frame.mark).assign frame.place none) (frame :: frames)) with
      | .advanced progress => run problem options turns true progress
      | .failed progress => run problem options turns false progress
      | .overBudget best => .ok (.overBudget (best.map fun best => { best with nodes := options.nodeBudget }))) := rfl

theorem run_inner {state : State} {place : Nat} (chosen : problem.select options.order state = some place)
    (frames : List Frame) (tally : Tally R) : run problem options (turns + 1) true (tally.within state frames) =
      run problem options (turns + 1) false (tally.within state (⟨place, 0, state.trail.size⟩ :: frames)) := by
  rw [run_children, run, descend]
  simp only [Tally.within, chosen]
  rfl

theorem record_within (problem : Problem R) (state : State) (frames : List Frame) (tally : Tally R) :
    record problem (tally.within state frames) = (tally.record problem state).map (·.within state frames) := by
  rw [Tally.record, record, record]
  simp only [Tally.within]
  cases failing problem state problem.soft <;> rfl

theorem run_leaf {state : State} (full : problem.select options.order state = none) (frames : List Frame)
    (tally : Tally R) : run problem options (turns + 1) true (tally.within state frames) = (do
      let found ← tally.record problem state
      if found.isOver options then .ok found.outcome
      else run problem options (turns + 1) false (found.within state frames)) := by
  have recorded : descend problem options (tally.within state frames) =
      (tally.record problem state).map fun found => (found.isOver options, found.within state frames) := by
    have chosen : problem.select options.order (tally.within state frames).state = none := full
    rw [descend, chosen]
    dsimp only
    rw [record_within]
    cases tally.record problem state <;> rfl
  rw [run, if_pos rfl, recorded]
  cases tally.record problem state with
  | error reason => rfl
  | ok found =>
    show (if found.isOver options then _ else _) = (if found.isOver options then _ else _)
    by_cases finished : found.isOver options = true
    · rw [if_pos finished, if_pos finished]
      rfl
    · rw [if_neg finished, if_neg finished]
      rfl

/-- The assignment of a state with its rating. -/
def rated (problem : Problem R) (state : State) (failures : List (Constraint R)) (tally : Tally R) : Solution R :=
  ⟨problem.assignment state, Scalar.sum (failures.map Constraint.weight), failures.map Constraint.name, tally.nodes,
    tally.seen + 1⟩

/-- An assignment is counted, and kept when it costs less than the best one. -/
theorem record_cases {state : State} {tally found : Tally R} (recorded : tally.record problem state = .ok found) :
    found.seen = tally.seen + 1 ∧ found.nodes = tally.nodes ∧
      ∃ failures, failing problem state problem.soft = .ok failures ∧
        (found.best = some (rated problem state failures tally) ∧
            (∀ best, tally.best = some best → (rated problem state failures tally).cost < best.cost) ∨
          ∃ best, tally.best = some best ∧ ¬ (rated problem state failures tally).cost < best.cost ∧
            found.best = some best) := by
  rw [Tally.record, record] at recorded
  cases failed : failing problem (tally.within state []).state problem.soft with
  | error reason => simp [failed, bind, Except.bind] at recorded
  | ok failures =>
    simp only [failed, bind, Except.bind, pure, Except.pure, Except.ok.injEq] at recorded
    subst recorded
    refine ⟨rfl, rfl, failures, failed, ?_⟩
    obtain ⟨best, seen, nodes⟩ := tally
    cases best with
    | none => exact .inl ⟨rfl, fun _ same => by cases same⟩
    | some best =>
      by_cases better : Scalar.sum (failures.map Constraint.weight) < best.cost
      · refine .inl ⟨by simp [Tally.within, better, rated], fun other same => ?_⟩
        cases same
        exact better
      · exact .inr ⟨best, rfl, better, by simp [Tally.within, better]⟩

/-- Only a value whose state costs as much as the best assignment is outbid. -/
theorem withinBound_false {state state' : State} {frames : List Frame} {tally : Tally R}
    (outbid : withinBound problem options (tally.within state frames) state' = .ok false) :
    options.strategy = .branchAndBound ∧ ∃ best failures, tally.best = some best ∧
      failing problem state' problem.soft = .ok failures ∧
      ¬ Scalar.sum (failures.map Constraint.weight) < best.cost := by
  obtain ⟨order, strategy, budget⟩ := options
  obtain ⟨best, seen, nodes⟩ := tally
  cases strategy with
  | firstSolution => cases outbid
  | bestOf n => cases outbid
  | branchAndBound =>
    cases best with
    | none => cases outbid
    | some best =>
      have compared : (softCost problem state' >>= fun cost => pure (decide (cost < best.cost))) =
          (.ok false : Except Abort Bool) := outbid
      rw [softCost] at compared
      cases failed : failing problem state' problem.soft with
      | error reason => simp [failed, bind, Except.bind] at compared
      | ok failures =>
        simp only [failed, bind, Except.bind, pure, Except.pure, Except.ok.injEq, decide_eq_false_iff_not] at compared
        exact ⟨rfl, best, failures, rfl, rfl, compared⟩

theorem childrenWalked (proper : problem.Proper)
    (earlier : ∀ fewer < turns, NodeWalked problem options fewer ∧ ChildrenWalked problem options fewer) :
    ChildrenWalked problem options turns := by
  intro state base tally place value frames outcome sound inside vacant restored enough ran
  cases turns with
  | zero => simp [turnsNeeded] at enough
  | succ turns =>
    rw [run_children, restored] at ran
    cases tried : tryValues problem options place base.trail.size frames (problem.domainSize place - value) value
        (tally.within base (⟨place, value, base.trail.size⟩ :: frames)) with
    | error reason => simp [tried, bind, Except.bind] at ran
    | ok result =>
      have trying := tryValues_trying proper sound vacant inside rfl tried
      simp only [tried, bind, Except.bind] at ran
      simp only [turnsNeeded, Bool.false_eq_true, if_false] at enough
      cases result with
      | overBudget best =>
        rw [Except.ok.injEq] at ran
        exact ⟨_, trying, ran.symm⟩
      | failed progress =>
        obtain ⟨after, rfl, more, walked⟩ := trying
        refine ⟨_, walked, turns, Nat.le_succ _, ?_, ran⟩
        simp only [turnsNeeded, Bool.false_eq_true, if_false]
        omega
      | advanced progress =>
        obtain ⟨child, after, entered, rfl, more, within, effect, enter⟩ := trying
        have left : turnsNeeded options true after.nodes
            (⟨place, entered + 1, base.trail.size⟩ :: frames : List Frame).length ≤ turns := by
          simp only [turnsNeeded, if_true, List.length_cons]
          omega
        -- The walk through the child leaves fewer turns, with which the frame's other values are walked through.
        obtain ⟨ending, walked, continues⟩ :=
          (earlier turns (Nat.lt_succ_self _)).1 child after _ outcome (effect.sound rfl) left ran
        have whole := enter ending walked
        cases ending with
        | back later =>
          obtain ⟨fewer, less, needed, ran⟩ := continues
          rw [List.length_cons] at needed
          obtain ⟨ending, rest, continues⟩ := (earlier fewer (by omega)).2 child base later place (entered + 1) frames
            outcome sound inside vacant (effect.since.restore vacant effect.assigned) needed ran
          exact ⟨ending, whole ending rest, continues.mono (by omega)⟩
        | finished later => exact ⟨_, whole, continues⟩
        | overBudget best => exact ⟨_, whole, continues⟩

theorem nodeWalked (children : ChildrenWalked problem options turns) : NodeWalked problem options turns := by
  intro state tally frames outcome sound enough ran
  cases turns with
  | zero => simp [turnsNeeded] at enough
  | succ turns =>
    simp only [turnsNeeded, if_true] at enough
    cases chosen : problem.select options.order state with
    | some place =>
      rw [run_inner chosen] at ran
      obtain ⟨inside, vacant⟩ := isOpen_of_select chosen
      have restored : (state.undo state.trail.size).assign place none = state := by
        rw [State.undo_refl, State.assign_none vacant]
      have left : turnsNeeded options false tally.nodes (frames.length + 1) ≤ turns + 1 := by
        simp only [turnsNeeded, Bool.false_eq_true, if_false]
        omega
      obtain ⟨ending, walked, continues⟩ :=
        children state state tally place 0 frames outcome sound inside vacant restored left ran
      exact ⟨ending, .inner chosen walked, continues⟩
    | none =>
      rw [run_leaf chosen] at ran
      cases recorded : tally.record problem state with
      | error reason => simp [recorded, bind, Except.bind] at ran
      | ok found =>
        simp only [recorded, bind, Except.bind] at ran
        by_cases finished : found.isOver options = true
        · rw [if_pos finished, Except.ok.injEq] at ran
          exact ⟨_, .final chosen recorded finished, ran.symm⟩
        · rw [if_neg finished] at ran
          refine ⟨_, .leaf chosen recorded (by simpa using finished), turns + 1, le_rfl, ?_, ran⟩
          rw [(record_cases recorded).2.1]
          simp only [turnsNeeded, Bool.false_eq_true, if_false]
          omega

theorem walked (proper : problem.Proper) (turns : Nat) :
    NodeWalked problem options turns ∧ ChildrenWalked problem options turns := by
  induction turns using Nat.strongRecOn with
  | ind turns earlier =>
    have children := childrenWalked proper earlier
    exact ⟨nodeWalked children, children⟩

end Turns

end Deliberation.ConstraintSearch
