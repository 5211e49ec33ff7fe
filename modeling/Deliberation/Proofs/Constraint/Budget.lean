import Deliberation.Proofs.Constraint.Checked

/-!
The budget of a search only cuts it off. A search that does not come to the end of its budget goes the same
way with any greater one, and one that does has found an assignment at most as cheap as with a greater one.
-/

namespace Deliberation

variable {R : Type} [Scalar R]

namespace ConstraintSearch

variable {problem : Problem R} {options : SolveOptions} {budget : Nat} {tally : Tally R} {frames before : List Frame}
  {state : State} {turns : Nat} {outcome : Outcome R}

/-! ### Values of one variable -/

/-- Whether a value passes all checks, and the state that it leaves; the budget does not count. -/
def judge (problem : Problem R) (options : SolveOptions) (tally : Tally R) (state : State) (place value : Nat) :
    Except Abort (Bool × State) := do
  if ← withinBound problem options (tally.tick.within state []) (state.assign place (some value)) then
    attempt problem state place value
  else
    let _ ← consistent problem (state.assign place (some value)) (problem.hardOf place)
    return (false, state.assign place (some value))

theorem tryValues_judge {place mark remaining value : Nat} (live : state.isAlive place value = true) :
    tryValues problem options place mark frames (remaining + 1) value (tally.within state before) =
      if options.nodeBudget < tally.tick.nodes then .ok (.overBudget tally.best)
      else (do
        match ← judge problem options tally state place value with
        | (true, child) => .ok (.advanced (tally.tick.within child (⟨place, value + 1, mark⟩ :: frames)))
        | (false, left) =>
          tryValues problem options place mark frames remaining (value + 1)
            (tally.tick.within ((left.undo mark).assign place none) before)) := by
  rw [tryValues_live live, judge]
  split
  · rfl
  · cases withinBound problem options (tally.tick.within state []) (state.assign place (some value)) with
    | error reason => rfl
    | ok bounded =>
      cases bounded with
      | true => rfl
      | false =>
        simp only [bind, Except.bind, Bool.false_eq_true, if_false]
        cases consistent problem (state.assign place (some value)) (problem.hardOf place) <;> rfl

/-- What trying values leaves of a search: it has tried more of them, within its budget, and has the same best
assignment. -/
def Counts (options : SolveOptions) (frames : List Frame) (tally : Tally R) : Attempt R → Prop
  | .failed after => after.best = tally.best ∧ tally.nodes ≤ after.nodes ∧ after.nodes ≤ options.nodeBudget ∧
      after.frames = frames
  | .advanced after => after.best = tally.best ∧ tally.nodes < after.nodes ∧ after.nodes ≤ options.nodeBudget ∧
      after.frames.length = frames.length + 1
  | .overBudget best => best = tally.best

omit [Scalar R] in
theorem Counts.of_tick {result : Attempt R} (counts : Counts options frames tally.tick result) :
    Counts options frames tally result := by
  cases result with
  | failed after =>
    obtain ⟨best, more, within, same⟩ := counts
    exact ⟨best, (Nat.le_succ _).trans more, within, same⟩
  | advanced after =>
    obtain ⟨best, more, within, deeper⟩ := counts
    exact ⟨best, (Nat.le_succ _).trans_lt more, within, deeper⟩
  | overBudget best => exact counts

theorem tryValues_counts {place mark remaining value : Nat} {result : Attempt R} (within : tally.nodes ≤ options.nodeBudget)
    (tried : tryValues problem options place mark frames remaining value (tally.within state before) = .ok result) :
    Counts options frames tally result := by
  induction remaining generalizing value tally state with
  | zero =>
    cases tried
    exact ⟨rfl, le_rfl, within, rfl⟩
  | succ remaining ih =>
    cases live : state.isAlive place value with
    | false =>
      rw [tryValues_dead live] at tried
      exact ih within tried
    | true =>
      rw [tryValues_judge live] at tried
      split at tried
      · cases tried
        rfl
      · next unspent =>
        have within' : tally.tick.nodes ≤ options.nodeBudget := Nat.not_lt.1 unspent
        obtain ⟨⟨passed, child⟩, _, tried⟩ := Lists.bind_eq_ok tried
        cases passed with
        | true =>
          cases tried
          exact ⟨rfl, Nat.lt_succ_self _, within', rfl⟩
        | false => exact (ih within' tried).of_tick

/-- With a greater budget the values of a variable come to the same, unless the budget is spent over them. -/
theorem tryValues_more (more : options.nodeBudget ≤ budget) {place mark remaining value : Nat} {result : Attempt R}
    (tried : tryValues problem options place mark frames remaining value (tally.within state before) = .ok result)
    (unspent : ∀ best, result ≠ .overBudget best) :
    tryValues problem { options with nodeBudget := budget } place mark frames remaining value (tally.within state before) =
      .ok result := by
  induction remaining generalizing value tally state with
  | zero => exact tried
  | succ remaining ih =>
    cases live : state.isAlive place value with
    | false =>
      rw [tryValues_dead live] at tried ⊢
      exact ih tried
    | true =>
      rw [tryValues_judge live] at tried ⊢
      split at tried
      · exact absurd (Except.ok.inj tried).symm (unspent _)
      · next affordable =>
        have affordable' : ¬ budget < tally.tick.nodes := fun spent => affordable (Nat.lt_of_le_of_lt more spent)
        obtain ⟨⟨passed, child⟩, judged, tried⟩ := Lists.bind_eq_ok tried
        have judged' : judge problem { options with nodeBudget := budget } tally state place value = .ok (passed, child) :=
          judged
        rw [if_neg affordable', judged']
        cases passed with
        | true => exact tried
        | false => exact ih tried

/-! ### Runs -/

/-- An assignment that costs no more, where there is one to compare with. -/
def NoDearer (best : Option (Solution R)) (held : Option (Solution R)) : Prop :=
  ∀ solution, held = some solution → ∃ later, best = some later ∧ (later.cost < solution.cost ∨ later.cost = solution.cost)

theorem noDearer_tried (best : Option (Solution R)) (nodes : Nat) :
    NoDearer (best.map fun best => { best with nodes := nodes }) best := by
  rintro solution rfl
  exact ⟨_, rfl, .inr rfl⟩

theorem NoDearer.tried {best held : Option (Solution R)} (noDearer : NoDearer best held) (nodes : Nat) :
    NoDearer best (held.map fun held => { held with nodes := nodes }) := by
  intro solution same
  obtain ⟨own, kept, rfl⟩ := Option.map_eq_some_iff.1 same
  exact noDearer own kept

theorem noDearer_record {found : Tally R} (recorded : tally.record problem state = .ok found) :
    NoDearer found.best tally.best := by
  intro solution held
  obtain ⟨_, _, failures, _, ⟨best, cheaper⟩ | ⟨best, same, _, kept⟩⟩ := record_cases recorded
  · exact ⟨_, best, .inl (cheaper solution held)⟩
  · rw [held] at same
    cases same
    exact ⟨solution, kept, .inr rfl⟩

/-- How a search ends that has gone on from a tally: it has nothing dearer, and has tried no more values than
its budget. -/
structure EndsWithin (options : SolveOptions) (tally : Tally R) (outcome : Outcome R) : Prop where
  noDearer : NoDearer outcome.best tally.best
  nodes : ∀ solution, outcome = .found solution → solution.nodes ≤ options.nodeBudget

theorem endsWithin_outcome (within : tally.nodes ≤ options.nodeBudget) : EndsWithin options tally tally.outcome := by
  constructor
  · rw [best_outcome]
    exact noDearer_tried tally.best tally.nodes
  · intro solution found
    obtain ⟨_, _, rfl⟩ := outcome_eq_found_iff.1 found
    exact within

/-- With so many turns every search ends within its budget. -/
def AllEndWithin (problem : Problem R) (options : SolveOptions) (turns : Nat) : Prop :=
  ∀ (tally : Tally R) (state : State) (frames : List Frame) (descends : Bool) (outcome : Outcome R),
    tally.nodes ≤ options.nodeBudget → run problem options turns descends (tally.within state frames) = .ok outcome →
    EndsWithin options tally outcome

theorem AllEndWithin.children (earlier : AllEndWithin problem options turns) (within : tally.nodes ≤ options.nodeBudget)
    (ran : run problem options (turns + 1) false (tally.within state frames) = .ok outcome) :
    EndsWithin options tally outcome := by
  cases frames with
  | nil =>
    cases ran
    exact endsWithin_outcome within
  | cons frame frames =>
    rw [run_children] at ran
    obtain ⟨result, tried, ran⟩ := Lists.bind_eq_ok ran
    have counts := tryValues_counts within tried
    cases result with
    | advanced after =>
      obtain ⟨best, _, within', _⟩ := counts
      have ends := earlier ⟨after.best, after.seen, after.nodes⟩ after.state after.frames true outcome within' ran
      exact ⟨best ▸ ends.noDearer, ends.nodes⟩
    | failed after =>
      obtain ⟨best, _, within', _⟩ := counts
      have ends := earlier ⟨after.best, after.seen, after.nodes⟩ after.state after.frames false outcome within' ran
      exact ⟨best ▸ ends.noDearer, ends.nodes⟩
    | overBudget best =>
      cases counts
      cases ran
      exact ⟨noDearer_tried tally.best options.nodeBudget, fun solution found => by cases found⟩

/-- With a greater budget a search ends alike, or it was at the end of its budget and has nothing dearer with
the greater one. -/
def Outlasts (outcome : Outcome R) (longer : Except Abort (Outcome R)) : Prop :=
  longer = .ok outcome ∨
    (∃ best, outcome = .overBudget best) ∧ ∀ other, longer = .ok other → NoDearer other.best outcome.best

/-- With so many turns every search goes on alike with a greater budget. -/
def AllOutlast (problem : Problem R) (options : SolveOptions) (budget turns : Nat) : Prop :=
  ∀ (tally : Tally R) (state : State) (frames : List Frame) (descends : Bool) (outcome : Outcome R) (turns' : Nat),
    turns ≤ turns' → turnsNeeded options descends tally.nodes frames.length ≤ turns → tally.nodes ≤ options.nodeBudget →
    run problem options turns descends (tally.within state frames) = .ok outcome →
    Outlasts outcome (run problem { options with nodeBudget := budget } turns' descends (tally.within state frames))

section Ordered

variable (transitive : ∀ a b c : R, a < b → b < c → a < c)

include transitive

theorem NoDearer.trans {first second third : Option (Solution R)} (above : NoDearer first second)
    (below : NoDearer second third) : NoDearer first third := by
  rintro solution held
  obtain ⟨middle, kept, cheaper⟩ := below solution held
  obtain ⟨last, best, cheaper'⟩ := above middle kept
  refine ⟨last, best, ?_⟩
  rcases cheaper with less | same
  · rcases cheaper' with less' | same'
    · exact .inl (transitive _ _ _ less' less)
    · exact .inl (same' ▸ less)
  · exact same ▸ cheaper'

theorem AllEndWithin.node (earlier : AllEndWithin problem options turns) (within : tally.nodes ≤ options.nodeBudget)
    (ran : run problem options (turns + 1) true (tally.within state frames) = .ok outcome) :
    EndsWithin options tally outcome := by
  cases chosen : problem.select options.order state with
  | some place =>
    rw [run_inner chosen] at ran
    exact earlier.children within ran
  | none =>
    rw [run_leaf chosen] at ran
    obtain ⟨found, recorded, ran⟩ := Lists.bind_eq_ok ran
    have within' : found.nodes ≤ options.nodeBudget := (record_cases recorded).2.1 ▸ within
    have ends : EndsWithin options found outcome := by
      split at ran
      · cases ran
        exact endsWithin_outcome within'
      · exact earlier.children within' ran
    exact ⟨ends.noDearer.trans transitive (noDearer_record recorded), ends.nodes⟩

theorem allEndWithin (problem : Problem R) (options : SolveOptions) (turns : Nat) :
    AllEndWithin problem options turns := by
  induction turns with
  | zero =>
    intro tally state frames descends outcome within ran
    cases ran
    exact endsWithin_outcome within
  | succ turns earlier =>
    intro tally state frames descends outcome within ran
    cases descends with
    | false => exact earlier.children within ran
    | true => exact earlier.node transitive within ran

theorem AllOutlast.children (earlier : AllOutlast problem options budget turns) (more : options.nodeBudget ≤ budget)
    {turns' : Nat} (fewer : turns ≤ turns') (enough : turnsNeeded options false tally.nodes frames.length ≤ turns + 1)
    (within : tally.nodes ≤ options.nodeBudget)
    (ran : run problem options (turns + 1) false (tally.within state frames) = .ok outcome) :
    Outlasts outcome (run problem { options with nodeBudget := budget } (turns' + 1) false (tally.within state frames)) := by
  cases frames with
  | nil => exact .inl ran
  | cons frame frames =>
    rw [run_children] at ran
    obtain ⟨result, tried, ran⟩ := Lists.bind_eq_ok ran
    have counts := tryValues_counts within tried
    simp only [turnsNeeded, List.length_cons, Bool.false_eq_true, if_false] at enough
    cases result with
    | advanced after =>
      obtain ⟨_, further, within', deeper⟩ := counts
      have left : turnsNeeded options true after.nodes after.frames.length ≤ turns := by
        simp only [turnsNeeded, deeper, if_true]
        omega
      rw [run_children, tryValues_more more tried fun best spent => by cases spent]
      exact earlier ⟨after.best, after.seen, after.nodes⟩ after.state after.frames true outcome _ fewer left within' ran
    | failed after =>
      obtain ⟨_, further, within', same⟩ := counts
      have left : turnsNeeded options false after.nodes after.frames.length ≤ turns := by
        simp only [turnsNeeded, same, Bool.false_eq_true, if_false]
        omega
      rw [run_children, tryValues_more more tried fun best spent => by cases spent]
      exact earlier ⟨after.best, after.seen, after.nodes⟩ after.state after.frames false outcome _ fewer left within' ran
    | overBudget best =>
      cases counts
      cases ran
      -- What the shorter search shows is what the longer one had at this point.
      refine .inr ⟨⟨_, rfl⟩, fun other longer => ?_⟩
      have ends := allEndWithin transitive _ _ _ tally state (frame :: frames) false other (within.trans more) longer
      exact ends.noDearer.tried options.nodeBudget

theorem AllOutlast.node (earlier : AllOutlast problem options budget turns) (more : options.nodeBudget ≤ budget)
    {turns' : Nat} (fewer : turns ≤ turns') (enough : turnsNeeded options true tally.nodes frames.length ≤ turns + 1)
    (within : tally.nodes ≤ options.nodeBudget)
    (ran : run problem options (turns + 1) true (tally.within state frames) = .ok outcome) :
    Outlasts outcome (run problem { options with nodeBudget := budget } (turns' + 1) true (tally.within state frames)) := by
  let larger : SolveOptions := { options with nodeBudget := budget }
  simp only [turnsNeeded, if_true] at enough
  cases chosen : problem.select options.order state with
  | some place =>
    have chosen' : problem.select larger.order state = some place := chosen
    have left : turnsNeeded options false tally.nodes (frames.length + 1) ≤ turns + 1 := by
      simp only [turnsNeeded, Bool.false_eq_true, if_false]
      omega
    rw [run_inner chosen] at ran
    rw [run_inner chosen']
    exact earlier.children transitive more fewer left within ran
  | none =>
    have chosen' : problem.select larger.order state = none := chosen
    rw [run_leaf chosen] at ran
    rw [run_leaf chosen']
    obtain ⟨found, recorded, ran⟩ := Lists.bind_eq_ok ran
    obtain ⟨_, same, _⟩ := record_cases recorded
    rw [recorded]
    change Outlasts outcome (if found.isOver options then _ else _)
    split at ran
    · next finished =>
      rw [if_pos finished]
      exact .inl ran
    · next unfinished =>
      have left : turnsNeeded options false found.nodes frames.length ≤ turns + 1 := by
        simp only [turnsNeeded, same, Bool.false_eq_true, if_false]
        omega
      rw [if_neg unfinished]
      exact earlier.children transitive more fewer left (same ▸ within) ran

theorem allOutlast (problem : Problem R) (more : options.nodeBudget ≤ budget) (turns : Nat) :
    AllOutlast problem options budget turns := by
  induction turns with
  | zero =>
    intro tally state frames descends outcome turns' _ enough
    rw [turnsNeeded] at enough
    split at enough <;> omega
  | succ turns earlier =>
    intro tally state frames descends outcome turns' fewer enough within ran
    obtain ⟨turns', rfl⟩ : ∃ later, turns' = later + 1 := ⟨turns' - 1, by omega⟩
    cases descends with
    | false => exact earlier.children transitive more (Nat.le_of_succ_le_succ fewer) enough within ran
    | true => exact earlier.node transitive more (Nat.le_of_succ_le_succ fewer) enough within ran

theorem search_outlasts (more : options.nodeBudget ≤ budget) (searched : search problem options = .ok outcome) :
    Outlasts outcome (search problem { options with nodeBudget := budget }) ∧
      ∀ solution, outcome = .found solution → solution.nodes ≤ options.nodeBudget := by
  rw [search] at searched ⊢
  obtain ⟨made, consistent, searched⟩ := Lists.bind_eq_ok searched
  rw [consistent]
  cases made with
  | none =>
    cases searched
    exact ⟨.inl rfl, fun solution found => by cases found⟩
  | some state =>
    have started : run problem options (turnBound options) true ((⟨none, 0, 0⟩ : Tally R).within state []) = .ok outcome :=
      searched
    have enough : turnsNeeded options true 0 ([] : List Frame).length ≤ turnBound options := by
      simp only [turnsNeeded, turnBound, if_true, List.length_nil]
      omega
    have fewer : turnBound options ≤ turnBound { options with nodeBudget := budget } := by
      simp only [turnBound]
      omega
    exact ⟨allOutlast transitive problem more _ _ _ _ _ _ _ fewer enough (Nat.zero_le _) started,
      (allEndWithin transitive problem options _ _ _ _ _ _ (Nat.zero_le _) started).nodes⟩

end Ordered

end ConstraintSearch

section Solving

open ConstraintSearch

variable {vars : List (Variable R)} {hard soft : List (Constraint R)} {options : SolveOptions}

/-- What solving has to show is what its search has found, within the budget or by its end. -/
theorem exists_search (valid : validateConstraints vars hard soft = .ok ()) {solution : Solution R}
    (shown : shown? (solve vars hard soft options) = some solution) : ∃ problem, Problem.of vars hard soft = .ok problem ∧
      (search problem options = .ok (.found solution) ∧ solve vars hard soft options = .ok solution ∨
        search problem options = .ok (.overBudget (some solution)) ∧
          solve vars hard soft options = .error (.budgetExhausted options.nodeBudget (some solution))) := by
  cases built : Problem.of vars hard soft with
  | error fault =>
    rw [(solve_of_not_built valid built options).1, shown?_of_not_built built] at shown
    cases shown
  | ok problem =>
    obtain ⟨outcome, searched, best⟩ := search_of_shown valid built shown
    refine ⟨problem, rfl, ?_⟩
    rw [solve_eq valid built, searched]
    cases outcome with
    | found found =>
      cases best
      exact .inl ⟨rfl, rfl⟩
    | overBudget held =>
      cases best
      exact .inr ⟨rfl, rfl⟩
    | exhausted nodes => cases best

/-- The budget only cuts a search off: a solution has tried no more values, and stays the same with any
greater budget; where a greater budget is spent too, what has been found by then costs no more. -/
theorem solve_budget (transitive : ∀ a b c : R, a < b → b < c → a < c) (valid : validateConstraints vars hard soft = .ok ())
    {budget : Nat} (more : options.nodeBudget ≤ budget) :
    (∀ solution, solve vars hard soft options = .ok solution → solution.nodes ≤ options.nodeBudget ∧
      solve vars hard soft { options with nodeBudget := budget } = .ok solution) ∧
    ∀ nodes nodes' held best, solve vars hard soft options = .error (.budgetExhausted nodes (some held)) →
      solve vars hard soft { options with nodeBudget := budget } = .error (.budgetExhausted nodes' best) →
      ∃ later, best = some later ∧ (later.cost < held.cost ∨ later.cost = held.cost) := by
  refine ⟨fun solution solved => ?_, fun nodes nodes' held best spent spent' => ?_⟩
  · obtain ⟨problem, built, ⟨searched, _⟩ | ⟨_, exhausted⟩⟩ := exists_search valid (congrArg shown? solved)
    · obtain ⟨same | ⟨⟨_, impossible⟩, _⟩, few⟩ := search_outlasts transitive more searched
      · refine ⟨few solution rfl, ?_⟩
        rw [solve_eq valid built, same]
      · cases impossible
    · rw [solved] at exhausted
      cases exhausted
  · obtain ⟨problem, built, ⟨_, solved⟩ | ⟨searched, _⟩⟩ := exists_search valid (congrArg shown? spent)
    · rw [spent] at solved
      cases solved
    · rw [solve_eq valid built] at spent'
      cases searched' : search problem { options with nodeBudget := budget } with
      | error reason =>
        rw [searched'] at spent'
        cases spent'
      | ok outcome =>
        rw [searched'] at spent'
        obtain ⟨outlasts, _⟩ := search_outlasts transitive more searched
        have noDearer : NoDearer outcome.best (some held) := by
          rw [searched'] at outlasts
          rcases outlasts with same | ⟨_, longer⟩
          · cases same
            exact noDearer_tried (some held) held.nodes
          · exact longer outcome rfl
        obtain ⟨later, found, cheaper⟩ := noDearer held rfl
        cases outcome with
        | found solution => cases spent'
        | overBudget best' =>
          cases spent'
          exact ⟨later, found, cheaper⟩
        | exhausted nodes => cases found

theorem exists_exhausted (valid : validateConstraints vars hard soft = .ok ())
    (unsolved : (solve vars hard soft options).isOk = false) (found : (shown? (solve vars hard soft options)).isSome = true) :
    ∃ held, solve vars hard soft options = .error (.budgetExhausted options.nodeBudget (some held)) := by
  obtain ⟨held, shown⟩ := Option.isSome_iff_exists.1 found
  obtain ⟨_, _, ⟨_, solved⟩ | ⟨_, spent⟩⟩ := exists_search valid shown
  · rw [solved] at unsolved
    cases unsolved
  · exact ⟨held, spent⟩

theorem solve_budget_on_two_bits :
    (∃ solution, solution.nodes ≤ 6 ∧
      solve twoBits [] [positive "x", positive "y"] ⟨.declaration, .branchAndBound, 6⟩ = .ok solution ∧
      solve twoBits [] [positive "x", positive "y"] ⟨.declaration, .branchAndBound, 100⟩ = .ok solution) ∧
    ∃ held later,
      solve twoBits [] [positive "x", positive "y"] ⟨.declaration, .branchAndBound, 2⟩ =
        .error (.budgetExhausted 2 (some held)) ∧
      solve twoBits [] [positive "x", positive "y"] ⟨.declaration, .branchAndBound, 3⟩ =
        .error (.budgetExhausted 3 (some later)) ∧
      (later.cost < held.cost ∨ later.cost = held.cost) := by
  have valid : validateConstraints twoBits [] [positive "x", positive "y"] = .ok () := rfl
  have transitive : ∀ a b c : Rat, a < b → b < c → a < c := fun _ _ _ => lt_trans
  constructor
  · obtain ⟨solution, solved⟩ := exists_of_isOk
      (show (solve twoBits [] [positive "x", positive "y"] ⟨.declaration, .branchAndBound, 6⟩).isOk = true by
        decide +kernel)
    obtain ⟨few, same⟩ := (solve_budget transitive valid (show 6 ≤ 100 by decide)).1 solution solved
    exact ⟨solution, few, solved, same⟩
  · obtain ⟨held, spent⟩ : ∃ held, solve twoBits [] [positive "x", positive "y"] ⟨.declaration, .branchAndBound, 2⟩ =
        .error (.budgetExhausted 2 (some held)) :=
      exists_exhausted valid (by decide +kernel) (by decide +kernel)
    obtain ⟨later, spent'⟩ : ∃ later, solve twoBits [] [positive "x", positive "y"] ⟨.declaration, .branchAndBound, 3⟩ =
        .error (.budgetExhausted 3 (some later)) :=
      exists_exhausted valid (by decide +kernel) (by decide +kernel)
    obtain ⟨_, same, cheaper⟩ :=
      (solve_budget transitive valid (show 2 ≤ 3 by decide)).2 2 3 held (some later) spent spent'
    cases same
    exact ⟨held, later, spent, spent', cheaper⟩

end Solving

end Deliberation
