import Deliberation.Proofs.Planning.Traces

/-!
What a search that finds nothing has looked at. Every reached state waits in the frontier, has had its
successors reached, or was cut off by the depth bound; where states are reached in fewest steps, the
bound leaves out longer ways only.
-/

namespace Deliberation.PlanSearch

/-- Whether a search goes on from the fewest steps to each state: it visits states again, or level by level. -/
def Discipline.Measures (discipline : Discipline) : Prop :=
  discipline.reopens = true ∨ discipline.placement = .behind

/-- What has become of a state that is reached in a number of steps. -/
inductive Covered (setting : Setting) (frontier : List Node) (reached : Std.HashMap FactSet Nat) (cut : Bool)
    (state : FactSet) (depth : Nat) : Prop
  | waiting {node : Node} (member : node ∈ frontier) (same : node.state = state) (deep : node.depth = depth) :
      Covered setting frontier reached cut state depth
  | expanded (misses : ¬ ∀ fact ∈ setting.goal, fact ∈ state)
      (spread : ∀ action next, (action, next) ∈ successors setting.operators setting.pool state →
        ∃ known, reached[next]? = some known ∧ (setting.discipline.Measures → known ≤ depth + 1)) :
      Covered setting frontier reached cut state depth
  | cutOff (misses : ¬ ∀ fact ∈ setting.goal, fact ∈ state) (noted : cut = true)
      (deep : ∃ bound, setting.discipline.depthBound = some bound ∧ bound ≤ depth) :
      Covered setting frontier reached cut state depth

/-- Where states are visited level by level, those that wait are of two levels that follow each other, the
earlier one first, and no state is reached later. -/
structure Layered (frontier : List Node) (reached : Std.HashMap FactSet Nat) : Prop where
  sorted : frontier.Pairwise (·.depth ≤ ·.depth)
  near : ∀ node ∈ frontier, ∀ other ∈ frontier, other.depth ≤ node.depth + 1
  recent : ∀ node ∈ frontier, ∀ (state : FactSet) (depth : Nat), reached[state]? = some depth → depth ≤ node.depth + 1

/-- What a search keeps from one expansion to the next. -/
structure Covers (setting : Setting) (progress : Progress) : Prop where
  origin : progress.reached[setting.initial]? = some 0
  covered : ∀ (state : FactSet) (depth : Nat), progress.reached[state]? = some depth →
    Covered setting progress.frontier progress.reached progress.cut state depth
  misses : setting.discipline.goalTest = .onGeneration → ∀ node ∈ progress.frontier, setting.isGoal node = false
  bounded : progress.cut = true → ∃ bound, setting.discipline.depthBound = some bound
  layered : setting.discipline.placement = .behind → Layered progress.frontier progress.reached

/-- The bound that a search is under, if any. -/
def bound? (options : PlanOptions) : Option Nat :=
  match options.strategy with
  | .bounded => some (options.depthBound.getD standardDepthBound)
  | _ => options.depthBound

theorem depthBound_discipline (options : PlanOptions) (heuristic : Heuristic) :
    (discipline options heuristic).depthBound = bound? options := by
  cases strategy : options.strategy <;> simp [discipline, bound?, strategy]

theorem measures_discipline {options : PlanOptions} (heuristic : Heuristic) (other : options.strategy ≠ .depthFirst) :
    (discipline options heuristic).Measures := by
  cases strategy : options.strategy <;> simp_all [discipline, Discipline.Measures]

variable {setting : Setting} {reached : Std.HashMap FactSet Nat} {before after : Progress} {state : FactSet} {depth : Nat}

/-- A node misses the goal whether the goal is looked for in new states or in visited ones. -/
theorem misses_goal {node : Node} (early : setting.discipline.goalTest = .onGeneration → setting.isGoal node = false)
    (late : setting.discipline.goalTest ≠ .onGeneration → setting.isGoal node = false) :
    ¬ ∀ fact ∈ setting.goal, fact ∈ node.state := by
  rw [← isGoal_iff, Bool.not_eq_true]
  by_cases test : setting.discipline.goalTest = .onGeneration
  · exact early test
  · exact late test

/-- A node that is left out stands for no state that is reached in its number of steps, unless the bound cuts
it off. -/
theorem LeftOut.covered {cut : Bool} {node : Node} {frontier : List Node}
    (early : setting.discipline.goalTest = .onGeneration → setting.isGoal node = false)
    (entry : reached[node.state]? = some node.depth) (leftOut : LeftOut setting reached cut node) :
    Covered setting frontier reached cut node.state node.depth := by
  cases leftOut with
  | stale stale =>
    obtain ⟨_, best, known, better⟩ := isStale_iff.1 stale
    have same : best = node.depth := Option.some.inj (known.symm.trans entry)
    omega
  | deep deep noted late => exact .cutOff (misses_goal early late) noted (atBound_iff.1 deep)

/-- What is covered stays covered when nodes are left out. -/
theorem Covered.skip {skipped rest : List Node} {cut noted : Bool}
    (early : setting.discipline.goalTest = .onGeneration → ∀ node ∈ skipped, setting.isGoal node = false)
    (entry : reached[state]? = some depth) (skips : Skips setting reached cut noted skipped)
    (covered : Covered setting (skipped ++ rest) reached cut state depth) :
    Covered setting rest reached noted state depth := by
  cases covered with
  | @waiting node member same deep =>
    rcases List.mem_append.1 member with left | right
    · subst same deep
      exact (skips.leftOut node left).covered (fun test => early test node left) entry
    · exact .waiting right same deep
  | expanded misses spread => exact .expanded misses spread
  | cutOff misses set deep => exact .cutOff misses (skips.noted set) deep

/-- Only a search under a bound notes that the bound has cut a node off. -/
theorem Covers.bounded_skip {cut : Bool} {skipped : List Node} (covers : Covers setting before)
    (skips : Skips setting before.reached before.cut cut skipped) (noted : cut = true) :
    ∃ bound, setting.discipline.depthBound = some bound := by
  rcases skips.bounded noted with already | bounded
  · exact covers.bounded already
  · exact bounded

theorem covers_beginning (misses : setting.discipline.goalTest = .onGeneration → setting.isGoal setting.root = false) :
    Covers setting setting.beginning where
  origin := reached_beginning.2 ⟨rfl, rfl⟩
  covered state depth entry := by
    obtain ⟨rfl, rfl⟩ := reached_beginning.1 entry
    exact .waiting (List.mem_singleton_self _) rfl rfl
  misses early node member := List.mem_singleton.1 member ▸ misses early
  bounded := by simp [Setting.beginning]
  layered _ := by
    refine ⟨List.pairwise_singleton .., ?_, fun node member state depth entry => ?_⟩
    · intro node member other among
      rw [List.mem_singleton.1 member, List.mem_singleton.1 among]
      exact Nat.le_succ _
    · obtain ⟨_, rfl⟩ := reached_beginning.1 entry
      exact Nat.zero_le _

namespace Step

variable {node : Node} {skipped rest nodes : List Node}

/-- The children are one level below their parent, which is on the first of the two levels. -/
theorem layered (step : Step setting before after skipped node rest nodes)
    (placed : setting.discipline.placement = .behind) (layered : Layered before.frontier before.reached) :
    Layered after.frontier after.reached := by
  rw [step.split] at layered
  have member : node ∈ skipped ++ node :: rest := List.mem_append_cons_self ..
  have tail := List.pairwise_cons.1 (List.pairwise_append.1 layered.sorted).2.1
  have born (other : Node) (new : other ∈ nodes) : other.depth = node.depth + 1 := (step.bears.born other new).depth
  have old (other : Node) (waits : other ∈ rest) : node.depth ≤ other.depth ∧ other.depth ≤ node.depth + 1 :=
    ⟨tail.1 other waits, layered.near node member other (by simp [waits])⟩
  have between : ∀ other ∈ rest ++ nodes, node.depth ≤ other.depth ∧ other.depth ≤ node.depth + 1 := by
    intro other among
    rcases List.mem_append.1 among with waits | new
    · exact old other waits
    · rw [born other new]
      omega
  rw [step.frontier, placed, place]
  refine ⟨List.pairwise_append.2 ⟨tail.2, ?_, ?_⟩, ?_, ?_⟩
  · refine List.pairwise_of_forall_mem_list fun one new other too => ?_
    rw [born one new, born other too]
  · intro one waits other new
    rw [born other new]
    exact (old one waits).2
  · intro one among other too
    have low := between one among
    have high := between other too
    omega
  · intro one among state depth entry
    have low := between one among
    rcases step.bears.entered state depth entry with known | ⟨other, new, _, deep⟩
    · have recent := layered.recent node member state depth known
      omega
    · rw [born other new] at deep
      omega

/-- The successors of the node are reached, in one step more than the node where states are reached in fewest
steps. -/
theorem spread (step : Step setting before after skipped node rest nodes) (covers : Covers setting before) (action : Action)
    (next : FactSet) (outcome : (action, next) ∈ successors setting.operators setting.pool node.state) :
    ∃ known, after.reached[next]? = some known ∧ (setting.discipline.Measures → known ≤ node.depth + 1) := by
  obtain ⟨known, entry, close⟩ := step.bears.covers action next outcome
  refine ⟨known, entry, fun measures => ?_⟩
  rcases measures with reopens | placed
  · exact close reopens
  · rcases step.bears.entered next known entry with old | ⟨other, new, _, deep⟩
    · have member : node ∈ before.frontier := step.split ▸ List.mem_append_cons_self ..
      exact (covers.layered placed).recent node member next known old
    · rw [← deep, (step.bears.born other new).depth]

/-- What is covered stays covered when a node gives way to its children. -/
theorem covered (step : Step setting before after skipped node rest nodes) (covers : Covers setting before)
    (early : setting.discipline.goalTest = .onGeneration → setting.isGoal node = false)
    (covered : Covered setting (node :: rest) before.reached after.cut state depth) :
    Covered setting after.frontier after.reached after.cut state depth := by
  cases covered with
  | @waiting other member same deep =>
    rcases List.mem_cons.1 member with rfl | waits
    · subst same deep
      exact .expanded (misses_goal early step.due.misses) (step.spread covers)
    · exact .waiting (step.frontier ▸ mem_place.2 (.inr waits)) same deep
  | expanded misses spread =>
    refine .expanded misses fun action next outcome => ?_
    obtain ⟨known, entry, close⟩ := spread action next outcome
    obtain ⟨better, below, now⟩ := step.bears.improves next known entry
    exact ⟨better, now, fun measures => below.trans (close measures)⟩
  | cutOff misses noted deep => exact .cutOff misses noted deep

theorem covers (step : Step setting before after skipped node rest nodes) (covers : Covers setting before) :
    Covers setting after := by
  have early (test : setting.discipline.goalTest = .onGeneration) : ∀ other ∈ skipped ++ node :: rest,
      setting.isGoal other = false := step.split ▸ covers.misses test
  refine ⟨?_, fun state depth entry => ?_, fun test other member => ?_, ?_, fun placed => ?_⟩
  · obtain ⟨known, best, entry⟩ := step.bears.improves _ _ covers.origin
    rw [entry, Nat.le_zero.1 best]
  · rcases step.bears.entered state depth entry with old | ⟨other, new, same, deep⟩
    · have known := step.split ▸ covers.covered state depth old
      refine step.covered covers (fun test => early test node (by simp)) (known.skip ?_ old step.skips)
      exact fun test other among => early test other (by simp [among])
    · exact .waiting (step.frontier ▸ mem_place.2 (.inl new)) same deep
  · rw [step.frontier, mem_place] at member
    rcases member with new | waits
    · exact step.bears.misses test other new
    · exact early test other (by simp [waits])
  · exact covers.bounded_skip step.skips
  · exact step.layered placed (covers.layered placed)

end Step

theorem Stands.covers {expanded : Nat}
    (misses : setting.discipline.goalTest = .onGeneration → setting.isGoal setting.root = false)
    (stands : Stands setting setting.beginning expanded after) : Covers setting after := by
  induction stands with
  | start => exact covers_beginning misses
  | advance _ advances ih =>
    obtain ⟨_, _, _, _, step⟩ := advances.step
    exact step.covers ih

/-- When no node is left, no covered state waits. -/
theorem Covers.done (covers : Covers setting before) {cut : Bool}
    (visited : visit setting before.reached before.cut before.frontier = .done cut) :
    (cut = true → ∃ bound, setting.discipline.depthBound = some bound) ∧
      ∀ state depth, before.reached[state]? = some depth → Covered setting [] before.reached cut state depth := by
  have skips := skips_of_visit visited
  refine ⟨covers.bounded_skip skips, fun state depth entry => ?_⟩
  have known := covers.covered state depth entry
  rw [← List.append_nil before.frontier] at known
  exact known.skip covers.misses entry skips

/-- Where no covered state waits, only ways that the bound cuts off lead to the goal. -/
theorem cutOff_of_leads (valid : ∀ op ∈ setting.operators, op.Valid) {cut : Bool}
    (covered : ∀ state depth, reached[state]? = some depth → Covered setting [] reached cut state depth)
    {steps : List GroundAction} {final : FactSet} (leads : Leads setting.operators setting.pool state steps final)
    (reaches : ∀ fact ∈ setting.goal, fact ∈ final) (entry : reached[state]? = some depth) :
    cut = true ∧ (setting.discipline.Measures →
      ∃ bound, setting.discipline.depthBound = some bound ∧ bound < depth + steps.length) := by
  induction leads generalizing depth with
  | here state =>
    cases covered state depth entry with
    | waiting member => cases member
    | expanded misses _ => exact absurd reaches misses
    | cutOff misses _ _ => exact absurd reaches misses
  | @step state final ground rest available later ih =>
    cases covered state depth entry with
    | waiting member => cases member
    | expanded misses spread =>
      obtain ⟨known, next, close⟩ := spread _ _ ((mem_successors valid).2 ⟨ground, available, rfl, rfl⟩)
      obtain ⟨noted, beyond⟩ := ih reaches next
      refine ⟨noted, fun measures => ?_⟩
      obtain ⟨bound, bounded, short⟩ := beyond measures
      have near := close measures
      exact ⟨bound, bounded, by rw [List.length_cons]; omega⟩
    | cutOff misses noted deep =>
      obtain ⟨bound, bounded, below⟩ := deep
      exact ⟨noted, fun _ => ⟨bound, bounded, by rw [List.length_cons]; omega⟩⟩

/-- A search that ends without a plan, its budget not spent, has missed only ways that its bound cuts off. -/
theorem Starts.cutOff (valid : ∀ op ∈ setting.operators, op.Valid) {options : PlanOptions} {failure : FailedSearch}
    (starts : Starts setting options (.error failure)) (covered : failure.reason ≠ .budget) :
    (failure.reason = .depthBound → ∃ bound, setting.discipline.depthBound = some bound) ∧
      ∀ steps final, Leads setting.operators setting.pool setting.initial steps final →
        (∀ fact ∈ setting.goal, fact ∈ final) → failure.reason = .depthBound ∧ (setting.discipline.Measures →
          ∃ bound, setting.discipline.depthBound = some bound ∧ bound < steps.length) := by
  cases starts with
  | searched misses ends =>
    cases ends with
    | spent _ _ _ => exact absurd rfl covered
    | @done expanded progress cut stands visited =>
      have covers := stands.covers misses
      obtain ⟨bounded, closed⟩ := covers.done visited
      have reason : (failed (if cut then .depthBound else .exhausted) 0 expanded progress).reason = .depthBound ↔
          cut = true := by cases cut <;> simp [failed]
      refine ⟨fun bound => bounded (reason.1 bound), fun steps final leads reaches => ?_⟩
      obtain ⟨noted, beyond⟩ := cutOff_of_leads valid closed leads reaches covers.origin
      exact ⟨reason.2 noted, by simpa using beyond⟩

/-- Search failures are truthful, and no plan is longer than its bound. An exhausted search has looked at
every state to which actions lead; a search that ends at its bound has looked at every state to which no more
actions lead than that, unless it goes depth first and visits no state again. -/
theorem planWith_truthful (problem : PlanProblem) (options : PlanOptions) (heuristic : Heuristic) :
    (∀ plan, planWith problem options heuristic = .ok plan →
      ∀ bound, bound? options = some bound → plan.actions.length ≤ bound) ∧
    ∀ failure, planWith problem options heuristic = .error (.noPlanFound failure) →
      ∃ initial, closedInitial problem options = .ok initial ∧
        (failure.reason = .exhausted → ∀ steps final, Leads problem.operators problem.pool initial steps final →
          ¬ ∀ fact ∈ problem.goal, fact ∈ final) ∧
        (failure.reason = .depthBound → ∃ bound, bound? options = some bound ∧
          (options.strategy ≠ .depthFirst → ∀ steps final, Leads problem.operators problem.pool initial steps final →
            (∀ fact ∈ problem.goal, fact ∈ final) → bound < steps.length)) := by
  constructor
  · intro plan found bound bounded
    obtain ⟨_, initial, _, achieves⟩ := achieves_of_planWith found
    exact achieves.within bound ((depthBound_discipline options heuristic).trans bounded)
  · intro failure failed
    have outcome : planWith problem options heuristic = (Except.error failure).mapError PlanError.noPlanFound := failed
    obtain ⟨valid, initial, closed, starts⟩ := starts_of_planWith outcome
    refine ⟨initial, closed, fun exhausted steps final leads reaches => ?_, fun atBound => ?_⟩
    · have missed := (starts.cutOff valid (by simp [exhausted])).2 steps final leads reaches
      rw [exhausted] at missed
      cases missed.1
    · obtain ⟨bounded, missed⟩ := starts.cutOff valid (by simp [atBound])
      obtain ⟨bound, same⟩ := bounded atBound
      refine ⟨bound, (depthBound_discipline options heuristic).symm.trans same, ?_⟩
      intro other steps final leads reaches
      obtain ⟨known, again, beyond⟩ := (missed steps final leads reaches).2 (measures_discipline heuristic other)
      exact Option.some.inj (again.symm.trans same) ▸ beyond

/-- In a corridor there is no way back, and none of no steps to the other room. -/
theorem corridor_truthful :
    (∃ failure, planWith (.corridor "b" "a") { PlanOptions.standard with nodeBudget := 1 }
        HeuristicKind.satisfice.heuristic = .error (.noPlanFound failure) ∧ failure.reason = .exhausted ∧
      ∀ steps final, Leads (PlanProblem.corridor "b" "a").operators (PlanProblem.corridor "b" "a").pool
        (PlanProblem.corridor "b" "a").initial steps final → ¬ ∀ fact ∈ (PlanProblem.corridor "b" "a").goal, fact ∈ final) ∧
    ∃ failure, planWith (.corridor "a" "b") { PlanOptions.standard with nodeBudget := 1, depthBound := some 0 }
        HeuristicKind.satisfice.heuristic = .error (.noPlanFound failure) ∧ failure.reason = .depthBound ∧
      ∀ steps final, Leads (PlanProblem.corridor "a" "b").operators (PlanProblem.corridor "a" "b").pool
        (PlanProblem.corridor "a" "b").initial steps final →
          (∀ fact ∈ (PlanProblem.corridor "a" "b").goal, fact ∈ final) → 0 < steps.length := by
  constructor
  · have failed : planWith (.corridor "b" "a") { PlanOptions.standard with nodeBudget := 1 }
        HeuristicKind.satisfice.heuristic =
          .error (.noPlanFound ⟨.exhausted, 0, 1, 0, (PlanProblem.corridor "b" "a").initial⟩) := rfl
    obtain ⟨initial, closed, exhausted, _⟩ := (planWith_truthful _ _ _).2 _ failed
    cases closed
    exact ⟨_, failed, rfl, exhausted rfl⟩
  · have failed : planWith (.corridor "a" "b") { PlanOptions.standard with nodeBudget := 1, depthBound := some 0 }
        HeuristicKind.satisfice.heuristic =
          .error (.noPlanFound ⟨.depthBound, 0, 0, 0, (PlanProblem.corridor "a" "b").initial⟩) := rfl
    obtain ⟨initial, closed, _, atBound⟩ := (planWith_truthful _ _ _).2 _ failed
    cases closed
    obtain ⟨bound, same, beyond⟩ := atBound rfl
    cases same
    exact ⟨_, failed, rfl, beyond (by decide)⟩

end Deliberation.PlanSearch
