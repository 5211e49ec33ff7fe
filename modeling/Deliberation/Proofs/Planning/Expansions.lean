import Deliberation.Proofs.Planning.Replay
import Mathlib.Data.List.Nodup

/-!
What a search says about its own work. Beside its result, a search gives the nodes whose successors it
generates; no node is among them twice, and they are as many as the result says and the budget allows.
A search that is given up counts one node more, the one that it no longer expands.
-/

namespace Deliberation

namespace PlanSearch

variable {setting : Setting} {before after : Progress} {nodes : List Node}

/-- A search with the nodes whose successors it generates, in order. -/
def runLogged (setting : Setting) (timeIsUp : Bool) :
    (remaining expanded : Nat) → Progress → List Node × Except FailedSearch Plan
  | remaining, expanded, progress =>
    match visit setting progress.reached progress.cut progress.frontier with
    | .goal node => ([], .ok (planOf node expanded progress.generated))
    | .done cut => ([], .error (failed (if cut then .depthBound else .exhausted) 0 expanded progress))
    | .expand node rest cut =>
      match remaining with
      | 0 => ([], .error (failed .budget (rest.length + 1) (expanded + 1) progress))
      | remaining + 1 =>
        if timeIsUp then ([], .error (failed .budget (rest.length + 1) (expanded + 1) progress))
        else
          match generate setting node (successors setting.operators setting.pool node.state)
              { progress with cut } with
          | .goal found progress => ([node], .ok (planOf found (expanded + 1) progress.generated))
          | .children nodes progress =>
            (runLogged setting timeIsUp remaining (expanded + 1)
              { progress with frontier := place setting.discipline.placement nodes rest }).map (node :: ·) id

/-- A search from its beginning, with the nodes whose successors it generates. -/
def startLogged (setting : Setting) (options : PlanOptions) : List Node × Except FailedSearch Plan :=
  if setting.discipline.goalTest = .onGeneration ∧ setting.isGoal setting.root then ([], .ok (planOf setting.root 0 1))
  else runLogged setting (options.timeLimit == some 0) options.nodeBudget 0 setting.beginning

theorem runLogged_snd (timeIsUp : Bool) (remaining expanded : Nat) (progress : Progress) :
    (runLogged setting timeIsUp remaining expanded progress).2 = run setting timeIsUp remaining expanded progress := by
  fun_induction runLogged setting timeIsUp remaining expanded progress with
  | case1 remaining expanded progress node visited => rw [run, visited]
  | case2 remaining expanded progress cut visited => rw [run, visited]
  | case3 expanded progress node rest cut visited => rw [run, visited]
  | case4 expanded progress node rest cut visited remaining up =>
    rw [run, visited]
    exact (if_pos up).symm
  | case5 expanded progress node rest cut visited remaining running found after generated =>
    rw [run, visited]
    dsimp only
    rw [if_neg running, generated]
  | case6 expanded progress node rest cut visited remaining running nodes after generated ih =>
    rw [run, visited]
    dsimp only
    rw [if_neg running, generated]
    exact ih

/-- Logging does not change the search. -/
theorem startLogged_snd (setting : Setting) (options : PlanOptions) :
    (startLogged setting options).2 = start setting options := by
  rw [startLogged, start_eq]
  split
  · rfl
  · exact runLogged_snd ..

/-- The number of expanded nodes that a result reports. -/
def reported : Except FailedSearch Plan → Nat
  | .ok plan => plan.expanded
  | .error failure => failure.expanded

/-- Whether a search ends for its budget or its time limit. -/
def GivenUp (result : Except FailedSearch Plan) : Prop := ∃ failure, result = .error failure ∧ failure.reason = .budget

theorem not_givenUp_ok {plan : Plan} : ¬ GivenUp (.ok plan) := by
  rintro ⟨_, same, _⟩
  cases same

/-- A result accounts for a number of expansions under a budget: it reports them, and one more if the search
is given up. -/
structure Accounts (budget expansions : Nat) (timeIsUp : Bool) (result : Except FailedSearch Plan) : Prop where
  within : expansions ≤ budget
  counts : ¬ GivenUp result → reported result = expansions
  overrun : GivenUp result → reported result = expansions + 1
  spent : GivenUp result → timeIsUp = false → expansions = budget

namespace Accounts

variable {budget expansions : Nat} {timeIsUp : Bool} {progress : Progress}

theorem found {node : Node} {generated : Nat} (within : expansions ≤ budget) :
    Accounts budget expansions timeIsUp (.ok (planOf node expansions generated)) :=
  ⟨within, fun _ => rfl, fun up => absurd up not_givenUp_ok, fun up => absurd up not_givenUp_ok⟩

theorem done {cut : Bool} (within : expansions ≤ budget) :
    Accounts budget expansions timeIsUp (.error (failed (if cut then .depthBound else .exhausted) 0 expansions progress)) := by
  have kept : ¬ GivenUp (.error (failed (if cut then .depthBound else .exhausted) 0 expansions progress)) := by
    rintro ⟨_, same, gone⟩
    cases same
    cases cut <;> cases gone
  exact ⟨within, fun _ => rfl, fun up => absurd up kept, fun up => absurd up kept⟩

theorem givenUp {waiting : Nat} (within : expansions ≤ budget) (spent : timeIsUp = false → expansions = budget) :
    Accounts budget expansions timeIsUp (.error (failed .budget waiting (expansions + 1) progress)) :=
  ⟨within, fun kept => absurd ⟨_, rfl, rfl⟩ kept, fun _ => rfl, fun _ => spent⟩

end Accounts

theorem accounts_runLogged {budget : Nat} (timeIsUp : Bool) (remaining expanded : Nat) (progress : Progress)
    (left : expanded + remaining = budget) :
    Accounts budget (expanded + (runLogged setting timeIsUp remaining expanded progress).1.length) timeIsUp
      (runLogged setting timeIsUp remaining expanded progress).2 := by
  fun_induction runLogged setting timeIsUp remaining expanded progress with
  | case1 remaining expanded progress node visited =>
    exact show Accounts budget expanded timeIsUp _ from .found (by omega)
  | case2 remaining expanded progress cut visited =>
    exact show Accounts budget expanded timeIsUp _ from .done (by omega)
  | case3 expanded progress node rest cut visited =>
    exact show Accounts budget expanded timeIsUp _ from .givenUp (by omega) fun _ => left
  | case4 expanded progress node rest cut visited remaining up =>
    exact show Accounts budget expanded timeIsUp _ from
      .givenUp (by omega) fun running => absurd (up.symm.trans running) (by decide)
  | case5 expanded progress node rest cut visited remaining running found after generated =>
    exact show Accounts budget (expanded + 1) timeIsUp _ from .found (by omega)
  | case6 expanded progress node rest cut visited remaining running nodes after generated ih =>
    have later := ih (by omega)
    rw [Nat.add_right_comm] at later
    exact later

theorem accounts_startLogged (setting : Setting) (options : PlanOptions) :
    Accounts options.nodeBudget (startLogged setting options).1.length (options.timeLimit == some 0)
      (startLogged setting options).2 := by
  rw [startLogged]
  split
  · exact .found (Nat.zero_le _)
  · rw [← Nat.zero_add (runLogged ..).1.length]
    exact accounts_runLogged _ _ _ _ (Nat.zero_add _)

/-- Children are numbered in the order of their generation. -/
theorem numbers_generate {parent : Node} {outcomes : List (Action × FactSet)}
    (generated : generate setting parent outcomes before = .children nodes after) :
    nodes.map Node.number = List.range' before.generated nodes.length ∧
      after.generated = before.generated + nodes.length := by
  induction outcomes generalizing before nodes with
  | nil =>
    cases generated
    exact ⟨rfl, rfl⟩
  | cons outcome rest ih =>
    rw [generate] at generated
    split at generated
    · extract_lets node progress at generated
      split at generated
      · cases generated
      split at generated
      · next later last rested =>
        cases generated
        obtain ⟨numbers, total⟩ := ih rested
        constructor
        · rw [List.map_cons, numbers, List.length_cons, List.range'_succ]
          rfl
        · rw [total, List.length_cons, Nat.add_comm later.length, ← Nat.add_assoc]
          rfl
      · next other => exact absurd generated (other nodes after)
    · exact ih generated

/-- The numbers of children lie between those of the nodes before them and those of the nodes after. -/
theorem number_of_generate {parent node : Node} {outcomes : List (Action × FactSet)}
    (generated : generate setting parent outcomes before = .children nodes after) (born : node ∈ nodes) :
    before.generated ≤ node.number ∧ node.number < after.generated := by
  obtain ⟨numbers, total⟩ := numbers_generate generated
  have member : node.number ∈ nodes.map Node.number := List.mem_map_of_mem born
  rw [numbers, List.mem_range'_1] at member
  exact ⟨member.1, total ▸ member.2⟩

/-- The nodes that wait have different numbers, and are among those that were generated. -/
structure Numbered (progress : Progress) : Prop where
  distinct : (progress.frontier.map Node.number).Nodup
  generated : ∀ node ∈ progress.frontier, node.number < progress.generated

/-- A number that a search has ahead: of a node that waits, or of one that is yet to be generated. -/
def Ahead (progress : Progress) (number : Nat) : Prop :=
  number ∈ progress.frontier.map Node.number ∨ progress.generated ≤ number

section Expanding

variable {node : Node} {rest : List Node} {cut : Bool}

theorem numbered_beginning : Numbered setting.beginning where
  distinct := List.nodup_singleton _
  generated node member := by
    have same : node = setting.root := List.mem_singleton.1 member
    rw [same]
    exact Nat.zero_lt_one

/-- An expansion keeps the nodes that wait numbered. -/
theorem Numbered.expand (numbered : Numbered before)
    (visited : visit setting before.reached before.cut before.frontier = .expand node rest cut)
    (expanded : generate setting node (successors setting.operators setting.pool node.state) { before with cut } =
      .children nodes after) :
    Numbered { after with frontier := place setting.discipline.placement nodes rest } := by
  obtain ⟨skipped, split, _⟩ := due_of_visit visited
  obtain ⟨numbers, total⟩ := numbers_generate expanded
  have waits {other : Node} (member : other ∈ rest) : other.number < before.generated :=
    numbered.generated other (by simp [split, member])
  constructor
  · have placed := (perm_place setting.discipline.placement nodes rest).map Node.number
    have distinct := numbered.distinct
    rw [split, List.map_append, List.map_cons] at distinct
    have apart := distinct.of_append_right.of_cons
    rw [placed.nodup_iff, List.map_append]
    refine List.Nodup.append (numbers ▸ List.nodup_range') apart ?_
    intro number young old
    obtain ⟨born, child, rfl⟩ := List.mem_map.1 young
    obtain ⟨other, member, same⟩ := List.mem_map.1 old
    have between := (number_of_generate expanded child).1
    exact absurd (same ▸ waits member) (Nat.not_lt.2 between)
  · intro other member
    rcases mem_place.1 member with child | member
    · exact (number_of_generate expanded child).2
    · exact Nat.lt_of_lt_of_le (waits member) (total ▸ Nat.le_add_right ..)

/-- What is ahead after an expansion was ahead before, and is not the expanded node. -/
theorem Numbered.ahead (numbered : Numbered before)
    (visited : visit setting before.reached before.cut before.frontier = .expand node rest cut)
    (expanded : generate setting node (successors setting.operators setting.pool node.state) { before with cut } =
      .children nodes after) {number : Nat}
    (ahead : Ahead { after with frontier := place setting.discipline.placement nodes rest } number) :
    Ahead before number ∧ number ≠ node.number := by
  obtain ⟨skipped, split, _⟩ := due_of_visit visited
  have earlier : node.number < before.generated := numbered.generated node (by simp [split])
  rcases ahead with waits | later
  · obtain ⟨other, member, rfl⟩ := List.mem_map.1 waits
    rcases mem_place.1 member with child | member
    · have between := (number_of_generate expanded child).1
      exact ⟨.inr between, (Nat.lt_of_lt_of_le earlier between).ne'⟩
    · have distinct := numbered.distinct
      rw [split, List.map_append, List.map_cons] at distinct
      have absent := (List.nodup_cons.1 distinct.of_append_right).1
      refine ⟨.inl (List.mem_map_of_mem (by simp [split, member])), fun same => absent ?_⟩
      exact same ▸ List.mem_map_of_mem member
  · have grown : before.generated ≤ number := Nat.le_trans ((numbers_generate expanded).2 ▸ Nat.le_add_right ..) later
    exact ⟨.inr grown, (Nat.lt_of_lt_of_le earlier grown).ne'⟩

end Expanding

/-- No node is expanded twice. -/
theorem numbers_runLogged (timeIsUp : Bool) (remaining expanded : Nat) (progress : Progress) (numbered : Numbered progress) :
    ((runLogged setting timeIsUp remaining expanded progress).1.map Node.number).Nodup ∧
      ∀ node ∈ (runLogged setting timeIsUp remaining expanded progress).1, Ahead progress node.number := by
  have waiting {progress : Progress} {node : Node} {rest : List Node} {cut : Bool}
      (visited : visit setting progress.reached progress.cut progress.frontier = .expand node rest cut) :
      Ahead progress node.number := by
    obtain ⟨skipped, split, _⟩ := due_of_visit visited
    exact .inl (List.mem_map_of_mem (by simp [split]))
  -- what is ahead only shrinks along the run, and the node that is expanded leaves it
  fun_induction runLogged setting timeIsUp remaining expanded progress with
  | case1 | case2 | case3 | case4 => exact ⟨List.nodup_nil, by simp⟩
  | case5 expanded progress node rest cut visited =>
    exact ⟨List.nodup_singleton _, List.forall_mem_singleton.2 (waiting visited)⟩
  | case6 expanded progress node rest cut visited remaining running nodes after generated ih =>
    obtain ⟨distinct, ahead⟩ := ih (numbered.expand visited generated)
    have before {other : Node} (member : other ∈ (runLogged setting timeIsUp remaining (expanded + 1)
        { after with frontier := place setting.discipline.placement nodes rest }).1) :=
      numbered.ahead visited generated (ahead other member)
    constructor
    · refine List.nodup_cons.2 ⟨?_, distinct⟩
      intro again
      obtain ⟨other, member, same⟩ := List.mem_map.1 again
      exact (before member).2 same
    · exact List.forall_mem_cons.2 ⟨waiting visited, fun other member => (before member).1⟩

theorem nodup_startLogged (setting : Setting) (options : PlanOptions) :
    ((startLogged setting options).1.map Node.number).Nodup := by
  rw [startLogged]
  split
  · exact List.nodup_nil
  · exact (numbers_runLogged _ _ _ _ numbered_beginning).1

end PlanSearch

/-- The standard options under a given budget. -/
def PlanOptions.under (budget : Nat) : PlanOptions := { PlanOptions.standard with nodeBudget := budget }

/-- Three points, of which each can be reached from the one before. -/
def PlanProblem.relay : PlanProblem where
  initial := .ofList [⟨"a", []⟩]
  goal := .ofList [⟨"c", []⟩]
  operators := [⟨"ab", [], [.positive ⟨"a", []⟩], [⟨"b", []⟩], []⟩, ⟨"bc", [], [.positive ⟨"b", []⟩], [⟨"c", []⟩], []⟩]
  objects := []
  rules := []

namespace PlanSearch

/-- A plan, and a failure that is not for the budget or the time limit, reports as many expanded nodes as
there are nodes whose successors the search generated; these are different nodes, and no more than the budget.
A failure for one of the two limits reports one node more, and if it is for the budget, the expansions have
used it up. -/
theorem planWith_counts {problem : PlanProblem} {options : PlanOptions} {heuristic : Heuristic}
    {result : Except FailedSearch Plan} (outcome : planWith problem options heuristic = result.mapError .noPlanFound) :
    ∃ initial log, closedInitial problem options = .ok initial ∧
      startLogged (searchFrom problem options heuristic initial) options = (log, result) ∧
      (log.map Node.number).Nodup ∧ log.length ≤ options.nodeBudget ∧
      (¬ GivenUp result → reported result = log.length) ∧
      (GivenUp result → reported result = log.length + 1 ∧
        (options.timeLimit ≠ some 0 → log.length = options.nodeBudget)) := by
  obtain ⟨_, initial, closed, started⟩ := start_of_planWith outcome
  have accounts := accounts_startLogged (searchFrom problem options heuristic initial) options
  have distinct := nodup_startLogged (searchFrom problem options heuristic initial) options
  have same := (startLogged_snd (searchFrom problem options heuristic initial) options).trans started
  rw [same] at accounts
  refine ⟨initial, _, closed, Prod.ext rfl same, distinct, accounts.within, accounts.counts, fun up => ⟨accounts.overrun up, ?_⟩⟩
  exact fun unlimited => accounts.spent up (beq_eq_false_iff_ne.2 unlimited)

/-- A room that is one step away is found with one expansion, which the plan reports. Without a budget none is
made, and the failure reports one. -/
theorem corridor_counts :
    (∃ plan log, planWith (.corridor "a" "b") (.under 1) HeuristicKind.satisfice.heuristic = .ok plan ∧
      startLogged (searchFrom (.corridor "a" "b") (.under 1) HeuristicKind.satisfice.heuristic
        (PlanProblem.corridor "a" "b").initial) (.under 1) = (log, .ok plan) ∧
      (log.map Node.number).Nodup ∧ plan.expanded = log.length ∧ log.length ≤ 1) ∧
    ∃ failure log, planWith (.corridor "a" "b") (.under 0) HeuristicKind.satisfice.heuristic =
        .error (.noPlanFound failure) ∧
      startLogged (searchFrom (.corridor "a" "b") (.under 0) HeuristicKind.satisfice.heuristic
        (PlanProblem.corridor "a" "b").initial) (.under 0) = (log, .error failure) ∧
      log.length = 0 ∧ failure.expanded = log.length + 1 := by
  constructor
  · have outcome : planWith (.corridor "a" "b") (.under 1) HeuristicKind.satisfice.heuristic =
        Except.mapError .noPlanFound (.ok ⟨[⟨"move", ["a", "b"]⟩], .ofList [⟨"at", ["b"]⟩, ⟨"adjacent", ["a", "b"]⟩], 1, 2⟩) :=
      planWith_corridor
    obtain ⟨initial, log, closed, logged, distinct, within, counted, _⟩ := planWith_counts outcome
    cases closed
    exact ⟨_, log, outcome, logged, distinct, counted not_givenUp_ok, within⟩
  · have outcome : planWith (.corridor "a" "b") (.under 0) HeuristicKind.satisfice.heuristic =
        (Except.error ⟨.budget, 1, 1, 0, (PlanProblem.corridor "a" "b").initial⟩).mapError .noPlanFound := rfl
    obtain ⟨initial, log, closed, logged, _, _, _, overrun⟩ := planWith_counts outcome
    cases closed
    obtain ⟨counted, spent⟩ := overrun ⟨_, rfl, rfl⟩
    exact ⟨_, log, outcome, logged, spent (by decide), counted⟩

/-- Under a budget of one expansion the failure reports two expanded nodes, though the successors of one only
were generated. -/
theorem relay_overcounts : ∃ failure log,
    planWith .relay (.under 1) HeuristicKind.satisfice.heuristic = .error (.noPlanFound failure) ∧
      startLogged (searchFrom .relay (.under 1) HeuristicKind.satisfice.heuristic PlanProblem.relay.initial) (.under 1) =
        (log, .error failure) ∧
      log.length = 1 ∧ failure.expanded = 2 := by
  have budget : (PlanOptions.under 1).nodeBudget = 0 + 1 := rfl
  have outcomes : successors PlanProblem.relay.operators PlanProblem.relay.pool PlanProblem.relay.initial =
      [(⟨"ab", []⟩, .ofList [⟨"a", []⟩, ⟨"b", []⟩])] := by decide
  have outcome : planWith .relay (.under 1) HeuristicKind.satisfice.heuristic =
      (Except.error ⟨.budget, 1, 2, 1, .ofList [⟨"a", []⟩, ⟨"b", []⟩]⟩).mapError .noPlanFound := by
    rw [planWith_of_only_step rfl rfl budget rfl rfl rfl (by decide) outcomes (by decide)]
    rfl
  obtain ⟨_, initial, closed, started⟩ := start_of_planWith outcome
  cases closed
  have logged := (startLogged_snd _ _).trans started
  have accounts := logged ▸ accounts_startLogged (searchFrom .relay (.under 1) HeuristicKind.satisfice.heuristic
    PlanProblem.relay.initial) (.under 1)
  exact ⟨_, _, outcome, Prod.ext rfl logged, accounts.spent ⟨_, rfl, rfl⟩ rfl, rfl⟩

end PlanSearch

end Deliberation
