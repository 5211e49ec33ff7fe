import Deliberation.Planning.Search
import Deliberation.Proofs.Planning.Operator

/-!
The search as a series of expansions. Each takes the first node of the frontier that is due, leaving
out those before it, and puts the node's children in; a search ends where a node reaches the goal, no
node is due, or the budget does not cover the next expansion.
-/

namespace Deliberation.PlanSearch

variable {setting : Setting} {reached : Std.HashMap FactSet Nat} {cut : Bool} {frontier : List Node}

/-- Whether a number of actions is within the depth bound, if there is one. -/
def Discipline.Within (discipline : Discipline) (depth : Nat) : Prop :=
  ∀ bound, discipline.depthBound = some bound → depth ≤ bound

theorem isStale_iff {discipline : Discipline} {node : Node} : isStale discipline reached node = true ↔
    discipline.reopens = true ∧ ∃ depth, reached[node.state]? = some depth ∧ depth < node.depth := by
  cases known : reached[node.state]? <;> simp [isStale, known]

theorem atBound_iff {discipline : Discipline} {node : Node} : atBound discipline node = true ↔
    ∃ bound, discipline.depthBound = some bound ∧ bound ≤ node.depth := by
  cases bound : discipline.depthBound <;> simp [atBound, bound]

theorem isGoal_iff {node : Node} : setting.isGoal node = true ↔ ∀ fact ∈ setting.goal, fact ∈ node.state := by
  simp [Setting.isGoal, OrdSet.includes]

/-- A node that is left out: its state has been reached in fewer steps, or the depth bound cuts it off. -/
inductive LeftOut (setting : Setting) (reached : Std.HashMap FactSet Nat) (cut : Bool) (node : Node) : Prop
  | stale (stale : isStale setting.discipline reached node = true)
  | deep (deep : atBound setting.discipline node = true) (noted : cut = true)
      (misses : setting.discipline.goalTest ≠ .onGeneration → setting.isGoal node = false)

/-- A node that is to be expanded. -/
structure Due (setting : Setting) (reached : Std.HashMap FactSet Nat) (node : Node) : Prop where
  fresh : isStale setting.discipline reached node = false
  shallow : atBound setting.discipline node = false
  misses : setting.discipline.goalTest ≠ .onGeneration → setting.isGoal node = false

/-- Nodes are left out one after the other, which can raise the flag that the bound has cut one off. -/
structure Skips (setting : Setting) (reached : Std.HashMap FactSet Nat) (before after : Bool) (skipped : List Node) :
    Prop where
  leftOut : ∀ node ∈ skipped, LeftOut setting reached after node
  noted : before = true → after = true
  bounded : after = true → before = true ∨ ∃ bound, setting.discipline.depthBound = some bound

/-- What a visit finds behind the nodes that it leaves out. -/
inductive Visits (setting : Setting) (reached : Std.HashMap FactSet Nat) (before : Bool) (frontier : List Node) :
    Visit → Prop
  | goal {skipped rest : List Node} {node : Node} {after : Bool} (skips : Skips setting reached before after skipped)
      (split : frontier = skipped ++ node :: rest) (reaches : setting.isGoal node = true) :
      Visits setting reached before frontier (.goal node)
  | expand {skipped rest : List Node} {node : Node} {after : Bool} (skips : Skips setting reached before after skipped)
      (split : frontier = skipped ++ node :: rest) (due : Due setting reached node) :
      Visits setting reached before frontier (.expand node rest after)
  | done {after : Bool} (skips : Skips setting reached before after frontier) :
      Visits setting reached before frontier (.done after)

namespace Skips

theorem nil : Skips setting reached cut cut [] := ⟨by simp, id, .inl⟩

theorem cons_stale {node : Node} {skipped : List Node} {after : Bool}
    (stale : isStale setting.discipline reached node = true) (skips : Skips setting reached cut after skipped) :
    Skips setting reached cut after (node :: skipped) :=
  ⟨List.forall_mem_cons.2 ⟨.stale stale, skips.leftOut⟩, skips.noted, skips.bounded⟩

theorem cons_deep {node : Node} {skipped : List Node} {after : Bool}
    (deep : atBound setting.discipline node = true)
    (misses : setting.discipline.goalTest ≠ .onGeneration → setting.isGoal node = false)
    (skips : Skips setting reached true after skipped) : Skips setting reached cut after (node :: skipped) := by
  obtain ⟨bound, bounded, _⟩ := atBound_iff.1 deep
  refine ⟨List.forall_mem_cons.2 ⟨.deep deep (skips.noted rfl) misses, skips.leftOut⟩, ?_, ?_⟩
  · exact fun _ => skips.noted rfl
  · exact fun _ => .inr ⟨bound, bounded⟩

end Skips

/-- A node that is left out is one more node before what is found. -/
theorem Visits.cons {node : Node} {before : Bool} {result : Visit}
    (skip : ∀ {after skipped}, Skips setting reached before after skipped →
      Skips setting reached cut after (node :: skipped))
    (visits : Visits setting reached before frontier result) : Visits setting reached cut (node :: frontier) result := by
  cases visits with
  | goal skips split reaches => exact .goal (skip skips) (congrArg (node :: ·) split) reaches
  | expand skips split due => exact .expand (skip skips) (congrArg (node :: ·) split) due
  | done skips => exact .done (skip skips)

theorem visits_visit (setting : Setting) (reached : Std.HashMap FactSet Nat) (cut : Bool) (frontier : List Node) :
    Visits setting reached cut frontier (visit setting reached cut frontier) := by
  induction frontier generalizing cut with
  | nil => exact .done .nil
  | cons node rest ih =>
    rw [visit]
    split
    · next found => exact .goal .nil rfl found.2
    next notYet =>
    split
    · next stale => exact (ih cut).cons (.cons_stale stale)
    next fresh =>
    split
    · next found => exact .goal .nil rfl found.2
    next notFresh =>
    have misses : setting.discipline.goalTest ≠ .onGeneration → setting.isGoal node = false := by
      refine fun late => Bool.eq_false_iff.2 fun reaches => ?_
      cases test : setting.discipline.goalTest with
      | onVisit => exact notYet ⟨test, reaches⟩
      | onFreshVisit => exact notFresh ⟨test, reaches⟩
      | onGeneration => exact late test
    split
    · next deep => exact (ih true).cons (.cons_deep deep misses)
    next shallow => exact .expand .nil rfl ⟨by simpa using fresh, by simpa using shallow, misses⟩

theorem reaches_of_visit {before : Bool} {node : Node} (visited : visit setting reached before frontier = .goal node) :
    ∃ skipped rest after, frontier = skipped ++ node :: rest ∧ Skips setting reached before after skipped ∧
      setting.isGoal node = true := by
  have visits := visits_visit setting reached before frontier
  rw [visited] at visits
  cases visits with
  | goal skips split reaches => exact ⟨_, _, _, split, skips, reaches⟩

theorem due_of_visit {before after : Bool} {node : Node} {rest : List Node}
    (visited : visit setting reached before frontier = .expand node rest after) :
    ∃ skipped, frontier = skipped ++ node :: rest ∧ Skips setting reached before after skipped ∧
      Due setting reached node := by
  have visits := visits_visit setting reached before frontier
  rw [visited] at visits
  cases visits with
  | expand skips split due => exact ⟨_, split, skips, due⟩

theorem skips_of_visit {before after : Bool} (visited : visit setting reached before frontier = .done after) :
    Skips setting reached before after frontier := by
  have visits := visits_visit setting reached before frontier
  rw [visited] at visits
  cases visits with
  | done skips => exact skips

theorem perm_insertByRank (node : Node) (frontier : List Node) : (insertByRank node frontier).Perm (node :: frontier) := by
  induction frontier with
  | nil => rfl
  | cons first rest ih =>
    rw [insertByRank]
    split
    · rfl
    · exact (ih.cons first).trans (.swap ..)

theorem mem_insertByRank {node other : Node} : other ∈ insertByRank node frontier ↔ other = node ∨ other ∈ frontier :=
  (perm_insertByRank node frontier).mem_iff.trans List.mem_cons

/-- Every placement keeps the nodes. -/
theorem perm_place (placement : Placement) (children frontier : List Node) :
    (place placement children frontier).Perm (children ++ frontier) := by
  cases placement with
  | behind => exact List.perm_append_comm
  | before => rfl
  | byRank =>
    rw [place]
    induction children generalizing frontier with
    | nil => rfl
    | cons first rest ih =>
      rw [List.foldl_cons]
      have inserted := (perm_insertByRank first frontier).append_left rest
      exact (ih _).trans (inserted.trans List.perm_middle)

theorem mem_place {placement : Placement} {children : List Node} {node : Node} :
    node ∈ place placement children frontier ↔ node ∈ children ∨ node ∈ frontier :=
  (perm_place placement children frontier).mem_iff.trans List.mem_append

section Expanding

variable {parent : Node} {outcomes : List (Action × FactSet)} {nodes : List Node} {before after : Std.HashMap FactSet Nat}

/-- The node of one of the outcomes of expanding another. -/
inductive ChildOf (setting : Setting) (parent : Node) (outcomes : List (Action × FactSet)) : Node → Prop
  | child {action : Action} {state : FactSet} (number : Nat) (outcome : (action, state) ∈ outcomes) :
      ChildOf setting parent outcomes (child setting parent number action state)

theorem ChildOf.depth {node : Node} (born : ChildOf setting parent outcomes node) : node.depth = parent.depth + 1 := by
  cases born
  rfl

theorem ChildOf.later {node : Node} {outcome : Action × FactSet} (born : ChildOf setting parent outcomes node) :
    ChildOf setting parent (outcome :: outcomes) node := by
  obtain ⟨number, among⟩ := born
  exact .child number (List.mem_cons_of_mem _ among)

/-- The children of an expanded node: every outcome is reached, and a state that is reached in a new number of
steps has a new node. -/
structure Bears (setting : Setting) (parent : Node) (outcomes : List (Action × FactSet))
    (before : Std.HashMap FactSet Nat) (nodes : List Node) (after : Std.HashMap FactSet Nat) : Prop where
  born : ∀ node ∈ nodes, ChildOf setting parent outcomes node
  misses : setting.discipline.goalTest = .onGeneration → ∀ node ∈ nodes, setting.isGoal node = false
  improves : ∀ (state : FactSet) (depth : Nat), before[state]? = some depth → ∃ known ≤ depth, after[state]? = some known
  entered : ∀ (state : FactSet) (depth : Nat), after[state]? = some depth →
    before[state]? = some depth ∨ ∃ node ∈ nodes, node.state = state ∧ node.depth = depth
  covers : ∀ (action : Action) (state : FactSet), (action, state) ∈ outcomes → ∃ known, after[state]? = some known ∧
    (setting.discipline.reopens = true → known ≤ parent.depth + 1)

namespace Bears

theorem none : Bears setting parent [] before [] before where
  born := by simp
  misses := by simp
  improves _ depth known := ⟨depth, Nat.le_refl depth, known⟩
  entered _ _ known := .inl known
  covers := by simp

/-- An outcome that is known well enough gets no node. -/
theorem skip {action : Action} {state : FactSet}
    (known : isFresh setting.discipline before state (parent.depth + 1) = false)
    (bears : Bears setting parent outcomes before nodes after) :
    Bears setting parent ((action, state) :: outcomes) before nodes after where
  born node member := (bears.born node member).later
  misses := bears.misses
  improves := bears.improves
  entered := bears.entered
  covers other next among := by
    rcases List.mem_cons.1 among with same | later
    · cases same
      cases entry : before[state]? with
      | none => simp [isFresh, entry] at known
      | some depth =>
        obtain ⟨better, below, now⟩ := bears.improves state depth entry
        refine ⟨better, now, fun reopens => ?_⟩
        have enough : depth ≤ parent.depth + 1 := by simpa [isFresh, entry, reopens] using known
        exact Nat.le_trans below enough
    · exact bears.covers other next later

/-- A fresh outcome gets a node. -/
theorem add {node : Node} {action : Action} {state : FactSet} {number : Nat}
    (fresh : isFresh setting.discipline before state (parent.depth + 1) = true)
    (made : node = child setting parent number action state)
    (misses : setting.discipline.goalTest = .onGeneration → setting.isGoal node = false)
    (bears : Bears setting parent outcomes (before.insert node.state node.depth) nodes after) :
    Bears setting parent ((action, state) :: outcomes) before (node :: nodes) after := by
  have born : ChildOf setting parent ((action, state) :: outcomes) node := made ▸ .child number (List.mem_cons_self ..)
  have stands : node.state = state := by rw [made, child]
  have depth : node.depth = parent.depth + 1 := born.depth
  have lookup (other : FactSet) : (before.insert node.state node.depth)[other]? =
      if state = other then some (parent.depth + 1) else before[other]? := by
    simp [stands, depth, Std.HashMap.getElem?_insert]
  obtain ⟨better, below, now⟩ := bears.improves state (parent.depth + 1) (by rw [lookup, if_pos rfl])
  refine ⟨?_, ?_, ?_, ?_, ?_⟩
  · exact List.forall_mem_cons.2 ⟨born, fun node member => (bears.born node member).later⟩
  · exact fun early => List.forall_mem_cons.2 ⟨misses early, bears.misses early⟩
  · intro other old known
    by_cases same : state = other
    · subst same
      have improved : setting.discipline.reopens = true ∧ parent.depth + 1 < old := by
        simpa [isFresh, known] using fresh
      exact ⟨better, by omega, now⟩
    · exact bears.improves other old (by rw [lookup, if_neg same, known])
  · intro other late now
    rcases bears.entered other late now with stored | ⟨node, member, same⟩
    · rw [lookup] at stored
      split at stored
      · next same => exact .inr ⟨node, List.mem_cons_self .., stands.trans same, depth.trans (Option.some.inj stored)⟩
      · exact .inl stored
    · exact .inr ⟨node, List.mem_cons_of_mem _ member, same⟩
  · intro other next among
    rcases List.mem_cons.1 among with same | later
    · cases same
      exact ⟨better, now, fun _ => below⟩
    · exact bears.covers other next later

end Bears

/-- What comes of expanding a node. -/
inductive Expands (setting : Setting) (parent : Node) (outcomes : List (Action × FactSet)) (before : Progress) :
    Expansion → Prop
  | goal {node : Node} {after : Progress} (early : setting.discipline.goalTest = .onGeneration)
      (born : ChildOf setting parent outcomes node) (reaches : setting.isGoal node = true) :
      Expands setting parent outcomes before (.goal node after)
  | children {nodes : List Node} {after : Progress} (cut : after.cut = before.cut)
      (bears : Bears setting parent outcomes before.reached nodes after.reached) :
      Expands setting parent outcomes before (.children nodes after)

theorem Expands.skip {action : Action} {state : FactSet} {before : Progress} {result : Expansion}
    (known : isFresh setting.discipline before.reached state (parent.depth + 1) = false)
    (expands : Expands setting parent outcomes before result) :
    Expands setting parent ((action, state) :: outcomes) before result := by
  cases expands with
  | goal early born reaches => exact .goal early born.later reaches
  | children cut bears => exact .children cut (bears.skip known)

theorem Expands.add {node : Node} {action : Action} {state : FactSet} {number : Nat} {before : Progress} {result : Expansion}
    (fresh : isFresh setting.discipline before.reached state (parent.depth + 1) = true)
    (made : node = child setting parent number action state)
    (misses : setting.discipline.goalTest = .onGeneration → setting.isGoal node = false) :
    Expands setting parent outcomes (before.add node) result →
      Expands setting parent ((action, state) :: outcomes) before
        (match result with
          | .children nodes progress => .children (node :: nodes) progress
          | found => found) := by
  rintro (⟨early, born, reaches⟩ | ⟨cut, bears⟩)
  · exact .goal early born.later reaches
  · exact .children cut (bears.add fresh made misses)

theorem expands_generate (setting : Setting) (parent : Node) (outcomes : List (Action × FactSet)) (before : Progress) :
    Expands setting parent outcomes before (generate setting parent outcomes before) := by
  induction outcomes generalizing before with
  | nil => exact .children rfl .none
  | cons outcome rest ih =>
    obtain ⟨action, state⟩ := outcome
    rw [generate]
    split
    · next fresh =>
      extract_lets node progress
      split
      · next found => exact .goal found.1 (.child _ (List.mem_cons_self ..)) found.2
      · next notYet =>
        have misses : setting.discipline.goalTest = .onGeneration → setting.isGoal node = false :=
          fun early => Bool.eq_false_iff.2 fun reaches => notYet ⟨early, reaches⟩
        exact Expands.add fresh rfl misses (ih progress)
    · next known => exact (ih before).skip (Bool.eq_false_iff.2 known)

end Expanding

/-- One expansion: the first node that is due gives way to its children. -/
inductive Advances (setting : Setting) (before : Progress) : Progress → Prop
  | expand {node : Node} {rest nodes : List Node} {cut : Bool} {after : Progress}
      (visited : visit setting before.reached before.cut before.frontier = .expand node rest cut)
      (expanded : generate setting node (successors setting.operators setting.pool node.state) { before with cut } =
        .children nodes after) :
      Advances setting before { after with frontier := place setting.discipline.placement nodes rest }

/-- The parts of an expansion: the nodes that are left out, the one that is expanded, those behind it, and the
new ones. -/
structure Step (setting : Setting) (before after : Progress) (skipped : List Node) (node : Node)
    (rest nodes : List Node) : Prop where
  split : before.frontier = skipped ++ node :: rest
  skips : Skips setting before.reached before.cut after.cut skipped
  due : Due setting before.reached node
  bears : Bears setting node (successors setting.operators setting.pool node.state) before.reached nodes after.reached
  frontier : after.frontier = place setting.discipline.placement nodes rest

theorem Advances.step {before after : Progress} (advances : Advances setting before after) :
    ∃ skipped node rest nodes, Step setting before after skipped node rest nodes := by
  cases advances with
  | @expand node rest nodes cut after visited expanded =>
    obtain ⟨skipped, split, skips, due⟩ := due_of_visit visited
    have expands := expands_generate setting node (successors setting.operators setting.pool node.state)
      { before with cut }
    rw [expanded] at expands
    cases expands with
    | children same bears => exact ⟨skipped, node, rest, nodes, split, same ▸ skips, due, bears, rfl⟩

/-- Where a search stands after a number of expansions. -/
inductive Stands (setting : Setting) (first : Progress) : Nat → Progress → Prop
  | start : Stands setting first 0 first
  | advance {expanded : Nat} {before after : Progress} (stands : Stands setting first expanded before)
      (advances : Advances setting before after) : Stands setting first (expanded + 1) after

/-- A node that reaches the goal, with the expansions that this still takes and the nodes that there are then:
it is visited, or it is a child of the node that is expanded next. -/
inductive Finds (setting : Setting) (progress : Progress) : Node → (more generated : Nat) → Prop
  | visited {node : Node} (visited : visit setting progress.reached progress.cut progress.frontier = .goal node) :
      Finds setting progress node 0 progress.generated
  | generated {parent node : Node} {rest : List Node} {cut : Bool} {after : Progress}
      (visited : visit setting progress.reached progress.cut progress.frontier = .expand parent rest cut)
      (expanded : generate setting parent (successors setting.operators setting.pool parent.state)
        { progress with cut } = .goal node after) : Finds setting progress node 1 after.generated

/-- How a search ends. -/
inductive Ends (setting : Setting) (first : Progress) (budget : Nat) (timeIsUp : Bool) :
    Except FailedSearch Plan → Prop
  | found {expanded more generated : Nat} {progress : Progress} {node : Node}
      (stands : Stands setting first expanded progress) (finds : Finds setting progress node more generated) :
      Ends setting first budget timeIsUp (.ok (planOf node (expanded + more) generated))
  | done {expanded : Nat} {progress : Progress} {cut : Bool} (stands : Stands setting first expanded progress)
      (visited : visit setting progress.reached progress.cut progress.frontier = .done cut) :
      Ends setting first budget timeIsUp
        (.error (failed (if cut then .depthBound else .exhausted) 0 expanded progress))
  | spent {expanded : Nat} {progress : Progress} {node : Node} {rest : List Node} {cut : Bool}
      (stands : Stands setting first expanded progress)
      (visited : visit setting progress.reached progress.cut progress.frontier = .expand node rest cut)
      (spent : expanded = budget ∨ timeIsUp = true) :
      Ends setting first budget timeIsUp (.error (failed .budget (rest.length + 1) (expanded + 1) progress))

theorem ends_run {first : Progress} {budget : Nat} {timeIsUp : Bool} (remaining expanded : Nat) (progress : Progress)
    (stands : Stands setting first expanded progress) (left : expanded + remaining = budget) :
    Ends setting first budget timeIsUp (run setting timeIsUp remaining expanded progress) := by
  induction remaining generalizing expanded progress with
  | zero =>
    rw [run]
    split
    · next node visited => exact .found stands (.visited visited)
    · next cut visited => exact .done stands visited
    · next node rest cut visited => exact .spent stands visited (.inl left)
  | succ remaining ih =>
    rw [run]
    split
    · next node visited => exact .found stands (.visited visited)
    · next cut visited => exact .done stands visited
    next node rest cut visited =>
    dsimp only
    split
    · next up => exact .spent stands visited (.inr up)
    split
    · next found after expansion => exact .found stands (.generated visited expansion)
    · next nodes after expansion =>
      exact ih (expanded + 1) _ (stands.advance (.expand visited expansion)) (by omega)

/-- The node of the initial state. -/
def Setting.root (setting : Setting) : Node :=
  let estimate := setting.discipline.heuristic.estimate setting.initial setting.goal setting.initial
  ⟨setting.initial, [], 0, estimate, estimate, 0⟩

/-- A search that has not visited any node. -/
def Setting.beginning (setting : Setting) : Progress :=
  ⟨[setting.root], Std.HashMap.ofList [(setting.initial, 0)], 1, setting.root, false⟩

theorem reached_beginning {state : FactSet} {depth : Nat} :
    setting.beginning.reached[state]? = some depth ↔ state = setting.initial ∧ depth = 0 := by
  rw [Setting.beginning, Std.HashMap.ofList_singleton, Std.HashMap.getElem?_insert]
  grind

/-- How a search that is started ends. -/
inductive Starts (setting : Setting) (options : PlanOptions) : Except FailedSearch Plan → Prop
  | reached (early : setting.discipline.goalTest = .onGeneration) (reaches : setting.isGoal setting.root = true) :
      Starts setting options (.ok (planOf setting.root 0 1))
  | searched {result : Except FailedSearch Plan}
      (misses : setting.discipline.goalTest = .onGeneration → setting.isGoal setting.root = false)
      (ends : Ends setting setting.beginning options.nodeBudget (options.timeLimit == some 0) result) :
      Starts setting options result

theorem start_eq (setting : Setting) (options : PlanOptions) : start setting options =
    if setting.discipline.goalTest = .onGeneration ∧ setting.isGoal setting.root then .ok (planOf setting.root 0 1)
    else run setting (options.timeLimit == some 0) options.nodeBudget 0 setting.beginning := rfl

theorem starts_start (setting : Setting) (options : PlanOptions) : Starts setting options (start setting options) := by
  rw [start_eq]
  split
  · next found => exact .reached found.1 found.2
  · next notYet =>
    refine .searched (fun early => ?_) (ends_run _ _ _ .start (Nat.zero_add _))
    exact Bool.eq_false_iff.2 fun reaches => notYet ⟨early, reaches⟩

section Planning

variable {problem : PlanProblem} {options : PlanOptions} {heuristic : Heuristic}

/-- The search for a plan from a given state. -/
def searchFrom (problem : PlanProblem) (options : PlanOptions) (heuristic : Heuristic) (initial : FactSet) : Setting :=
  ⟨problem.operators, problem.pool, initial, problem.goal, discipline options heuristic⟩

theorem planWith_eq_start {initial : FactSet} (valid : problem.operators.forM Operator.validate = .ok ())
    (closed : closedInitial problem options = .ok initial) :
    planWith problem options heuristic = (start (searchFrom problem options heuristic initial) options).mapError .noPlanFound := by
  rw [planWith, valid, closed]
  rfl

/-- What planning comes to when its outcome is that of a search: the operators are valid, and the search
starts from the closed initial state. -/
theorem start_of_planWith {result : Except FailedSearch Plan}
    (outcome : planWith problem options heuristic = result.mapError .noPlanFound) :
    (∀ op ∈ problem.operators, op.Valid) ∧ ∃ initial, closedInitial problem options = .ok initial ∧
      start (searchFrom problem options heuristic initial) options = result := by
  cases validated : problem.operators.forM Operator.validate with
  | error error =>
    rw [planWith, validated] at outcome
    cases result <;> cases outcome
  | ok _ =>
    cases closed : closedInitial problem options with
    | error error =>
      rw [planWith, validated, closed] at outcome
      cases result <;> cases outcome
    | ok initial =>
      rw [planWith_eq_start validated closed] at outcome
      refine ⟨Operator.validateAll_eq_ok_iff.1 validated, initial, rfl, ?_⟩
      cases found : start (searchFrom problem options heuristic initial) options <;> cases result <;>
        simp_all [Except.mapError]

theorem starts_of_planWith {result : Except FailedSearch Plan}
    (outcome : planWith problem options heuristic = result.mapError .noPlanFound) :
    (∀ op ∈ problem.operators, op.Valid) ∧ ∃ initial, closedInitial problem options = .ok initial ∧
      Starts (searchFrom problem options heuristic initial) options result := by
  obtain ⟨valid, initial, closed, rfl⟩ := start_of_planWith outcome
  exact ⟨valid, initial, closed, starts_start _ _⟩

end Planning

end Deliberation.PlanSearch
