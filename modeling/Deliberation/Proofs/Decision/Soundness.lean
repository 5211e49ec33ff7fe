import Deliberation.Proofs.Decision.Folding

/-!
Which decision trees have an evaluation. The checks stand between the evaluations of branches, so that
what is said of a tree is put together from what is said of the trees behind its branches: an evaluation
has looked at every node, and a refusal is about a node that the tree has.
-/

namespace Deliberation

def Branch.name {R : Type} : Branch R → String
  | .mk name _ _ => name

def Branch.probability {R : Type} : Branch R → Option R
  | .mk _ probability _ => probability

namespace DecisionNode

/-- A tree, known by a path, has a node at a place: the node is the tree, or it lies behind one of its branches. -/
inductive Has {R : Type} : (path : String) → (tree : DecisionNode R) → (place : String) → (node : DecisionNode R) → Prop
  | here {path : String} {tree : DecisionNode R} : Has path tree path tree
  | behind {path place : String} {tree node : DecisionNode R} {branch : Branch R} (member : branch ∈ tree.branches)
      (has : Has (childPath path branch.name) branch.node place node) : Has path tree place node

/-- What a node has to be, whatever lies behind its branches. -/
def Sound : DecisionNode Rat → Prop
  | .decision options =>
    options ≠ [] ∧ ∀ branch ∈ options, ∀ p, branch.probability = some p → 0 ≤ p ∧ p ≤ 1
  | .chance outcomes =>
    outcomes ≠ [] ∧ ∃ ps : List Rat, outcomes.map Branch.probability = ps.map some ∧ (∀ p ∈ ps, 0 ≤ p ∧ p ≤ 1) ∧
      |ps.sum - 1| ≤ 1 / 10 ^ 6
  | .terminal _ => True

/-- What a node at a place is not, and the error that says so. Probabilities are those of the branches, and
each is missed at the place of its branch. -/
inductive Misses (place : String) : DecisionNode Rat → DecideError Rat → Prop
  | noOptions : Misses place (.decision []) (.emptyNode place)
  | noOutcomes : Misses place (.chance []) (.emptyNode place)
  | prior {options : List (Branch Rat)} {branch : Branch Rat} {p : Rat} (member : branch ∈ options)
      (given : branch.probability = some p) (outside : ¬ (0 ≤ p ∧ p ≤ 1)) :
      Misses place (.decision options) (.invalidProbability (childPath place branch.name) p)
  | outcome {outcomes : List (Branch Rat)} {branch : Branch Rat} {p : Rat} (member : branch ∈ outcomes)
      (given : branch.probability = some p) (outside : ¬ (0 ≤ p ∧ p ≤ 1)) :
      Misses place (.chance outcomes) (.invalidProbability (childPath place branch.name) p)
  | missing {outcomes : List (Branch Rat)} {branch : Branch Rat} (member : branch ∈ outcomes)
      (none : branch.probability = none) :
      Misses place (.chance outcomes) (.missingProbability (childPath place branch.name))
  | sum {outcomes : List (Branch Rat)} {ps : List Rat} (given : outcomes.map Branch.probability = ps.map some)
      (off : 1 / 10 ^ 6 < |ps.sum - 1|) : Misses place (.chance outcomes) (.wrongSum place ps.sum)

theorem Misses.not_sound {place : String} {node : DecisionNode Rat} {fault : DecideError Rat}
    (misses : node.Misses place fault) : ¬ node.Sound := by
  intro sound
  cases misses with
  | noOptions => exact sound.1 rfl
  | noOutcomes => exact sound.1 rfl
  | prior member given outside => exact outside (sound.2 _ member _ given)
  | outcome member given outside =>
    obtain ⟨_, ps, all, inside, _⟩ := sound
    have listed := List.mem_map_of_mem (f := Branch.probability) member
    rw [given, all] at listed
    exact outside (inside _ (by simpa using listed))
  | missing member none =>
    obtain ⟨_, ps, all, _⟩ := sound
    have listed := List.mem_map_of_mem (f := Branch.probability) member
    rw [none, all] at listed
    simp at listed
  | sum given off =>
    obtain ⟨_, ps, all, _, near⟩ := sound
    have same := List.map_injective_iff.2 (Option.some_injective Rat) (given.symm.trans all)
    rw [same] at off
    exact absurd near (not_le.2 off)

/-- Every node of a tree is sound. -/
def AllSound (path : String) (tree : DecisionNode Rat) : Prop := ∀ place node, Has path tree place node → node.Sound

/-- Some node of a tree is not what it has to be, and this is its error. -/
def Violates (path : String) (tree : DecisionNode Rat) (fault : DecideError Rat) : Prop :=
  ∃ place node, Has path tree place node ∧ node.Misses place fault

variable {path : String} {tree : DecisionNode Rat} {fault : DecideError Rat}

theorem Violates.not_allSound (violates : tree.Violates path fault) : ¬ tree.AllSound path := by
  obtain ⟨place, node, has, misses⟩ := violates
  exact fun sound => misses.not_sound (sound place node has)

theorem Misses.violates (misses : tree.Misses path fault) : tree.Violates path fault := ⟨path, tree, .here, misses⟩

theorem Violates.behind {branch : Branch Rat} (member : branch ∈ tree.branches)
    (violates : branch.node.Violates (childPath path branch.name) fault) : tree.Violates path fault := by
  obtain ⟨place, node, has, misses⟩ := violates
  exact ⟨place, node, .behind member has, misses⟩

/-- A tree is sound where its first node is and the trees behind its branches are. -/
theorem allSound_of_branches (here : tree.Sound)
    (behind : ∀ branch ∈ tree.branches, branch.node.AllSound (childPath path branch.name)) : tree.AllSound path := by
  intro place node has
  cases has with
  | here => exact here
  | behind member has => exact behind _ member place node has

/-! ### Checks -/

theorem isProbability_iff {p : Rat} : isProbability p = true ↔ 0 ≤ p ∧ p ≤ 1 := by
  rw [isProbability, Bool.and_eq_true, decide_eq_true_eq, decide_eq_true_eq]

theorem checkPrior_eq_ok_iff {probability : Option Rat} :
    checkPrior path probability = .ok () ↔ ∀ p, probability = some p → 0 ≤ p ∧ p ≤ 1 := by
  cases probability with
  | none => simp [checkPrior]
  | some p => by_cases inside : isProbability p <;> simp [checkPrior, inside, ← isProbability_iff]

theorem checkPrior_eq_error {probability : Option Rat} (failed : checkPrior path probability = .error fault) :
    ∃ p, probability = some p ∧ ¬ (0 ≤ p ∧ p ≤ 1) ∧ fault = .invalidProbability path p := by
  cases probability with
  | none => cases failed
  | some p =>
    rw [checkPrior] at failed
    split at failed
    · cases failed
    · next outside =>
      cases failed
      exact ⟨p, rfl, fun inside => outside (isProbability_iff.2 inside), rfl⟩

theorem checkOutcome_eq_ok_iff {probability : Option Rat} :
    checkOutcome path probability = .ok () ↔ ∃ p, probability = some p ∧ 0 ≤ p ∧ p ≤ 1 := by
  cases probability with
  | none => simp [checkOutcome]
  | some p => rw [checkOutcome, checkPrior_eq_ok_iff]; simp

theorem checkOutcome_eq_error {probability : Option Rat} (failed : checkOutcome path probability = .error fault) :
    (probability = none ∧ fault = .missingProbability path) ∨
      ∃ p, probability = some p ∧ ¬ (0 ≤ p ∧ p ≤ 1) ∧ fault = .invalidProbability path p := by
  cases probability with
  | none =>
    cases failed
    exact .inl ⟨rfl, rfl⟩
  | some p => exact .inr (checkPrior_eq_error failed)

/-! ### Outcomes -/

/-- What the outcome of an evaluation says about a tree. -/
def Judges (path : String) (tree : DecisionNode Rat) : Except (DecideError Rat) (NodeValue Rat) → Prop
  | .ok _ => tree.AllSound path
  | .error fault => tree.Violates path fault

/-- What the outcome of evaluating branches says: each has passed its check and is sound, or one of them has
not or is not. -/
def JudgesBehind (check : String → Option Rat → Except (DecideError Rat) Unit) (path : String)
    (branches : List (Branch Rat)) : Except (DecideError Rat) (List (BranchValue Rat)) → Prop
  | .ok values => values.map BranchValue.probability = branches.map Branch.probability ∧
      ∀ branch ∈ branches, check (childPath path branch.name) branch.probability = .ok () ∧
        branch.node.AllSound (childPath path branch.name)
  | .error fault => ∃ branch ∈ branches, check (childPath path branch.name) branch.probability = .error fault ∨
      branch.node.Violates (childPath path branch.name) fault

variable {check : String → Option Rat → Except (DecideError Rat) Unit} {branches : List (Branch Rat)}

/-- One more branch, which is checked, then evaluated, before the others are. -/
theorem judgesBehind_cons {branch : Branch Rat} {value : Except (DecideError Rat) (NodeValue Rat)}
    {values : Except (DecideError Rat) (List (BranchValue Rat))}
    (first : branch.node.Judges (childPath path branch.name) value) (others : JudgesBehind check path branches values) :
    JudgesBehind check path (branch :: branches) (do
      check (childPath path branch.name) branch.probability
      let value ← value
      return ⟨branch.name, branch.probability, value⟩ :: (← values)) := by
  cases checked : check (childPath path branch.name) branch.probability with
  | error fault => exact ⟨branch, List.mem_cons_self .., .inl checked⟩
  | ok _ =>
    cases value with
    | error fault => exact ⟨branch, List.mem_cons_self .., .inr first⟩
    | ok value =>
      cases values with
      | error fault =>
        obtain ⟨other, member, failed⟩ := others
        exact ⟨other, List.mem_cons_of_mem _ member, failed⟩
      | ok values =>
        obtain ⟨same, passed⟩ := others
        exact ⟨congrArg (branch.probability :: ·) same, List.forall_mem_cons.2 ⟨⟨checked, first⟩, passed⟩⟩

theorem best?_eq_none_iff {values : List (BranchValue Rat)} : best? values = none ↔ values = [] := by
  cases values with
  | nil => simp [best?]
  | cons top rest =>
    obtain ⟨best, _, _, found, _⟩ := exists_leads top rest
    simp [found]

theorem judges_decision {options : List (Branch Rat)} {values : Except (DecideError Rat) (List (BranchValue Rat))}
    (behind : JudgesBehind checkPrior path options values) : (decision options).Judges path (do choose path (← values)) := by
  cases values with
  | error fault =>
    obtain ⟨branch, member, failed | violates⟩ := behind
    · obtain ⟨p, given, outside, rfl⟩ := checkPrior_eq_error failed
      exact (Misses.prior member given outside).violates
    · exact violates.behind member
  | ok values =>
    obtain ⟨same, passed⟩ := behind
    have lengths : values.length = options.length := by simpa using congrArg List.length same
    change Judges path _ (choose path values)
    rw [choose]
    cases found : best? values with
    | none =>
      rw [best?_eq_none_iff.1 found, List.length_nil] at lengths
      rw [List.length_eq_zero_iff.1 lengths.symm]
      exact Misses.noOptions.violates
    | some best =>
      refine allSound_of_branches ⟨?_, fun branch member => ?_⟩ fun branch member => (passed branch member).2
      · rintro rfl
        rw [List.length_eq_zero_iff.1 lengths] at found
        cases found
      · exact checkPrior_eq_ok_iff.1 (passed branch member).1

theorem probabilityTolerance_eq : (probabilityTolerance : Rat) = 1 / 10 ^ 6 := by
  rw [probabilityTolerance]
  norm_num

theorem judges_chance {outcomes : List (Branch Rat)} {values : Except (DecideError Rat) (List (BranchValue Rat))}
    (some : outcomes ≠ []) (behind : JudgesBehind checkOutcome path outcomes values) :
    (chance outcomes).Judges path (do mean path (← values)) := by
  cases values with
  | error fault =>
    obtain ⟨branch, member, failed | violates⟩ := behind
    · rcases checkOutcome_eq_error failed with ⟨none, rfl⟩ | ⟨p, given, outside, rfl⟩
      · exact (Misses.missing member none).violates
      · exact (Misses.outcome member given outside).violates
    · exact violates.behind member
  | ok values =>
    obtain ⟨same, passed⟩ := behind
    have each (branch : Branch Rat) (member : branch ∈ outcomes) := checkOutcome_eq_ok_iff.1 (passed branch member).1
    obtain ⟨ps, given⟩ : ∃ ps : List Rat, outcomes.map Branch.probability = ps.map Option.some := by
      refine ⟨outcomes.map Branch.weight, ?_⟩
      rw [List.map_map]
      refine List.map_congr_left fun branch member => ?_
      obtain ⟨p, stated, _⟩ := each branch member
      cases branch
      simp_all [Branch.probability, Branch.weight]
    have inside : ∀ p ∈ ps, 0 ≤ p ∧ p ≤ 1 := by
      intro p among
      have listed : Option.some p ∈ outcomes.map Branch.probability := given ▸ List.mem_map_of_mem among
      obtain ⟨branch, member, stated⟩ := List.mem_map.1 listed
      obtain ⟨q, known, bounds⟩ := each branch member
      exact Option.some.inj (stated.symm.trans known) ▸ bounds
    have weights : values.map (fun value => value.probability.getD 0) = ps := by
      have through := congrArg (List.map fun probability : Option Rat => probability.getD 0) (same.trans given)
      simpa [Function.comp_def] using through
    change Judges path _ (mean path values)
    simp only [mean, weights, Scalar.sum_eq, Scalar.abs_eq, probabilityTolerance_eq]
    split
    · next off => exact (Misses.sum given off).violates
    · next near =>
      refine allSound_of_branches ⟨some, ps, given, inside, not_lt.1 near⟩ ?_
      exact fun branch member => (passed branch member).2

mutual

theorem judges_value (path : String) : (tree : DecisionNode Rat) → tree.Judges path (tree.value path)
  | .terminal _ => by
    rw [DecisionNode.value]
    exact allSound_of_branches trivial (by simp [branches])
  | .chance outcomes => by
    rw [DecisionNode.value]
    -- a chance node without outcomes is refused before its branches are looked at, a decision without options
    -- behind them
    cases outcomes with
    | nil => exact Misses.noOutcomes.violates
    | cons first rest => exact judges_chance (by simp) (judgesBehind_branchValues checkOutcome path (first :: rest))
  | .decision options => by
    rw [DecisionNode.value]
    exact judges_decision (judgesBehind_branchValues checkPrior path options)

theorem judgesBehind_branchValues (check : String → Option Rat → Except (DecideError Rat) Unit) (path : String) :
    (branches : List (Branch Rat)) → JudgesBehind check path branches (branchValues check path branches)
  | [] => by
    rw [branchValues]
    exact ⟨rfl, by simp⟩
  | .mk name probability node :: rest => by
    rw [branchValues]
    have first : (Branch.mk name probability node).node.Judges (childPath path name) (node.value (childPath path name)) :=
      judges_value (childPath path name) node
    exact judgesBehind_cons first (judgesBehind_branchValues check path rest)

end

/-- What is evaluated twice comes to the same: an evaluation fails where the first pass does, with its error. -/
theorem evaluate_eq_error_iff : tree.evaluate = .error fault ↔ tree.value rootPath = .error fault := by
  rw [evaluate]
  cases valued : tree.value rootPath with
  | error other => simp [bind, Except.bind]
  | ok value =>
    cases tree with
    | decision options =>
      rw [DecisionNode.value] at valued
      obtain ⟨values, behind, _⟩ := Lists.bind_eq_ok valued
      simp [behind, bind, Except.bind, pure, Except.pure]
    | chance outcomes => simp [bind, Except.bind, pure, Except.pure]
    | terminal utility => simp [bind, Except.bind, pure, Except.pure]

/-- A tree has an evaluation exactly when all its nodes are sound; otherwise the error is that of a node that
is not. -/
theorem evaluate_decides (tree : DecisionNode Rat) :
    ((∃ evaluation, tree.evaluate = .ok evaluation) ↔ tree.AllSound rootPath) ∧
      ∀ fault, tree.evaluate = .error fault → tree.Violates rootPath fault := by
  have judged := judges_value rootPath tree
  have violated : ∀ fault, tree.evaluate = .error fault → tree.Violates rootPath fault := by
    intro fault failed
    rw [evaluate_eq_error_iff.1 failed] at judged
    exact judged
  refine ⟨⟨?_, fun sound => ?_⟩, violated⟩
  · rintro ⟨evaluation, done⟩
    cases valued : tree.value rootPath with
    | error fault =>
      rw [evaluate_eq_error_iff.2 valued] at done
      cases done
    | ok value =>
      rw [valued] at judged
      exact judged
  · cases evaluated : tree.evaluate with
    | error fault => exact absurd sound (violated fault evaluated).not_allSound
    | ok evaluation => exact ⟨evaluation, rfl⟩

/-- Whether to stay or to go, where the odds of going do not add up. -/
def oddTree : DecisionNode Rat :=
  .decision [
    .mk "stay" none (.terminal 9),
    .mk "go" none (.chance [.mk "win" (some (1 / 2)) (.terminal 10), .mk "lose" (some (1 / 3)) (.terminal 0)])]

/-- The odds of the option that would not be taken are refused. -/
theorem oddTree_violates : oddTree.evaluate = .error (.wrongSum "root/go" (5 / 6)) ∧
    oddTree.Violates rootPath (.wrongSum "root/go" (5 / 6)) :=
  have failed : oddTree.evaluate = .error (.wrongSum "root/go" (5 / 6)) := by with_unfolding_all rfl
  ⟨failed, (evaluate_decides oddTree).2 _ failed⟩

end DecisionNode

end Deliberation
