import Deliberation.Proofs.Decision.Strategy
import Deliberation.Proofs.Lists
import Deliberation.Proofs.Number.Exact

/-!
Decision trees folded back. What a tree is worth is the most that a strategy can bring, and the policy
names, decision node by decision node, the options of a strategy that brings it: at each the first one
behind which the most can be had.
-/

namespace Deliberation.DecisionNode

/-- An option, by its number and its name, is the first one behind which the most can be had, and that is how much. -/
structure FirstBest (options : List (Branch Rat)) (i : Nat) (name : String) (utility : Rat) : Prop where
  option : ∃ probability node, options[i]? = some (.mk name probability node) ∧ node.Optimum utility
  earlier : ∀ (k : Nat) branch, k < i → options[k]? = some branch → ∃ less < utility, branch.node.Optimum less
  noBetter : ∀ (k : Nat) branch, options[k]? = some branch → ∃ noMore ≤ utility, branch.node.Optimum noMore

/-- At a decision node the strategy takes the first of the best options, and the step of the policy says so. -/
structure Chooses (σ : Strategy) (juncture : Juncture Rat) (step : PolicyStep Rat) : Prop where
  decision : step.decision = juncture.path
  chosen : FirstBest juncture.options (σ juncture.position) step.choice step.expectedUtility

/-- A tree is worth what a strategy brings and no strategy exceeds, and the policy has a step for each
decision node. -/
structure Folds (path : String) (tree : DecisionNode Rat) (value : NodeValue Rat) (σ : Strategy) : Prop where
  fixes : tree.Fixes σ
  attained : tree.payoff σ = value.utility
  bound : ∀ τ, tree.Fixes τ → tree.payoff τ ≤ value.utility
  policy : List.Forall₂ (Chooses σ) (tree.junctures path) value.policy

theorem Folds.optimum {path : String} {tree : DecisionNode Rat} {value : NodeValue Rat} {σ : Strategy}
    (folds : tree.Folds path value σ) : tree.Optimum value.utility :=
  ⟨⟨σ, folds.fixes, folds.attained⟩, folds.bound⟩

/-! ### Branches -/

/-- A branch whose probability passes a check, and what its node is worth. -/
inductive FoldsBehind (check : String → Option Rat → Except (DecideError Rat) Unit) (path : String) :
    Branch Rat → BranchValue Rat → Prop
  | mk {name : String} {probability : Option Rat} {node : DecisionNode Rat} {value : NodeValue Rat}
      (checked : check (childPath path name) probability = .ok ())
      (folds : ∃ σ, node.Folds (childPath path name) value σ) :
      FoldsBehind check path (.mk name probability node) ⟨name, probability, value⟩

variable {check : String → Option Rat → Except (DecideError Rat) Unit} {path : String} {branches : List (Branch Rat)}
  {values : List (BranchValue Rat)}

theorem FoldsBehind.optimum {branch : Branch Rat} {value : BranchValue Rat} (behind : FoldsBehind check path branch value) :
    branch.node.Optimum value.value.utility := by
  cases behind with
  | mk _ folds =>
    obtain ⟨σ, folds⟩ := folds
    exact folds.optimum

/-- What is said of a branch is its name and its probability, and the most that can be had behind it. -/
structure Assessed (branch : Branch Rat) (value : BranchValue Rat) : Prop where
  same : ∃ node, branch = .mk value.name value.probability node
  optimum : branch.node.Optimum value.value.utility

theorem FoldsBehind.assessed {branch : Branch Rat} {value : BranchValue Rat} (behind : FoldsBehind check path branch value) :
    Assessed branch value := by
  refine ⟨?_, behind.optimum⟩
  cases behind
  exact ⟨_, rfl⟩

/-- Strategies, one behind each branch, that bring what the branches are worth. -/
inductive Parts (path : String) : List (Branch Rat) → List (BranchValue Rat) → (Nat → Strategy) → Prop
  | nil {parts : Nat → Strategy} : Parts path [] [] parts
  | cons {name : String} {probability : Option Rat} {node : DecisionNode Rat} {value : NodeValue Rat}
      {branches : List (Branch Rat)} {values : List (BranchValue Rat)} {parts : Nat → Strategy}
      (first : node.Folds (childPath path name) value (parts 0)) (rest : Parts path branches values fun i => parts (i + 1)) :
      Parts path (.mk name probability node :: branches) (⟨name, probability, value⟩ :: values) parts

theorem exists_parts (behind : List.Forall₂ (FoldsBehind check path) branches values) :
    ∃ parts, Parts path branches values parts := by
  induction behind with
  | nil => exact ⟨fun _ _ => 0, .nil⟩
  | cons first _ ih =>
    obtain ⟨parts, rest⟩ := ih
    cases first with
    | mk _ folds =>
      obtain ⟨σ, folds⟩ := folds
      exact ⟨fun i => Nat.casesOn i σ parts, .cons folds rest⟩

namespace Parts

variable {parts : Nat → Strategy}

theorem fixes (brings : Parts path branches values parts) {i : Nat} {branch : Branch Rat} (here : branches[i]? = some branch) :
    branch.node.Fixes (parts i) := by
  induction brings generalizing i with
  | nil => simp at here
  | cons first _ ih =>
    cases i with
    | zero =>
      cases here
      exact first.fixes
    | succ i => exact ih (by simpa using here)

theorem payoffs_eq (brings : Parts path branches values parts) : payoffs parts branches = values.map (·.value.utility) := by
  induction brings with
  | nil => rfl
  | cons first _ ih => rw [payoffs, List.map_cons, first.attained, ih]

/-- A strategy that goes on with these parts takes the options that the policies name. -/
theorem policy {σ : Strategy} {i : Nat} (brings : Parts path branches values parts) (goes : ∀ k, parts k = σ.under (i + k)) :
    List.Forall₂ (Chooses σ) (juncturesBehind path i branches) (values.flatMap (·.value.policy)) := by
  induction brings generalizing i with
  | nil => exact .nil
  | cons first _ ih =>
    rw [juncturesBehind, List.flatMap_cons]
    refine List.rel_append ?_ (ih fun k => ?_)
    · rw [List.forall₂_map_left_iff]
      have policy := first.policy
      rw [goes 0] at policy
      exact policy.imp fun _ _ chooses => ⟨chooses.decision, chooses.chosen⟩
    · have numbered : i + (k + 1) = i + 1 + k := by omega
      exact numbered ▸ goes (k + 1)

end Parts

/-! ### Chance -/

theorem weight_nonneg {branch : Branch Rat} {value : BranchValue Rat}
    (behind : FoldsBehind checkOutcome path branch value) : 0 ≤ branch.weight := by
  cases behind with
  | @mk name probability node value checked folds =>
    cases probability with
    | none => exact le_rfl
    | some p =>
      rw [checkOutcome, checkPrior] at checked
      split at checked
      · next sound =>
        simp only [isProbability, Bool.and_eq_true, decide_eq_true_eq] at sound
        exact sound.1
      · cases checked

theorem weighted_eq (behind : List.Forall₂ (FoldsBehind check path) branches values) :
    List.zipWith (fun branch u => branch.weight * u) branches (values.map (·.value.utility)) =
      values.map fun value => value.probability.getD 0 * value.value.utility := by
  induction behind with
  | nil => rfl
  | cons first _ ih =>
    rw [List.map_cons, List.zipWith_cons_cons, ih, List.map_cons]
    cases first
    rfl

/-- What strategies bring behind the outcomes is on average at most what the outcomes are worth. -/
theorem weighted_le {τs : Nat → Strategy} (behind : List.Forall₂ (FoldsBehind checkOutcome path) branches values)
    (fixes : ∀ (i : Nat) branch, branches[i]? = some branch → branch.node.Fixes (τs i)) :
    (List.zipWith (fun branch u => branch.weight * u) branches (payoffs τs branches)).sum ≤
      (values.map fun value => value.probability.getD 0 * value.value.utility).sum := by
  induction behind generalizing τs with
  | nil => exact le_rfl
  | cons first _ ih =>
    have weight := weight_nonneg first
    have bound := first.optimum.bound (τs 0) (fixes 0 _ rfl)
    have later := ih fun i branch here => fixes (i + 1) branch (by simpa using here)
    cases first
    rw [payoffs, List.zipWith_cons_cons, List.sum_cons, List.map_cons, List.sum_cons]
    exact add_le_add (mul_le_mul_of_nonneg_left bound weight) later

theorem folds_chance {outcomes : List (Branch Rat)} {value : NodeValue Rat}
    (behind : List.Forall₂ (FoldsBehind checkOutcome path) outcomes values) (done : mean path values = .ok value) :
    ∃ σ, (chance outcomes).Folds path value σ := by
  rw [mean] at done
  split at done
  · cases done
  · cases done
    obtain ⟨parts, brings⟩ := exists_parts behind
    refine ⟨.join 0 parts, ⟨?_, ?_, ?_, ?_⟩⟩
    · exact fixes_of_under nofun fun i branch here => brings.fixes here
    · change (List.zipWith _ outcomes (payoffs parts outcomes)).sum = _
      rw [brings.payoffs_eq, weighted_eq behind, Scalar.sum_eq]
    · intro τ fixes
      rw [payoff, Scalar.sum_eq]
      exact weighted_le behind fun i branch here => fixes.under here
    · exact brings.policy fun k => by rw [Nat.zero_add]; rfl

/-! ### Decision -/

theorem best?_cons_cons (top next : BranchValue Rat) (rest : List (BranchValue Rat)) :
    best? (top :: next :: rest) = best? ((if top.value.utility < next.value.utility then next else top) :: rest) := by
  by_cases less : top.value.utility < next.value.utility <;> simp [best?, less]

/-- A branch value stands where it is worth more than those before it, and no less than those after it. -/
structure Leads (best : BranchValue Rat) (before after : List (BranchValue Rat)) : Prop where
  before : ∀ value ∈ before, value.value.utility < best.value.utility
  after : ∀ value ∈ after, value.value.utility ≤ best.value.utility

theorem Leads.le {best value : BranchValue Rat} {before after : List (BranchValue Rat)} (leads : Leads best before after)
    (member : value ∈ before ++ best :: after) : value.value.utility ≤ best.value.utility := by
  rcases List.mem_append.1 member with early | late
  · exact (leads.before value early).le
  · rcases List.mem_cons.1 late with rfl | late
    · exact le_rfl
    · exact leads.after value late

theorem exists_leads (top : BranchValue Rat) (rest : List (BranchValue Rat)) :
    ∃ best before after, best? (top :: rest) = some best ∧ top :: rest = before ++ best :: after ∧ Leads best before after := by
  induction rest generalizing top with
  | nil => exact ⟨top, [], [], rfl, rfl, by simp, by simp⟩
  | cons next rest ih =>
    rw [best?_cons_cons]
    split
    · next less =>
      obtain ⟨best, before, after, found, split, leads⟩ := ih next
      refine ⟨best, top :: before, after, found, congrArg _ split, ?_, leads.after⟩
      have top_lt := less.trans_le (leads.le (split ▸ List.mem_cons_self ..))
      exact List.forall_mem_cons.2 ⟨top_lt, leads.before⟩
    · next notLess =>
      obtain ⟨best, before, after, found, split, leads⟩ := ih top
      cases before with
      | nil =>
        obtain ⟨rfl, rfl⟩ := List.cons_eq_cons.1 split
        exact ⟨top, [], next :: rest, found, rfl, leads.before, List.forall_mem_cons.2 ⟨not_lt.1 notLess, leads.after⟩⟩
      | cons first before =>
        obtain ⟨rfl, rfl⟩ := List.cons_eq_cons.1 split
        obtain ⟨top_lt, others⟩ := List.forall_mem_cons.1 leads.before
        have next_lt := (not_lt.1 notLess).trans_lt top_lt
        refine ⟨best, top :: next :: before, after, found, rfl, ?_, leads.after⟩
        exact List.forall_mem_cons.2 ⟨top_lt, List.forall_mem_cons.2 ⟨next_lt, others⟩⟩

theorem firstBest {options : List (Branch Rat)} {best : BranchValue Rat} {before after : List (BranchValue Rat)}
    (behind : List.Forall₂ (FoldsBehind check path) options (before ++ best :: after)) (leads : Leads best before after) :
    FirstBest options before.length best.name best.value.utility where
  option := by
    have declared : before.length < options.length := by
      rw [behind.length_eq]
      simp
    have here := List.getElem?_eq_getElem declared
    obtain ⟨value, there, folds⟩ := Lists.exists_getElem?_of_forall₂ behind here
    obtain rfl : best = value := by simpa using there
    obtain ⟨⟨node, same⟩, optimum⟩ := folds.assessed
    rw [same] at here optimum
    exact ⟨_, node, here, optimum⟩
  earlier k branch before_k here := by
    obtain ⟨value, there, folds⟩ := Lists.exists_getElem?_of_forall₂ behind here
    rw [List.getElem?_append_left before_k] at there
    exact ⟨value.value.utility, leads.before value (List.mem_of_getElem? there), folds.optimum⟩
  noBetter k branch here := by
    obtain ⟨value, there, folds⟩ := Lists.exists_getElem?_of_forall₂ behind here
    exact ⟨value.value.utility, leads.le (List.mem_of_getElem? there), folds.optimum⟩

theorem folds_decision {options : List (Branch Rat)} {value : NodeValue Rat}
    (behind : List.Forall₂ (FoldsBehind checkPrior path) options values) (done : choose path values = .ok value) :
    ∃ σ, (decision options).Folds path value σ ∧ ∃ best, values[σ []]? = some best ∧
      value = ⟨best.value.utility, ⟨path, best.name, best.value.utility⟩ :: values.flatMap (·.value.policy)⟩ := by
  rw [choose] at done
  cases values with
  | nil => cases done
  | cons top rest =>
    obtain ⟨best, before, after, found, split, leads⟩ := exists_leads top rest
    rw [found] at done
    cases done
    rw [split] at behind ⊢
    obtain ⟨parts, brings⟩ := exists_parts behind
    have chosen := firstBest behind leads
    refine ⟨.join before.length parts, ⟨?_, ?_, ?_, ?_⟩, best, by simp [Strategy.join], rfl⟩
    · refine fixes_of_under ?_ fun i branch here => brings.fixes here
      intro others same
      cases same
      obtain ⟨_, _, here, _⟩ := chosen.option
      exact (List.getElem?_eq_some_iff.1 here).1
    · change (payoffs parts options).getD before.length 0 = _
      rw [brings.payoffs_eq, List.getD_eq_getElem?_getD]
      simp
    · intro τ fixes
      have here := List.getElem?_eq_getElem fixes.choice
      obtain ⟨noMore, le, optimum⟩ := chosen.noBetter _ _ here
      rw [payoff, List.getD_eq_getElem?_getD, getElem?_payoffs, here]
      exact (optimum.bound _ (fixes.under here)).trans le
    · exact .cons ⟨rfl, chosen⟩ (brings.policy fun k => by rw [Nat.zero_add]; rfl)

mutual

theorem exists_folds (path : String) : (tree : DecisionNode Rat) → ∀ value, tree.value path = .ok value →
    ∃ σ, tree.Folds path value σ
  | .terminal utility, value, done => by
    rw [DecisionNode.value] at done
    split at done
    · cases done
      refine ⟨fun _ => 0, ⟨?_, rfl, fun _ _ => le_rfl, .nil⟩⟩
      exact fixes_of_under nofun fun i branch here => by simp [branches] at here
    · cases done
  | .chance outcomes, value, done => by
    rw [DecisionNode.value] at done
    split at done
    · cases done
    · obtain ⟨values, behind, done⟩ := Lists.bind_eq_ok done
      exact folds_chance (foldsBehind checkOutcome path outcomes values behind) done
  | .decision options, value, done => by
    rw [DecisionNode.value] at done
    obtain ⟨values, behind, done⟩ := Lists.bind_eq_ok done
    obtain ⟨σ, folds, _⟩ := folds_decision (foldsBehind checkPrior path options values behind) done
    exact ⟨σ, folds⟩

theorem foldsBehind (check : String → Option Rat → Except (DecideError Rat) Unit) (path : String) :
    (branches : List (Branch Rat)) → ∀ values, branchValues check path branches = .ok values →
      List.Forall₂ (FoldsBehind check path) branches values
  | [], values, done => by
    cases done
    exact .nil
  | .mk name probability node :: rest, values, done => by
    rw [branchValues] at done
    obtain ⟨_, checked, done⟩ := Lists.bind_eq_ok done
    obtain ⟨value, valued, done⟩ := Lists.bind_eq_ok done
    obtain ⟨others, later, done⟩ := Lists.bind_eq_ok done
    cases done
    exact .cons (.mk checked (exists_folds (childPath path name) node value valued))
      (foldsBehind check path rest others later)

end

/-! ### Evaluation -/

/-- The choice at the root is the first step of the policy, and the options, which are those of the root, have
the rest of it. -/
structure Agrees (options : List (Branch Rat)) (σ : Strategy) (evaluation : Evaluation Rat) : Prop where
  assessed : List.Forall₂ Assessed options evaluation.options
  policy : ∃ best, evaluation.options[σ []]? = some best ∧ evaluation.bestChoice = some best.name ∧
    evaluation.expectedUtility = best.value.utility ∧
    evaluation.policy = ⟨rootPath, best.name, best.value.utility⟩ :: evaluation.options.flatMap (·.value.policy)

/-- An evaluation of a tree tells the most that a strategy can bring, and its policy a strategy that brings it. -/
structure Advises (tree : DecisionNode Rat) (evaluation : Evaluation Rat) (σ : Strategy) : Prop where
  fixes : tree.Fixes σ
  attained : tree.payoff σ = evaluation.expectedUtility
  bound : ∀ τ, tree.Fixes τ → tree.payoff τ ≤ evaluation.expectedUtility
  policy : List.Forall₂ (Chooses σ) (tree.junctures rootPath) evaluation.policy
  root : ∀ options, tree = .decision options → Agrees options σ evaluation

theorem Folds.advises {tree : DecisionNode Rat} {value : NodeValue Rat} {σ : Strategy} (folds : tree.Folds rootPath value σ)
    {best : Option String} {values : List (BranchValue Rat)}
    (root : ∀ options, tree = .decision options → Agrees options σ ⟨best, value.utility, values, value.policy⟩) :
    tree.Advises ⟨best, value.utility, values, value.policy⟩ σ :=
  ⟨folds.fixes, folds.attained, folds.bound, folds.policy, root⟩

/-- What a tree is expected to bring is the most that a strategy can; the policy goes through the decision
nodes depth first, each once, with the choices of a strategy that brings it, and at the root they are the best
choice among the options. -/
theorem evaluate_optimal {tree : DecisionNode Rat} {evaluation : Evaluation Rat} (done : tree.evaluate = .ok evaluation) :
    tree.Surveys (tree.junctures rootPath) ∧ ∃ σ, tree.Advises evaluation σ := by
  refine ⟨surveys_junctures rootPath tree, ?_⟩
  rw [evaluate] at done
  obtain ⟨value, valued, done⟩ := Lists.bind_eq_ok done
  cases tree with
  | decision options =>
    obtain ⟨values, again, done⟩ := Lists.bind_eq_ok done
    cases done
    rw [DecisionNode.value] at valued
    obtain ⟨same, behind, valued⟩ := Lists.bind_eq_ok valued
    obtain rfl : values = same := Except.ok.inj (again.symm.trans behind)
    have behind := foldsBehind checkPrior rootPath options values behind
    obtain ⟨σ, folds, best, here, rfl⟩ := folds_decision behind valued
    refine ⟨σ, folds.advises ?_⟩
    intro others root
    cases root
    exact ⟨behind.imp fun _ _ => FoldsBehind.assessed, best, here, rfl, rfl, rfl⟩
  | chance outcomes =>
    cases done
    obtain ⟨σ, folds⟩ := exists_folds rootPath _ value valued
    exact ⟨σ, folds.advises nofun⟩
  | terminal utility =>
    cases done
    obtain ⟨σ, folds⟩ := exists_folds rootPath _ value valued
    exact ⟨σ, folds.advises nofun⟩

/-- Whether to launch, with what to do about a bug if one turns up. -/
def launchTree : DecisionNode Rat :=
  .decision [
    .mk "wait" none (.terminal 5),
    .mk "launch" none (.chance [
      .mk "bug" (some (1 / 2)) (.decision [.mk "hotfix" none (.terminal 4), .mk "rollback" none (.terminal 2)]),
      .mk "clean" (some (1 / 2)) (.terminal 10)])]
def launchEvaluation : Evaluation Rat where
  bestChoice := some "launch"
  expectedUtility := 7
  options := [⟨"wait", none, 5, []⟩, ⟨"launch", none, 7, [⟨"root/launch/bug", "hotfix", 4⟩]⟩]
  policy := [⟨"root", "launch", 7⟩, ⟨"root/launch/bug", "hotfix", 4⟩]

theorem launchTree_advised : launchTree.evaluate = .ok launchEvaluation ∧
    launchTree.Surveys (launchTree.junctures rootPath) ∧ ∃ σ, launchTree.Advises launchEvaluation σ :=
  have evaluated : launchTree.evaluate = .ok launchEvaluation := by with_unfolding_all rfl
  ⟨evaluated, evaluate_optimal evaluated⟩

end Deliberation.DecisionNode
