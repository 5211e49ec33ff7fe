import Mathlib.Algebra.Order.Ring.Rat
import Mathlib.Data.List.Forall2
import Mathlib.Order.Basic
import Deliberation.Decision.Tree

/-!
Strategies in decision trees. A strategy fixes an option at every decision node, which is known by its
position: the numbers of the branches that lead there. The decision nodes of a tree are listed depth
first, each of them once.
-/

namespace Deliberation

/-- The number of the option to take at each position. -/
abbrev Strategy := List Nat → Nat

/-- What a strategy does behind a branch. -/
def Strategy.under (σ : Strategy) (i : Nat) : Strategy := fun position => σ (i :: position)

/-- The strategy that takes an option, and behind each branch goes on as another one does. -/
def Strategy.join (choice : Nat) (parts : Nat → Strategy) : Strategy
  | [] => choice
  | i :: position => parts i position

namespace DecisionNode

variable {R : Type}

def branches : DecisionNode R → List (Branch R)
  | .decision options => options
  | .chance outcomes => outcomes
  | .terminal _ => []

end DecisionNode

/-- The node that a branch leads to. -/
def Branch.node {R : Type} : Branch R → DecisionNode R
  | .mk _ _ node => node

/-- How much the node of a branch counts in a mean. -/
def Branch.weight : Branch Rat → Rat
  | .mk _ probability _ => probability.getD 0

namespace DecisionNode

variable {R : Type}

/-- The node at a position. -/
def at? (tree : DecisionNode R) : List Nat → Option (DecisionNode R)
  | [] => some tree
  | i :: position =>
    match tree.branches[i]? with
    | some branch => branch.node.at? position
    | none => none

/-- A strategy fixes an option at every decision node. -/
def Fixes (σ : Strategy) (tree : DecisionNode R) : Prop :=
  ∀ position options, tree.at? position = some (.decision options) → σ position < options.length

theorem Fixes.under {σ : Strategy} {tree : DecisionNode R} (fixes : tree.Fixes σ) {i : Nat} {branch : Branch R}
    (here : tree.branches[i]? = some branch) : branch.node.Fixes (σ.under i) := by
  intro position options there
  refine fixes (i :: position) options ?_
  rw [at?, here]
  exact there

theorem Fixes.choice {σ : Strategy} {options : List (Branch R)} (fixes : (decision options).Fixes σ) :
    σ [] < options.length :=
  fixes [] options rfl

theorem fixes_of_under {σ : Strategy} {tree : DecisionNode R}
    (here : ∀ options, tree = .decision options → σ [] < options.length)
    (behind : ∀ (i : Nat) branch, tree.branches[i]? = some branch → branch.node.Fixes (σ.under i)) : tree.Fixes σ := by
  intro position options there
  cases position with
  | nil => exact here options (Option.some.inj there)
  | cons i position =>
    rw [at?] at there
    split at there
    · next branch found => exact behind i branch found position options there
    · cases there

mutual

/-- What a strategy brings: the mean over the outcomes of a chance node, and what the chosen option brings at
a decision. -/
def payoff (σ : Strategy) : DecisionNode Rat → Rat
  | .terminal utility => utility
  | .chance outcomes => (List.zipWith (fun branch u => branch.weight * u) outcomes (payoffs σ.under outcomes)).sum
  | .decision options => (payoffs σ.under options).getD (σ []) 0

/-- What strategies bring, one behind each branch. -/
def payoffs (parts : Nat → Strategy) : List (Branch Rat) → List Rat
  | [] => []
  | .mk _ _ node :: rest => node.payoff (parts 0) :: payoffs (fun i => parts (i + 1)) rest

end

theorem getElem?_payoffs (parts : Nat → Strategy) (branches : List (Branch Rat)) (i : Nat) :
    (payoffs parts branches)[i]? = branches[i]?.map fun branch => branch.node.payoff (parts i) := by
  induction branches generalizing parts i with
  | nil => simp [payoffs]
  | cons branch rest ih =>
    obtain ⟨name, probability, node⟩ := branch
    rw [payoffs]
    cases i with
    | zero => rfl
    | succ i => simpa using ih _ i

/-- A number is the most that a strategy can bring. -/
structure Optimum (tree : DecisionNode Rat) (utility : Rat) : Prop where
  attained : ∃ σ, tree.Fixes σ ∧ tree.payoff σ = utility
  bound : ∀ σ, tree.Fixes σ → tree.payoff σ ≤ utility

/-- A decision node of a tree: where it is, by what path of names it is known, and what it offers. -/
structure Juncture (R : Type) where
  position : List Nat
  path : String
  options : List (Branch R)

/-- A decision node, seen from the node that has its tree behind a branch. -/
def Juncture.below (i : Nat) (juncture : Juncture R) : Juncture R :=
  { juncture with position := i :: juncture.position }

mutual

/-- The decision nodes of a tree, depth first. -/
def junctures (path : String) : DecisionNode R → List (Juncture R)
  | .terminal _ => []
  | .chance outcomes => juncturesBehind path 0 outcomes
  | .decision options => ⟨[], path, options⟩ :: juncturesBehind path 0 options

/-- The decision nodes behind branches, which are numbered from `i` on. -/
def juncturesBehind (path : String) (i : Nat) : List (Branch R) → List (Juncture R)
  | [] => []
  | .mk name _ node :: rest =>
    (node.junctures (childPath path name)).map (.below i) ++ juncturesBehind path (i + 1) rest

end

/-- A list has every decision node of a tree, and each of them once: at positions that follow each other depth
first. -/
structure Surveys (tree : DecisionNode R) (listed : List (Juncture R)) : Prop where
  every : ∀ position options, tree.at? position = some (.decision options) ↔
    ∃ juncture ∈ listed, juncture.position = position ∧ juncture.options = options
  ordered : (listed.map Juncture.position).Pairwise (· < ·)

/-- The same of the decision nodes behind branches that are numbered from `i` on. -/
structure SurveysBehind (i : Nat) (branches : List (Branch R)) (listed : List (Juncture R)) : Prop where
  every : ∀ position options,
    (∃ k rest branch, position = (i + k) :: rest ∧ branches[k]? = some branch ∧
      branch.node.at? rest = some (.decision options)) ↔
    ∃ juncture ∈ listed, juncture.position = position ∧ juncture.options = options
  ordered : (listed.map Juncture.position).Pairwise (· < ·)

theorem SurveysBehind.nil (i : Nat) : SurveysBehind i ([] : List (Branch R)) [] := ⟨by simp, by simp⟩

/-- The nodes behind the first branch come before those behind the others. -/
theorem SurveysBehind.cons {i : Nat} {branch : Branch R} {rest : List (Branch R)} {first others : List (Juncture R)}
    (surveys : Surveys branch.node first) (later : SurveysBehind (i + 1) rest others) :
    SurveysBehind i (branch :: rest) (first.map (.below i) ++ others) where
  every position options := by
    constructor
    · rintro ⟨k, tail, found, rfl, here, there⟩
      cases k with
      | zero =>
        obtain rfl : branch = found := by simpa using here
        obtain ⟨juncture, member, rfl, rfl⟩ := (surveys.every tail options).1 there
        exact ⟨juncture.below i, by simp [List.mem_map_of_mem member], rfl, rfl⟩
      | succ k =>
        have numbered : i + (k + 1) = i + 1 + k := by omega
        obtain ⟨juncture, member, same⟩ := (later.every _ options).1 ⟨k, tail, found, rfl, by simpa using here, there⟩
        exact ⟨juncture, by simp [member], numbered ▸ same⟩
    · rintro ⟨juncture, member, rfl, rfl⟩
      rcases List.mem_append.1 member with here | there
      · obtain ⟨inner, among, rfl⟩ := List.mem_map.1 here
        exact ⟨0, inner.position, branch, rfl, rfl, (surveys.every _ _).2 ⟨inner, among, rfl, rfl⟩⟩
      · obtain ⟨k, tail, found, same, here, there⟩ := (later.every _ _).2 ⟨juncture, there, rfl, rfl⟩
        have numbered : i + 1 + k = i + (k + 1) := by omega
        exact ⟨k + 1, tail, found, numbered ▸ same, by simpa using here, there⟩
  ordered := by
    rw [List.map_append, List.pairwise_append]
    refine ⟨?_, later.ordered, ?_⟩
    · rw [List.map_map]
      have inner := surveys.ordered
      rw [List.pairwise_map] at inner ⊢
      exact inner.imp fun {a b} before => List.cons_lt_cons_iff.2 (.inr ⟨rfl, before⟩)
    · intro position here other there
      obtain ⟨_, among, rfl⟩ := List.mem_map.1 here
      obtain ⟨inner, _, rfl⟩ := List.mem_map.1 among
      obtain ⟨juncture, member, rfl⟩ := List.mem_map.1 there
      obtain ⟨k, tail, _, same, _⟩ := (later.every _ _).2 ⟨juncture, member, rfl, rfl⟩
      rw [same]
      exact List.cons_lt_cons_iff.2 (.inl (by omega))

theorem surveys_of_behind {tree : DecisionNode R} {listed : List (Juncture R)} (leaf : ∀ options, tree ≠ .decision options)
    (behind : SurveysBehind 0 tree.branches listed) : Surveys tree listed where
  every position options := by
    rw [← behind.every]
    constructor
    · intro there
      cases position with
      | nil => exact (leaf options (Option.some.inj there)).elim
      | cons i position =>
        rw [at?] at there
        split at there
        · next branch here => exact ⟨i, position, branch, by simp, here, there⟩
        · cases there
    · rintro ⟨k, rest, branch, rfl, here, there⟩
      rw [Nat.zero_add, at?, here]
      exact there
  ordered := behind.ordered

/-- A decision node comes before the ones behind its options. -/
theorem surveys_decision {path : String} {options : List (Branch R)} {listed : List (Juncture R)}
    (behind : SurveysBehind 0 options listed) : Surveys (.decision options) (⟨[], path, options⟩ :: listed) where
  every position others := by
    cases position with
    | nil =>
      have deeper : ∀ juncture ∈ listed, juncture.position ≠ [] := by
        rintro juncture member empty
        obtain ⟨k, rest, _, same, _⟩ := (behind.every _ _).2 ⟨juncture, member, rfl, rfl⟩
        rw [empty] at same
        cases same
      constructor
      · intro here
        cases here
        exact ⟨_, List.mem_cons_self .., rfl, rfl⟩
      · rintro ⟨juncture, member, root, rfl⟩
        rcases List.mem_cons.1 member with rfl | member
        · rfl
        · exact (deeper juncture member root).elim
    | cons i position =>
      have inner : (decision options).at? (i :: position) = some (.decision others) ↔
          ∃ juncture ∈ listed, juncture.position = i :: position ∧ juncture.options = others := by
        rw [← behind.every, at?, branches]
        constructor
        · intro there
          split at there
          · next branch here => exact ⟨i, position, branch, by simp, here, there⟩
          · cases there
        · rintro ⟨k, rest, branch, same, here, there⟩
          obtain ⟨rfl, rfl⟩ : i = k ∧ position = rest := by simpa using same
          rw [here]
          exact there
      rw [inner]
      simp
  ordered := by
    refine List.pairwise_cons.2 ⟨?_, behind.ordered⟩
    intro position member
    obtain ⟨juncture, among, rfl⟩ := List.mem_map.1 member
    obtain ⟨k, rest, _, same, _⟩ := (behind.every _ _).2 ⟨juncture, among, rfl, rfl⟩
    rw [same]
    exact List.nil_lt_cons ..

mutual

/-- The decision nodes that are listed are all there are. -/
theorem surveys_junctures (path : String) : (tree : DecisionNode R) → Surveys tree (tree.junctures path)
  | .terminal _ => surveys_of_behind (fun _ => nofun) (.nil 0)
  | .chance outcomes => surveys_of_behind (fun _ => nofun) (surveys_juncturesBehind path 0 outcomes)
  | .decision options => surveys_decision (surveys_juncturesBehind path 0 options)

theorem surveys_juncturesBehind (path : String) (i : Nat) : (branches : List (Branch R)) →
    SurveysBehind i branches (juncturesBehind path i branches)
  | [] => .nil i
  | .mk name _ node :: rest =>
    .cons (surveys_junctures (childPath path name) node) (surveys_juncturesBehind path (i + 1) rest)

end

end DecisionNode

end Deliberation
