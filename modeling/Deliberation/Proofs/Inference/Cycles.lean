import Deliberation.Proofs.Inference.Absence

/-!
The circle that a search reports. When the first circle is met, each open goal is asked for by the one
opened before it. Later the proof of each of these goals is found, or it is given up, which means that the
goal cannot be derived without those opened before it. So if the search proves none of them, none can be
derived at all, and the goals on the circle are among them.
-/

namespace Deliberation

/-- For the proof of a goal a fact may be asked for, or for the proof of what is asked for, and so on. -/
def Rule.Involves (rules : List Rule) : Fact → Fact → Prop :=
  Relation.ReflTransGen fun goal fact => Rule.Asked rules fact goal

/-- Facts that ask for one another only involve one another. -/
theorem Rule.Involves.within {rules : List Rule} {kind : Fact → Prop} {goal fact : Fact}
    (involves : Rule.Involves rules goal fact) (start : kind goal)
    (closed : ∀ rule ∈ rules, ∀ above below, kind above → rule.AsksFor above below → kind below) : kind fact := by
  induction involves with
  | refl => exact start
  | tail _ step ih =>
    obtain ⟨rule, member, asks⟩ := step
    exact closed rule member _ _ ih asks

namespace Backward

variable {facts : FactSet} {rules : List Rule} {pool : List String} {level : String → Nat}

/-- How a circle is met: a goal comes up while it is open itself, and each open goal is asked for by the one
opened before it. The circle runs from the goal through those opened after it back to it. -/
structure MetWith (rules : List Rule) (opened : List Fact) (goal : Fact) (cycle : List Fact) : Prop where
  again : goal ∈ opened
  cycle_eq : cycle = goal :: (opened.takeWhile (· ≠ goal)).reverse ++ [goal]
  linked : (goal :: opened).IsChain (Rule.Asked rules)

/-- What has become of a goal that was opened after others: it is still open, its proof is remembered, or it
cannot be derived without the others. -/
inductive Fate (facts : FactSet) (rules : List Rule) (level : String → Nat) (openGoals : List Fact) (memory : Memory)
    (outer : List Fact) (goal : Fact) : Prop
  | waits (still : goal :: outer <:+ openGoals) : Fate facts rules level openGoals memory outer goal
  | proven (known : (memory.proven.lookup goal).isSome) : Fate facts rules level openGoals memory outer goal
  | failed (unreachable : ¬ Inference.Derivable facts rules (¬ Inference.Model facts rules level ·) outer goal) :
      Fate facts rules level openGoals memory outer goal

/-- The first circle is accounted for: it is known which goals were open when it was met, and what has become
of each. -/
def Memory.Accounts (facts : FactSet) (rules : List Rule) (level : String → Nat) (openGoals : List Fact)
    (memory : Memory) : Prop :=
  ∀ cycle, memory.firstCycle = some cycle → ∃ opened goal, MetWith rules opened goal cycle ∧
    ∀ outer other, other :: outer <:+ opened → Fate facts rules level openGoals memory outer other

theorem MetWith.mem_opened {opened cycle : List Fact} {goal fact : Fact} (met : MetWith rules opened goal cycle)
    (member : fact ∈ cycle) : fact ∈ opened := by
  rw [met.cycle_eq] at member
  simp only [List.cons_append, List.mem_cons, List.mem_append, List.mem_reverse, List.not_mem_nil, or_false] at member
  rcases member with rfl | inside | rfl
  · exact met.again
  · exact (List.takeWhile_sublist _).subset inside
  · exact met.again

theorem MetWith.mem_cycle {opened cycle : List Fact} {goal : Fact} (met : MetWith rules opened goal cycle) :
    goal ∈ cycle := by
  simp [met.cycle_eq]

/-- Every goal that is open when a circle is met involves the goal that it is met at. -/
theorem MetWith.involves {opened cycle : List Fact} {goal other : Fact} (met : MetWith rules opened goal cycle)
    (member : other ∈ opened) : Rule.Involves rules other goal := by
  have chain : (goal :: opened).IsChain fun fact above => Rule.Involves rules above fact :=
    met.linked.imp fun fact above asked => .single asked
  have : IsTrans Fact fun fact above => Rule.Involves rules above fact := ⟨fun _ _ _ near far => far.trans near⟩
  exact List.rel_of_pairwise_cons (List.isChain_iff_pairwise.1 chain) member

section Steps

variable {openGoals : List Fact} {goal : Fact} {memory : Memory}

theorem firstCycle_conclude (cyclesBefore : Nat) (goal : Fact) (found : Option Proof) (memory : Memory) :
    (conclude cyclesBefore goal found memory).firstCycle = memory.firstCycle := by
  unfold conclude
  split
  · rfl
  · split <;> rfl

theorem Fate.imp {more outer : List Fact} {after : Memory} (fate : Fate facts rules level openGoals memory outer goal)
    (still : openGoals <:+ more)
    (kept : ∀ other, (memory.proven.lookup other).isSome → (after.proven.lookup other).isSome) :
    Fate facts rules level more after outer goal := by
  cases fate with
  | waits waiting => exact .waits (waiting.trans still)
  | proven known => exact .proven (kept goal known)
  | failed unreachable => exact .failed unreachable

theorem Memory.Accounts.opens (accounts : memory.Accounts facts rules level openGoals) :
    memory.Accounts facts rules level (goal :: openGoals) := by
  intro cycle first
  obtain ⟨opened, again, met, fates⟩ := accounts cycle first
  refine ⟨opened, again, met, ?_⟩
  intro outer other inside
  exact (fates outer other inside).imp (List.suffix_cons ..) fun _ known => known

/-- The first circle stays the first one, and otherwise it runs from the goal that is met again back to it. -/
theorem firstCycle_meetCycle {tentative : Bool} {cycle : List Fact}
    (first : (meetCycle openGoals tentative goal memory).firstCycle = some cycle) :
    memory.firstCycle = some cycle ∨ cycle = goal :: (openGoals.takeWhile (· ≠ goal)).reverse ++ [goal] := by
  rw [meetCycle] at first
  dsimp only at first
  split at first
  · next known => exact .inl (known.trans first)
  · split at first
    · cases first
    · exact .inr (Option.some.inj first).symm

/-- When the first circle is met, all the goals that are open wait. -/
theorem Memory.Accounts.meetCycle {depth : Nat} {tentative : Bool}
    (accounts : memory.Accounts facts rules level openGoals) (call : Call rules pool depth openGoals goal)
    (again : goal ∈ openGoals) :
    (Backward.meetCycle openGoals tentative goal memory).Accounts facts rules level openGoals := by
  intro cycle first
  rcases firstCycle_meetCycle first with known | rfl
  · obtain ⟨opened, other, met, fates⟩ := accounts cycle known
    refine ⟨opened, other, met, ?_⟩
    intro outer other inside
    exact (fates outer other inside).imp (List.suffix_refl _) fun _ known => known
  · exact ⟨openGoals, goal, ⟨again, rfl, call.linked⟩, fun outer other still => .waits still⟩

/-- When a goal is concluded, its fate is settled: it is proven, or it cannot be derived without those that
are still open. -/
theorem Memory.Accounts.conclude {cyclesBefore : Nat} {found : Option Proof}
    (accounts : memory.Accounts facts rules level (goal :: openGoals))
    (denied : found = none → ¬ Inference.Derivable facts rules (¬ Inference.Model facts rules level ·) openGoals goal) :
    (Backward.conclude cyclesBefore goal found memory).Accounts facts rules level openGoals := by
  intro cycle first
  rw [firstCycle_conclude] at first
  obtain ⟨opened, again, met, fates⟩ := accounts cycle first
  refine ⟨opened, again, met, ?_⟩
  intro outer other inside
  cases fates outer other inside with
  | proven known => exact .proven ((follows_conclude List.not_mem_nil cyclesBefore found memory).proven other known)
  | failed unreachable => exact .failed unreachable
  | waits still =>
    rcases List.suffix_cons_iff.1 still with same | further
    · obtain ⟨rfl, rfl⟩ := List.cons.inj same
      cases found with
      | none => exact .failed (denied rfl)
      | some proof => exact .proven (by simp [Backward.conclude])
    · exact .waits further

end Steps

theorem Tried.imp {invariant weaker : List Fact → Memory → Prop} {depth : Nat} {openGoals : List Fact} {goal : Fact}
    {before after : Memory} (tried : Tried facts rules pool invariant depth openGoals goal before after)
    (implied : ∀ openGoals memory, invariant openGoals memory → weaker openGoals memory) :
    Tried facts rules pool weaker depth openGoals goal before after :=
  ⟨tried.call, tried.unknown, implied _ _ tried.began, implied _ _ tried.keeps, tried.follows⟩

/-- A search under stratified rules accounts for the first circle throughout. -/
theorem lawful_of_accounts (levelled : Rule.Levelled rules level) (safe : ∀ rule ∈ rules, rule.Safe)
    (covers : Rule.Covers pool facts rules) :
    Lawful facts rules pool
      (fun openGoals memory => memory.Truthful (Inference.Model facts rules level) ∧
        memory.Accounts facts rules level openGoals)
      (fun _ proof => proof.Within (Inference.Model facts rules level) (¬ Inference.Model facts rules level ·))
      fun openGoals _ fact => (∀ other ∈ openGoals, level fact.predicate < level other.predicate) →
        ¬ Inference.Model facts rules level fact := by
  have truly := lawful_of_levelled levelled safe covers
  refine ⟨truly.good_follows, truly.givenUp_follows, ?_, ?_, ?_, ?_, ?_, ?_⟩
  · intro goal memory known
    exact .asserted ⟨0, known⟩
  · intro openGoals goal memory _ keeps
    exact ⟨keeps.1, keeps.2.opens⟩
  · intro openGoals goal memory keeps member
    exact truly.refuted keeps.1 member
  · intro depth openGoals goal memory tentative call again keeps
    obtain ⟨truthful, given⟩ := truly.circle call again keeps.1
    exact ⟨⟨truthful, keeps.2.meetCycle call again⟩, given⟩
  · intro depth openGoals goal before after rule place proof premises absent tried listed byRule
    obtain ⟨truthful, fine⟩ := truly.found (tried.imp fun _ _ => And.left) listed byRule
    exact ⟨⟨truthful, tried.keeps.2.conclude fun none => by cases none⟩, fine⟩
  · intro depth openGoals goal before after tentative tried run
    obtain ⟨truthful, given⟩ := truly.failed (tried.imp fun _ _ => And.left) run
    have right : GoalRight facts rules level openGoals goal
        (proveGoal ⟨facts, rules⟩ (depth + 1) openGoals tentative goal) :=
      proveGoal_right levelled safe covers tried.call.distinct tried.call.instances tried.call.enough
        (tried.call.level_le levelled) tried.call.overPool
    obtain ⟨_, _, unreachable⟩ := right before tried.began.1
    rw [run] at unreachable
    exact ⟨⟨truthful, tried.keeps.2.conclude fun _ => unreachable false (by simp)⟩, given⟩

/-- Of goals that were opened one after the other, each proven or out of reach without those opened before it,
none can be derived unless one is proven. -/
theorem underivable_of_fates {memory : Memory} {opened : List Fact}
    (fates : ∀ outer other, other :: outer <:+ opened → Fate facts rules level [] memory outer other)
    (unproven : ∀ other ∈ opened, memory.proven.lookup other = none) :
    ∀ other ∈ opened, ¬ Inference.Derivable facts rules (¬ Inference.Model facts rules level ·) [] other := by
  -- from the goal opened first to the one opened last
  induction opened with
  | nil => simp
  | cons last outer ih =>
    have others := ih (fun further other inside => fates further other (inside.trans (List.suffix_cons ..)))
      fun other member => unproven other (List.mem_cons_of_mem _ member)
    refine List.forall_mem_cons.2 ⟨?_, others⟩
    intro derivable
    cases fates outer last (List.suffix_refl _) with
    | waits still => simp at still
    | proven known =>
      rw [unproven last (List.mem_cons_self ..)] at known
      cases known
    | failed unreachable => exact unreachable (derivable.avoiding_underivable others)

/-- What is remembered when the search for a proof of a goal is over. -/
def finalMemory (goal : Fact) (facts : FactSet) (rules : List Rule) : Memory :=
  (proveGoal ⟨facts, rules⟩ (depthBound ⟨facts, rules⟩ goal) [] false goal ⟨[], [], none, 0⟩).2

/-- A circle is reported under safe rules, and it is the first one that the search met. -/
theorem firstCycle_of_prove {goal : Fact} {cycle : List Fact}
    (raised : prove goal.toAtom facts rules = .error (.circularDependency cycle)) :
    (∀ rule ∈ rules, rule.Safe) ∧ (finalMemory goal facts rules).firstCycle = some cycle := by
  rcases Lists.bind_eq_error raised with refused | ⟨_, valid, searched⟩
  · obtain ⟨label, name, unsafeRule⟩ := Rule.validateAll_error refused
    cases unsafeRule
  · refine ⟨Rule.validateAll_eq_ok_iff.1 valid, ?_⟩
    rw [Atom.ground?_toAtom] at searched
    dsimp only at searched
    rw [finalMemory]
    split at searched
    · cases searched
    · next memory run =>
      rw [run]
      split at searched
      · next known =>
        cases searched
        exact known
      · cases searched

/-- An invariant of the search holds of what is remembered in the end, when no goal is open any more. -/
theorem Lawful.finalMemory {invariant : List Fact → Memory → Prop} {good : Memory → Proof → Prop}
    {givenUp : List Fact → Memory → Fact → Prop}
    (lawful : ∀ pool, Rule.Covers pool facts rules → Lawful facts rules pool invariant good givenUp)
    (start : invariant [] ⟨[], [], none, 0⟩) (goal : Fact) : invariant [] (finalMemory goal facts rules) := by
  obtain ⟨pool, covers, overPool, enough⟩ := exists_pool facts rules goal
  exact ((lawful pool covers).proveGoal_reaches covers (.root overPool enough) (Memory.keeps_empty start)).keeps.1

/-- A circle that is reported cannot be proven, unless the search has proven a goal that involves it. -/
theorem cycle_unprovable {goal : Fact} {cycle : List Fact} (stratified : Rule.Stratified rules)
    (raised : prove goal.toAtom facts rules = .error (.circularDependency cycle))
    (unresolved : ∀ other, ((finalMemory goal facts rules).proven.lookup other).isSome →
      ∀ fact ∈ cycle, ¬ Rule.Involves rules other fact) :
    ∀ fact ∈ cycle, ∀ proof, prove fact.toAtom facts rules ≠ .ok (some proof) := by
  obtain ⟨level, levelled⟩ := Rule.stratified_iff_exists_levelled.1 stratified
  obtain ⟨safe, first⟩ := firstCycle_of_prove raised
  have empty : Memory.Accounts facts rules level [] ⟨[], [], none, 0⟩ := fun cycle first => by cases first
  obtain ⟨_, accounts⟩ := Lawful.finalMemory (fun _ => lawful_of_accounts levelled safe) ⟨Memory.truthful_empty, empty⟩ goal
  obtain ⟨opened, again, met, fates⟩ := accounts cycle first
  have unproven : ∀ other ∈ opened, (finalMemory goal facts rules).proven.lookup other = none := by
    intro other member
    by_contra proven
    exact unresolved other (Option.isSome_iff_ne_none.2 proven) again met.mem_cycle (met.involves member)
  intro fact member proof proved
  have holds : Inference.Model facts rules level fact := (exists_prove_iff_model safe levelled).1 ⟨proof, proved⟩
  exact underivable_of_fates fates unproven fact (met.mem_opened member)
    ((Inference.model_iff_derivable levelled).1 holds)

/-- Two goals that need each other, one of which needs a goal besides that is proven. -/
def needingEachOther : List Rule :=
  [⟨none, [.positive ⟨"r", []⟩, .positive ⟨"q", []⟩], ⟨"p", []⟩⟩, ⟨none, [.positive ⟨"s", []⟩], ⟨"r", []⟩⟩,
    ⟨none, [.positive ⟨"p", []⟩], ⟨"q", []⟩⟩]

theorem needingEachOther_unprovable :
    prove (Fact.toAtom ⟨"p", []⟩) (.ofList [⟨"s", []⟩]) needingEachOther =
        .error (.circularDependency [⟨"p", []⟩, ⟨"q", []⟩, ⟨"p", []⟩]) ∧
      ∀ fact ∈ ([⟨"p", []⟩, ⟨"q", []⟩, ⟨"p", []⟩] : List Fact), ∀ proof,
        prove fact.toAtom (.ofList [⟨"s", []⟩]) needingEachOther ≠ .ok (some proof) := by
  have raised : prove (Fact.toAtom ⟨"p", []⟩) (.ofList [⟨"s", []⟩]) needingEachOther =
      .error (.circularDependency [⟨"p", []⟩, ⟨"q", []⟩, ⟨"p", []⟩]) := rfl
  have stratified : Rule.Stratified needingEachOther :=
    Rule.stratified_iff_exists_levelled.2 ⟨fun _ => 0, by decide, by decide⟩
  have proven : (finalMemory ⟨"p", []⟩ (.ofList [⟨"s", []⟩]) needingEachOther).proven =
      [(⟨"r", []⟩, .rule ⟨"r", []⟩ "rule#1" [.asserted ⟨"s", []⟩] [])] := rfl
  -- What is asked for to prove `r` is `s` alone.
  have aside : ∀ rule ∈ needingEachOther, rule.consequent.predicate ∈ ["r", "s"] →
      ∀ atom ∈ rule.positives ++ rule.negatives, atom.predicate ∈ ["r", "s"] := by decide
  have apart : ∀ fact ∈ ([⟨"p", []⟩, ⟨"q", []⟩, ⟨"p", []⟩] : List Fact), fact.predicate ∉ ["r", "s"] := by decide
  refine ⟨raised, cycle_unprovable stratified raised ?_⟩
  intro other known fact member involves
  have start : other.predicate ∈ ["r", "s"] := by
    rw [proven, List.lookup_cons] at known
    split at known
    · next same => simp [beq_iff_eq.1 same]
    · cases known
  have within : fact.predicate ∈ ["r", "s"] := by
    refine @Rule.Involves.within _ (·.predicate ∈ ["r", "s"]) _ _ involves start ?_
    rintro rule among above below inside ⟨bindings, ground, atom, listed, becomes⟩
    rw [Atom.predicate_of_ground? ground] at inside
    rw [Atom.predicate_of_ground? becomes]
    exact aside rule among inside atom listed
  exact apart fact member within

/-- The circle that is reported was left by another rule, and with it a fact on it is proven. -/
theorem circle_resolved_reported :
    let rules : List Rule := [⟨none, [.positive ⟨"q", []⟩, .positive ⟨"s", []⟩], ⟨"p", []⟩⟩,
      ⟨none, [.positive ⟨"p", []⟩], ⟨"q", []⟩⟩, ⟨none, [.positive ⟨"r", []⟩], ⟨"q", []⟩⟩]
    (∀ rule ∈ rules, rule.Safe ∧ rule.negatives = []) ∧
      prove (Fact.toAtom ⟨"p", []⟩) (.ofList [⟨"r", []⟩]) rules =
        .error (.circularDependency [⟨"p", []⟩, ⟨"q", []⟩, ⟨"p", []⟩]) ∧
      ∃ proof, prove (Fact.toAtom ⟨"q", []⟩) (.ofList [⟨"r", []⟩]) rules = .ok (some proof) := by
  exact ⟨by decide, rfl, _, rfl⟩

end Backward

end Deliberation
