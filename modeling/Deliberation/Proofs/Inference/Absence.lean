import Deliberation.Proofs.Inference.Calls

/-!
A proof rests on the absence of facts. Under stratified rules these do not belong to the model, and the
goals of the proof do; under any rules they are facts that the search has given up, unless it met a circle
on the way. Either way a proof does not prove what it says is absent.
-/

namespace Deliberation

namespace Proof

mutual

/-- The facts whose absence the nodes of a proof rest on. -/
def absences : Proof → List Fact
  | .asserted _ => []
  | .rule _ _ premises absent => absent ++ absencesOf premises

def absencesOf : List Proof → List Fact
  | [] => []
  | proof :: rest => proof.absences ++ absencesOf rest

end

theorem mem_goalsOf {premises : List Proof} {fact : Fact} :
    fact ∈ goalsOf premises ↔ ∃ premise ∈ premises, fact ∈ premise.goals := by
  induction premises with
  | nil => simp [goalsOf]
  | cons premise rest ih => simp [goalsOf, ih]

theorem mem_absencesOf {premises : List Proof} {fact : Fact} :
    fact ∈ absencesOf premises ↔ ∃ premise ∈ premises, fact ∈ premise.absences := by
  induction premises with
  | nil => simp [absencesOf]
  | cons premise rest ih => simp [absencesOf, ih]

theorem goal_mem_goals (proof : Proof) : proof.goal ∈ proof.goals := by
  cases proof <;> simp [goal, goals]

/-- The goals of all nodes are of one kind, and what the nodes rest on the absence of is of another. -/
structure Within (holds fails : Fact → Prop) (proof : Proof) : Prop where
  goals : ∀ fact ∈ proof.goals, holds fact
  absences : ∀ fact ∈ proof.absences, fails fact

variable {holds fails holds' fails' : Fact → Prop}

theorem Within.imp {proof : Proof} (within : proof.Within holds fails) (more : ∀ fact, holds fact → holds' fact)
    (other : ∀ fact, fails fact → fails' fact) : proof.Within holds' fails' :=
  ⟨fun fact member => more fact (within.goals fact member), fun fact member => other fact (within.absences fact member)⟩

theorem Within.asserted {goal : Fact} (holding : holds goal) : (Proof.asserted goal).Within holds fails :=
  ⟨by simpa [Proof.goals] using holding, by simp [Proof.absences]⟩

theorem Within.rule {goal : Fact} {label : String} {premises : List Proof} {absent : List Fact} (holding : holds goal)
    (proven : ∀ premise ∈ premises, premise.Within holds fails) (failing : ∀ fact ∈ absent, fails fact) :
    (Proof.rule goal label premises absent).Within holds fails := by
  constructor
  · intro fact member
    rw [Proof.goals, List.mem_cons, mem_goalsOf] at member
    rcases member with rfl | ⟨premise, among, member⟩
    · exact holding
    · exact (proven premise among).goals fact member
  · intro fact member
    rw [Proof.absences, List.mem_append, mem_absencesOf] at member
    rcases member with member | ⟨premise, among, member⟩
    · exact failing fact member
    · exact (proven premise among).absences fact member

end Proof

namespace Backward

variable {facts : FactSet} {rules : List Rule} {pool : List String}

section Stratified

variable {level : String → Nat}

/-- No open goal is of a lower level than what came up after it. -/
theorem Call.level_le (levelled : Rule.Levelled rules level) {depth : Nat} {openGoals : List Fact} {goal : Fact}
    (call : Call rules pool depth openGoals goal) : ∀ other ∈ openGoals, level goal.predicate ≤ level other.predicate := by
  have below (fact goal : Fact) (asked : Rule.Asked rules fact goal) : level fact.predicate ≤ level goal.predicate := by
    obtain ⟨rule, member, bindings, ground, atom, among, becomes⟩ := asked
    rw [Atom.predicate_of_ground? ground, Atom.predicate_of_ground? becomes]
    rcases List.mem_append.1 among with among | among
    · exact levelled.positive rule member atom among
    · exact (levelled.negative rule member atom among).le
  have chain : (goal :: openGoals).IsChain fun fact goal => level fact.predicate ≤ level goal.predicate :=
    call.linked.imp below
  have : IsTrans Fact fun fact goal => level fact.predicate ≤ level goal.predicate := ⟨fun _ _ _ => le_trans⟩
  exact fun other opened => List.rel_of_pairwise_cons (List.isChain_iff_pairwise.1 chain) opened

theorem lawful_of_levelled (levelled : Rule.Levelled rules level) (safe : ∀ rule ∈ rules, rule.Safe)
    (covers : Rule.Covers pool facts rules) :
    Lawful facts rules pool (fun _ => Memory.Truthful (Inference.Model facts rules level))
      (fun _ proof => proof.Within (Inference.Model facts rules level) (¬ Inference.Model facts rules level ·))
      fun openGoals _ fact => (∀ other ∈ openGoals, level fact.predicate < level other.predicate) →
        ¬ Inference.Model facts rules level fact where
  good_follows _ within := within
  givenUp_follows _ fails := fails
  asserted known := .asserted ⟨0, known⟩
  opens _ truthful := truthful
  refuted truthful member _ := truthful.refuted _ member
  circle _ opened truthful := ⟨⟨truthful.proven, truthful.refuted⟩, fun below => absurd (below _ opened) (lt_irrefl _)⟩
  found := by
    intro depth openGoals goal before after rule place proof premises absent tried listed byRule
    obtain ⟨rfl, ⟨bindings, ground, positives, negatives⟩, proven, absences⟩ := byRule
    have member : rule ∈ rules := List.fst_mem_of_mem_zipIdx listed
    have fails : ∀ fact ∈ absent, ¬ Inference.Model facts rules level fact := by
      intro fact among
      have becomes : some fact ∈ rule.negatives.map (·.ground? bindings) := negatives ▸ List.mem_map_of_mem among
      obtain ⟨atom, listed, becomes⟩ := List.mem_map.1 becomes
      have lower := levelled.negative rule member atom listed
      rw [← Atom.predicate_of_ground? becomes, ← Atom.predicate_of_ground? ground] at lower
      refine absences fact among (List.forall_mem_cons.2 ⟨lower, fun other opened => ?_⟩)
      exact lower.trans_le (tried.call.level_le levelled other opened)
    have holds : Inference.Model facts rules level goal := by
      refine .of_concludes levelled member ⟨bindings, ground, Atom.allAre_iff.2 ⟨_, positives, ?_⟩,
        Atom.allAre_iff.2 ⟨_, negatives, fails⟩⟩
      intro fact among
      obtain ⟨premise, listed, rfl⟩ := List.mem_map.1 among
      exact (proven premise listed).2.goals _ premise.goal_mem_goals
    exact ⟨tried.keeps.conclude holds, .rule holds (fun premise listed => (proven premise listed).2) fails⟩
  failed := by
    intro depth openGoals goal before after tentative tried run
    have above := tried.call.level_le levelled
    have right : GoalRight facts rules level openGoals goal
        (proveGoal ⟨facts, rules⟩ (depth + 1) openGoals tentative goal) :=
      proveGoal_right levelled safe covers tried.call.distinct tried.call.instances tried.call.enough above
        tried.call.overPool
    obtain ⟨truthful, _, unreachable⟩ := right before tried.began
    rw [run] at truthful unreachable
    exact ⟨truthful, fun below holds => unreachable false (by simp) (reachable_of_model levelled below holds false)⟩

end Stratified

section Quiet

/-- A fact is asserted, or a proof of it is remembered. -/
def Memory.Has (facts : FactSet) (memory : Memory) (fact : Fact) : Prop :=
  fact ∈ facts ∨ (memory.proven.lookup fact).isSome

/-- A fact is remembered as one without a proof, if no circle was met so far. -/
def Memory.Lacks (memory : Memory) (fact : Fact) : Prop := memory.cyclesMet = 0 → fact ∈ memory.refuted

/-- What has no proof is neither asserted nor proven. -/
def Memory.Apart (facts : FactSet) (memory : Memory) : Prop :=
  ∀ fact ∈ memory.refuted, fact ∉ facts ∧ memory.proven.lookup fact = none

theorem Memory.Follows.has {openGoals : List Fact} {before after : Memory} (follows : before.Follows openGoals after)
    {fact : Fact} (has : before.Has facts fact) : after.Has facts fact :=
  has.imp_right (follows.proven fact)

theorem Memory.Follows.lacks {openGoals : List Fact} {before after : Memory} (follows : before.Follows openGoals after)
    {fact : Fact} (lacks : before.Lacks fact) : after.Lacks fact := by
  intro quiet
  have cycles := follows.cycles
  exact follows.refuted fact (lacks (by omega))

theorem lawful_of_quiet : Lawful facts rules pool (fun _ => Memory.Apart facts)
    (fun memory proof => proof.Within (memory.Has facts) memory.Lacks) fun _ memory fact => memory.Lacks fact where
  good_follows follows within := within.imp (fun _ => follows.has) fun _ => follows.lacks
  givenUp_follows follows lacks := follows.lacks lacks
  asserted known := .asserted (.inl known)
  opens _ apart := apart
  refuted _ member _ := member
  circle _ _ apart := ⟨apart, fun quiet => absurd quiet (Nat.succ_ne_zero _)⟩
  found := by
    intro depth openGoals goal before after rule place proof premises absent tried _ byRule
    obtain ⟨rfl, _, proven, absences⟩ := byRule
    have follows : after.Follows [] (conclude before.cyclesMet goal
        (some (.rule goal (rule.label place) premises absent)) after) := follows_conclude List.not_mem_nil _ _ _
    refine ⟨fun fact refuted => ?_, .rule ?_ (fun premise listed => ?_) fun fact among => ?_⟩
    · -- While a goal is open it is not refuted.
      have other : fact ≠ goal := by
        rintro rfl
        exact tried.unknown.unrefuted (tried.follows.open_refuted fact (by simp) refuted)
      obtain ⟨unasserted, unproven⟩ := tried.keeps fact refuted
      refine ⟨unasserted, ?_⟩
      rw [conclude, List.lookup_cons, beq_false_of_ne other]
      exact unproven
    · exact .inr (by simp [conclude])
    · exact (proven premise listed).2.imp (fun _ => follows.has) fun _ => follows.lacks
    · exact follows.lacks (absences fact among)
  failed := by
    intro depth openGoals goal before after tentative tried _
    rw [conclude]
    split
    · refine ⟨fun fact refuted => ?_, fun _ => List.mem_cons_self⟩
      rcases List.mem_cons.1 refuted with rfl | refuted
      · exact ⟨tried.unknown.unasserted, tried.unproven⟩
      · exact tried.keeps fact refuted
    · next circles =>
      have cycles := tried.follows.cycles
      exact ⟨tried.keeps, fun quiet => absurd quiet (by omega)⟩

end Quiet

/-- How often a search for a proof meets a goal whose own proof is open. -/
def circlesMet (goal : Fact) (facts : FactSet) (rules : List Rule) : Nat :=
  (proveGoal ⟨facts, rules⟩ (depthBound ⟨facts, rules⟩ goal) [] false goal ⟨[], [], none, 0⟩).2.cyclesMet

/-- What a proof is found for was searched for under safe rules, from an empty memory. -/
theorem proveGoal_of_prove {goal : Fact} {proof : Proof} (proved : prove goal.toAtom facts rules = .ok (some proof)) :
    (∀ rule ∈ rules, rule.Safe) ∧
      (proveGoal ⟨facts, rules⟩ (depthBound ⟨facts, rules⟩ goal) [] false goal ⟨[], [], none, 0⟩).1 = some proof := by
  obtain ⟨⟨⟩, valid, rest⟩ := Lists.bind_eq_ok proved
  refine ⟨Rule.validateAll_eq_ok_iff.1 valid, ?_⟩
  rw [Atom.ground?_toAtom] at rest
  dsimp only at rest
  split at rest
  · next found =>
    rw [found]
    exact congrArg _ (Option.some.inj (Except.ok.inj rest))
  · split at rest <;> cases rest

/-- A law of the search holds of the proof that is found. -/
theorem Lawful.of_prove {pool : List String} {invariant : List Fact → Memory → Prop} {good : Memory → Proof → Prop}
    {givenUp : List Fact → Memory → Fact → Prop} {goal : Fact} {proof : Proof}
    (lawful : Lawful facts rules pool invariant good givenUp) (covers : Rule.Covers pool facts rules)
    (overPool : goal.Over pool) (enough : (Rule.instances pool rules).length < depthBound ⟨facts, rules⟩ goal)
    (start : invariant [] ⟨[], [], none, 0⟩) (proved : prove goal.toAtom facts rules = .ok (some proof)) :
    let last := (proveGoal ⟨facts, rules⟩ (depthBound ⟨facts, rules⟩ goal) [] false goal ⟨[], [], none, 0⟩).2
    invariant [] last ∧ proof.goal = goal ∧ good last proof := by
  obtain ⟨⟨holds, _⟩, _, judged⟩ := lawful.proveGoal_reaches covers (.root overPool enough) (Memory.keeps_empty start)
  rw [(proveGoal_of_prove proved).2] at judged
  exact ⟨holds, judged⟩

/-- A proof rests on the absence of nothing that it proves, if the rules are stratified or the search for it
has met no circle. -/
theorem prove_absent_not_proven {goal : Fact} {proof : Proof}
    (proved : prove goal.toAtom facts rules = .ok (some proof))
    (regular : Rule.Stratified rules ∨ circlesMet goal facts rules = 0) :
    ∀ fact ∈ proof.absences, fact ∉ proof.goals := by
  have safe := (proveGoal_of_prove proved).1
  obtain ⟨pool, covers, overPool, enough⟩ := exists_pool facts rules goal
  intro fact absent proven
  rcases regular with stratified | quiet
  · obtain ⟨level, levelled⟩ := Rule.stratified_iff_exists_levelled.1 stratified
    obtain ⟨_, _, within⟩ :=
      (lawful_of_levelled levelled safe covers).of_prove covers overPool enough Memory.truthful_empty proved
    exact within.absences fact absent (within.goals fact proven)
  · obtain ⟨apart, _, within⟩ := lawful_of_quiet.of_prove covers overPool enough (fun _ member => by simp at member) proved
    obtain ⟨unasserted, unproven⟩ := apart fact (within.absences fact absent quiet)
    rcases within.goals fact proven with asserted | found
    · exact unasserted asserted
    · simp [unproven] at found

/-- Who can move to a position that is lost wins. -/
def winning : List Rule :=
  [⟨none, [.positive ⟨"move", [.var "x", .var "y"]⟩, .negative ⟨"wins", [.var "y"]⟩], ⟨"wins", [.var "x"]⟩⟩]

def moves : FactSet := .ofList [⟨"move", ["a", "b"]⟩, ⟨"move", ["b", "c"]⟩, ⟨"move", ["c", "d"]⟩]

theorem winning_absent_not_proven :
    circlesMet ⟨"wins", ["a"]⟩ moves winning = 0 ∧ ∃ proof,
      prove (Fact.toAtom ⟨"wins", ["a"]⟩) moves winning = .ok (some proof) ∧ proof.absences = [⟨"wins", ["b"]⟩] ∧
        ∀ fact ∈ proof.absences, fact ∉ proof.goals := by
  have quiet : circlesMet ⟨"wins", ["a"]⟩ moves winning = 0 := rfl
  obtain ⟨proof, proved, absent⟩ : ∃ proof, prove (Fact.toAtom ⟨"wins", ["a"]⟩) moves winning = .ok (some proof) ∧
      proof.absences = [⟨"wins", ["b"]⟩] := ⟨_, rfl, rfl⟩
  exact ⟨quiet, proof, proved, absent, prove_absent_not_proven proved (.inr quiet)⟩

/-- From its own absence a fact is proven: what is tested meets itself among the open goals and fails there. -/
theorem denial_proves_itself :
    ∃ proof, prove (Fact.toAtom ⟨"p", []⟩) (.ofList [⟨"t", []⟩])
        [⟨none, [.positive ⟨"t", []⟩, .negative ⟨"p", []⟩], ⟨"p", []⟩⟩] = .ok (some proof) ∧
      ⟨"p", []⟩ ∈ proof.absences ∧ ⟨"p", []⟩ ∈ proof.goals := by
  exact ⟨_, rfl, by decide, by decide⟩

end Backward

end Deliberation
