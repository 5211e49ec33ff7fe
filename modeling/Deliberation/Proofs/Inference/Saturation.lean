import Deliberation.Inference.Forward
import Deliberation.Proofs.Inference.Instances

/-!
Forward chaining closes the facts under the rules. A rule at rest has nothing to add, and a pass that
adds nothing puts every rule to rest; every other pass adds one of finitely many facts.
-/

namespace Deliberation

namespace OrdSet

theorem size_insert_of_not_mem {α : Type} [Ord α] [Std.TransOrd α] [Std.LawfulEqOrd α] {s : OrdSet α} {a : α}
    (fresh : a ∉ s) : (s.insert a).size = s.size + 1 := by
  have grown (l : List α) (fresh : a ∉ l) : (insertOrdered a l).length = l.length + 1 := by
    induction l with
    | nil => rfl
    | cons b rest ih =>
      rw [List.mem_cons, not_or] at fresh
      rw [insertOrdered]
      split
      · rfl
      · next same => exact absurd (Std.LawfulEqOrd.eq_of_compare same) fresh.1
      · rw [List.length_cons, ih fresh.2, List.length_cons]
  exact grown s.toList fresh

end OrdSet

namespace Inference

variable {rules : List Rule} {rule : Rule} {place pass : Nat} {state : Saturation} {bindings : Bindings}

/-- Facts and awake rules only become more, and every fact that is new wakes the rules that ask for its predicate. -/
structure Grows (rules : List Rule) (before after : Saturation) : Prop where
  facts : ∀ fact ∈ before.facts, fact ∈ after.facts
  awake : ∀ place ∈ before.awake, place ∈ after.awake
  woken : ∀ fact ∈ after.facts, fact ∉ before.facts → ∀ place ∈ Rule.triggeredBy rules fact.predicate,
    place ∈ after.awake

theorem Grows.refl (rules : List Rule) (state : Saturation) : Grows rules state state :=
  ⟨fun _ => id, fun _ => id, fun _ new old => absurd new old⟩

theorem Grows.trans {first second third : Saturation} (before : Grows rules first second)
    (after : Grows rules second third) : Grows rules first third := by
  refine ⟨fun fact known => after.facts fact (before.facts fact known),
    fun place awake => after.awake place (before.awake place awake), fun fact known fresh place triggered => ?_⟩
  by_cases middle : fact ∈ second.facts
  · exact after.awake place (before.woken fact middle fresh place triggered)
  · exact after.woken fact known middle place triggered

/-- What one firing does: nothing, or it adds the fact that the rule concludes, of whose negated literals none
is a fact. -/
theorem fire_cases (rules : List Rule) (rule : Rule) (place pass : Nat) (state : Saturation) (bindings : Bindings) :
    fire rules rule place pass state bindings = state ∧
        (∀ fact, rule.consequent.ground? bindings = some fact → fact ∈ state.facts ∨
          ∃ atom ∈ rule.negatives, ∃ present ∈ state.facts, atom.ground? bindings = some present) ∨
      ∃ fact, rule.consequent.ground? bindings = some fact ∧ fact ∉ state.facts ∧
        (∀ atom ∈ rule.negatives, ∀ absent, atom.ground? bindings = some absent → absent ∉ state.facts) ∧
        fire rules rule place pass state bindings =
          ⟨state.facts.insert fact,
            state.derived ++ [⟨fact, rule.label place, pass, rule.positives.filterMap (·.ground? bindings)⟩],
            state.awake.insertAll (Rule.triggeredBy rules fact.predicate)⟩ := by
  rw [fire]
  cases ground : rule.consequent.ground? bindings with
  | none => exact .inl ⟨rfl, by simp⟩
  | some fact =>
    dsimp only
    by_cases known : fact ∈ state.facts
    · rw [if_pos known]
      refine .inl ⟨rfl, fun other same => .inl ?_⟩
      rw [← Option.some.inj same]
      exact known
    · rw [if_neg known]
      by_cases present : (rule.negatives.filterMap (·.ground? bindings)).any (· ∈ state.facts) = true
      · rw [if_pos present]
        refine .inl ⟨rfl, fun _ _ => .inr ?_⟩
        obtain ⟨known, listed, among⟩ := List.any_eq_true.1 present
        obtain ⟨atom, member, becomes⟩ := List.mem_filterMap.1 listed
        exact ⟨atom, member, known, decide_eq_true_iff.1 among, becomes⟩
      · rw [if_neg present]
        refine .inr ⟨fact, rfl, known, fun atom member absent becomes among => present ?_, rfl⟩
        exact List.any_eq_true.2 ⟨absent, List.mem_filterMap.2 ⟨atom, member, becomes⟩, decide_eq_true_iff.2 among⟩

theorem fire_grows : Grows rules state (fire rules rule place pass state bindings) := by
  rcases fire_cases rules rule place pass state bindings with ⟨same, _⟩ | ⟨fact, _, _, _, added⟩
  · rw [same]
    exact .refl rules state
  · rw [added]
    refine ⟨fun other known => by simp [known], fun other awake => by simp [awake], ?_⟩
    intro other known fresh place triggered
    have same : other = fact := by simpa [fresh] using known
    simp [← same, triggered]

theorem foldl_fire_grows (frontier : List Bindings) :
    Grows rules state (frontier.foldl (fire rules rule place pass) state) := by
  induction frontier generalizing state with
  | nil => exact .refl rules state
  | cons bindings rest ih => exact fire_grows.trans ih

/-- After all firings each conclusion is a fact, or a negated literal has become one. -/
theorem foldl_fire_complete {frontier : List Bindings} (member : bindings ∈ frontier) {fact : Fact}
    (ground : rule.consequent.ground? bindings = some fact) :
    fact ∈ (frontier.foldl (fire rules rule place pass) state).facts ∨
      ∃ atom ∈ rule.negatives, ∃ present ∈ (frontier.foldl (fire rules rule place pass) state).facts,
        atom.ground? bindings = some present := by
  induction frontier generalizing state with
  | nil => simp at member
  | cons first rest ih =>
    rw [List.foldl_cons]
    rcases List.mem_cons.1 member with rfl | member
    · have later := @foldl_fire_grows rules rule place pass (fire rules rule place pass state bindings) rest
      rcases fire_cases rules rule place pass state bindings with ⟨same, told⟩ | ⟨other, own, _, _, added⟩
      · rw [same] at later ⊢
        rcases told fact ground with known | ⟨atom, among, present, known, becomes⟩
        · exact .inl (later.facts fact known)
        · exact .inr ⟨atom, among, present, later.facts present known, becomes⟩
      · refine .inl (later.facts fact ?_)
        rw [added, ← Option.some.inj (own.symm.trans ground)]
        simp
    · exact ih member

/-- A rule has nothing to add to facts. -/
def Closed (rule : Rule) (facts : FactSet) : Prop :=
  ∀ fact, rule.Concludes (· ∈ facts) (· ∉ facts) fact → fact ∈ facts

/-- The rules at rest have nothing to add. -/
def Resting (rules : List Rule) (state : Saturation) : Prop :=
  ∀ rule place, (rule, place) ∈ rules.zipIdx → place ∉ state.awake → Closed rule state.facts

/-- The premises of a rule that is not woken were facts before. -/
theorem Grows.premises {before after : Saturation} (grows : Grows rules before after)
    (listed : (rule, place) ∈ rules.zipIdx) (asleep : place ∉ after.awake)
    (holds : Atom.AllAre (· ∈ after.facts) rule.positives bindings) :
    Atom.AllAre (· ∈ before.facts) rule.positives bindings := by
  intro atom among
  obtain ⟨premise, known, becomes⟩ := holds atom among
  refine ⟨premise, ?_, becomes⟩
  by_contra fresh
  have triggered := Rule.mem_triggeredBy.2 ⟨rule, listed, atom, among, (Atom.predicate_of_ground? becomes).symm⟩
  exact asleep (grows.woken premise known fresh place triggered)

theorem Grows.closed {before after : Saturation} (grows : Grows rules before after)
    (listed : (rule, place) ∈ rules.zipIdx) (asleep : place ∉ after.awake) (closed : Closed rule before.facts) :
    Closed rule after.facts := by
  rintro fact ⟨bindings, ground, holds, fails⟩
  have absent := fails.imp fun other unknown known => unknown (grows.facts other known)
  exact grows.facts fact (closed fact ⟨bindings, ground, grows.premises listed asleep holds, absent⟩)

section Evaluation

/-- A safe rule that is evaluated, and not woken by what it adds, has nothing left to add. -/
theorem evaluate_closed (safe : rule.Safe) (listed : (rule, place) ∈ rules.zipIdx)
    (asleep : place ∉ (evaluate rules pass state rule place).awake) :
    Closed rule (evaluate rules pass state rule place).facts := by
  rintro fact ⟨whole, ground, holds, fails⟩
  have grows : Grows rules _ (evaluate rules pass state rule place) :=
    foldl_fire_grows (Literal.satisfyingBindings rule.antecedent state.facts)
  have absent := fails.imp fun other unknown known => unknown (grows.facts other known)
  obtain ⟨found, member, within, same⟩ :=
    safe.satisfyingBindings_complete (grows.premises listed asleep holds) absent ground
  rcases foldl_fire_complete member same with known | ⟨atom, among, present, known, becomes⟩
  · exact known
  · obtain ⟨other, unknown, own⟩ := fails atom among
    have clash := (Atom.ground?_of_extends within becomes).symm.trans own
    exact absurd (Option.some.inj clash ▸ known) unknown

theorem evaluate_resting (safe : rule.Safe) (listed : (rule, place) ∈ rules.zipIdx) (resting : Resting rules state) :
    Resting rules (evaluate rules pass state rule place) := by
  intro other there member asleep
  by_cases same : there = place
  · have own : other = rule := by
      rw [same] at member
      rw [List.mk_mem_zipIdx_iff_getElem?] at member listed
      exact Option.some.inj (member.symm.trans listed)
    rw [own]
    rw [same] at asleep
    exact evaluate_closed safe listed asleep
  · have grows : Grows rules _ (evaluate rules pass state rule place) :=
      foldl_fire_grows (Literal.satisfyingBindings rule.antecedent state.facts)
    have before : there ∉ state.awake := fun awake => asleep (grows.awake there (by simp [awake, same]))
    exact grows.closed member asleep (resting other there member before)

/-- A kind of facts that is closed under a rule keeps all facts when the rule is evaluated. -/
theorem evaluate_all {kind : Fact → Prop} (all : ∀ fact ∈ state.facts, kind fact)
    (closed : ∀ fact, rule.Concludes kind (· ∉ state.facts) fact → kind fact) :
    ∀ fact ∈ (evaluate rules pass state rule place).facts, kind fact := by
  have firings (frontier : List Bindings) (current : Saturation) (all : ∀ fact ∈ current.facts, kind fact)
      (concluding : ∀ bindings ∈ frontier, ∀ fact, rule.consequent.ground? bindings = some fact → kind fact) :
      ∀ fact ∈ (frontier.foldl (fire rules rule place pass) current).facts, kind fact := by
    induction frontier generalizing current with
    | nil => exact all
    | cons bindings rest ih =>
      refine ih _ ?_ fun other member => concluding other (by simp [member])
      rcases fire_cases rules rule place pass current bindings with ⟨same, _⟩ | ⟨fact, ground, _, _, added⟩
      · rw [same]
        exact all
      · rw [added]
        intro other member
        rcases OrdSet.mem_insert.1 member with rfl | member
        · exact concluding bindings (by simp) other ground
        · exact all other member
  refine firings _ _ all fun bindings member fact ground => closed fact ?_
  obtain ⟨holds, fails⟩ := Literal.satisfyingBindings_sound member
  exact ⟨bindings, ground, holds.imp all, fails⟩

/-- As many facts are added as there are derivations, and where there is no derivation nothing wakes. -/
theorem evaluate_counts :
    state.facts.size + (evaluate rules pass state rule place).derived.length =
        (evaluate rules pass state rule place).facts.size + state.derived.length ∧
      state.derived.length ≤ (evaluate rules pass state rule place).derived.length ∧
      ((evaluate rules pass state rule place).derived.length = state.derived.length →
        ∀ other ∈ (evaluate rules pass state rule place).awake, other ∈ state.awake ∧ other ≠ place) := by
  have firings (frontier : List Bindings) (current : Saturation) :
      current.facts.size + (frontier.foldl (fire rules rule place pass) current).derived.length =
          (frontier.foldl (fire rules rule place pass) current).facts.size + current.derived.length ∧
        current.derived.length ≤ (frontier.foldl (fire rules rule place pass) current).derived.length ∧
        ((frontier.foldl (fire rules rule place pass) current).derived.length = current.derived.length →
          (frontier.foldl (fire rules rule place pass) current).awake = current.awake) := by
    induction frontier generalizing current with
    | nil => simp
    | cons bindings rest ih =>
      obtain ⟨balance, more, quiet⟩ := ih (fire rules rule place pass current bindings)
      rw [List.foldl_cons]
      rcases fire_cases rules rule place pass current bindings with ⟨same, _⟩ | ⟨fact, _, fresh, _, added⟩
      · rw [same] at balance more quiet ⊢
        exact ⟨balance, more, quiet⟩
      · rw [added] at balance more ⊢
        simp only [List.length_append, List.length_singleton, OrdSet.size_insert_of_not_mem fresh] at balance more
        refine ⟨by omega, by omega, fun same => ?_⟩
        omega
  obtain ⟨balance, more, quiet⟩ := firings (Literal.satisfyingBindings rule.antecedent state.facts)
    { state with awake := state.awake.erase place }
  refine ⟨balance, more, fun same other awake => ?_⟩
  rw [evaluate, quiet same] at awake
  exact OrdSet.mem_erase.1 awake

end Evaluation

section Passes

/-- What every evaluation keeps, a pass keeps. -/
theorem runPass_keeps {motive : Saturation → Prop} (start : motive state)
    (step : ∀ current, motive current → ∀ rule place, (rule, place) ∈ rules.zipIdx →
      motive (evaluate rules pass current rule place)) : motive (runPass rules pass state) := by
  have entries : ∀ current, motive current → ∀ entry ∈ rules.zipIdx,
      motive (if entry.2 ∈ current.awake then evaluate rules pass current entry.1 entry.2 else current) := by
    intro current kept entry listed
    split
    · exact step current kept entry.1 entry.2 listed
    · exact kept
  exact List.foldlRecOn _ _ start entries

theorem runPass_resting (safe : ∀ rule ∈ rules, rule.Safe) (resting : Resting rules state) :
    Resting rules (runPass rules pass state) :=
  runPass_keeps resting fun _ kept rule _ listed =>
    evaluate_resting (safe rule (List.fst_mem_of_mem_zipIdx listed)) listed kept

theorem runPass_facts {fact : Fact} (known : fact ∈ state.facts) : fact ∈ (runPass rules pass state).facts := by
  apply runPass_keeps (motive := fun current : Saturation => fact ∈ current.facts) known
  intro current kept rule place _
  have grows : Grows rules _ (evaluate rules pass current rule place) :=
    foldl_fire_grows (Literal.satisfyingBindings rule.antecedent current.facts)
  exact grows.facts fact kept

theorem runPass_all {kind : Fact → Prop} (all : ∀ fact ∈ state.facts, kind fact)
    (closed : ∀ rule ∈ rules, ∀ fails fact, rule.Concludes kind fails fact → kind fact) :
    ∀ fact ∈ (runPass rules pass state).facts, kind fact := by
  apply runPass_keeps (motive := fun current : Saturation => ∀ fact ∈ current.facts, kind fact) all
  intro current kept rule place listed
  exact evaluate_all kept fun fact => closed rule (List.fst_mem_of_mem_zipIdx listed) _ fact

/-- A pass without a derivation puts every rule to rest. -/
theorem runPass_counts (rules : List Rule) (pass : Nat) (state : Saturation) :
    state.facts.size + (runPass rules pass state).derived.length =
        (runPass rules pass state).facts.size + state.derived.length ∧
      state.derived.length ≤ (runPass rules pass state).derived.length ∧
      (Settled state (runPass rules pass state) →
        ∀ rule place, (rule, place) ∈ rules.zipIdx → place ∉ (runPass rules pass state).awake) := by
  have entries (listed : List (Rule × Nat)) (current : Saturation) :
      let next := listed.foldl (fun state entry =>
        if entry.2 ∈ state.awake then evaluate rules pass state entry.1 entry.2 else state) current
      current.facts.size + next.derived.length = next.facts.size + current.derived.length ∧
        current.derived.length ≤ next.derived.length ∧
        (next.derived.length = current.derived.length → ∀ other ∈ next.awake, other ∈ current.awake ∧
          ∀ rule, (rule, other) ∉ listed) := by
    induction listed generalizing current with
    | nil => simp
    | cons entry rest ih =>
      obtain ⟨rule, place⟩ := entry
      simp only [List.foldl_cons]
      by_cases awake : place ∈ current.awake
      · rw [if_pos awake]
        obtain ⟨balance, more, quiet⟩ := ih (evaluate rules pass current rule place)
        obtain ⟨balance', more', quiet'⟩ := @evaluate_counts rules rule place pass current
        refine ⟨by omega, by omega, fun same other still => ?_⟩
        obtain ⟨middle, unlisted⟩ := quiet (by omega) other still
        obtain ⟨before, apart⟩ := quiet' (by omega) other middle
        refine ⟨before, fun listed member => ?_⟩
        rcases List.mem_cons.1 member with same | member
        · exact apart (congrArg Prod.snd same)
        · exact unlisted listed member
      · rw [if_neg awake]
        obtain ⟨balance, more, quiet⟩ := ih current
        refine ⟨balance, more, fun same other still => ?_⟩
        obtain ⟨before, unlisted⟩ := quiet same other still
        refine ⟨before, fun listed member => ?_⟩
        rcases List.mem_cons.1 member with same | member
        · rw [Prod.mk.injEq] at same
          exact awake (same.2 ▸ before)
        · exact unlisted listed member
  obtain ⟨balance, more, quiet⟩ := entries rules.zipIdx state
  exact ⟨balance, more, fun settled rule place listed awake => (quiet settled place awake).2 rule listed⟩

/-- A run of passes ends after one that adds nothing, or after one more than may add a fact. -/
theorem saturate_cases {keeps : Saturation → Prop} {bound remaining : Nat}
    (step : ∀ pass state, keeps state → keeps (runPass rules pass state)) (start : keeps state) :
    (∃ inference last final, saturate rules bound remaining pass state = .ok inference ∧ keeps last ∧
        Settled last (runPass rules final last) ∧ inference.facts = (runPass rules final last).facts) ∨
      ∃ last final, saturate rules bound remaining pass state = .error (.stalled final bound last.facts) ∧ keeps last ∧
        state.derived.length + remaining < last.derived.length := by
  have more := (runPass_counts rules pass state).2.1
  induction remaining generalizing pass state with
  | zero =>
    rw [saturate]
    by_cases settled : Settled state (runPass rules pass state)
    · rw [if_pos settled]
      exact .inl ⟨_, state, pass, rfl, start, settled, rfl⟩
    · rw [if_neg settled]
      rw [Settled] at settled
      exact .inr ⟨_, pass, rfl, step pass state start, by omega⟩
  | succ remaining ih =>
    rw [saturate]
    by_cases settled : Settled state (runPass rules pass state)
    · rw [if_pos settled]
      exact .inl ⟨_, state, pass, rfl, start, settled, rfl⟩
    · rw [if_neg settled]
      rw [Settled] at settled
      rcases ih (step pass state start) (runPass_counts rules (pass + 1) (runPass rules pass state)).2.1 with
        finished | ⟨last, final, stalled, kept, grown⟩
      · exact .inl finished
      · exact .inr ⟨last, final, stalled, kept, by omega⟩

end Passes

section Chaining

variable {facts : FactSet}

/-- What holds of every state of a run from given facts. -/
structure Chained (facts : FactSet) (rules : List Rule) (state : Saturation) : Prop where
  given : ∀ fact ∈ facts, fact ∈ state.facts
  resting : Resting rules state
  least : ∀ kind : Fact → Prop, (∀ fact ∈ facts, kind fact) →
    (∀ rule ∈ rules, ∀ fails fact, rule.Concludes kind fails fact → kind fact) → ∀ fact ∈ state.facts, kind fact
  counted : facts.size + state.derived.length = state.facts.size

theorem chained_start (facts : FactSet) (rules : List Rule) :
    Chained facts rules ⟨facts, [], .ofList (List.range rules.length)⟩ := by
  refine ⟨fun _ => id, fun rule place listed asleep => ?_, fun _ all _ => all, rfl⟩
  refine absurd ?_ asleep
  rw [OrdSet.mem_ofList, List.mem_range]
  exact (List.getElem?_eq_some_iff.1 (List.mk_mem_zipIdx_iff_getElem?.1 listed)).1

theorem Chained.runPass (safe : ∀ rule ∈ rules, rule.Safe) (chained : Chained facts rules state) :
    Chained facts rules (runPass rules pass state) := by
  refine ⟨fun fact given => ?_, runPass_resting safe chained.resting, fun kind all closed => ?_, ?_⟩
  · exact runPass_facts (chained.given fact given)
  · exact runPass_all (chained.least kind all closed) closed
  · have counts := (runPass_counts rules pass state).1
    have before := chained.counted
    omega

/-- The facts of a run stay among those given and the instances of the consequents. -/
theorem Chained.size_le (safe : ∀ rule ∈ rules, rule.Safe) (chained : Chained facts rules state) :
    state.facts.size ≤ possibleFacts facts rules := by
  -- An empty vocabulary counts as one constant.
  obtain ⟨pool, covers, size⟩ : ∃ pool : List String, Rule.Covers pool facts rules ∧
      pool.length = max 1 (Rule.vocabulary facts rules).size := by
    by_cases empty : (Rule.vocabulary facts rules).toList = []
    · refine ⟨[""], fun constant member => ?_, by simp [OrdSet.size, empty]⟩
      rw [← OrdSet.mem_toList, empty] at member
      simp at member
    · refine ⟨(Rule.vocabulary facts rules).toList, fun _ member => member, ?_⟩
      have some := List.length_pos_iff.2 empty
      rw [OrdSet.size]
      omega
  have known := chained.least (fun fact => fact.Over pool ∧ fact ∈ facts.toList ++ Rule.instances pool rules)
    (fun fact given => ⟨covers.fact given, List.mem_append_left _ given⟩) fun rule member fails fact concludes => by
      have overPool := covers.conclusion member (safe rule member) (concludes.imp (fun _ => And.left) fun _ => id)
      obtain ⟨_, ground, _⟩ := concludes
      exact ⟨overPool, List.mem_append_right _ (Rule.mem_instances member ground overPool)⟩
  have few := (List.subperm_of_subset state.facts.nodup_toList fun fact member => (known fact member).2).length_le
  have bound := Rule.length_instances_le pool rules facts.size
  rw [List.length_append] at few
  rw [possibleFacts, ← size]
  exact few.trans bound

/-- With safe rules forward chaining is a run of passes that starts with every rule awake. -/
theorem forwardChain_eq_saturate (safe : ∀ rule ∈ rules, rule.Safe) (maxPasses : Option Nat) :
    let bound := (maxPasses.map (min · (passBound facts rules))).getD (passBound facts rules)
    forwardChain facts rules maxPasses =
      saturate rules bound bound 1 ⟨facts, [], .ofList (List.range rules.length)⟩ := by
  rw [forwardChain, Rule.validateAll_eq_ok_iff.2 safe]
  rfl

/-- After a pass without a derivation no rule has anything to add. -/
theorem Chained.closed (safe : ∀ rule ∈ rules, rule.Safe) (chained : Chained facts rules state)
    (settled : Settled state (Inference.runPass rules pass state)) :
    ∀ rule ∈ rules, Closed rule (Inference.runPass rules pass state).facts := by
  intro rule member
  obtain ⟨place, listed⟩ := List.mem_iff_getElem?.1 member
  have entry := List.mk_mem_zipIdx_iff_getElem?.2 listed
  have asleep := (runPass_counts rules pass state).2.2 settled rule place entry
  exact (chained.runPass safe).resting rule place entry asleep

theorem possibleFacts_le (facts : FactSet) (rules : List Rule) :
    possibleFacts facts rules ≤ max 1 rules.length * max 1 (possibleFacts facts rules) :=
  (le_max_right 1 _).trans (Nat.le_mul_of_pos_left _ (by omega))

/-- Forward chaining ends with facts that are closed under safe rules, and with no more than these need; it
can only fail by reaching more facts than passes can be counted. -/
theorem forwardChain_cases (safe : ∀ rule ∈ rules, rule.Safe) :
    (∃ inference last, forwardChain facts rules none = .ok inference ∧ Chained facts rules last ∧
        inference.facts = last.facts ∧ ∀ rule ∈ rules, Closed rule last.facts) ∨
      ∃ passes reached, forwardChain facts rules none = .error (.stalled passes greatestBound reached) ∧
        greatestBound < reached.size := by
  have run : forwardChain facts rules none = saturate rules (passBound facts rules) (passBound facts rules) 1
      ⟨facts, [], .ofList (List.range rules.length)⟩ := forwardChain_eq_saturate safe none
  rw [run]
  rcases saturate_cases (fun _ _ chained => chained.runPass safe) (chained_start facts rules) with
    ⟨inference, last, final, finished, chained, settled, same⟩ | ⟨last, final, stalled, chained, grown⟩
  · exact .inl ⟨inference, _, finished, chained.runPass safe, same, chained.closed safe settled⟩
  · have most := chained.size_le safe
    have counted := chained.counted
    have room := possibleFacts_le facts rules
    rw [List.length_nil, Nat.zero_add, passBound] at grown
    have full : passBound facts rules = greatestBound := by
      rw [passBound]
      omega
    rw [full] at stalled ⊢
    exact .inr ⟨final, last.facts, stalled, by omega⟩

end Chaining

end Inference

end Deliberation
