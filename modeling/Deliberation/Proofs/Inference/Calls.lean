import Deliberation.Proofs.Inference.Proving

/-!
The calls of the search for a proof. Each asks for a fact that a rule needs for the goal opened last,
and each leaves the memory of the open goals as it is. What the answers of single calls amount to is
shown once for all: `Lawful` lists what has to hold of one goal, and then it holds of the whole search.
-/

namespace Deliberation

namespace Rule

/-- Under some bindings the rule concludes the goal, and one of its literals is about the fact. -/
def AsksFor (rule : Rule) (goal fact : Fact) : Prop :=
  ∃ bindings, rule.consequent.ground? bindings = some goal ∧
    ∃ atom ∈ rule.positives ++ rule.negatives, atom.ground? bindings = some fact

/-- Under some bindings the rule concludes the goal, and its positive and its negated literals are about the
given facts, in order. -/
def Applies (rule : Rule) (goal : Fact) (premises absent : List Fact) : Prop :=
  ∃ bindings, rule.consequent.ground? bindings = some goal ∧
    rule.positives.map (·.ground? bindings) = premises.map some ∧
    rule.negatives.map (·.ground? bindings) = absent.map some

/-- Under some rule a fact is asked for to prove the goal. -/
def Asked (rules : List Rule) (fact goal : Fact) : Prop := ∃ rule ∈ rules, rule.AsksFor goal fact

end Rule

namespace Backward

/-- What is remembered only becomes more, and nothing is added about open goals. -/
structure Memory.Follows (openGoals : List Fact) (before after : Memory) : Prop where
  proven : ∀ goal, (before.proven.lookup goal).isSome → (after.proven.lookup goal).isSome
  refuted : ∀ goal ∈ before.refuted, goal ∈ after.refuted
  cycles : before.cyclesMet ≤ after.cyclesMet
  open_proven : ∀ goal ∈ openGoals, after.proven.lookup goal = before.proven.lookup goal
  open_refuted : ∀ goal ∈ openGoals, goal ∈ after.refuted → goal ∈ before.refuted

theorem Memory.Follows.refl (openGoals : List Fact) (memory : Memory) : memory.Follows openGoals memory :=
  ⟨fun _ => id, fun _ => id, le_rfl, fun _ _ => rfl, fun _ _ => id⟩

theorem Memory.Follows.trans {openGoals : List Fact} {first second third : Memory}
    (before : first.Follows openGoals second) (after : second.Follows openGoals third) :
    first.Follows openGoals third where
  proven goal known := after.proven goal (before.proven goal known)
  refuted goal member := after.refuted goal (before.refuted goal member)
  cycles := before.cycles.trans after.cycles
  open_proven goal opened := (after.open_proven goal opened).trans (before.open_proven goal opened)
  open_refuted goal opened member := before.open_refuted goal opened (after.open_refuted goal opened member)

/-- From one memory a search keeps an invariant, follows on, and answers as described. -/
structure Reaches {α : Type} (invariant : Memory → Prop) (openGoals : List Fact) (memory : Memory) (search : Search α)
    (answers : Memory → α → Prop) : Prop where
  keeps : invariant (search memory).2
  follows : memory.Follows openGoals (search memory).2
  answered : answers (search memory).2 (search memory).1

/-- What is found, if anything is, is good. -/
def IfFound {α : Type} (good : Memory → α → Prop) (memory : Memory) (answer : Option α) : Prop :=
  ∀ found, answer = some found → good memory found

section Searches

variable {α β : Type} {invariant : Memory → Prop} {openGoals : List Fact} {memory : Memory}

theorem reaches_pure {answers : Memory → α → Prop} {a : α} (holds : invariant memory) (answered : answers memory a) :
    Reaches invariant openGoals memory (pure a) answers :=
  ⟨holds, .refl openGoals memory, answered⟩

theorem Reaches.of_run {search : Search α} {answers : Memory → α → Prop} {a : α} {after : Memory}
    (run : search memory = (a, after)) (keeps : invariant after) (follows : memory.Follows openGoals after)
    (answered : answers after a) : Reaches invariant openGoals memory search answers := by
  constructor <;> rwa [run]

theorem Reaches.bind {first : Search α} {next : α → Search β} {middle : Memory → α → Prop} {answers : Memory → β → Prop}
    (reaches : Reaches invariant openGoals memory first middle)
    (later : ∀ after a, invariant after → memory.Follows openGoals after → middle after a →
      Reaches invariant openGoals after (next a) answers) :
    Reaches invariant openGoals memory (first >>= next) answers := by
  obtain ⟨keeps, follows, answered⟩ := later _ _ reaches.keeps reaches.follows reaches.answered
  exact ⟨keeps, reaches.follows.trans follows, answered⟩

theorem Reaches.imp {search : Search α} {answers answers' : Memory → α → Prop}
    (reaches : Reaches invariant openGoals memory search answers)
    (implied : ∀ after a, answers after a → answers' after a) : Reaches invariant openGoals memory search answers' :=
  ⟨reaches.keeps, reaches.follows, implied _ _ reaches.answered⟩

theorem Reaches.map {search : Search α} {change : α → β} {middle : Memory → α → Prop} {answers : Memory → β → Prop}
    (reaches : Reaches invariant openGoals memory search middle)
    (implied : ∀ after a, middle after a → answers after (change a)) :
    Reaches invariant openGoals memory (search >>= fun a => pure (change a)) answers :=
  reaches.bind fun after a keeps _ answered => reaches_pure keeps (implied after a answered)

theorem ifFound_none {good : Memory → α → Prop} : IfFound good memory none := fun _ same => by cases same

theorem firstSuccess_reaches {attempt : α → Search (Option β)} {good : Memory → β → Prop} {candidates : List α}
    (each : ∀ a ∈ candidates, ∀ memory, invariant memory →
      Reaches invariant openGoals memory (attempt a) (IfFound good)) (holds : invariant memory) :
    Reaches invariant openGoals memory (firstSuccess attempt candidates) (IfFound good) := by
  induction candidates generalizing memory with
  | nil => exact reaches_pure holds ifFound_none
  | cons candidate rest ih =>
    rw [firstSuccess]
    refine (each candidate (by simp) memory holds).bind fun after answer keeps _ answered => ?_
    cases answer with
    | some found => exact reaches_pure keeps answered
    | none => exact ih (fun a member => each a (by simp [member])) keeps

end Searches

section Bodies

variable {known : Knowledge} {invariant : Memory → Prop} {openGoals : List Fact} {pool : List String} {memory : Memory}
  {answered : Memory → Fact → Option Proof → Prop} {proveGoal : Bool → Fact → Search (Option Proof)} {tentative : Bool}

/-- A prover answers for one fact, whatever is remembered. -/
def AnswersFor (invariant : Memory → Prop) (openGoals : List Fact) (answered : Memory → Fact → Option Proof → Prop)
    (proveGoal : Bool → Fact → Search (Option Proof)) (fact : Fact) : Prop :=
  ∀ tentative memory, invariant memory →
    Reaches invariant openGoals memory (proveGoal tentative fact) fun after answer => answered after fact answer

/-- What is said of answers is about the fact that was asked for, and stays true. -/
structure Lasting (openGoals : List Fact) (answered : Memory → Fact → Option Proof → Prop) : Prop where
  goal_eq : ∀ memory fact proof, answered memory fact (some proof) → proof.goal = fact
  follows : ∀ before after, before.Follows openGoals after → ∀ fact answer, answered before fact answer →
    answered after fact answer

/-- What is found for the literals of a body: proofs of the positive ones and facts that are absent for the
negated ones. -/
structure Finds (answered : Memory → Fact → Option Proof → Prop) (positives negatives : List Atom) (bindings : Bindings)
    (memory : Memory) (premises : List Proof) (absent : List Fact) : Prop where
  positives : positives.map (·.ground? bindings) = (premises.map Proof.goal).map some
  negatives : negatives.map (·.ground? bindings) = absent.map some
  proven : ∀ premise ∈ premises, answered memory premise.goal (some premise)
  absent : ∀ fact ∈ absent, answered memory fact none

theorem proveAbsent_reaches {bindings : Bindings} {atoms : List Atom} (lasting : Lasting openGoals answered)
    (calls : ∀ atom ∈ atoms, ∀ fact, atom.ground? bindings = some fact →
      AnswersFor invariant openGoals answered proveGoal fact) (holds : invariant memory) :
    Reaches invariant openGoals memory (proveAbsent (proveGoal tentative) bindings atoms)
      (IfFound fun after absent => Finds answered [] atoms bindings after [] absent) := by
  induction atoms generalizing memory with
  | nil => exact reaches_pure holds (by rintro _ ⟨⟩; constructor <;> simp)
  | cons atom rest ih =>
    rw [proveAbsent]
    cases ground : atom.ground? bindings with
    | none => exact reaches_pure holds ifFound_none
    | some fact =>
      refine (calls atom (by simp) fact ground tentative memory holds).bind fun after answer keeps _ here => ?_
      cases answer with
      | some proof => exact reaches_pure keeps ifFound_none
      | none =>
        refine (ih (fun other member => calls other (by simp [member])) keeps).bind
          fun last answer keeps follows later => reaches_pure keeps ?_
        intro absent same
        obtain ⟨found, rfl, rfl⟩ := Option.map_eq_some_iff.1 same
        obtain ⟨_, negatives, _, others⟩ := later found rfl
        refine ⟨rfl, by simp [ground, negatives], by simp, fun other member => ?_⟩
        rcases List.mem_cons.1 member with rfl | member
        · exact lasting.follows _ _ follows other none here
        · exact others other member

/-- A prover answers for every fact over the pool that a literal of a body may become. -/
def AnswersBody (invariant : Memory → Prop) (openGoals : List Fact) (pool : List String)
    (answered : Memory → Fact → Option Proof → Prop) (proveGoal : Bool → Fact → Search (Option Proof))
    (atoms : List Atom) (bindings : Bindings) : Prop :=
  ∀ extended, extended.Extends bindings → ∀ atom ∈ atoms, ∀ fact, atom.ground? extended = some fact → fact.Over pool →
    AnswersFor invariant openGoals answered proveGoal fact

/-- What a body finds belongs to bindings that extend given ones. -/
def FindsBelow (answered : Memory → Fact → Option Proof → Prop) (positives negatives : List Atom) (bindings : Bindings)
    (memory : Memory) (found : List Proof × List Fact) : Prop :=
  ∃ whole, whole.Extends bindings ∧ Finds answered positives negatives whole memory found.1 found.2

theorem FindsBelow.of_extends {positives negatives : List Atom} {larger smaller : Bindings}
    {found : List Proof × List Fact} (extended : larger.Extends smaller)
    (below : FindsBelow answered positives negatives larger memory found) :
    FindsBelow answered positives negatives smaller memory found := by
  obtain ⟨whole, above, finds⟩ := below
  exact ⟨whole, above.trans extended, finds⟩

/-- The proof of the first literal goes before those of the others. -/
theorem FindsBelow.cons {atom : Atom} {rest negatives : List Atom} {bindings : Bindings} {before : Memory} {fact : Fact}
    {proof : Proof} {premises : List Proof} {absent : List Fact} (lasting : Lasting openGoals answered)
    (ground : atom.ground? bindings = some fact) (here : answered before fact (some proof))
    (follows : before.Follows openGoals memory)
    (later : FindsBelow answered rest negatives bindings memory (premises, absent)) :
    FindsBelow answered (atom :: rest) negatives bindings memory (proof :: premises, absent) := by
  obtain ⟨whole, above, positives, negatives, proven, absences⟩ := later
  have goal : proof.goal = fact := lasting.goal_eq before fact proof here
  refine ⟨whole, above, ?_, negatives, ?_, absences⟩
  · simp [positives, Atom.ground?_of_extends above ground, goal]
  · intro premise member
    rcases List.mem_cons.1 member with rfl | member
    · exact lasting.follows before memory follows _ _ (goal ▸ here)
    · exact proven premise member

theorem proveBody_reaches {positives negatives : List Atom} {bindings : Bindings}
    (covers : Rule.Covers pool known.facts known.rules) (lasting : Lasting openGoals answered)
    (overPool : bindings.Over pool) (constants : ∀ atom ∈ positives ++ negatives, atom.Over pool)
    (calls : AnswersBody invariant openGoals pool answered proveGoal (positives ++ negatives) bindings)
    (holds : invariant memory) :
    Reaches invariant openGoals memory (proveBody known proveGoal tentative negatives positives bindings)
      (IfFound (FindsBelow answered positives negatives bindings)) := by
  induction positives generalizing bindings memory with
  | nil =>
    rw [proveBody]
    refine (proveAbsent_reaches lasting (fun atom member fact ground => ?_) holds).map fun after answer told _ same => ?_
    · exact calls bindings (.refl _) atom member fact ground
        (Atom.fact_over ground (constants atom member) fun name _ => overPool name)
    · obtain ⟨facts, rfl, rfl⟩ := Option.map_eq_some_iff.1 same
      exact ⟨bindings, .refl _, told facts rfl⟩
  | cons atom rest ih =>
    let pattern := atom.substitute bindings
    have under (extended : Bindings) (guess : Bool) (larger : extended.Extends bindings) (within : extended.Over pool)
        (memory : Memory) (holds : invariant memory) :
        Reaches invariant openGoals memory (proveUnder known proveGoal tentative negatives pattern rest extended guess)
          (IfFound (FindsBelow answered (atom :: rest) negatives bindings)) := by
      rw [proveUnder]
      cases ground : pattern.ground? extended with
      | none => exact reaches_pure holds ifFound_none
      | some fact =>
        have own : atom.ground? extended = some fact := by rw [← Atom.ground?_substitute larger, ground]
        have members : fact.Over pool := Atom.fact_over own (constants atom (by simp)) fun name _ => within name
        refine (calls extended larger atom (by simp) fact own members (tentative || guess) memory holds).bind
          fun after answer keeps _ here => ?_
        cases answer with
        | none => exact reaches_pure keeps ifFound_none
        | some proof =>
          have later := ih within (fun other member => constants other (List.mem_cons_of_mem _ member))
            (fun more above other member => calls more (above.trans larger) other (List.mem_cons_of_mem _ member)) keeps
          refine later.bind fun last answer keeps follows found => reaches_pure keeps fun _ same => ?_
          obtain ⟨⟨premises, absent⟩, rfl, rfl⟩ := Option.map_eq_some_iff.1 same
          exact (FindsBelow.cons lasting own here follows (found _ rfl)).of_extends larger
    rw [proveBody_cons]
    cases now : pattern.ground? bindings with
    | some fact => exact under bindings false (.refl _) overPool memory holds
    | none =>
      refine firstSuccess_reaches (fun candidate member memory holds => ?_) holds
      obtain ⟨larger, within⟩ := candidates_sound covers overPool member
      exact under candidate.1 candidate.2 larger within memory holds

/-- A proof by a rule: its literals are about the goals of the premises and what is absent, for which all
there are answers. -/
structure ByRule (answered : Memory → Fact → Option Proof → Prop) (rule : Rule) (place : Nat) (goal : Fact)
    (memory : Memory) (proof : Proof) (premises : List Proof) (absent : List Fact) : Prop where
  proof_eq : proof = .rule goal (rule.label place) premises absent
  applies : rule.Applies goal (premises.map Proof.goal) absent
  proven : ∀ premise ∈ premises, answered memory premise.goal (some premise)
  absent : ∀ fact ∈ absent, answered memory fact none

theorem proveByRule_reaches {rule : Rule} {place : Nat} {goal : Fact} (covers : Rule.Covers pool known.facts known.rules)
    (member : rule ∈ known.rules) (overPool : goal.Over pool) (lasting : Lasting openGoals answered)
    (calls : ∀ fact, rule.AsksFor goal fact → fact.Over pool → AnswersFor invariant openGoals answered proveGoal fact)
    (holds : invariant memory) :
    Reaches invariant openGoals memory (proveByRule known proveGoal tentative goal (rule, place))
      (IfFound fun after proof => ∃ premises absent, ByRule answered rule place goal after proof premises absent) := by
  rw [proveByRule]
  cases matched : rule.consequent.match? goal .empty with
  | none => exact reaches_pure holds ifFound_none
  | some bindings =>
    have ground := (Atom.match?_sound matched).2
    have within := Atom.match?_over matched (NameMap.over_empty pool) overPool
    have constants : ∀ atom ∈ rule.positives ++ rule.negatives, atom.Over pool := fun atom among =>
      covers.literal member (List.mem_append.1 among)
    refine (proveBody_reaches covers lasting within constants ?_ holds).map fun after answer told proof same => ?_
    · intro extended larger atom among fact becomes members
      exact calls fact ⟨extended, Atom.ground?_of_extends larger ground, atom, among, becomes⟩ members
    · obtain ⟨⟨premises, absent⟩, rfl, rfl⟩ := Option.map_eq_some_iff.1 same
      obtain ⟨whole, larger, positives, negatives, proven, absences⟩ := told _ rfl
      exact ⟨premises, absent, rfl, ⟨whole, Atom.ground?_of_extends larger ground, positives, negatives⟩, proven, absences⟩

end Bodies

section Goals

variable {facts : FactSet} {rules : List Rule} {pool : List String} {invariant : List Fact → Memory → Prop}
  {good : Memory → Proof → Prop} {givenUp : List Fact → Memory → Fact → Prop} {depth : Nat} {openGoals : List Fact}
  {goal : Fact}

/-- A proof is about the fact asked for and good; without one the fact is given up. -/
def Judged (good : Memory → Proof → Prop) (givenUp : Memory → Fact → Prop) (memory : Memory) (fact : Fact) :
    Option Proof → Prop
  | some proof => proof.goal = fact ∧ good memory proof
  | none => givenUp memory fact

/-- The proofs that are remembered are good. -/
def Memory.Stores (good : Memory → Proof → Prop) (memory : Memory) : Prop :=
  ∀ goal proof, memory.proven.lookup goal = some proof → proof.goal = goal ∧ good memory proof

theorem Memory.Follows.of_cons {before after : Memory} (follows : before.Follows (goal :: openGoals) after) :
    before.Follows openGoals after where
  proven := follows.proven
  refuted := follows.refuted
  cycles := follows.cycles
  open_proven other opened := follows.open_proven other (List.mem_cons_of_mem _ opened)
  open_refuted other opened := follows.open_refuted other (List.mem_cons_of_mem _ opened)

theorem follows_meetCycle (openGoals : List Fact) (tentative : Bool) (goal : Fact) (memory : Memory) :
    memory.Follows openGoals (meetCycle openGoals tentative goal memory) :=
  ⟨fun _ => id, fun _ => id, Nat.le_succ _, fun _ _ => rfl, fun _ _ => id⟩

theorem Memory.Follows.closed {before after : Memory} (follows : before.Follows openGoals after) :
    before.Follows [] after :=
  ⟨follows.proven, follows.refuted, follows.cycles, by simp, by simp⟩

/-- To conclude a goal tells nothing about those that are open. -/
theorem follows_conclude (closed : goal ∉ openGoals) (cyclesBefore : Nat) (found : Option Proof) (memory : Memory) :
    memory.Follows openGoals (conclude cyclesBefore goal found memory) := by
  have apart (other : Fact) (opened : other ∈ openGoals) : other ≠ goal := fun same => closed (same ▸ opened)
  cases found with
  | some proof =>
    refine ⟨fun other known => ?_, fun _ => id, le_rfl, fun other opened => ?_, fun _ _ => id⟩
    · rw [conclude, List.lookup_cons]
      split
      · rfl
      · exact known
    · rw [conclude, List.lookup_cons, beq_false_of_ne (apart other opened)]
  | none =>
    rw [conclude]
    split
    · refine ⟨fun _ => id, fun _ => List.mem_cons_of_mem _, le_rfl, fun _ _ => rfl, fun other opened member => ?_⟩
      exact (List.mem_cons.1 member).resolve_left (apart other opened)
    · exact .refl openGoals memory

theorem proven_conclude_none (cyclesBefore : Nat) (goal : Fact) (memory : Memory) :
    (conclude cyclesBefore goal none memory).proven = memory.proven := by
  rw [conclude]
  split <;> rfl

/-- How a goal comes up: the open goals differ from one another, each was asked for by a rule for the one
before, and there are fewer instances than may still be opened. -/
structure Call (rules : List Rule) (pool : List String) (depth : Nat) (openGoals : List Fact) (goal : Fact) : Prop where
  distinct : openGoals.Nodup
  instances : ∀ other ∈ openGoals, other ∈ Rule.instances pool rules
  enough : (Rule.instances pool rules).length < depth + openGoals.length
  linked : (goal :: openGoals).IsChain (Rule.Asked rules)
  overPool : goal.Over pool

theorem Call.root (overPool : goal.Over pool) (enough : (Rule.instances pool rules).length < depth) :
    Call rules pool depth [] goal :=
  ⟨.nil, by simp, by simpa using enough, .singleton _, overPool⟩

/-- Open goals that differ from one another do not use the depth up. -/
theorem Call.depth_pos (call : Call rules pool depth openGoals goal) : depth ≠ 0 := by
  have few := (List.subperm_of_subset call.distinct call.instances).length_le
  have enough := call.enough
  omega

theorem Call.child (call : Call rules pool (depth + 1) openGoals goal) (closed : goal ∉ openGoals) {rule : Rule}
    (member : rule ∈ rules) {fact : Fact} (asks : rule.AsksFor goal fact) (within : fact.Over pool) :
    Call rules pool depth (goal :: openGoals) fact where
  distinct := List.nodup_cons.2 ⟨closed, call.distinct⟩
  instances := by
    obtain ⟨bindings, ground, _⟩ := asks
    exact List.forall_mem_cons.2 ⟨Rule.mem_instances member ground call.overPool, call.instances⟩
  enough := by
    have enough := call.enough
    rw [List.length_cons]
    omega
  linked := List.isChain_cons_cons.2 ⟨⟨rule, member, asks⟩, call.linked⟩
  overPool := within

/-- A goal that is neither asserted nor remembered nor open has to be searched for. -/
structure Memory.Unknown (facts : FactSet) (openGoals : List Fact) (goal : Fact) (memory : Memory) : Prop where
  unasserted : goal ∉ facts
  unproven : memory.proven.lookup goal = none
  unrefuted : goal ∉ memory.refuted
  closed : goal ∉ openGoals

/-- The memories before and after the rules have been tried for a goal. -/
structure Tried (facts : FactSet) (rules : List Rule) (pool : List String) (invariant : List Fact → Memory → Prop)
    (depth : Nat) (openGoals : List Fact) (goal : Fact) (before after : Memory) : Prop where
  call : Call rules pool (depth + 1) openGoals goal
  unknown : before.Unknown facts openGoals goal
  began : invariant openGoals before
  keeps : invariant (goal :: openGoals) after
  follows : before.Follows (goal :: openGoals) after

/-- While rules are tried for a goal, no proof of it comes to be remembered. -/
theorem Tried.unproven {before after : Memory} (tried : Tried facts rules pool invariant depth openGoals goal before after) :
    after.proven.lookup goal = none := by
  rw [tried.follows.open_proven goal List.mem_cons_self, tried.unknown.unproven]

/-- What has to hold of the steps of a search so that an invariant of the open goals and the memory and the
judgement of answers hold throughout. -/
structure Lawful (facts : FactSet) (rules : List Rule) (pool : List String) (invariant : List Fact → Memory → Prop)
    (good : Memory → Proof → Prop) (givenUp : List Fact → Memory → Fact → Prop) : Prop where
  good_follows : ∀ {before after proof}, before.Follows [] after → good before proof → good after proof
  givenUp_follows : ∀ {before after openGoals fact}, before.Follows [] after → givenUp openGoals before fact →
    givenUp openGoals after fact
  asserted : ∀ {goal memory}, goal ∈ facts → good memory (.asserted goal)
  opens : ∀ {openGoals goal memory}, memory.Unknown facts openGoals goal → invariant openGoals memory →
    invariant (goal :: openGoals) memory
  refuted : ∀ {openGoals goal memory}, invariant openGoals memory → goal ∈ memory.refuted → givenUp openGoals memory goal
  circle : ∀ {depth openGoals goal memory tentative}, Call rules pool depth openGoals goal → goal ∈ openGoals →
    invariant openGoals memory → invariant openGoals (meetCycle openGoals tentative goal memory) ∧
      givenUp openGoals (meetCycle openGoals tentative goal memory) goal
  found : ∀ {depth openGoals goal before after rule place proof premises absent},
    Tried facts rules pool invariant depth openGoals goal before after → (rule, place) ∈ rules.zipIdx →
    ByRule (Judged good (givenUp (goal :: openGoals))) rule place goal after proof premises absent →
    invariant openGoals (conclude before.cyclesMet goal (some proof) after) ∧
      good (conclude before.cyclesMet goal (some proof) after) proof
  failed : ∀ {depth openGoals goal before after tentative},
    Tried facts rules pool invariant depth openGoals goal before after →
    proveGoal ⟨facts, rules⟩ (depth + 1) openGoals tentative goal before =
      (none, conclude before.cyclesMet goal none after) →
    invariant openGoals (conclude before.cyclesMet goal none after) ∧
      givenUp openGoals (conclude before.cyclesMet goal none after) goal

/-- The invariant holds, and what is remembered is good. -/
def Memory.Keeps (invariant : Memory → Prop) (good : Memory → Proof → Prop) (memory : Memory) : Prop :=
  invariant memory ∧ memory.Stores good

/-- At the start nothing is remembered. -/
theorem Memory.keeps_empty {invariant : Memory → Prop} (start : invariant ⟨[], [], none, 0⟩) :
    Memory.Keeps invariant good ⟨[], [], none, 0⟩ :=
  ⟨start, fun _ _ stored => by simp at stored⟩

theorem Lawful.lasting (lawful : Lawful facts rules pool invariant good givenUp) (openGoals : List Fact) :
    Lasting openGoals (Judged good (givenUp openGoals)) where
  goal_eq _ _ _ judged := judged.1
  follows before after follows fact answer judged := by
    cases answer with
    | some proof => exact ⟨judged.1, lawful.good_follows follows.closed judged.2⟩
    | none => exact lawful.givenUp_follows follows.closed judged

theorem Lawful.stores (lawful : Lawful facts rules pool invariant good givenUp) {before after : Memory}
    (stores : before.Stores good) (follows : before.Follows [] after)
    (same : after.proven = before.proven) : after.Stores good := by
  intro goal proof stored
  rw [same] at stored
  exact (stores goal proof stored).imp_right (lawful.good_follows follows)

/-- A good proof that is found may be remembered. -/
theorem Lawful.stores_found (lawful : Lawful facts rules pool invariant good givenUp) {memory : Memory} {proof : Proof}
    {cyclesBefore : Nat} (stores : memory.Stores good) (own : proof.goal = goal)
    (fine : good (conclude cyclesBefore goal (some proof) memory) proof) :
    (conclude cyclesBefore goal (some proof) memory).Stores good := by
  intro other stored kept
  by_cases same : other = goal
  · rw [conclude, List.lookup_cons, same, beq_self_eq_true] at kept
    obtain rfl := Option.some.inj kept
    exact ⟨own.trans same.symm, fine⟩
  · have before := kept
    rw [conclude, List.lookup_cons, beq_false_of_ne same] at before
    exact (stores other stored before).imp_right
      (lawful.good_follows (follows_conclude List.not_mem_nil cyclesBefore (some proof) memory))

/-- What the rules that are tried for a goal find, when the calls below it are answered. -/
theorem Lawful.attempts (lawful : Lawful facts rules pool invariant good givenUp) (covers : Rule.Covers pool facts rules)
    (call : Call rules pool (depth + 1) openGoals goal) (closed : goal ∉ openGoals) (tentative : Bool)
    (below : ∀ fact, Call rules pool depth (goal :: openGoals) fact →
      AnswersFor (Memory.Keeps (invariant (goal :: openGoals)) good) (goal :: openGoals)
        (Judged good (givenUp (goal :: openGoals))) (proveGoal ⟨facts, rules⟩ depth (goal :: openGoals)) fact)
    {memory : Memory} (keeps : memory.Keeps (invariant (goal :: openGoals)) good) :
    Reaches (Memory.Keeps (invariant (goal :: openGoals)) good) (goal :: openGoals) memory
      (firstSuccess (proveByRule ⟨facts, rules⟩ (proveGoal ⟨facts, rules⟩ depth (goal :: openGoals)) tentative goal)
        (Rule.concluding rules goal.predicate))
      (IfFound fun after proof => ∃ rule place premises absent, (rule, place) ∈ rules.zipIdx ∧
        ByRule (Judged good (givenUp (goal :: openGoals))) rule place goal after proof premises absent) := by
  refine firstSuccess_reaches (fun candidate listed memory keeps => ?_) keeps
  obtain ⟨member, _⟩ := Rule.mem_concluding listed
  refine (proveByRule_reaches covers member call.overPool (lawful.lasting _) ?_ keeps).imp ?_
  · intro fact asks within
    exact below fact (call.child closed member asks within)
  · intro after answer told proof same
    obtain ⟨premises, absent, byRule⟩ := told proof same
    exact ⟨candidate.1, candidate.2, premises, absent, (List.mem_filter.1 listed).1, byRule⟩

/-- What holds of the steps holds of the whole search. -/
theorem Lawful.proveGoal_reaches (lawful : Lawful facts rules pool invariant good givenUp) (covers : Rule.Covers pool facts rules)
    (call : Call rules pool depth openGoals goal) {tentative : Bool} {memory : Memory}
    (keeps : memory.Keeps (invariant openGoals) good) :
    Reaches (Memory.Keeps (invariant openGoals) good) openGoals memory
      (proveGoal ⟨facts, rules⟩ depth openGoals tentative goal)
      fun after answer => Judged good (givenUp openGoals) after goal answer := by
  induction depth generalizing openGoals goal tentative memory with
  | zero => exact absurd rfl call.depth_pos
  | succ depth ih =>
    have run := proveGoal_run ⟨facts, rules⟩ depth openGoals tentative goal memory
    by_cases asserted : goal ∈ facts
    · rw [if_pos asserted] at run
      exact .of_run run keeps (.refl openGoals memory) ⟨rfl, lawful.asserted asserted⟩
    rw [if_neg asserted] at run
    cases proven : memory.proven.lookup goal with
    | some proof =>
      rw [proven] at run
      exact .of_run run keeps (.refl openGoals memory) (keeps.2 goal proof proven)
    | none =>
      rw [proven] at run
      dsimp only at run
      by_cases refuted : goal ∈ memory.refuted
      · rw [if_pos refuted] at run
        exact .of_run run keeps (.refl openGoals memory) (lawful.refuted keeps.1 refuted)
      rw [if_neg refuted] at run
      by_cases opened : goal ∈ openGoals
      · rw [if_pos opened] at run
        have follows := follows_meetCycle openGoals tentative goal memory
        obtain ⟨holds, given⟩ := lawful.circle call opened keeps.1
        exact .of_run run ⟨holds, lawful.stores keeps.2 follows.closed rfl⟩ follows given
      rw [if_neg opened] at run
      have unknown : memory.Unknown facts openGoals goal := ⟨asserted, proven, refuted, opened⟩
      obtain ⟨kept, follows, found⟩ := lawful.attempts covers call opened tentative
        (fun fact call _ _ keeps => ih call keeps) ⟨lawful.opens unknown keeps.1, keeps.2⟩
      have tried : Tried facts rules pool invariant depth openGoals goal memory _ :=
        ⟨call, unknown, keeps.1, kept.1, follows⟩
      have last (answer : Option Proof) := follows.of_cons.trans (follows_conclude opened memory.cyclesMet answer _)
      cases answer : (firstSuccess (proveByRule ⟨facts, rules⟩ (proveGoal ⟨facts, rules⟩ depth (goal :: openGoals))
          tentative goal) (Rule.concluding rules goal.predicate) memory).1 with
      | some proof =>
        rw [answer] at run
        obtain ⟨rule, place, premises, absent, listed, byRule⟩ := found proof answer
        have own : proof.goal = goal := by rw [byRule.proof_eq, Proof.goal]
        obtain ⟨holds, fine⟩ := lawful.found tried listed byRule
        exact .of_run run ⟨holds, lawful.stores_found kept.2 own fine⟩ (last _) ⟨own, fine⟩
      | none =>
        rw [answer] at run
        obtain ⟨holds, given⟩ := lawful.failed tried run
        have stores := lawful.stores kept.2 (follows_conclude List.not_mem_nil memory.cyclesMet none _)
          (proven_conclude_none memory.cyclesMet goal _)
        exact .of_run run ⟨holds, stores⟩ (last _) given

end Goals

end Backward

end Deliberation
