import Deliberation.Proofs.Inference.Answers
import Deliberation.Proofs.Inference.Candidates

/-!
Backward chaining is right: what it proves belongs to the model, and a goal that it gives up on
cannot be derived without the goals that are open. Where no circle was met, the goal does not belong
to the model at all, which is why such failures may be remembered.
-/

namespace Deliberation.Backward

section Bodies

variable {known : Knowledge} {invariant : Memory → Prop} {pool : List String} {model : Fact → Prop}
  {goals : (thorough : Bool) → Fact → Prop} {proveGoal : Bool → Fact → Search (Option Proof)} {tentative : Bool}

/-- A prover is right about every fact over the pool that an atom may become. -/
def RightAbout (invariant : Memory → Prop) (pool : List String) (model : Fact → Prop) (exist : Bool → Fact → Prop)
    (proveGoal : Bool → Fact → Search (Option Proof)) (atom : Atom) : Prop :=
  ∀ tentative fact, fact.predicate = atom.predicate → fact.Over pool →
    Ensures invariant (proveGoal tentative fact) (Right (fun _ => model fact) (exist · fact))

/-- Absence is found exactly when no atom belongs to the model. -/
theorem proveAbsent_right {bindings : Bindings} {atoms : List Atom} (overPool : bindings.Over pool)
    (constants : ∀ atom ∈ atoms, atom.Over pool) (bound : ∀ atom ∈ atoms, ∃ fact, atom.ground? bindings = some fact)
    (right : ∀ atom ∈ atoms, RightAbout invariant pool model (fun _ => model) proveGoal atom) :
    Ensures invariant (proveAbsent (proveGoal tentative) bindings atoms)
      (Right (fun _ => Atom.AllAre (¬ model ·) atoms bindings) fun _ => Atom.AllAre (¬ model ·) atoms bindings) := by
  induction atoms with
  | nil => exact ensures_pure (by simp [Right, Atom.AllAre])
  | cons atom rest ih =>
    simp only [List.forall_mem_cons] at constants bound right
    obtain ⟨fact, ground⟩ := bound.1
    have within : fact.Over pool := Atom.fact_over ground constants.1 fun name _ => overPool name
    have split : Atom.AllAre (¬ model ·) (atom :: rest) bindings ↔
        ¬ model fact ∧ Atom.AllAre (¬ model ·) rest bindings := by
      simp [Atom.AllAre, ground]
    simp only [proveAbsent, ground, split]
    refine (right.1 tentative fact (Atom.predicate_of_ground? ground) within).bind fun quiet answer here => ?_
    cases answer with
    | some proof => exact ensures_pure fun _ _ all => all.1 here
    | none =>
      have absent : ¬ model fact := here false (by simp)
      refine (ih constants.2 bound.2 right.2).map fun quiet' answer later => ?_
      cases answer with
      | some found => exact ⟨absent, later⟩
      | none => exact fun thorough _ all => later thorough (by simp_all) all.2

/-- The attempt to prove the pattern under one candidate, and then the other literals. -/
def proveUnder (known : Knowledge) (proveGoal : Bool → Fact → Search (Option Proof)) (tentative : Bool)
    (negatives : List Atom) (pattern : Atom) (rest : List Atom) (extended : Bindings) (guess : Bool) :
    Search (Option (List Proof × List Fact)) := do
  match pattern.ground? extended with
  | none => pure none
  | some fact =>
    match ← proveGoal (tentative || guess) fact with
    | none => pure none
    | some proof =>
      return (← proveBody known proveGoal tentative negatives rest extended).map
        fun (premises, absent) => (proof :: premises, absent)

theorem proveBody_cons {negatives rest : List Atom} {atom : Atom} {bindings : Bindings} :
    proveBody known proveGoal tentative negatives (atom :: rest) bindings =
      match (atom.substitute bindings).ground? bindings with
      | some _ => proveUnder known proveGoal tentative negatives (atom.substitute bindings) rest bindings false
      | none => firstSuccess (fun (extended, guess) =>
          proveUnder known proveGoal tentative negatives (atom.substitute bindings) rest extended guess)
          (candidates known (atom.substitute bindings) bindings) := rfl

/-- Some bindings that extend given ones make the positive literals facts of one kind and the negated ones
facts of another. -/
def Satisfiable (holds fails : Fact → Prop) (positives negatives : List Atom) (bindings : Bindings) : Prop :=
  ∃ whole, whole.Extends bindings ∧ Atom.AllAre holds positives whole ∧ Atom.AllAre fails negatives whole

theorem Satisfiable.of_extends {holds fails : Fact → Prop} {positives negatives : List Atom} {larger smaller : Bindings}
    (extended : larger.Extends smaller) (satisfiable : Satisfiable holds fails positives negatives larger) :
    Satisfiable holds fails positives negatives smaller := by
  obtain ⟨whole, above, holds, fails⟩ := satisfiable
  exact ⟨whole, above.trans extended, holds, fails⟩

theorem satisfiable_cons_iff {holds fails : Fact → Prop} {atom : Atom} {rest negatives : List Atom}
    {bindings : Bindings} {fact : Fact} (ground : atom.ground? bindings = some fact) :
    Satisfiable holds fails (atom :: rest) negatives bindings ↔
      holds fact ∧ Satisfiable holds fails rest negatives bindings := by
  have split (whole : Bindings) (extended : whole.Extends bindings) :
      Atom.AllAre holds (atom :: rest) whole ↔ holds fact ∧ Atom.AllAre holds rest whole := by
    simp [Atom.AllAre, Atom.ground?_of_extends extended ground]
  constructor
  · rintro ⟨whole, extended, positive, negative⟩
    obtain ⟨here, later⟩ := (split whole extended).1 positive
    exact ⟨here, whole, extended, later, negative⟩
  · rintro ⟨here, whole, extended, later, negative⟩
    exact ⟨whole, extended, (split whole extended).2 ⟨here, later⟩, negative⟩

/-- A body is proven only if the model satisfies it, and given up only if the goals that exist do not. -/
def BodyRight (invariant : Memory → Prop) (model : Fact → Prop) (goals : (thorough : Bool) → Fact → Prop)
    (positives negatives : List Atom) (bindings : Bindings) (search : Search (Option (List Proof × List Fact))) : Prop :=
  Ensures invariant search
    (Right (fun _ => Satisfiable model (¬ model ·) positives negatives bindings)
      fun thorough => Satisfiable (goals thorough) (¬ model ·) positives negatives bindings)

theorem proveUnder_right {negatives rest : List Atom} {atom pattern : Atom} {extended : Bindings} {guess : Bool}
    {fact : Fact} (ground : pattern.ground? extended = some fact) (own : atom.ground? extended = some fact)
    (here : Ensures invariant (proveGoal (tentative || guess) fact) (Right (fun _ => model fact) (goals · fact)))
    (later : BodyRight invariant model goals rest negatives extended
      (proveBody known proveGoal tentative negatives rest extended)) :
    BodyRight invariant model goals (atom :: rest) negatives extended
      (proveUnder known proveGoal tentative negatives pattern rest extended guess) := by
  simp only [BodyRight, proveUnder, ground, satisfiable_cons_iff own]
  refine here.bind fun quiet answer first => ?_
  cases answer with
  | none => exact ensures_pure fun thorough allowed there => first thorough (by simpa using allowed) there.1
  | some proof =>
    refine later.map fun quiet' answer second => ?_
    cases answer with
    | some found => exact ⟨first, second⟩
    | none => exact fun thorough allowed there => second thorough (fun asked => (allowed asked).2) there.2

/-- A body that is still to be proven: its constants and the values so far are in the pool, what its negated
literals need is bound or will be, and the prover is right about its literals. -/
structure Askable (invariant : Memory → Prop) (pool : List String) (model : Fact → Prop) (goals : Bool → Fact → Prop)
    (proveGoal : Bool → Fact → Search (Option Proof)) (positives negatives : List Atom) (bindings : Bindings) :
    Prop where
  overPool : bindings.Over pool
  constants : ∀ atom, atom ∈ positives ∨ atom ∈ negatives → atom.Over pool
  needed : ∀ atom ∈ negatives, ∀ name ∈ atom.vars,
    (∃ value, bindings.get? name = some value) ∨ ∃ other ∈ positives, name ∈ other.vars
  present : ∀ atom ∈ positives, RightAbout invariant pool model goals proveGoal atom
  absent : ∀ atom ∈ negatives, RightAbout invariant pool model (fun _ => model) proveGoal atom

/-- After its first literal has become a fact, the rest of a body is to be proven. -/
theorem Askable.rest {atom : Atom} {rest negatives : List Atom} {bindings extended : Bindings} {fact : Fact}
    (askable : Askable invariant pool model goals proveGoal (atom :: rest) negatives bindings)
    (larger : extended.Extends bindings) (within : extended.Over pool) (own : atom.ground? extended = some fact) :
    Askable invariant pool model goals proveGoal rest negatives extended where
  overPool := within
  constants other place := askable.constants other (place.imp_left (List.mem_cons_of_mem _))
  needed := by
    intro other member name place
    rcases askable.needed other member name place with ⟨value, stored⟩ | ⟨third, among, here⟩
    · exact .inl ⟨value, larger name value stored⟩
    · rcases List.mem_cons.1 among with rfl | among
      · exact .inl (Atom.exists_ground?_iff.1 ⟨fact, own⟩ name here)
      · exact .inr ⟨third, among, here⟩
  present other member := askable.present other (List.mem_cons_of_mem _ member)
  absent := askable.absent

/-- Where no positive literal is left, the body comes down to the absence of the negated ones. -/
theorem proveBody_nil_right {negatives : List Atom} {bindings : Bindings}
    (askable : Askable invariant pool model goals proveGoal [] negatives bindings) :
    BodyRight invariant model goals [] negatives bindings
      (proveBody known proveGoal tentative negatives [] bindings) := by
  have bound : ∀ atom ∈ negatives, ∃ fact, atom.ground? bindings = some fact := by
    intro atom member
    refine Atom.exists_ground?_iff.2 fun name place => ?_
    simpa using askable.needed atom member name place
  have constants : ∀ atom ∈ negatives, atom.Over pool := fun atom member => askable.constants atom (.inr member)
  rw [proveBody]
  refine (proveAbsent_right askable.overPool constants bound askable.absent).map fun quiet answer right => ?_
  refine (right.map fun _ all => ?_).imp (fun _ => id) ?_
  · exact ⟨bindings, .refl _, by simp [Atom.AllAre], all⟩
  · rintro thorough ⟨whole, extended, _, all⟩ atom member
    obtain ⟨fact, fails, becomes⟩ := all atom member
    obtain ⟨own, ground⟩ := bound atom member
    have same := (Atom.ground?_of_extends extended ground).symm.trans becomes
    exact ⟨own, Option.some.inj same ▸ fails, ground⟩

theorem proveBody_right {negatives positives : List Atom} {bindings : Bindings}
    (covers : Rule.Covers pool known.facts known.rules)
    (coverable : ∀ thorough fact, goals thorough fact → known.Coverable fact)
    (askable : Askable invariant pool model goals proveGoal positives negatives bindings) :
    BodyRight invariant model goals positives negatives bindings
      (proveBody known proveGoal tentative negatives positives bindings) := by
  induction positives generalizing bindings with
  | nil => exact proveBody_nil_right askable
  | cons atom rest ih =>
    let pattern := atom.substitute bindings
    have under (extended : Bindings) (guess : Bool) (fact : Fact) (larger : extended.Extends bindings)
        (within : extended.Over pool) (ground : pattern.ground? extended = some fact) :
        BodyRight invariant model goals (atom :: rest) negatives extended
          (proveUnder known proveGoal tentative negatives pattern rest extended guess) := by
      have own : atom.ground? extended = some fact := by rw [← Atom.ground?_substitute larger, ground]
      have constants := askable.constants atom (.inl (by simp))
      have members : fact.Over pool := Atom.fact_over own constants fun name _ => within name
      have here := askable.present atom (by simp) (tentative || guess) fact (Atom.predicate_of_ground? own) members
      exact proveUnder_right ground own here (ih (askable.rest larger within own))
    rw [proveBody_cons]
    cases now : pattern.ground? bindings with
    | some fact => exact under bindings false fact (.refl _) askable.overPool now
    | none =>
      -- A candidate that leaves the pattern open has no attempt, and satisfies nothing.
      have each : ∀ candidate ∈ candidates known pattern bindings, Ensures invariant
          (proveUnder known proveGoal tentative negatives pattern rest candidate.1 candidate.2)
          (Right (fun _ => Satisfiable model (¬ model ·) (atom :: rest) negatives bindings) fun thorough =>
            (∃ fact, pattern.ground? candidate.1 = some fact) ∧
              Satisfiable (goals thorough) (¬ model ·) (atom :: rest) negatives candidate.1) := by
        rintro ⟨found, guess⟩ member
        obtain ⟨larger, within⟩ := candidates_sound covers askable.overPool member
        cases ground : pattern.ground? found with
        | none =>
          simp only [proveUnder, ground]
          exact ensures_pure fun _ _ there => by simp at there
        | some fact =>
          refine (under found guess fact larger within ground).imp fun quiet answer right => ?_
          exact right.imp (fun _ => .of_extends larger) fun _ => And.right
      refine (firstSuccess_right each).imp fun quiet answer right => right.imp (fun _ => id) ?_
      rintro thorough ⟨whole, extended, holds, fails⟩
      obtain ⟨fact, exists_, becomes⟩ := holds atom (by simp)
      rw [← Atom.ground?_substitute extended] at becomes
      obtain ⟨found, guess, member, above, ground⟩ :=
        candidates_complete extended becomes (coverable thorough fact exists_)
      exact ⟨(found, guess), member, ⟨fact, ground⟩, whole, above, holds, fails⟩

/-- A rule proves a goal only if it concludes it in the model, and fails only if it does not conclude it from
the goals that exist. -/
theorem proveByRule_right {rule : Rule} {place : Nat} {goal : Fact} (covers : Rule.Covers pool known.facts known.rules)
    (member : rule ∈ known.rules) (safe : rule.Safe) (overPool : goal.Over pool)
    (coverable : ∀ thorough fact, goals thorough fact → known.Coverable fact)
    (right : (∃ bindings, rule.consequent.ground? bindings = some goal) →
      (∀ atom ∈ rule.positives, RightAbout invariant pool model goals proveGoal atom) ∧
        ∀ atom ∈ rule.negatives, RightAbout invariant pool model (fun _ => model) proveGoal atom) :
    Ensures invariant (proveByRule known proveGoal tentative goal (rule, place))
      (Right (fun _ => rule.Concludes model (¬ model ·) goal)
        fun thorough => rule.Concludes (goals thorough) (¬ model ·) goal) := by
  rw [proveByRule]
  cases matched : rule.consequent.match? goal .empty with
  | none =>
    refine ensures_pure fun _ _ there => ?_
    obtain ⟨whole, ground, _⟩ := there
    obtain ⟨found, some, _⟩ := Atom.match?_complete (NameMap.extends_empty whole) ground
    simp [matched] at some
  | some bindings =>
    have ground := (Atom.match?_sound matched).2
    obtain ⟨present, absent⟩ := right ⟨bindings, ground⟩
    have needed : ∀ atom ∈ rule.negatives, ∀ name ∈ atom.vars,
        (∃ value, bindings.get? name = some value) ∨ ∃ other ∈ rule.positives, name ∈ other.vars := by
      intro atom among name here
      have bound := safe name (List.mem_append_right _ (List.mem_flatMap.2 ⟨atom, among, here⟩))
      exact .inr (List.mem_flatMap.1 bound)
    have askable : Askable invariant pool model goals proveGoal rule.positives rule.negatives bindings :=
      ⟨Atom.match?_over matched (NameMap.over_empty pool) overPool, fun _ => covers.literal member, needed, present,
        absent⟩
    refine (proveBody_right covers coverable askable).map fun quiet answer right => ?_
    refine (right.map fun _ satisfied => ?_).imp (fun _ => id) ?_
    · obtain ⟨whole, extended, holds, fails⟩ := satisfied
      exact ⟨whole, Atom.ground?_of_extends extended ground, holds, fails⟩
    · rintro thorough ⟨whole, becomes, holds, fails⟩
      obtain ⟨found, same, within⟩ := Atom.match?_complete (NameMap.extends_empty whole) becomes
      rw [matched, Option.some.injEq] at same
      exact ⟨whole, same ▸ within, holds, fails⟩

end Bodies

section Goals

/-- What is remembered is true: proven goals belong to the model, and refuted ones do not. -/
structure Memory.Truthful (model : Fact → Prop) (memory : Memory) : Prop where
  proven : ∀ goal proof, memory.proven.lookup goal = some proof → model goal
  refuted : ∀ goal ∈ memory.refuted, ¬ model goal

/-- What the steps of the search for a proof of a goal are. -/
theorem proveGoal_run (known : Knowledge) (depth : Nat) (openGoals : List Fact) (tentative : Bool) (goal : Fact)
    (memory : Memory) :
    proveGoal known (depth + 1) openGoals tentative goal memory =
      if goal ∈ known.facts then (some (.asserted goal), memory)
      else match memory.proven.lookup goal with
        | some proof => (some proof, memory)
        | none =>
          if goal ∈ memory.refuted then (none, memory)
          else if goal ∈ openGoals then (none, meetCycle openGoals tentative goal memory)
          else
            let outcome := firstSuccess (proveByRule known (proveGoal known depth (goal :: openGoals)) tentative goal)
              (Rule.concluding known.rules goal.predicate) memory
            (outcome.1, conclude memory.cyclesMet goal outcome.1 outcome.2) := by
  rw [proveGoal]
  split
  · rfl
  · show (match memory.proven.lookup goal with | some proof => _ | none => _ : Search (Option Proof)) memory = _
    cases memory.proven.lookup goal with
    | some proof => rfl
    | none =>
      show (if goal ∈ memory.refuted then _ else if goal ∈ openGoals then _ else _ : Search (Option Proof)) memory = _
      split_ifs <;> rfl

theorem cyclesMet_conclude (cyclesBefore : Nat) (goal : Fact) (found : Option Proof) (memory : Memory) :
    (conclude cyclesBefore goal found memory).cyclesMet = memory.cyclesMet := by
  unfold conclude
  split
  · rfl
  · split <;> rfl

variable {facts : FactSet} {rules : List Rule} {level : String → Nat} {pool : List String}

/-- The goals that can be found while others are open, and those that exist at all. -/
def reachable (facts : FactSet) (rules : List Rule) (level : String → Nat) (openGoals : List Fact)
    (thorough : Bool) : Fact → Prop :=
  Inference.Derivable facts rules (¬ Inference.Model facts rules level ·) (if thorough then [] else openGoals)

/-- A goal is proven only if it belongs to the model, and given up only if it cannot be reached. -/
def GoalRight (facts : FactSet) (rules : List Rule) (level : String → Nat) (openGoals : List Fact) (goal : Fact) :
    Search (Option Proof) → Prop :=
  fun search => Ensures (Memory.Truthful (Inference.Model facts rules level)) search
    (Right (fun _ => Inference.Model facts rules level goal) (reachable facts rules level openGoals · goal))

/-- A goal below the open ones can be reached if it belongs to the model. -/
theorem reachable_of_model (levelled : Rule.Levelled rules level) {openGoals : List Fact} {goal : Fact}
    (below : ∀ other ∈ openGoals, level goal.predicate < level other.predicate)
    (holds : Inference.Model facts rules level goal) (thorough : Bool) :
    reachable facts rules level openGoals thorough goal := by
  have derivable := (Inference.model_iff_derivable levelled).1 holds
  cases thorough with
  | false => exact derivable.avoiding levelled below
  | true => exact derivable

theorem model_of_reachable (levelled : Rule.Levelled rules level) {openGoals : List Fact} {goal : Fact}
    {thorough : Bool} (reached : reachable facts rules level openGoals thorough goal) :
    Inference.Model facts rules level goal :=
  (Inference.model_iff_derivable levelled).2 (reached.weaken (by simp))

/-- A goal that can be reached while others are open is concluded from goals that can be reached while it is
open too. -/
theorem concludes_of_reachable {openGoals : List Fact} {goal : Fact} {thorough : Bool}
    (reached : reachable facts rules level openGoals thorough goal) (unknown : goal ∉ facts) :
    ∃ rule ∈ rules, rule.Concludes (reachable facts rules level (goal :: openGoals) thorough)
      (¬ Inference.Model facts rules level ·) goal := by
  obtain ⟨_, rule, member, concludes⟩ := Inference.Derivable.concludes reached unknown
  refine ⟨rule, member, concludes.imp (fun premise derivable => derivable.weaken ?_) fun _ => id⟩
  cases thorough <;> simp

theorem coverable_of_reachable (safe : ∀ rule ∈ rules, rule.Safe) {openGoals : List Fact} {goal : Fact}
    {thorough : Bool} (reached : reachable facts rules level openGoals thorough goal) :
    Knowledge.Coverable ⟨facts, rules⟩ goal := by
  refine ⟨?_, reached.overPool (fun _ => OrdSet.mem_toList.2) safe⟩
  by_cases known : goal ∈ facts
  · exact .inl known
  · obtain ⟨rule, member, bindings, ground, _⟩ := concludes_of_reachable reached known
    exact .inr ⟨rule, member, bindings, ground⟩

/-- The outcome of a goal is remembered truthfully: a failure is kept only when it holds without regard to the
open goals. -/
theorem Memory.Truthful.conclude {model : Fact → Prop} {memory : Memory} (truthful : memory.Truthful model)
    {goal : Fact} {found : Option Proof} {cyclesBefore : Nat}
    (right : Right (fun _ => model goal) (fun thorough => thorough = true ∧ model goal)
      (memory.cyclesMet = cyclesBefore) found) :
    (Backward.conclude cyclesBefore goal found memory).Truthful model := by
  cases found with
  | some proof =>
    refine ⟨fun other stored kept => ?_, truthful.refuted⟩
    simp only [Backward.conclude, List.lookup_cons] at kept
    by_cases same : other = goal
    · exact same ▸ right
    · rw [beq_false_of_ne same] at kept
      exact truthful.proven other stored kept
  | none =>
    simp only [Backward.conclude]
    split
    · next quiet =>
      refine ⟨truthful.proven, fun other member => ?_⟩
      rcases List.mem_cons.1 member with rfl | member
      · exact fun holds => right true (fun _ => quiet) ⟨rfl, holds⟩
      · exact truthful.refuted other member
    · exact truthful

/-- What the rules are tried for while a goal is open comes out right when the goals that come up below it are
treated rightly. -/
private theorem attempts_right (levelled : Rule.Levelled rules level) (safe : ∀ rule ∈ rules, rule.Safe)
    (covers : Rule.Covers pool facts rules) {depth : Nat} {openGoals : List Fact} {tentative : Bool} {goal : Fact}
    (unknown : goal ∉ facts) (above : ∀ other ∈ openGoals, level goal.predicate ≤ level other.predicate)
    (overPool : goal.Over pool)
    (children : ∀ child, (∃ rule ∈ rules, ∃ bindings, rule.consequent.ground? bindings = some goal) →
      level child.predicate ≤ level goal.predicate → child.Over pool → ∀ tentative,
        GoalRight facts rules level (goal :: openGoals) child
          (proveGoal ⟨facts, rules⟩ depth (goal :: openGoals) tentative child)) :
    GoalRight facts rules level openGoals goal
      (firstSuccess (proveByRule ⟨facts, rules⟩ (proveGoal ⟨facts, rules⟩ depth (goal :: openGoals)) tentative goal)
        (Rule.concluding rules goal.predicate)) := by
  have each : ∀ candidate ∈ Rule.concluding rules goal.predicate,
      Ensures (Memory.Truthful (Inference.Model facts rules level))
        (proveByRule ⟨facts, rules⟩ (proveGoal ⟨facts, rules⟩ depth (goal :: openGoals)) tentative goal candidate)
        (Right (fun _ => Inference.Model facts rules level goal) fun thorough => candidate.1.Concludes
          (reachable facts rules level (goal :: openGoals) thorough) (¬ Inference.Model facts rules level ·) goal) := by
    rintro ⟨rule, place⟩ candidate
    obtain ⟨member, predicate⟩ := Rule.mem_concluding candidate
    refine (proveByRule_right covers member (safe rule member) overPool
      (fun _ _ => coverable_of_reachable safe) ?_).imp
      fun quiet answer right => right.imp (fun _ => .of_concludes levelled member) fun _ => id
    rintro ⟨bindings, ground⟩
    refine ⟨fun atom among _ child own within => ?_, fun atom among _ child own within => ?_⟩
    · have atMost := levelled.positive rule member atom among
      rw [← own, predicate] at atMost
      exact children child ⟨rule, member, bindings, ground⟩ atMost within _
    · have lower := levelled.negative rule member atom among
      rw [← own, predicate] at lower
      -- No open goal is as low as a negated literal, so its failure is one for the whole model.
      have below : ∀ other ∈ goal :: openGoals, level child.predicate < level other.predicate := by
        intro other place
        rcases List.mem_cons.1 place with rfl | place
        · exact lower
        · exact lower.trans_le (above other place)
      exact (children child ⟨rule, member, bindings, ground⟩ lower.le within _).imp fun quiet answer right =>
        right.imp (fun _ => id) fun thorough holds => reachable_of_model levelled below holds thorough
  refine (firstSuccess_right each).imp fun quiet answer right => right.imp (fun _ => id) ?_
  intro thorough reached
  obtain ⟨rule, member, concludes⟩ := concludes_of_reachable reached unknown
  obtain ⟨place, candidate⟩ := Rule.exists_mem_concluding member
  exact ⟨(rule, place), concludes.predicate_eq ▸ candidate, concludes⟩

/-- One goal is treated rightly when what the rules are tried for comes out right. -/
private theorem proveGoal_right_of_attempts (levelled : Rule.Levelled rules level) {depth : Nat}
    {openGoals : List Fact} {tentative : Bool} {goal : Fact}
    (attempts : goal ∉ facts → goal ∉ openGoals → GoalRight facts rules level openGoals goal
      (firstSuccess (proveByRule ⟨facts, rules⟩ (proveGoal ⟨facts, rules⟩ depth (goal :: openGoals)) tentative goal)
        (Rule.concluding rules goal.predicate))) :
    GoalRight facts rules level openGoals goal (proveGoal ⟨facts, rules⟩ (depth + 1) openGoals tentative goal) := by
  intro memory truthful
  rw [proveGoal_run]
  by_cases known : goal ∈ facts
  · rw [if_pos known]
    exact ⟨truthful, le_rfl, ⟨0, known⟩⟩
  rw [if_neg known]
  cases proven : memory.proven.lookup goal with
  | some proof => exact ⟨truthful, le_rfl, truthful.proven goal proof proven⟩
  | none =>
    dsimp only
    by_cases refuted : goal ∈ memory.refuted
    · rw [if_pos refuted]
      exact ⟨truthful, le_rfl, fun _ _ reached => truthful.refuted goal refuted (model_of_reachable levelled reached)⟩
    rw [if_neg refuted]
    by_cases opened : goal ∈ openGoals
    · rw [if_pos opened]
      refine ⟨⟨truthful.proven, truthful.refuted⟩, Nat.le_succ _, fun thorough quiet reached => ?_⟩
      -- Failing on an open goal says nothing of the goal itself, and the count of circles records it.
      cases thorough with
      | false => exact (Inference.Derivable.concludes reached known).1 opened
      | true => exact absurd (quiet rfl) (by simp [meetCycle])
    rw [if_neg opened]
    obtain ⟨kept, grown, right⟩ := attempts known opened memory truthful
    refine ⟨kept.conclude (right.imp (fun _ => id) ?_), ?_, ?_⟩
    · rintro thorough ⟨rfl, holds⟩
      exact (Inference.model_iff_derivable levelled).1 holds
    · exact grown.trans_eq (cyclesMet_conclude ..).symm
    · simpa only [cyclesMet_conclude] using right

/-- A prover whose depth exceeds the number of instances that are not yet open is right about every goal over
the pool. -/
theorem proveGoal_right (levelled : Rule.Levelled rules level) (safe : ∀ rule ∈ rules, rule.Safe)
    (covers : Rule.Covers pool facts rules) {depth : Nat} {openGoals : List Fact} {tentative : Bool} {goal : Fact}
    (distinct : openGoals.Nodup) (instances : ∀ other ∈ openGoals, other ∈ Rule.instances pool rules)
    (enough : (Rule.instances pool rules).length < depth + openGoals.length)
    (above : ∀ other ∈ openGoals, level goal.predicate ≤ level other.predicate) (overPool : goal.Over pool) :
    GoalRight facts rules level openGoals goal (proveGoal ⟨facts, rules⟩ depth openGoals tentative goal) := by
  -- The open goals differ from one another and are instances, so the depth lasts until there is no other instance.
  induction depth generalizing openGoals tentative goal with
  | zero =>
    have few := (List.subperm_of_subset distinct instances).length_le
    omega
  | succ depth ih =>
    refine proveGoal_right_of_attempts levelled fun unknown fresh => ?_
    refine attempts_right levelled safe covers unknown above overPool fun child concluded lower within _ => ?_
    obtain ⟨rule, member, bindings, ground⟩ := concluded
    refine ih (List.nodup_cons.2 ⟨fresh, distinct⟩) ?_ ?_ ?_ within
    · intro other place
      rcases List.mem_cons.1 place with rfl | place
      · exact Rule.mem_instances member ground overPool
      · exact instances other place
    · rw [List.length_cons]
      omega
    · intro other place
      rcases List.mem_cons.1 place with rfl | place
      · exact lower
      · exact lower.trans (above other place)

end Goals

/-- A query has a proof exactly when the search for one from an empty memory finds one. -/
theorem exists_prove_iff_isSome {facts : FactSet} {rules : List Rule} (safe : ∀ rule ∈ rules, rule.Safe) (goal : Fact) :
    (∃ proof, prove goal.toAtom facts rules = .ok (some proof)) ↔
      (proveGoal ⟨facts, rules⟩ (depthBound ⟨facts, rules⟩ goal) [] false goal ⟨[], [], none, 0⟩).1.isSome := by
  have validated : Rule.validateAll rules = .ok () := Rule.validateAll_eq_ok_iff.2 safe
  simp only [prove, validated, Atom.ground?_toAtom, bind, Except.bind]
  obtain ⟨found, ⟨proven, refuted, firstCycle, cyclesMet⟩⟩ :=
    proveGoal ⟨facts, rules⟩ (depthBound ⟨facts, rules⟩ goal) [] false goal ⟨[], [], none, 0⟩
  cases found with
  | some proof => simp
  | none => cases firstCycle <;> simp

/-- Only a fact is searched for: a query with variables is refused. -/
theorem exists_toAtom_of_prove {query : Atom} {facts : FactSet} {rules : List Rule}
    (searched : ∀ error, prove query facts rules = .error error → ∃ cycle, error = .circularDependency cycle) :
    ∃ goal : Fact, query = goal.toAtom := by
  cases ground : query.ground? .empty with
  | some goal => exact ⟨goal, Atom.eq_toAtom_of_ground? ground⟩
  | none =>
    rw [prove, ground] at searched
    cases valid : Rule.validateAll rules with
    | ok _ =>
      obtain ⟨cycle, same⟩ := searched (.openQuery query) (by rw [valid]; rfl)
      cases same
    | error error =>
      obtain ⟨label, name, rfl⟩ := Rule.validateAll_error valid
      obtain ⟨cycle, same⟩ := searched (.unsafeVariable label name) (by rw [valid]; rfl)
      cases same

/-- A search starts with room for every instance over the constants at hand. -/
theorem length_instances_lt_depthBound (facts : FactSet) (rules : List Rule) (goal : Fact) :
    (Rule.instances ((Rule.vocabulary facts rules).insertAll goal.args).toList rules).length <
      depthBound ⟨facts, rules⟩ goal := by
  have bound := Rule.length_instances_le ((Rule.vocabulary facts rules).insertAll goal.args).toList rules 2
  have depth : depthBound ⟨facts, rules⟩ goal = rules.foldl (fun n rule =>
      n + Nat.pow ((Rule.vocabulary facts rules).insertAll goal.args).toList.length rule.consequent.vars.length) 2 := rfl
  omega

theorem exists_pool (facts : FactSet) (rules : List Rule) (goal : Fact) :
    ∃ pool, Rule.Covers pool facts rules ∧ goal.Over pool ∧
      (Rule.instances pool rules).length < depthBound ⟨facts, rules⟩ goal :=
  ⟨_, fun _ member => OrdSet.mem_insertAll.2 (.inr member), fun _ member => OrdSet.mem_insertAll.2 (.inl member),
    length_instances_lt_depthBound facts rules goal⟩

theorem Memory.truthful_empty {holds : Fact → Prop} : Memory.Truthful holds ⟨[], [], none, 0⟩ :=
  ⟨fun _ _ found => by simp at found, fun _ member => by simp at member⟩

/-- A goal has a proof exactly when it belongs to the model. -/
theorem exists_prove_iff_model {facts : FactSet} {rules : List Rule} {level : String → Nat}
    (safe : ∀ rule ∈ rules, rule.Safe) (levelled : Rule.Levelled rules level) {goal : Fact} :
    (∃ proof, prove goal.toAtom facts rules = .ok (some proof)) ↔ Inference.Model facts rules level goal := by
  obtain ⟨pool, covers, overPool, enough⟩ := exists_pool facts rules goal
  have answers : GoalRight facts rules level [] goal
      (proveGoal ⟨facts, rules⟩ (depthBound ⟨facts, rules⟩ goal) [] false goal) :=
    proveGoal_right levelled safe covers .nil (by simp) enough (by simp) overPool
  obtain ⟨_, _, right⟩ := answers _ Memory.truthful_empty
  rw [exists_prove_iff_isSome safe]
  revert right
  cases (proveGoal ⟨facts, rules⟩ (depthBound ⟨facts, rules⟩ goal) [] false goal ⟨[], [], none, 0⟩).1 with
  | some proof => exact fun holds => ⟨fun _ => holds, fun _ => rfl⟩
  | none =>
    intro unreachable
    refine ⟨fun found => by simp at found, fun holds => ?_⟩
    exact absurd (reachable_of_model levelled (by simp) holds false) (unreachable false (by simp))

end Deliberation.Backward
