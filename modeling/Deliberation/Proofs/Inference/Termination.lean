import Mathlib.Data.List.Sections
import Mathlib.Data.Set.Card
import Mathlib.Order.Filter.AtTopBot.Basic
import Deliberation.Proofs.Inference.Calls

/-!
The search for a proof comes to an end. `GoalRun` and the relations beside it say, without any bound on how far
proofs nest, when a search has run through and what came of it. There is such a run for every goal, whatever the
rules are: no goal is opened twice, and all of them are made of the predicates and the constants at hand.
-/

namespace Deliberation.Backward

/-! ### Runs -/

section

variable (known : Knowledge) (allowed : List Fact → Prop)

mutual

/-- A search for a proof of a goal that comes to an end. Rules are only tried while the goals that are open
are allowed. -/
inductive GoalRun : (openGoals : List Fact) → (tentative : Bool) → (goal : Fact) → (before : Memory) →
    (answer : Option Proof) → (after : Memory) → Prop
  | asserted {openGoals tentative goal memory} (listed : goal ∈ known.facts) :
      GoalRun openGoals tentative goal memory (some (.asserted goal)) memory
  | proven {openGoals tentative goal proof} {memory : Memory} (unasserted : goal ∉ known.facts)
      (stored : memory.proven.lookup goal = some proof) :
      GoalRun openGoals tentative goal memory (some proof) memory
  | refuted {openGoals tentative goal} {memory : Memory} (unasserted : goal ∉ known.facts)
      (unproven : memory.proven.lookup goal = none) (stored : goal ∈ memory.refuted) : GoalRun openGoals tentative goal memory none memory
  | circle {openGoals tentative goal} {memory : Memory} (unasserted : goal ∉ known.facts)
      (unproven : memory.proven.lookup goal = none) (unrefuted : goal ∉ memory.refuted) (opened : goal ∈ openGoals) :
      GoalRun openGoals tentative goal memory none (meetCycle openGoals tentative goal memory)
  | searched {openGoals tentative goal found after} {before : Memory} (unknown : before.Unknown known.facts openGoals goal)
      (fine : allowed (goal :: openGoals))
      (tried : RulesRun (goal :: openGoals) tentative goal (Rule.concluding known.rules goal.predicate) before found after) :
      GoalRun openGoals tentative goal before found (conclude before.cyclesMet goal found after)

/-- Rules are tried for a goal, one after the other, until one proves it. -/
inductive RulesRun : (openGoals : List Fact) → (tentative : Bool) → (goal : Fact) → (rules : List (Rule × Nat)) →
    (before : Memory) → (answer : Option Proof) → (after : Memory) → Prop
  | noRule {openGoals tentative goal memory} : RulesRun openGoals tentative goal [] memory none memory
  | apart {openGoals tentative goal place rest before answer after} {rule : Rule}
      (different : rule.consequent.match? goal .empty = none)
      (later : RulesRun openGoals tentative goal rest before answer after) :
      RulesRun openGoals tentative goal ((rule, place) :: rest) before answer after
  | fails {openGoals tentative goal place rest bindings before middle answer after} {rule : Rule}
      (matched : rule.consequent.match? goal .empty = some bindings)
      (body : BodyRun openGoals tentative rule.negatives rule.positives bindings before none middle)
      (later : RulesRun openGoals tentative goal rest middle answer after) :
      RulesRun openGoals tentative goal ((rule, place) :: rest) before answer after
  | proves {openGoals tentative goal place rest bindings before premises absent after} {rule : Rule}
      (matched : rule.consequent.match? goal .empty = some bindings)
      (body : BodyRun openGoals tentative rule.negatives rule.positives bindings before (some (premises, absent)) after) :
      RulesRun openGoals tentative goal ((rule, place) :: rest) before (some (.rule goal (rule.label place) premises absent)) after

/-- The positive literals of a body are proven from left to right, and then the negated ones are searched for. -/
inductive BodyRun : (openGoals : List Fact) → (tentative : Bool) → (negatives positives : List Atom) → (bindings : Bindings) →
    (before : Memory) → (answer : Option (List Proof × List Fact)) → (after : Memory) → Prop
  | negated {openGoals tentative negatives bindings before absent after}
      (run : AbsentRun openGoals tentative bindings negatives before absent after) :
      BodyRun openGoals tentative negatives [] bindings before (absent.map ([], ·)) after
  | ground {openGoals tentative negatives rest bindings fact before answer after} {atom : Atom}
      (bound : (atom.substitute bindings).ground? bindings = some fact)
      (run : ChoicesRun openGoals tentative negatives (atom.substitute bindings) rest [(bindings, false)] before answer after) :
      BodyRun openGoals tentative negatives (atom :: rest) bindings before answer after
  | free {openGoals tentative negatives rest bindings before answer after} {atom : Atom}
      (unbound : (atom.substitute bindings).ground? bindings = none)
      (run : ChoicesRun openGoals tentative negatives (atom.substitute bindings) rest
        (candidates known (atom.substitute bindings) bindings) before answer after) :
      BodyRun openGoals tentative negatives (atom :: rest) bindings before answer after

/-- A literal is tried under one choice of bindings after the other, until it is proven under one and so is
the rest of the body. -/
inductive ChoicesRun : (openGoals : List Fact) → (tentative : Bool) → (negatives : List Atom) → (pattern : Atom) →
    (rest : List Atom) → (choices : List (Bindings × Bool)) → (before : Memory) →
    (answer : Option (List Proof × List Fact)) → (after : Memory) → Prop
  | noChoice {openGoals tentative negatives pattern rest memory} :
      ChoicesRun openGoals tentative negatives pattern rest [] memory none memory
  | unbound {openGoals tentative negatives rest extended guess more before answer after} {pattern : Atom}
      (free : pattern.ground? extended = none)
      (later : ChoicesRun openGoals tentative negatives pattern rest more before answer after) :
      ChoicesRun openGoals tentative negatives pattern rest ((extended, guess) :: more) before answer after
  | unproven {openGoals tentative negatives rest extended guess fact more before middle answer after} {pattern : Atom}
      (bound : pattern.ground? extended = some fact)
      (call : GoalRun openGoals (tentative || guess) fact before none middle)
      (later : ChoicesRun openGoals tentative negatives pattern rest more middle answer after) :
      ChoicesRun openGoals tentative negatives pattern rest ((extended, guess) :: more) before answer after
  | stuck {openGoals tentative negatives rest extended guess fact proof more before middle last answer after}
      {pattern : Atom} (bound : pattern.ground? extended = some fact)
      (call : GoalRun openGoals (tentative || guess) fact before (some proof) middle)
      (body : BodyRun openGoals tentative negatives rest extended middle none last)
      (later : ChoicesRun openGoals tentative negatives pattern rest more last answer after) :
      ChoicesRun openGoals tentative negatives pattern rest ((extended, guess) :: more) before answer after
  | holds {openGoals tentative negatives rest extended guess fact proof more before middle premises absent after}
      {pattern : Atom} (bound : pattern.ground? extended = some fact)
      (call : GoalRun openGoals (tentative || guess) fact before (some proof) middle)
      (body : BodyRun openGoals tentative negatives rest extended middle (some (premises, absent)) after) :
      ChoicesRun openGoals tentative negatives pattern rest ((extended, guess) :: more) before
        (some (proof :: premises, absent)) after

/-- Negated literals are searched for one after the other, until one is proven. -/
inductive AbsentRun : (openGoals : List Fact) → (tentative : Bool) → (bindings : Bindings) → (atoms : List Atom) →
    (before : Memory) → (answer : Option (List Fact)) → (after : Memory) → Prop
  | noAtom {openGoals tentative bindings memory} : AbsentRun openGoals tentative bindings [] memory (some []) memory
  | nonground {openGoals tentative bindings rest memory} {atom : Atom} (free : atom.ground? bindings = none) :
      AbsentRun openGoals tentative bindings (atom :: rest) memory none memory
  | present {openGoals tentative bindings fact rest before proof after} {atom : Atom}
      (bound : atom.ground? bindings = some fact) (call : GoalRun openGoals tentative fact before (some proof) after) :
      AbsentRun openGoals tentative bindings (atom :: rest) before none after
  | absent {openGoals tentative bindings fact rest before middle found after} {atom : Atom}
      (bound : atom.ground? bindings = some fact) (call : GoalRun openGoals tentative fact before none middle)
      (later : AbsentRun openGoals tentative bindings rest middle found after) :
      AbsentRun openGoals tentative bindings (atom :: rest) before (found.map (fact :: ·)) after

end

end

/-! ### Every search comes to an end -/

section Ends

variable {α β : Type} {known : Knowledge} {allowed : List Fact → Prop} {openGoals : List Fact} {tentative : Bool}
  {pool : List String} {prover : Bool → Fact → Search (Option Proof)} {before middle after : Memory}

theorem bind_run {first : Search α} {next : α → Search β} {answer : β} (run : (first >>= next) before = (answer, after)) :
    ∃ found middle, first before = (found, middle) ∧ next found middle = (answer, after) :=
  ⟨_, _, rfl, run⟩

theorem bind_of_run {first : Search α} {next : α → Search β} {answer : α} (run : first before = (answer, middle)) :
    (first >>= next) before = next answer middle := by
  change next (first before).1 (first before).2 = _
  rw [run]

theorem firstSuccess_of_some {attempt : α → Search (Option β)} {candidate : α} {more : List α} {found : β}
    (run : attempt candidate before = (some found, after)) : firstSuccess attempt (candidate :: more) before = (some found, after) :=
  bind_of_run run

theorem firstSuccess_of_none {attempt : α → Search (Option β)} {candidate : α} {more : List α}
    (run : attempt candidate before = (none, middle)) :
    firstSuccess attempt (candidate :: more) before = firstSuccess attempt more middle :=
  bind_of_run run

theorem firstSuccess_singleton (attempt : α → Search (Option β)) (candidate : α) (memory : Memory) :
    firstSuccess attempt [candidate] memory = attempt candidate memory := by
  rcases run : attempt candidate memory with ⟨_ | found, after⟩
  · exact firstSuccess_of_none run
  · exact firstSuccess_of_some run

/-- Whatever is remembered, the search for a fact comes to an end, with the answer of the prover. -/
def Ends (known : Knowledge) (allowed : List Fact → Prop) (openGoals : List Fact)
    (prover : Bool → Fact → Search (Option Proof)) (fact : Fact) : Prop :=
  ∀ tentative before answer after, prover tentative fact before = (answer, after) →
    GoalRun known allowed openGoals tentative fact before answer after

theorem absentRun_of_run {bindings : Bindings} {atoms : List Atom} {answer : Option (List Fact)}
    (calls : ∀ atom ∈ atoms, ∀ fact, atom.ground? bindings = some fact → Ends known allowed openGoals prover fact)
    (run : proveAbsent (prover tentative) bindings atoms before = (answer, after)) :
    AbsentRun known allowed openGoals tentative bindings atoms before answer after := by
  induction atoms generalizing before answer after with
  | nil =>
    cases run
    exact .noAtom
  | cons atom rest ih =>
    obtain ⟨here, calls⟩ := List.forall_mem_cons.1 calls
    rw [proveAbsent] at run
    cases bound : atom.ground? bindings with
    | none =>
      rw [bound] at run
      cases run
      exact .nonground bound
    | some fact =>
      rw [bound] at run
      obtain ⟨found, middle, call, run⟩ := bind_run run
      have call := here fact bound _ _ _ _ call
      cases found with
      | some proof =>
        cases run
        exact .present bound call
      | none =>
        obtain ⟨found, last, later, run⟩ := bind_run run
        cases run
        exact .absent bound call (ih calls later)

/-- Under any bindings, the search for the rest of a body comes to an end. -/
def BodyEnds (known : Knowledge) (allowed : List Fact → Prop) (openGoals : List Fact)
    (prover : Bool → Fact → Search (Option Proof)) (negatives positives : List Atom) (bindings : Bindings) : Prop :=
  ∀ tentative before answer after, proveBody known prover tentative negatives positives bindings before = (answer, after) →
    BodyRun known allowed openGoals tentative negatives positives bindings before answer after

section Choices

variable {negatives rest : List Atom} {pattern : Atom} {extended : Bindings} {guess : Bool} {choices : List (Bindings × Bool)}
  {answer : Option (List Proof × List Fact)}

/-- An attempt under one choice either settles the literal or leaves it to the choices that remain. -/
theorem choicesRun_cons
    (call : ∀ fact, pattern.ground? extended = some fact → Ends known allowed openGoals prover fact)
    (body : BodyEnds known allowed openGoals prover negatives rest extended)
    (attempt : proveUnder known prover tentative negatives pattern rest extended guess before = (answer, middle)) :
    match answer with
    | some found => ∀ choices, ChoicesRun known allowed openGoals tentative negatives pattern rest ((extended, guess) :: choices)
        before (some found) middle
    | none => ∀ choices answer after,
        ChoicesRun known allowed openGoals tentative negatives pattern rest choices middle answer after →
          ChoicesRun known allowed openGoals tentative negatives pattern rest ((extended, guess) :: choices) before answer after := by
  rw [proveUnder] at attempt
  cases bound : pattern.ground? extended with
  | none =>
    rw [bound] at attempt
    cases attempt
    exact fun _ _ _ => .unbound bound
  | some fact =>
    rw [bound] at attempt
    obtain ⟨found, later, called, attempt⟩ := bind_run attempt
    have called := call fact bound _ _ _ _ called
    cases found with
    | none =>
      cases attempt
      exact fun _ _ _ => .unproven bound called
    | some proof =>
      obtain ⟨found, last, proven, attempt⟩ := bind_run attempt
      have proven := body _ _ _ _ proven
      cases found with
      | none =>
        cases attempt
        exact fun _ _ _ => .stuck bound called proven
      | some found =>
        cases attempt
        exact fun _ => .holds bound called proven

theorem choicesRun_of_run
    (calls : ∀ choice ∈ choices, ∀ fact, pattern.ground? choice.1 = some fact → Ends known allowed openGoals prover fact)
    (bodies : ∀ choice ∈ choices, BodyEnds known allowed openGoals prover negatives rest choice.1)
    (run : firstSuccess (fun choice => proveUnder known prover tentative negatives pattern rest choice.1 choice.2) choices before =
      (answer, after)) :
    ChoicesRun known allowed openGoals tentative negatives pattern rest choices before answer after := by
  induction choices generalizing before answer after with
  | nil =>
    cases run
    exact .noChoice
  | cons choice more ih =>
    obtain ⟨call, calls⟩ := List.forall_mem_cons.1 calls
    obtain ⟨body, bodies⟩ := List.forall_mem_cons.1 bodies
    obtain ⟨tried, middle, attempt, run⟩ := bind_run run
    have first := choicesRun_cons call body attempt
    cases tried with
    | some found =>
      cases run
      exact first more
    | none => exact first more answer after (ih calls bodies run)

end Choices

/-- All that is asked for is a fact over the pool that a literal becomes, and so a body ends when the searches
for such facts do. -/
theorem bodyEnds_of_calls {negatives positives : List Atom} {bindings : Bindings} (covers : Rule.Covers pool known.facts known.rules)
    (overPool : bindings.Over pool) (constants : ∀ atom ∈ positives ++ negatives, atom.Over pool)
    (calls : ∀ extended, extended.Extends bindings → ∀ atom ∈ positives ++ negatives, ∀ fact,
      atom.ground? extended = some fact → fact.Over pool → Ends known allowed openGoals prover fact) :
    BodyEnds known allowed openGoals prover negatives positives bindings := by
  induction positives generalizing bindings with
  | nil =>
    intro tentative before answer after run
    obtain ⟨absent, last, searched, run⟩ := bind_run run
    cases run
    refine .negated (absentRun_of_run (fun atom member fact ground => ?_) searched)
    exact calls bindings (.refl _) atom member fact ground
      (Atom.fact_over ground (constants atom member) fun name _ => overPool name)
  | cons atom rest ih =>
    have under (extended : Bindings) (larger : extended.Extends bindings) (within : extended.Over pool) :
        (∀ fact, (atom.substitute bindings).ground? extended = some fact → Ends known allowed openGoals prover fact) ∧
          BodyEnds known allowed openGoals prover negatives rest extended := by
      constructor
      · intro fact ground
        rw [Atom.ground?_substitute larger] at ground
        exact calls extended larger atom (by simp) fact ground
          (Atom.fact_over ground (constants atom (by simp)) fun name _ => within name)
      · refine ih within (fun other member => constants other (List.mem_cons_of_mem _ member)) ?_
        exact fun more above other member => calls more (above.trans larger) other (List.mem_cons_of_mem _ member)
    intro tentative before answer after run
    rw [proveBody_cons] at run
    cases bound : (atom.substitute bindings).ground? bindings with
    | some fact =>
      rw [bound] at run
      obtain ⟨call, body⟩ := under bindings (.refl _) overPool
      refine .ground bound (choicesRun_of_run ?_ ?_ ((firstSuccess_singleton _ _ _).trans run))
      · exact List.forall_mem_singleton.2 call
      · exact List.forall_mem_singleton.2 body
    | none =>
      rw [bound] at run
      have sound (choice : Bindings × Bool) (member : choice ∈ candidates known (atom.substitute bindings) bindings) :=
        under choice.1 (candidates_sound covers overPool member).1 (candidates_sound covers overPool member).2
      exact .free bound (choicesRun_of_run (fun choice member => (sound choice member).1)
        (fun choice member => (sound choice member).2) run)

theorem rulesRun_of_run {goal : Fact} {candidates : List (Rule × Nat)} {answer : Option Proof}
    (covers : Rule.Covers pool known.facts known.rules) (overPool : goal.Over pool)
    (members : ∀ candidate ∈ candidates, candidate.1 ∈ known.rules)
    (calls : ∀ rule ∈ known.rules, ∀ fact, rule.AsksFor goal fact → fact.Over pool → Ends known allowed openGoals prover fact)
    (run : firstSuccess (proveByRule known prover tentative goal) candidates before = (answer, after)) :
    RulesRun known allowed openGoals tentative goal candidates before answer after := by
  induction candidates generalizing before answer after with
  | nil =>
    cases run
    exact .noRule
  | cons candidate rest ih =>
    obtain ⟨rule, place⟩ := candidate
    obtain ⟨member, members⟩ := List.forall_mem_cons.1 members
    obtain ⟨tried, middle, attempt, run⟩ := bind_run run
    rw [proveByRule] at attempt
    cases matched : rule.consequent.match? goal .empty with
    | none =>
      rw [matched] at attempt
      cases attempt
      exact .apart matched (ih members run)
    | some bindings =>
      rw [matched] at attempt
      obtain ⟨found, last, proven, attempt⟩ := bind_run attempt
      have ground := (Atom.match?_sound matched).2
      have within := Atom.match?_over matched (NameMap.over_empty pool) overPool
      have ends : BodyEnds known allowed openGoals prover rule.negatives rule.positives bindings := by
        refine bodyEnds_of_calls covers within (fun atom among => covers.literal member (List.mem_append.1 among)) ?_
        intro extended larger atom among fact becomes
        exact calls rule member fact ⟨extended, Atom.ground?_of_extends larger ground, atom, among, becomes⟩
      have proven := ends _ _ _ _ proven
      cases found with
      | some found =>
        cases attempt
        cases run
        exact .proves matched proven
      | none =>
        cases attempt
        exact .fails matched proven (ih members run)

end Ends

/-! ### The goals at hand -/

section AtHand

variable {facts : FactSet} {rules : List Rule} {query fact goal : Fact} {pool : List String} {depth : Nat} {openGoals : List Fact}
  {tentative : Bool} {before after : Memory} {answer : Option Proof}

/-- A fact of a predicate and an arity that the query or an atom of a rule has, over the constants of facts,
rules and query. -/
structure AtHand (facts : FactSet) (rules : List Rule) (query fact : Fact) : Prop where
  shaped : fact.predicate = query.predicate ∧ fact.arity = query.arity ∨ ∃ rule ∈ rules,
    ∃ atom ∈ rule.consequent :: (rule.positives ++ rule.negatives), fact.predicate = atom.predicate ∧ fact.arity = atom.arity
  constants : ∀ constant ∈ fact.args, constant ∈ Rule.vocabulary facts rules ∨ constant ∈ query.args

/-- Goals that may be open at once: they differ from one another and are all at hand. -/
structure Opened (facts : FactSet) (rules : List Rule) (query : Fact) (openGoals : List Fact) : Prop where
  distinct : openGoals.Nodup
  atHand : ∀ goal ∈ openGoals, AtHand facts rules query goal

theorem finite_atHand (facts : FactSet) (rules : List Rule) (query : Fact) : {fact | AtHand facts rules query fact}.Finite := by
  let pool := (Rule.vocabulary facts rules).toList ++ query.args
  let shapes := (query.predicate, query.arity) :: rules.flatMap fun rule =>
    (rule.consequent :: (rule.positives ++ rule.negatives)).map fun atom => (atom.predicate, atom.arity)
  let all := shapes.flatMap fun shape => (List.replicate shape.2 pool).sections.map (Fact.mk shape.1)
  refine (List.finite_toSet all).subset ?_
  rintro fact ⟨shaped, constants⟩
  have shape : (fact.predicate, fact.arity) ∈ shapes := by
    rcases shaped with ⟨predicate, arity⟩ | ⟨rule, member, atom, among, predicate, arity⟩
    · rw [predicate, arity]
      exact List.mem_cons_self ..
    · rw [predicate, arity]
      exact List.mem_cons_of_mem _ (List.mem_flatMap.2 ⟨rule, member, List.mem_map_of_mem among⟩)
  have drawn (args : List String) (pooled : ∀ constant ∈ args, constant ∈ pool) :
      List.Forall₂ (· ∈ ·) args (List.replicate args.length pool) := by
    induction args with
    | nil => exact .nil
    | cons constant rest ih =>
      obtain ⟨here, later⟩ := List.forall_mem_cons.1 pooled
      exact .cons here (ih later)
  have listed := List.mem_sections.2 (drawn fact.args fun constant member => List.mem_append.2 (constants constant member))
  exact List.mem_flatMap.2 ⟨_, shape, List.mem_map.2 ⟨fact.args, listed, rfl⟩⟩

theorem Opened.length_le (opened : Opened facts rules query openGoals) :
    openGoals.length ≤ {fact | AtHand facts rules query fact}.ncard := by
  rw [← List.toFinset_card_of_nodup opened.distinct, ← Set.ncard_coe_finset]
  refine Set.ncard_le_ncard (fun goal member => ?_) (finite_atHand facts rules query)
  exact opened.atHand goal (by simpa using member)

theorem atHand_query (facts : FactSet) (rules : List Rule) (query : Fact) : AtHand facts rules query query :=
  ⟨.inl ⟨rfl, rfl⟩, fun _ => .inr⟩

/-- What a rule asks for has the form of one of its literals. -/
theorem AtHand.of_asks {rule : Rule} (member : rule ∈ rules) (asks : rule.AsksFor goal fact)
    (constants : ∀ constant ∈ fact.args, constant ∈ Rule.vocabulary facts rules ∨ constant ∈ query.args) :
    AtHand facts rules query fact := by
  obtain ⟨bindings, -, atom, among, ground⟩ := asks
  obtain ⟨predicate, args⟩ := Atom.ground?_eq_some_iff.1 ground
  have arity : fact.arity = atom.arity := by simpa [Fact.arity, Atom.arity] using (congrArg List.length args).symm
  exact ⟨.inr ⟨rule, member, atom, List.mem_cons_of_mem _ among, predicate, arity⟩, constants⟩

/-- The goals of a call that is made for a query are at hand, and the call comes to an end before the depth is
used up. -/
theorem goalRun_of_run (covers : Rule.Covers pool facts rules)
    (within : ∀ constant ∈ pool, constant ∈ Rule.vocabulary facts rules ∨ constant ∈ query.args)
    (call : Call rules pool depth openGoals goal) (atHand : ∀ other ∈ goal :: openGoals, AtHand facts rules query other)
    (run : proveGoal ⟨facts, rules⟩ depth openGoals tentative goal before = (answer, after)) :
    GoalRun ⟨facts, rules⟩ (Opened facts rules query) openGoals tentative goal before answer after := by
  -- the goals that are open and the depth that is left add up to more than there are instances, in every call
  induction depth generalizing openGoals goal tentative before answer after with
  | zero => exact absurd rfl call.depth_pos
  | succ depth ih =>
    rw [proveGoal_run] at run
    by_cases asserted : goal ∈ facts
    · rw [if_pos asserted] at run
      cases run
      exact .asserted asserted
    rw [if_neg asserted] at run
    cases proven : before.proven.lookup goal with
    | some proof =>
      rw [proven] at run
      cases run
      exact .proven asserted proven
    | none =>
      rw [proven] at run
      dsimp only at run
      by_cases refuted : goal ∈ before.refuted
      · rw [if_pos refuted] at run
        cases run
        exact .refuted asserted proven refuted
      rw [if_neg refuted] at run
      by_cases opened : goal ∈ openGoals
      · rw [if_pos opened] at run
        cases run
        exact .circle asserted proven refuted opened
      rw [if_neg opened] at run
      cases run
      refine .searched ⟨asserted, proven, refuted, opened⟩ ⟨List.nodup_cons.2 ⟨opened, call.distinct⟩, atHand⟩ ?_
      have members (candidate : Rule × Nat) (listed : candidate ∈ Rule.concluding rules goal.predicate) : candidate.1 ∈ rules :=
        (Rule.mem_concluding listed).1
      refine rulesRun_of_run covers call.overPool members (fun rule member fact asks overPool => ?_) rfl
      intro tentative before answer after run
      have asked : AtHand facts rules query fact :=
        .of_asks member asks fun constant among => within constant (overPool constant among)
      exact ih (call.child opened member asks overPool) (List.forall_mem_cons.2 ⟨asked, atHand⟩) run

end AtHand

/-! ### What comes of a search -/

section Outcome

variable {known : Knowledge} {tentative guess : Bool} {goal fact : Fact} {rule : Rule} {place : Nat}
  {prover : Bool → Fact → Search (Option Proof)} {negatives rest : List Atom} {pattern : Atom} {bindings extended : Bindings}
  {proof : Proof} {found : Option (List Proof × List Fact)} {before middle after : Memory}

theorem proveByRule_of_none (different : rule.consequent.match? goal .empty = none) :
    proveByRule known prover tentative goal (rule, place) before = (none, before) := by
  rw [proveByRule, different]
  rfl

theorem proveByRule_of_run (matched : rule.consequent.match? goal .empty = some bindings)
    (body : proveBody known prover tentative rule.negatives rule.positives bindings before = (found, after)) :
    proveByRule known prover tentative goal (rule, place) before =
      (found.map fun (premises, absent) => .rule goal (rule.label place) premises absent, after) := by
  rw [proveByRule, matched]
  exact bind_of_run body

theorem proveUnder_of_none (unbound : pattern.ground? extended = none) :
    proveUnder known prover tentative negatives pattern rest extended guess before = (none, before) := by
  rw [proveUnder, unbound]
  rfl

theorem proveUnder_of_unproven (bound : pattern.ground? extended = some fact)
    (call : prover (tentative || guess) fact before = (none, middle)) :
    proveUnder known prover tentative negatives pattern rest extended guess before = (none, middle) := by
  rw [proveUnder, bound]
  exact bind_of_run call

theorem proveUnder_of_run (bound : pattern.ground? extended = some fact)
    (call : prover (tentative || guess) fact before = (some proof, middle))
    (body : proveBody known prover tentative negatives rest extended middle = (found, after)) :
    proveUnder known prover tentative negatives pattern rest extended guess before =
      (found.map fun (premises, absent) => (proof :: premises, absent), after) := by
  rw [proveUnder, bound]
  exact (bind_of_run call).trans (bind_of_run body)

end Outcome

section Eventually

open Filter

variable {known : Knowledge} {allowed : List Fact → Prop}

theorem eventually_of_succ {holds : Nat → Prop} (later : ∀ᶠ depth in atTop, holds (depth + 1)) : ∀ᶠ depth in atTop, holds depth := by
  rwa [← map_add_atTop_eq_nat 1, eventually_map]

mutual

/-- A search that comes to an end does so at every depth from some depth on, and with the same outcome. -/
theorem GoalRun.eventually {openGoals : List Fact} {tentative : Bool} {goal : Fact} {before after : Memory}
    {answer : Option Proof} : GoalRun known allowed openGoals tentative goal before answer after →
    ∀ᶠ depth in atTop, proveGoal known depth openGoals tentative goal before = (answer, after)
  | .asserted listed => eventually_of_succ (.of_forall fun depth => by rw [proveGoal_run, if_pos listed])
  | .proven unasserted stored => eventually_of_succ (.of_forall fun depth => by rw [proveGoal_run, if_neg unasserted, stored])
  | .refuted unasserted unproven stored => by
    refine eventually_of_succ (.of_forall fun depth => ?_)
    rw [proveGoal_run, if_neg unasserted, unproven]
    exact if_pos stored
  | .circle unasserted unproven unrefuted opened => by
    refine eventually_of_succ (.of_forall fun depth => ?_)
    rw [proveGoal_run, if_neg unasserted, unproven]
    exact (if_neg unrefuted).trans (if_pos opened)
  | .searched unknown _ tried => by
    refine eventually_of_succ ?_
    filter_upwards [tried.eventually] with depth tried
    rw [proveGoal_run, if_neg unknown.unasserted, unknown.unproven]
    refine (if_neg unknown.unrefuted).trans ((if_neg unknown.closed).trans ?_)
    rw [tried]

theorem RulesRun.eventually {openGoals : List Fact} {tentative : Bool} {goal : Fact} {rules : List (Rule × Nat)}
    {before after : Memory} {answer : Option Proof} :
    RulesRun known allowed openGoals tentative goal rules before answer after → ∀ᶠ depth in atTop,
      firstSuccess (proveByRule known (proveGoal known depth openGoals) tentative goal) rules before = (answer, after)
  | .noRule => .of_forall fun _ => rfl
  | .apart different later => by
    filter_upwards [later.eventually] with depth later
    rw [firstSuccess_of_none (proveByRule_of_none different), later]
  | .fails matched body later => by
    filter_upwards [body.eventually, later.eventually] with depth body later
    rw [firstSuccess_of_none (proveByRule_of_run matched body), later]
  | .proves matched body => by
    filter_upwards [body.eventually] with depth body
    exact firstSuccess_of_some (proveByRule_of_run matched body)

theorem BodyRun.eventually {openGoals : List Fact} {tentative : Bool} {negatives positives : List Atom} {bindings : Bindings}
    {before after : Memory} {answer : Option (List Proof × List Fact)} :
    BodyRun known allowed openGoals tentative negatives positives bindings before answer after → ∀ᶠ depth in atTop,
      proveBody known (proveGoal known depth openGoals) tentative negatives positives bindings before = (answer, after)
  | .negated run => by
    filter_upwards [run.eventually] with depth run
    exact bind_of_run run
  | .ground bound run => by
    filter_upwards [run.eventually] with depth run
    rw [proveBody_cons, bound]
    exact (firstSuccess_singleton _ _ _).symm.trans run
  | .free unbound run => by
    filter_upwards [run.eventually] with depth run
    rw [proveBody_cons, unbound]
    exact run

theorem ChoicesRun.eventually {openGoals : List Fact} {tentative : Bool} {negatives rest : List Atom} {pattern : Atom}
    {tried : List (Bindings × Bool)} {before after : Memory} {answer : Option (List Proof × List Fact)} :
    ChoicesRun known allowed openGoals tentative negatives pattern rest tried before answer after →
    ∀ᶠ depth in atTop, firstSuccess (fun choice => proveUnder known (proveGoal known depth openGoals) tentative negatives pattern rest
        choice.1 choice.2) tried before = (answer, after)
  | .noChoice => .of_forall fun _ => rfl
  | .unbound free later => by
    filter_upwards [later.eventually] with depth later
    refine (firstSuccess_of_none ?_).trans later
    exact proveUnder_of_none free
  | .unproven bound call later => by
    filter_upwards [call.eventually, later.eventually] with depth call later
    refine (firstSuccess_of_none ?_).trans later
    exact proveUnder_of_unproven bound call
  | .stuck bound call body later => by
    filter_upwards [call.eventually, body.eventually, later.eventually] with depth call body later
    refine (firstSuccess_of_none ?_).trans later
    exact proveUnder_of_run bound call body
  | .holds bound call body => by
    filter_upwards [call.eventually, body.eventually] with depth call body
    exact firstSuccess_of_some (proveUnder_of_run bound call body)

theorem AbsentRun.eventually {openGoals : List Fact} {tentative : Bool} {bindings : Bindings} {atoms : List Atom}
    {before after : Memory} {answer : Option (List Fact)} :
    AbsentRun known allowed openGoals tentative bindings atoms before answer after → ∀ᶠ depth in atTop,
      proveAbsent (proveGoal known depth openGoals tentative) bindings atoms before = (answer, after)
  | .noAtom => .of_forall fun _ => rfl
  | .nonground free => by
    refine .of_forall fun depth => ?_
    rw [proveAbsent, free]
    rfl
  | .present bound call => by
    filter_upwards [call.eventually] with depth call
    rw [proveAbsent, bound]
    exact bind_of_run call
  | .absent bound call later => by
    filter_upwards [call.eventually, later.eventually] with depth call later
    rw [proveAbsent, bound]
    exact (bind_of_run call).trans (bind_of_run later)

end

/-- Two runs of one search come to the same. -/
theorem GoalRun.unique {allowed' : List Fact → Prop} {openGoals : List Fact} {tentative : Bool} {goal : Fact}
    {before after after' : Memory} {answer answer' : Option Proof}
    (run : GoalRun known allowed openGoals tentative goal before answer after)
    (other : GoalRun known allowed' openGoals tentative goal before answer' after') : answer' = answer ∧ after' = after := by
  obtain ⟨depth, here, there⟩ := (run.eventually.and other.eventually).exists
  exact Prod.mk.inj (there.symm.trans here)

end Eventually

/-! ### Queries -/

/-- How a search is reported: by the proof that was found, by the first circle, or as the absence of a proof. -/
def told (answer : Option Proof) (memory : Memory) : Except InferError (Option Proof) :=
  match answer, memory.firstCycle with
  | some proof, _ => .ok (some proof)
  | none, some cycle => .error (.circularDependency cycle)
  | none, none => .ok none

theorem prove_eq_told {facts : FactSet} {rules : List Rule} {goal : Fact} {answer : Option Proof} {after : Memory}
    (run : proveGoal ⟨facts, rules⟩ (depthBound ⟨facts, rules⟩ goal) [] false goal ⟨[], [], none, 0⟩ = (answer, after)) :
    prove goal.toAtom facts rules = Rule.validateAll rules >>= fun _ => told answer after := by
  rw [prove, Atom.ground?_toAtom]
  dsimp only
  rw [run]
  obtain ⟨_, _, firstCycle, _⟩ := after
  cases answer <;> cases firstCycle <;> rfl

/-- Every query for a fact is answered, safe or not as the rules may be. The search comes to an end in the one
way it can, and the depth it is given is deep enough. The goals that are open at any time differ from one
another and are among the finitely many at hand, so that there are never more of them than that. -/
theorem prove_terminates (facts : FactSet) (rules : List Rule) (goal : Fact) :
    {fact | AtHand facts rules goal fact}.Finite ∧
    (∀ openGoals, Opened facts rules goal openGoals → openGoals.length ≤ {fact | AtHand facts rules goal fact}.ncard) ∧
    ∃ answer after,
      GoalRun ⟨facts, rules⟩ (Opened facts rules goal) [] false goal ⟨[], [], none, 0⟩ answer after ∧
      (∀ allowed answer' after', GoalRun ⟨facts, rules⟩ allowed [] false goal ⟨[], [], none, 0⟩ answer' after' →
        answer' = answer ∧ after' = after) ∧
      (∀ depth ≥ depthBound ⟨facts, rules⟩ goal,
        proveGoal ⟨facts, rules⟩ depth [] false goal ⟨[], [], none, 0⟩ = (answer, after)) ∧
      prove goal.toAtom facts rules = Rule.validateAll rules >>= fun _ => told answer after := by
  refine ⟨finite_atHand facts rules goal, fun openGoals => Opened.length_le, ?_⟩
  have covers : Rule.Covers ((Rule.vocabulary facts rules).insertAll goal.args).toList facts rules :=
    fun constant member => OrdSet.mem_insertAll.2 (.inr member)
  have overPool : goal.Over ((Rule.vocabulary facts rules).insertAll goal.args).toList :=
    fun constant member => OrdSet.mem_insertAll.2 (.inl member)
  have within (constant : String) (member : constant ∈ ((Rule.vocabulary facts rules).insertAll goal.args).toList) :=
    (OrdSet.mem_insertAll.1 (OrdSet.mem_toList.1 member)).symm
  have enough := length_instances_lt_depthBound facts rules goal
  have ends {depth : Nat} (deep : depthBound ⟨facts, rules⟩ goal ≤ depth) {answer : Option Proof} {after : Memory}
      (run : proveGoal ⟨facts, rules⟩ depth [] false goal ⟨[], [], none, 0⟩ = (answer, after)) :
      GoalRun ⟨facts, rules⟩ (Opened facts rules goal) [] false goal ⟨[], [], none, 0⟩ answer after :=
    goalRun_of_run covers within (.root overPool (enough.trans_le deep))
      (List.forall_mem_singleton.2 (atHand_query facts rules goal)) run
  have first := ends le_rfl rfl
  refine ⟨_, _, first, fun allowed answer' after' other => first.unique other, fun depth deep => ?_, prove_eq_told rfl⟩
  obtain ⟨answer, after⟩ := first.unique (ends deep rfl)
  exact Prod.ext answer after

end Deliberation.Backward
