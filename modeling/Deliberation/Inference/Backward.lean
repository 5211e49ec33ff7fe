import Deliberation.Fact.Basic
import Deliberation.Rule.Basic

/-!
Backward chaining: a goal is proven when it is a fact, or when a rule concludes it whose positive
literals are proven from left to right and whose negated literals cannot be proven. A goal that
comes up while its own proof is open fails there, and the first such circle is remembered.
-/

namespace Deliberation

/-- A proof of a fact: it is asserted, or the named rule concludes it from proofs and from the absence of facts. -/
inductive Proof where
  | asserted (goal : Fact)
  | rule (goal : Fact) (label : String) (premises : List Proof) (absent : List Fact)

namespace Proof

def goal : Proof → Fact
  | .asserted goal => goal
  | .rule goal _ _ _ => goal

mutual

/-- How many rules follow one another on the longest branch. -/
def depth : Proof → Nat
  | .asserted _ => 0
  | .rule _ _ premises _ => 1 + greatestDepth premises

def greatestDepth : List Proof → Nat
  | [] => 0
  | proof :: rest => max proof.depth (greatestDepth rest)

end

mutual

/-- The goals of all nodes of a proof. -/
def goals : Proof → List Fact
  | .asserted goal => [goal]
  | .rule goal _ premises _ => goal :: goalsOf premises

def goalsOf : List Proof → List Fact
  | [] => []
  | proof :: rest => proof.goals ++ goalsOf rest

end

/-- The facts that a proof proves on its way. -/
def facts (proof : Proof) : FactSet := .ofList proof.goals

end Proof

namespace Backward

/-- What a search for a proof works with. -/
structure Knowledge where
  facts : FactSet
  rules : List Rule

/-- What a search remembers: proofs found, goals that failed without meeting a circle, the first circle, and
how often one was met. -/
structure Memory where
  proven : List (Fact × Proof)
  refuted : List Fact
  firstCycle : Option (List Fact)
  cyclesMet : Nat

/-- A step of the search, which changes what is remembered. -/
abbrev Search := StateM Memory

/-- A prover of goals under the goals whose proofs are open; a tentative goal comes from a mere guess of constants. -/
abbrev GoalProver := (openGoals : List Fact) → (tentative : Bool) → Fact → Search (Option Proof)

/-- Every way to extend bindings by constants of `pool` for some variables, the last variable changing fastest. -/
def groundings (pool : List String) : List String → Bindings → List Bindings
  | [], bindings => [bindings]
  | name :: names, bindings =>
    if bindings.contains name then groundings pool names bindings
    else pool.flatMap fun constant => groundings pool names (bindings.insert name constant)

/-- The bindings to try for an atom with free variables, each marked when it is a mere guess: those that make
it a fact or a rule's consequent without variables, and, when a consequent with variables concludes its
predicate, every other choice of constants. -/
def candidates (known : Knowledge) (pattern : Atom) (bindings : Bindings) : List (Bindings × Bool) :=
  let heads := (Rule.concluding known.rules pattern.predicate).map fun (rule, _) => rule.consequent
  let stated := known.facts.withPredicate pattern.predicate ++ heads.filterMap (·.ground? .empty)
  let matching := (stated.filterMap (pattern.match? · bindings)).eraseDups
  let guessing := heads.any fun head => (head.ground? .empty).isNone && head.arity == pattern.arity
  let guesses :=
    if guessing then
      (groundings (Rule.vocabulary known.facts known.rules).toList pattern.vars bindings).filter
        fun grounding => !matching.contains grounding
    else []
  matching.map (·, false) ++ guesses.map (·, true)

/-- Whether every atom is ground and cannot be proven; the facts found absent, in order. -/
def proveAbsent (proveGoal : Fact → Search (Option Proof)) (bindings : Bindings) : List Atom → Search (Option (List Fact))
  | [] => pure (some [])
  | atom :: rest => do
    match atom.ground? bindings with
    | none => pure none
    | some fact =>
      match ← proveGoal fact with
      | some _ => pure none
      | none => return (← proveAbsent proveGoal bindings rest).map (fact :: ·)

/-- The first candidate under which `attempt` succeeds. -/
def firstSuccess {α β : Type} (attempt : α → Search (Option β)) : List α → Search (Option β)
  | [] => pure none
  | candidate :: rest => do
    match ← attempt candidate with
    | some found => pure (some found)
    | none => firstSuccess attempt rest

/-- Proofs of positive literals from left to right, then the absence of the negated ones. A literal without
free variables has one proof and no alternative; one with free variables is tried under each candidate. -/
def proveBody (known : Knowledge) (proveGoal : Bool → Fact → Search (Option Proof)) (tentative : Bool)
    (negatives : List Atom) : List Atom → Bindings → Search (Option (List Proof × List Fact))
  | [], bindings => return (← proveAbsent (proveGoal tentative) bindings negatives).map ([], ·)
  | atom :: rest, bindings => do
    let pattern := atom.substitute bindings
    let proveUnder (extended : Bindings) (guess : Bool) : Search (Option (List Proof × List Fact)) := do
      match pattern.ground? extended with
      | none => pure none
      | some fact =>
        match ← proveGoal (tentative || guess) fact with
        | none => pure none
        | some proof =>
          return (← proveBody known proveGoal tentative negatives rest extended).map
            fun (premises, absent) => (proof :: premises, absent)
    match pattern.ground? bindings with
    | some _ => proveUnder bindings false
    | none =>
      firstSuccess (fun (extended, guess) => proveUnder extended guess) (candidates known pattern bindings)

/-- The proof of a goal by one rule. -/
def proveByRule (known : Knowledge) (proveGoal : Bool → Fact → Search (Option Proof)) (tentative : Bool) (goal : Fact)
    (candidate : Rule × Nat) : Search (Option Proof) := do
  let (rule, place) := candidate
  match rule.consequent.match? goal .empty with
  | none => pure none
  | some bindings =>
    return (← proveBody known proveGoal tentative rule.negatives rule.positives bindings).map
      fun (premises, absent) => .rule goal (rule.label place) premises absent

/-- Remembers that a goal came up while its own proof is open; a circle below a guess is counted but not kept. -/
def meetCycle (openGoals : List Fact) (tentative : Bool) (goal : Fact) (memory : Memory) : Memory :=
  { memory with
    cyclesMet := memory.cyclesMet + 1
    firstCycle :=
      match memory.firstCycle with
      | some cycle => some cycle
      | none =>
        if tentative then none
        else some (goal :: (openGoals.takeWhile (· ≠ goal)).reverse ++ [goal]) }

/-- Remembers the outcome of a goal; a failure counts for later only if no circle was met on the way. -/
def conclude (cyclesBefore : Nat) (goal : Fact) (found : Option Proof) (memory : Memory) : Memory :=
  match found with
  | some proof => { memory with proven := (goal, proof) :: memory.proven }
  | none =>
    if memory.cyclesMet = cyclesBefore then { memory with refuted := goal :: memory.refuted } else memory

/-- The proof of a goal, where `openGoals` are those whose proofs are open, innermost first. Open goals differ
from one another, so `depth` bounds how far proofs nest. -/
def proveGoal (known : Knowledge) : (depth : Nat) → GoalProver
  | 0, _, _, _ => pure none
  | depth + 1, openGoals, tentative, goal => do
    if goal ∈ known.facts then return some (.asserted goal)
    let memory ← get
    match memory.proven.lookup goal with
    | some proof => return some proof
    | none =>
      if goal ∈ memory.refuted then return none
      -- The memory is asked first: a goal that is known meets no circle.
      if goal ∈ openGoals then
        modify (meetCycle openGoals tentative goal)
        return none
      let found ← firstSuccess
        (proveByRule known (proveGoal known depth (goal :: openGoals)) tentative goal)
        (Rule.concluding known.rules goal.predicate)
      modify (conclude memory.cyclesMet goal found)
      return found

/-- How far proofs nest at most: one goal for each instance of a consequent over the constants at hand, and
one that no rule concludes. -/
def depthBound (known : Knowledge) (goal : Fact) : Nat :=
  let constants := ((Rule.vocabulary known.facts known.rules).insertAll goal.args).size
  known.rules.foldl (fun n rule => n + Nat.pow constants rule.consequent.vars.length) 2

/-- The proof of a query from facts and rules, or nothing when there is none. When a circle stood in its way,
that is an error. -/
def prove (query : Atom) (facts : FactSet) (rules : List Rule) : Except InferError (Option Proof) := do
  Rule.validateAll rules
  match query.ground? .empty with
  | none => .error (.openQuery query)
  | some goal =>
    let known : Knowledge := ⟨facts, rules⟩
    match proveGoal known (depthBound known goal) [] false goal ⟨[], [], none, 0⟩ with
    | (some proof, _) => .ok (some proof)
    | (none, memory) =>
      match memory.firstCycle with
      | some cycle => .error (.circularDependency cycle)
      | none => .ok none

end Backward

end Deliberation
