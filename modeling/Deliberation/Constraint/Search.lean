import Deliberation.Constraint.Basic
import Deliberation.NameMap

/-!
Search for an assignment with forward checking. A value that cannot be part of an assignment is
dead. Deaths that depend on the values chosen so far are on a trail; a frame of the search knows how
long the trail was when it was opened, and its deaths are undone before it tries another value.
-/

namespace Deliberation

/-- Which variable takes a value next: the one with fewest live values, of these the one with most
constraints, or the first. -/
inductive VariableOrder where
  | mostConstrained
  | declaration
  deriving DecidableEq, Repr

/-- When a search ends: at the first assignment, after a number of them, or when no better one is left. -/
inductive SolveStrategy where
  | firstSolution
  | bestOf (n : Nat)
  | branchAndBound
  deriving DecidableEq, Repr

/-- How to search, and how many values to try at most. -/
structure SolveOptions where
  order : VariableOrder
  strategy : SolveStrategy
  nodeBudget : Nat
  deriving DecidableEq, Repr

def SolveOptions.standard : SolveOptions := ⟨.mostConstrained, .branchAndBound, 1000000⟩

namespace ConstraintSearch

variable {R : Type} [Scalar R]

/-- A constraint and the places of its variables. -/
structure Placed (R : Type) where
  constraint : Constraint R
  places : List Nat

/-- A constraint problem in which variables have places and domains are lists of values. -/
structure Problem (R : Type) where
  names : List String
  places : NameMap Nat
  values : Array (Array (Value R))
  hard : List (Placed R)
  soft : List (Placed R)

def Problem.of (vars : List (Variable R)) (hard soft : List (Constraint R)) :
    Except (SolveError R) (Problem R) := do
  let names := vars.map Variable.name
  let places := NameMap.ofList names.zipIdx
  let values ← vars.mapM fun v => v.domain.expand v.name
  let place (c : Constraint R) : Placed R := ⟨c, c.vars.filterMap places.get?⟩
  return ⟨names, places, (values.map List.toArray).toArray, hard.map place, soft.map place⟩

/-- Which values are alive, which value each variable has, and the deaths to be undone, the latest last. -/
structure State where
  alive : Array (Array Bool)
  assigned : Array (Option Nat)
  trail : Array (Nat × Nat)

namespace State

def isAlive (state : State) (place value : Nat) : Bool :=
  ((state.alive[place]?).bind (·[value]?)).getD false

def liveCount (state : State) (place : Nat) : Nat :=
  ((state.alive[place]?).map (·.count true)).getD 0

/-- The values of a variable with one of them alive or dead. -/
def mark (alive : Array (Array Bool)) (live : Bool) (death : Nat × Nat) : Array (Array Bool) :=
  alive.modify death.1 (·.setIfInBounds death.2 live)

/-- Kills a value until the trail is undone. -/
def prune (state : State) (place value : Nat) : State :=
  { state with alive := mark state.alive false (place, value), trail := state.trail.push (place, value) }

/-- Undoes the deaths after the first `length` of the trail. -/
def undo (state : State) (length : Nat) : State :=
  { state with
    alive := (state.trail.extract length state.trail.size).foldl (mark · true ·) state.alive
    trail := state.trail.extract 0 length }

/-- Gives a variable a value, or takes it away. -/
def assign (state : State) (place : Nat) (value : Option Nat) : State :=
  { state with assigned := state.assigned.setIfInBounds place value }

def isOpen (state : State) (place : Nat) : Bool := ((state.assigned[place]?).getD none).isNone

end State

/-- The state before anything is tried: every value is alive and no variable has one. -/
def Problem.start (problem : Problem R) : State :=
  ⟨problem.values.map fun values => Array.replicate values.size true,
    Array.replicate problem.values.size none, #[]⟩

def Problem.domainSize (problem : Problem R) (place : Nat) : Nat :=
  ((problem.values[place]?).map Array.size).getD 0

def Problem.value? (problem : Problem R) (place value : Nat) : Option (Value R) :=
  (problem.values[place]?).bind (·[value]?)

/-- The values that the variables have. -/
def Problem.env (problem : Problem R) (assigned : Array (Option Nat)) : Env R := fun name => do
  let place ← problem.places.get? name
  let value ← (assigned[place]?).getD none
  problem.value? place value

def Placed.holds (c : Placed R) (problem : Problem R) (state : State) : Except Abort Bool := do
  return (← c.constraint.holds (problem.env state.assigned)) == some true

/-- Whether a constraint holds when a variable has each of its values in turn. -/
def Placed.verdicts (c : Placed R) (problem : Problem R) (state : State) (place : Nat) : Except Abort (List Bool) :=
  (List.range (problem.domainSize place)).mapM fun value => c.holds problem (state.assign place (some value))

/-- Kills for good the values of a variable that fail. -/
def keepOnly (state : State) (place : Nat) (verdicts : List Bool) : State :=
  { state with alive := state.alive.modify place fun alive => alive.zipWith (· && ·) verdicts.toArray }

/-- Kills the values that a constraint on one variable excludes; nothing when a variable has none left, or a
constraint on no variable fails. -/
def nodeConsistent (problem : Problem R) : List (Placed R) → State → Except Abort (Option State)
  | [], state => .ok (some state)
  | c :: rest, state => do
    match c.places with
    | [] => if ← c.holds problem state then nodeConsistent problem rest state else return none
    | [place] =>
      let next := keepOnly state place (← c.verdicts problem state place)
      if next.liveCount place = 0 then return none else nodeConsistent problem rest next
    | _ => nodeConsistent problem rest state

def Problem.hardOf (problem : Problem R) (place : Nat) : List (Placed R) :=
  problem.hard.filter (·.places.contains place)

/-- How many constraints mention a variable beside another one. -/
def Problem.degree (problem : Problem R) (place : Nat) : Nat :=
  (problem.hard ++ problem.soft).countP fun c => 1 < c.places.length && c.places.contains place

/-- Whether a variable is chosen before another: it has fewer live values, or as many and a greater degree, or
comes first. -/
def Problem.precedes (problem : Problem R) (state : State) (a b : Nat) : Bool :=
  let (liveA, liveB) := (state.liveCount a, state.liveCount b)
  let (degreeA, degreeB) := (problem.degree a, problem.degree b)
  liveA < liveB || (liveA == liveB && (degreeB < degreeA || (degreeA == degreeB && a < b)))

def Problem.select (problem : Problem R) (order : VariableOrder) (state : State) : Option Nat :=
  match (List.range problem.values.size).filter state.isOpen with
  | [] => none
  | first :: rest =>
    match order with
    | .declaration => some first
    | .mostConstrained => some (rest.foldl (fun best v => if problem.precedes state v best then v else best) first)

/-- Whether every constraint holds whose variables all have values. -/
def consistent (problem : Problem R) (state : State) : List (Placed R) → Except Abort Bool
  | [] => .ok true
  | c :: rest => do
    if c.places.any state.isOpen then consistent problem state rest
    else if ← c.holds problem state then consistent problem state rest
    else return false

/-- Kills the live values of a variable, from `value` on, under which a constraint fails. -/
def pruneValues (problem : Problem R) (c : Placed R) (place : Nat) : (remaining value : Nat) → State →
    Except Abort State
  | 0, _, state => .ok state
  | remaining + 1, value, state => do
    if !state.isAlive place value then pruneValues problem c place remaining (value + 1) state
    else if ← c.holds problem (state.assign place (some value)) then
      pruneValues problem c place remaining (value + 1) state
    else pruneValues problem c place remaining (value + 1) (state.prune place value)

/-- Kills the values that constraints exclude for the only variable that they leave open, and tells whether
each such variable has a live value left. -/
def forwardCheck (problem : Problem R) : List (Placed R) → State → Except Abort (Bool × State)
  | [], state => .ok (true, state)
  | c :: rest, state => do
    match c.places.filter state.isOpen with
    | [place] =>
      let next ← pruneValues problem c place (problem.domainSize place) 0 state
      if next.liveCount place = 0 then return (false, next) else forwardCheck problem rest next
    | _ => forwardCheck problem rest state

/-- The weighted constraints that fail for the values that the variables have. -/
def failing (problem : Problem R) (state : State) : List (Placed R) → Except Abort (List (Constraint R))
  | [] => .ok []
  | c :: rest => do
    let verdict ← c.constraint.holds (problem.env state.assigned)
    let others ← failing problem state rest
    return if verdict == some false then c.constraint :: others else others

def softCost (problem : Problem R) (state : State) : Except Abort R := do
  return Scalar.sum ((← failing problem state problem.soft).map Constraint.weight)

def Problem.assignment (problem : Problem R) (state : State) : Assignment R :=
  problem.names.zipIdx.filterMap fun (name, place) => do
    let value ← (state.assigned[place]?).getD none
    return (name, ← problem.value? place value)

/-- A variable that is given one value after another, the next value to try, and the length of the trail
before it had any. -/
structure Frame where
  place : Nat
  next : Nat
  mark : Nat

/-- Where a search stands: its frames, the innermost first, the best assignment met, how many were met, and
how many values were tried. -/
structure Progress (R : Type) where
  state : State
  frames : List Frame
  best : Option (Solution R)
  seen : Nat
  nodes : Nat

/-- How a search ends: with the best assignment, with the proof that there is none, or at its budget. -/
inductive Outcome (R : Type) where
  | found (solution : Solution R)
  | exhausted (nodes : Nat)
  | overBudget (best : Option (Solution R))

/-- What comes of trying values for one variable. -/
inductive Attempt (R : Type) where
  | advanced (progress : Progress R)
  | failed (progress : Progress R)
  | overBudget (best : Option (Solution R))

/-- Whether the cost of a state is below that of the best assignment, where only better ones are looked for. -/
def withinBound (problem : Problem R) (options : SolveOptions) (progress : Progress R) (state : State) :
    Except Abort Bool := do
  match options.strategy, progress.best with
  | .branchAndBound, some best => return (← softCost problem state) < best.cost
  | _, _ => return true

/-- Tries the live values of a variable from `value` on, until one passes all checks. -/
def tryValues (problem : Problem R) (options : SolveOptions) (place mark : Nat) (frames : List Frame) :
    (remaining value : Nat) → Progress R → Except Abort (Attempt R)
  | 0, _, progress => .ok (.failed { progress with frames := frames })
  | remaining + 1, value, progress => do
    if !progress.state.isAlive place value then
      tryValues problem options place mark frames remaining (value + 1) progress
    else
      let progress := { progress with nodes := progress.nodes + 1 }
      if options.nodeBudget < progress.nodes then return .overBudget progress.best
      else
        let state := progress.state.assign place (some value)
        let bounded ← withinBound problem options progress state
        -- The constraints are judged even where the bound excludes the value: judging may stop the search.
        let (passed, state) ←
          if !(← consistent problem state (problem.hardOf place)) || !bounded then pure (false, state)
          else forwardCheck problem (problem.hardOf place) state
        if passed then
          return .advanced { progress with state, frames := ⟨place, value + 1, mark⟩ :: frames }
        else
          tryValues problem options place mark frames remaining (value + 1)
            { progress with state := (state.undo mark).assign place none }

/-- The innermost frame takes its next value, after what its last one led to is undone. -/
def advance (problem : Problem R) (options : SolveOptions) (frame : Frame) (frames : List Frame)
    (progress : Progress R) : Except Abort (Attempt R) :=
  tryValues problem options frame.place frame.mark frames (problem.domainSize frame.place - frame.next) frame.next
    { progress with state := (progress.state.undo frame.mark).assign frame.place none }

/-- Takes note of an assignment, and keeps it if it costs less than the best one. -/
def record (problem : Problem R) (progress : Progress R) : Except Abort (Progress R) := do
  let failures ← failing problem progress.state problem.soft
  let cost := Scalar.sum (failures.map Constraint.weight)
  let seen := progress.seen + 1
  let better := match progress.best with
    | none => true
    | some best => cost < best.cost
  let best := if better then
      some ⟨problem.assignment progress.state, cost, failures.map Constraint.name, progress.nodes, seen⟩
    else progress.best
  return { progress with best, seen }

/-- Whether a search is over after an assignment: there are enough of them, or none can cost less. -/
def isOver (options : SolveOptions) (progress : Progress R) : Bool :=
  let enough := match options.strategy with
    | .firstSolution => 1 ≤ progress.seen
    | .bestOf n => max 1 n ≤ progress.seen
    | .branchAndBound => false
  let free := match progress.best with
    | some best => decide (best.cost ≤ 0)
    | none => false
  enough || free

def Progress.outcome (progress : Progress R) : Outcome R :=
  match progress.best with
  | some best => .found { best with nodes := progress.nodes }
  | none => .exhausted progress.nodes

/-- Opens a frame for the next variable; nothing when the search is over because every variable has a value. -/
def descend (problem : Problem R) (options : SolveOptions) (progress : Progress R) :
    Except Abort (Bool × Progress R) := do
  match problem.select options.order progress.state with
  | some place =>
    return (false, { progress with frames := ⟨place, 0, progress.state.trail.size⟩ :: progress.frames })
  | none =>
    let progress ← record problem progress
    return (isOver options progress, progress)

/-- Turns of the search until it ends. In each turn the innermost frame finds a value that passes, and the
search descends in the next turn, or it is closed. -/
def run (problem : Problem R) (options : SolveOptions) : (turns : Nat) → (descends : Bool) → Progress R →
    Except Abort (Outcome R)
  | 0, _, progress => .ok progress.outcome
  | turns + 1, descends, progress => do
    let (ended, progress) ← if descends then descend problem options progress else pure (false, progress)
    if ended then return progress.outcome
    else
      match progress.frames with
      | [] => return progress.outcome
      | frame :: frames =>
        match ← advance problem options frame frames progress with
        | .advanced progress => run problem options turns true progress
        | .failed progress => run problem options turns false progress
        | .overBudget best => return .overBudget (best.map fun best => { best with nodes := options.nodeBudget })

/-- How many turns a search takes at most: each turn that descends afterwards has tried a value, and every
frame is closed once. -/
def turnBound (options : SolveOptions) : Nat := 2 * options.nodeBudget + 4

def search (problem : Problem R) (options : SolveOptions) : Except Abort (Outcome R) := do
  match ← nodeConsistent problem problem.hard problem.start with
  | none => return .exhausted 0
  | some state => run problem options (turnBound options) true ⟨state, [], none, 0, 0⟩

end ConstraintSearch

end Deliberation
