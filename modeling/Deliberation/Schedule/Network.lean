import Deliberation.Schedule.Activity
import Deliberation.Schedule.Error

/-!
Networks of activities. Links lead from an activity to those that have to wait for it; a network has
no cycle, and it comes with an order in which every activity stands after its predecessors.
-/

namespace Deliberation

/-- Activities, called by their places, with the links between them and an order that follows the links. -/
structure Network where
  names : List String
  /-- The places of predecessor and successor, each pair once and in the order of declaration. -/
  links : List (Nat × Nat)
  order : List Nat

namespace Network

def size (network : Network) : Nat := network.names.length

def place? (network : Network) (name : String) : Option Nat := network.names.idxOf? name

/-- The activities that a link leads from to this one. -/
def predecessorsIn (links : List (Nat × Nat)) (i : Nat) : List Nat := (links.filter (·.2 = i)).map (·.1)

/-- The activities that a link leads to from this one. -/
def successorsIn (links : List (Nat × Nat)) (i : Nat) : List Nat := (links.filter (·.1 = i)).map (·.2)

def predecessors (network : Network) (i : Nat) : List Nat := predecessorsIn network.links i

def successors (network : Network) (i : Nat) : List Nat := successorsIn network.links i

/-- The activities met so far, and those that are done with, the latest first. -/
structure Walk where
  met : List Nat
  done : List Nat

/-- Walks to an activity and on along the links in order of place, and is done with each activity after all
that follow it. No path without repetition is longer than `depth`. -/
def explore (n : Nat) (links : List (Nat × Nat)) : (depth : Nat) → Walk → Nat → Walk
  | 0, walk, _ => walk
  | depth + 1, walk, i =>
    if i ∈ walk.met then walk
    else
      let after := (List.range n).filter fun j => (i, j) ∈ links
      let walk := after.foldl (explore n links depth) { walk with met := i :: walk.met }
      { walk with done := i :: walk.done }

/-- The activities from the one done with last to the one done with first. -/
def walkOrder (n : Nat) (links : List (Nat × Nat)) : List Nat :=
  ((List.range n).foldl (explore n links n) ⟨[], []⟩).done

/-- The first predecessor, along an order, that does not stand before its successor. -/
def misplaced? (links : List (Nat × Nat)) : (before order : List Nat) → Option Nat
  | _, [] => none
  | before, i :: rest =>
    match (predecessorsIn links i).find? (· ∉ before) with
    | some early => some early
    | none => misplaced? links (i :: before) rest

/-- Extends paths, each listed from its end, until one has a link back to its start; the shortest are extended
first, and no activity ends two paths, so as many steps as activities suffice. -/
def closePath (links : List (Nat × Nat)) (start : Nat) :
    (steps : Nat) → (met : List Nat) → (paths : List (List Nat)) → List Nat
  | 0, _, _ => [start]
  | _ + 1, _, [] => [start]
  | steps + 1, met, path :: paths =>
    let next := successorsIn links (path.headD start)
    if start ∈ next then (start :: path).reverse
    else
      let fresh := next.filter (· ∉ met)
      closePath links start steps (fresh ++ met) (paths ++ fresh.map (· :: path))

/-- A shortest cycle through an activity, which stands at both ends. -/
def cycleThrough (n : Nat) (links : List (Nat × Nat)) (start : Nat) : List Nat :=
  closePath links start n [] [[start]]

variable {R : Type}

/-- The places of declared links: those of the predecessor lists, then those declared apart. -/
def declaredLinks (activities : List (Activity R)) (precedence : List Precedence) :
    Except (ScheduleError R) (List (Nat × Nat)) := do
  let names := activities.map Activity.name
  let place (name source : String) : Except (ScheduleError R) Nat :=
    match names.idxOf? name with
    | some i => .ok i
    | none => .error (.unknownActivity name source)
  let own ← activities.flatMapM fun activity =>
    activity.predecessors.mapM fun before => do
      return (← place before activity.name, ← place activity.name activity.name)
  let apart ← precedence.mapM fun link => do
    return (← place link.before "PRECEDENCE", ← place link.after "PRECEDENCE")
  return (own ++ apart).eraseDups

/-- The network of activities with different names and links without a cycle. -/
def build (activities : List (Activity R)) (precedence : List Precedence) :
    Except (ScheduleError R) Network := do
  let names := activities.map Activity.name
  match firstRepeated? [] names with
  | some name => throw (.duplicateActivity name)
  | none => pure ()
  let links ← declaredLinks activities precedence
  let named (places : List Nat) : List String := places.map fun i => names.getD i ""
  match (List.range names.length).find? fun i => (i, i) ∈ links with
  | some i => throw (.cycle (named [i, i]))
  | none => pure ()
  let order := walkOrder names.length links
  match misplaced? links [] order with
  | some start => throw (.cycle (named (cycleThrough names.length links start)))
  | none => return ⟨names, links, order⟩

end Network

end Deliberation
