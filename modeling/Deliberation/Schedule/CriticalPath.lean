import Deliberation.Schedule.Network

/-!
Critical paths: how early and how late each activity of a network may start when none waits longer
than it has to, and the chains of activities that leave no room.
-/

namespace Deliberation

/-- The times between which an activity moves without delaying the end, and by how much it may move. -/
structure Timing (R : Type) where
  earliestStart : R
  earliestFinish : R
  latestStart : R
  latestFinish : R
  slack : R

/-- The times of all activities, and when the last one finishes. -/
structure CriticalPath (R : Type) where
  makespan : R
  timings : List (Timing R)

variable {R : Type} [Scalar R]

/-- An activity is critical when it cannot move. -/
def Timing.isCritical (timing : Timing R) : Bool := Scalar.abs timing.slack ≤ tolerance

namespace CriticalPath

/-- The greatest of numbers and zero. -/
def latest (times : List R) : R := times.foldl Scalar.max 0

/-- The smallest of numbers and a bound. -/
def earliest (bound : R) (times : List R) : R := times.foldl Scalar.min bound

/-- An activity starts earliest when its last predecessor finishes. -/
def earliestStart (network : Network) (finishes : List R) (i : Nat) : R :=
  latest ((network.predecessors i).map (finishes.getD · 0))

/-- An activity finishes latest when its first successor has to start, or else with the last one. -/
def latestFinish (network : Network) (makespan : R) (starts : List R) (i : Nat) : R :=
  earliest makespan ((network.successors i).map (starts.getD · 0))

/-- The earliest finishes, found along the order. -/
def earliestFinishes (network : Network) (durations : List R) : List R :=
  network.order.foldl
    (fun finishes i => finishes.set i (earliestStart network finishes i + durations.getD i 0))
    (List.replicate network.size 0)

/-- The latest starts, found against the order. -/
def latestStarts (network : Network) (durations : List R) (makespan : R) : List R :=
  network.order.reverse.foldl
    (fun starts i => starts.set i (latestFinish network makespan starts i - durations.getD i 0))
    (List.replicate network.size 0)

/-- Zero for what is not farther from zero than the tolerance. -/
def settle (slack : R) : R := if Scalar.abs slack ≤ tolerance then 0 else slack

/-- The times of a network under given durations. -/
def analyze (network : Network) (durations : List R) : CriticalPath R :=
  let finishes := earliestFinishes network durations
  let makespan := latest finishes
  let starts := latestStarts network durations makespan
  let timing (i : Nat) : Timing R :=
    let start := earliestStart network finishes i
    let lateStart := starts.getD i 0
    ⟨start, finishes.getD i 0, lateStart, latestFinish network makespan starts i, settle (lateStart - start)⟩
  ⟨makespan, (List.range network.size).map timing⟩

def critical (path : CriticalPath R) : List Nat :=
  (path.timings.zipIdx.filter fun (timing, _) => timing.isCritical).map (·.2)

/-- The most chains that are listed. -/
def greatestChainCount : Nat := 64

/-- Whether a critical activity starts just when another one finishes. -/
def tight (path : CriticalPath R) (i j : Nat) : Bool :=
  match path.timings[i]?, path.timings[j]? with
  | some first, some second =>
    second.isCritical && decide (Scalar.abs (second.earliestStart - first.earliestFinish) ≤ tolerance)
  | _, _ => false

/-- Adds the chains that go on from a path, listed from its end, to those found before, until there are
enough. No chain has more than `length` activities more. -/
def extend (path : CriticalPath R) (network : Network) :
    (length : Nat) → (found : List (List Nat)) → (chain : List Nat) → List (List Nat)
  | 0, found, _ => found
  | length + 1, found, chain =>
    if greatestChainCount ≤ found.length then found
    else
      match (network.successors (chain.headD 0)).filter (path.tight (chain.headD 0)) with
      | [] => found ++ [chain.reverse]
      | next => next.foldl (fun found j => extend path network length found (j :: chain)) found

/-- The chains of critical activities without a gap, from a start at zero to an end, in order of declaration. -/
def chains (path : CriticalPath R) (network : Network) : List (List Nat) :=
  let starts := path.critical.filter fun i =>
    match path.timings[i]? with
    | some timing => decide (Scalar.abs timing.earliestStart ≤ tolerance)
    | none => false
  starts.foldl (fun found i => path.extend network network.size found [i]) []

end CriticalPath

end Deliberation
