import Deliberation.Expr.Value
import Deliberation.NameMap
import Deliberation.Schedule.CriticalPath

/-!
Leveling: activities are placed one after another, each as early as its predecessors, the capacities,
the activities that share no time and the horizon allow. Of those whose predecessors are placed, the
one that has to start first comes next.
-/

namespace Deliberation

/-- When an activity runs, and by how much its start can move without delaying what follows. -/
structure Placement (R : Type) where
  start : R
  finish : R
  duration : R
  slack : R

/-- A schedule that respects the capacities. -/
structure Leveled (R : Type) where
  placements : List (Placement R)
  makespan : R
  consumption : NameMap R

namespace Leveling

variable {R : Type} [Scalar R]

/-- What has to be placed, on which resources, and until when. -/
structure Workload (R : Type) where
  activities : List (Activity R)
  resources : List (Resource R)
  network : Network
  path : CriticalPath R
  horizon : R

/-- The resource of a name; where there are several, the first. -/
def Workload.resource? (load : Workload R) (name : String) : Option (Resource R) :=
  load.resources.find? (·.name = name)

structure Placed (R : Type) where
  index : Nat
  activity : Activity R
  start : R
  finish : R

/-- Whether an interval is longer than the tolerance. -/
def isLong (start finish : R) : Bool := decide (tolerance < finish - start)

def Placed.isActive (placed : Placed R) (time : R) : Bool :=
  isLong placed.start placed.finish && decide (placed.start ≤ time + tolerance) &&
    decide (time < placed.finish - tolerance)

/-- Whether an activity shares an interval of time. -/
def Placed.overlaps (placed : Placed R) (start finish : R) : Bool :=
  isLong placed.start placed.finish && isLong start finish && decide (placed.start < finish - tolerance) &&
    decide (start < placed.finish - tolerance)

/-- The activities placed so far, in order, and how much of the resources that are there once is gone. -/
structure Progress (R : Type) where
  placed : List (Placed R)
  consumption : NameMap R

def Progress.find? (progress : Progress R) (i : Nat) : Option (Placed R) :=
  progress.placed.find? (·.index = i)

/-- The activity to place next: its predecessors are placed, and it has to start first. -/
def next? (load : Workload R) (progress : Progress R) : Option Nat :=
  let isPlaced (i : Nat) : Bool := (progress.find? i).isSome
  Scalar.leastBy? (fun i => (load.path.timings[i]?.map Timing.latestStart).getD 0)
    ((List.range load.activities.length).filter fun i =>
      !isPlaced i && (load.network.predecessors i).all isPlaced)

/-- When all predecessors of an activity have finished. -/
def readyTime (load : Workload R) (progress : Progress R) (i : Nat) : R :=
  CriticalPath.latest ((load.network.predecessors i).filterMap fun p => (progress.find? p).map Placed.finish)

/-- The conflict of an activity that needs more than all of a renewable resource. -/
def excess? (load : Workload R) (activity : Activity R) (ready : R) : Option (ScheduleConflict R) :=
  activity.totals.findSome? fun (name, requested) => do
    let resource ← load.resource? name
    if resource.renewable ∧ resource.capacity + tolerance < requested then
      some (.capacity name activity.name ready requested resource.capacity)
    else none

/-- Times without those within the tolerance of the one kept before them. -/
def thinAfter (last : R) : List R → List R
  | [] => []
  | time :: rest =>
    if Scalar.abs (time - last) ≤ tolerance then thinAfter last rest else time :: thinAfter time rest

/-- Times without those within the tolerance of one before them. -/
def thin : List R → List R
  | [] => []
  | time :: rest => time :: thinAfter time rest

/-- The times at which a start is tried: when the activity is ready, and when others finish after that. -/
def candidates (placed : List (Placed R)) (ready : R) : List R :=
  thin (Scalar.sort (ready :: (placed.map Placed.finish).filter (ready < ·)))

/-- The first activity that shares an interval and must share it with none, on either side. -/
def exclusion? (placed : List (Placed R)) (activity : Activity R) (start finish : R) :
    Option (ScheduleConflict R) :=
  (placed.find? fun other => other.overlaps start finish && (!other.activity.parallel || !activity.parallel)).map
    fun other => .exclusive activity.name other.activity.name (Scalar.max other.start start)

/-- How much of a resource is in use at a time. -/
def usage (placed : List (Placed R)) (name : String) (time : R) : R :=
  Scalar.sum ((placed.filter (·.isActive time)).filterMap fun other => other.activity.totals.lookup name)

/-- The first resource, and the first time, at which an activity would need more than there is. Use only rises
when an activity starts, so only starts are looked at. -/
def overload? (load : Workload R) (placed : List (Placed R)) (activity : Activity R) (start finish : R) :
    Option (ScheduleConflict R) :=
  let starts := (placed.map Placed.start).filter fun time => start < time && time < finish - tolerance
  let times := Scalar.sort (start :: starts)
  activity.totals.findSome? fun (name, requested) => do
    let resource ← load.resource? name
    if resource.renewable then
      times.findSome? fun time =>
        let needed := usage placed name time + requested
        if resource.capacity + tolerance < needed then
          some (.capacity name activity.name time needed resource.capacity)
        else none
    else none

/-- What keeps an activity from starting at a time; nothing keeps one that takes no time. -/
def blocking? (load : Workload R) (placed : List (Placed R)) (activity : Activity R) (start : R) :
    Option (ScheduleConflict R) :=
  let finish := start + activity.duration
  if finish - start ≤ tolerance then none
  else (exclusion? placed activity start finish).or (overload? load placed activity start finish)

/-- The first of the times at which an activity can start. Where none is, the first thing that kept it from
starting is the conflict, or the horizon. -/
def firstStart (load : Workload R) (placed : List (Placed R)) (activity : Activity R) (ready : R) :
    (blocked : Option (ScheduleConflict R)) → List R → Except (ScheduleConflict R) R
  | blocked, [] => .error (blocked.getD (.horizon activity.name ready load.horizon))
  | blocked, time :: rest =>
    if load.horizon + tolerance < time + activity.duration then
      .error (blocked.getD (.horizon activity.name time load.horizon))
    else
      match blocking? load placed activity time with
      | none => .ok time
      | some conflict => firstStart load placed activity ready (blocked.or (some conflict)) rest

/-- Takes what an activity needs of the resources that are there once. -/
def consume (load : Workload R) (activity : Activity R) (consumption : NameMap R) :
    Except (ScheduleConflict R) (NameMap R) :=
  activity.totals.foldlM (fun consumption (name, requested) =>
    match load.resource? name with
    | none => .ok consumption
    | some resource =>
      if resource.renewable then .ok consumption
      else
        let used := (consumption.get? name).getD 0
        if resource.capacity + tolerance < used + requested then
          .error (.exhausted name activity.name used requested resource.capacity)
        else .ok (consumption.insert name (used + requested))) consumption

def place (load : Workload R) (progress : Progress R) (i : Nat) (activity : Activity R) :
    Except (ScheduleConflict R) (Progress R) := do
  let ready := readyTime load progress i
  match excess? load activity ready with
  | some conflict => throw conflict
  | none => pure ()
  let start ← firstStart load progress.placed activity ready none (candidates progress.placed ready)
  let consumption ← consume load activity progress.consumption
  return ⟨progress.placed ++ [⟨i, activity, start, start + activity.duration⟩], consumption⟩

/-- Places activities as long as there is one to place, as many as `steps` at most. -/
def placeAll (load : Workload R) : (steps : Nat) → Progress R → Except (ScheduleConflict R) (Progress R)
  | 0, progress => .ok progress
  | steps + 1, progress => do
    match next? load progress with
    | none => return progress
    | some i =>
      match load.activities[i]? with
      | none => return progress
      | some activity => placeAll load steps (← place load progress i activity)

/-- The time of an activity, and how long what follows it can wait. -/
def placement (load : Workload R) (progress : Progress R) (makespan : R) (activity : Activity R) (i : Nat) :
    Placement R :=
  let (start, finish) :=
    match progress.find? i with
    | some placed => (placed.start, placed.finish)
    | none => (0, activity.duration)
  let followers := (load.network.successors i).filterMap fun s => (progress.find? s).map Placed.start
  let slack := CriticalPath.earliest makespan followers - finish
  ⟨start, finish, activity.duration, if slack ≤ tolerance then 0 else slack⟩

/-- The schedule of a workload. -/
def Workload.level (load : Workload R) : Except (ScheduleConflict R) (Leveled R) := do
  let unused := (load.resources.filter (!·.renewable)).map fun resource => (resource.name, 0)
  let progress ← placeAll load load.activities.length ⟨[], .ofList unused⟩
  let makespan := CriticalPath.latest (progress.placed.map Placed.finish)
  return {
    placements := load.activities.zipIdx.map fun (activity, i) => placement load progress makespan activity i
    makespan
    consumption := progress.consumption }

end Leveling

variable {R : Type} [Scalar R]

/-- The schedule of activities on resources, until a horizon or until as late as one activity after another
would take. -/
def level (activities : List (Activity R)) (resources : List (Resource R)) (network : Network)
    (path : CriticalPath R) (horizon : Option R) : Except (ScheduleError R) (Leveled R) :=
  let limit := horizon.getD (Scalar.sum (activities.map Activity.duration))
  (Leveling.Workload.level ⟨activities, resources, network, path, limit⟩).mapError .infeasible

/-- The names under which expressions speak of a schedule: start, finish, duration and slack of each activity,
and the makespan. -/
def Leveled.metrics (leveled : Leveled R) (activities : List (Activity R)) : NameMap (Value R) :=
  let entries := (activities.zip leveled.placements).flatMap fun (activity, placement) =>
    [("start." ++ activity.name, .num placement.start), ("finish." ++ activity.name, .num placement.finish),
      ("duration." ++ activity.name, .num placement.duration), ("slack." ++ activity.name, .num placement.slack)]
  .ofList (entries ++ [("makespan", .num leveled.makespan)])

end Deliberation
