import Deliberation.NameMap
import Deliberation.Schedule.CriticalPath
import Deliberation.Schedule.Distribution

/-!
Simulation: the critical path under many draws of random durations. Each trial draws from a stream of
its own, so what one trial gives does not hang on the others.
-/

namespace Deliberation

/-- How many trials, from which seed, whether they may run side by side, and how many bins of the histogram. -/
structure SimulationOptions where
  trials : Nat
  seed : UInt64
  parallel : Bool
  bins : Nat
  deriving DecidableEq, Repr

def SimulationOptions.standard : SimulationOptions := ⟨1000, 42, true, 20⟩

structure Bin (R : Type) where
  lower : R
  upper : R
  count : Nat

/-- The makespans below or at which certain shares of the trials lie. -/
structure Percentiles (R : Type) where
  p50 : R
  p80 : R
  p90 : R
  p95 : R

/-- What the makespans of all trials are like, how often each activity was critical, and the makespans in order. -/
structure SimulationSummary (R : Type) where
  trials : Nat
  seed : UInt64
  mean : R
  variance : R
  min : R
  max : R
  percentiles : Percentiles R
  histogram : List (Bin R)
  criticality : NameMap R
  makespans : List R

namespace Simulation

/-- The seed of a trial: the seed and the trial's number, mixed in three steps that lose nothing. -/
def trialSeed (seed trial : UInt64) : UInt64 :=
  let z := seed + (trial + 1) * 0x9E3779B97F4A7C15
  let z := (z ^^^ (z >>> 30)) * 0xBF58476D1CE4E5B9
  let z := (z ^^^ (z >>> 27)) * 0x94D049BB133111EB
  z ^^^ (z >>> 31)

variable {R : Type} [Scalar R]

/-- The fewest trials at or below which a share of them lies, but at least one and at most all. -/
def rank (share : R) (trials : Nat) : Nat :=
  Nat.max 1 (Nat.min (Scalar.ceilNat (share * Scalar.ofNat trials)) trials)

/-- The makespan at or below which a share of the trials lies. -/
def percentile (makespans : List R) (share : R) : R :=
  makespans.getD (rank share makespans.length - 1) 0

def binOf (lowest width : R) (bins : Nat) (makespan : R) : Nat :=
  Nat.min (Scalar.floorNat ((makespan - lowest) / width)) (bins - 1)

/-- Bins of equal width from the least makespan to the greatest; one bin where all are equal. -/
def histogram (makespans : List R) (bins : Nat) : List (Bin R) :=
  match makespans.head?, makespans.getLast? with
  | some lowest, some highest =>
    if highest - lowest ≤ 1 / Scalar.ofNat 0x10000000000000 then [⟨lowest, highest, makespans.length⟩]
    else
      let width := (highest - lowest) / Scalar.ofNat bins
      let places := makespans.map (binOf lowest width bins)
      (List.range bins).map fun b =>
        { lower := lowest + width * Scalar.ofNat b
          upper := if b + 1 = bins then highest else lowest + width * Scalar.ofNat (b + 1)
          count := places.count b }
  | _, _ => []

/-- The share of the trials in which an activity was critical. -/
def criticality (trials : List (CriticalPath R)) (i : Nat) : R :=
  let critical := trials.countP fun trial => (trial.timings[i]?.map Timing.isCritical).getD false
  Scalar.ofNat critical / Scalar.ofNat trials.length

def summarize (names : List String) (trials : List (CriticalPath R)) (seed : UInt64) (bins : Nat) :
    SimulationSummary R :=
  let n := Scalar.ofNat trials.length
  let drawn := trials.map CriticalPath.makespan
  let mean := Scalar.sum drawn / n
  let makespans := Scalar.sort drawn
  let percentile := percentile makespans
  { trials := trials.length
    seed
    mean
    variance := Scalar.sum (drawn.map fun makespan => (makespan - mean) * (makespan - mean)) / n
    min := makespans.headD 0
    max := makespans.getLastD 0
    percentiles := ⟨percentile 0.50, percentile 0.80, percentile 0.90, percentile 0.95⟩
    histogram := histogram makespans (Nat.max 1 bins)
    criticality := .ofList (names.zipIdx.map fun (name, i) => (name, criticality trials i))
    makespans }

/-- The durations of all activities in one trial. -/
def sampleAll (activities : List (Activity Float)) (stream : ChaCha.Stream) : List Float :=
  (activities.foldl (fun (durations, stream) activity =>
    let (duration, stream) := (activity.distribution.getD (.fixed activity.duration)).sample stream
    (durations ++ [duration], stream)) ([], stream)).1

def trial (activities : List (Activity Float)) (network : Network) (seed : UInt64) (number : Nat) :
    CriticalPath Float :=
  CriticalPath.analyze network (sampleAll activities (.ofSeed (trialSeed seed number.toUInt64)))

/-- The summary of as many trials as the options ask for. -/
def simulate (activities : List (Activity Float)) (network : Network) (options : SimulationOptions) :
    Except (ScheduleError Float) (SimulationSummary Float) := do
  if options.trials = 0 then throw .noTrials
  for activity in activities do
    match activity.distribution with
    | some distribution => distribution.validate activity.name
    | none => pure ()
  let trials := (List.range options.trials).map (trial activities network options.seed)
  return summarize network.names trials options.seed options.bins

end Simulation

/-- The share of the trials that ended by a deadline. -/
def SimulationSummary.shareWithin {R : Type} [Scalar R] (summary : SimulationSummary R) (deadline : R) : R :=
  Scalar.ofNat (summary.makespans.takeWhile (· ≤ deadline)).length / Scalar.ofNat summary.makespans.length

end Deliberation
