import Deliberation.Random.ChaCha
import Deliberation.Schedule.Activity
import Deliberation.Schedule.Error

/-!
Distributions of durations: which are valid, their means, and how random words become durations.
-/

namespace Deliberation

namespace Distribution

variable {R : Type} [Scalar R]

/-- Whether a number is neither infinite nor negative. -/
def isDuration (x : R) : Bool := Scalar.isFinite x && decide (0 ≤ x)

/-- The greatest of the fractions `k / 2 ^ 52` below one. -/
def greatestFraction : R := 1 - 1 / Scalar.ofNat 0x10000000000000

/-- The sum of weights from left to right, or what is wrong with them. -/
def totalWeight (weights : List R) : Except (DistributionFault R) R :=
  match weights with
  | [] => .error .noWeights
  | weights =>
    if weights.all (0 ≤ ·) then
      let total := Scalar.sum weights
      if total == 0 then .error .zeroWeights else .ok total
    else .error .badWeight

/-- Refuses a distribution whose parameters make no sense. -/
def check : Distribution R → Except (DistributionFault R) Unit
  | .fixed value => if isDuration value then .ok () else .error .badParameters
  | .uniform min max =>
    if isDuration min && isDuration max then if max < min then .error (.inverted min max) else .ok ()
    else .error .badParameters
  | .triangular min mode max =>
    if isDuration min && isDuration mode && isDuration max then
      if min ≤ mode ∧ mode ≤ max then .ok () else .error (.disordered min mode max)
    else .error .badParameters
  | .discrete outcomes =>
    if outcomes.all (isDuration ·.value) then (totalWeight (outcomes.map Outcome.weight)).map fun _ => ()
    else .error .badParameters

/-- Why there are no samples of a distribution that passed its check: its width or its weights go beyond the
greatest number. -/
def overflow? : Distribution R → Option Abort
  | .uniform min max =>
    if !(min == max) && !Scalar.isFinite ((max - min) / (greatestFraction : R)) then some .infiniteRange else none
  | .discrete outcomes =>
    if Scalar.isFinite (Scalar.sum (outcomes.map Outcome.weight)) then none else some .infiniteWeight
  | _ => none

/-- Refuses a distribution of which there are no samples. -/
def validate (distribution : Distribution R) (activity : String) : Except (ScheduleError R) Unit := do
  distribution.check.mapError (.invalidDistribution activity)
  match distribution.overflow? with
  | some reason => throw (.aborted reason)
  | none => return ()

def mean : Distribution R → R
  | .fixed value => value
  | .uniform min max => (min + max) / 2.0
  | .triangular min mode max => (min + mode + max) / 3.0
  | .discrete outcomes =>
    Scalar.sum (outcomes.map fun outcome => outcome.value * outcome.weight) /
      Scalar.sum (outcomes.map Outcome.weight)

/-- A random fraction that is below one: 53 bits of a word. -/
def fraction (s : ChaCha.Stream) : Float × ChaCha.Stream :=
  let (word, s) := s.next64
  ((word >>> 11).toFloat / 9007199254740992.0, s)

/-- A random fraction of the coarser kind that ranges are scaled by: 52 bits of a word. -/
def coarseFraction (s : ChaCha.Stream) : Float × ChaCha.Stream :=
  let (word, s) := s.next64
  ((word >>> 12).toFloat / 4503599627370496.0, s)

/-- The greatest number, not above the one with the given bits, by which the greatest fraction can be scaled
so that a test passes. -/
def fittingScale (fits : Float → Bool) : (bits : Nat) → Float
  | 0 => 0
  | bits + 1 =>
    let scale := Float.ofBits (bits + 1).toUInt64
    if fits (scale * greatestFraction) then scale else fittingScale fits bits

/-- A random number from `min` to `max`. -/
def sampleRange (min max : Float) (s : ChaCha.Stream) : Float × ChaCha.Stream :=
  let scale := fittingScale (fun top => !(max < top + min)) ((max - min) / greatestFraction).toBits.toNat
  let (x, s) := coarseFraction s
  (x * scale + min, s)

/-- The sums of the weights up to each one. -/
def cumulative (weights : List Float) : List Float :=
  (weights.foldl (fun (sums, total) weight => (sums ++ [total + weight], total + weight)) ([], 0)).1

/-- A random place in a list of weights, drawn by weight. -/
def samplePlace (weights : List Float) (s : ChaCha.Stream) : Nat × ChaCha.Stream :=
  let total := Scalar.sum weights
  let scale := fittingScale (fun top => !(total ≤ top + 0)) total.toBits.toNat
  let (x, s) := coarseFraction s
  let drawn := x * scale + 0
  (((cumulative weights.dropLast).takeWhile fun sum => !(drawn < sum)).length, s)

/-- A random duration. Where only one is possible, nothing is drawn. -/
def sample (distribution : Distribution Float) (s : ChaCha.Stream) : Float × ChaCha.Stream :=
  match distribution with
  | .fixed value => (value, s)
  | .uniform min max => if min == max then (min, s) else sampleRange min max s
  | .triangular min mode max =>
    if min == max then (min, s)
    else
      let (u, s) := fraction s
      if u < (mode - min) / (max - min) then (min + (u * (max - min) * (mode - min)).sqrt, s)
      else (max - ((1.0 - u) * (max - min) * (max - mode)).sqrt, s)
  | .discrete outcomes =>
    let (place, s) := samplePlace (outcomes.map Outcome.weight) s
    ((outcomes.map Outcome.value).getD place 0, s)

end Distribution

end Deliberation
