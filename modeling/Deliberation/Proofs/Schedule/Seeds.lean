import Mathlib.Algebra.Group.Nat.Defs
import Mathlib.Data.List.Nodup
import Mathlib.Data.Set.Function
import Mathlib.Order.Interval.Set.Defs
import Deliberation.Proofs.Lists
import Deliberation.Schedule.Simulation

/-!
Seeds of the trials of a simulation. A trial's number is mixed into the seed by steps each of which can be
undone, so that no two trials draw from one stream.
-/

namespace Deliberation.Simulation

/-! ### Steps that lose nothing -/

theorem eq_zero_of_eq_shiftRight {z k : UInt64} (positive : 0 < k.toNat % 64) (same : z = z >>> k) : z = 0 := by
  have divided : z.toNat = z.toNat / 2 ^ (k.toNat % 64) := by
    rw [← Nat.shiftRight_eq_div_pow, ← UInt64.toNat_shiftRight, ← same]
  by_contra apart
  have some : 0 < z.toNat := Nat.pos_of_ne_zero fun zero => apart (UInt64.toNat_inj.1 zero)
  have less := Nat.div_lt_self some (Nat.one_lt_two_pow positive.ne')
  omega

/-- The upper bits, laid over the lower ones, can be taken off again. -/
theorem xorShift_injective {k : UInt64} (positive : 0 < k.toNat % 64) :
    Function.Injective fun z : UInt64 => z ^^^ (z >>> k) := by
  intro y z same
  -- What two words differ in would be itself shifted.
  have difference : y ^^^ z = (y ^^^ z) >>> k := by
    have zero : (y ^^^ (y >>> k)) ^^^ (z ^^^ (z >>> k)) = 0 := UInt64.xor_eq_zero_iff.2 same
    rw [UInt64.shiftRight_xor, ← UInt64.xor_eq_zero_iff, ← zero]
    ac_rfl
  exact UInt64.xor_eq_zero_iff.1 (eq_zero_of_eq_shiftRight positive difference)

/-- A product modulo `2 ^ 64` can be divided again by a factor that has an inverse. -/
theorem mul_right_injective {c inverse : UInt64} (unit : c * inverse = 1) : Function.Injective fun z : UInt64 => z * c := by
  intro y z same
  calc y = y * c * inverse := by rw [UInt64.mul_assoc, unit, UInt64.mul_one]
    _ = z * c * inverse := congrArg (· * inverse) same
    _ = z := by rw [UInt64.mul_assoc, unit, UInt64.mul_one]

theorem trialSeed_injective (seed : UInt64) : Function.Injective (trialSeed seed) := by
  have placed : Function.Injective fun trial : UInt64 => seed + (trial + 1) * 0x9E3779B97F4A7C15 := by
    intro i j same
    have product := (UInt64.add_right_inj seed).1 same
    have unit : (0x9E3779B97F4A7C15 : UInt64) * 0xF1DE83E19937733D = 1 := by decide
    exact (UInt64.add_left_inj 1).1 (mul_right_injective unit product)
  have first : Function.Injective fun z : UInt64 => (z ^^^ (z >>> 30)) * 0xBF58476D1CE4E5B9 := by
    have unit : (0xBF58476D1CE4E5B9 : UInt64) * 0x96DE1B173F119089 = 1 := by decide
    exact (mul_right_injective unit).comp (xorShift_injective (k := 30) (by decide))
  have second : Function.Injective fun z : UInt64 => (z ^^^ (z >>> 27)) * 0x94D049BB133111EB := by
    have unit : (0x94D049BB133111EB : UInt64) * 0x319642B2D24D8EC3 = 1 := by decide
    exact (mul_right_injective unit).comp (xorShift_injective (k := 27) (by decide))
  have third : Function.Injective fun z : UInt64 => z ^^^ (z >>> 31) := xorShift_injective (by decide)
  exact third.comp (second.comp (first.comp placed))

/-- Trials whose numbers are words have different seeds. -/
theorem trialSeed_injOn (seed : UInt64) :
    Set.InjOn (fun number : Nat => trialSeed seed number.toUInt64) (Set.Iio (2 ^ 64)) := by
  intro i below j below' same
  have words : i.toUInt64.toNat = j.toUInt64.toNat := congrArg UInt64.toNat (trialSeed_injective seed same)
  rwa [Nat.toUInt64_eq, Nat.toUInt64_eq, UInt64.toNat_ofNat_of_lt' below, UInt64.toNat_ofNat_of_lt' below'] at words

/-! ### Simulations -/

/-- A simulation sums up the trials that it is asked for, of which there is at least one. -/
theorem simulate_eq {activities : List (Activity Float)} {network : Network} {options : SimulationOptions}
    {summary : SimulationSummary Float} (simulated : simulate activities network options = .ok summary) :
    options.trials ≠ 0 ∧ summary = summarize network.names
      ((List.range options.trials).map (trial activities network options.seed)) options.seed options.bins := by
  rw [simulate] at simulated
  by_cases none : options.trials = 0
  · rw [if_pos none] at simulated
    cases simulated
  · rw [if_neg none] at simulated
    obtain ⟨_, _, simulated⟩ := Lists.bind_eq_ok simulated
    exact ⟨none, (Except.ok.inj simulated).symm⟩

/-- No two trials are seeded alike: their numbers give different seeds, so that the trials of a simulation
draw from as many streams. -/
theorem seeds_apart :
    (∀ (seed : UInt64) (i j : Nat), i < 2 ^ 64 → j < 2 ^ 64 → i ≠ j →
      trialSeed seed i.toUInt64 ≠ trialSeed seed j.toUInt64) ∧
    ∀ (activities : List (Activity Float)) (network : Network) (options : SimulationOptions)
      (summary : SimulationSummary Float), options.trials ≤ 2 ^ 64 →
      simulate activities network options = .ok summary →
      ∃ seeds : List UInt64, seeds.Nodup ∧ seeds.length = options.trials ∧
        summary = summarize network.names
          (seeds.map fun seed => CriticalPath.analyze network (sampleAll activities (.ofSeed seed)))
          options.seed options.bins := by
  constructor
  · exact fun seed i j below below' apart same => apart (trialSeed_injOn seed below below' same)
  · intro activities network options summary few simulated
    refine ⟨(List.range options.trials).map fun number => trialSeed options.seed number.toUInt64, ?_, by simp, ?_⟩
    · refine List.Nodup.map_on (fun i member j member' => ?_) List.nodup_range
      exact trialSeed_injOn options.seed (Nat.lt_of_lt_of_le (List.mem_range.1 member) few)
        (Nat.lt_of_lt_of_le (List.mem_range.1 member') few)
    · rw [List.map_map]
      exact (simulate_eq simulated).2

/-- One activity of a fixed duration. -/
def pause : List (Activity Float) := [⟨"pause", 1, none, [], [], true⟩]

theorem pause_seeds_apart :
    trialSeed 42 (0 : Nat).toUInt64 ≠ trialSeed 42 (1 : Nat).toUInt64 ∧
    ∃ summary, simulate pause ⟨["pause"], [], [0]⟩ ⟨1000, 42, true, 20⟩ = .ok summary ∧
      ∃ seeds : List UInt64, seeds.Nodup ∧ seeds.length = 1000 ∧
        summary = summarize ["pause"]
          (seeds.map fun seed => CriticalPath.analyze ⟨["pause"], [], [0]⟩ (sampleAll pause (.ofSeed seed))) 42 20 := by
  obtain ⟨apart, simulations⟩ := seeds_apart
  refine ⟨apart 42 0 1 (by decide) (by decide) (by decide), ?_⟩
  obtain ⟨summary, simulated⟩ : ∃ summary,
      simulate pause ⟨["pause"], [], [0]⟩ ⟨1000, 42, true, 20⟩ = .ok summary := ⟨_, rfl⟩
  exact ⟨summary, simulated, simulations pause _ _ summary (by decide) simulated⟩

end Deliberation.Simulation
