import Mathlib.Algebra.BigOperators.Ring.Finset
import Mathlib.Algebra.BigOperators.Ring.List
import Deliberation.Proofs.Fact.Bindings
import Deliberation.Proofs.Schedule.CriticalChains
import Deliberation.Proofs.Schedule.Seeds

/-!
What the summary of a simulation says of its trials. A percentile is a trial's makespan that as many trials as
its share asks for do not exceed, and no smaller one is; the bins of the histogram lie side by side from the
least makespan to the greatest and count every trial once; and in every trial some activity is critical.
-/

namespace Deliberation.Simulation

section Quantiles

variable {l makespans : List Rat} {share makespan : Rat} {k : Nat}

/-- A share of the trials ends by a makespan, which is that of a trial, and less than that share ends before it. -/
structure Quantile (makespans : List Rat) (share makespan : Rat) : Prop where
  member : makespan ∈ makespans
  reached : ⌈share * makespans.length⌉₊ ≤ makespans.countP (· ≤ makespan)
  least : makespans.countP (· < makespan) < ⌈share * makespans.length⌉₊

theorem Quantile.perm (perm : l.Perm makespans) (quantile : Quantile l share makespan) :
    Quantile makespans share makespan := by
  obtain ⟨member, reached, least⟩ := quantile
  rw [perm.length_eq, perm.countP_eq] at reached least
  exact ⟨perm.mem_iff.1 member, reached, least⟩

/-- In a sorted list, an element exceeds none of those up to its place. -/
theorem lt_countP_le (sorted : l.Pairwise (· ≤ ·)) (inside : k < l.length) : k < l.countP (· ≤ l[k]) := by
  have front : ∀ a ∈ l.take (k + 1), a ≤ l[k] := by
    intro a member
    obtain ⟨j, inFront, rfl⟩ := List.mem_iff_getElem.1 member
    rw [List.length_take] at inFront
    rw [List.getElem_take]
    rcases Nat.lt_or_ge j k with before | after
    · exact List.pairwise_iff_getElem.1 sorted j k _ inside before
    · obtain rfl : j = k := by omega
      exact le_rfl
  calc k < (l.take (k + 1)).length := by rw [List.length_take]; omega
    _ = (l.take (k + 1)).countP (· ≤ l[k]) := (List.countP_eq_length.2 fun a member => by simpa using front a member).symm
    _ ≤ l.countP (· ≤ l[k]) := (List.take_sublist _ _).countP_le

/-- In a sorted list, only elements before its place are less than an element. -/
theorem countP_lt_le (sorted : l.Pairwise (· ≤ ·)) (inside : k < l.length) : l.countP (· < l[k]) ≤ k := by
  have behind : (l.drop k).countP (· < l[k]) = 0 := by
    refine List.countP_eq_zero.2 fun a member => ?_
    obtain ⟨j, later, rfl⟩ := List.mem_iff_getElem.1 member
    rw [List.length_drop] at later
    rw [List.getElem_drop, decide_eq_true_eq, not_lt]
    rcases Nat.eq_zero_or_pos j with rfl | positive
    · exact le_rfl
    · exact List.pairwise_iff_getElem.1 sorted k (k + j) inside _ (by omega)
  calc l.countP (· < l[k]) = (l.take k).countP (· < l[k]) + (l.drop k).countP (· < l[k]) := by
        rw [← List.countP_append, List.take_append_drop]
    _ ≤ (l.take k).length := by rw [behind, Nat.add_zero]; exact List.countP_le_length
    _ ≤ k := List.length_take_le _ _

theorem rank_eq (positive : 0 < share) (most : share ≤ 1) (k : Nat) :
    rank share (k + 1) = ⌈share * (k + 1 : Nat)⌉₊ ∧ 0 < rank share (k + 1) ∧ rank share (k + 1) ≤ k + 1 := by
  have some : 0 < ⌈share * (k + 1 : Nat)⌉₊ := Nat.ceil_pos.2 (mul_pos positive (by positivity))
  have few : ⌈share * (k + 1 : Nat)⌉₊ ≤ k + 1 := Nat.ceil_le.2 (mul_le_of_le_one_left (by positivity) most)
  have same : rank share (k + 1) = ⌈share * (k + 1 : Nat)⌉₊ := by
    rw [rank, Scalar.ofNat_eq, Scalar.ceilNat_eq]
    exact (congrArg (max 1) (min_eq_left few)).trans (max_eq_right some)
  exact ⟨same, same ▸ some, same ▸ few⟩

/-- The makespan at the rank of a share is that quantile. -/
theorem quantile_percentile (sorted : l.Pairwise (· ≤ ·)) (some : l ≠ []) (positive : 0 < share) (most : share ≤ 1) :
    Quantile l share (percentile l share) := by
  obtain ⟨k, length⟩ : ∃ k, l.length = k + 1 := Nat.exists_eq_succ_of_ne_zero (mt List.length_eq_zero_iff.1 some)
  obtain ⟨same, first, last⟩ := rank_eq positive most k
  have inside : rank share l.length - 1 < l.length := by rw [length]; omega
  have own : percentile l share = l[rank share l.length - 1] := by rw [percentile, List.getD_eq_getElem _ _ inside]
  have reached := lt_countP_le sorted inside
  have least := countP_lt_le sorted inside
  rw [← own] at reached least
  constructor
  · exact own ▸ List.getElem_mem inside
  · rw [length, ← same]
    rw [length] at reached
    omega
  · rw [length, ← same]
    rw [length] at least
    omega

end Quantiles

section Bins

variable {l makespans : List Rat} {lowest highest width makespan : Rat} {bins : List (Bin Rat)} {n b : Nat}

/-- Bins that lie side by side from a lowest to a highest makespan, each trial being counted in one of them,
within its bounds. -/
structure Spread (makespans : List Rat) (lowest highest : Rat) (bins : List (Bin Rat)) : Prop where
  first : bins.head?.map Bin.lower = some lowest
  last : bins.getLast?.map Bin.upper = some highest
  ordered : ∀ bin ∈ bins, bin.lower ≤ bin.upper
  abut : bins.IsChain fun bin next => bin.upper = next.lower
  counted : ∃ place : Rat → Nat,
    (∀ makespan ∈ makespans, ∃ bin, bins[place makespan]? = some bin ∧ bin.lower ≤ makespan ∧ makespan ≤ bin.upper) ∧
    ∀ b bin, bins[b]? = some bin → bin.count = makespans.countP (place · = b)
  total : (bins.map Bin.count).sum = makespans.length

theorem Spread.perm (perm : l.Perm makespans) (spread : Spread l lowest highest bins) :
    Spread makespans lowest highest bins := by
  obtain ⟨place, within, counts⟩ := spread.counted
  refine { spread with counted := ⟨place, fun makespan member => within makespan (perm.mem_iff.2 member), ?_⟩, total := ?_ }
  · intro b bin there
    rw [counts b bin there, perm.countP_eq]
  · rw [spread.total, perm.length_eq]

/-- The place of a makespan is that of a bin in whose bounds it lies. -/
theorem binOf_bounds (positive : 0 < width) (some : 0 < n) (above : lowest ≤ makespan) (below : makespan ≤ lowest + width * n) :
    binOf lowest width n makespan < n ∧ lowest + width * (binOf lowest width n makespan) ≤ makespan ∧
      makespan ≤ lowest + width * (binOf lowest width n makespan + 1 : Nat) := by
  have nonneg : 0 ≤ (makespan - lowest) / width := div_nonneg (sub_nonneg.2 above) positive.le
  have scaled : width * ((makespan - lowest) / width) = makespan - lowest := mul_div_cancel₀ _ positive.ne'
  have floor_le := mul_le_mul_of_nonneg_left (Nat.floor_le nonneg) positive.le
  have lt_floor := mul_le_mul_of_nonneg_left (Nat.lt_floor_add_one ((makespan - lowest) / width)).le positive.le
  rw [scaled] at floor_le lt_floor
  have place : binOf lowest width n makespan = min ⌊(makespan - lowest) / width⌋₊ (n - 1) := by
    rw [binOf, Scalar.floorNat_eq]
  rw [place]
  -- Only the greatest makespan lies beyond the last place, at the end of the last bin.
  rcases Nat.le_total ⌊(makespan - lowest) / width⌋₊ (n - 1) with inside | beyond
  · rw [min_eq_left inside]
    push_cast
    exact ⟨by omega, by linarith, by linarith⟩
  · rw [min_eq_right beyond, Nat.sub_add_cancel some]
    have early := mul_le_mul_of_nonneg_left (Nat.cast_le (α := Rat).2 beyond) positive.le
    exact ⟨by omega, by linarith, below⟩

/-- All elements of a list of places are counted at one of them. -/
theorem sum_count_range {places : List Nat} (inside : ∀ place ∈ places, place < n) :
    ((List.range n).map fun b => places.count b).sum = places.length := by
  have counted := Multiset.sum_count_eq_card (s := Finset.range n) (m := (places : Multiset Nat)) fun place member =>
    Finset.mem_range.2 (inside place member)
  simpa only [Finset.sum_eq_multiset_sum, Finset.range_val, Multiset.range, Multiset.map_coe, Multiset.sum_coe,
    Multiset.coe_count, Multiset.coe_card] using counted

theorem spread_single (bounds : lowest ≤ highest) (least : ∀ makespan ∈ l, lowest ≤ makespan)
    (greatest : ∀ makespan ∈ l, makespan ≤ highest) : Spread l lowest highest [⟨lowest, highest, l.length⟩] where
  first := rfl
  last := rfl
  ordered := by simpa using bounds
  abut := .singleton _
  counted := by
    refine ⟨fun _ => 0, fun makespan member => ⟨_, rfl, least makespan member, greatest makespan member⟩, ?_⟩
    intro b bin there
    obtain ⟨inside, rfl⟩ := List.getElem?_eq_some_iff.1 there
    obtain rfl : b = 0 := by simpa using inside
    simp
  total := by simp

/-- Bins of one width, each makespan being counted at its place. -/
def evenBins (l : List Rat) (lowest highest width : Rat) (n : Nat) : List (Bin Rat) :=
  (List.range n).map fun b : Nat =>
    { lower := lowest + width * b
      upper := if b + 1 = n then highest else lowest + width * (b + 1 : Nat)
      count := (l.map (binOf lowest width n)).count b }

theorem spread_evenBins (positive : 0 < width) (some : 0 < n) (whole : lowest + width * n = highest)
    (least : ∀ makespan ∈ l, lowest ≤ makespan) (greatest : ∀ makespan ∈ l, makespan ≤ highest) :
    Spread l lowest highest (evenBins l lowest highest width n) := by
  have upper (b : Nat) : (if b + 1 = n then highest else lowest + width * (b + 1 : Nat)) = lowest + width * (b + 1 : Nat) := by
    split
    · next last => rw [last, whole]
    · rfl
  have bounds (makespan : Rat) (member : makespan ∈ l) :=
    binOf_bounds positive some (least makespan member) (whole.symm ▸ greatest makespan member)
  simp only [evenBins, upper]
  constructor
  · rw [List.head?_map, List.head?_range, if_neg some.ne', Option.map_some, Option.map_some, Nat.cast_zero, mul_zero,
      add_zero]
  · rw [List.getLast?_map, List.getLast?_range, if_neg some.ne', Option.map_some, Option.map_some, Nat.sub_add_cancel some,
      whole]
  · intro bin member
    obtain ⟨b, -, rfl⟩ := List.mem_map.1 member
    push_cast
    linarith
  · refine List.isChain_iff_getElem.2 fun b inside => ?_
    rw [List.getElem_map, List.getElem_map, List.getElem_range, List.getElem_range]
  · refine ⟨binOf lowest width n, fun makespan member => ?_, fun b bin there => ?_⟩
    · obtain ⟨inside, above, below⟩ := bounds makespan member
      exact ⟨_, by rw [List.getElem?_map, List.getElem?_range inside, Option.map_some], above, below⟩
    · rw [List.getElem?_map] at there
      obtain ⟨own, ranged, rfl⟩ := Option.map_eq_some_iff.1 there
      obtain ⟨-, rfl⟩ := List.getElem?_eq_some_iff.1 ranged
      rw [List.getElem_range, List.count, List.countP_map]
      rfl
  · rw [List.map_map]
    refine (sum_count_range fun place member => ?_).trans (List.length_map _)
    obtain ⟨makespan, among, rfl⟩ := List.mem_map.1 member
    exact (bounds makespan among).1

/-- In a sorted list, the first element is the least and the last one the greatest. -/
theorem bounds_of_pairwise (sorted : l.Pairwise (· ≤ ·)) (first : l.head? = some lowest)
    (last : l.getLast? = some highest) : ∀ makespan ∈ l, lowest ≤ makespan ∧ makespan ≤ highest := by
  intro makespan member
  constructor
  · obtain ⟨rest, rfl⟩ := List.head?_eq_some_iff.1 first
    exact List.forall_mem_cons.2 ⟨le_rfl, (List.pairwise_cons.1 sorted).1⟩ makespan member
  · obtain ⟨front, rfl⟩ := List.getLast?_eq_some_iff.1 last
    rcases List.mem_append.1 member with before | own
    · exact (List.pairwise_append.1 sorted).2.2 makespan before highest (List.mem_singleton_self _)
    · exact (List.mem_singleton.1 own).le

/-- The histogram spreads sorted makespans over bins from the first to the last of them. -/
theorem spread_histogram (sorted : l.Pairwise (· ≤ ·)) (first : l.head? = some lowest) (last : l.getLast? = some highest)
    (some : 0 < n) : Spread l lowest highest (histogram l n) := by
  have bounds := bounds_of_pairwise sorted first last
  rw [histogram, first, last]
  dsimp only
  split
  · exact spread_single (bounds highest (List.mem_of_getLast? last)).1 (fun makespan member => (bounds makespan member).1)
      fun makespan member => (bounds makespan member).2
  · next wide =>
    have positive : (0 : Rat) < n := Nat.cast_pos.2 some
    have apart : 0 < highest - lowest := by
      refine lt_of_le_of_lt ?_ (not_le.1 wide)
      rw [Scalar.ofNat_eq]
      positivity
    have even := spread_evenBins (div_pos apart positive) some (by field_simp; ring) (fun makespan member => (bounds makespan member).1)
      fun makespan member => (bounds makespan member).2
    simpa only [evenBins, Scalar.ofNat_eq] using even

end Bins

section Shares

variable {network : Network} {durations : List Rat} {timing : Nat → Timing Rat} {makespan : Rat} {i : Nat}

/-- An activity that finishes last cannot move. -/
theorem critical_of_last (sequenced : network.Sequenced) (times : CriticalPath.Times network durations makespan timing)
    (inside : i < network.size) (last : (timing i).earliestFinish = makespan) : (timing i).isCritical = true := by
  have late : (timing i).latestFinish = makespan := by
    rcases times.late_reached i with same | ⟨j, link, same⟩
    · exact same
    · have after := times.finish_le_start i j link
      have room := times.start_le_late sequenced (sequenced.within i j link).2
      have bound := times.late_le_makespan i
      linarith
  have tight : (timing i).latestStart - (timing i).earliestStart = 0 := by
    linarith [times.finish_eq i inside, times.late_eq i inside]
  rw [Timing.isCritical, decide_eq_true_eq, times.slack_eq, tight, Whole.zero.settle_eq, Scalar.abs_eq]
  exact Whole.zero.abs_le_tolerance_iff.2 rfl

/-- Some activity is critical, even if none takes any time. -/
theorem exists_critical {R : Type} {activities : List (Activity R)} {precedence : List Precedence}
    (built : Network.build activities precedence = .ok network) (some : activities ≠ [])
    (nonneg : ∀ duration ∈ durations, 0 ≤ duration) :
    ∃ i < network.size, i ∈ (CriticalPath.analyze network durations).critical := by
  have sequenced := Network.sequenced_of_build built
  have size := (Network.represents_of_build built).2.size_eq
  obtain ⟨timing, listed, times⟩ := CriticalPath.exists_times sequenced durations
  have exists_last : ∃ i < network.size, (timing i).earliestFinish = (CriticalPath.analyze network durations).makespan := by
    rcases times.makespan_reached with zero | ⟨i, inside, last⟩
    · have inside : 0 < network.size := by rw [size]; exact List.length_pos_iff.2 some
      refine ⟨0, inside, le_antisymm (times.finish_le_makespan 0 inside) ?_⟩
      have takes := CriticalPath.span_nonneg nonneg [0]
      rw [CriticalPath.span_singleton] at takes
      linarith [times.finish_eq 0 inside, times.start_nonneg 0]
    · exact ⟨i, inside, last.symm⟩
  obtain ⟨i, inside, last⟩ := exists_last
  refine ⟨i, inside, CriticalPath.mem_critical_iff.2 ⟨timing i, ?_, critical_of_last sequenced times inside last⟩⟩
  rw [listed, List.getElem?_map, List.getElem?_range inside, Option.map_some]

/-- Where each of some trials has a place that counts, the places count at least as often as there are trials. -/
theorem length_le_sum_countP {α : Type} {counts : Nat → α → Bool} {places : List Nat} {trials : List α}
    (each : ∀ trial ∈ trials, ∃ i ∈ places, counts i trial = true) :
    trials.length ≤ (places.map fun i => trials.countP (counts i)).sum := by
  induction trials with
  | nil => exact Nat.zero_le _
  | cons trial rest ih =>
    obtain ⟨⟨i, listed, here⟩, later⟩ := List.forall_mem_cons.1 each
    have one : 1 ≤ (places.map fun i => if counts i trial = true then 1 else 0).sum :=
      List.single_le_sum (fun _ _ => Nat.zero_le _) 1 (List.mem_map.2 ⟨i, listed, if_pos here⟩)
    simp only [List.countP_cons, List.sum_map_add, List.length_cons]
    exact Nat.add_le_add (ih later) one

theorem isCritical_getD_iff {path : CriticalPath Rat} :
    (path.timings[i]?.map Timing.isCritical).getD false = true ↔ i ∈ path.critical := by
  rw [CriticalPath.mem_critical_iff]
  cases path.timings[i]? <;> simp

theorem criticality_eq (trials : List (CriticalPath Rat)) (i : Nat) :
    criticality trials i = (trials.countP fun trial => i ∈ trial.critical) / trials.length := by
  have same : ∀ trial ∈ trials, (trial.timings[i]?.map Timing.isCritical).getD false = true ↔
      decide (i ∈ trial.critical) = true := fun trial _ => by rw [isCritical_getD_iff, decide_eq_true_eq]
  rw [criticality, Scalar.ofNat_eq, Scalar.ofNat_eq, List.countP_congr same]

theorem criticality_bounds (trials : List (CriticalPath Rat)) (i : Nat) :
    0 ≤ criticality trials i ∧ criticality trials i ≤ 1 := by
  rw [criticality_eq]
  exact ⟨by positivity, div_le_one_of_le₀ (Nat.cast_le.2 List.countP_le_length) (Nat.cast_nonneg _)⟩

/-- The shares add up to one at least, where every trial has a critical activity. -/
theorem one_le_sum_criticality {trials : List (CriticalPath Rat)} {n : Nat} (some : trials ≠ [])
    (each : ∀ trial ∈ trials, ∃ i < n, i ∈ trial.critical) : 1 ≤ ((List.range n).map (criticality trials)).sum := by
  have positive : (0 : Rat) < trials.length := Nat.cast_pos.2 (List.length_pos_iff.2 some)
  have counted : trials.length ≤ ((List.range n).map fun i => trials.countP fun trial => i ∈ trial.critical).sum :=
    length_le_sum_countP fun trial member => by simpa using each trial member
  have divided : ((List.range n).map (criticality trials)).sum =
      (((List.range n).map fun i => trials.countP fun trial => i ∈ trial.critical).sum : Nat) / (trials.length : Rat) := by
    rw [List.map_congr_left fun i _ => criticality_eq trials i, Nat.cast_list_sum, List.map_map, div_eq_mul_inv,
      ← List.sum_map_mul_right]
    rfl
  rw [divided, one_le_div positive]
  exact_mod_cast counted

end Shares

section Summaries

/-- The summary of trials under given durations. -/
def summaryOf {R : Type} [Scalar R] (network : Network) (table : List (List R)) (seed : UInt64) (bins : Nat) :
    SimulationSummary R :=
  summarize network.names (table.map (CriticalPath.analyze network)) seed bins

variable {network : Network} {table : List (List Rat)}

/-- When the last activity finishes, in each trial. -/
def makespans (network : Network) (table : List (List Rat)) : List Rat :=
  table.map fun durations => (CriticalPath.analyze network durations).makespan

/-- What a summary says of trials under given durations. -/
structure SumsUp (network : Network) (table : List (List Rat)) (summary : SimulationSummary Rat) : Prop where
  least : IsLeast {makespan | makespan ∈ makespans network table} summary.min
  greatest : IsGreatest {makespan | makespan ∈ makespans network table} summary.max
  p50 : Quantile (makespans network table) 0.50 summary.percentiles.p50
  p80 : Quantile (makespans network table) 0.80 summary.percentiles.p80
  p90 : Quantile (makespans network table) 0.90 summary.percentiles.p90
  p95 : Quantile (makespans network table) 0.95 summary.percentiles.p95
  histogram : Spread (makespans network table) summary.min summary.max summary.histogram
  share : ∀ i name, network.names[i]? = some name → summary.criticality.get? name =
    some ((table.countP fun durations => i ∈ (CriticalPath.analyze network durations).critical : Nat) / (table.length : Rat))
  bounded : ∀ name share, summary.criticality.get? name = some share → 0 ≤ share ∧ share ≤ 1
  total : 1 ≤ (summary.criticality.toList.map Prod.snd).sum

theorem makespans_eq (network : Network) (table : List (List Rat)) :
    (table.map (CriticalPath.analyze network)).map CriticalPath.makespan = makespans network table := List.map_map

/-- The names of a summary are those of the activities, each with the share of the trials in which it was critical. -/
theorem perm_criticality_summaryOf (distinct : network.names.Nodup) (table : List (List Rat)) (seed : UInt64) (bins : Nat) :
    (summaryOf network table seed bins).criticality.toList.Perm
      (network.names.zipIdx.map fun entry => (entry.1, criticality (table.map (CriticalPath.analyze network)) entry.2)) := by
  refine NameMap.perm_toList_ofList ?_
  rw [List.map_map]
  exact (List.zipIdx_map_fst 0 network.names).symm ▸ distinct

theorem mem_criticality_summaryOf_iff (distinct : network.names.Nodup) {seed : UInt64} {bins : Nat} {name : String} {share : Rat} :
    (summaryOf network table seed bins).criticality.get? name = some share ↔
      ∃ i : Nat, network.names[i]? = some name ∧ criticality (table.map (CriticalPath.analyze network)) i = share := by
  rw [← NameMap.mem_toList_iff, (perm_criticality_summaryOf distinct table seed bins).mem_iff, List.mem_map]
  constructor
  · rintro ⟨⟨_, i⟩, member, same⟩
    obtain ⟨rfl, rfl⟩ := Prod.mk.inj same
    exact ⟨i, List.mk_mem_zipIdx_iff_getElem?.1 member, rfl⟩
  · rintro ⟨i, there, rfl⟩
    exact ⟨(name, i), List.mk_mem_zipIdx_iff_getElem?.2 there, rfl⟩

/-- The shares of a summary add up to one at least, where every trial has a critical activity. -/
theorem one_le_sum_summaryOf (distinct : network.names.Nodup) (trials : table ≠ [])
    (each : ∀ durations ∈ table, ∃ i < network.size, i ∈ (CriticalPath.analyze network durations).critical)
    {seed : UInt64} {bins : Nat} : 1 ≤ ((summaryOf network table seed bins).criticality.toList.map Prod.snd).sum := by
  have shares : ((network.names.zipIdx.map fun entry => (entry.1, criticality (table.map (CriticalPath.analyze network))
      entry.2)).map Prod.snd) = (List.range network.size).map (criticality (table.map (CriticalPath.analyze network))) := by
    rw [Network.size, List.range_eq_range', ← List.zipIdx_map_snd 0 network.names, List.map_map, List.map_map]
    rfl
  rw [((perm_criticality_summaryOf distinct table seed bins).map Prod.snd).sum_eq, shares]
  exact one_le_sum_criticality (mt List.map_eq_nil_iff.1 trials) (List.forall_mem_map.2 each)

/-- A summary sums its trials up. -/
theorem sumsUp_summaryOf {R : Type} {activities : List (Activity R)} {precedence : List Precedence}
    (built : Network.build activities precedence = .ok network) (inhabited : activities ≠ []) (trials : table ≠ [])
    (nonneg : ∀ durations ∈ table, ∀ duration ∈ durations, 0 ≤ duration) (seed : UInt64) (bins : Nat) :
    SumsUp network table (summaryOf network table seed bins) := by
  have represents := (Network.represents_of_build built).2
  have distinct : network.names.Nodup := represents.names ▸ Network.distinct_of_build built
  have perm : (Scalar.sort (makespans network table)).Perm (makespans network table) := List.mergeSort_perm _ _
  have sorted := Scalar.pairwise_sort (makespans network table)
  have drawn : Scalar.sort (makespans network table) ≠ [] := fun empty =>
    trials (List.map_eq_nil_iff.1 (List.perm_nil.1 (empty ▸ perm).symm))
  obtain ⟨lowest, first⟩ := Option.isSome_iff_exists.1 (List.isSome_head?.2 drawn)
  obtain ⟨highest, last⟩ := Option.isSome_iff_exists.1 (List.getLast?_isSome.2 drawn)
  have min_eq : (summaryOf network table seed bins).min = lowest := by
    rw [summaryOf, summarize, makespans_eq, List.headD_eq_head?_getD, first, Option.getD_some]
  have max_eq : (summaryOf network table seed bins).max = highest := by
    rw [summaryOf, summarize, makespans_eq, List.getLastD_eq_getLast?, last, Option.getD_some]
  have bounds := bounds_of_pairwise sorted first last
  have quantile {share : Rat} (positive : 0 < share) (most : share ≤ 1) :
      Quantile (makespans network table) share (percentile (Scalar.sort (makespans network table)) share) :=
    (quantile_percentile sorted drawn positive most).perm perm
  have percentiles : (summaryOf network table seed bins).percentiles =
      ⟨percentile (Scalar.sort (makespans network table)) 0.50, percentile (Scalar.sort (makespans network table)) 0.80,
        percentile (Scalar.sort (makespans network table)) 0.90, percentile (Scalar.sort (makespans network table)) 0.95⟩ := by
    rw [summaryOf, summarize, makespans_eq]
  constructor
  · rw [min_eq]
    exact ⟨perm.mem_iff.1 (List.mem_of_mem_head? first), fun makespan member => (bounds makespan (perm.mem_iff.2 member)).1⟩
  · rw [max_eq]
    exact ⟨perm.mem_iff.1 (List.mem_of_getLast? last), fun makespan member => (bounds makespan (perm.mem_iff.2 member)).2⟩
  · rw [percentiles]; exact quantile (by norm_num) (by norm_num)
  · rw [percentiles]; exact quantile (by norm_num) (by norm_num)
  · rw [percentiles]; exact quantile (by norm_num) (by norm_num)
  · rw [percentiles]; exact quantile (by norm_num) (by norm_num)
  · rw [min_eq, max_eq, summaryOf, summarize, makespans_eq]
    exact (spread_histogram sorted first last (Nat.le_max_left 1 bins)).perm perm
  · intro i name there
    rw [mem_criticality_summaryOf_iff distinct]
    refine ⟨i, there, ?_⟩
    rw [criticality_eq, List.countP_map, List.length_map]
    rfl
  · intro name share there
    obtain ⟨i, -, rfl⟩ := (mem_criticality_summaryOf_iff distinct).1 there
    exact criticality_bounds _ i
  · exact one_le_sum_summaryOf distinct trials fun durations among => exists_critical built inhabited (nonneg durations among)

/-- A simulation gives the summary of its trials' durations, and the summary of any durations, in exact
numbers, sums the trials up. -/
theorem simulate_sums_up {activities : List (Activity Float)} {precedence : List Precedence}
    (built : Network.build activities precedence = .ok network) (inhabited : activities ≠ []) :
    (∀ options summary, simulate activities network options = .ok summary →
      options.trials ≠ 0 ∧ summary = summaryOf network ((List.range options.trials).map fun number =>
        sampleAll activities (.ofSeed (trialSeed options.seed number.toUInt64))) options.seed options.bins) ∧
    ∀ (table : List (List Rat)) (seed : UInt64) (bins : Nat), table ≠ [] →
      (∀ durations ∈ table, ∀ duration ∈ durations, 0 ≤ duration) →
      SumsUp network table (summaryOf network table seed bins) := by
  constructor
  · intro options summary simulated
    obtain ⟨trials, same⟩ := simulate_eq simulated
    refine ⟨trials, ?_⟩
    rw [same, summaryOf, List.map_map]
    rfl
  · exact fun table seed bins trials nonneg => sumsUp_summaryOf built inhabited trials nonneg seed bins

/-- Two activities that run side by side. -/
def pair : List (Activity Float) := [⟨"left", 1, none, [], [], true⟩, ⟨"right", 2, none, [], [], true⟩]

def pairNetwork : Network := ⟨["left", "right"], [], [1, 0]⟩

theorem pair_sums_up :
    (∃ summary, simulate pair pairNetwork ⟨3, 42, true, 2⟩ = .ok summary ∧
      summary = summaryOf pairNetwork ((List.range 3).map fun number =>
        sampleAll pair (.ofSeed (trialSeed 42 number.toUInt64))) 42 2) ∧
    SumsUp pairNetwork [[1, 2], [3, 1], [0, 0]] (summaryOf pairNetwork [[1, 2], [3, 1], [0, 0]] 42 2) := by
  have built : Network.build pair [] = .ok pairNetwork := rfl
  obtain ⟨simulations, summaries⟩ := simulate_sums_up built (by simp [pair])
  obtain ⟨summary, simulated⟩ : ∃ summary, simulate pair pairNetwork ⟨3, 42, true, 2⟩ = .ok summary := ⟨_, rfl⟩
  exact ⟨⟨summary, simulated, (simulations _ summary simulated).2⟩, summaries _ _ _ (by simp) (by simp)⟩

end Summaries

end Deliberation.Simulation
