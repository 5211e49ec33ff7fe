import Mathlib.Data.List.GetD
import Deliberation.Proofs.Number.Exact
import Deliberation.Proofs.Schedule.Building

/-!
The two passes over a network. Going along the order, an activity starts when the last of those before it
finishes; going against it, an activity has to finish before the first of those behind it has to start. What
the passes find in the end are times for which this holds of every activity at once.
-/

namespace Deliberation

namespace Network

variable {network : Network} {i j : Nat}

/-- The order of a network lists every activity once, and links lead further along it. -/
structure Sequenced (network : Network) : Prop where
  distinct : network.order.Nodup
  listed : ∀ i, i ∈ network.order ↔ i < network.size
  within : ∀ i j, j ∈ network.successors i → i < network.size ∧ j < network.size
  rises : ∀ i j, j ∈ network.successors i → network.order.idxOf i < network.order.idxOf j
  once : ∀ i, (network.successors i).Nodup

theorem mem_predecessors_iff : i ∈ network.predecessors j ↔ j ∈ network.successors i :=
  mem_predecessorsIn.trans mem_successorsIn.symm

section Building

variable {R : Type} {activities : List (Activity R)} {precedence : List Precedence}

theorem represents_of_build (built : build activities precedence = .ok network) :
    Known activities precedence ∧ Represents activities precedence network := by
  have outcome := outcome_build activities precedence
  rw [built] at outcome
  cases outcome with
  | built _ known _ represents => exact ⟨known, represents⟩

theorem distinct_of_build (built : build activities precedence = .ok network) : (activities.map Activity.name).Nodup := by
  have outcome := outcome_build activities precedence
  rw [built] at outcome
  cases outcome with
  | built distinct _ _ _ => exact distinct

theorem Represents.size_eq (represents : Represents activities precedence network) : network.size = activities.length := by
  rw [Network.size, represents.names, List.length_map]

theorem sequenced_of_build (built : build activities precedence = .ok network) : network.Sequenced := by
  obtain ⟨_, represents⟩ := represents_of_build built
  have size := represents.size_eq
  constructor
  · exact represents.order.nodup_iff.2 List.nodup_range
  · intro i
    rw [represents.order.mem_iff, List.mem_range, size]
  · intro i j link
    obtain ⟨before, after, first, second, -⟩ := (represents.declared i j).1 (mem_predecessors_iff.2 link)
    exact ⟨(List.getElem?_eq_some_iff.1 first).1, (List.getElem?_eq_some_iff.1 second).1⟩
  · intro i j link
    exact represents.ordered i j (mem_predecessors_iff.2 link)
  · exact fun i => (represents.distinct i).2

/-- The links from an activity lead to all that follow it. -/
theorem Represents.follows_iff (represents : Represents activities precedence network) (known : Known activities precedence)
    {before after : String} (here : (activities.map Activity.name)[i]? = some before) :
    Follows activities precedence before after ↔
      ∃ j ∈ network.successors i, (activities.map Activity.name)[j]? = some after := by
  constructor
  · intro follows
    have listed : after ∈ activities.map Activity.name := by
      cases follows with
      | own member named => exact named ▸ List.mem_map_of_mem member
      | apart member _ second => exact second ▸ (known.apart _ member).2
    obtain ⟨j, there⟩ := List.mem_iff_getElem?.1 listed
    refine ⟨j, mem_predecessors_iff.1 ((represents.declared i j).2 ⟨before, after, ?_, ?_, follows⟩), there⟩
    · rw [represents.names, here]
    · rw [represents.names, there]
  · rintro ⟨j, link, there⟩
    obtain ⟨first, second, named, named', follows⟩ := (represents.declared i j).1 (mem_predecessors_iff.2 link)
    rw [represents.names] at named named'
    obtain rfl := Option.some.inj (here.symm.trans named)
    obtain rfl := Option.some.inj (there.symm.trans named')
    exact follows

end Building

/-- What stands later in the order does not lead back. -/
theorem Sequenced.pairwise (sequenced : network.Sequenced) : network.order.Pairwise fun i j => i ∉ network.successors j := by
  refine List.pairwise_iff_getElem.2 fun a b first second before link => ?_
  have rises := sequenced.rises _ _ link
  rw [sequenced.distinct.idxOf_getElem, sequenced.distinct.idxOf_getElem] at rises
  omega

theorem Sequenced.not_self (sequenced : network.Sequenced) (i : Nat) : i ∉ network.successors i := fun link =>
  Nat.lt_irrefl _ (sequenced.rises i i link)

/-- What holds of an activity when it holds of all in front of it holds of every activity. -/
theorem Sequenced.forward (sequenced : network.Sequenced) {holds : Nat → Prop}
    (step : ∀ j, (∀ i, j ∈ network.successors i → holds i) → holds j) (i : Nat) : holds i := by
  induction place : network.order.idxOf i using Nat.strongRecOn generalizing i with
  | ind n ih =>
    subst place
    exact step i fun before link => ih _ (sequenced.rises before i link) before rfl

/-- What holds of an activity when it holds of all behind it holds of every activity. -/
theorem Sequenced.backward (sequenced : network.Sequenced) {holds : Nat → Prop}
    (step : ∀ i, (∀ j ∈ network.successors i, holds j) → holds i) (i : Nat) : holds i := by
  induction place : network.order.length - network.order.idxOf i using Nat.strongRecOn generalizing i with
  | ind n ih =>
    subst place
    refine step i fun after link => ih _ ?_ after rfl
    have rises := sequenced.rises i after link
    have inside := network.order.idxOf_le_length (a := after)
    omega

end Network

namespace CriticalPath

variable {network : Network} {durations : List Rat} {makespan : Rat} {i : Nat}

theorem getD_earliestFinishes (sequenced : network.Sequenced) (inside : i < network.size) :
    (earliestFinishes network durations).getD i 0 =
      earliestStart network (earliestFinishes network durations) i + durations.getD i 0 := by
  rw [earliestFinishes]
  have depends (i : Nat) (finishes other : List Rat) (same : ∀ j ∈ network.predecessors i, finishes.getD j 0 = other.getD j 0) :
      earliestStart network finishes i + durations.getD i 0 = earliestStart network other i + durations.getD i 0 := by
    rw [earliestStart, earliestStart, List.map_congr_left same]
  refine Lists.getD_foldl_set_of_mem sequenced.distinct depends ?_ ?_ ?_ ?_
  · exact fun i _ before => sequenced.not_self i (Network.mem_predecessors_iff.1 before)
  · exact sequenced.pairwise.imp fun later before => later (Network.mem_predecessors_iff.1 before)
  · exact fun i member => by simpa using (sequenced.listed i).1 member
  · exact (sequenced.listed i).2 inside

theorem getD_latestStarts (sequenced : network.Sequenced) (inside : i < network.size) :
    (latestStarts network durations makespan).getD i 0 =
      latestFinish network makespan (latestStarts network durations makespan) i - durations.getD i 0 := by
  rw [latestStarts]
  have depends (i : Nat) (starts other : List Rat) (same : ∀ j ∈ network.successors i, starts.getD j 0 = other.getD j 0) :
      latestFinish network makespan starts i - durations.getD i 0 = latestFinish network makespan other i - durations.getD i 0 := by
    rw [latestFinish, latestFinish, List.map_congr_left same]
  refine Lists.getD_foldl_set_of_mem (List.nodup_reverse.2 sequenced.distinct) depends ?_ ?_ ?_ ?_
  · exact fun i _ => sequenced.not_self i
  · exact List.pairwise_reverse.2 sequenced.pairwise
  · exact fun i member => by simpa using (sequenced.listed i).1 (List.mem_reverse.1 member)
  · exact List.mem_reverse.2 ((sequenced.listed i).2 inside)

theorem length_earliestFinishes : (earliestFinishes network durations).length = network.size := by
  rw [earliestFinishes, Lists.length_foldl fun _ _ => List.length_set, List.length_replicate]

/-- Times for which it holds of every activity at once that it starts as soon as those in front of it have
finished, and that it has to finish when the first of those behind it has to start. -/
structure Times (network : Network) (durations : List Rat) (makespan : Rat) (timing : Nat → Timing Rat) : Prop where
  start_nonneg : ∀ i, 0 ≤ (timing i).earliestStart
  finish_eq : ∀ i < network.size, (timing i).earliestFinish = (timing i).earliestStart + durations.getD i 0
  finish_le_start : ∀ i j, j ∈ network.successors i → (timing i).earliestFinish ≤ (timing j).earliestStart
  start_reached : ∀ j, (timing j).earliestStart = 0 ∨
    ∃ i, j ∈ network.successors i ∧ (timing j).earliestStart = (timing i).earliestFinish
  finish_le_makespan : ∀ i < network.size, (timing i).earliestFinish ≤ makespan
  makespan_nonneg : 0 ≤ makespan
  makespan_reached : makespan = 0 ∨ ∃ i < network.size, makespan = (timing i).earliestFinish
  late_eq : ∀ i < network.size, (timing i).latestFinish = (timing i).latestStart + durations.getD i 0
  late_le_start : ∀ i j, j ∈ network.successors i → (timing i).latestFinish ≤ (timing j).latestStart
  late_le_makespan : ∀ i, (timing i).latestFinish ≤ makespan
  late_reached : ∀ i, (timing i).latestFinish = makespan ∨
    ∃ j ∈ network.successors i, (timing i).latestFinish = (timing j).latestStart
  slack_eq : ∀ i, (timing i).slack = settle ((timing i).latestStart - (timing i).earliestStart)

/-- The two passes find such times. -/
theorem exists_times (sequenced : network.Sequenced) (durations : List Rat) :
    ∃ timing, (analyze network durations).timings = (List.range network.size).map timing ∧
      Times network durations (analyze network durations).makespan timing := by
  refine ⟨_, rfl, ?_⟩
  constructor
  · exact fun i => latest_nonneg _
  · exact fun i inside => getD_earliestFinishes sequenced inside
  · intro i j link
    exact le_latest (List.mem_map_of_mem (f := ((earliestFinishes network durations).getD · 0))
      (Network.mem_predecessors_iff.2 link))
  · intro j
    refine (latest_eq_zero_or_mem _).imp_right fun member => ?_
    obtain ⟨i, before, same⟩ := List.mem_map.1 member
    exact ⟨i, Network.mem_predecessors_iff.1 before, same.symm⟩
  · intro i inside
    have long : i < (earliestFinishes network durations).length := by rwa [length_earliestFinishes]
    refine le_latest ?_
    change (earliestFinishes network durations).getD i 0 ∈ _
    rw [List.getD_eq_getElem _ _ long]
    exact List.getElem_mem _
  · exact latest_nonneg _
  · refine (latest_eq_zero_or_mem _).imp_right fun member => ?_
    obtain ⟨i, inside, same⟩ := List.mem_iff_getElem.1 member
    refine ⟨i, by rwa [length_earliestFinishes] at inside, ?_⟩
    exact same.symm.trans (List.getD_eq_getElem _ _ inside).symm
  · intro i inside
    exact (sub_eq_iff_eq_add.1 (getD_latestStarts sequenced inside).symm)
  · intro i j link
    exact earliest_le (List.mem_map_of_mem (f := ((latestStarts network durations _).getD · 0)) link)
  · exact fun i => earliest_le_bound _ _
  · intro i
    refine (earliest_eq_bound_or_mem _ _).imp_right fun member => ?_
    obtain ⟨j, link, same⟩ := List.mem_map.1 member
    exact ⟨j, link, same.symm⟩
  · exact fun i => rfl

end CriticalPath

end Deliberation
