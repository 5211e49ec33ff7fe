import Mathlib.Algebra.Order.BigOperators.Group.List
import Mathlib.Order.Bounds.Basic
import Deliberation.Proofs.Schedule.Passes

/-!
Times as lengths of chains. A chain is a sequence of activities of which each is linked to the next. What the
two passes find are the durations of longest chains: of those that end at an activity, of those that go on
behind it, and of all.
-/

namespace Deliberation

namespace Network

variable {network : Network} {front rest : List Nat} {i j : Nat}

/-- Activities of which each is linked to the next. -/
def Chain (network : Network) (chain : List Nat) : Prop :=
  (∀ i ∈ chain, i < network.size) ∧ chain.IsChain fun i j => j ∈ network.successors i

theorem Chain.nil : network.Chain [] := ⟨by simp, .nil⟩

theorem Chain.singleton (inside : i < network.size) : network.Chain [i] := ⟨by simpa using inside, .singleton i⟩

theorem chain_cons_cons_iff (sequenced : network.Sequenced) :
    network.Chain (i :: j :: rest) ↔ j ∈ network.successors i ∧ network.Chain (j :: rest) := by
  rw [Chain, Chain, List.forall_mem_cons, List.isChain_cons_cons]
  constructor
  · rintro ⟨⟨-, inside⟩, link, linked⟩
    exact ⟨link, inside, linked⟩
  · rintro ⟨link, inside, linked⟩
    exact ⟨⟨(sequenced.within i j link).1, inside⟩, link, linked⟩

theorem chain_append_cons_iff : network.Chain (front ++ i :: rest) ↔ network.Chain (front ++ [i]) ∧ network.Chain (i :: rest) := by
  rw [Chain, Chain, Chain, List.isChain_split]
  simp only [List.forall_mem_append, List.forall_mem_cons]
  tauto

/-- A chain goes on by an activity behind its last one. -/
theorem Chain.concat (sequenced : network.Sequenced) (chain : network.Chain (front ++ [i])) (link : j ∈ network.successors i) :
    network.Chain (front ++ [i] ++ [j]) := by
  have pair := (chain_cons_cons_iff sequenced).2 ⟨link, .singleton (sequenced.within i j link).2⟩
  rw [List.append_assoc]
  exact chain_append_cons_iff.2 ⟨chain, pair⟩

/-- No chain has more activities than there are, for each stands further along the order than the one before. -/
theorem Chain.length_le (sequenced : network.Sequenced) {chain : List Nat} (linked : network.Chain chain) :
    chain.length ≤ network.size := by
  have rises : chain.IsChain fun i j => network.order.idxOf i < network.order.idxOf j :=
    linked.2.imp fun i j link => sequenced.rises i j link
  have apart : chain.Pairwise fun i j => network.order.idxOf i < network.order.idxOf j := List.isChain_iff_pairwise.1 rises
  refine length_le_of_lt (apart.imp fun less same => ?_) linked.1
  rw [same] at less
  exact Nat.lt_irrefl _ less

end Network

namespace CriticalPath

variable {network : Network} {durations : List Rat} {makespan : Rat} {timing : Nat → Timing Rat} {front rest chain : List Nat}
  {i : Nat}

/-- How long the activities of a chain take one after the other. -/
def span (durations : List Rat) (chain : List Nat) : Rat := (chain.map (durations.getD · 0)).sum

theorem span_cons : span durations (i :: rest) = durations.getD i 0 + span durations rest := by
  rw [span, List.map_cons, List.sum_cons, span]

theorem span_append : span durations (front ++ rest) = span durations front + span durations rest := by
  rw [span, List.map_append, List.sum_append, span, span]

theorem span_singleton : span durations [i] = durations.getD i 0 := by rw [span_cons, span, List.map_nil, List.sum_nil, add_zero]

theorem span_nonneg (nonneg : ∀ duration ∈ durations, 0 ≤ duration) (chain : List Nat) : 0 ≤ span durations chain := by
  refine List.sum_nonneg fun duration member => ?_
  obtain ⟨i, -, rfl⟩ := List.mem_map.1 member
  rw [List.getD_eq_getElem?_getD]
  cases there : durations[i]? with
  | none => exact le_rfl
  | some duration => exact nonneg duration (List.mem_of_getElem? there)

/-! ### Chains in front of an activity, and behind it -/

/-- No chain takes longer than until its last activity finishes. -/
theorem Times.span_le_finish (times : Times network durations makespan timing) (chain : network.Chain (front ++ [i])) :
    span durations (front ++ [i]) ≤ (timing i).earliestFinish := by
  induction front using List.reverseRecOn generalizing i with
  | nil =>
    have finish := times.finish_eq i (chain.1 i (by simp))
    have start := times.start_nonneg i
    rw [List.nil_append, span_singleton]
    linarith
  | append_singleton front before ih =>
    rw [List.append_assoc] at chain
    obtain ⟨earlier, pair⟩ := Network.chain_append_cons_iff.1 chain
    have link : i ∈ network.successors before := (List.isChain_cons_cons.1 pair.2).1
    have finish := times.finish_eq i (pair.1 i (by simp))
    have start := times.finish_le_start before i link
    rw [span_append, span_singleton]
    linarith [ih earlier]

theorem Times.exists_chain_finish (sequenced : network.Sequenced) (times : Times network durations makespan timing) (i : Nat)
    (inside : i < network.size) :
    ∃ front, network.Chain (front ++ [i]) ∧ span durations (front ++ [i]) = (timing i).earliestFinish := by
  induction i using sequenced.forward with
  | step j ih =>
    have finish := times.finish_eq j inside
    rcases times.start_reached j with zero | ⟨i, link, start⟩
    · refine ⟨[], .singleton inside, ?_⟩
      rw [List.nil_append, span_singleton, finish, zero, zero_add]
    · obtain ⟨front, chain, ends⟩ := ih i link (sequenced.within i j link).1
      refine ⟨front ++ [i], chain.concat sequenced link, ?_⟩
      rw [span_append, ends, span_singleton, finish, start]

/-- After the latest start of its first activity, a chain is through before the end. -/
theorem Times.late_add_span_le (times : Times network durations makespan timing) (chain : network.Chain (i :: rest)) :
    (timing i).latestStart + span durations (i :: rest) ≤ makespan := by
  induction rest generalizing i with
  | nil =>
    have finish := times.late_eq i (chain.1 i (by simp))
    have bound := times.late_le_makespan i
    rw [span_singleton]
    linarith
  | cons after rest ih =>
    have finish := times.late_eq i (chain.1 i (by simp))
    obtain ⟨link, linked⟩ := List.isChain_cons_cons.1 chain.2
    have start := times.late_le_start i after link
    rw [span_cons]
    linarith [ih ⟨(List.forall_mem_cons.1 chain.1).2, linked⟩]

theorem Times.exists_chain_late (sequenced : network.Sequenced) (times : Times network durations makespan timing) (i : Nat)
    (inside : i < network.size) :
    ∃ rest, network.Chain (i :: rest) ∧ (timing i).latestStart + span durations (i :: rest) = makespan := by
  induction i using sequenced.backward with
  | step i ih =>
    have finish := times.late_eq i inside
    rcases times.late_reached i with last | ⟨j, link, start⟩
    · refine ⟨[], .singleton inside, ?_⟩
      rw [span_singleton]
      linarith
    · obtain ⟨rest, chain, ends⟩ := ih j link (sequenced.within i j link).2
      refine ⟨j :: rest, (Network.chain_cons_cons_iff sequenced).2 ⟨link, chain⟩, ?_⟩
      rw [span_cons]
      linarith

/-! ### Longest chains -/

/-- How long the chains of a network take that fulfil a condition. -/
def lengths (network : Network) (durations : List Rat) (holds : List Nat → Prop) : Set Rat :=
  {length | ∃ chain, network.Chain chain ∧ holds chain ∧ length = span durations chain}

theorem Times.greatest_makespan (sequenced : network.Sequenced) (times : Times network durations makespan timing) :
    IsGreatest (lengths network durations fun _ => True) makespan := by
  constructor
  · rcases times.makespan_reached with zero | ⟨i, inside, last⟩
    · exact ⟨[], .nil, trivial, zero⟩
    · obtain ⟨front, chain, ends⟩ := times.exists_chain_finish sequenced i inside
      exact ⟨front ++ [i], chain, trivial, last.trans ends.symm⟩
  · rintro _ ⟨chain, linked, -, rfl⟩
    rcases List.eq_nil_or_concat' chain with rfl | ⟨front, i, rfl⟩
    · exact times.makespan_nonneg
    · exact (times.span_le_finish linked).trans (times.finish_le_makespan i (linked.1 i (by simp)))

theorem Times.greatest_finish (sequenced : network.Sequenced) (times : Times network durations makespan timing)
    (inside : i < network.size) :
    IsGreatest (lengths network durations (·.getLast? = some i)) (timing i).earliestFinish := by
  constructor
  · obtain ⟨front, chain, ends⟩ := times.exists_chain_finish sequenced i inside
    exact ⟨front ++ [i], chain, by simp, ends.symm⟩
  · rintro _ ⟨chain, linked, last, rfl⟩
    obtain ⟨front, rfl⟩ := List.getLast?_eq_some_iff.1 last
    exact times.span_le_finish linked

/-- What is left behind an activity that finishes latest is the longest chain behind it. -/
theorem Times.greatest_behind (sequenced : network.Sequenced) (times : Times network durations makespan timing)
    (nonneg : ∀ duration ∈ durations, 0 ≤ duration) (followed : network.successors i ≠ []) :
    IsGreatest (lengths network durations fun chain => ∃ j ∈ network.successors i, chain.head? = some j)
      (makespan - (timing i).latestFinish) := by
  constructor
  · have follows : ∃ j ∈ network.successors i, (timing i).latestFinish = (timing j).latestStart := by
      rcases times.late_reached i with last | reached
      -- nothing behind the activity takes any time, so that it may finish last
      · obtain ⟨j, link⟩ := List.exists_mem_of_ne_nil _ followed
        obtain ⟨rest, -, ends⟩ := times.exists_chain_late sequenced j (sequenced.within i j link).2
        have bound := times.late_le_start i j link
        exact ⟨j, link, by linarith [span_nonneg nonneg (j :: rest)]⟩
      · exact reached
    obtain ⟨j, link, start⟩ := follows
    obtain ⟨rest, chain, ends⟩ := times.exists_chain_late sequenced j (sequenced.within i j link).2
    exact ⟨j :: rest, chain, ⟨j, link, rfl⟩, by linarith⟩
  · rintro _ ⟨chain, linked, ⟨j, link, first⟩, rfl⟩
    obtain ⟨rest, rfl⟩ := List.head?_eq_some_iff.1 first
    linarith [times.late_add_span_le linked, times.late_le_start i j link]

/-- The longest chain through an activity falls short of the whole by as much as the activity can move. -/
theorem Times.greatest_through (sequenced : network.Sequenced) (times : Times network durations makespan timing)
    (inside : i < network.size) :
    IsGreatest (lengths network durations (i ∈ ·)) (makespan - ((timing i).latestStart - (timing i).earliestStart)) := by
  have finish := times.finish_eq i inside
  constructor
  · obtain ⟨front, before, ends⟩ := times.exists_chain_finish sequenced i inside
    obtain ⟨rest, behind, late⟩ := times.exists_chain_late sequenced i inside
    refine ⟨front ++ i :: rest, Network.chain_append_cons_iff.2 ⟨before, behind⟩, by simp, ?_⟩
    rw [span_append, span_singleton] at ends
    rw [span_append]
    linarith
  · rintro _ ⟨chain, linked, member, rfl⟩
    obtain ⟨front, rest, rfl⟩ := List.append_of_mem member
    obtain ⟨before, behind⟩ := Network.chain_append_cons_iff.1 linked
    have ends := times.span_le_finish before
    have late := times.late_add_span_le behind
    rw [span_append, span_singleton] at ends
    rw [span_append]
    linarith

/-- No activity has to start before it can, for the longest chain through it is no longer than the longest of all. -/
theorem Times.start_le_late (sequenced : network.Sequenced) (times : Times network durations makespan timing)
    (inside : i < network.size) : (timing i).earliestStart ≤ (timing i).latestStart := by
  obtain ⟨chain, linked, -, same⟩ := (times.greatest_through sequenced inside).1
  have bound := (times.greatest_makespan sequenced).2 ⟨chain, linked, trivial, rfl⟩
  linarith

/-- The times of an activity are those that the longest chains in front of it and behind it allow. -/
structure Measures (network : Network) (durations : List Rat) (makespan : Rat) (i : Nat) (timing : Timing Rat) : Prop where
  finish : IsGreatest (lengths network durations (·.getLast? = some i)) timing.earliestFinish
  start : timing.earliestFinish = timing.earliestStart + durations.getD i 0
  last : network.successors i = [] → timing.latestFinish = makespan
  behind : network.successors i ≠ [] →
    IsGreatest (lengths network durations fun chain => ∃ j ∈ network.successors i, chain.head? = some j)
      (makespan - timing.latestFinish)
  lateStart : timing.latestFinish = timing.latestStart + durations.getD i 0
  slack_nonneg : 0 ≤ timing.slack
  slack : ∃ longest, IsGreatest (lengths network durations (i ∈ ·)) longest ∧
    timing.slack = if makespan - longest ≤ tolerance then 0 else makespan - longest

theorem Times.measures (sequenced : network.Sequenced) (times : Times network durations makespan timing)
    (nonneg : ∀ duration ∈ durations, 0 ≤ duration) (inside : i < network.size) :
    Measures network durations makespan i (timing i) := by
  have through := times.greatest_through sequenced inside
  have room := sub_nonneg.2 (times.start_le_late sequenced inside)
  have settled : (timing i).slack = if (timing i).latestStart - (timing i).earliestStart ≤ tolerance then 0
      else (timing i).latestStart - (timing i).earliestStart := by
    rw [times.slack_eq, settle, Scalar.abs_eq, abs_of_nonneg room]
  constructor
  · exact times.greatest_finish sequenced inside
  · exact times.finish_eq i inside
  · intro none
    rcases times.late_reached i with last | ⟨j, link, -⟩
    · exact last
    · rw [none] at link
      cases link
  · exact times.greatest_behind sequenced nonneg
  · exact times.late_eq i inside
  · rw [settled]
    split
    · exact le_rfl
    · exact room
  · exact ⟨_, through, by rw [sub_sub_cancel]; exact settled⟩

/-- The critical path method measures longest chains: the longest of all, and for each activity the longest in
front of it, behind it and through it. -/
theorem analyze_longest {R : Type} {activities : List (Activity R)} {precedence : List Precedence}
    (built : Network.build activities precedence = .ok network) (nonneg : ∀ duration ∈ durations, 0 ≤ duration) :
    IsGreatest (lengths network durations fun _ => True) (analyze network durations).makespan ∧
    (analyze network durations).timings.length = network.size ∧
    ∀ i timing, (analyze network durations).timings[i]? = some timing →
      Measures network durations (analyze network durations).makespan i timing := by
  have sequenced := Network.sequenced_of_build built
  obtain ⟨timing, listed, times⟩ := exists_times sequenced durations
  refine ⟨times.greatest_makespan sequenced, by rw [listed, List.length_map, List.length_range], ?_⟩
  intro i own there
  rw [listed, List.getElem?_map] at there
  obtain ⟨place, ranged, rfl⟩ := Option.map_eq_some_iff.1 there
  obtain ⟨inside, rfl⟩ := List.getElem?_eq_some_iff.1 ranged
  rw [List.getElem_range]
  rw [List.length_range] at inside
  exact times.measures sequenced nonneg inside

/-- A long and a short way from one activity to another. -/
def fork : List (Activity Rat) :=
  [⟨"a", 2, none, [], [], true⟩, ⟨"b", 3, none, [], ["a"], true⟩, ⟨"c", 1, none, [], ["a"], true⟩,
    ⟨"d", 2, none, [], ["b", "c"], true⟩]

theorem fork_longest :
    let network : Network := ⟨["a", "b", "c", "d"], [(0, 1), (0, 2), (1, 3), (2, 3)], [0, 2, 1, 3]⟩
    Network.build fork [] = .ok network ∧ (∀ duration ∈ fork.map Activity.duration, 0 ≤ duration) ∧
    IsGreatest (lengths network (fork.map Activity.duration) fun _ => True) 7 ∧
    ∃ timing, Measures network (fork.map Activity.duration) 7 2 timing ∧ timing.slack = 2 := by
  intro network
  have built : Network.build fork [] = .ok network := by rfl
  have nonneg : ∀ duration ∈ fork.map Activity.duration, 0 ≤ duration := by decide
  obtain ⟨longest, -, measures⟩ := analyze_longest built nonneg
  have ends : (analyze network (fork.map Activity.duration)).makespan = 7 := by decide +kernel
  have waits : (analyze network (fork.map Activity.duration)).timings[2]?.map Timing.slack = some 2 := by decide +kernel
  obtain ⟨timing, there, slack⟩ := Option.map_eq_some_iff.1 waits
  rw [ends] at longest measures
  exact ⟨built, nonneg, longest, timing, measures 2 timing there, slack⟩

end CriticalPath

end Deliberation
