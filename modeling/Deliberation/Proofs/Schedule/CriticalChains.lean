import Mathlib.Data.Set.Card
import Deliberation.Proofs.Schedule.LongestChains

/-!
Chains of critical activities. They are enumerated by going on from each start as long as an activity follows
without a gap, up to a greatest number. Over whole numbers the tolerance is exact, so that no activity of a
chain waits, and such a chain goes through to the end.
-/

namespace Deliberation

namespace CriticalPath

/-! ### Enumeration -/

section

variable {R : Type} [Scalar R] {path : CriticalPath R} {network : Network} {steps : Nat → Nat → Prop} {chain tail : List Nat}
  {length i j : Nat}

/-- A chain that goes on by steps as long as there is one. -/
def Exhausts (steps : Nat → Nat → Prop) (chain : List Nat) : Prop :=
  chain.IsChain steps ∧ ∀ i ∈ chain.getLast?, ∀ j, ¬ steps i j

theorem exhausts_singleton_iff : Exhausts steps [i] ↔ ∀ j, ¬ steps i j := by simp [Exhausts]

theorem exhausts_cons_cons_iff : Exhausts steps (i :: j :: tail) ↔ steps i j ∧ Exhausts steps (j :: tail) := by
  rw [Exhausts, Exhausts, List.isChain_cons_cons, List.getLast?_cons_cons, and_assoc]

/-- A link to an activity that starts just when the one before finishes. -/
def Steps (path : CriticalPath R) (network : Network) (i j : Nat) : Prop :=
  j ∈ network.successors i ∧ path.tight i j = true

/-- The activities by which a chain may go on. -/
def following (path : CriticalPath R) (network : Network) (i : Nat) : List Nat :=
  (network.successors i).filter (path.tight i)

theorem mem_following_iff : j ∈ path.following network i ↔ path.Steps network i j := List.mem_filter

/-- The chains from an activity that go on as long as they can and have at most `length` activities. -/
def endings (path : CriticalPath R) (network : Network) : (length : Nat) → Nat → List (List Nat)
  | 0, _ => []
  | length + 1, i =>
    match path.following network i with
    | [] => [[i]]
    | next => next.flatMap fun j => (endings path network length j).map (i :: ·)

/-- A chain stops where it has to, and otherwise goes on by any of the steps. -/
theorem mem_endings_succ_iff : chain ∈ path.endings network (length + 1) i ↔
    chain = [i] ∧ (∀ j, ¬ path.Steps network i j) ∨
      ∃ j, path.Steps network i j ∧ ∃ tail ∈ path.endings network length j, i :: tail = chain := by
  simp only [← mem_following_iff, endings]
  split
  · next stops => simp [stops]
  · next followed =>
    have goes : ∃ j, j ∈ path.following network i := List.exists_mem_of_ne_nil _ followed
    simp [goes]

theorem head?_of_mem_endings (member : chain ∈ path.endings network length i) : chain.head? = some i := by
  cases length with
  | zero => cases member
  | succ length => rcases mem_endings_succ_iff.1 member with ⟨rfl, -⟩ | ⟨j, -, tail, -, rfl⟩ <;> rfl

theorem mem_endings_iff :
    i :: tail ∈ path.endings network length i ↔ tail.length < length ∧ Exhausts (path.Steps network) (i :: tail) := by
  induction length generalizing i tail with
  | zero => simp [endings]
  | succ length ih =>
    rw [mem_endings_succ_iff]
    cases tail with
    | nil =>
      have never (j : Nat) : [] ∉ path.endings network length j := fun member => nomatch head?_of_mem_endings member
      simp [exhausts_singleton_iff, never]
    | cons j tail =>
      have first {k : Nat} (member : j :: tail ∈ path.endings network length k) : j = k :=
        Option.some.inj (head?_of_mem_endings member)
      rw [exhausts_cons_cons_iff, List.length_cons, Nat.add_lt_add_iff_right]
      constructor
      · rintro (⟨stops, -⟩ | ⟨k, step, rest, member, same⟩)
        · cases stops
        · cases same
          obtain rfl := first member
          obtain ⟨short, exhausts⟩ := ih.1 member
          exact ⟨short, step, exhausts⟩
      · rintro ⟨short, step, exhausts⟩
        exact .inr ⟨j, step, j :: tail, ih.2 ⟨short, exhausts⟩, rfl⟩

theorem nodup_flatMap_endings {starts : List Nat} (distinct : starts.Nodup)
    (each : ∀ i, (path.endings network length i).Nodup) : (starts.flatMap (path.endings network length)).Nodup := by
  refine List.nodup_flatMap.2 ⟨fun i _ => each i, distinct.imp fun apart => ?_⟩
  refine List.disjoint_left.2 fun chain here there => apart ?_
  exact Option.some.inj ((head?_of_mem_endings here).symm.trans (head?_of_mem_endings there))

theorem nodup_endings (once : ∀ i, (network.successors i).Nodup) : (path.endings network length i).Nodup := by
  induction length generalizing i with
  | zero => exact List.nodup_nil
  | succ length ih =>
    rw [endings]
    split
    · exact List.nodup_singleton _
    · rw [← List.map_flatMap]
      exact (nodup_flatMap_endings ((once i).filter _) fun _ => ih).map (List.cons_injective)

/-- The search adds the chains from an activity to those found before, until there are enough. -/
theorem extend_eq {front : List Nat} {found : List (List Nat)} (few : found.length ≤ greatestChainCount) :
    path.extend network length found (i :: front) =
      (found ++ (path.endings network length i).map (front.reverse ++ ·)).take greatestChainCount := by
  induction length generalizing i front found with
  | zero => simp [extend, endings, List.take_of_length_le few]
  | succ length ih =>
    rw [extend, endings]
    split
    · next enough => rw [List.take_left' (le_antisymm few enough)]
    next more =>
    change (match path.following network i with | [] => _ | _ => _) = _
    split
    · have fits : (found ++ [(i :: front).reverse]).length ≤ greatestChainCount := by
        rw [List.length_append, List.length_singleton]
        omega
      simpa using (List.take_of_length_le fits).symm
    · have each (found : List (List Nat)) (j : Nat) (few : found.length ≤ greatestChainCount) :
          path.extend network length found (j :: i :: front) =
            (found ++ (path.endings network length j).map ((i :: front).reverse ++ ·)).take greatestChainCount := ih few
      exact (Lists.foldl_take_eq each few).trans (by simp [List.map_flatMap, Function.comp_def])

/-- The critical activities from which chains are searched. -/
def beginnings (path : CriticalPath R) : List Nat :=
  path.critical.filter fun i =>
    match path.timings[i]? with
    | some timing => decide (Scalar.abs timing.earliestStart ≤ tolerance)
    | none => false

theorem chains_eq (path : CriticalPath R) (network : Network) :
    path.chains network = (path.beginnings.flatMap (path.endings network network.size)).take greatestChainCount := by
  have each (found : List (List Nat)) (i : Nat) (few : found.length ≤ greatestChainCount) :
      path.extend network network.size found [i] = (found ++ path.endings network network.size i).take greatestChainCount := by
    have extended : path.extend network network.size found [i] = _ := extend_eq few
    simpa using extended
  exact Lists.foldl_take_eq each (Nat.zero_le _)

theorem mem_critical_iff : i ∈ path.critical ↔ ∃ timing, path.timings[i]? = some timing ∧ timing.isCritical = true := by
  simp [critical, List.mem_zipIdx_iff_getElem?]

theorem nodup_critical (path : CriticalPath R) : path.critical.Nodup := by
  have places : (path.timings.zipIdx.map Prod.snd).Nodup := by
    rw [List.zipIdx_map_snd]
    exact List.nodup_range'
  exact places.sublist (List.filter_sublist.map _)

end

/-! ### Chains without a gap -/

variable {path : CriticalPath Rat} {network : Network} {durations : List Rat} {timing : Nat → Timing Rat} {chain rest : List Nat}
  {i j : Nat}

/-- A link to a critical activity that starts exactly when the one before finishes. -/
def LeadsOn (path : CriticalPath Rat) (network : Network) (i j : Nat) : Prop :=
  j ∈ network.successors i ∧ j ∈ path.critical ∧
    ∃ first second, path.timings[i]? = some first ∧ path.timings[j]? = some second ∧ second.earliestStart = first.earliestFinish

/-- A chain of critical activities from one that starts at zero, in which each starts exactly when the one
before finishes, and which cannot go on in that way. -/
structure Unbroken (path : CriticalPath Rat) (network : Network) (chain : List Nat) : Prop where
  starts : ∃ i timing, chain.head? = some i ∧ i ∈ path.critical ∧ path.timings[i]? = some timing ∧ timing.earliestStart = 0
  exhausts : Exhausts (path.LeadsOn network) chain

theorem whole_span (whole : ∀ duration ∈ durations, Whole duration) (chain : List Nat) : Whole (span durations chain) := by
  refine Whole.sum fun duration member => ?_
  obtain ⟨i, -, rfl⟩ := List.mem_map.1 member
  rw [List.getD_eq_getElem?_getD]
  cases there : durations[i]? with
  | none => exact Whole.zero
  | some duration => exact whole duration (List.mem_of_getElem? there)

/-- The times of a network that has been analyzed under whole durations. -/
structure Analyzed (network : Network) (durations : List Rat) (path : CriticalPath Rat) (timing : Nat → Timing Rat) : Prop where
  sequenced : network.Sequenced
  whole : ∀ duration ∈ durations, Whole duration
  listed : path.timings = (List.range network.size).map timing
  times : Times network durations path.makespan timing

namespace Analyzed

variable (analyzed : Analyzed network durations path timing)
include analyzed

theorem getElem?_timings (inside : i < network.size) : path.timings[i]? = some (timing i) := by
  rw [analyzed.listed, List.getElem?_map, List.getElem?_range inside, Option.map_some]

theorem lt_of_getElem?_timings {own : Timing Rat} (there : path.timings[i]? = some own) : i < network.size := by
  obtain ⟨inside, -⟩ := List.getElem?_eq_some_iff.1 there
  rwa [analyzed.listed, List.length_map, List.length_range] at inside

theorem whole_makespan : Whole path.makespan := by
  obtain ⟨chain, -, -, ends⟩ := (analyzed.times.greatest_makespan analyzed.sequenced).1
  exact ends ▸ whole_span analyzed.whole chain

/-- The times are lengths of chains, or what is left of the whole by one. -/
theorem whole_times (inside : i < network.size) :
    Whole (timing i).earliestStart ∧ Whole (timing i).earliestFinish ∧ Whole (timing i).latestStart := by
  have takes : Whole (durations.getD i 0) := by simpa [span_singleton] using whole_span analyzed.whole [i]
  have finish : Whole (timing i).earliestFinish := by
    obtain ⟨front, -, same⟩ := analyzed.times.exists_chain_finish analyzed.sequenced i inside
    exact same ▸ whole_span analyzed.whole _
  have start : Whole (timing i).earliestStart := by
    rw [eq_sub_of_add_eq (analyzed.times.finish_eq i inside).symm]
    exact finish.sub takes
  have late : Whole (timing i).latestStart := by
    obtain ⟨rest, -, same⟩ := analyzed.times.exists_chain_late analyzed.sequenced i inside
    rw [eq_sub_of_add_eq same]
    exact analyzed.whole_makespan.sub (whole_span analyzed.whole _)
  exact ⟨start, finish, late⟩

/-- Over whole numbers nothing is lost by the tolerance. -/
theorem slack_eq (inside : i < network.size) : (timing i).slack = (timing i).latestStart - (timing i).earliestStart := by
  obtain ⟨start, -, late⟩ := analyzed.whole_times inside
  rw [analyzed.times.slack_eq, (late.sub start).settle_eq]

theorem isCritical_iff (inside : i < network.size) :
    (timing i).isCritical = true ↔ (timing i).latestStart = (timing i).earliestStart := by
  obtain ⟨start, -, late⟩ := analyzed.whole_times inside
  rw [Timing.isCritical, decide_eq_true_eq, analyzed.slack_eq inside, Scalar.abs_eq, (late.sub start).abs_le_tolerance_iff,
    sub_eq_zero]

theorem critical_iff : i ∈ path.critical ↔ i < network.size ∧ (timing i).latestStart = (timing i).earliestStart := by
  rw [mem_critical_iff]
  constructor
  · rintro ⟨own, there, critical⟩
    have inside := analyzed.lt_of_getElem?_timings there
    obtain rfl := Option.some.inj ((analyzed.getElem?_timings inside).symm.trans there)
    exact ⟨inside, (analyzed.isCritical_iff inside).1 critical⟩
  · rintro ⟨inside, same⟩
    exact ⟨timing i, analyzed.getElem?_timings inside, (analyzed.isCritical_iff inside).2 same⟩

theorem leadsOn_iff : path.LeadsOn network i j ↔
    j ∈ network.successors i ∧ j ∈ path.critical ∧ (timing j).earliestStart = (timing i).earliestFinish := by
  rw [LeadsOn]
  refine and_congr_right fun link => and_congr_right fun _ => ?_
  obtain ⟨before, after⟩ := analyzed.sequenced.within i j link
  simp [analyzed.getElem?_timings before, analyzed.getElem?_timings after]

/-- The tolerance makes no difference between whole numbers. -/
theorem steps_eq : path.Steps network = path.LeadsOn network := by
  funext i j
  refine propext ?_
  rw [analyzed.leadsOn_iff, Steps]
  refine and_congr_right fun link => ?_
  obtain ⟨before, after⟩ := analyzed.sequenced.within i j link
  have near := ((analyzed.whole_times after).1.sub (analyzed.whole_times before).2.1).abs_le_tolerance_iff
  rw [tight, analyzed.getElem?_timings before, analyzed.getElem?_timings after, analyzed.critical_iff]
  simp [Scalar.abs_eq, near, sub_eq_zero, analyzed.isCritical_iff after, after]

theorem mem_beginnings_iff : i ∈ path.beginnings ↔ i ∈ path.critical ∧ (timing i).earliestStart = 0 := by
  rw [beginnings, List.mem_filter]
  refine and_congr_right fun critical => ?_
  have inside := (analyzed.critical_iff.1 critical).1
  rw [analyzed.getElem?_timings inside]
  simp [Scalar.abs_eq, (analyzed.whole_times inside).1.abs_le_tolerance_iff]

/-- An unbroken chain is one that goes on as long as it can from where the search begins. -/
theorem unbroken_iff : path.Unbroken network chain ↔
    ∃ i rest, chain = i :: rest ∧ i ∈ path.beginnings ∧ Exhausts (path.LeadsOn network) (i :: rest) := by
  constructor
  · rintro ⟨⟨i, own, first, critical, there, zero⟩, exhausts⟩
    obtain ⟨rest, rfl⟩ := List.head?_eq_some_iff.1 first
    obtain rfl := Option.some.inj ((analyzed.getElem?_timings (analyzed.critical_iff.1 critical).1).symm.trans there)
    exact ⟨i, rest, rfl, analyzed.mem_beginnings_iff.2 ⟨critical, zero⟩, exhausts⟩
  · rintro ⟨i, rest, rfl, begins, exhausts⟩
    obtain ⟨critical, zero⟩ := analyzed.mem_beginnings_iff.1 begins
    exact ⟨⟨i, timing i, rfl, critical, analyzed.getElem?_timings (analyzed.critical_iff.1 critical).1, zero⟩, exhausts⟩

/-! ### Both ends of a chain -/

/-- A critical activity finishes at the end, or one of those behind it has to start just then. -/
theorem finishes_or_leadsOn (critical : i ∈ path.critical) :
    (timing i).earliestFinish = path.makespan ∨ ∃ j, path.LeadsOn network i j := by
  obtain ⟨inside, tight⟩ := analyzed.critical_iff.1 critical
  have late := analyzed.times.late_eq i inside
  have early := analyzed.times.finish_eq i inside
  refine (analyzed.times.late_reached i).imp (fun last => by linarith) ?_
  rintro ⟨j, link, start⟩
  have after := (analyzed.sequenced.within i j link).2
  have wait := analyzed.times.finish_le_start i j link
  have room := analyzed.times.start_le_late analyzed.sequenced after
  exact ⟨j, analyzed.leadsOn_iff.2 ⟨link, analyzed.critical_iff.2 ⟨after, by linarith⟩, by linarith⟩⟩

/-- A critical activity starts at zero, or one of those in front of it finishes just then and is critical. -/
theorem starts_or_led (critical : j ∈ path.critical) :
    (timing j).earliestStart = 0 ∨ ∃ i ∈ path.critical, path.LeadsOn network i j := by
  obtain ⟨inside, tight⟩ := analyzed.critical_iff.1 critical
  refine (analyzed.times.start_reached j).imp_right ?_
  rintro ⟨i, link, start⟩
  have before := (analyzed.sequenced.within i j link).1
  have late := analyzed.times.late_eq i before
  have early := analyzed.times.finish_eq i before
  have hurry := analyzed.times.late_le_start i j link
  have room := analyzed.times.start_le_late analyzed.sequenced before
  exact ⟨i, analyzed.critical_iff.2 ⟨before, by linarith⟩, analyzed.leadsOn_iff.2 ⟨link, critical, start⟩⟩

/-- A chain that leads on as long as it can takes from the start of its first activity to the end. -/
theorem start_add_span (critical : i ∈ path.critical) (exhausts : Exhausts (path.LeadsOn network) (i :: rest)) :
    (timing i).earliestStart + span durations (i :: rest) = path.makespan := by
  have finish := analyzed.times.finish_eq i (analyzed.critical_iff.1 critical).1
  induction rest generalizing i with
  | nil =>
    rcases analyzed.finishes_or_leadsOn critical with ends | ⟨j, leads⟩
    · rw [span_singleton, ← finish, ends]
    · exact absurd leads (exhausts_singleton_iff.1 exhausts j)
  | cons j rest ih =>
    obtain ⟨leads, exhausts⟩ := exhausts_cons_cons_iff.1 exhausts
    obtain ⟨-, critical, start⟩ := analyzed.leadsOn_iff.1 leads
    rw [span_cons, ← add_assoc, ← finish, ← start]
    exact ih critical exhausts (analyzed.times.finish_eq j (analyzed.critical_iff.1 critical).1)

theorem span_eq_makespan (unbroken : path.Unbroken network chain) : span durations chain = path.makespan := by
  obtain ⟨i, rest, rfl, begins, exhausts⟩ := analyzed.unbroken_iff.1 unbroken
  obtain ⟨critical, zero⟩ := analyzed.mem_beginnings_iff.1 begins
  rw [← analyzed.start_add_span critical exhausts, zero, zero_add]

theorem exists_exhausts (i : Nat) : ∃ rest, Exhausts (path.LeadsOn network) (i :: rest) := by
  induction i using analyzed.sequenced.backward with
  | step i ih =>
    by_cases leads : ∃ j, path.LeadsOn network i j
    · obtain ⟨j, leads⟩ := leads
      obtain ⟨rest, exhausts⟩ := ih j leads.1
      exact ⟨j :: rest, exhausts_cons_cons_iff.2 ⟨leads, exhausts⟩⟩
    · exact ⟨[], exhausts_singleton_iff.2 (not_exists.1 leads)⟩

/-- Every critical activity is on such a chain. -/
theorem exists_unbroken (critical : i ∈ path.critical) : ∃ chain, path.Unbroken network chain ∧ i ∈ chain := by
  -- in front of every chain that leads on from a critical activity there is the rest of an unbroken one
  have front : ∀ rest, Exhausts (path.LeadsOn network) (i :: rest) → ∃ front, path.Unbroken network (front ++ i :: rest) := by
    induction i using analyzed.sequenced.forward with
    | step j ih =>
      intro rest exhausts
      rcases analyzed.starts_or_led critical with zero | ⟨i, before, leads⟩
      · exact ⟨[], analyzed.unbroken_iff.2 ⟨j, rest, rfl, analyzed.mem_beginnings_iff.2 ⟨critical, zero⟩, exhausts⟩⟩
      · obtain ⟨front, unbroken⟩ := ih i leads.1 before (j :: rest) (exhausts_cons_cons_iff.2 ⟨leads, exhausts⟩)
        exact ⟨front ++ [i], by simpa using unbroken⟩
  obtain ⟨rest, exhausts⟩ := analyzed.exists_exhausts i
  obtain ⟨front, unbroken⟩ := front rest exhausts
  exact ⟨front ++ i :: rest, unbroken, by simp⟩

theorem chain_of_linked (inside : i < network.size) (linked : (i :: rest).IsChain (path.LeadsOn network)) :
    network.Chain (i :: rest) := by
  induction rest generalizing i with
  | nil => exact .singleton inside
  | cons j rest ih =>
    obtain ⟨leads, linked⟩ := List.isChain_cons_cons.1 linked
    have after := (analyzed.sequenced.within i j leads.1).2
    exact (Network.chain_cons_cons_iff analyzed.sequenced).2 ⟨leads.1, ih after linked⟩

/-- What the search enumerates is the unbroken chains, none of which is longer than there are activities. -/
theorem mem_flatMap_endings_iff :
    chain ∈ path.beginnings.flatMap (path.endings network network.size) ↔ path.Unbroken network chain := by
  rw [List.mem_flatMap, analyzed.unbroken_iff]
  constructor
  · rintro ⟨i, begins, member⟩
    obtain ⟨rest, rfl⟩ := List.head?_eq_some_iff.1 (head?_of_mem_endings member)
    obtain ⟨-, exhausts⟩ := mem_endings_iff.1 member
    exact ⟨i, rest, rfl, begins, analyzed.steps_eq ▸ exhausts⟩
  · rintro ⟨i, rest, rfl, begins, exhausts⟩
    have inside := (analyzed.critical_iff.1 (analyzed.mem_beginnings_iff.1 begins).1).1
    have short := (analyzed.chain_of_linked inside exhausts.1).length_le analyzed.sequenced
    exact ⟨i, begins, mem_endings_iff.2 ⟨short, analyzed.steps_eq ▸ exhausts⟩⟩

end Analyzed

/-- Of the chains that start at zero and go on without a gap as long as they can, all are listed or as many as
there is room for, each once. They go through to the end, and every critical activity is on such a chain. -/
theorem chains_unbroken {R : Type} {activities : List (Activity R)} {precedence : List Precedence}
    (built : Network.build activities precedence = .ok network) (whole : ∀ duration ∈ durations, Whole duration) :
    let path := analyze network durations
    {chain | path.Unbroken network chain}.Finite ∧
    (path.chains network).length = min 64 {chain | path.Unbroken network chain}.ncard ∧
    (path.chains network).Nodup ∧
    (∀ chain ∈ path.chains network, path.Unbroken network chain ∧ span durations chain = path.makespan) ∧
    ∀ i ∈ path.critical, ∃ chain, path.Unbroken network chain ∧ i ∈ chain := by
  intro path
  have sequenced := Network.sequenced_of_build built
  obtain ⟨timing, listed, times⟩ := exists_times sequenced durations
  have analyzed : Analyzed network durations path timing := ⟨sequenced, whole, listed, times⟩
  let all := path.beginnings.flatMap (path.endings network network.size)
  have distinct : all.Nodup := nodup_flatMap_endings ((nodup_critical path).filter _) fun _ => nodup_endings sequenced.once
  have members : {chain | path.Unbroken network chain} = all.toFinset := by
    ext chain
    rw [List.coe_toFinset]
    exact analyzed.mem_flatMap_endings_iff.symm
  have first : path.chains network = all.take 64 := chains_eq path network
  rw [members, first]
  refine ⟨Finset.finite_toSet _, ?_, distinct.sublist (List.take_sublist _ _), ?_, fun i => analyzed.exists_unbroken⟩
  · rw [Set.ncard_coe_finset, List.toFinset_card_of_nodup distinct, List.length_take]
  · intro chain member
    have unbroken := analyzed.mem_flatMap_endings_iff.1 (List.mem_of_mem_take member)
    exact ⟨unbroken, analyzed.span_eq_makespan unbroken⟩

/-- Two ways of one length from one activity to another. -/
def diamond : List (Activity Rat) :=
  [⟨"s", 1, none, [], [], true⟩, ⟨"l", 2, none, [], ["s"], true⟩, ⟨"r", 2, none, [], ["s"], true⟩,
    ⟨"e", 1, none, [], ["l", "r"], true⟩]

theorem diamond_unbroken :
    let network : Network := ⟨["s", "l", "r", "e"], [(0, 1), (0, 2), (1, 3), (2, 3)], [0, 2, 1, 3]⟩
    let path := analyze network (diamond.map Activity.duration)
    Network.build diamond [] = .ok network ∧ (∀ duration ∈ diamond.map Activity.duration, Whole duration) ∧
    path.chains network = [[0, 1, 3], [0, 2, 3]] ∧ {chain | path.Unbroken network chain}.ncard = 2 := by
  intro network path
  have built : Network.build diamond [] = .ok network := by rfl
  have whole : ∀ duration ∈ diamond.map Activity.duration, Whole duration := by
    simp only [diamond, List.map_cons, List.map_nil, List.forall_mem_cons]
    exact ⟨⟨1, rfl⟩, ⟨2, rfl⟩, ⟨2, rfl⟩, ⟨1, rfl⟩, by simp⟩
  have listed : path.chains network = [[0, 1, 3], [0, 2, 3]] := by decide +kernel
  obtain ⟨-, count, -⟩ := chains_unbroken built whole
  change (path.chains network).length = min 64 {chain | path.Unbroken network chain}.ncard at count
  rw [listed, List.length_cons, List.length_singleton] at count
  exact ⟨built, whole, listed, by omega⟩

end CriticalPath

end Deliberation
