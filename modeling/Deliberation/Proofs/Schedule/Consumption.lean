import Deliberation.Proofs.Schedule.Completion
import Deliberation.Proofs.Schedule.Demand

/-!
What leveling takes of the resources that are there once: of each one, as much as the placed activities
need, and never more than there is.
-/

namespace Deliberation.Leveling

variable {load : Workload Rat} {activity : Activity Rat} {before after : NameMap Rat} {name : String}
  {resource : Resource Rat} {entries : List (String × Rat)}

/-- Takes what is needed of one resource, if it is there once. -/
def take (load : Workload Rat) (activity : Activity Rat) (consumption : NameMap Rat) (entry : String × Rat) :
    Except (ScheduleConflict Rat) (NameMap Rat) :=
  match load.resource? entry.1 with
  | none => .ok consumption
  | some resource =>
    if resource.renewable then .ok consumption
    else
      let used := (consumption.get? entry.1).getD 0
      if resource.capacity + tolerance < used + entry.2 then
        .error (.exhausted entry.1 activity.name used entry.2 resource.capacity)
      else .ok (consumption.insert entry.1 (used + entry.2))

theorem consume_eq (load : Workload Rat) (activity : Activity Rat) (consumption : NameMap Rat) :
    consume load activity consumption = activity.totals.foldlM (take load activity) consumption := by
  rw [consume]
  congr
  funext consumption ⟨name, requested⟩
  cases found : load.resource? name <;> simp only [take, found]

/-- A resource of a name that is there once. -/
def Once (load : Workload Rat) (name : String) (resource : Resource Rat) : Prop :=
  load.resource? name = some resource ∧ resource.renewable = false

/-- What comes of taking one entry: it is taken, it does not concern a resource that is there once, or there
is too little left. -/
inductive Takes (load : Workload Rat) (activity : Activity Rat) (before : NameMap Rat) (entry : String × Rat) :
    Except (ScheduleConflict Rat) (NameMap Rat) → Prop
  | spared (other : ∀ resource, ¬ Once load entry.1 resource) : Takes load activity before entry (.ok before)
  | taken {resource : Resource Rat} (once : Once load entry.1 resource)
      (enough : (before.get? entry.1).getD 0 + entry.2 ≤ resource.capacity + tolerance) :
      Takes load activity before entry (.ok (before.insert entry.1 ((before.get? entry.1).getD 0 + entry.2)))
  | exhausted {resource : Resource Rat} (once : Once load entry.1 resource)
      (short : resource.capacity + tolerance < (before.get? entry.1).getD 0 + entry.2) :
      Takes load activity before entry
        (.error (.exhausted entry.1 activity.name ((before.get? entry.1).getD 0) entry.2 resource.capacity))

theorem takes_take (load : Workload Rat) (activity : Activity Rat) (before : NameMap Rat) (entry : String × Rat) :
    Takes load activity before entry (take load activity before entry) := by
  rw [take]
  split
  · next missing =>
    refine .spared ?_
    rintro resource ⟨found, _⟩
    rw [missing] at found
    cases found
  · next resource found =>
    by_cases renewable : resource.renewable = true
    · rw [if_pos renewable]
      refine .spared ?_
      rintro other ⟨same, fixed⟩
      rw [found] at same
      cases same
      rw [renewable] at fixed
      cases fixed
    · rw [if_neg renewable]
      have once : Once load entry.1 resource := ⟨found, by simpa using renewable⟩
      extract_lets used
      split
      · next short => exact .exhausted once short
      · next enough => exact .taken once (not_lt.1 enough)

/-- What is taken by entries of different names, of the resources that are there once. -/
structure Draws (load : Workload Rat) (entries : List (String × Rat)) (before after : NameMap Rat) : Prop where
  taken : ∀ entry ∈ entries, ∀ resource, Once load entry.1 resource →
    after.get? entry.1 = some ((before.get? entry.1).getD 0 + entry.2) ∧
      (before.get? entry.1).getD 0 + entry.2 ≤ resource.capacity + tolerance
  spared : ∀ name ∉ entries.map Prod.fst, after.get? name = before.get? name

theorem draws_of_foldlM (distinct : (entries.map Prod.fst).Nodup)
    (done : entries.foldlM (take load activity) before = .ok after) : Draws load entries before after := by
  induction entries generalizing before with
  | nil =>
    cases done
    exact ⟨by simp, by simp⟩
  | cons entry rest ih =>
    obtain ⟨fresh, distinct⟩ := List.nodup_cons.1 distinct
    rw [List.foldlM_cons] at done
    obtain ⟨between, here, later⟩ := Lists.bind_eq_ok done
    have draws := ih distinct later
    have takes := takes_take load activity before entry
    rw [here] at takes
    -- The entries after this one have other names, so they see what was there before it.
    have others : ∀ name ≠ entry.1, between.get? name = before.get? name := by
      intro name apart
      cases takes with
      | spared => rfl
      | taken => rw [NameMap.get?_insert, if_neg apart]
    constructor
    · intro other member resource once
      rcases List.mem_cons.1 member with rfl | among
      · cases takes with
        | spared none => exact absurd once (none resource)
        | taken there enough =>
          cases Option.some.inj (there.1.symm.trans once.1)
          refine ⟨?_, enough⟩
          rw [draws.spared _ fresh, NameMap.get?_insert, if_pos rfl]
      · have apart : other.1 ≠ entry.1 := by
          intro same
          exact fresh (List.mem_map.2 ⟨other, among, same⟩)
        rw [← others _ apart]
        exact draws.taken other among resource once
    · intro name absent
      simp only [List.map_cons, List.mem_cons, not_or] at absent
      rw [draws.spared name absent.2, others name absent.1]

/-- Taking fails only where too little is left of a resource. -/
theorem exhausted_of_foldlM {conflict : ScheduleConflict Rat} (distinct : (entries.map Prod.fst).Nodup)
    (failed : entries.foldlM (take load activity) before = .error conflict) :
    ∃ entry ∈ entries, ∃ resource, Once load entry.1 resource ∧
      resource.capacity + tolerance < (before.get? entry.1).getD 0 + entry.2 ∧ conflict =
        .exhausted entry.1 activity.name ((before.get? entry.1).getD 0) entry.2 resource.capacity := by
  induction entries generalizing before with
  | nil => cases failed
  | cons entry rest ih =>
    obtain ⟨fresh, distinct⟩ := List.nodup_cons.1 distinct
    rw [List.foldlM_cons] at failed
    have takes := takes_take load activity before entry
    rcases Lists.bind_eq_error failed with here | ⟨between, here, later⟩
    · rw [here] at takes
      cases takes with
      | exhausted once short => exact ⟨entry, List.mem_cons_self .., _, once, short, rfl⟩
    · obtain ⟨other, among, resource, once, short, same⟩ := ih distinct later
      have apart : other.1 ≠ entry.1 := by
        intro same
        exact fresh (List.mem_map.2 ⟨other, among, same⟩)
      have unchanged : between.get? other.1 = before.get? other.1 := by
        rw [here] at takes
        cases takes with
        | spared => rfl
        | taken => rw [NameMap.get?_insert, if_neg apart]
      rw [unchanged] at short same
      exact ⟨other, List.mem_cons_of_mem _ among, resource, once, short, same⟩

/-- What activities need of a resource in all. -/
def demandOn (activities : List (Activity Rat)) (name : String) : Rat := (activities.map (·.need name)).sum

theorem demandOn_append (activities : List (Activity Rat)) (activity : Activity Rat) (name : String) :
    demandOn (activities ++ [activity]) name = demandOn activities name + activity.need name := by
  simp [demandOn]

/-- What leveling relies on: no capacity, duration or quantity is negative, and resources are told apart by
their names. -/
structure Workload.Sound (load : Workload Rat) : Prop where
  capacity : ∀ resource ∈ load.resources, 0 ≤ resource.capacity
  activity : ∀ activity ∈ load.activities, 0 ≤ activity.duration ∧ activity.Asks
  named : (load.resources.map Resource.name).Nodup

theorem Workload.Sound.resource?_name (sound : load.Sound) (member : resource ∈ load.resources) :
    load.resource? resource.name = some resource := Lists.find?_key sound.named member

/-- Of each resource that is there once, what the placed activities need is gone, and that is not more than
there is. -/
def Accounted (load : Workload Rat) (progress : Progress Rat) : Prop :=
  ∀ name resource, Once load name resource →
    progress.consumption.get? name = some (demandOn (progress.placed.map Placed.activity) name) ∧
      demandOn (progress.placed.map Placed.activity) name ≤ resource.capacity + tolerance

theorem get?_ofList_of_mem {entries : List (String × Rat)} {value : Rat} (each : ∀ entry ∈ entries, entry.2 = value)
    (member : name ∈ entries.map Prod.fst) : (NameMap.ofList entries).get? name = some value := by
  have folded (start : NameMap Rat) (there : name ∈ entries.map Prod.fst ∨ start.get? name = some value) :
      (entries.foldl (fun m entry => m.insert entry.1 entry.2) start).get? name = some value := by
    clear member
    induction entries generalizing start with
    | nil => simpa using there
    | cons entry rest ih =>
      obtain ⟨here, later⟩ := List.forall_mem_cons.1 each
      refine ih later _ ?_
      rw [NameMap.get?_insert]
      by_cases same : name = entry.1
      · rw [if_pos same, here]
        exact .inr rfl
      · rw [if_neg same]
        simpa [same] using there
  exact folded .empty (.inl member)

theorem accounted_first (sound : load.Sound) : Accounted load load.first := by
  rintro name resource ⟨found, once⟩
  have member := List.mem_of_find?_eq_some found
  have nothing : demandOn (load.first.placed.map Placed.activity) name = 0 := rfl
  rw [nothing]
  constructor
  · refine get?_ofList_of_mem ?_ ?_
    · intro entry member
      obtain ⟨other, _, rfl⟩ := List.mem_map.1 member
      rfl
    simp only [List.map_map, List.mem_map, List.mem_filter, Function.comp_apply]
    exact ⟨resource, ⟨member, by simp [once]⟩, by simpa using List.find?_some found⟩
  · have room := sound.capacity resource member
    linarith [tolerance_pos]

theorem Accounted.consume {progress : Progress Rat} {consumption : NameMap Rat} (accounted : Accounted load progress)
    (consumed : consume load activity progress.consumption = .ok consumption) {i : Nat} {start finish : Rat} :
    Accounted load ⟨progress.placed ++ [⟨i, activity, start, finish⟩], consumption⟩ := by
  rw [consume_eq] at consumed
  have draws := draws_of_foldlM (totals_totals activity).distinct consumed
  intro name resource once
  obtain ⟨gone, within⟩ := accounted name resource once
  simp only [List.map_append, List.map_cons, List.map_nil, demandOn_append]
  rcases activity.mem_totals_or name with member | ⟨zero, absent⟩
  · obtain ⟨now, enough⟩ := draws.taken _ member resource once
    rw [gone] at now enough
    exact ⟨now, enough⟩
  · rw [zero, add_zero, draws.spared name absent]
    exact ⟨gone, within⟩

theorem Stands.accounted {progress : Progress Rat} (sound : load.Sound) (stands : Stands load progress) :
    Accounted load progress := by
  induction stands with
  | first => exact accounted_first sound
  | place _ _ _ places ih =>
    cases places with
    | placed _ _ consumed => exact ih.consume consumed

end Deliberation.Leveling
