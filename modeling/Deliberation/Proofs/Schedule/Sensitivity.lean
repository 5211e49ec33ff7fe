import Deliberation.Proofs.Schedule.Validity
import Deliberation.Schedule.Sensitivity

/-!
Sensitivity reports. A change of one duration, capacity or bound leaves a problem that passes the same
checks and has the same network, as long as the changed number is one that durations and capacities may
be. So the changed problem can only fail while its activities are placed or after that; and every target
has its report, unless a constraint of the schedule has no value or the linear program has no solution.
-/

namespace Deliberation

variable {R : Type}

/-- The failures that come after activities are placed: a schedule constraint without a value, and all that
keeps the linear program from an optimum. -/
def ScheduleError.Late : ScheduleError R → Prop
  | .constraint _ | .program _ => True
  | _ => False

variable [Scalar R]

/-- Activities that differ at most in their durations, where the second has a possible one if the first has. -/
structure Activity.SameBut (a b : Activity R) : Prop where
  name : b.name = a.name
  distribution : b.distribution = a.distribution
  demands : b.demands = a.demands
  predecessors : b.predecessors = a.predecessors
  duration : Distribution.isDuration a.duration = true → Distribution.isDuration b.duration = true

/-- Resources that differ at most in their capacities, where the second has a possible one if the first has. -/
structure Resource.SameBut (r s : Resource R) : Prop where
  name : s.name = r.name
  skills : s.skills = r.skills
  capacity : Distribution.isDuration r.capacity = true → Distribution.isDuration s.capacity = true

theorem Activity.SameBut.refl (a : Activity R) : a.SameBut a := ⟨rfl, rfl, rfl, rfl, id⟩

theorem Resource.SameBut.refl (r : Resource R) : r.SameBut r := ⟨rfl, rfl, id⟩

theorem forall₂_changeFirst {α : Type} {relates : α → α → Prop} {test : α → Bool} {change : α → α}
    (same : ∀ a, relates a a) (changed : ∀ a, relates a (change a)) (l : List α) :
    List.Forall₂ relates l (changeFirst test change l) := by
  induction l with
  | nil => exact .nil
  | cons a rest ih =>
    rw [changeFirst]
    split
    · exact .cons (changed a) (List.forall₂_same.2 fun b _ => same b)
    · exact .cons (same a) ih

theorem Resource.SameBut.find? {before after : List (Resource R)} (alike : List.Forall₂ Resource.SameBut before after)
    {name : String} {resource : Resource R} (found : before.find? (·.name = name) = some resource) :
    ∃ other, after.find? (·.name = name) = some other ∧ resource.SameBut other := by
  induction alike with
  | nil => cases found
  | @cons r s _ _ here _ ih =>
    rw [List.find?_cons] at found ⊢
    rw [here.name]
    by_cases named : r.name = name
    · simp only [named, decide_true] at found ⊢
      exact ⟨s, rfl, Option.some.inj found ▸ here⟩
    · simp only [named, decide_false] at found ⊢
      exact ih found

theorem Activity.SameBut.names {before after : List (Activity R)} (alike : List.Forall₂ Activity.SameBut before after) :
    after.map Activity.name = before.map Activity.name := by
  induction alike with
  | nil => rfl
  | cons here _ ih => rw [List.map_cons, List.map_cons, here.name, ih]

/-- Networks are made of names and predecessors. -/
theorem Network.build_congr {before after : List (Activity R)} (alike : List.Forall₂ Activity.SameBut before after)
    (precedence : List Precedence) : build after precedence = build before precedence := by
  have names := Activity.SameBut.names alike
  have links : declaredLinks after precedence = declaredLinks before precedence := by
    rw [declaredLinks, declaredLinks, names]
    dsimp only
    rw [Lists.flatMapM_eq, Lists.flatMapM_eq]
    refine congrArg (· >>= _) (congrArg _ (Lists.mapM_congr ?_).symm)
    exact alike.imp fun a b here => by rw [here.name, here.predecessors]
  rw [build, build, names, links]

namespace ScheduleProblem

/-- Problems with the same links, of which the activities and the resources differ at most in durations and
capacities, and which may differ in what they optimize. -/
structure SameBut (before after : ScheduleProblem R) : Prop where
  activities : List.Forall₂ Activity.SameBut before.activities after.activities
  resources : List.Forall₂ Resource.SameBut before.resources after.resources
  precedence : after.precedence = before.precedence

section Checks

variable {before after : ScheduleProblem R} {a b : Activity R}

theorem SameBut.validateDemand (alike : before.SameBut after) {demand : Demand R}
    (accepted : before.validateDemand a demand = .ok ()) : after.validateDemand b demand = .ok () := by
  obtain ⟨resource, found, quantity, skilled⟩ := validateDemand_eq_ok_iff.1 accepted
  obtain ⟨other, there, kin⟩ := Resource.SameBut.find? alike.resources found
  refine validateDemand_eq_ok_iff.2 ⟨other, there, quantity, ?_⟩
  rw [kin.skills]
  exact skilled

theorem SameBut.validateActivity (alike : before.SameBut after) (kin : a.SameBut b)
    (accepted : before.validateActivity a = .ok ()) : after.validateActivity b = .ok () := by
  obtain ⟨duration, distribution, demands⟩ := validateActivity_eq_ok_iff.1 accepted
  refine validateActivity_eq_ok_iff.2 ⟨kin.duration duration, ?_, ?_⟩
  · rw [kin.distribution, kin.name]
    exact distribution
  · rw [kin.demands]
    exact fun demand member => alike.validateDemand (demands demand member)

theorem SameBut.validate (alike : before.SameBut after) (accepted : before.validate = .ok ()) :
    after.validate = .ok () := by
  obtain ⟨capacities, activities, distinct⟩ := validate_eq_ok_iff.1 accepted
  refine validate_eq_ok_iff.2 ⟨?_, ?_, ?_⟩
  · exact Lists.forall_mem_of_forall₂ alike.resources (fun _ _ kin => kin.capacity) capacities
  · exact Lists.forall_mem_of_forall₂ alike.activities (fun _ _ kin => alike.validateActivity kin) activities
  · rw [Activity.SameBut.names alike.activities]
    exact distinct

end Checks

section Changes

variable {problem : ScheduleProblem R} {target : Target} {delta : R} {scheduling : ScheduleOptions R}

/-- What a target names: an activity, a resource, or a constraint of the program that compares something with
a number. -/
inductive Names (problem : ScheduleProblem R) : Target → Prop
  | duration {activity : Activity R} (member : activity ∈ problem.activities) : Names problem (.duration activity.name)
  | capacity {resource : Resource R} (member : resource ∈ problem.resources) : Names problem (.capacity resource.name)
  | bound {program : LinearProgram R} {sense : Sense} {constraint : Constraint R} {op : CompareOp} {left right : Expr R}
      {value : Value R} {x : R} (optimizes : problem.objective.program? = some (program, sense))
      (found : program.constraints.find? (·.name = constraint.name) = some constraint)
      (compares : constraint.predicate = .compare op left right) (equates : op ≠ .ne) (closed : right.vars = [])
      (evaluates : right.eval (fun _ => none) = .ok value) (numeric : value.number? = some x) :
      Names problem (.bound constraint.name)

theorem Names.perturbs (names : problem.Names target) (delta : R) :
    ∃ change, problem.perturbTarget delta target = .ok change := by
  cases names with
  | @duration activity member =>
    cases found : problem.activities.find? (·.name = activity.name) with
    | none => simpa using List.find?_eq_none.1 found activity member
    | some first =>
      rw [perturbTarget, perturbDuration, found]
      exact ⟨_, rfl⟩
  | @capacity resource member =>
    cases found : problem.resources.find? (·.name = resource.name) with
    | none => simpa using List.find?_eq_none.1 found resource member
    | some first =>
      rw [perturbTarget, perturbCapacity, found]
      exact ⟨_, rfl⟩
  | @bound _ _ constraint op left right value x optimizes found compares equates closed evaluates numeric =>
    obtain ⟨name, predicate, weight⟩ := constraint
    cases compares
    have constant : constantBound (.bound name) right = .ok x := by
      rw [constantBound, evaluates, closed]
      dsimp only
      rw [numeric]
    rw [perturbTarget, perturbBound, optimizes]
    simp only [found, equates, if_false, constant]
    exact ⟨_, rfl⟩

/-- Whether the changed number of a target is one that durations and capacities may be; bounds may be any number. -/
def Perturbation.Possible (target : Target) (change : Perturbation R) : Prop :=
  match target with
  | .bound _ => True
  | _ => Distribution.isDuration change.perturbedInput = true

theorem sameBut_of_perturbTarget {change : Perturbation R} (perturbed : problem.perturbTarget delta target = .ok change)
    (possible : change.Possible target) : problem.SameBut change.problem := by
  have activities := List.forall₂_same.2 fun (a : Activity R) (_ : a ∈ problem.activities) => Activity.SameBut.refl a
  have resources := List.forall₂_same.2 fun (r : Resource R) (_ : r ∈ problem.resources) => Resource.SameBut.refl r
  -- one list changes in one element, or neither does
  cases target with
  | duration name =>
    have changed := Lists.mapError_eq_ok perturbed
    rw [perturbDuration] at changed
    split at changed
    · cases changed
    · cases changed
      refine ⟨forall₂_changeFirst .refl (fun a => ⟨rfl, rfl, rfl, rfl, fun _ => possible⟩) _, resources, rfl⟩
  | capacity name =>
    have changed := Lists.mapError_eq_ok perturbed
    rw [perturbCapacity] at changed
    split at changed
    · cases changed
    · cases changed
      refine ⟨activities, forall₂_changeFirst .refl (fun r => ⟨rfl, rfl, fun _ => possible⟩) _, rfl⟩
  | bound name =>
    have changed : problem.perturbBound delta name = .ok change := perturbed
    rw [perturbBound] at changed
    split at changed
    · cases changed
    · split at changed
      · cases changed
      · dsimp only at changed
        split at changed
        · cases changed
        · obtain ⟨x, _, returned⟩ := Lists.bind_eq_ok changed
          cases returned
          exact ⟨activities, resources, rfl⟩
      · cases changed

/-- A problem that passes its checks and has a network fails for want of a schedule, or late. -/
theorem solve_error {network : Network} {error : ScheduleError R} (accepted : problem.validate = .ok ())
    (built : Network.build problem.activities problem.precedence = .ok network)
    (failed : problem.solve scheduling = .error error) : (∃ conflict, error = .infeasible conflict) ∨ error.Late := by
  rw [solve, accepted, built] at failed
  -- step by step: the checks and the network are there, so a later step has failed
  rcases Lists.bind_eq_error failed with early | ⟨_, _, failed⟩
  · cases early
  rcases Lists.bind_eq_error failed with early | ⟨_, same, failed⟩
  · cases early
  cases same
  rcases Lists.bind_eq_error failed with unplaced | ⟨leveled, _, failed⟩
  · obtain ⟨conflict, _, same⟩ := Lists.mapError_eq_error unplaced
    exact .inl ⟨conflict, same.symm⟩
  rcases Lists.bind_eq_error failed with unchecked | ⟨check, _, failed⟩
  · obtain ⟨fault, _, rfl⟩ := Lists.mapError_eq_error unchecked
    exact .inr trivial
  split at failed
  · next name _ _ =>
    cases failed
    exact .inl ⟨_, rfl⟩
  · rcases Lists.bind_eq_error failed with unsolved | ⟨_, _, failed⟩
    · cases optimizes : problem.objective.program? with
      | none =>
        rw [optimizes] at unsolved
        cases unsolved
      | some pair =>
        rw [optimizes] at unsolved
        obtain ⟨fault, _, rfl⟩ := Lists.mapError_eq_error (Lists.map_eq_error unsolved)
        exact .inr trivial
    · cases failed

/-- A report tells of the problem with its target changed: of the schedule that there is and of how the
objective responds, or of the conflict that leaves none. -/
inductive Tells (problem : ScheduleProblem R) (options : SensitivityOptions R) (scheduling : ScheduleOptions R)
    (baseOutput : R) (target : Target) : SensitivityReport R → Prop
  | measured {change : Perturbation R} {schedule : Schedule R} {response : R}
      (perturbed : problem.perturbTarget options.delta target = .ok change)
      (solved : change.problem.solve scheduling = .ok schedule)
      (responds : response = elasticity change.baseInput change.perturbedInput baseOutput schedule.objectiveValue) :
      Tells problem options scheduling baseOutput target ⟨target, change.baseInput, change.perturbedInput, baseOutput,
        some schedule.objectiveValue, some response, options.thresholds.classify response, none⟩
  | infeasible {change : Perturbation R} {conflict : ScheduleConflict R}
      (perturbed : problem.perturbTarget options.delta target = .ok change)
      (refused : change.problem.solve scheduling = .error (.infeasible conflict)) :
      Tells problem options scheduling baseOutput target
        ⟨target, change.baseInput, change.perturbedInput, baseOutput, none, none, .infeasible, some conflict⟩

/-- The change of a target is possible, and the problem with it does not fail late. -/
def Answers (problem : ScheduleProblem R) (delta : R) (scheduling : ScheduleOptions R) (target : Target) : Prop :=
  ∀ change, problem.perturbTarget delta target = .ok change →
    change.Possible target ∧ ∀ error, change.problem.solve scheduling = .error error → ¬ error.Late

theorem answers_of_solved {change : Perturbation R} {schedule : Schedule R}
    (perturbed : problem.perturbTarget delta target = .ok change) (possible : change.Possible target)
    (solved : change.problem.solve scheduling = .ok schedule) : problem.Answers delta scheduling target := by
  intro other same
  obtain rfl := Except.ok.inj (perturbed.symm.trans same)
  refine ⟨possible, fun error failed => ?_⟩
  rw [solved] at failed
  cases failed

theorem answers_of_infeasible {change : Perturbation R} {conflict : ScheduleConflict R}
    (perturbed : problem.perturbTarget delta target = .ok change) (possible : change.Possible target)
    (refused : change.problem.solve scheduling = .error (.infeasible conflict)) :
    problem.Answers delta scheduling target := by
  intro other same
  obtain rfl := Except.ok.inj (perturbed.symm.trans same)
  refine ⟨possible, fun error failed late => ?_⟩
  rw [refused] at failed
  cases failed
  exact late

/-- The targets that are looked at: all durations and capacities if none are given. -/
def asked (problem : ScheduleProblem R) (targets : List Target) : List Target :=
  if targets.isEmpty then problem.standardTargets else targets

theorem names_of_asked {targets : List Target} (named : ∀ target ∈ targets, problem.Names target) :
    ∀ target ∈ problem.asked targets, problem.Names target := by
  intro target member
  rw [asked] at member
  split at member
  · rcases List.mem_append.1 member with duration | capacity
    · obtain ⟨activity, among, rfl⟩ := List.mem_map.1 duration
      exact .duration among
    · obtain ⟨resource, among, rfl⟩ := List.mem_map.1 capacity
      exact .capacity among
  · exact named target member

theorem exists_report {options : SensitivityOptions R} {base : Schedule R} (solved : problem.solve scheduling = .ok base)
    (names : problem.Names target) (answers : problem.Answers options.delta scheduling target) (baseOutput : R) :
    ∃ report, problem.report baseOutput options scheduling target = .ok report ∧
      problem.Tells options scheduling baseOutput target report := by
  obtain ⟨⟨⟩, accepted, rest⟩ := Lists.bind_eq_ok solved
  obtain ⟨network, built, _⟩ := Lists.bind_eq_ok rest
  obtain ⟨change, perturbed⟩ := names.perturbs options.delta
  obtain ⟨possible, early⟩ := answers change perturbed
  have alike := sameBut_of_perturbTarget perturbed possible
  rw [report, perturbed]
  dsimp only [bind, Except.bind]
  cases outcome : change.problem.solve scheduling with
  | ok schedule => exact ⟨_, rfl, .measured perturbed outcome rfl⟩
  | error error =>
    have network' : Network.build change.problem.activities change.problem.precedence = .ok network := by
      rw [alike.precedence, Network.build_congr alike.activities, built]
    rcases solve_error (alike.validate accepted) network' outcome with ⟨conflict, rfl⟩ | late
    · exact ⟨_, rfl, .infeasible perturbed outcome⟩
    · exact absurd late (early error outcome)

/-- Every target has its report, in order, whether the problem with its change has a schedule or none, as long
as no such problem fails late and the changed numbers are possible. -/
theorem sensitivity_tells {targets : List Target} {options : SensitivityOptions R} {base : Schedule R}
    (solved : problem.solve scheduling = .ok base) (named : ∀ target ∈ targets, problem.Names target)
    (answers : ∀ target ∈ problem.asked targets, problem.Answers options.delta scheduling target) :
    ∃ reports, problem.sensitivity targets options scheduling = .ok reports ∧
      List.Forall₂ (problem.Tells options scheduling base.objectiveValue) (problem.asked targets) reports := by
  have unfolded : problem.sensitivity targets options scheduling =
      (problem.asked targets).mapM (problem.report base.objectiveValue options scheduling) := by
    rw [sensitivity, solved]
    rfl
  rw [unfolded]
  refine Lists.exists_mapM_eq_ok fun target member => ?_
  exact exists_report solved (names_of_asked named target member) (answers target member) base.objectiveValue

end Changes

/-- One writes at the only desk, and at least so many hours are paid, up to a limit. -/
def office (duration capacity hours limit : Rat) : ScheduleProblem Rat where
  activities := [⟨"write", duration, none, [⟨"desk", 1, none⟩], [], true⟩]
  resources := [⟨"desk", capacity, true, []⟩]
  precedence := []
  objective := .minimizeCost {
    vars := [⟨"paid", 0, some limit⟩]
    objective := .var "paid"
    constraints := [⟨"hours", .compare .ge (.var "paid") (.const (.num hours)), 0⟩] }
  constraints := []

def office.targets : List Target := [.bound "hours", .capacity "desk", .duration "write"]

/-- Everything grows by a tenth. -/
def office.options : SensitivityOptions Rat := ⟨1 / 10, ⟨1 / 2, 1 / 10⟩, false⟩

theorem names_office (duration capacity hours limit : Rat) :
    ∀ target ∈ office.targets, (office duration capacity hours limit).Names target := by
  intro target member
  simp only [office.targets, List.mem_cons, List.not_mem_nil, or_false] at member
  rcases member with rfl | rfl | rfl
  · exact @Names.bound _ _ (office duration capacity hours limit) _ _
      ⟨"hours", .compare .ge (.var "paid") (.const (.num hours)), 0⟩ _ _ _ _ _ rfl rfl rfl (by decide) rfl rfl rfl
  · exact @Names.capacity _ _ (office duration capacity hours limit) ⟨"desk", capacity, true, []⟩
      (List.mem_singleton.2 rfl)
  · exact @Names.duration _ _ (office duration capacity hours limit)
      ⟨"write", duration, none, [⟨"desk", 1, none⟩], [], true⟩ (List.mem_singleton.2 rfl)

/-- Until when there is room for the work as it is, but not when it takes longer. -/
def office.scheduling : ScheduleOptions Rat := ⟨some (21 / 5), ⟨0, 0⟩⟩

theorem solved_office {capacity hours : Rat} (worth : ((office 4 capacity hours 20).solve office.scheduling).map
    Schedule.objectiveValue = .ok hours) : ∃ schedule, (office 4 capacity hours 20).solve office.scheduling = .ok schedule := by
  obtain ⟨schedule, solved, _⟩ := Lists.map_eq_ok worth
  exact ⟨schedule, solved⟩

theorem answers_office : ∀ target ∈ (office 4 1 10 20).asked office.targets,
    (office 4 1 10 20).Answers office.options.delta office.scheduling target := by
  intro target member
  change target ∈ office.targets at member
  simp only [office.targets, List.mem_cons, List.not_mem_nil, or_false] at member
  rcases member with rfl | rfl | rfl
  · have perturbed : (office 4 1 10 20).perturbTarget office.options.delta (.bound "hours") =
        .ok ⟨10, 11, office 4 1 11 20⟩ := by with_unfolding_all rfl
    obtain ⟨schedule, solved⟩ := @solved_office 1 11 (by with_unfolding_all rfl)
    exact answers_of_solved perturbed trivial solved
  · have perturbed : (office 4 1 10 20).perturbTarget office.options.delta (.capacity "desk") =
        .ok ⟨1, 11 / 10, office 4 (11 / 10) 10 20⟩ := by with_unfolding_all rfl
    obtain ⟨schedule, solved⟩ := @solved_office (11 / 10) 10 (by with_unfolding_all rfl)
    exact answers_of_solved perturbed (by with_unfolding_all rfl) solved
  · have perturbed : (office 4 1 10 20).perturbTarget office.options.delta (.duration "write") =
        .ok ⟨4, 22 / 5, office (22 / 5) 1 10 20⟩ := by with_unfolding_all rfl
    have refused : (office (22 / 5) 1 10 20).solve office.scheduling =
        .error (.infeasible (.horizon "write" 0 (21 / 5))) := by with_unfolding_all rfl
    exact answers_of_infeasible perturbed (by with_unfolding_all rfl) refused

/-- More work does not fit, and the other targets are measured all the same. -/
theorem office_told : ∃ base, (office 4 1 10 20).solve office.scheduling = .ok base ∧
    (∀ target ∈ office.targets, (office 4 1 10 20).Names target) ∧ ∃ reports,
      (office 4 1 10 20).sensitivity office.targets office.options office.scheduling = .ok reports ∧
      List.Forall₂ ((office 4 1 10 20).Tells office.options office.scheduling base.objectiveValue) office.targets reports ∧
      reports.map SensitivityReport.impact = [.high, .low, .infeasible] := by
  obtain ⟨base, solved⟩ := @solved_office 1 10 (by with_unfolding_all rfl)
  obtain ⟨reports, told, each⟩ := sensitivity_tells solved (names_office 4 1 10 20) answers_office
  refine ⟨base, solved, names_office 4 1 10 20, reports, told, each, ?_⟩
  have impacts : ((office 4 1 10 20).sensitivity office.targets office.options office.scheduling).map
      (·.map SensitivityReport.impact) = .ok [.high, .low, .infeasible] := by with_unfolding_all rfl
  rw [told] at impacts
  exact Except.ok.inj impacts

/-- When more hours are due than can be paid, the program has no solution, and there is no report on any target. -/
theorem office_untold : (∃ base, (office 4 1 10 10).solve ⟨none, ⟨0, 0⟩⟩ = .ok base) ∧
    (∀ target ∈ office.targets, (office 4 1 10 10).Names target) ∧
    (office 4 1 10 10).sensitivity office.targets office.options ⟨none, ⟨0, 0⟩⟩ =
      .error (.program (.unsatisfiable ["hours"])) := by
  have worth : ((office 4 1 10 10).solve ⟨none, ⟨0, 0⟩⟩).map Schedule.objectiveValue = .ok 10 := by
    with_unfolding_all rfl
  obtain ⟨base, solved, _⟩ := Lists.map_eq_ok worth
  exact ⟨⟨base, solved⟩, names_office 4 1 10 10, by with_unfolding_all rfl⟩

end ScheduleProblem

end Deliberation
