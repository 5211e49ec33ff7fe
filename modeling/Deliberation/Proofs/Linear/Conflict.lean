import Deliberation.Proofs.Linear.Optimum
import Deliberation.Proofs.Linear.Values

/-!
Constraints of a linear program that cannot hold together within the bounds. Where a program has no
solution, the constraints reported are such, and any of them could be left out to make the others hold.
-/

namespace Deliberation

/-! ### Errors of compiling -/

/-- A step that fails for some other reason than that constraints cannot hold together. -/
def Undecided {α : Type} (outcome : Except (ProgramError Rat) α) : Prop :=
  Lists.FailsOnly (fun fault => ∀ conflicts, fault ≠ .unsatisfiable conflicts) outcome

namespace LinearScope

variable {scope : LinearScope Rat}

theorem undecided_nonLinear {α : Type} (e : Expr Rat) (fault : LinearFault) :
    Undecided (.error (.nonLinear e fault) : Except (ProgramError Rat) α) :=
  Lists.failsOnly_error fun _ same => by cases same

theorem undecided_unit (column : Nat) : Undecided (scope.unit column) := by
  rw [unit]
  split
  · exact Lists.failsOnly_ok _
  · exact Lists.failsOnly_error fun _ same => by cases same

theorem undecided_constant (e : Expr Rat) (fault : LinearFault) (value : Value Rat) :
    Undecided (scope.constant e fault value) := by
  rw [constant]
  split
  · exact Lists.failsOnly_ok _
  · exact undecided_nonLinear e fault

theorem undecided_combine (e : Expr Rat) (op : ArithOp) (a b : LinearForm Rat) : Undecided (combine e op a b) := by
  cases op with
  | add => exact Lists.failsOnly_ok _
  | sub => exact Lists.failsOnly_ok _
  | mul =>
    rw [combine]
    split
    · exact Lists.failsOnly_ok _
    · split
      · exact Lists.failsOnly_ok _
      · exact undecided_nonLinear e _
  | div =>
    rw [combine]
    split
    · exact Lists.failsOnly_ok _
    · exact undecided_nonLinear e _

theorem undecided_linear : (e : Expr Rat) → Undecided (scope.linear e)
  | .const _ => undecided_constant _ _ _
  | .var name => by
    rw [linear]
    split
    · exact undecided_unit _
    · split
      · exact undecided_constant _ _ _
      · exact Lists.failsOnly_error fun _ same => by cases same
  | .neg operand => by
    rw [linear]
    exact (undecided_linear operand).bind fun _ => Lists.failsOnly_ok _
  | .arith op left right => by
    rw [linear]
    exact (undecided_linear left).bind fun _ => (undecided_linear right).bind fun _ => undecided_combine _ _ _ _
  | .not _ => undecided_nonLinear _ _
  | .compare _ _ _ => undecided_nonLinear _ _
  | .logic _ _ _ => undecided_nonLinear _ _
  | .member _ _ => undecided_nonLinear _ _
  | .call _ _ => undecided_nonLinear _ _

theorem undecided_relation (e : Expr Rat) (op : CompareOp) : Undecided (relation e op) := by
  cases op with
  | ne => exact undecided_nonLinear e _
  | _ => exact Lists.failsOnly_ok _

theorem undecided_rows : (e : Expr Rat) → Undecided (scope.rows e)
  | .logic .and left right => by
    rw [rows]
    exact (undecided_rows left).bind fun _ => (undecided_rows right).bind fun _ => Lists.failsOnly_ok _
  | .compare op left right => by
    rw [rows]
    exact (undecided_relation _ op).bind fun _ =>
      (undecided_linear left).bind fun _ => (undecided_linear right).bind fun _ => Lists.failsOnly_ok _
  | .logic .or _ _ => undecided_nonLinear _ _
  | .logic .implies _ _ => undecided_nonLinear _ _
  | .const _ => undecided_nonLinear _ _
  | .var _ => undecided_nonLinear _ _
  | .neg _ => undecided_nonLinear _ _
  | .arith _ _ _ => undecided_nonLinear _ _
  | .not _ => undecided_nonLinear _ _
  | .member _ _ => undecided_nonLinear _ _
  | .call _ _ => undecided_nonLinear _ _

end LinearScope

namespace LinearProgram

variable {program : LinearProgram Rat} {sense : Sense} {metrics : Env Rat} {compiled : Compiled Rat} {x : Nat → Rat}

/-- Values of the variables, by column, within the bounds of a program at which chosen constraints hold. -/
structure Meets (program : LinearProgram Rat) (metrics : Env Rat) (chosen : List (Constraint Rat)) (x : Nat → Rat) : Prop where
  bounds : ∀ column v, program.vars[column]? = some v →
    v.lower ≤ x column ∧ ∀ upper, v.upper = some upper → x column ≤ upper
  holds : ∀ c ∈ chosen, c.predicate.Admits ((program.scope metrics).columnEnv x)

/-- Constraints that cannot hold together within the bounds of a program, none of which can be left out for that. -/
structure Conflicting (program : LinearProgram Rat) (metrics : Env Rat) (conflict : List (Constraint Rat)) : Prop where
  unsatisfiable : ¬ ∃ x, program.Meets metrics conflict x
  needed : ∀ i < conflict.length, ∃ x, program.Meets metrics (conflict.eraseIdx i) x

theorem Meets.of_sublist {chosen others : List (Constraint Rat)} (sub : chosen.Sublist others)
    (meets : program.Meets metrics others x) : program.Meets metrics chosen x :=
  ⟨meets.bounds, fun c member => meets.holds c (sub.subset member)⟩

/-- An entry has the name of a constraint and its rows. -/
def Reads (program : LinearProgram Rat) (metrics : Env Rat) (c : Constraint Rat)
    (entry : String × List (LinearRow Rat)) : Prop :=
  entry.1 = c.name ∧ (program.scope metrics).rows c.predicate = .ok entry.2

theorem names_of_reads {chosen : List (Constraint Rat)} {entries : List (String × List (LinearRow Rat))}
    (each : List.Forall₂ (program.Reads metrics) chosen entries) : entries.map Prod.fst = chosen.map Constraint.name := by
  induction each with
  | nil => rfl
  | cons reads _ ih => rw [List.map_cons, List.map_cons, reads.1, ih]

/-- That constraints cannot hold together is not found before a program is compiled. -/
theorem undecided_compile : Undecided (program.compile sense metrics) := by
  rw [compile]
  split
  · exact Lists.failsOnly_error fun _ same => by cases same
  · exact (LinearScope.undecided_linear _).bind fun _ =>
      (Lists.failsOnly_mapM fun c _ => (LinearScope.undecided_rows c.predicate).bind fun _ => Lists.failsOnly_ok _).bind
        fun _ => Lists.failsOnly_ok _

/-! ### Conflicts -/

namespace Compiles

variable (compiles : program.Compiles sense metrics compiled)

include compiles

/-- Constraints hold at the values that their rows admit. -/
theorem meets_iff {chosen : List (Constraint Rat)} {entries : List (String × List (LinearRow Rat))}
    (each : List.Forall₂ (program.Reads metrics) chosen entries) :
    program.Meets metrics chosen x ↔ compiled.Admits entries x := by
  have rows : (∀ c ∈ chosen, c.predicate.Admits ((program.scope metrics).columnEnv x)) ↔
      ∀ entry ∈ entries, ∀ row ∈ entry.2, row.Meets compiled.vars.length x := by
    refine Lists.forall_mem_iff_of_forall₂ each ?_
    rintro c entry ⟨_, read⟩
    obtain ⟨long, admits⟩ := LinearScope.admits_rows c.predicate read
    rw [admits]
    refine forall₂_congr fun row member => ?_
    rw [LinearRow.Meets, LinearRow.Meets, LinearRow.left_of_le (long row member).le compiles.wide]
  constructor
  · rintro ⟨bounds, holds⟩
    exact ⟨compiles.vars ▸ bounds, rows.1 holds⟩
  · rintro ⟨bounds, admitted⟩
    exact ⟨compiles.vars ▸ bounds, rows.2 admitted⟩

/-- Where no constraint is chosen, the lower bounds meet the bounds. -/
theorem meets_nil (ordered : ∀ v ∈ program.vars, ∀ upper, v.upper = some upper → v.lower ≤ upper) :
    program.Meets metrics [] fun column => compiled.lower.getD column 0 := by
  refine ⟨fun column v listed => ?_, fun c member => by cases member⟩
  rw [Compiled.lower_getD (compiles.vars ▸ listed)]
  exact ⟨le_rfl, ordered v (List.mem_of_getElem? listed)⟩

/-- What is reported when a compiled program cannot be satisfied, unless bounds are crossed. -/
theorem conflict_optimize (ordered : ∀ v ∈ program.vars, ∀ upper, v.upper = some upper → v.lower ≤ upper)
    {conflicts : List String} (failed : compiled.optimize ⟨0, 0⟩ = .error (.unsatisfiable conflicts)) :
    ∃ conflict, conflict.Sublist program.constraints ∧ conflicts = conflict.map Constraint.name ∧ conflict ≠ [] ∧
      program.Conflicting metrics conflict := by
  have prepares := Simplex.prepares_phaseOne (Compiled.canonical_table compiles.short)
  rw [Compiled.optimize] at failed
  split at failed
  · next v found =>
    have crossed : v.upper.any (· < v.lower) = true := by simpa using List.find?_some found
    obtain ⟨upper, limit, below⟩ := (Option.any_eq_true _ _).1 crossed
    have member := List.mem_of_find?_eq_some found
    rw [compiles.vars] at member
    exact absurd (of_decide_eq_true below) (not_lt.2 (ordered v member upper limit))
  · generalize Simplex.phaseOne ⟨0, 0⟩ (compiled.table compiled.constraints) = prepared at prepares failed
    cases prepares with
    | none empty =>
      obtain ⟨entries, shrunk, shrinks⟩ := Compiled.exists_shrink [] _ compiles.short
      rw [shrunk] at failed
      cases failed
      have alike (chosen : List (Constraint Rat)) (entries : List (String × List (LinearRow Rat)))
          (each : List.Forall₂ (program.Reads metrics) chosen entries) :
          (∃ x, program.Meets metrics chosen x) ↔ ∃ x, compiled.Admits entries x :=
        exists_congr fun x => compiles.meets_iff each
      obtain ⟨conflict, each, shrinks⟩ := shrinks.exists_of_forall₂ alike .nil compiles.constraints
      have fails : ¬ ∃ x, program.Meets metrics program.constraints x := by
        rintro ⟨x, meets⟩
        obtain ⟨y, allows, _⟩ := Compiled.exists_allows compiles.short ((compiles.meets_iff compiles.constraints).1 meets)
        exact empty y allows
      have fewer (chosen others : List (Constraint Rat)) (sub : chosen.Sublist others)
          (holds : ∃ x, program.Meets metrics others x) : ∃ x, program.Meets metrics chosen x :=
        holds.imp fun x meets => meets.of_sublist sub
      obtain ⟨sub, unsatisfiable, needed⟩ := shrinks.minimal fewer fails fun i inside => by cases inside
      refine ⟨conflict, sub, names_of_reads each, ?_, unsatisfiable, needed⟩
      rintro rfl
      exact unsatisfiable ⟨_, compiles.meets_nil ordered⟩
    | @ready ready fits kin =>
      have concludes := Simplex.concludes_phaseTwo fits (compiled.cost ready)
      change (Simplex.phaseTwo ⟨0, 0⟩ (compiled.cost ready) ready).mapError ProgramError.aborted >>= _ = _ at failed
      generalize Simplex.phaseTwo ⟨0, 0⟩ (compiled.cost ready) ready = concluded at concludes failed
      cases concludes <;> cases failed

end Compiles

/-- Where no bounds are crossed and optimizing finds that a program has no solution, it reports some
constraints that cannot hold together within the bounds, though without any one of them the others could. -/
theorem optimize_conflict (ordered : ∀ v ∈ program.vars, ∀ upper, v.upper = some upper → v.lower ≤ upper)
    {conflicts : List String} (failed : program.optimize ⟨0, 0⟩ sense metrics = .error (.unsatisfiable conflicts)) :
    ∃ conflict, conflict.Sublist program.constraints ∧ conflicts = conflict.map Constraint.name ∧ conflict ≠ [] ∧
      program.Conflicting metrics conflict := by
  rw [optimize] at failed
  rcases Lists.bind_eq_error failed with compile | ⟨compiled, done, failed⟩
  · exact (undecided_compile _ compile conflicts rfl).elim
  · exact (compiles_of_compile done).conflict_optimize ordered failed

/-- More errands than there is time for, whether or not the walk is a short one. -/
def errands : LinearProgram Rat where
  vars := [⟨"shop", 0, some 4⟩, ⟨"walk", 0, none⟩]
  objective := .var "walk"
  constraints := [⟨"morning", .compare .lt (.arith .add (.var "shop") (.var "walk")) (.const (.num 3)), 0⟩,
    ⟨"short", .compare .le (.var "walk") (.const (.num 10)), 0⟩,
    ⟨"groceries", .compare .ge (.var "shop") (.const (.num 2)), 0⟩,
    ⟨"dog", .compare .ge (.var "walk") (.const (.num 2)), 0⟩]

theorem errands_conflict : (∀ v ∈ errands.vars, ∀ upper, v.upper = some upper → v.lower ≤ upper) ∧
    errands.optimize ⟨0, 0⟩ .maximize (fun _ => none) = .error (.unsatisfiable ["morning", "groceries", "dog"]) ∧
    ∃ conflict, conflict.Sublist errands.constraints ∧ conflict.map Constraint.name = ["morning", "groceries", "dog"] ∧
      errands.Conflicting (fun _ => none) conflict := by
  have ordered : ∀ v ∈ errands.vars, ∀ upper, v.upper = some upper → v.lower ≤ upper := by
    simp only [errands, List.forall_mem_cons]
    refine ⟨fun upper limit => ?_, fun upper limit => ?_, by simp⟩
    · cases limit
      norm_num
    · cases limit
  have failed : errands.optimize ⟨0, 0⟩ .maximize (fun _ => none) =
      .error (.unsatisfiable ["morning", "groceries", "dog"]) := by with_unfolding_all rfl
  obtain ⟨conflict, sub, names, _, conflicting⟩ := optimize_conflict ordered failed
  exact ⟨ordered, failed, conflict, sub, names.symm, conflicting⟩

end LinearProgram

end Deliberation
