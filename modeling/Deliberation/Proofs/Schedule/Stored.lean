import Deliberation.Proofs.Linear.Stored
import Deliberation.Schedule.Report

/-!
Activities, resources, links and objectives come back from data. Demands are written as a list and links
in their parts, whichever way they were given.
-/

namespace Deliberation

open Decode

theorem Demand.returns (demand : Demand Float) (limit : Nat) : Returns decode toData (limit + 1) demand := by
  have plain : demand.toData.Plain Data.IsWord (limit + 1) :=
    .record (List.forall_mem_append.2 ⟨by simpa using ⟨.text _, .num _⟩, Data.plain_optional fun skill _ => .text skill⟩)
  refine ⟨plain, ?_⟩
  obtain ⟨resource, quantity, skill⟩ := demand
  cases skill <;> rfl

/-- Demands come back from the list of them. -/
theorem Demand.returns_all (demands : List (Demand Float)) (limit : Nat) :
    Returns decodeAll (fun demands => .list (demands.map toData)) (limit + 2) demands := by
  have list : Returns (Decode.list decode) _ (limit + 2) demands := returns_list fun demand _ => demand.returns limit
  exact ⟨list.plain, firstOf_second list.plain.isReadable rfl list.back _⟩

/-! ### Distributions -/

theorem Outcome.returns (outcome : Outcome Float) (limit : Nat) : Returns decode toData (limit + 1) outcome :=
  ⟨.record (by simpa [toData] using ⟨.num _, .num _⟩), rfl⟩

namespace Distribution

theorem returns (distribution : Distribution Float) (limit : Nat) : Returns decode toData (limit + 3) distribution := by
  cases distribution with
  | discrete outcomes =>
    have list : Returns (Decode.list Outcome.decode) _ (limit + 2) outcomes := returns_list fun outcome _ => outcome.returns limit
    have plain : ∀ entry ∈ [("outcomes", Data.list (outcomes.map Outcome.toData))], entry.2.Plain Data.IsWord (limit + 2) := by
      simpa using list.plain
    exact ⟨.record (List.forall_mem_cons.2 ⟨.text _, plain⟩), tagged_back plain (by simp) ((bind_ok list.back).trans rfl) _⟩
  | fixed value => exact ⟨.record (by simpa using ⟨.text _, .num _⟩), rfl⟩
  | uniform min max => exact ⟨.record (by simpa using ⟨.text _, .num _, .num _⟩), rfl⟩
  | triangular min mode max => exact ⟨.record (by simpa using ⟨.text _, .num _, .num _, .num _⟩), rfl⟩

theorem toData_ne_null (distribution : Distribution Float) : distribution.toData ≠ .null := by cases distribution <;> nofun

end Distribution

/-! ### Activities and resources -/

namespace Activity

theorem decode_written (name : String) (duration : Float) (distribution : Option (Distribution Float)) (demands predecessors : Data)
    (parallel : Bool) :
    decode (.record ([("name", .text name), ("duration", .num duration)] ++
      Data.optional "distribution" Distribution.toData distribution ++
      [("demands", demands), ("predecessors", predecessors), ("can_parallel", .bool parallel)])) .strict =
      (do
        let distribution ← match distribution with
          | none => pure none
          | some given => Decode.option Distribution.decode given.toData
        let demands ← Demand.decodeAll demands
        return ⟨name, duration, distribution, demands, ← Decode.list Decode.text predecessors, parallel⟩ :
          Decoded (Activity Float)) .strict := by
  cases distribution <;> rfl

theorem returns (activity : Activity Float) (limit : Nat) : Returns decode toData (limit + 4) activity := by
  obtain ⟨name, duration, distribution, demands, predecessors, parallel⟩ := activity
  have listed := Demand.returns_all demands (limit + 1)
  have texts := returns_texts predecessors (limit + 2)
  refine ⟨.record ?_, ?_⟩
  · refine List.forall_mem_append.2 ⟨List.forall_mem_append.2 ⟨by simpa using ⟨.text _, .num _⟩, ?_⟩, ?_⟩
    · exact Data.plain_optional fun given _ => (given.returns limit).plain
    · simpa using ⟨listed.plain, texts.plain, .bool _⟩
  · rw [toData, decode_written]
    cases distribution with
    | none => exact (bind_ok listed.back).trans ((bind_ok texts.back).trans rfl)
    | some given =>
      have back := option_back given.toData_ne_null (given.returns limit).back
      exact (bind_ok back).trans ((bind_ok listed.back).trans ((bind_ok texts.back).trans rfl))

end Activity

namespace Resource

theorem decode_written (name : String) (capacity : Float) (renewable : Bool) (skills : Data) :
    decode (.record [("name", .text name), ("capacity", .num capacity), ("renewable", .bool renewable), ("skills", skills)]) .strict =
      (do return ⟨name, capacity, renewable, ← Decode.list Decode.text skills⟩ : Decoded (Resource Float)) .strict := rfl

theorem returns (resource : Resource Float) (limit : Nat) : Returns decode toData (limit + 2) resource := by
  have skills := returns_texts resource.skills limit
  refine ⟨.record (by simpa using ⟨.text _, .num _, .bool _, skills.plain⟩), ?_⟩
  rw [toData, decode_written, bind_ok skills.back]
  rfl

end Resource

theorem Precedence.returns (link : Precedence) (limit : Nat) : Returns decode toData (limit + 1) link := by
  have plain : link.toData.Plain Data.IsWord (limit + 1) := .record (by simpa using ⟨.text _, .text _⟩)
  exact ⟨plain, firstOf_second plain.isReadable rfl rfl _⟩

/-! ### Objectives -/

namespace Objective

/-- The expressions of the program, if there is one. -/
def expressions (objective : Objective Float) : List (Expr Float) :=
  match objective.program? with
  | some (program, _) => program.expressions
  | none => []

theorem free_of_decode {objective : Objective Float} (known : Read decode objective) : ∀ e ∈ objective.expressions, Expr.Free e := by
  obtain ⟨sense, data, outcome, read, done⟩ := known.of_tagged
  split at read
  · cases read
    cases done
    nofun
  · cases read
    cases done
    nofun
  · cases read
    obtain ⟨program, read, done⟩ := bind_eq_ok done
    cases done
    exact LinearProgram.free_of_decode ⟨_, _, read⟩
  · cases read
    obtain ⟨program, read, done⟩ := bind_eq_ok done
    cases done
    exact LinearProgram.free_of_decode ⟨_, _, read⟩
  · cases read
    cases done

theorem plain_toData (objective : Objective Float) (limit : Nat) : objective.toData.Plain Data.IsWord (limit + 3) := by
  cases objective with
  | minimizeMakespan => exact .record (by simpa using .text _)
  | minimizeCost program => exact .record (List.forall_mem_cons.2 ⟨.text _, program.plain_entries limit⟩)
  | maximizeQuality program => exact .record (List.forall_mem_cons.2 ⟨.text _, program.plain_entries limit⟩)

/-- An objective comes back if its expressions are read from their texts. -/
theorem returns {objective : Objective Float} (parses : ∀ e ∈ objective.expressions, Expr.parse e.text = .ok e) (limit : Nat) :
    Returns decode toData (limit + 3) objective := by
  have apart (program : LinearProgram Float) : ∀ entry ∈ program.entries, entry.1 ≠ "sense" := by simp [LinearProgram.entries]
  refine ⟨objective.plain_toData limit, ?_⟩
  cases objective with
  | minimizeMakespan => rfl
  | minimizeCost program =>
    have returned : Returns LinearProgram.decode _ _ program := LinearProgram.returns parses limit
    exact tagged_back (program.plain_entries limit) (apart program) ((bind_ok returned.back).trans rfl) _
  | maximizeQuality program =>
    have returned : Returns LinearProgram.decode _ _ program := LinearProgram.returns parses limit
    exact tagged_back (program.plain_entries limit) (apart program) ((bind_ok returned.back).trans rfl) _

end Objective

end Deliberation
