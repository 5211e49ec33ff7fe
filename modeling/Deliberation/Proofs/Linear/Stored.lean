import Deliberation.Linear.Data
import Deliberation.Proofs.Constraint.Stored

/-!
Linear programs come back from data, if the texts of their expressions do.
-/

namespace Deliberation

open Decode

theorem ProgramVariable.returns (v : ProgramVariable Float) (limit : Nat) : Returns decode toData (limit + 1) v := by
  have plain : v.toData.Plain Data.IsWord (limit + 1) :=
    .record (List.forall_mem_append.2 ⟨by simpa using ⟨.text _, .num _⟩, Data.plain_optional fun x _ => .num x⟩)
  refine ⟨plain, ?_⟩
  obtain ⟨name, lower, upper⟩ := v
  cases upper <;> rfl

namespace LinearProgram

/-- The objective and the predicates of the constraints. -/
def expressions (program : LinearProgram Float) : List (Expr Float) :=
  program.objective :: program.constraints.map Constraint.predicate

theorem free_of_decode {program : LinearProgram Float} (known : Read decode program) : ∀ e ∈ program.expressions, Expr.Free e := by
  obtain ⟨data, rigor, done⟩ := known
  obtain ⟨row, _, done⟩ := bind_eq_ok done
  obtain ⟨vars, _, done⟩ := bind_eq_ok done
  obtain ⟨objective, read, done⟩ := bind_eq_ok done
  obtain ⟨constraints, listed, done⟩ := bind_eq_ok done
  cases done
  obtain ⟨_, parsed⟩ := (Row.read_of_required read).of_parsed
  refine List.forall_mem_cons.2 ⟨Expr.free_of_parse parsed, List.forall_mem_map.2 fun c member => ?_⟩
  exact Constraint.free_of_decode (Row.read_of_list listed c member)

theorem decode_written (vars objective constraints : Data) :
    decode (.record [("variables", vars), ("objective", objective), ("subject_to", constraints)]) .strict =
      (do
        let vars ← Decode.list ProgramVariable.decode vars
        let objective ← Decode.parsed Expr.parse objective
        return ⟨vars, objective, ← Decode.list Constraint.decode constraints⟩ : Decoded (LinearProgram Float)) .strict := rfl

theorem plain_entries (program : LinearProgram Float) (limit : Nat) :
    ∀ entry ∈ program.entries, entry.2.Plain Data.IsWord (limit + 2) := by
  have vars := Data.plain_list fun v (_ : v ∈ program.vars) => (v.returns limit).plain
  have constraints := Data.plain_list fun c (_ : c ∈ program.constraints) => c.plain_toData limit
  simpa [entries] using ⟨vars, .text _, constraints⟩

/-- A program comes back if its expressions are read from their texts. -/
theorem returns {program : LinearProgram Float} (parses : ∀ e ∈ program.expressions, Expr.parse e.text = .ok e) (limit : Nat) :
    Returns decode (fun program => .record program.entries) (limit + 3) program := by
  obtain ⟨objective, constraints⟩ := List.forall_mem_cons.1 parses
  have vars : Returns (Decode.list ProgramVariable.decode) _ (limit + 2) program.vars := returns_list fun v _ => v.returns limit
  have listed : Returns (Decode.list Constraint.decode) _ (limit + 2) program.constraints :=
    returns_list fun c member => Constraint.returns (constraints _ (List.mem_map_of_mem member)) limit
  refine ⟨.record (program.plain_entries limit), ?_⟩
  rw [entries, decode_written, bind_ok vars.back, bind_ok (parsed_back objective _), bind_ok listed.back]
  rfl

end LinearProgram

end Deliberation
