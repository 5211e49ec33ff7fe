import Deliberation.Constraint.Data
import Deliberation.Proofs.Data.Decoding
import Deliberation.Proofs.Expr.RoundTrip

/-!
Variables and constraints come back from data: variables as a list, and a constraint in its parts,
whichever way they were given. The text of a predicate is what its own printing makes of it.
-/

namespace Deliberation

open Decode

/-! ### Values and variables -/

theorem Value.returns (value : Value Float) (limit : Nat) : Returns decode toData limit value := by
  cases value with
  | bool b => exact ⟨.bool b, rfl⟩
  | int n =>
    refine ⟨.int (Data.isWord_toInt n), ?_⟩
    simp only [toData, decode, int64?_toInt]
    rfl
  | num x => exact ⟨.num x, rfl⟩
  | sym s => exact ⟨.text s, rfl⟩

theorem int64_back (n : Int64) : int64 (.int n.toInt) .strict = .ok n := by
  simp only [int64, int64?_toInt]
  rfl

namespace Domain

theorem decodeRange_written (min max step : Data) :
    decodeRange (.record [("min", min), ("max", max), ("step", step)]) .strict =
      (do
        let min ← int64 min
        let max ← int64 max
        return .range min max (← int64 step) : Decoded (Domain Float)) .strict := rfl

theorem returns (domain : Domain Float) (limit : Nat) : Returns decode toData (limit + 1) domain := by
  cases domain with
  | listed values =>
    have list : Returns (Decode.list Value.decode) _ (limit + 1) values := returns_list fun value _ => value.returns limit
    refine ⟨list.plain, firstOf_first list.plain.isReadable ?_ _⟩
    exact (bind_ok list.back).trans rfl
  | range min max step =>
    have plain : (toData (.range min max step)).Plain Data.IsWord (limit + 1) :=
      .record (by simpa using ⟨.int (Data.isWord_toInt min), .int (Data.isWord_toInt max), .int (Data.isWord_toInt step)⟩)
    refine ⟨plain, firstOf_second plain.isReadable rfl ?_ _⟩
    rw [toData, decodeRange_written, bind_ok (int64_back min), bind_ok (int64_back max), bind_ok (int64_back step)]
    rfl

end Domain

namespace Variable

theorem decode_written (name : String) (domain : Data) :
    decode (.record [("name", .text name), ("domain", domain)]) .strict =
      (do return ⟨name, ← Domain.decode domain⟩ : Decoded (Variable Float)) .strict := rfl

theorem returns (v : Variable Float) (limit : Nat) : Returns decode toData (limit + 2) v := by
  have domain := v.domain.returns limit
  refine ⟨.record (by simpa using ⟨.text _, domain.plain⟩), ?_⟩
  rw [toData, decode_written, bind_ok domain.back]
  rfl

/-- Variables come back from the list of them. -/
theorem returns_all (vars : List (Variable Float)) (limit : Nat) :
    Returns decodeAll (fun vars => .list (vars.map toData)) (limit + 3) vars := by
  have list : Returns (Decode.list decode) _ (limit + 3) vars := returns_list fun v _ => v.returns limit
  exact ⟨list.plain, firstOf_first list.plain.isReadable list.back _⟩

end Variable

/-! ### Constraints -/

namespace Constraint

theorem free_of_decode {c : Constraint Float} (known : Read decode c) : Expr.Free c.predicate := by
  obtain ⟨reading, listed, data, rigor, done⟩ := known.of_firstOf
  simp only [List.mem_cons, List.not_mem_nil, or_false] at listed
  rcases listed with rfl | rfl
  · obtain ⟨s, _, done⟩ := bind_eq_ok done
    obtain ⟨predicate, read, done⟩ := bind_eq_ok done
    cases done
    obtain ⟨_, parsed⟩ := Read.of_parsed ⟨_, _, read⟩
    exact Expr.free_of_parse parsed
  · obtain ⟨row, _, done⟩ := bind_eq_ok done
    obtain ⟨name, _, done⟩ := bind_eq_ok done
    obtain ⟨predicate, read, done⟩ := bind_eq_ok done
    obtain ⟨weight, _, done⟩ := bind_eq_ok done
    cases done
    obtain ⟨_, parsed⟩ := (Row.read_of_required read).of_parsed
    exact Expr.free_of_parse parsed

theorem decodeParts_written (name : String) (predicate : Data) (weight : Float) :
    decodeParts (.record [("name", .text name), ("predicate", predicate), ("weight", .num weight)]) .strict =
      (do return ⟨name, ← Decode.parsed Expr.parse predicate, weight⟩ : Decoded (Constraint Float)) .strict := rfl

theorem plain_toData (c : Constraint Float) (limit : Nat) : c.toData.Plain Data.IsWord (limit + 1) :=
  .record (by simpa using ⟨.text _, .text _, .num _⟩)

/-- A constraint comes back if its predicate is read from its text. -/
theorem returns {c : Constraint Float} (parses : Expr.parse c.predicate.text = .ok c.predicate) (limit : Nat) :
    Returns decode toData (limit + 1) c := by
  have plain := c.plain_toData limit
  refine ⟨plain, firstOf_second plain.isReadable rfl ?_ _⟩
  rw [toData, decodeParts_written, bind_ok (parsed_back parses _)]
  rfl

end Constraint

end Deliberation
