import Deliberation.Decision.Data
import Deliberation.Proofs.Data.Decoding

/-!
Decision trees and risks come back from data. What is written of a tree nests no deeper than the data
that it was read from, in which other keys may stand beside those of the nodes.
-/

namespace Deliberation

open Decode

namespace DecisionNode

variable {options outcomes : Decoded (List (Branch Float))} {entries : List (String × Data)} {rigor : Rigor}

/-! ### Readings -/

/-- A node is read from the branches under its key, or it is an end. -/
theorem ofParts_eq_ok {node : DecisionNode Float} (done : ofParts options outcomes entries rigor = .ok node) :
    (∃ branches, options rigor = .ok branches ∧ node = .decision branches) ∨
      (∃ branches, outcomes rigor = .ok branches ∧ node = .chance branches) ∨ ∃ utility, node = .terminal utility := by
  rcases orElse_eq_ok done with done | done
  · obtain ⟨branches, found, same⟩ := map_eq_ok done
    exact .inl ⟨branches, found, same.symm⟩
  · rcases orElse_eq_ok done with done | done
    · obtain ⟨branches, found, same⟩ := map_eq_ok done
      exact .inr (.inl ⟨branches, found, same.symm⟩)
    · obtain ⟨row, _, done⟩ := bind_eq_ok done
      obtain ⟨utility, _, done⟩ := bind_eq_ok done
      cases done
      exact .inr (.inr ⟨utility, rfl⟩)

theorem decodeUnder_eq_ok {key : String} {branches : List (Branch Float)} (done : decodeUnder key entries rigor = .ok branches) :
    ∃ entry ∈ entries, decodeList entry.2 rigor = .ok branches := by
  induction entries with
  | nil => cases done
  | cons entry rest ih =>
    obtain ⟨name, data⟩ := entry
    rw [decodeUnder] at done
    split at done
    · split at done
      · cases done
      · exact ⟨_, List.mem_cons_self .., done⟩
    · obtain ⟨entry, member, found⟩ := ih done
      exact ⟨entry, List.mem_cons_of_mem _ member, found⟩

theorem decodeItems_eq (items : List Data) : decodeItems items = items.mapM decodeBranch := by
  induction items with
  | nil => rfl
  | cons item rest ih =>
    rw [decodeItems, ih, List.mapM_cons]

/-! ### Depth -/

theorem mem_branchData {branches : List (Branch Float)} {data : Data} (member : data ∈ branchData branches) :
    ∃ branch ∈ branches, data ∈ branchData [branch] := by
  induction branches with
  | nil => cases member
  | cons branch rest ih =>
    obtain ⟨name, probability, node⟩ := branch
    rw [branchData] at member
    rcases List.mem_cons.1 member with rfl | member
    · exact ⟨_, List.mem_cons_self .., by simp [branchData]⟩
    · obtain ⟨branch, here, same⟩ := ih member
      exact ⟨branch, List.mem_cons_of_mem _ here, same⟩

/-- The branches that are read from some data are written no deeper than the data. -/
structure Flat (limit : Nat) (data : Data) : Prop where
  list : ∀ {rigor branches}, decodeList data rigor = .ok branches → Data.Plain Data.IsWord limit (.list (branchData branches))
  branch : ∀ {rigor branch}, decodeBranch data rigor = .ok branch → ∀ written ∈ branchData [branch], written.Plain Data.IsWord limit

/-- A node is written no deeper than the entries that it was read from. -/
theorem plain_entry {limit : Nat} {node : DecisionNode Float} (flat : ∀ entry ∈ entries, Flat limit entry.2)
    (done : ofParts (decodeUnder "options" entries) (decodeUnder "outcomes" entries) entries rigor = .ok node) :
    node.entry.2.Plain Data.IsWord limit := by
  rcases ofParts_eq_ok done with ⟨branches, found, rfl⟩ | ⟨branches, found, rfl⟩ | ⟨utility, rfl⟩
  · obtain ⟨entry, member, found⟩ := decodeUnder_eq_ok found
    exact (flat entry member).list found
  · obtain ⟨entry, member, found⟩ := decodeUnder_eq_ok found
    exact (flat entry member).list found
  · exact .num utility

theorem flat_of_plain {limit : Nat} {data : Data} (plain : data.Plain (fun _ => True) limit) : Flat limit data := by
  induction plain with
  | list _ ih =>
    refine ⟨fun done => .list fun written member => ?_, nofun⟩
    rw [decodeList, decodeItems_eq, mapM_apply] at done
    obtain ⟨branch, here, listed⟩ := mem_branchData member
    obtain ⟨item, given, found⟩ := (Lists.mem_iff_of_mapM done).1 here
    exact (ih item given).branch found written listed
  | record _ ih =>
    refine ⟨nofun, fun done => ?_⟩
    rw [decodeBranch] at done
    obtain ⟨row, _, done⟩ := bind_eq_ok done
    obtain ⟨name, _, done⟩ := bind_eq_ok done
    obtain ⟨probability, _, done⟩ := bind_eq_ok done
    obtain ⟨node, found, done⟩ := bind_eq_ok done
    cases done
    have entry := plain_entry ih found
    simp only [branchData, List.mem_singleton, forall_eq]
    refine .record (List.forall_mem_append.2 ⟨List.forall_mem_append.2 ⟨?_, ?_⟩, ?_⟩)
    · simpa using .text name
    · exact Data.plain_optional fun x _ => .num x
    · simpa using entry
  | _ => exact ⟨nofun, nofun⟩

theorem plain_toData {limit : Nat} {data : Data} {node : DecisionNode Float} (plain : data.Plain (fun _ => True) limit)
    (done : decodeNode data rigor = .ok node) : node.toData.Plain Data.IsWord limit := by
  cases plain with
  | record each =>
    have entry := plain_entry (fun entry member => flat_of_plain (each entry member)) done
    exact .record (by simpa [toData] using entry)
  | _ => cases done

/-- A tree is written no deeper than the data that it was read from, and this can be read to its limit. -/
theorem plain_of_decode {limit : Nat} {data : Data} {node : DecisionNode Float} (done : decode (data.within limit) rigor = .ok node) :
    node.toData.Plain Data.IsWord limit := by
  obtain ⟨readable, done⟩ := whole_eq_ok done
  exact plain_toData (Data.plain_within limit data readable) done

/-! ### Trees -/

theorem decodeUnder_append {key : String} {before : List (String × Data)} (apart : ∀ entry ∈ before, entry.1 ≠ key)
    (entries : List (String × Data)) : decodeUnder key (before ++ entries) = decodeUnder key entries := by
  induction before with
  | nil => rfl
  | cons entry rest ih =>
    obtain ⟨here, later⟩ := List.forall_mem_cons.1 apart
    obtain ⟨name, data⟩ := entry
    rw [List.cons_append, decodeUnder, if_neg here, ih later]

theorem ofParts_options {branches : List (Branch Float)} (done : options rigor = .ok branches) :
    ofParts options outcomes entries rigor = .ok (.decision branches) :=
  orElse_ok (map_ok done)

theorem ofParts_refused {refusal : Refusal} (refused : options rigor = .error refusal) :
    ofParts options outcomes entries rigor = (.chance <$> outcomes <|> do
      let row ← Decode.Row.named [["utility"]] (.record entries)
      return .terminal (← row.required "utility" Decode.number) : Decoded (DecisionNode Float)) rigor :=
  orElse_refused (map_refused refused)

theorem decodeBranch_written (name : String) (probability : Option Float) (node : DecisionNode Float) :
    let entries := [("name", Data.text name)] ++ Data.optional "probability" .num probability ++ [node.entry]
    decodeBranch (.record entries) .strict =
      (do return .mk name probability (← ofParts (decodeUnder "options" entries) (decodeUnder "outcomes" entries) entries) :
        Decoded (Branch Float)) .strict := by
  cases probability <;> cases node <;> rfl

mutual

/-- The entry of a node is read as the node, also behind others. -/
theorem ofParts_entry : (node : DecisionNode Float) → (before : List (String × Data)) →
    (∀ entry ∈ before, entry.1 ∉ ["options", "outcomes", "utility"]) →
    let entries := before ++ [node.entry]
    ofParts (decodeUnder "options" entries) (decodeUnder "outcomes" entries) entries .strict = .ok node
  | .decision options, before, apart => by
    refine ofParts_options ?_
    rw [decodeUnder_append (by grind)]
    exact decodeItems_branchData options
  | .chance outcomes, before, apart => by
    have refused : decodeUnder "options" (before ++ [entry (.chance outcomes)]) .strict = .error .refused := by
      rw [decodeUnder_append (by grind)]
      rfl
    have back : decodeUnder "outcomes" (before ++ [entry (.chance outcomes)]) .strict = .ok outcomes := by
      rw [decodeUnder_append (by grind)]
      exact decodeItems_branchData outcomes
    exact (ofParts_refused refused).trans (orElse_ok (map_ok back))
  | .terminal utility, before, apart => by
    have refused (key : String) (other : key ≠ "utility") (listed : key ∈ ["options", "outcomes", "utility"]) :
        decodeUnder key (before ++ [entry (.terminal utility)]) .strict = .error .refused := by
      rw [decodeUnder_append (by grind)]
      simp [entry, decodeUnder, other.symm]
      rfl
    have found : Row.field ["utility"] (before ++ [entry (.terminal utility)]) = pure (some (.num utility)) :=
      Row.field_append (by grind) (by simp) _
    refine (ofParts_refused (refused "options" (by decide) (by decide))).trans ?_
    refine (orElse_refused (map_refused (refused "outcomes" (by decide) (by decide)))).trans ?_
    simp only [Row.named, List.mapM_cons, List.mapM_nil, found]
    rfl

theorem decodeItems_branchData : (branches : List (Branch Float)) → decodeItems (branchData branches) .strict = .ok branches
  | [] => rfl
  | .mk name probability node :: rest => by
    have here := ofParts_entry node ([("name", .text name)] ++ Data.optional "probability" .num probability) (by
      cases probability <;> simp [Data.optional])
    rw [branchData, decodeItems, bind_ok ((decodeBranch_written name probability node).trans ((bind_ok here).trans rfl)),
      bind_ok (decodeItems_branchData rest)]
    rfl

end

/-- A tree comes back from its record, if the record nests no deeper than the limit. -/
theorem returns {node : DecisionNode Float} {limit : Nat} (plain : node.toData.Plain Data.IsWord limit) :
    Returns decode toData limit node :=
  ⟨plain, whole_back plain.isReadable (ofParts_entry node [] (by simp)) _⟩

end DecisionNode

/-! ### Risks -/

namespace Risk

theorem decode_written (id : String) (description : Option String) (probability impact : Float) (mitigation : Option String) :
    decode (.record ([("id", .text id)] ++ Data.optional "description" .text description ++
      [("probability", .num probability), ("impact", .num impact)] ++ Data.optional "mitigation" .text mitigation)) .strict =
      .ok ⟨id, description.getD "", probability, impact, mitigation⟩ := by
  cases description <;> cases mitigation <;> rfl

/-- A risk comes back; an empty description is left out. -/
theorem returns (risk : Risk Float) (limit : Nat) : Returns decode toData (limit + 1) risk := by
  refine ⟨.record ?_, ?_⟩
  · refine List.forall_mem_append.2 ⟨List.forall_mem_append.2 ⟨List.forall_mem_append.2 ⟨?_, ?_⟩, ?_⟩, ?_⟩
    · simpa using .text risk.id
    · exact Data.plain_optional fun description _ => .text description
    · simpa using ⟨.num risk.probability, .num risk.impact⟩
    · exact Data.plain_optional fun mitigation _ => .text mitigation
  · have described : (if risk.description.isEmpty then none else some risk.description).getD "" = risk.description := by
      split
      · next empty => exact (String.isEmpty_iff.1 empty).symm
      · rfl
    rw [toData, decode_written, described]

end Risk

end Deliberation
