import Deliberation.Planning.Data
import Deliberation.Proofs.Fact.Stored
import Deliberation.Rule.Data

/-!
Rules and operators come back from data. Whichever way a rule was given, it is written in its parts.
-/

namespace Deliberation

open Decode

/-! ### Rules -/

namespace Rule

/-- A rule whose atoms consist of names. -/
structure Named (rule : Rule) : Prop where
  antecedent : ∀ literal ∈ rule.antecedent, literal.atom.Named
  consequent : rule.consequent.Named

theorem named_of_readConjunction {bound : Nat} {text : List Char} {literals : List Literal}
    (done : readConjunction bound text = .ok literals) : ∀ literal ∈ literals, literal.atom.Named := by
  induction bound generalizing text literals with
  | zero =>
    cases done
    simp
  | succ bound ih =>
    rw [readConjunction] at done
    split at done
    · cases done
      simp
    · obtain ⟨literal, read, done⟩ := Lists.bind_eq_ok done
      obtain ⟨others, later, done⟩ := Lists.bind_eq_ok done
      cases done
      exact List.forall_mem_cons.2 ⟨Literal.named_of_read read, ih later⟩

theorem named_of_parse {text : String} {rule : Rule} (done : parse text = .ok rule) : rule.Named := by
  unfold parse at done
  split at done
  · cases done
  · obtain ⟨_, _, done⟩ := Lists.bind_eq_ok done
    obtain ⟨antecedent, literals, done⟩ := Lists.bind_eq_ok done
    obtain ⟨consequent, atom, done⟩ := Lists.bind_eq_ok done
    split at done
    · cases done
    · cases done
      exact ⟨named_of_readConjunction (Lists.mapError_eq_ok literals), Literal.named_of_read (Lists.mapError_eq_ok atom)⟩

theorem named_of_decode {rule : Rule} (known : Read decode rule) : rule.Named := by
  obtain ⟨reading, listed, data, rigor, done⟩ := known.of_firstOf
  simp only [List.mem_cons, List.not_mem_nil, or_false] at listed
  rcases listed with rfl | rfl
  · obtain ⟨s, _, done⟩ := bind_eq_ok done
    cases parsed : parse s with
    | error fault =>
      rw [parsed] at done
      cases fault <;> cases done
    | ok rule =>
      rw [parsed] at done
      cases done
      exact named_of_parse parsed
  · obtain ⟨row, _, done⟩ := bind_eq_ok done
    obtain ⟨name, _, done⟩ := bind_eq_ok done
    obtain ⟨antecedent, literals, done⟩ := bind_eq_ok done
    obtain ⟨consequent, atom, done⟩ := bind_eq_ok done
    cases done
    exact ⟨fun literal member => Literal.named_of_decode (Row.read_of_list literals literal member),
      Atom.named_of_decode (Row.read_of_required atom)⟩

theorem decodeParts_written (name : Option String) (antecedent consequent : Data) :
    decodeParts (.record (Data.optional "name" .text name ++ [("if", antecedent), ("then", consequent)])) .strict =
      (do
        let antecedent ← Decode.list Literal.decode antecedent
        return ⟨name, antecedent, ← Atom.decode consequent⟩ : Decoded Rule) .strict := by
  cases name <;> rfl

/-- A rule of names comes back from its parts. -/
theorem returns {rule : Rule} (named : rule.Named) (limit : Nat) : Returns decode toData (limit + 2) rule := by
  have antecedent : Returns (Decode.list Literal.decode) _ (limit + 1) rule.antecedent :=
    returns_written fun literal member => Literal.returns (named.antecedent literal member) limit
  have consequent := Atom.returns named.consequent (limit + 1)
  have plain : rule.toData.Plain Data.IsWord (limit + 2) :=
    .record (List.forall_mem_append.2 ⟨Data.plain_optional fun _ _ => .text _, by simpa using ⟨antecedent.plain, consequent.plain⟩⟩)
  refine ⟨plain, firstOf_second plain.isReadable rfl ?_ _⟩
  rw [toData, decodeParts_written, bind_ok antecedent.back, bind_ok consequent.back]
  rfl

end Rule

/-! ### Operators -/

namespace Operator

/-- An operator whose atoms consist of names. -/
structure Named (op : Operator) : Prop where
  preconditions : ∀ literal ∈ op.preconditions, literal.atom.Named
  add : ∀ atom ∈ op.add, atom.Named
  delete : ∀ atom ∈ op.delete, atom.Named

theorem named_of_decode {op : Operator} (known : Read decode op) : op.Named := by
  obtain ⟨data, rigor, done⟩ := known
  obtain ⟨row, _, done⟩ := bind_eq_ok done
  obtain ⟨name, _, done⟩ := bind_eq_ok done
  obtain ⟨parameters, _, done⟩ := bind_eq_ok done
  obtain ⟨preconditions, literals, done⟩ := bind_eq_ok done
  obtain ⟨add, added, done⟩ := bind_eq_ok done
  obtain ⟨delete, deleted, done⟩ := bind_eq_ok done
  cases done
  exact ⟨fun literal member => Literal.named_of_decode (Row.read_of_list literals literal member),
    fun atom member => Atom.named_of_decode (Row.read_of_list added atom member),
    fun atom member => Atom.named_of_decode (Row.read_of_list deleted atom member)⟩

theorem decode_written (name : String) (parameters preconditions add delete : Data) :
    decode (.record [("name", .text name), ("parameters", parameters), ("preconditions", preconditions), ("add", add),
      ("delete", delete)]) .strict =
      (do
        let parameters ← Decode.list Decode.text parameters
        let preconditions ← Decode.list Literal.decode preconditions
        let add ← Decode.list Atom.decode add
        return ⟨name, parameters.map parameterName, preconditions, add, ← Decode.list Atom.decode delete⟩ : Decoded Operator) .strict := rfl

theorem plain_toData (op : Operator) (limit : Nat) : op.toData.Plain Data.IsWord (limit + 2) :=
  .record (by simpa using ⟨.text _, Data.plain_texts _ _, Data.plain_texts _ _, Data.plain_texts _ _, Data.plain_texts _ _⟩)

/-- An operator of names comes back if its parameters are written without blanks and marks around them. -/
theorem returns {op : Operator} (named : op.Named) (bare : ∀ parameter ∈ op.parameters, parameterName parameter = parameter)
    (limit : Nat) : Returns decode toData (limit + 2) op := by
  have parameters := returns_texts op.parameters limit
  have preconditions : Returns (Decode.list Literal.decode) _ (limit + 1) op.preconditions :=
    returns_written fun literal member => Literal.returns (named.preconditions literal member) limit
  have add : Returns (Decode.list Atom.decode) _ (limit + 1) op.add :=
    returns_written fun atom member => Atom.returns (named.add atom member) limit
  have delete : Returns (Decode.list Atom.decode) _ (limit + 1) op.delete :=
    returns_written fun atom member => Atom.returns (named.delete atom member) limit
  refine ⟨op.plain_toData limit, ?_⟩
  rw [toData, decode_written, bind_ok parameters.back, bind_ok preconditions.back, bind_ok add.back, bind_ok delete.back,
    List.map_congr_left bare, List.map_id']
  rfl

end Operator

end Deliberation
