import Deliberation.Planning.Operator
import Deliberation.Proofs.Fact.Bindings

/-!
Operators and their actions. Validation accepts exactly the operators whose parameters differ and
cover every variable; the action of such an operator depends on the values of the parameters alone,
and its arguments make it again.
-/

namespace Deliberation

theorem Literal.atom_mem_of_positives {literals : List Literal} {atom : Atom} (member : atom ∈ positives literals) :
    atom ∈ literals.map Literal.atom := by
  obtain ⟨literal, kept, same⟩ := List.mem_map.1 member
  exact List.mem_map.2 ⟨literal, (List.mem_filter.1 kept).1, same⟩

theorem Literal.atom_mem_of_negatives {literals : List Literal} {atom : Atom} (member : atom ∈ negatives literals) :
    atom ∈ literals.map Literal.atom := by
  obtain ⟨literal, kept, same⟩ := List.mem_map.1 member
  exact List.mem_map.2 ⟨literal, (List.mem_filter.1 kept).1, same⟩

namespace Operator

variable {op : Operator} {bindings : Bindings} {ground : GroundAction}

/-- The parameters differ, and every variable is one of them. -/
structure Valid (op : Operator) : Prop where
  distinct : op.parameters.Nodup
  declared : ∀ atom ∈ op.atoms, ∀ name ∈ atom.vars, name ∈ op.parameters

theorem repeatedParameter?_eq_none_iff : op.repeatedParameter? = none ↔ op.parameters.Nodup := by
  rw [repeatedParameter?, Option.map_eq_none_iff, List.find?_eq_none, List.nodup_iff_getElem?_ne_getElem?]
  constructor
  · intro fresh i j before inside same
    have entry : (op.parameters[j], j) ∈ op.parameters.zipIdx := by
      rw [List.mk_mem_zipIdx_iff_getElem?, List.getElem?_eq_getElem inside]
    have earlier : op.parameters[j] ∈ op.parameters.take j := by
      rw [List.mem_take_iff_getElem]
      have own : op.parameters[i] = op.parameters[j] := by
        rw [List.getElem?_eq_getElem (by omega), List.getElem?_eq_getElem inside] at same
        exact Option.some.inj same
      exact ⟨i, by omega, own⟩
    have contained : (op.parameters.take j).contains op.parameters[j] = true := List.contains_iff_mem.2 earlier
    exact fresh _ entry contained
  · rintro differ ⟨name, j⟩ entry contained
    rw [List.mk_mem_zipIdx_iff_getElem?] at entry
    obtain ⟨inside, _⟩ := List.getElem?_eq_some_iff.1 entry
    obtain ⟨i, before, own⟩ := List.mem_take_iff_getElem.1 (List.contains_iff_mem.1 contained)
    refine differ i j (by omega) inside ?_
    rw [entry, List.getElem?_eq_getElem (by omega), own]

theorem unknownParameter?_eq_none_iff {atom : Atom} :
    op.unknownParameter? atom = none ↔ ∀ name ∈ atom.vars, name ∈ op.parameters := by
  simp [unknownParameter?]

/-- Validation accepts exactly the valid operators. -/
theorem validate_eq_ok_iff : op.validate = .ok () ↔ op.Valid := by
  rw [validate]
  cases repeated : op.repeatedParameter? with
  | some name =>
    simp only [reduceCtorEq, false_iff]
    intro valid
    rw [repeatedParameter?_eq_none_iff.2 valid.distinct] at repeated
    cases repeated
  | none =>
    have distinct := repeatedParameter?_eq_none_iff.1 repeated
    cases unknown : op.atoms.findSome? op.unknownParameter? with
    | some fault =>
      simp only [reduceCtorEq, false_iff]
      intro valid
      obtain ⟨atom, member, found⟩ := List.exists_of_findSome?_eq_some unknown
      rw [unknownParameter?_eq_none_iff.2 (valid.declared atom member)] at found
      cases found
    | none =>
      have declared := List.findSome?_eq_none_iff.1 unknown
      simp only [true_iff]
      exact ⟨distinct, fun atom member => unknownParameter?_eq_none_iff.1 (declared atom member)⟩

theorem validateAll_eq_ok_iff {operators : List Operator} :
    operators.forM Operator.validate = .ok () ↔ ∀ op ∈ operators, op.Valid := by
  rw [Lists.forM_eq_ok_iff]
  exact forall₂_congr fun op _ => validate_eq_ok_iff

/-- An action has the parameters' values as arguments, and the facts that the operator's atoms become. -/
structure Grounds (op : Operator) (bindings : Bindings) (ground : GroundAction) : Prop where
  operator : ground.action.operator = op.name
  args : op.parameters.map bindings.get? = ground.action.args.map some
  requires : (Literal.positives op.preconditions).map (·.ground? bindings) = ground.requires.map some
  forbids : (Literal.negatives op.preconditions).map (·.ground? bindings) = ground.forbids.map some
  add : op.add.map (·.ground? bindings) = ground.add.map some
  delete : op.delete.map (·.ground? bindings) = ground.delete.map some

theorem ground?_eq_some_iff : op.ground? bindings = some ground ↔ op.Grounds bindings ground := by
  simp only [ground?, groundAll?, Option.pure_def, Option.bind_eq_bind, Option.bind_eq_some_iff,
    Lists.mapM_eq_some_iff, Option.some.injEq]
  constructor
  · rintro ⟨args, read, requires, required, forbids, forbidden, add, added, delete, deleted, rfl⟩
    exact ⟨rfl, read, required, forbidden, added, deleted⟩
  · rintro ⟨operator, args, requires, forbids, add, delete⟩
    refine ⟨_, args, _, requires, _, forbids, _, add, _, delete, ?_⟩
    rw [← operator]

/-- The action of a valid operator depends on the parameters' values alone. -/
theorem Valid.ground?_congr (valid : op.Valid) {other : Bindings}
    (agree : ∀ name ∈ op.parameters, other.get? name = bindings.get? name)
    (grounds : op.ground? bindings = some ground) : op.ground? other = some ground := by
  have same {atoms : List Atom} (subset : atoms ⊆ op.atoms) :
      atoms.map (·.ground? other) = atoms.map (·.ground? bindings) := by
    refine List.map_congr_left fun atom member => Atom.ground?_congr fun name place => ?_
    exact agree name (valid.declared atom (subset member) name place)
  have parts := ground?_eq_some_iff.1 grounds
  refine ground?_eq_some_iff.2 ⟨parts.operator, ?_, ?_, ?_, ?_, ?_⟩
  · rw [List.map_congr_left agree, parts.args]
  · rw [same, parts.requires]
    intro atom member
    simp [atoms, Literal.atom_mem_of_positives member]
  · rw [same, parts.forbids]
    intro atom member
    simp [atoms, Literal.atom_mem_of_negatives member]
  · rw [same, parts.add]
    intro atom member
    simp [atoms, member]
  · rw [same, parts.delete]
    intro atom member
    simp [atoms, member]

/-- The parameters with the arguments of an action, as bindings. -/
def argumentsOf (op : Operator) (ground : GroundAction) : Bindings := .ofList (op.parameters.zip ground.action.args)

theorem Valid.get?_argumentsOf_eq_some_iff (valid : op.Valid) (grounds : op.Grounds bindings ground) {name value : String} :
    (op.argumentsOf ground).get? name = some value ↔ (name, value) ∈ op.parameters.zip ground.action.args := by
  have size : op.parameters.length = ground.action.args.length := by simpa using congrArg List.length grounds.args
  refine NameMap.get?_ofList_eq_some_iff ?_
  rw [List.map_fst_zip size.le]
  exact valid.distinct

/-- The arguments of an action are the values of the parameters. -/
theorem Valid.get?_argumentsOf (valid : op.Valid) (grounds : op.Grounds bindings ground) {name : String}
    (declared : name ∈ op.parameters) : (op.argumentsOf ground).get? name = bindings.get? name := by
  obtain ⟨value, paired, bound⟩ := Lists.exists_mem_zip grounds.args declared
  rw [bound, valid.get?_argumentsOf_eq_some_iff grounds]
  exact paired

theorem Valid.contains_argumentsOf (valid : op.Valid) (grounds : op.Grounds bindings ground) (name : String) :
    (op.argumentsOf ground).contains name ↔ name ∈ op.parameters := by
  rw [NameMap.contains, Option.isSome_iff_exists]
  simp only [valid.get?_argumentsOf_eq_some_iff grounds]
  constructor
  · rintro ⟨value, paired⟩
    exact (List.of_mem_zip paired).1
  · intro declared
    obtain ⟨value, paired, _⟩ := Lists.exists_mem_zip grounds.args declared
    exact ⟨value, paired⟩

/-- The arguments of an action make it again. -/
theorem Valid.instantiate_args (valid : op.Valid) (grounds : op.ground? bindings = some ground) :
    op.instantiate ground.action.args = .ok ground := by
  have parts := ground?_eq_some_iff.1 grounds
  have size : ground.action.args.length = op.parameters.length := by simpa using (congrArg List.length parts.args).symm
  rw [instantiate, if_pos size, ← argumentsOf, valid.ground?_congr (fun _ => valid.get?_argumentsOf parts) grounds]

end Operator

namespace GroundAction

variable {ground : GroundAction} {state : FactSet}

theorem applicable_iff : ground.applicable state = true ↔
    (∀ fact ∈ ground.requires, fact ∈ state) ∧ ∀ fact ∈ ground.forbids, fact ∉ state := by
  simp [applicable]

/-- Nothing stands in the way of exactly the applicable actions. -/
theorem unmet_eq_nil_iff : ground.unmet state = [] ↔ ground.applicable state = true := by
  simp [applicable_iff, unmet]

theorem mem_foldl_erase {deleted : List Fact} {fact : Fact} :
    fact ∈ deleted.foldl (fun state fact => state.erase fact) state ↔ fact ∈ state ∧ fact ∉ deleted := by
  induction deleted generalizing state with
  | nil => simp
  | cons first rest ih => rw [List.foldl_cons, ih, OrdSet.mem_erase, List.mem_cons, not_or, and_assoc]

theorem mem_apply {fact : Fact} :
    fact ∈ ground.apply state ↔ fact ∈ ground.add ∨ fact ∈ state ∧ fact ∉ ground.delete := by
  rw [apply, OrdSet.mem_insertAll, mem_foldl_erase]

end GroundAction

end Deliberation
