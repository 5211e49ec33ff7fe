import Deliberation.Inference.Backward
import Deliberation.Proofs.Inference.Model
import Deliberation.Proofs.Rule.Safe

/-!
The constants at hand. Facts that safe rules derive are made of the constants of facts and rules,
and the instances of the consequents over finitely many constants are finitely many.
-/

namespace Deliberation

/-- Variables are bound to constants of a pool only. -/
def NameMap.Over (bindings : Bindings) (pool : List String) : Prop :=
  ∀ name value, bindings.get? name = some value → value ∈ pool

/-- The arguments of a fact are constants of a pool. -/
def Fact.Over (fact : Fact) (pool : List String) : Prop := ∀ constant ∈ fact.args, constant ∈ pool

/-- The constants of an atom are constants of a pool. -/
def Atom.Over (atom : Atom) (pool : List String) : Prop := ∀ constant ∈ atom.constants, constant ∈ pool

theorem NameMap.over_empty (pool : List String) : Over empty pool := by
  intro name value found
  simp at found

theorem NameMap.Over.insert {bindings : Bindings} {pool : List String} (overPool : Over bindings pool) {name value : String}
    (member : value ∈ pool) : Over (bindings.insert name value) pool := by
  intro other found stored
  by_cases same : other = name
  · simp only [get?_insert, same, if_true, Option.some.injEq] at stored
    exact stored ▸ member
  · simp only [get?_insert, same, if_false] at stored
    exact overPool other found stored

namespace Atom

variable {atom : Atom} {bindings : Bindings} {fact : Fact} {pool : List String}

/-- The values of an atom's variables are arguments of the fact that it becomes. -/
theorem value_mem_args (ground : atom.ground? bindings = some fact) {name value : String} (place : name ∈ atom.vars)
    (bound : bindings.get? name = some value) : value ∈ fact.args := by
  have resolved : bindings.get? name ∈ fact.args.map some := by
    rw [← (ground?_eq_some_iff.1 ground).2]
    exact List.mem_map_of_mem (f := (·.resolve? bindings)) (mem_vars.1 place)
  simpa [bound] using resolved

theorem fact_over (ground : atom.ground? bindings = some fact) (constants : atom.Over pool)
    (values : ∀ name ∈ atom.vars, ∀ value, bindings.get? name = some value → value ∈ pool) : fact.Over pool := by
  intro constant member
  have listed : some constant ∈ atom.terms.map (·.resolve? bindings) := by
    rw [(ground?_eq_some_iff.1 ground).2]
    exact List.mem_map_of_mem member
  obtain ⟨term, among, resolved⟩ := List.mem_map.1 listed
  cases term with
  | const name =>
    have same : name = constant := by simpa using resolved
    exact constants constant (List.mem_filterMap.2 ⟨.const name, among, by simp [same]⟩)
  | var name => exact values name (mem_vars.2 among) constant resolved

theorem matchTerms?_over {terms : List Term} {args : List String} {found : Bindings}
    (matched : matchTerms? bindings terms args = some found) (overPool : bindings.Over pool)
    (members : ∀ constant ∈ args, constant ∈ pool) : found.Over pool := by
  induction terms generalizing args bindings with
  | nil => cases args <;> simp_all [matchTerms?]
  | cons term rest ih =>
    cases args with
    | nil => cases term <;> simp [matchTerms?] at matched
    | cons value values =>
      have later : ∀ constant ∈ values, constant ∈ pool := fun constant member => members constant (by simp [member])
      cases term with
      | const name =>
        simp only [matchTerms?, Option.ite_none_right_eq_some] at matched
        exact ih matched.2 overPool later
      | var name =>
        cases bound : bindings.get? name with
        | some stored =>
          simp only [matchTerms?, bound, Option.ite_none_right_eq_some] at matched
          exact ih matched.2 overPool later
        | none =>
          simp only [matchTerms?, bound] at matched
          exact ih matched (overPool.insert (members value (by simp))) later

theorem match?_over {found : Bindings} (matched : atom.match? fact bindings = some found) (overPool : bindings.Over pool)
    (members : fact.Over pool) : found.Over pool := by
  simp only [match?, Option.ite_none_right_eq_some] at matched
  exact matchTerms?_over matched.2 overPool members

end Atom

namespace Backward

variable {pool names : List String} {bindings : Bindings}

/-- A grounding keeps the bindings, and other names get constants of the pool. -/
theorem groundings_extends {found : Bindings} (member : found ∈ groundings pool names bindings) :
    found.Extends bindings ∧
      ∀ name value, found.get? name = some value → bindings.get? name = some value ∨ value ∈ pool := by
  induction names generalizing bindings with
  | nil =>
    rw [groundings, List.mem_singleton] at member
    exact member ▸ ⟨.refl _, fun _ _ stored => .inl stored⟩
  | cons name rest ih =>
    rw [groundings] at member
    split at member
    · exact ih member
    · next free =>
      obtain ⟨constant, among, later⟩ := List.mem_flatMap.1 member
      obtain ⟨extended, values⟩ := ih later
      have unbound : bindings.get? name = none := by simpa [NameMap.contains] using free
      refine ⟨extended.trans (NameMap.extends_insert unbound), fun other value stored => ?_⟩
      rcases values other value stored with inserted | drawn
      · by_cases same : other = name
        · have drawn : constant = value := by simpa [same] using inserted
          exact .inr (drawn ▸ among)
        · exact .inl (by simpa [same] using inserted)
      · exact .inr drawn

theorem groundings_sound {found : Bindings} (member : found ∈ groundings pool names bindings) :
    found.Extends bindings ∧ ∀ wider, (∀ constant ∈ pool, constant ∈ wider) → bindings.Over wider → found.Over wider := by
  obtain ⟨extended, values⟩ := groundings_extends member
  refine ⟨extended, fun wider subset within name value stored => ?_⟩
  exact (values name value stored).elim (within name value) (subset value)

/-- Below any bindings that take the values of free names from the pool there is a grounding that gives the
names the same values. -/
theorem exists_grounding {whole : Bindings} (extended : whole.Extends bindings)
    (bound : ∀ name ∈ names, ∃ value, whole.get? name = some value ∧ (bindings.get? name = none → value ∈ pool)) :
    ∃ found ∈ groundings pool names bindings, whole.Extends found ∧
      ∀ name ∈ names, found.get? name = whole.get? name := by
  induction names generalizing bindings with
  | nil => exact ⟨bindings, by simp [groundings], extended, by simp⟩
  | cons name rest ih =>
    obtain ⟨value, own, drawn⟩ := bound name (by simp)
    rw [groundings]
    split
    · next present =>
      obtain ⟨found, member, within, agree⟩ := ih extended fun other later => bound other (by simp [later])
      refine ⟨found, member, within, ?_⟩
      obtain ⟨stored, same⟩ := Option.isSome_iff_exists.1 present
      have kept := (groundings_extends member).1 name stored same
      simpa [kept, within name stored kept] using agree
    · next free =>
      have unbound : bindings.get? name = none := by simpa [NameMap.contains] using free
      have later : ∀ other ∈ rest, ∃ constant, whole.get? other = some constant ∧
          ((bindings.insert name value).get? other = none → constant ∈ pool) := by
        intro other member
        obtain ⟨constant, same, drawn⟩ := bound other (by simp [member])
        refine ⟨constant, same, fun absent => drawn ?_⟩
        by_cases equal : other = name
        · exact equal ▸ unbound
        · simpa [equal] using absent
      obtain ⟨found, member, within, agree⟩ := ih (extended.insert own) later
      refine ⟨found, List.mem_flatMap.2 ⟨value, drawn unbound, member⟩, within, ?_⟩
      have kept := (groundings_extends member).1 name value (by simp)
      simpa [kept, own] using agree

/-- Below any bindings with values from the pool there is a grounding that gives the names the same values. -/
theorem groundings_complete {whole : Bindings} (extended : whole.Extends bindings)
    (bound : ∀ name ∈ names, ∃ value ∈ pool, whole.get? name = some value) :
    ∃ found ∈ groundings pool names bindings, whole.Extends found ∧
      ∀ name ∈ names, found.get? name = whole.get? name := by
  refine exists_grounding extended fun name member => ?_
  obtain ⟨value, among, own⟩ := bound name member
  exact ⟨value, own, fun _ => among⟩

theorem length_groundings (distinct : names.Nodup) (free : ∀ name ∈ names, bindings.get? name = none) :
    (groundings pool names bindings).length = pool.length ^ names.length := by
  induction names generalizing bindings with
  | nil => simp [groundings]
  | cons name rest ih =>
    obtain ⟨fresh, distinct⟩ := List.nodup_cons.1 distinct
    have each (constant : String) :
        (groundings pool rest (bindings.insert name constant)).length = pool.length ^ rest.length := by
      refine ih distinct fun other member => ?_
      have apart : other ≠ name := fun same => fresh (same ▸ member)
      simp [apart, free other (by simp [member])]
    rw [groundings]
    simp [NameMap.contains, free name (by simp), List.length_flatMap, each, pow_succ, Nat.mul_comm]

end Backward

namespace Rule

/-- The facts that the consequents of rules become when their variables are bound to constants of a pool. -/
def instances (pool : List String) (rules : List Rule) : List Fact :=
  rules.flatMap fun rule => (Backward.groundings pool rule.consequent.vars .empty).filterMap rule.consequent.ground?

theorem mem_instances {pool : List String} {rules : List Rule} {rule : Rule} {bindings : Bindings} {fact : Fact}
    (member : rule ∈ rules) (ground : rule.consequent.ground? bindings = some fact) (overPool : fact.Over pool) :
    fact ∈ instances pool rules := by
  have bound : ∀ name ∈ rule.consequent.vars, ∃ value ∈ pool, bindings.get? name = some value := by
    intro name place
    obtain ⟨value, stored⟩ := Atom.exists_ground?_iff.1 ⟨fact, ground⟩ name place
    exact ⟨value, overPool value (Atom.value_mem_args ground place stored), stored⟩
  obtain ⟨found, among, _, agree⟩ := Backward.groundings_complete (NameMap.extends_empty bindings) bound
  exact List.mem_flatMap.2 ⟨rule, member, List.mem_filterMap.2 ⟨found, among, (Atom.ground?_congr agree).trans ground⟩⟩

theorem length_instances_le (pool : List String) (rules : List Rule) (start : Nat) :
    start + (instances pool rules).length ≤
      rules.foldl (fun n rule => n + Nat.pow pool.length rule.consequent.vars.length) start := by
  induction rules generalizing start with
  | nil => simp [instances]
  | cons rule rest ih =>
    have own := List.length_filterMap_le rule.consequent.ground? (Backward.groundings pool rule.consequent.vars .empty)
    rw [Backward.length_groundings rule.consequent.nodup_vars (by simp)] at own
    have later := ih (start + Nat.pow pool.length rule.consequent.vars.length)
    have whole : (instances pool (rule :: rest)).length =
        ((Backward.groundings pool rule.consequent.vars .empty).filterMap rule.consequent.ground?).length +
          (instances pool rest).length := by simp [instances]
    rw [List.foldl_cons, whole]
    simp only [Nat.pow_eq] at *
    omega

/-- What a safe rule concludes from facts over a pool is a fact over the pool, where its own constants are. -/
theorem Safe.conclusion_over {rule : Rule} {pool : List String} (safe : rule.Safe) (constants : rule.consequent.Over pool)
    {fails : Fact → Prop} {fact : Fact} (concludes : rule.Concludes (·.Over pool) fails fact) : fact.Over pool := by
  obtain ⟨bindings, ground, positives, _⟩ := concludes
  refine Atom.fact_over ground constants fun name place value stored => ?_
  obtain ⟨atom, among, here⟩ := List.mem_flatMap.1 (safe name (List.mem_append_left _ place))
  obtain ⟨premise, overPool, becomes⟩ := positives atom among
  exact overPool value (Atom.value_mem_args becomes here stored)

section Vocabulary

variable {facts : FactSet} {rules : List Rule} {pool : List String}

/-- A pool that has all constants of facts and rules. -/
def Covers (pool : List String) (facts : FactSet) (rules : List Rule) : Prop :=
  ∀ constant ∈ vocabulary facts rules, constant ∈ pool

theorem Covers.fact (covers : Covers pool facts rules) {fact : Fact} (known : fact ∈ facts) : fact.Over pool := by
  intro constant member
  refine covers constant (OrdSet.mem_insertAll.2 (.inr (OrdSet.mem_ofList.2 ?_)))
  exact List.mem_flatMap.2 ⟨fact, known, member⟩

private theorem Covers.rule (covers : Covers pool facts rules) {rule : Rule} (member : rule ∈ rules) {constant : String}
    (among : constant ∈ rule.constants) : constant ∈ pool :=
  covers constant (OrdSet.mem_insertAll.2 (.inl (List.mem_flatMap.2 ⟨rule, member, among⟩)))

theorem Covers.consequent (covers : Covers pool facts rules) {rule : Rule} (member : rule ∈ rules) :
    rule.consequent.Over pool :=
  fun _ among => covers.rule member (List.mem_append_left _ among)

theorem Covers.literal (covers : Covers pool facts rules) {rule : Rule} (member : rule ∈ rules) {atom : Atom}
    (among : atom ∈ rule.positives ∨ atom ∈ rule.negatives) : atom.Over pool := by
  intro constant place
  have listed : ∃ literal ∈ rule.antecedent, literal.atom = atom := by
    rcases among with among | among
    · obtain ⟨literal, kept, same⟩ := List.mem_map.1 among
      exact ⟨literal, (List.mem_filter.1 kept).1, same⟩
    · obtain ⟨literal, kept, same⟩ := List.mem_map.1 among
      exact ⟨literal, (List.mem_filter.1 kept).1, same⟩
  obtain ⟨literal, listed, rfl⟩ := listed
  exact covers.rule member (List.mem_append_right _ (List.mem_flatMap.2 ⟨literal, listed, place⟩))

theorem Covers.conclusion (covers : Covers pool facts rules) {rule : Rule} (member : rule ∈ rules) (safe : rule.Safe)
    {fails : Fact → Prop} {fact : Fact} (concludes : rule.Concludes (·.Over pool) fails fact) : fact.Over pool :=
  safe.conclusion_over (covers.consequent member) concludes

end Vocabulary

end Rule

theorem Inference.Derivable.overPool {facts : FactSet} {rules : List Rule} {pool : List String} {fails : Fact → Prop}
    {avoided : List Fact} {fact : Fact} (covers : Rule.Covers pool facts rules) (safe : ∀ rule ∈ rules, rule.Safe)
    (derivable : Derivable facts rules fails avoided fact) : fact.Over pool := by
  obtain ⟨steps, within⟩ := derivable
  induction steps generalizing fact with
  | zero => exact covers.fact within
  | succ steps ih =>
    rcases within with known | ⟨_, rule, member, concludes⟩
    · exact covers.fact known
    · exact covers.conclusion member (safe rule member) (concludes.imp (fun _ => ih) fun _ => id)

end Deliberation
