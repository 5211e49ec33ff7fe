import Deliberation.Proofs.Fact.Bindings
import Deliberation.Rule.Basic
import Mathlib.Data.Set.Card
import Mathlib.Logic.Relation

/-!
The meaning of rules with negation. Predicates have levels such that a rule asks for facts of at
most its own level and for the absence of facts of lower levels; the model saturates the facts
level by level, from the lowest up.
-/

namespace Deliberation

namespace Rule

/-- Under some bindings the rule concludes the fact, its positive literals are facts of one kind and its
negated literals facts of another. -/
def Concludes (rule : Rule) (holds fails : Fact → Prop) (fact : Fact) : Prop :=
  ∃ bindings, rule.consequent.ground? bindings = some fact ∧
    Atom.AllAre holds rule.positives bindings ∧ Atom.AllAre fails rule.negatives bindings

theorem Concludes.imp {rule : Rule} {holds fails holds' fails' : Fact → Prop} {fact : Fact}
    (positive : ∀ premise, holds premise → holds' premise) (negative : ∀ absent, fails absent → fails' absent)
    (concludes : rule.Concludes holds fails fact) : rule.Concludes holds' fails' fact := by
  obtain ⟨bindings, ground, premises, absent⟩ := concludes
  exact ⟨bindings, ground, premises.imp positive, absent.imp negative⟩

theorem Concludes.predicate_eq {rule : Rule} {holds fails : Fact → Prop} {fact : Fact}
    (concludes : rule.Concludes holds fails fact) : fact.predicate = rule.consequent.predicate := by
  obtain ⟨bindings, ground, _, _⟩ := concludes
  exact Atom.predicate_of_ground? ground

/-- A predicate is used by another one when a rule that concludes the latter asks for it or for its absence. -/
def Uses (rules : List Rule) (user used : String) : Prop :=
  ∃ rule ∈ rules, rule.consequent.predicate = user ∧
    ∃ atom ∈ rule.positives ++ rule.negatives, atom.predicate = used

/-- A predicate depends on those that it uses, on what these use, and so on. -/
def DependsOn (rules : List Rule) : String → String → Prop := Relation.ReflTransGen (Uses rules)

/-- No predicate depends on itself through a negated literal. -/
def Stratified (rules : List Rule) : Prop :=
  ∀ rule ∈ rules, ∀ atom ∈ rule.negatives, ¬ DependsOn rules atom.predicate rule.consequent.predicate

/-- Levels at which no rule asks for more than its own level, and for absence only below it. -/
structure Levelled (rules : List Rule) (level : String → Nat) : Prop where
  positive : ∀ rule ∈ rules, ∀ atom ∈ rule.positives, level atom.predicate ≤ level rule.consequent.predicate
  negative : ∀ rule ∈ rules, ∀ atom ∈ rule.negatives, level atom.predicate < level rule.consequent.predicate

theorem Levelled.le_of_dependsOn {rules : List Rule} {level : String → Nat} (levelled : Levelled rules level)
    {user used : String} (depends : DependsOn rules user used) : level used ≤ level user := by
  induction depends with
  | refl => exact le_rfl
  | tail _ step ih =>
    obtain ⟨rule, member, rfl, atom, place, rfl⟩ := step
    rcases List.mem_append.1 place with place | place
    · exact (levelled.positive rule member atom place).trans ih
    · exact (levelled.negative rule member atom place).le.trans ih

/-- The predicates that a predicate depends on, itself included, are finitely many. -/
private theorem finite_dependsOn (rules : List Rule) (user : String) : {used | DependsOn rules user used}.Finite := by
  let mentioned := rules.flatMap fun rule => (rule.positives ++ rule.negatives).map Atom.predicate
  refine (List.finite_toSet (user :: mentioned)).subset ?_
  intro used depends
  rcases Relation.ReflTransGen.cases_tail depends with rfl | ⟨_, _, rule, member, _, atom, place, rfl⟩
  · simp
  · exact List.mem_cons_of_mem _ (List.mem_flatMap.2 ⟨rule, member, List.mem_map_of_mem place⟩)

/-- Rules have levels exactly when no predicate depends on itself through a negated literal. -/
theorem stratified_iff_exists_levelled {rules : List Rule} :
    Stratified rules ↔ ∃ level, Levelled rules level := by
  constructor
  · intro stratified
    -- A predicate's level is the number of predicates that it depends on.
    refine ⟨fun user => {used | DependsOn rules user used}.ncard, ?_, ?_⟩
    · intro rule member atom place
      refine Set.ncard_le_ncard ?_ (finite_dependsOn rules _)
      intro used depends
      exact .head ⟨rule, member, rfl, atom, List.mem_append_left _ place, rfl⟩ depends
    · intro rule member atom place
      refine Set.ncard_lt_ncard ⟨?_, fun included => ?_⟩ (finite_dependsOn rules _)
      · intro used depends
        exact .head ⟨rule, member, rfl, atom, List.mem_append_right _ place, rfl⟩ depends
      · exact stratified rule member atom place (included (Relation.ReflTransGen.refl))
  · rintro ⟨level, levelled⟩ rule member atom place depends
    have above := levelled.negative rule member atom place
    have below := levelled.le_of_dependsOn depends
    omega

end Rule

namespace Inference

/-- The facts that rules make of those that hold before; a negated literal is judged by what holds before. -/
inductive Saturated (rules : List Rule) (before : Fact → Prop) : Fact → Prop
  | given {fact : Fact} (known : before fact) : Saturated rules before fact
  | concluded {rule : Rule} {fact : Fact} {bindings : Bindings} {premises : List Fact} (member : rule ∈ rules)
      (ground : rule.consequent.ground? bindings = some fact)
      (positives : rule.positives.map (·.ground? bindings) = premises.map some)
      (saturated : ∀ premise ∈ premises, Saturated rules before premise)
      (negatives : Atom.AllAre (¬ before ·) rule.negatives bindings) : Saturated rules before fact

/-- The rules that conclude predicates of one level. -/
def stratum (rules : List Rule) (level : String → Nat) (n : Nat) : List Rule :=
  rules.filter fun rule => level rule.consequent.predicate = n

/-- The facts after the levels below `n` have been saturated one after the other. -/
def modelBelow (facts : FactSet) (rules : List Rule) (level : String → Nat) : (n : Nat) → Fact → Prop
  | 0 => (· ∈ facts)
  | n + 1 => Saturated (stratum rules level n) (modelBelow facts rules level n)

/-- The facts after all levels have been saturated. -/
def Model (facts : FactSet) (rules : List Rule) (level : String → Nat) (fact : Fact) : Prop :=
  ∃ n, modelBelow facts rules level n fact

/-- The facts that rules derive in at most so many steps one after the other without deriving an avoided one;
`fails` says what is absent. -/
def DerivableWithin (facts : FactSet) (rules : List Rule) (fails : Fact → Prop) (avoided : List Fact) :
    (steps : Nat) → Fact → Prop
  | 0, fact => fact ∈ facts
  | steps + 1, fact => fact ∈ facts ∨
    fact ∉ avoided ∧ ∃ rule ∈ rules, rule.Concludes (DerivableWithin facts rules fails avoided steps) fails fact

/-- The facts that rules derive without deriving an avoided one. -/
def Derivable (facts : FactSet) (rules : List Rule) (fails : Fact → Prop) (avoided : List Fact) (fact : Fact) : Prop :=
  ∃ steps, DerivableWithin facts rules fails avoided steps fact

section Derivations

variable {facts : FactSet} {rules : List Rule} {fails : Fact → Prop} {avoided : List Fact}

theorem DerivableWithin.succ {steps : Nat} {fact : Fact}
    (derivable : DerivableWithin facts rules fails avoided steps fact) :
    DerivableWithin facts rules fails avoided (steps + 1) fact := by
  induction steps generalizing fact with
  | zero => exact .inl derivable
  | succ steps ih =>
    rcases derivable with known | ⟨free, rule, member, concludes⟩
    · exact .inl known
    · exact .inr ⟨free, rule, member, concludes.imp (fun _ => ih) fun _ => id⟩

theorem DerivableWithin.mono {few many : Nat} (le : few ≤ many) {fact : Fact}
    (derivable : DerivableWithin facts rules fails avoided few fact) :
    DerivableWithin facts rules fails avoided many fact := by
  induction le with
  | refl => exact derivable
  | step _ ih => exact ih.succ

/-- Premises that can each be derived can be derived within one number of steps. -/
theorem exists_steps {premises : List Fact}
    (derivable : ∀ premise ∈ premises, Derivable facts rules fails avoided premise) :
    ∃ steps, ∀ premise ∈ premises, DerivableWithin facts rules fails avoided steps premise := by
  induction premises with
  | nil => exact ⟨0, by simp⟩
  | cons premise rest ih =>
    obtain ⟨steps, later⟩ := ih fun other member => derivable other (by simp [member])
    obtain ⟨own, first⟩ := derivable premise (by simp)
    refine ⟨max own steps, ?_⟩
    intro other member
    rcases List.mem_cons.1 member with rfl | member
    · exact first.mono (le_max_left _ _)
    · exact (later other member).mono (le_max_right _ _)

/-- What is derived while more is avoided is derived while less is. -/
theorem Derivable.weaken {fewer : List Fact} {fact : Fact} (derivable : Derivable facts rules fails avoided fact)
    (subset : fewer ⊆ avoided) : Derivable facts rules fails fewer fact := by
  obtain ⟨steps, within⟩ := derivable
  refine ⟨steps, ?_⟩
  induction steps generalizing fact with
  | zero => exact within
  | succ steps ih =>
    rcases within with known | ⟨free, rule, member, concludes⟩
    · exact .inl known
    · exact .inr ⟨fun clash => free (subset clash), rule, member, concludes.imp (fun _ => ih) fun _ => id⟩

theorem Derivable.of_concludes {rule : Rule} {fact : Fact} (member : rule ∈ rules) (free : fact ∉ avoided)
    (concludes : rule.Concludes (Derivable facts rules fails avoided) fails fact) :
    Derivable facts rules fails avoided fact := by
  obtain ⟨bindings, ground, positives, negatives⟩ := concludes
  obtain ⟨premises, same, derivable⟩ := Atom.allAre_iff.1 positives
  obtain ⟨steps, within⟩ := exists_steps derivable
  exact ⟨steps + 1, .inr ⟨free, rule, member, bindings, ground, Atom.allAre_iff.2 ⟨premises, same, within⟩, negatives⟩⟩

/-- What is derived without a detour through itself has premises that are derived while it is avoided. -/
theorem Derivable.concludes {fact : Fact} (derivable : Derivable facts rules fails avoided fact)
    (unknown : fact ∉ facts) :
    fact ∉ avoided ∧ ∃ rule ∈ rules, rule.Concludes (Derivable facts rules fails (fact :: avoided)) fails fact := by
  classical
  -- A shortest derivation does not derive its own conclusion on the way.
  have shortest := Nat.find_spec derivable
  have least : ∀ steps < Nat.find derivable, ¬ DerivableWithin facts rules fails avoided steps fact :=
    fun steps fewer => Nat.find_min derivable fewer
  cases found : Nat.find derivable with
  | zero =>
    rw [found] at shortest
    exact absurd shortest unknown
  | succ last =>
    rw [found] at shortest least
    rcases shortest with known | ⟨free, rule, member, concludes⟩
    · exact absurd known unknown
    · refine ⟨free, rule, member, concludes.imp (fun premise within => ⟨last, ?_⟩) fun _ => id⟩
      have avoiding (steps : Nat) (le : steps ≤ last) (other : Fact)
          (within : DerivableWithin facts rules fails avoided steps other) :
          DerivableWithin facts rules fails (fact :: avoided) steps other := by
        induction steps generalizing other with
        | zero => exact within
        | succ steps ih =>
          have whole := within
          rcases within with known | ⟨free, rule, member, concludes⟩
          · exact .inl known
          · refine .inr ⟨?_, rule, member, concludes.imp (ih (by omega)) fun _ => id⟩
            intro clash
            rcases List.mem_cons.1 clash with rfl | clash
            · exact least (steps + 1) (by omega) whole
            · exact free clash
      exact avoiding last le_rfl premise within

/-- Avoiding facts of higher levels is no restriction. -/
theorem Derivable.avoiding {level : String → Nat} (levelled : Rule.Levelled rules level) {fact : Fact}
    (derivable : Derivable facts rules fails [] fact)
    (below : ∀ other ∈ avoided, level fact.predicate < level other.predicate) :
    Derivable facts rules fails avoided fact := by
  obtain ⟨steps, within⟩ := derivable
  refine ⟨steps, ?_⟩
  induction steps generalizing fact with
  | zero => exact within
  | succ steps ih =>
    rcases within with known | ⟨_, rule, member, concludes⟩
    · exact .inl known
    · refine .inr ⟨fun clash => lt_irrefl _ (below fact clash), rule, member, ?_⟩
      have own := concludes.predicate_eq
      obtain ⟨bindings, ground, positives, negatives⟩ := concludes
      refine ⟨bindings, ground, fun atom place => ?_, negatives⟩
      obtain ⟨premise, derived, same⟩ := positives atom place
      have atMost := levelled.positive rule member atom place
      rw [← Atom.predicate_of_ground? same, ← own] at atMost
      exact ⟨premise, ih (fun other clash => atMost.trans_lt (below other clash)) derived, same⟩

/-- Avoiding what cannot be derived is no restriction. -/
theorem Derivable.avoiding_underivable {fact : Fact} (derivable : Derivable facts rules fails [] fact)
    (absent : ∀ other ∈ avoided, ¬ Derivable facts rules fails [] other) :
    Derivable facts rules fails avoided fact := by
  obtain ⟨steps, within⟩ := derivable
  refine ⟨steps, ?_⟩
  induction steps generalizing fact with
  | zero => exact within
  | succ steps ih =>
    have whole := within
    rcases within with known | ⟨_, rule, member, concludes⟩
    · exact .inl known
    · refine .inr ⟨?_, rule, member, concludes.imp (fun _ => ih) fun _ => id⟩
      intro clash
      exact absent fact clash ⟨steps + 1, whole⟩

end Derivations

section Model

variable {facts : FactSet} {rules : List Rule} {level : String → Nat}

theorem modelBelow_mono {few many : Nat} (le : few ≤ many) {fact : Fact}
    (holds : modelBelow facts rules level few fact) : modelBelow facts rules level many fact := by
  induction le with
  | refl => exact holds
  | step _ ih => exact .given ih

/-- Saturating the levels from a predicate's own level on adds no fact of that predicate. -/
theorem modelBelow_of_level_lt {n : Nat} {fact : Fact} (holds : Model facts rules level fact)
    (below : level fact.predicate < n) : modelBelow facts rules level n fact := by
  obtain ⟨stage, holds⟩ := holds
  rcases Nat.le_total stage n with le | le
  · exact modelBelow_mono le holds
  · induction le with
    | refl => exact holds
    | @step stage le ih =>
      cases holds with
      | given known => exact ih known
      | concluded member ground =>
        have own := decide_eq_true_iff.1 (List.mem_filter.1 member).2
        rw [← Atom.predicate_of_ground? ground] at own
        have later : n ≤ stage := le
        omega

/-- The model is closed under the rules. -/
theorem Model.of_concludes (levelled : Rule.Levelled rules level) {rule : Rule} {fact : Fact}
    (member : rule ∈ rules)
    (concludes : rule.Concludes (Model facts rules level) (¬ Model facts rules level ·) fact) :
    Model facts rules level fact := by
  obtain ⟨bindings, ground, positives, negatives⟩ := concludes
  obtain ⟨premises, same, holds⟩ := Atom.allAre_iff.1 positives
  let own := level rule.consequent.predicate
  refine ⟨own + 1, .concluded (List.mem_filter.2 ⟨member, by simp [own]⟩) ground same ?_ ?_⟩
  · intro premise place
    refine modelBelow_of_level_lt (n := own + 1) (holds premise place) ?_
    have grounded : some premise ∈ rule.positives.map (·.ground? bindings) := same ▸ List.mem_map_of_mem place
    obtain ⟨atom, among, becomes⟩ := List.mem_map.1 grounded
    have atMost := levelled.positive rule member atom among
    rw [← Atom.predicate_of_ground? becomes] at atMost
    omega
  · exact negatives.imp fun absent fails known => fails ⟨own, known⟩

/-- The model consists of what can be derived when absence from the model is what negated literals ask for. -/
theorem model_iff_derivable (levelled : Rule.Levelled rules level) {fact : Fact} :
    Model facts rules level fact ↔ Derivable facts rules (¬ Model facts rules level ·) [] fact := by
  constructor
  · rintro ⟨stage, holds⟩
    induction stage generalizing fact with
    | zero => exact ⟨0, holds⟩
    | succ stage ih =>
      induction holds with
      | given known => exact ih known
      | @concluded rule fact bindings premises member ground positives saturated negatives derivable =>
        obtain ⟨member, own⟩ := List.mem_filter.1 member
        refine .of_concludes member (by simp) ⟨bindings, ground, Atom.allAre_iff.2 ⟨premises, positives, derivable⟩, ?_⟩
        intro atom place
        obtain ⟨absent, fails, becomes⟩ := negatives atom place
        refine ⟨absent, fun known => fails (modelBelow_of_level_lt known ?_), becomes⟩
        have above := levelled.negative rule member atom place
        rw [Atom.predicate_of_ground? becomes]
        simpa [← decide_eq_true_iff.1 own] using above
  · rintro ⟨steps, within⟩
    induction steps generalizing fact with
    | zero => exact ⟨0, within⟩
    | succ steps ih =>
      rcases within with known | ⟨_, rule, member, concludes⟩
      · exact ⟨0, known⟩
      · exact .of_concludes levelled member (concludes.imp (fun _ => ih) fun _ => id)

end Model

end Inference

end Deliberation
