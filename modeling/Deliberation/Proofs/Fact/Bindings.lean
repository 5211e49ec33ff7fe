import Deliberation.Fact.Basic
import Deliberation.Proofs.Lists
import Mathlib.Data.List.Induction

/-!
Bindings and patterns: what an atom becomes under bindings only depends on its variables, grows
with the bindings, and is exactly what matching finds.
-/

namespace Deliberation

namespace NameMap

variable {β : Type}

instance [BEq β] [LawfulBEq β] : LawfulBEq (NameMap β) where
  rfl {m} := by
    rw [show (m == m) = (m.toList == m.toList) from rfl]
    exact beq_self_eq_true _
  eq_of_beq {m other} same := by
    have entries : m.toList = other.toList := eq_of_beq (show (m.toList == other.toList) = true from same)
    cases m
    cases other
    simpa using entries

/-- Every name keeps its value. -/
def Extends (larger smaller : NameMap β) : Prop :=
  ∀ name value, smaller.get? name = some value → larger.get? name = some value

theorem Extends.refl (m : NameMap β) : m.Extends m := fun _ _ found => found

theorem Extends.trans {a b c : NameMap β} (first : a.Extends b) (second : b.Extends c) : a.Extends c :=
  fun name value found => first name value (second name value found)

theorem extends_empty (m : NameMap β) : m.Extends empty := by
  intro name value found
  simp at found

theorem extends_insert {m : NameMap β} {name : String} {value : β} (free : m.get? name = none) :
    (m.insert name value).Extends m := by
  intro other found stored
  by_cases same : other = name
  · subst same
    simp [free] at stored
  · simpa [same] using stored

theorem Extends.insert {larger smaller : NameMap β} {name : String} {value : β}
    (extended : larger.Extends smaller) (bound : larger.get? name = some value) :
    larger.Extends (smaller.insert name value) := by
  intro other found stored
  by_cases same : other = name
  · subst same
    simp only [get?_insert, if_true, Option.some.injEq] at stored
    rw [← stored, bound]
  · simp only [get?_insert, same, if_false] at stored
    exact extended other found stored

/-- The entries of a map are its values. -/
theorem mem_toList_iff {m : NameMap β} {name : String} {value : β} :
    (name, value) ∈ m.toList ↔ m.get? name = some value := by
  constructor
  · intro member
    have distinct : (m.toList.map Prod.fst).Nodup := by
      refine List.pairwise_map.2 (m.increasing.imp fun {a b} before same => ?_)
      simp [same, Std.ReflCmp.compare_self] at before
    exact Lists.lookup_eq_some_of_mem distinct member
  · intro found
    obtain ⟨before, after, split, _⟩ := List.lookup_eq_some_iff.1 found
    simp [split]

/-- A map is known by its values. -/
theorem eq_of_get?_eq {m other : NameMap β} (same : ∀ name, m.get? name = other.get? name) : m = other := by
  have entries : m.toList = other.toList := by
    refine Lists.eq_of_increasing Prod.fst m.increasing other.increasing fun entry => ?_
    rw [mem_toList_iff, mem_toList_iff, same]
  cases m
  cases other
  cases entries
  rfl

/-- A map that extends another one and binds no more names is that one. -/
theorem Extends.eq_of_contains {larger smaller : NameMap β} (extended : larger.Extends smaller)
    (binds : ∀ name, larger.contains name → smaller.contains name) : larger = smaller := by
  refine eq_of_get?_eq fun name => ?_
  cases stored : smaller.get? name with
  | some value => exact extended name value stored
  | none =>
    by_contra bound
    have contained := binds name (Option.isSome_iff_ne_none.2 bound)
    simp [contains, stored] at contained

theorem get?_ofList_eq_some_iff {entries : List (String × β)} (distinct : (entries.map Prod.fst).Nodup) {name : String}
    {value : β} : (ofList entries).get? name = some value ↔ (name, value) ∈ entries := by
  have from_map (m : NameMap β) : (entries.foldl (fun m entry => m.insert entry.1 entry.2) m).get? name = some value ↔
      (name, value) ∈ entries ∨ name ∉ entries.map Prod.fst ∧ m.get? name = some value := by
    induction entries generalizing m with
    | nil => simp
    | cons entry rest ih =>
      obtain ⟨key, stored⟩ := entry
      obtain ⟨fresh, distinct⟩ := List.nodup_cons.1 distinct
      rw [List.foldl_cons, ih distinct, get?_insert]
      by_cases same : name = key
      · subst same
        have absent : (name, value) ∉ rest := fun member => fresh (List.mem_map.2 ⟨_, member, rfl⟩)
        have unlisted : name ∉ rest.map Prod.fst := fresh
        simp [absent, unlisted, eq_comm]
      · simp [same]
  rw [ofList, from_map]
  simp

theorem get?_ofList_concat (entries : List (String × β)) (entry : String × β) (name : String) :
    (ofList (entries ++ [entry])).get? name = if name = entry.1 then some entry.2 else (ofList entries).get? name := by
  rw [ofList, List.foldl_append, List.foldl_cons, List.foldl_nil, get?_insert, ofList]

theorem mem_of_get?_ofList {entries : List (String × β)} {name : String} {value : β}
    (stored : (ofList entries).get? name = some value) : (name, value) ∈ entries := by
  -- later entries replace earlier ones, so the induction takes the last one off
  induction entries using List.reverseRecOn with
  | nil => cases stored
  | append_singleton rest entry ih =>
    rw [get?_ofList_concat] at stored
    split at stored
    · next same => simp [same, ← Option.some.inj stored]
    · exact List.mem_append_left _ (ih stored)

theorem exists_get?_ofList {entries : List (String × β)} {name : String} (listed : name ∈ entries.map Prod.fst) :
    ∃ value, (ofList entries).get? name = some value := by
  induction entries using List.reverseRecOn with
  | nil => cases listed
  | append_singleton rest entry ih =>
    rw [get?_ofList_concat]
    split
    · exact ⟨_, rfl⟩
    · next apart => exact ih (by simpa [apart] using listed)

/-- A map that is made of entries with different names has just these. -/
theorem perm_toList_ofList {entries : List (String × β)} (distinct : (entries.map Prod.fst).Nodup) :
    (ofList entries).toList.Perm entries := by
  refine (List.perm_ext_iff_of_nodup ?_ (List.Nodup.of_map _ distinct)).2 fun entry => ?_
  · refine (ofList entries).increasing.imp fun {a b} before same => ?_
    simp [same, Std.ReflCmp.compare_self] at before
  · exact mem_toList_iff.trans (get?_ofList_eq_some_iff distinct)

theorem get?_ofList_zip_eq_some_iff {names : List String} {values : List β} (distinct : names.Nodup)
    (enough : names.length ≤ values.length) {name : String} {value : β} :
    (ofList (names.zip values)).get? name = some value ↔ ∃ i : Nat, names[i]? = some name ∧ values[i]? = some value := by
  rw [get?_ofList_eq_some_iff (by rwa [List.map_fst_zip enough]), List.mem_iff_getElem?]
  simp only [List.getElem?_zip_eq_some]

end NameMap

namespace Term

@[simp] theorem resolve?_const (bindings : Bindings) (name : String) :
    (const name).resolve? bindings = some name := rfl

@[simp] theorem resolve?_var (bindings : Bindings) (name : String) :
    (var name).resolve? bindings = bindings.get? name := rfl

theorem resolve?_of_extends {larger smaller : Bindings} (extended : larger.Extends smaller) {term : Term}
    {constant : String} (resolved : term.resolve? smaller = some constant) :
    term.resolve? larger = some constant := by
  cases term with
  | const name => exact resolved
  | var name => exact extended name constant resolved

theorem resolve?_substitute {larger smaller : Bindings} (extended : larger.Extends smaller) (term : Term) :
    (term.substitute smaller).resolve? larger = term.resolve? larger := by
  cases term with
  | const name => rfl
  | var name =>
    cases bound : smaller.get? name with
    | none => simp [substitute, bound]
    | some constant => simp [substitute, bound, extended name constant bound]

end Term

namespace Atom

/-- The arguments that the terms become under bindings that bind all of them. -/
theorem ground?_eq_some_iff {atom : Atom} {bindings : Bindings} {fact : Fact} :
    atom.ground? bindings = some fact ↔
      fact.predicate = atom.predicate ∧ atom.terms.map (·.resolve? bindings) = fact.args.map some := by
  obtain ⟨predicate, args⟩ := fact
  simp only [ground?, Option.map_eq_some_iff, Fact.mk.injEq]
  constructor
  · rintro ⟨found, read, rfl, rfl⟩
    exact ⟨rfl, Lists.mapM_eq_some_iff.1 read⟩
  · rintro ⟨same, read⟩
    exact ⟨args, Lists.mapM_eq_some_iff.2 read, same.symm, rfl⟩

theorem predicate_of_ground? {atom : Atom} {bindings : Bindings} {fact : Fact}
    (ground : atom.ground? bindings = some fact) : fact.predicate = atom.predicate :=
  (ground?_eq_some_iff.1 ground).1

theorem ground?_of_extends {larger smaller : Bindings} (extended : larger.Extends smaller) {atom : Atom}
    {fact : Fact} (ground : atom.ground? smaller = some fact) : atom.ground? larger = some fact := by
  obtain ⟨predicate, args⟩ := ground?_eq_some_iff.1 ground
  refine ground?_eq_some_iff.2 ⟨predicate, ?_⟩
  rw [← args]
  refine List.map_congr_left fun term member => ?_
  have resolved : term.resolve? smaller ∈ fact.args.map some := args ▸ List.mem_map_of_mem member
  obtain ⟨constant, _, same⟩ := List.mem_map.1 resolved
  rw [← same, Term.resolve?_of_extends extended same.symm]

theorem ground?_substitute {larger smaller : Bindings} (extended : larger.Extends smaller) (atom : Atom) :
    (atom.substitute smaller).ground? larger = atom.ground? larger := by
  have same : (atom.substitute smaller).terms.map (·.resolve? larger) = atom.terms.map (·.resolve? larger) := by
    simp [substitute, Term.resolve?_substitute extended]
  ext fact
  rw [ground?_eq_some_iff, ground?_eq_some_iff, same]
  rfl

theorem ground?_toAtom (fact : Fact) (bindings : Bindings) : fact.toAtom.ground? bindings = some fact := by
  refine ground?_eq_some_iff.2 ⟨rfl, ?_⟩
  simp [Fact.toAtom, Function.comp_def]

/-- Without bindings only an atom without variables becomes a fact, and that fact is the atom. -/
theorem eq_toAtom_of_ground? {atom : Atom} {fact : Fact} (ground : atom.ground? .empty = some fact) : atom = fact.toAtom := by
  obtain ⟨predicate, args⟩ := atom
  obtain ⟨rfl, resolved⟩ := ground?_eq_some_iff.1 ground
  have constants (terms : List Term) (values : List String)
      (resolved : terms.map (·.resolve? .empty) = values.map some) : terms = values.map .const := by
    induction terms generalizing values with
    | nil => cases values <;> simp_all
    | cons term rest ih =>
      cases values with
      | nil => simp at resolved
      | cons value others =>
        obtain ⟨here, later⟩ := List.cons_eq_cons.1 resolved
        cases term with
        | const name => rw [ih others later, Option.some.inj here, List.map_cons]
        | var name => simp at here
  exact congrArg (Atom.mk _) (constants _ _ resolved)

theorem mem_vars {atom : Atom} {name : String} : name ∈ atom.vars ↔ .var name ∈ atom.terms := by
  simp only [vars, List.mem_eraseDups, List.mem_filterMap]
  constructor
  · rintro ⟨term, member, named⟩
    cases term with
    | const _ => simp at named
    | var other => simpa [Option.some.inj named] using member
  · exact fun member => ⟨.var name, member, rfl⟩

theorem nodup_vars (atom : Atom) : atom.vars.Nodup := Lists.nodup_eraseDups _

/-- An atom becomes a fact exactly when all its variables are bound. -/
theorem exists_ground?_iff {atom : Atom} {bindings : Bindings} :
    (∃ fact, atom.ground? bindings = some fact) ↔ ∀ name ∈ atom.vars, ∃ value, bindings.get? name = some value := by
  simp only [ground?_eq_some_iff, mem_vars]
  constructor
  · rintro ⟨fact, _, args⟩ name member
    have resolved : bindings.get? name ∈ fact.args.map some := args ▸ List.mem_map_of_mem (f := (·.resolve? bindings)) member
    obtain ⟨value, _, same⟩ := List.mem_map.1 resolved
    exact ⟨value, same.symm⟩
  · intro bound
    have resolved (term : Term) (member : term ∈ atom.terms) : ∃ value, term.resolve? bindings = some value := by
      cases term with
      | const name => exact ⟨name, rfl⟩
      | var name => exact bound name member
    refine ⟨⟨atom.predicate, atom.terms.filterMap (·.resolve? bindings)⟩, rfl, ?_⟩
    generalize atom.terms = terms at resolved
    induction terms with
    | nil => rfl
    | cons term rest ih =>
      obtain ⟨value, same⟩ := resolved term (by simp)
      simp [same, ih fun other member => resolved other (by simp [member])]

/-- Under bindings that agree on its variables an atom becomes the same. -/
theorem ground?_congr {atom : Atom} {bindings other : Bindings} (agree : ∀ name ∈ atom.vars, bindings.get? name = other.get? name) :
    atom.ground? bindings = atom.ground? other := by
  have same : atom.terms.map (·.resolve? bindings) = atom.terms.map (·.resolve? other) := by
    refine List.map_congr_left fun term among => ?_
    cases term with
    | const name => rfl
    | var name => exact agree name (mem_vars.2 among)
  ext found
  rw [ground?_eq_some_iff, ground?_eq_some_iff, same]

theorem matchTerms?_sound {terms : List Term} {args : List String} {bindings found : Bindings}
    (matched : matchTerms? bindings terms args = some found) :
    found.Extends bindings ∧ terms.map (·.resolve? found) = args.map some := by
  induction terms generalizing args bindings with
  | nil =>
    cases args with
    | nil => simp_all [matchTerms?, NameMap.Extends.refl]
    | cons _ _ => simp [matchTerms?] at matched
  | cons term rest ih =>
    cases args with
    | nil => cases term <;> simp [matchTerms?] at matched
    | cons value values =>
      cases term with
      | const name =>
        simp only [matchTerms?, Option.ite_none_right_eq_some] at matched
        obtain ⟨rfl, later⟩ := matched
        obtain ⟨extended, args⟩ := ih later
        exact ⟨extended, by simp [args]⟩
      | var name =>
        cases bound : bindings.get? name with
        | some stored =>
          simp only [matchTerms?, bound, Option.ite_none_right_eq_some] at matched
          obtain ⟨rfl, later⟩ := matched
          obtain ⟨extended, args⟩ := ih later
          exact ⟨extended, by simp [args, extended name stored bound]⟩
        | none =>
          simp only [matchTerms?, bound] at matched
          obtain ⟨extended, args⟩ := ih matched
          have stored : found.get? name = some value := extended name value (by simp)
          exact ⟨extended.trans (NameMap.extends_insert bound), by simp [args, stored]⟩

theorem matchTerms?_complete {terms : List Term} {args : List String} {bindings whole : Bindings}
    (extended : whole.Extends bindings) (ground : terms.map (·.resolve? whole) = args.map some) :
    ∃ found, matchTerms? bindings terms args = some found ∧ whole.Extends found := by
  induction terms generalizing args bindings with
  | nil =>
    cases args with
    | nil => exact ⟨bindings, rfl, extended⟩
    | cons _ _ => simp at ground
  | cons term rest ih =>
    cases args with
    | nil => simp at ground
    | cons value values =>
      simp only [List.map_cons, List.cons.injEq] at ground
      obtain ⟨first, later⟩ := ground
      cases term with
      | const name =>
        obtain ⟨found, matched, within⟩ := ih extended later
        exact ⟨found, by simpa [matchTerms?, Option.some.inj first] using matched, within⟩
      | var name =>
        cases bound : bindings.get? name with
        | some stored =>
          have same : stored = value := Option.some.inj ((extended name stored bound).symm.trans first)
          obtain ⟨found, matched, within⟩ := ih extended later
          exact ⟨found, by simpa [matchTerms?, bound, same] using matched, within⟩
        | none =>
          obtain ⟨found, matched, within⟩ := ih (extended.insert first) later
          exact ⟨found, by simpa [matchTerms?, bound] using matched, within⟩

/-- Matching binds no variables but those of the terms. -/
theorem matchTerms?_binds {terms : List Term} {args : List String} {bindings found : Bindings}
    (matched : matchTerms? bindings terms args = some found) {name value : String}
    (stored : found.get? name = some value) : bindings.get? name = some value ∨ .var name ∈ terms := by
  induction terms generalizing args bindings with
  | nil =>
    cases args with
    | nil => exact .inl (by simp_all [matchTerms?])
    | cons _ _ => simp [matchTerms?] at matched
  | cons term rest ih =>
    cases args with
    | nil => cases term <;> simp [matchTerms?] at matched
    | cons value values =>
      cases term with
      | const other =>
        simp only [matchTerms?, Option.ite_none_right_eq_some] at matched
        exact (ih matched.2).imp_right (List.mem_cons_of_mem _)
      | var other =>
        cases bound : bindings.get? other with
        | some present =>
          simp only [matchTerms?, bound, Option.ite_none_right_eq_some] at matched
          exact (ih matched.2).imp_right (List.mem_cons_of_mem _)
        | none =>
          simp only [matchTerms?, bound] at matched
          rcases ih matched with inserted | later
          · by_cases same : name = other
            · exact .inr (by simp [same])
            · exact .inl (by simpa [same] using inserted)
          · exact .inr (List.mem_cons_of_mem _ later)

theorem mem_vars_of_substitute {atom : Atom} {bindings : Bindings} {name : String}
    (member : name ∈ (atom.substitute bindings).vars) : name ∈ atom.vars := by
  obtain ⟨term, among, same⟩ := List.mem_map.1 (mem_vars.1 member)
  cases term with
  | const other => simp [Term.substitute] at same
  | var other =>
    cases bound : bindings.get? other with
    | some value => simp [Term.substitute, bound] at same
    | none =>
      have own : other = name := by simpa [Term.substitute, bound] using same
      exact mem_vars.2 (own ▸ among)

/-- Matching extends the bindings, and under what it finds the atom is the fact. -/
theorem match?_sound {atom : Atom} {fact : Fact} {bindings found : Bindings}
    (matched : atom.match? fact bindings = some found) :
    found.Extends bindings ∧ atom.ground? found = some fact := by
  simp only [match?, Option.ite_none_right_eq_some] at matched
  obtain ⟨predicate, terms⟩ := matched
  obtain ⟨extended, args⟩ := matchTerms?_sound terms
  exact ⟨extended, ground?_eq_some_iff.2 ⟨predicate.symm, args⟩⟩

/-- Matching finds bindings below any that make the atom the fact. -/
theorem match?_complete {atom : Atom} {fact : Fact} {bindings whole : Bindings}
    (extended : whole.Extends bindings) (ground : atom.ground? whole = some fact) :
    ∃ found, atom.match? fact bindings = some found ∧ whole.Extends found := by
  obtain ⟨predicate, args⟩ := ground?_eq_some_iff.1 ground
  obtain ⟨found, matched, within⟩ := matchTerms?_complete extended args
  exact ⟨found, by simpa [match?, predicate] using matched, within⟩

/-- Every atom is a fact of a kind under the bindings. -/
def AllAre (kind : Fact → Prop) (atoms : List Atom) (bindings : Bindings) : Prop :=
  ∀ atom ∈ atoms, ∃ fact, kind fact ∧ atom.ground? bindings = some fact

variable {kind other : Fact → Prop} {atoms : List Atom}

theorem AllAre.imp {bindings : Bindings} (implied : ∀ fact, kind fact → other fact)
    (all : AllAre kind atoms bindings) : AllAre other atoms bindings := by
  intro atom member
  obtain ⟨fact, known, ground⟩ := all atom member
  exact ⟨fact, implied fact known, ground⟩

/-- The facts that atoms become, in their order. -/
theorem allAre_iff {bindings : Bindings} :
    AllAre kind atoms bindings ↔
      ∃ facts : List Fact, atoms.map (·.ground? bindings) = facts.map some ∧ ∀ fact ∈ facts, kind fact := by
  induction atoms with
  | nil => simp [AllAre]
  | cons atom rest ih =>
    have split : AllAre kind (atom :: rest) bindings ↔
        (∃ fact, kind fact ∧ atom.ground? bindings = some fact) ∧ AllAre kind rest bindings := by
      simp [AllAre]
    rw [split, ih]
    constructor
    · rintro ⟨⟨fact, known, ground⟩, facts, later, all⟩
      exact ⟨fact :: facts, by simp [ground, later], by simpa [known] using all⟩
    · rintro ⟨facts, same, all⟩
      cases facts with
      | nil => simp at same
      | cons fact facts =>
        simp only [List.map_cons, List.cons.injEq] at same
        exact ⟨⟨fact, all fact (by simp), same.1⟩, facts, same.2, fun other member => all other (by simp [member])⟩

end Atom

end Deliberation
