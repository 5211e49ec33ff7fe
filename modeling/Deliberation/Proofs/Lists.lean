import Mathlib.Data.List.Nodup
import Mathlib.Data.List.Sort

/-!
Facts about lists, and about passes over them that may fail, that the standard library does not have.
-/

namespace Deliberation.Lists

theorem nodup_eraseDups {α : Type} [BEq α] [LawfulBEq α] (l : List α) : l.eraseDups.Nodup := by
  induction size : l.length using Nat.strongRecOn generalizing l with
  | ind n ih =>
    cases l with
    | nil => simp
    | cons a rest =>
      have shorter := List.length_filter_le (fun b => !b == a) rest
      rw [List.eraseDups_cons, List.nodup_cons]
      refine ⟨by simp, ih _ ?_ _ rfl⟩
      rw [← size, List.length_cons]
      omega

theorem eraseDups_of_nodup {α : Type} [BEq α] [LawfulBEq α] {l : List α} (distinct : l.Nodup) : l.eraseDups = l := by
  induction l with
  | nil => rfl
  | cons a rest ih =>
    obtain ⟨fresh, distinct⟩ := List.nodup_cons.1 distinct
    have others : rest.filter (fun b => !b == a) = rest := by
      refine List.filter_eq_self.2 ?_
      intro b member
      have apart : b ≠ a := by
        rintro rfl
        exact fresh member
      simpa using apart
    rw [List.eraseDups_cons, others, ih distinct]

theorem eraseDups_concat {α : Type} [BEq α] [LawfulBEq α] (l : List α) (a : α) :
    (l ++ [a]).eraseDups = if a ∈ l then l.eraseDups else l.eraseDups ++ [a] := by
  rw [List.eraseDups_append]
  by_cases known : a ∈ l
  · simp [List.removeAll, known]
  · simp [List.removeAll, known, List.eraseDups_cons]

theorem length_eraseDups_le {α : Type} [BEq α] [LawfulBEq α] (l : List α) : l.eraseDups.length ≤ l.length :=
  (List.subperm_of_subset (nodup_eraseDups l) fun _ member => List.mem_eraseDups.1 member).length_le

/-! ### Leaving out -/

/-- Elements are left out in turn where the others do not hold without them either, the kept ones before the rest. -/
inductive Shrinks {α : Type} (Holds : List α → Prop) : (kept rest result : List α) → Prop
  | done {kept : List α} : Shrinks Holds kept [] kept
  | leave {kept rest result : List α} {a : α} (fails : ¬ Holds (kept ++ rest)) (later : Shrinks Holds kept rest result) :
      Shrinks Holds kept (a :: rest) result
  | keep {kept rest result : List α} {a : α} (holds : Holds (kept ++ rest)) (later : Shrinks Holds (kept ++ [a]) rest result) :
      Shrinks Holds kept (a :: rest) result

/-- What is left does not hold, but would without any one of its elements, where fewer elements hold when more do. -/
theorem Shrinks.minimal {α : Type} {Holds : List α → Prop} {kept rest result : List α} (shrinks : Shrinks Holds kept rest result)
    (fewer : ∀ l others, l.Sublist others → Holds others → Holds l) (fails : ¬ Holds (kept ++ rest))
    (needed : ∀ i < kept.length, Holds (kept.eraseIdx i ++ rest)) :
    result.Sublist (kept ++ rest) ∧ ¬ Holds result ∧ ∀ i < result.length, Holds (result.eraseIdx i) := by
  -- Each kept element stays needed: elements are only left out later, and fewer can still hold.
  induction shrinks with
  | done =>
    simp only [List.append_nil] at fails needed ⊢
    exact ⟨.refl _, fails, needed⟩
  | @leave kept rest result a fails' _ ih =>
    have needed' : ∀ i < kept.length, Holds (kept.eraseIdx i ++ rest) := fun i inside =>
      fewer _ _ ((List.sublist_cons_self a rest).append_left _) (needed i inside)
    obtain ⟨sub, minimal⟩ := ih fails' needed'
    exact ⟨sub.trans ((List.sublist_cons_self a rest).append_left _), minimal⟩
  | @keep kept rest result a holds _ ih =>
    rw [List.append_cons] at fails ⊢
    refine ih fails fun i inside => ?_
    rw [List.length_append, List.length_singleton] at inside
    by_cases last : i = kept.length
    · subst last
      rw [List.eraseIdx_append_of_length_le le_rfl]
      simpa using holds
    · have before : i < kept.length := by omega
      rw [List.eraseIdx_append_of_lt_length before, ← List.append_cons]
      exact needed i before

/-- Where lists hold alike when they are related in turn, the same places are left out of related lists. -/
theorem Shrinks.exists_of_forall₂ {α β : Type} {Holds : List α → Prop} {Holds' : List β → Prop} {relates : β → α → Prop}
    {kept rest result : List α} (shrinks : Shrinks Holds kept rest result)
    (alike : ∀ others l, List.Forall₂ relates others l → (Holds' others ↔ Holds l)) {kept' rest' : List β}
    (first : List.Forall₂ relates kept' kept) (second : List.Forall₂ relates rest' rest) :
    ∃ result', List.Forall₂ relates result' result ∧ Shrinks Holds' kept' rest' result' := by
  induction shrinks generalizing kept' rest' with
  | done =>
    cases second
    exact ⟨kept', first, .done⟩
  | leave fails _ ih =>
    cases second with
    | cons _ others =>
      obtain ⟨result', related, later⟩ := ih first others
      exact ⟨result', related, .leave ((alike _ _ (List.rel_append first others)).not.2 fails) later⟩
  | keep holds _ ih =>
    cases second with
    | cons here others =>
      obtain ⟨result', related, later⟩ := ih (List.rel_append first (.cons here .nil)) others
      exact ⟨result', related, .keep ((alike _ _ (List.rel_append first others)).2 holds) later⟩

/-! ### Traversals -/

/-- A traversal that succeeds has found something for each element in turn. -/
theorem mapM_eq_ok_iff {α β ε : Type} {f : α → Except ε β} {l : List α} {found : List β} :
    l.mapM f = .ok found ↔ List.Forall₂ (fun a b => f a = .ok b) l found := by
  induction l generalizing found with
  | nil => cases found <;> simp [pure, Except.pure]
  | cons a rest ih =>
    rw [List.mapM_cons]
    cases found with
    | nil => cases f a <;> cases rest.mapM f <;> simp [bind, Except.bind, pure, Except.pure]
    | cons b others =>
      rw [List.forall₂_cons, ← ih]
      cases f a <;> cases rest.mapM f <;> simp [bind, Except.bind, pure, Except.pure]

/-- A traversal that finds something for each element succeeds. -/
theorem exists_mapM_eq_ok {α β ε : Type} {f : α → Except ε β} {relates : α → β → Prop} {l : List α}
    (each : ∀ a ∈ l, ∃ b, f a = .ok b ∧ relates a b) : ∃ found, l.mapM f = .ok found ∧ List.Forall₂ relates l found := by
  induction l with
  | nil => exact ⟨[], rfl, .nil⟩
  | cons a rest ih =>
    obtain ⟨⟨b, here, related⟩, others⟩ := List.forall_mem_cons.1 each
    obtain ⟨found, there, later⟩ := ih others
    refine ⟨b :: found, ?_, .cons related later⟩
    rw [List.mapM_cons, here, there]
    rfl

/-- Traversals that come to the same for elements side by side come to the same. -/
theorem mapM_congr {α β γ ε : Type} {f : α → Except ε γ} {g : β → Except ε γ} {l : List α} {other : List β}
    (each : List.Forall₂ (fun a b => f a = g b) l other) : l.mapM f = other.mapM g := by
  induction each with
  | nil => rfl
  | cons here _ ih => rw [List.mapM_cons, List.mapM_cons, here, ih]

theorem exists_getElem?_of_forall₂ {α β : Type} {relates : α → β → Prop} {l : List α} {found : List β}
    (each : List.Forall₂ relates l found) {i : Nat} {a : α} (here : l[i]? = some a) :
    ∃ b, found[i]? = some b ∧ relates a b := by
  induction each generalizing i with
  | nil => cases here
  | cons related _ ih =>
    cases i with
    | zero =>
      cases here
      exact ⟨_, rfl, related⟩
    | succ i => exact ih here

/-- Where lists are related in turn, what holds of the elements of the one holds of those of the other. -/
theorem forall_mem_iff_of_forall₂ {α β : Type} {relates : α → β → Prop} {p : α → Prop} {q : β → Prop} {l : List α}
    {others : List β} (each : List.Forall₂ relates l others) (same : ∀ a b, relates a b → (p a ↔ q b)) :
    (∀ a ∈ l, p a) ↔ ∀ b ∈ others, q b := by
  induction each with
  | nil => simp
  | cons here _ ih => rw [List.forall_mem_cons, List.forall_mem_cons, same _ _ here, ih]

theorem forall_mem_of_forall₂ {α β : Type} {relates : α → β → Prop} {p : α → Prop} {q : β → Prop} {l : List α}
    {others : List β} (each : List.Forall₂ relates l others) (implied : ∀ a b, relates a b → p a → q b)
    (all : ∀ a ∈ l, p a) : ∀ b ∈ others, q b := by
  induction each with
  | nil => simp
  | cons here _ ih =>
    obtain ⟨first, rest⟩ := List.forall_mem_cons.1 all
    exact List.forall_mem_cons.2 ⟨implied _ _ here first, ih rest⟩

/-- What a traversal finds is what it finds for some element. -/
theorem mem_iff_of_mapM {α β ε : Type} {f : α → Except ε β} {l : List α} {found : List β} (done : l.mapM f = .ok found)
    {b : β} : b ∈ found ↔ ∃ a ∈ l, f a = .ok b := by
  have each := mapM_eq_ok_iff.1 done
  clear done
  induction each with
  | nil => simp
  | cons here _ ih => simp [ih, here, eq_comm]

/-- A traversal that succeeds has found something for each element. -/
theorem exists_of_mapM {α β ε : Type} {f : α → Except ε β} {l : List α} {found : List β} (done : l.mapM f = .ok found)
    {a : α} (member : a ∈ l) : ∃ b ∈ found, f a = .ok b := by
  have each := mapM_eq_ok_iff.1 done
  clear done
  induction each with
  | nil => simp at member
  | cons here _ ih =>
    rcases List.mem_cons.1 member with rfl | member
    · exact ⟨_, List.mem_cons_self .., here⟩
    · obtain ⟨b, among, there⟩ := ih member
      exact ⟨b, List.mem_cons_of_mem _ among, there⟩

/-- A traversal that finds something for each element finds them in turn. -/
theorem mapM_eq_some_iff {α β : Type} {f : α → Option β} {l : List α} {found : List β} :
    l.mapM f = some found ↔ l.map f = found.map some := by
  induction l generalizing found with
  | nil => cases found <;> simp
  | cons a rest ih =>
    cases found with
    | nil => simp [Option.bind_eq_some_iff]
    | cons b others => simp [Option.bind_eq_some_iff, ← ih]

/-- A list of checks passes when each of them does. -/
theorem forM_eq_ok_iff {α ε : Type} {check : α → Except ε Unit} {l : List α} :
    l.forM check = .ok () ↔ ∀ a ∈ l, check a = .ok () := by
  induction l with
  | nil => simp [pure, Except.pure]
  | cons a rest ih =>
    have step : (a :: rest).forM check = check a >>= fun _ => rest.forM check := rfl
    rw [step, List.forall_mem_cons, ← ih]
    cases check a <;> simp [bind, Except.bind]

/-- What is found for an element stands beside it. -/
theorem exists_mem_zip {α β : Type} {f : α → Option β} {l : List α} {found : List β} (each : l.map f = found.map some)
    {a : α} (member : a ∈ l) : ∃ b, (a, b) ∈ l.zip found ∧ f a = some b := by
  induction l generalizing found with
  | nil => simp at member
  | cons first rest ih =>
    cases found with
    | nil => simp at each
    | cons b others =>
      obtain ⟨here, later⟩ := List.cons_eq_cons.1 each
      rcases List.mem_cons.1 member with rfl | member
      · exact ⟨b, by simp, here⟩
      · obtain ⟨value, paired, own⟩ := ih later member
        exact ⟨value, by simp [paired], own⟩

/-- What succeeds has succeeded step by step. -/
theorem bind_eq_ok {α β ε : Type} {first : Except ε α} {next : α → Except ε β} {b : β}
    (done : first >>= next = .ok b) : ∃ a, first = .ok a ∧ next a = .ok b := by
  cases first with
  | error fault => cases done
  | ok a => exact ⟨a, rfl, done⟩

theorem map_eq_ok {α β ε : Type} {first : Except ε α} {change : α → β} {b : β} (done : first.map change = .ok b) :
    ∃ a, first = .ok a ∧ change a = b := by
  cases first with
  | error fault => cases done
  | ok a => exact ⟨a, rfl, Except.ok.inj done⟩

theorem map_eq_error {α β ε : Type} {first : Except ε α} {change : α → β} {fault : ε}
    (failed : first.map change = .error fault) : first = .error fault := by
  cases first with
  | error other => exact congrArg _ (Except.error.inj failed)
  | ok a => cases failed

theorem mapError_eq_ok {α ε ε' : Type} {first : Except ε α} {change : ε → ε'} {a : α}
    (done : first.mapError change = .ok a) : first = .ok a := by
  cases first with
  | error fault => cases done
  | ok b => exact congrArg _ (Except.ok.inj done)

theorem mapError_eq_error {α ε ε' : Type} {first : Except ε α} {change : ε → ε'} {fault : ε'}
    (failed : first.mapError change = .error fault) : ∃ own, first = .error own ∧ change own = fault := by
  cases first with
  | error own => exact ⟨own, rfl, Except.error.inj failed⟩
  | ok a => cases failed

/-- What fails has failed at one of its steps. -/
theorem bind_eq_error {α β ε : Type} {first : Except ε α} {next : α → Except ε β} {fault : ε}
    (failed : first >>= next = .error fault) : first = .error fault ∨ ∃ a, first = .ok a ∧ next a = .error fault := by
  cases first with
  | error other =>
    cases failed
    exact .inl rfl
  | ok a => exact .inr ⟨a, rfl, failed⟩

/-- A traversal that fails has failed at some element. -/
theorem exists_error_of_mapM {α β ε : Type} {f : α → Except ε β} {l : List α} {fault : ε}
    (failed : l.mapM f = .error fault) : ∃ a ∈ l, f a = .error fault := by
  induction l with
  | nil => cases failed
  | cons a rest ih =>
    rw [List.mapM_cons] at failed
    rcases bind_eq_error failed with here | ⟨_, _, failed⟩
    · exact ⟨a, by simp, here⟩
    · rcases bind_eq_error failed with later | ⟨_, _, impossible⟩
      · obtain ⟨b, member, there⟩ := ih later
        exact ⟨b, List.mem_cons_of_mem _ member, there⟩
      · cases impossible

/-- If an outcome is an error, it is one of a kind. -/
def FailsOnly {α ε : Type} (kind : ε → Prop) (outcome : Except ε α) : Prop :=
  ∀ fault, outcome = .error fault → kind fault

section

variable {α β ε : Type} {kind : ε → Prop} {outcome : Except ε α}

theorem failsOnly_ok (a : α) : FailsOnly kind (.ok a) := fun _ failed => by cases failed

theorem failsOnly_error {fault : ε} (own : kind fault) : FailsOnly kind (.error fault : Except ε α) := fun _ failed =>
  Except.error.inj failed ▸ own

theorem FailsOnly.bind {next : α → Except ε β} (first : FailsOnly kind outcome) (later : ∀ a, FailsOnly kind (next a)) :
    FailsOnly kind (outcome >>= next) := by
  intro fault failed
  rcases bind_eq_error failed with here | ⟨a, _, there⟩
  · exact first fault here
  · exact later a fault there

theorem FailsOnly.map (first : FailsOnly kind outcome) (change : α → β) : FailsOnly kind (outcome.map change) :=
  fun fault failed => first fault (map_eq_error failed)

theorem failsOnly_mapM {f : α → Except ε β} {l : List α} (each : ∀ a ∈ l, FailsOnly kind (f a)) :
    FailsOnly kind (l.mapM f) := by
  intro fault failed
  obtain ⟨a, member, there⟩ := exists_error_of_mapM failed
  exact each a member fault there

end

/-- A check that fails has failed at some element. -/
theorem exists_error_of_forM {α ε : Type} {check : α → Except ε Unit} {l : List α} {fault : ε}
    (failed : l.forM check = .error fault) : ∃ a ∈ l, check a = .error fault := by
  induction l with
  | nil => cases failed
  | cons a rest ih =>
    have step : (a :: rest).forM check = check a >>= fun _ => rest.forM check := rfl
    rw [step] at failed
    rcases bind_eq_error failed with here | ⟨_, _, later⟩
    · exact ⟨a, by simp, here⟩
    · obtain ⟨other, member, failed⟩ := ih later
      exact ⟨other, by simp [member], failed⟩

/-- A traversal that collects lists puts them one after the other. -/
theorem flatMapM_eq {α β ε : Type} (f : α → Except ε (List β)) (l : List α) :
    l.flatMapM f = (l.mapM f).map List.flatten := by
  have collected (found : List (List β)) :
      List.flatMapM.loop f l found = (l.mapM f).map fun parts => found.reverse.flatten ++ parts.flatten := by
    induction l generalizing found with
    | nil => simp [List.flatMapM.loop, pure, Except.pure, Except.map]
    | cons a rest ih =>
      rw [List.flatMapM.loop, List.mapM_cons]
      cases f a with
      | error fault => rfl
      | ok part =>
        simp only [bind, Except.bind, ih]
        cases rest.mapM f <;> simp [Except.map, pure, Except.pure]
  simpa [List.flatMapM] using collected []

/-- Steps that each take what is found for an element come to those over all that a traversal finds. -/
theorem foldlM_eq {α β γ ε : Type} (f : α → Except ε β) (step : γ → β → γ) (l : List α) (c : γ) :
    l.foldlM (fun c a => do return step c (← f a)) c = (l.mapM f).map fun found => found.foldl step c := by
  induction l generalizing c with
  | nil => rfl
  | cons a rest ih =>
    rw [List.foldlM_cons, List.mapM_cons]
    cases f a with
    | error fault => rfl
    | ok b =>
      refine (ih (step c b)).trans ?_
      cases rest.mapM f <;> rfl

theorem foldlM_flatten_eq {α β γ ε : Type} (f : α → Except ε (List β)) (step : γ → β → γ) (l : List α) (c : γ) :
    l.foldlM (fun c a => (f a).map fun found => found.foldl step c) c =
      (l.flatMapM f).map fun found => found.foldl step c := by
  rw [flatMapM_eq]
  induction l generalizing c with
  | nil => rfl
  | cons a rest ih =>
    rw [List.foldlM_cons, List.mapM_cons]
    cases f a with
    | error fault => rfl
    | ok part =>
      refine (ih (part.foldl step c)).trans ?_
      cases rest.mapM f with
      | error fault => rfl
      | ok parts => exact congrArg Except.ok List.foldl_append.symm

/-- A loop over a list that never breaks off has done its step for each element. -/
theorem forIn_eq_ok {α ε : Type} {l : List α} {visit : α → PUnit → Except ε (ForInStep PUnit)}
    (steps : ∀ a outcome, visit a ⟨⟩ = .ok outcome → outcome = .yield ⟨⟩) (done : forIn l PUnit.unit visit = .ok ⟨⟩) :
    ∀ a ∈ l, visit a ⟨⟩ = .ok (.yield ⟨⟩) := by
  induction l with
  | nil => simp
  | cons a rest ih =>
    rw [List.forIn_cons] at done
    cases step : visit a ⟨⟩ with
    | error fault =>
      rw [step] at done
      cases done
    | ok outcome =>
      have yields := steps a outcome step
      subst yields
      rw [step] at done
      rintro b member
      rcases List.mem_cons.1 member with rfl | member
      · exact step
      · exact ih done b member

/-- A list of which every element is mapped to something keeps its length and order. -/
theorem forall₂_filterMap {α β : Type} {f : α → Option β} {relates : α → β → Prop} {l : List α}
    (each : ∀ a ∈ l, ∃ b, f a = some b ∧ relates a b) : List.Forall₂ relates l (l.filterMap f) := by
  induction l with
  | nil => exact .nil
  | cons a rest ih =>
    obtain ⟨b, mapped, related⟩ := each a (by simp)
    rw [List.filterMap_cons_some mapped]
    exact .cons related (ih fun other member => each other (by simp [member]))

/-- What is at a place of a list with one more element. -/
theorem getElem?_concat {α : Type} {l : List α} {a b : α} {i : Nat} (there : (l ++ [a])[i]? = some b) :
    l[i]? = some b ∨ i = l.length ∧ b = a := by
  by_cases inside : i < l.length
  · exact .inl (by rwa [List.getElem?_append_left inside] at there)
  · have bound := (List.getElem?_eq_some_iff.1 there).1
    rw [List.length_append, List.length_singleton] at bound
    obtain rfl : i = l.length := by omega
    rw [List.getElem?_concat_length] at there
    exact .inr ⟨rfl, (Option.some.inj there).symm⟩

theorem filterMap_getElem?_range {α : Type} (l : List α) : (List.range l.length).filterMap (l[·]?) = l := by
  induction l with
  | nil => rfl
  | cons a rest ih =>
    rw [List.length_cons, List.range_succ_eq_map, List.filterMap_cons_some (by rfl), List.filterMap_map]
    congr 1

/-- Where no key comes twice, the first element of an element's key is that element. -/
theorem find?_key {α β : Type} [DecidableEq β] {key : α → β} {l : List α} (distinct : (l.map key).Nodup) {a : α}
    (member : a ∈ l) : l.find? (key · = key a) = some a := by
  cases found : l.find? (key · = key a) with
  | none =>
    have other := List.find?_eq_none.1 found a member
    simp at other
  | some first =>
    have same : key first = key a := by simpa using List.find?_some found
    rw [List.inj_on_of_nodup_map distinct (List.mem_of_find?_eq_some found) member same]

/-- Keys paired with values: the value of a key stands at its place. -/
theorem lookup_zip {α β : Type} [BEq α] [LawfulBEq α] {keys : List α} {values : List β} (distinct : keys.Nodup)
    {i : Nat} {key : α} (there : keys[i]? = some key) : (keys.zip values).lookup key = values[i]? := by
  induction keys generalizing values i with
  | nil => simp at there
  | cons first rest ih =>
    obtain ⟨fresh, distinct⟩ := List.nodup_cons.1 distinct
    cases values with
    | nil => rfl
    | cons value values =>
      rw [List.zip_cons_cons, List.lookup_cons]
      cases i with
      | zero =>
        have same : first = key := by simpa using there
        simp [same]
      | succ i =>
        have later : rest[i]? = some key := by simpa using there
        have apart : (key == first) = false := by
          rw [beq_eq_false_iff_ne]
          rintro rfl
          exact fresh (List.mem_of_getElem? later)
        rw [apart]
        exact ih distinct later

/-- Where no key comes twice, a lookup finds the one entry of its key. -/
theorem lookup_eq_some_of_mem {α β : Type} [BEq α] [LawfulBEq α] {entries : List (α × β)}
    (distinct : (entries.map Prod.fst).Nodup) {key : α} {value : β} (member : (key, value) ∈ entries) :
    entries.lookup key = some value := by
  induction entries with
  | nil => simp at member
  | cons entry rest ih =>
    obtain ⟨fresh, distinct⟩ := List.nodup_cons.1 distinct
    rw [List.lookup_cons]
    rcases List.mem_cons.1 member with rfl | later
    · simp
    · have apart : (key == entry.1) = false := by
        rw [beq_eq_false_iff_ne]
        rintro rfl
        exact fresh (List.mem_map.2 ⟨_, later, rfl⟩)
      rw [apart]
      exact ih distinct later

/-- An element of a mapped list, where the default is mapped to the default. -/
theorem getD_map {α β : Type} {f : α → β} {a : α} {b : β} (default : f a = b) (l : List α) (j : Nat) :
    (l.map f).getD j b = f (l.getD j a) := by
  simp only [List.getD_eq_getElem?_getD, List.getElem?_map]
  cases l[j]? <;> simp [default]

/-- An element of two joined lists of one length, where the defaults are joined to the default. -/
theorem getD_zipWith {α β γ : Type} {f : α → β → γ} {a : α} {b : β} {c : γ} (default : f a b = c) {l : List α}
    {others : List β} (even : l.length = others.length) (j : Nat) :
    (List.zipWith f l others).getD j c = f (l.getD j a) (others.getD j b) := by
  simp only [List.getD_eq_getElem?_getD, List.getElem?_zipWith]
  by_cases inside : j < l.length
  · rw [List.getElem?_eq_getElem inside, List.getElem?_eq_getElem (even ▸ inside)]
    simp
  · rw [List.getElem?_eq_none (Nat.not_lt.1 inside), List.getElem?_eq_none (even ▸ Nat.not_lt.1 inside)]
    simp [default]

/-- The chosen element of a list has a least key. -/
theorem le_of_minOn? {α : Type} {f : α → Nat} {l : List α} {a b : α} (chosen : l.minOn? f = some a) (member : b ∈ l) :
    f a ≤ f b := by
  rw [← List.minOn_eq_of_minOn?_eq_some chosen]
  exact List.apply_minOn_le_of_mem member

/-- What a list starts with is not longer for what is appended, if that starts with something else. -/
theorem span_append {α : Type} {p : α → Bool} {after : List α} (stops : ∀ c ∈ after.head?, p c = false) (l : List α) :
    (l ++ after).takeWhile p = l.takeWhile p ∧ (l ++ after).dropWhile p = l.dropWhile p ++ after := by
  induction l with
  | nil =>
    cases after with
    | nil => simp
    | cons c rest => simp [stops c rfl]
  | cons c rest ih =>
    cases here : p c with
    | true => simp [here, ih]
    | false => simp [here]

theorem takeWhile_append_closed {α : Type} {p : α → Bool} {word after : List α} (inside : ∀ c ∈ word, p c)
    (stops : ∀ c ∈ after.head?, p c = false) : (word ++ after).takeWhile p = word := by
  have none : after.takeWhile p = [] := (span_append stops []).1
  rw [List.takeWhile_append_of_pos inside, none, List.append_nil]

theorem dropWhile_append_closed {α : Type} {p : α → Bool} {word after : List α} (inside : ∀ c ∈ word, p c)
    (stops : ∀ c ∈ after.head?, p c = false) : (word ++ after).dropWhile p = after := by
  have all : after.dropWhile p = after := (span_append stops []).2
  rw [List.dropWhile_append_of_pos inside, all]

/-- From the first place of an element on a list starts with it; without one nothing is left. -/
theorem dropWhile_ne_cases {α : Type} [DecidableEq α] (a : α) (l : List α) :
    a ∉ l ∧ l.dropWhile (· ≠ a) = [] ∨ ∃ after, a ∈ l ∧ l.dropWhile (· ≠ a) = a :: after := by
  induction l with
  | nil => exact .inl ⟨List.not_mem_nil, rfl⟩
  | cons b rest ih =>
    by_cases same : b = a
    · subst same
      exact .inr ⟨rest, List.mem_cons_self, List.dropWhile_cons_of_neg (by simp)⟩
    · have differs : a ≠ b := Ne.symm same
      rw [List.dropWhile_cons_of_pos (by simpa using same)]
      simpa [differs] using ih

/-- A list in strictly increasing order is known by its members. -/
theorem eq_of_increasing {α β : Type} [Ord β] [Std.TransOrd β] (key : α → β) {l other : List α}
    (increasing : l.Pairwise fun a b => compare (key a) (key b) = .lt)
    (increasing' : other.Pairwise fun a b => compare (key a) (key b) = .lt) (same : ∀ a, a ∈ l ↔ a ∈ other) : l = other := by
  have irrefl : Std.Irrefl fun a b : α => compare (key a) (key b) = .lt :=
    ⟨fun a => by simp [Std.ReflCmp.compare_self]⟩
  have antisymm : Std.Antisymm fun a b : α => compare (key a) (key b) = .lt :=
    ⟨fun a b before after => by simp [Std.OrientedCmp.gt_of_lt before] at after⟩
  exact increasing.eq_of_mem_iff increasing' same

/-- The least element of an ordered list comes first. -/
theorem head?_eq_of_least {α : Type} [PartialOrder α] {l : List α} {a : α} (ordered : l.Pairwise (· ≤ ·)) (member : a ∈ l)
    (least : ∀ b ∈ l, a ≤ b) : l.head? = some a := by
  cases l with
  | nil => cases member
  | cons first rest =>
    rcases List.mem_cons.1 member with rfl | later
    · rfl
    · have below := (List.pairwise_cons.1 ordered).1 a later
      exact congrArg some (below.antisymm (least first List.mem_cons_self))

/-- Where what passes a test stands in front, it is found without looking further. -/
theorem takeWhile_eq_filter {α : Type} {p : α → Bool} {l : List α} (front : l.Pairwise fun a b => p b → p a) :
    l.takeWhile p = l.filter p := by
  induction l with
  | nil => rfl
  | cons a rest ih =>
    obtain ⟨first, front⟩ := List.pairwise_cons.1 front
    by_cases passes : p a
    · rw [List.takeWhile_cons_of_pos passes, List.filter_cons_of_pos passes, ih front]
    · have none : ∀ b ∈ rest, ¬ p b := fun b member => mt (first b member) passes
      rw [List.takeWhile_cons_of_neg passes, List.filter_cons_of_neg passes, List.filter_eq_nil_iff.2 none]

theorem dropWhile_eq_filter {α : Type} {p : α → Bool} {l : List α} (front : l.Pairwise fun a b => p b → p a) :
    l.dropWhile p = l.filter (!p ·) := by
  induction l with
  | nil => rfl
  | cons a rest ih =>
    obtain ⟨first, front⟩ := List.pairwise_cons.1 front
    by_cases passes : p a
    · rw [List.dropWhile_cons_of_pos passes, List.filter_cons_of_neg (by simpa using passes), ih front]
    · have none : ∀ b ∈ rest, ¬ p b := fun b member => mt (first b member) passes
      have all : ∀ b ∈ a :: rest, !p b := List.forall_mem_cons.2 ⟨by simpa using passes, by simpa using none⟩
      rw [List.dropWhile_cons_of_neg passes, List.filter_eq_self.2 all]

/-- Steps that keep the length of a list keep it together. -/
theorem length_foldl {α β : Type} {step : List α → β → List α}
    (keeps : ∀ values b, (step values b).length = values.length) (l : List β) (values : List α) :
    (l.foldl step values).length = values.length := by
  induction l generalizing values with
  | nil => rfl
  | cons b rest ih => rw [List.foldl_cons, ih, keeps]

/-- Filling places of a list one after the other leaves all other places as they are. -/
theorem getD_foldl_set_of_notMem {α : Type} {fill : List α → Nat → α} {order : List Nat} {values : List α} {default : α}
    {j : Nat} (other : j ∉ order) :
    (order.foldl (fun values i => values.set i (fill values i)) values).getD j default = values.getD j default := by
  induction order generalizing values with
  | nil => rfl
  | cons i rest ih =>
    obtain ⟨apart, later⟩ := not_or.1 (mt List.mem_cons.2 other)
    rw [List.foldl_cons, ih later, List.getD_eq_getElem?_getD, List.getElem?_set_ne (Ne.symm apart),
      List.getD_eq_getElem?_getD]

/-- Where what is filled in only depends on places that are not filled afterwards, every place that is filled
is in the end as it would be filled then. -/
theorem getD_foldl_set_of_mem {α : Type} {fill : List α → Nat → α} {reads : Nat → List Nat} {order : List Nat}
    {values : List α} {default : α} {i : Nat} (distinct : order.Nodup)
    (depends : ∀ i values other, (∀ j ∈ reads i, values.getD j default = other.getD j default) → fill values i = fill other i)
    (itself : ∀ i ∈ order, i ∉ reads i) (earlier : order.Pairwise fun i j => j ∉ reads i)
    (inside : ∀ i ∈ order, i < values.length) (member : i ∈ order) :
    (order.foldl (fun values i => values.set i (fill values i)) values).getD i default =
      fill (order.foldl (fun values i => values.set i (fill values i)) values) i := by
  induction order generalizing values with
  | nil => simp at member
  | cons first rest ih =>
    obtain ⟨fresh, distinct⟩ := List.nodup_cons.1 distinct
    obtain ⟨before, earlier⟩ := List.pairwise_cons.1 earlier
    obtain ⟨here, inside⟩ := List.forall_mem_cons.1 inside
    obtain ⟨apart, itself⟩ := List.forall_mem_cons.1 itself
    rw [List.foldl_cons]
    rcases List.mem_cons.1 member with rfl | later
    · rw [getD_foldl_set_of_notMem fresh, List.getD_eq_getElem?_getD, List.getElem?_set_self here, Option.getD_some]
      refine depends i _ _ fun j read => ?_
      have unfilled : j ∉ rest := fun among => before j among read
      have other : i ≠ j := by
        rintro rfl
        exact apart read
      rw [getD_foldl_set_of_notMem unfilled, List.getD_eq_getElem?_getD, List.getD_eq_getElem?_getD,
        List.getElem?_set_ne other]
    · exact ih distinct itself earlier (by simpa using inside) later

/-- Steps that add to a list of at most `n` elements as long as it has fewer come to the first `n` of all that
they add. -/
theorem foldl_take_eq {α β : Type} {step : List β → α → List β} {adds : α → List β} {n : Nat}
    (each : ∀ found a, found.length ≤ n → step found a = (found ++ adds a).take n) {found : List β} (few : found.length ≤ n)
    {l : List α} : l.foldl step found = (found ++ l.flatMap adds).take n := by
  induction l generalizing found with
  | nil => rw [List.foldl_nil, List.flatMap_nil, List.append_nil, List.take_of_length_le few]
  | cons a rest ih =>
    have cut (front back : List β) : (front.take n ++ back).take n = (front ++ back).take n := by
      have left : n - min n front.length = n - front.length := by omega
      rw [List.take_append, List.take_append, List.take_take, Nat.min_self, List.length_take, left]
    rw [List.foldl_cons, each found a few, ih (List.length_take_le ..), cut, List.flatMap_cons, List.append_assoc]

end Deliberation.Lists
