/-!
Finite sets of an ordered type, kept as a strictly increasing list. The list is the view: two sets
with the same members have the same list, and every iteration runs in that order.
-/

namespace Deliberation

/-- A finite set, listed in strictly increasing order. -/
structure OrdSet (α : Type) [Ord α] where
  toList : List α
  increasing : toList.Pairwise (fun a b => compare a b = .lt)

namespace OrdSet

variable {α : Type} [Ord α]

instance : Membership α (OrdSet α) := ⟨fun s a => a ∈ s.toList⟩

@[simp] theorem mem_toList {s : OrdSet α} {a : α} : a ∈ s.toList ↔ a ∈ s := Iff.rfl

instance [DecidableEq α] (s : OrdSet α) (a : α) : Decidable (a ∈ s) :=
  inferInstanceAs (Decidable (a ∈ s.toList))

instance [DecidableEq α] : DecidableEq (OrdSet α) := fun s t =>
  decidable_of_iff (s.toList = t.toList) (by cases s; cases t; simp)

instance [Hashable α] : Hashable (OrdSet α) := ⟨fun s => hash s.toList⟩

def empty : OrdSet α := ⟨[], .nil⟩

instance : Inhabited (OrdSet α) := ⟨empty⟩

def size (s : OrdSet α) : Nat := s.toList.length

def isEmpty (s : OrdSet α) : Bool := s.toList.isEmpty

/-- An element put into its place of an increasing list, unless it is there. -/
def insertOrdered (a : α) : List α → List α
  | [] => [a]
  | b :: rest =>
    match compare a b with
    | .lt => a :: b :: rest
    | .eq => b :: rest
    | .gt => b :: insertOrdered a rest

variable [Std.TransOrd α]

omit [Std.TransOrd α] in
theorem mem_insertOrdered_sub {a c : α} {l : List α} (member : c ∈ insertOrdered a l) : c = a ∨ c ∈ l := by
  induction l with
  | nil => simpa [insertOrdered] using member
  | cons b rest ih =>
    rw [insertOrdered] at member
    split at member
    · simpa using member
    · exact .inr member
    · rcases List.mem_cons.1 member with rfl | later
      · exact .inr (by simp)
      · exact (ih later).imp_right (List.mem_cons_of_mem _)

theorem increasing_insertOrdered {a : α} {l : List α} (sorted : l.Pairwise (fun a b => compare a b = .lt)) :
    (insertOrdered a l).Pairwise (fun a b => compare a b = .lt) := by
  induction l with
  | nil => simp [insertOrdered]
  | cons b rest ih =>
    have ⟨below, tail⟩ := List.pairwise_cons.1 sorted
    rw [insertOrdered]
    split
    · next before =>
      refine List.pairwise_cons.2 ⟨fun c member => ?_, sorted⟩
      rcases List.mem_cons.1 member with rfl | later
      · exact before
      · exact Std.TransCmp.lt_trans before (below c later)
    · exact sorted
    · next after =>
      refine List.pairwise_cons.2 ⟨fun c member => ?_, ih tail⟩
      rcases mem_insertOrdered_sub member with rfl | later
      · exact Std.OrientedCmp.lt_of_gt after
      · exact below c later

/-- The set with one more member. -/
def insert (s : OrdSet α) (a : α) : OrdSet α :=
  ⟨insertOrdered a s.toList, increasing_insertOrdered s.increasing⟩

/-- The set with the members of a list added. -/
def insertAll (s : OrdSet α) (l : List α) : OrdSet α := l.foldl insert s

def ofList (l : List α) : OrdSet α := empty.insertAll l

/-- The members that pass a test. -/
def filter (s : OrdSet α) (keep : α → Bool) : OrdSet α :=
  ⟨s.toList.filter keep, s.increasing.filter keep⟩

/-- The set without one element. -/
def erase [DecidableEq α] (s : OrdSet α) (a : α) : OrdSet α := s.filter (· ≠ a)

/-- The members of `wanted` that a set lacks, in order. -/
def missing [DecidableEq α] (s wanted : OrdSet α) : List α := wanted.toList.filter (· ∉ s)

/-- Whether a set holds every member of another. -/
def includes [DecidableEq α] (s wanted : OrdSet α) : Bool := wanted.toList.all (· ∈ s)

omit [Std.TransOrd α] in
@[simp] theorem mem_empty {a : α} : a ∉ (empty : OrdSet α) := List.not_mem_nil

omit [Std.TransOrd α] in
theorem mem_insertOrdered [Std.LawfulEqOrd α] {a c : α} {l : List α} :
    c ∈ insertOrdered a l ↔ c = a ∨ c ∈ l := by
  refine ⟨mem_insertOrdered_sub, fun member => ?_⟩
  induction l with
  | nil => simpa [insertOrdered] using member
  | cons b rest ih =>
    rw [insertOrdered]
    split
    · simpa using member
    · next same =>
      rcases member with rfl | there
      · rw [Std.LawfulEqOrd.eq_of_compare same]; simp
      · exact there
    · rcases member with rfl | there
      · exact List.mem_cons_of_mem _ (ih (.inl rfl))
      · rcases List.mem_cons.1 there with rfl | later
        · simp
        · exact List.mem_cons_of_mem _ (ih (.inr later))

@[simp] theorem mem_insert [Std.LawfulEqOrd α] {s : OrdSet α} {a c : α} :
    c ∈ s.insert a ↔ c = a ∨ c ∈ s := mem_insertOrdered

@[simp] theorem mem_insertAll [Std.LawfulEqOrd α] {l : List α} {s : OrdSet α} {c : α} :
    c ∈ s.insertAll l ↔ c ∈ l ∨ c ∈ s := by
  induction l generalizing s with
  | nil => simp [insertAll]
  | cons a rest ih =>
    have unfolded : s.insertAll (a :: rest) = (s.insert a).insertAll rest := rfl
    rw [unfolded, ih, mem_insert, List.mem_cons]
    grind

@[simp] theorem mem_ofList [Std.LawfulEqOrd α] {l : List α} {c : α} : c ∈ ofList l ↔ c ∈ l := by
  simp [ofList]

theorem insertOrdered_of_forall_lt {a : α} {l : List α} (below : ∀ b ∈ l, compare b a = .lt) : insertOrdered a l = l ++ [a] := by
  induction l with
  | nil => rfl
  | cons b rest ih =>
    obtain ⟨here, later⟩ := List.forall_mem_cons.1 below
    rw [insertOrdered, Std.OrientedCmp.gt_of_lt here, ih later, List.cons_append]

theorem toList_insertAll {l : List α} {s : OrdSet α} (sorted : (s.toList ++ l).Pairwise (fun a b => compare a b = .lt)) :
    (s.insertAll l).toList = s.toList ++ l := by
  induction l generalizing s with
  | nil => simp [insertAll]
  | cons a rest ih =>
    have below : ∀ b ∈ s.toList, compare b a = .lt := fun b member =>
      (List.pairwise_append.1 sorted).2.2 b member a (by simp)
    have inserted : (s.insert a).toList = s.toList ++ [a] := insertOrdered_of_forall_lt below
    have unfolded : s.insertAll (a :: rest) = (s.insert a).insertAll rest := rfl
    rw [unfolded, ih (by simpa [inserted] using sorted), inserted, List.append_assoc, List.singleton_append]

theorem nodup_toList (s : OrdSet α) : s.toList.Nodup := by
  refine s.increasing.imp fun {a b} before same => ?_
  subst same
  simp [Std.ReflCmp.compare_self] at before

/-- A set is made of its list. -/
theorem ofList_toList (s : OrdSet α) : ofList s.toList = s := by
  have same : (ofList s.toList).toList = s.toList := toList_insertAll (by simpa [empty] using s.increasing)
  generalize ofList s.toList = made at same ⊢
  cases s
  cases made
  cases same
  rfl

omit [Std.TransOrd α] in
@[simp] theorem mem_filter {s : OrdSet α} {keep : α → Bool} {c : α} :
    c ∈ s.filter keep ↔ c ∈ s ∧ keep c = true := List.mem_filter

omit [Std.TransOrd α] in
@[simp] theorem mem_erase [DecidableEq α] {s : OrdSet α} {a c : α} :
    c ∈ s.erase a ↔ c ∈ s ∧ c ≠ a := by
  simp [erase]

end OrdSet

end Deliberation
