/-!
Finite maps from names, kept as a list of entries in strictly increasing order of name. Two maps
with the same entries have the same list.
-/

namespace Deliberation

/-- A finite map from names. -/
structure NameMap (β : Type) where
  toList : List (String × β)
  increasing : toList.Pairwise (fun a b => compare a.1 b.1 = .lt)

namespace NameMap

variable {β : Type}

instance [DecidableEq β] : DecidableEq (NameMap β) := fun s t =>
  decidable_of_iff (s.toList = t.toList) (by cases s; cases t; simp)

instance [BEq β] : BEq (NameMap β) := ⟨fun s t => s.toList == t.toList⟩

def empty : NameMap β := ⟨[], .nil⟩

instance : Inhabited (NameMap β) := ⟨empty⟩

def get? (m : NameMap β) (name : String) : Option β := m.toList.lookup name

def contains (m : NameMap β) (name : String) : Bool := (m.get? name).isSome

def keys (m : NameMap β) : List String := m.toList.map (·.1)

/-- An entry put into its place, where an entry of the same name gives way to it. -/
def insertEntry (name : String) (value : β) : List (String × β) → List (String × β)
  | [] => [(name, value)]
  | entry :: rest =>
    match compare name entry.1 with
    | .lt => (name, value) :: entry :: rest
    | .eq => (name, value) :: rest
    | .gt => entry :: insertEntry name value rest

theorem mem_insertEntry {name : String} {value : β} {entry : String × β} {l : List (String × β)}
    (member : entry ∈ insertEntry name value l) : entry = (name, value) ∨ entry ∈ l := by
  induction l with
  | nil => simpa [insertEntry] using member
  | cons first rest ih =>
    rw [insertEntry] at member
    split at member
    · simpa using member
    · exact (List.mem_cons.1 member).imp_right (List.mem_cons_of_mem _)
    · rcases List.mem_cons.1 member with rfl | later
      · exact .inr (by simp)
      · exact (ih later).imp_right (List.mem_cons_of_mem _)

theorem increasing_insertEntry {name : String} {value : β} {l : List (String × β)}
    (sorted : l.Pairwise (fun a b => compare a.1 b.1 = .lt)) :
    (insertEntry name value l).Pairwise (fun a b => compare a.1 b.1 = .lt) := by
  induction l with
  | nil => simp [insertEntry]
  | cons first rest ih =>
    have ⟨below, tail⟩ := List.pairwise_cons.1 sorted
    rw [insertEntry]
    split
    · next before =>
      refine List.pairwise_cons.2 ⟨fun entry member => ?_, sorted⟩
      rcases List.mem_cons.1 member with rfl | later
      · exact before
      · exact Std.TransCmp.lt_trans before (below entry later)
    · next same =>
      refine List.pairwise_cons.2 ⟨fun entry member => ?_, tail⟩
      simpa only [Std.LawfulEqOrd.eq_of_compare same] using below entry member
    · next after =>
      refine List.pairwise_cons.2 ⟨fun entry member => ?_, ih tail⟩
      rcases mem_insertEntry member with rfl | later
      · exact Std.OrientedCmp.lt_of_gt after
      · exact below entry later

/-- The map in which a name has a new value. -/
def insert (m : NameMap β) (name : String) (value : β) : NameMap β :=
  ⟨insertEntry name value m.toList, increasing_insertEntry m.increasing⟩

/-- The map of a list of entries, where a later entry of a name replaces an earlier one. -/
def ofList (entries : List (String × β)) : NameMap β :=
  entries.foldl (fun m entry => m.insert entry.1 entry.2) empty

def map {γ : Type} (change : β → γ) (m : NameMap β) : NameMap γ :=
  ⟨m.toList.map fun entry => (entry.1, change entry.2), List.pairwise_map.2 m.increasing⟩

@[simp] theorem get?_empty {name : String} : (empty : NameMap β).get? name = none := rfl

private theorem lookup_insertEntry {name other : String} {value : β} {l : List (String × β)} :
    (insertEntry name value l).lookup other = if other = name then some value else l.lookup other := by
  induction l with
  | nil => simp only [insertEntry, List.lookup_cons, List.lookup_nil]; grind
  | cons first rest ih =>
    obtain ⟨key, stored⟩ := first
    rw [insertEntry]
    split
    · simp only [List.lookup_cons]; grind
    · next same =>
      have same : name = key := Std.LawfulEqOrd.eq_of_compare same
      simp only [List.lookup_cons]; grind
    · next after =>
      have apart : name ≠ key := fun same => by simp [same] at after
      simp only [List.lookup_cons, ih]; grind

@[simp] theorem get?_insert {m : NameMap β} {name other : String} {value : β} :
    (m.insert name value).get? other = if other = name then some value else m.get? other :=
  lookup_insertEntry

end NameMap

end Deliberation
