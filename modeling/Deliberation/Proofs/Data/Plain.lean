import Deliberation.Data.Basic

/-!
Plain data: all of it can be read, and nothing nests deeper than a limit. What a limit leaves of data is
plain if it can be read, and plain data is not changed by its limit.
-/

namespace Deliberation.Data

/-- Data that can be read, in which all integers are of a kind and nothing nests deeper than a limit. -/
inductive Plain (kind : Int → Prop) : Nat → Data → Prop
  | null {limit : Nat} : Plain kind limit .null
  | bool {limit : Nat} (b : Bool) : Plain kind limit (.bool b)
  | int {limit : Nat} {n : Int} (here : kind n) : Plain kind limit (.int n)
  | num {limit : Nat} (x : Float) : Plain kind limit (.num x)
  | text {limit : Nat} (s : String) : Plain kind limit (.text s)
  | list {limit : Nat} {items : List Data} (each : ∀ item ∈ items, Plain kind limit item) : Plain kind (limit + 1) (.list items)
  | record {limit : Nat} {entries : List (String × Data)} (each : ∀ entry ∈ entries, Plain kind limit entry.2) :
      Plain kind (limit + 1) (.record entries)

/-- The integers of 64 bits, with a sign or without one. -/
def IsWord (n : Int) : Prop := Int64.minValue.toInt ≤ n ∧ n < UInt64.size

theorem isWord_toInt (n : Int64) : IsWord n.toInt :=
  ⟨n.minValue_le_toInt, Int.lt_of_le_of_lt n.toInt_le (by decide)⟩

variable {kind : Int → Prop}

theorem plain_list {α : Type} {write : α → Data} {values : List α} {limit : Nat}
    (each : ∀ value ∈ values, Plain kind limit (write value)) : Plain kind (limit + 1) (.list (values.map write)) := by
  refine .list fun item member => ?_
  obtain ⟨value, here, rfl⟩ := List.mem_map.1 member
  exact each value here

theorem plain_texts (limit : Nat) (texts : List String) : Plain kind (limit + 1) (.texts texts) :=
  plain_list fun s _ => .text s

theorem Plain.mono {limit upper : Nat} {data : Data} (plain : Plain kind limit data) (le : limit ≤ upper) :
    Plain kind upper data := by
  induction plain generalizing upper with
  | null => exact .null
  | bool b => exact .bool b
  | int here => exact .int here
  | num x => exact .num x
  | text s => exact .text s
  | list _ ih =>
    obtain ⟨upper, rfl⟩ : ∃ n, upper = n + 1 := ⟨upper - 1, by omega⟩
    exact .list fun item member => ih item member (by omega)
  | record _ ih =>
    obtain ⟨upper, rfl⟩ : ∃ n, upper = n + 1 := ⟨upper - 1, by omega⟩
    exact .record fun entry member => ih entry member (by omega)

/-- An entry that may be left out is plain if its value is. -/
theorem plain_optional {α : Type} {key : String} {write : α → Data} {value : Option α} {limit : Nat}
    (each : ∀ a ∈ value, Plain kind limit (write a)) : ∀ entry ∈ Data.optional key write value, Plain kind limit entry.2 := by
  cases value with
  | none => simp [Data.optional]
  | some a => simpa [Data.optional] using each

/-! ### Limits -/

mutual

theorem plain_within : (limit : Nat) → (data : Data) → (data.within limit).isReadable →
    Plain (fun _ => True) limit (data.within limit)
  | limit, .null, _ => by cases limit <;> exact .null
  | limit, .bool b, _ => by cases limit <;> exact .bool b
  | limit, .int _, _ => by cases limit <;> exact .int trivial
  | limit, .num x, _ => by cases limit <;> exact .num x
  | limit, .text s, _ => by cases limit <;> exact .text s
  | 0, .list _, readable => nomatch readable
  | 0, .record _, readable => nomatch readable
  | limit + 1, .list items, readable => .list (plain_withinAll limit items readable)
  | limit + 1, .record entries, readable => .record (plain_withinEntries limit entries readable)
  | 0, .unreadable _, readable => nomatch readable
  | _ + 1, .unreadable _, readable => nomatch readable

theorem plain_withinAll : (limit : Nat) → (items : List Data) → areReadable (withinAll limit items) →
    ∀ item ∈ withinAll limit items, Plain (fun _ => True) limit item
  | _, [], _ => nofun
  | limit, item :: rest, readable =>
    have ⟨here, later⟩ := Bool.and_eq_true_iff.1 readable
    List.forall_mem_cons.2 ⟨plain_within limit item here, plain_withinAll limit rest later⟩

theorem plain_withinEntries : (limit : Nat) → (entries : List (String × Data)) → entriesReadable (withinEntries limit entries) →
    ∀ entry ∈ withinEntries limit entries, Plain (fun _ => True) limit entry.2
  | _, [], _ => nofun
  | limit, (_, data) :: rest, readable =>
    have ⟨here, later⟩ := Bool.and_eq_true_iff.1 readable
    List.forall_mem_cons.2 ⟨plain_within limit data here, plain_withinEntries limit rest later⟩

end

theorem withinAll_eq (limit : Nat) (items : List Data) : withinAll limit items = items.map (within limit) := by
  induction items with
  | nil => rfl
  | cons item rest ih => rw [withinAll, ih, List.map_cons]

theorem withinEntries_eq (limit : Nat) (entries : List (String × Data)) :
    withinEntries limit entries = entries.map fun entry => (entry.1, entry.2.within limit) := by
  induction entries with
  | nil => rfl
  | cons entry rest ih => rw [withinEntries, ih, List.map_cons]

theorem areReadable_iff {items : List Data} : areReadable items ↔ ∀ item ∈ items, item.isReadable := by
  induction items with
  | nil => simp [areReadable]
  | cons item rest ih => simp [areReadable, ih]

theorem entriesReadable_iff {entries : List (String × Data)} : entriesReadable entries ↔ ∀ entry ∈ entries, entry.2.isReadable := by
  induction entries with
  | nil => simp [entriesReadable]
  | cons entry rest ih => simp [entriesReadable, ih]

theorem Plain.isReadable {limit : Nat} {data : Data} (plain : Plain kind limit data) : data.isReadable := by
  induction plain with
  | list _ ih => exact areReadable_iff.2 ih
  | record _ ih => exact entriesReadable_iff.2 ih
  | _ => rfl

/-- A limit that is kept takes nothing away. -/
theorem Plain.within {limit : Nat} {data : Data} (plain : Plain kind limit data) : data.within limit = data := by
  induction plain with
  | list _ ih => rw [Data.within, withinAll_eq, List.map_congr_left ih, List.map_id']
  | record _ ih =>
    have same (entry) (member) : _ = entry := congrArg (Prod.mk entry.1) (ih entry member)
    rw [Data.within, withinEntries_eq, List.map_congr_left same, List.map_id']
  | _ => simp [Data.within]

/-! ### Numbers -/

mutual

/-- The numbers that are not given as integers. -/
def numbers : Data → List Float
  | .num x => [x]
  | .list items => numbersAll items
  | .record entries => numbersEntries entries
  | _ => []

def numbersAll : List Data → List Float
  | [] => []
  | item :: rest => item.numbers ++ numbersAll rest

def numbersEntries : List (String × Data) → List Float
  | [] => []
  | (_, data) :: rest => data.numbers ++ numbersEntries rest

end

theorem numbersAll_eq (items : List Data) : numbersAll items = items.flatMap numbers := by
  induction items with
  | nil => rfl
  | cons item rest ih => rw [numbersAll, ih, List.flatMap_cons]

theorem numbersEntries_eq (entries : List (String × Data)) : numbersEntries entries = entries.flatMap (·.2.numbers) := by
  induction entries with
  | nil => rfl
  | cons entry rest ih => rw [numbersEntries, ih, List.flatMap_cons]

end Deliberation.Data
