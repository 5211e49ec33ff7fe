import Deliberation.Data.Basic

/-!
The tables that TOML text builds up line by line. A table is declared by its header once; before that
it may be implied by the header of a table inside it, or by dotted keys, which are kept apart.
-/

namespace Deliberation.Toml

inductive Origin where
  | declared
  | implied
  | dotted
  deriving DecidableEq, Repr

/-- What stands under a key: a value, a table, or a list of tables that headers add to. -/
inductive Item where
  | value (data : Data)
  | table (origin : Origin) (entries : List (String × Item))
  | tables (elements : List (List (String × Item)))

/-- The entries of a table, in the order in which they were written. -/
abbrev Entries := List (String × Item)

namespace Entries

/-- The entries with the item of a key replaced, or added behind the others. -/
def put (entries : Entries) (key : String) (item : Item) : Entries :=
  if entries.any (·.1 = key) then entries.map fun entry => if entry.1 = key then (key, item) else entry
  else entries ++ [(key, item)]

/-- Changes the table that a path of keys leads to, in the last table of each list on the way. Tables that are
not there are made; dotted keys lead into no declared table. -/
def change (act : Origin → Entries → Option Entries) (dotted : Bool) :
    (path : List String) → Origin → Entries → Option Entries
  | [], origin, entries => act origin entries
  | key :: path, _, entries => do
    match entries.lookup key with
    | none =>
      let origin := if dotted then Origin.dotted else .implied
      return entries.put key (.table origin (← change act dotted path origin []))
    | some (.value _) => none
    | some (.table origin inner) =>
      if dotted ∧ origin = .declared then none
      else return entries.put key (.table origin (← change act dotted path origin inner))
    | some (.tables elements) =>
      let last ← elements.getLast?
      return entries.put key (.tables (elements.dropLast ++ [← change act dotted path .declared last]))

/-- The entries with a value under a path of keys, the last of which must be new to its table. -/
def insertAt (path : List String) (data : Data) (entries : Entries) : Option Entries := do
  let key ← path.getLast?
  let around := path.dropLast
  let add (origin : Origin) (inner : Entries) : Option Entries :=
    if (origin = .dotted) ≠ (around ≠ []) ∨ inner.any (·.1 = key) then none else some (inner ++ [(key, .value data)])
  change add true around .declared entries

/-- The entries in which a header has declared a table. One that was implied before moves behind the others. -/
def declare (path : List String) (entries : Entries) : Option Entries := do
  let key ← path.getLast?
  let opening (_ : Origin) (inner : Entries) : Option Entries :=
    match inner.lookup key with
    | none => some (inner ++ [(key, .table .declared [])])
    | some (.table .implied content) => some (inner.filter (·.1 ≠ key) ++ [(key, .table .declared content)])
    | some _ => none
  change opening false path.dropLast .declared entries

/-- The entries in which a header has added a table to a list. -/
def declareElement (path : List String) (entries : Entries) : Option Entries := do
  let key ← path.getLast?
  let add (_ : Origin) (inner : Entries) : Option Entries :=
    match inner.lookup key with
    | none => some (inner ++ [(key, .tables [[]])])
    | some (.tables elements) => some (inner.put key (.tables (elements ++ [[]])))
    | some _ => none
  change add false path.dropLast .declared entries

/-- The entries with a value under a path of keys inside the table that a header opened. -/
def insertUnder (header path : List String) (data : Data) (entries : Entries) : Option Entries :=
  change (fun _ inner => inner.insertAt path data) false header .declared entries

end Entries

mutual

def Item.toData : Item → Data
  | .value data => data
  | .table _ entries => .record (entriesData entries)
  | .tables elements => .list (elementsData elements)

def entriesData : List (String × Item) → List (String × Data)
  | [] => []
  | (key, item) :: rest => (key, item.toData) :: entriesData rest

/-- The data of a list of tables. -/
def elementsData : List (List (String × Item)) → List Data
  | [] => []
  | entries :: rest => .record (entriesData entries) :: elementsData rest

end

end Deliberation.Toml
