/-!
Structured data: what documents and configurations are written in. Integers and numbers with a
fraction are kept apart, and records keep their entries in the order in which they were written.
-/

namespace Deliberation

inductive Data where
  | null
  | bool (b : Bool)
  | int (n : Int)
  | num (x : Float)
  | text (s : String)
  | list (items : List Data)
  | record (entries : List (String × Data))
  /-- What may be passed over but not read, at least not beyond its start. -/
  | unreadable (start : Data)
  deriving Inhabited

namespace Data

mutual

/-- The data in which nothing nests deeper than a limit: what does cannot be read. -/
def within : Nat → Data → Data
  | 0, .list _ | 0, .record _ => .unreadable .null
  | limit + 1, .list items => .list (withinAll limit items)
  | limit + 1, .record entries => .record (withinEntries limit entries)
  | limit, .unreadable start => .unreadable (start.within limit)
  | _, data => data

def withinAll (limit : Nat) : List Data → List Data
  | [] => []
  | item :: rest => item.within limit :: withinAll limit rest

def withinEntries (limit : Nat) : List (String × Data) → List (String × Data)
  | [] => []
  | (key, data) :: rest => (key, data.within limit) :: withinEntries limit rest

end

mutual

/-- Whether all of the data can be read. -/
def isReadable : Data → Bool
  | .unreadable _ => false
  | .list items => areReadable items
  | .record entries => entriesReadable entries
  | _ => true

def areReadable : List Data → Bool
  | [] => true
  | item :: rest => item.isReadable && areReadable rest

def entriesReadable : List (String × Data) → Bool
  | [] => true
  | (_, data) :: rest => data.isReadable && entriesReadable rest

end

mutual

/-- The data in which each number has given way to other data. -/
def mapNumbers (change : Float → Data) : Data → Data
  | .num x => change x
  | .list items => .list (mapNumbersAll change items)
  | .record entries => .record (mapNumbersEntries change entries)
  | data => data

def mapNumbersAll (change : Float → Data) : List Data → List Data
  | [] => []
  | item :: rest => item.mapNumbers change :: mapNumbersAll change rest

def mapNumbersEntries (change : Float → Data) : List (String × Data) → List (String × Data)
  | [] => []
  | (key, data) :: rest => (key, data.mapNumbers change) :: mapNumbersEntries change rest

end

/-- The data with null for each number that is infinite or undefined. -/
def finite (data : Data) : Data := data.mapNumbers fun x => if x.isFinite then .num x else .null

/-- The data with a zero that has no sign for each zero. -/
def unsignedZeros (data : Data) : Data := data.mapNumbers fun x => .num (if x == 0.0 then 0.0 else x)

/-- The value of a key, if the data is a record that has it. -/
def get? (data : Data) (key : String) : Option Data :=
  match data with
  | .record entries => entries.lookup key
  | _ => none

def texts (items : List String) : Data := .list (items.map .text)

def nat (n : Nat) : Data := .int n

def orNull {α : Type} (write : α → Data) : Option α → Data
  | some value => write value
  | none => .null

/-- An entry, left out when there is no value. -/
def optional {α : Type} (key : String) (write : α → Data) : Option α → List (String × Data)
  | some value => [(key, write value)]
  | none => []

end Data

end Deliberation
