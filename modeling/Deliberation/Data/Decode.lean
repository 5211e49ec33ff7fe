import Deliberation.Abort
import Deliberation.Data.Basic
import Deliberation.Expr.Value
import Deliberation.NameMap
import Deliberation.OrdSet

/-!
Reading structured data as values of a type. Data that does not fit is refused without a reason.
-/

namespace Deliberation

/-- Why data has no reading: it does not fit, or reading it stops without an answer. -/
inductive Refusal where
  | refused
  | aborted (reason : Abort)
  deriving DecidableEq, Repr

/-- How closely data has to fit. -/
inductive Decode.Rigor where
  /-- A list holds no more than a record has fields, and a choice without content holds null. -/
  | strict
  /-- What a list holds more is passed over, and a choice without content is an empty list or record. -/
  | lenient
  deriving DecidableEq, Repr

/-- The outcome of reading data, which depends on how closely it has to fit. -/
abbrev Decoded := ReaderT Decode.Rigor (Except Refusal)

namespace Decode

variable {α : Type}

def refuse : Decoded α := throw .refused

def bool : Data → Decoded Bool
  | .bool b => pure b
  | _ => refuse

def int64 : Data → Decoded Int64
  | .int n =>
    match int64? n with
    | some word => pure word
    | none => refuse
  | _ => refuse

/-- An integer of 64 bits without a sign. -/
def nat : Data → Decoded Nat
  | .int n => if 0 ≤ n ∧ n < UInt64.size then pure n.toNat else refuse
  | _ => refuse

/-- A number, which may be written as an integer. -/
def number : Data → Decoded Float
  | .int n => pure (if n < 0 then Float.ofInt n else Float.ofScientific n.toNat false 0)
  | .num x => pure x
  | _ => refuse

def text : Data → Decoded String
  | .text s => pure s
  | _ => refuse

/-- A text that a reader accepts. -/
def parsed {ε : Type} (parse : String → Except ε α) (data : Data) : Decoded α := do
  match parse (← text data) with
  | .ok value => return value
  | .error _ => refuse

/-- A reading of data part by part, which is refused no sooner than at the part that cannot be read. -/
def inParts (read : Data → Decoded α) : Data → Decoded α
  | .unreadable start => do
    let _ ← read start
    refuse
  | data => read data

def list (item : Data → Decoded α) : Data → Decoded (List α) :=
  inParts fun data =>
    match data with
    | .list items => items.mapM item
    | _ => refuse

def option (value : Data → Decoded α) : Data → Decoded (Option α)
  | .null => pure none
  | data => some <$> value data

/-- The entries of a record, with any keys. -/
def entries (value : Data → Decoded α) : Data → Decoded (List (String × α))
  | .record entries => entries.mapM fun (key, data) => do return (key, ← value data)
  | _ => refuse

/-- A record with any keys, of which a later one replaces an earlier one of the same name. -/
def nameMap (value : Data → Decoded α) (data : Data) : Decoded (NameMap α) := do
  return .ofList (← entries value data)

/-- The entries of a record with any keys, the last one of each name at the place of the first. -/
def lastEntries (value : Data → Decoded α) (data : Data) : Decoded (List (String × α)) := do
  let entries ← entries value data
  return (entries.map (·.1)).eraseDups.filterMap fun name => do return (name, ← entries.reverse.lookup name)

/-- A list whose items form a set. -/
def set [Ord α] [Std.TransOrd α] (item : Data → Decoded α) (data : Data) : Decoded (OrdSet α) := do
  return .ofList (← list item data)

/-- The reading of data that is looked at as a whole before its kind is known: all of it can be read, and has
to fit strictly. -/
def whole (read : Data → Decoded α) (data : Data) : Decoded α :=
  if data.isReadable then fun _ => read data .strict else refuse

/-- The first reading that data has, where the last one decides. -/
def firstOf (readings : List (Data → Decoded α)) : Data → Decoded α :=
  whole fun data rigor => readings.foldr (fun reading rest =>
    match reading data rigor with
    | .error .refused => rest
    | outcome => outcome) (.error .refused)

/-- One of several named choices: a text, or a record with one entry that holds its content. -/
def choice : Data → Decoded (String × Option Data)
  | .text name => pure (name, none)
  | .record [(name, data)] => pure (name, some data)
  | _ => refuse

/-- Whether a choice has no content. -/
def isBare : Option Data → Decoded Bool
  | none => pure true
  | some .null => return (← read) == .strict
  | some (.list []) | some (.record []) => return (← read) == .lenient
  | some _ => pure false

def plainChoice (meaning : String → Option α) (data : Data) : Decoded α := do
  let (name, content) ← choice data
  match meaning name with
  | some value => if ← isBare content then return value else refuse
  | none => refuse

/-- A kind and what belongs to it: a record that names the kind under a key, or a list that starts with it. -/
def tagged (key : String) (read : String → Data → Decoded α) : Data → Decoded α :=
  whole fun data =>
    match data with
    | .record entries =>
      match entries.partition (·.1 = key) with
      | ([(_, .text kind)], rest) => read kind (.record rest)
      | _ => refuse
    | .list (.text kind :: rest) => read kind (.list rest)
    | _ => refuse

/-- The fields of a record under their main names. -/
structure Row where
  values : List (String × Data)
  /-- Whether the fields were listed in order and without their names. -/
  positional : Bool

namespace Row

/-- The value of a field whose names are given: only one of them may occur, and only once. -/
def field (names : List String) (entries : List (String × Data)) : Decoded (Option Data) :=
  match entries.filter fun entry => names.contains entry.1 with
  | [] => pure none
  | [(_, data)] => pure (some data)
  | _ => refuse

/-- The fields of a record, each given by all its names, the main one first. Other keys are ignored. -/
def named (fields : List (List String)) (data : Data) : Decoded Row :=
  match data with
  | .record entries => do
    let found ← fields.mapM fun names => do
      return (← field names entries).map fun data => (names.headD "", data)
    return ⟨found.filterMap id, false⟩
  | _ => refuse

/-- The fields of a record that may also be a list of their values in order. -/
def any (fields : List (List String)) (data : Data) : Decoded Row :=
  match data with
  | .list items => do
    if items.length ≤ fields.length || (← read) == .lenient then
      return ⟨(fields.map (·.headD "")).zip items, true⟩
    else refuse
  | data => named fields data

def required (row : Row) (name : String) (value : Data → Decoded α) : Decoded α :=
  match row.values.lookup name with
  | some data => value data
  | none => refuse

/-- A field with a value of its own when it is not there. -/
def withDefault (row : Row) (name : String) (value : Data → Decoded α) (absent : α) : Decoded α :=
  match row.values.lookup name with
  | some data => value data
  | none => pure absent

/-- A field that may be null or left out; a list of values has to hold it. -/
def optional (row : Row) (name : String) (value : Data → Decoded α) : Decoded (Option α) :=
  match row.values.lookup name with
  | some data => option value data
  | none => if row.positional then refuse else pure none

end Row

end Decode

def Value.decode : Data → Decoded (Value Float)
  | .bool b => pure (.bool b)
  | .int n =>
    match int64? n with
    | some word => pure (.int word)
    | none => .num <$> Decode.number (.int n)
  | .num x => pure (.num x)
  | .text s => pure (.sym s)
  | _ => Decode.refuse

def Value.toData : Value Float → Data
  | .bool b => .bool b
  | .int n => .int n.toInt
  | .num x => .num x
  | .sym s => .text s

end Deliberation
