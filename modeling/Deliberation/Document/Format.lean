import Deliberation.Data.Toml.Printer
import Deliberation.Data.Toml.Reader
import Deliberation.Document.Data
import Deliberation.Text.Cut

/-!
The two formats in which data is stored, and documents as text in them. The extension of a path says
which format a file has.
-/

namespace Deliberation

inductive Format where
  | json
  | toml
  deriving DecidableEq, Repr

namespace Format

def name : Format → String
  | .json => "json"
  | .toml => "toml"

/-- The name of the file that a path leads to, if it leads to one by name. -/
def fileName? (path : List Char) : Option (List Char) :=
  match ((Text.splitOn '/' path).filter fun part => part ≠ [] && part ≠ ['.']).getLast? with
  | some ['.', '.'] => none
  | last => last

/-- What stands behind the last point of a file name, unless nothing stands before it. -/
def extension? (name : List Char) : Option (List Char) :=
  match (Text.splitOn '.' name).reverse with
  | last :: before :: rest => if rest.isEmpty && before.isEmpty then none else some last
  | _ => none

/-- TOML is what a path with the extension toml leads to, in letters of either case; all else is JSON. -/
def ofPath (path : String) : Format :=
  match (fileName? path.toList).bind extension? with
  | some extension => if Text.isWord "toml" extension then .toml else .json
  | none => .json

/-- How many bytes a name in a path may have. -/
def nameLimit : Nat := 255

/-- How many bytes a path may have: 4095 together with the folder that it starts from, to which 32 are left. -/
def pathLimit : Nat := 4063

/-- Whether a file can be stored at a path: it has to end in a name, and not in a folder; names may not be too
long, and none holds a zero. -/
def isStorable (path : String) : Bool :=
  let names := Text.splitOn '/' path.toList
  let isName (last : List Char) : Bool := last ∉ [[], ['.'], ['.', '.']]
  names.getLast?.any isName && names.all (fun name => Text.byteLength name ≤ nameLimit && '\x00' ∉ name) &&
    Text.byteLength path.toList ≤ pathLimit

/-- The data that a text in a format stands for, or what can be known of it when the text breaks off. -/
def parse (format : Format) (text : String) : Except Data Data :=
  match format with
  | .json => Json.parse text
  | .toml =>
    match Toml.parse? text with
    | some data => .ok data
    | none => .error .null

def text? (format : Format) (data : Data) : Option String :=
  match format with
  | .json => some (Json.indentedText data)
  | .toml => Toml.text? data

/-- How closely data of a format has to fit what it is read as. -/
def rigor : Format → Decode.Rigor
  | .json => .strict
  | .toml => .lenient

/-- What a text in a format is read as. A text that breaks off is refused, unless its reading stops before that. -/
def read {α : Type} (format : Format) (decode : Data → Decoded α) (text : String) : Except Refusal α :=
  match format.parse text with
  | .ok data => decode data format.rigor
  | .error start => Decode.inParts decode (.unreadable start) format.rigor

end Format

def Document.parse (format : Format) (text : String) : Except Refusal Document := format.read Document.decode text

def Document.text? (format : Format) (doc : Document) : Option String := format.text? doc.toData

end Deliberation
