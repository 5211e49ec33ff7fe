import Deliberation.Data.Json

/-!
Writing TOML text: a header for each record and for each record of a list, and under it a line for each
entry. Records that stand in a list beside other things are written in place.
-/

namespace Deliberation.Toml

def renderChar (c : Char) : List Char :=
  if c.toNat = 0x7f then "\\u007f".toList else Json.renderChar c

def renderString (s : String) : List Char := '"' :: s.toList.flatMap renderChar ++ ['"']

/-- A number: its digits, or the word for what is infinite or undefined. -/
def renderNumber (x : Float) : List Char :=
  match Decimal.data? x with
  | some text => text.toList
  | none => if x.isNaN then "nan".toList else if x < 0 then "-inf".toList else "inf".toList

mutual

/-- The text of a value, if it has one: integers of more than 64 bits have none, nor has null. -/
def renderValue? : Data → Option (List Char)
  | .null | .unreadable _ => none
  | .bool true => some "true".toList
  | .bool false => some "false".toList
  | .int n => if Int64.minValue.toInt ≤ n ∧ n ≤ Int64.maxValue.toInt then some (toString n).toList else none
  | .num x => some (renderNumber x)
  | .text s => some (renderString s)
  | .list items => (renderAll? items).map fun texts => '[' :: Text.join ", " texts ++ [']']
  | .record entries => (renderEntries? entries).map fun texts => '\x7b' :: Text.join ", " texts ++ ['\x7d']

def renderAll? : List Data → Option (List (List Char))
  | [] => some []
  | item :: rest => do return (← renderValue? item) :: (← renderAll? rest)

/-- The texts of entries; what is null is left out. -/
def renderEntries? : List (String × Data) → Option (List (List Char))
  | [] => some []
  | (_, .null) :: rest => renderEntries? rest
  | (key, value) :: rest => do
    return (renderString key ++ " = ".toList ++ (← renderValue? value)) :: (← renderEntries? rest)

end

/-! ## Lines -/

def isRecord : Data → Bool
  | .record _ => true
  | _ => false

/-- Whether data is written under headers of its own: a record, or records in a list that is not empty. -/
def isTabular : Data → Bool
  | .list items => !items.isEmpty && items.all isRecord
  | data => isRecord data

/-- A header: the keys of a path between brackets. -/
def header (opening : String) (path : List String) (closing : String) : List Char :=
  opening.toList ++ Text.join "." (path.map renderString) ++ closing.toList

/-- The lines of the entries that are written in place. -/
def plainLines? (entries : List (String × Data)) : Option (List (List Char)) :=
  renderEntries? (entries.filter fun entry => !isTabular entry.2)

mutual

/-- The lines of what has headers among the entries of the table at a path. They come behind those of the
plain entries, which would else belong to the last of these tables. -/
def tableLines? (path : List String) : List (String × Data) → Option (List (List Char))
  | [] => some []
  | (key, .record entries) :: rest => do
    let lines := (← plainLines? entries) ++ (← tableLines? (path ++ [key]) entries)
    return header "[" (path ++ [key]) "]" :: lines ++ (← tableLines? path rest)
  | (key, .list items) :: rest => do
    let lines ← if isTabular (.list items) then elementLines? (path ++ [key]) items else some []
    return lines ++ (← tableLines? path rest)
  | _ :: rest => tableLines? path rest

/-- The lines of the records in the list at a path. -/
def elementLines? (path : List String) : List Data → Option (List (List Char))
  | [] => some []
  | .record entries :: rest => do
    let lines := (← plainLines? entries) ++ (← tableLines? path entries)
    return header "[[" path "]]" :: lines ++ (← elementLines? path rest)
  | _ :: rest => elementLines? path rest

end

/-- The TOML text of a record, if all its values have one. -/
def text? : Data → Option String
  | .record entries => do
    let lines := (← plainLines? entries) ++ (← tableLines? [] entries)
    return String.ofList (lines.flatMap (· ++ ['\n']))
  | _ => none

end Deliberation.Toml
