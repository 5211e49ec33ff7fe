import Deliberation.Data.Basic
import Deliberation.Number.Decimal
import Deliberation.Text.Cut

/-!
JSON text. Integers of 64 bits stay integers. A number with a fraction or an exponent is the double
nearest to its leading digits, scaled by one power of ten. What is well formed and stands for nothing
(half of a surrogate pair, a number that is too great, what nests too deep) is kept as unreadable. Of a
text that is not JSON, the data is known that stands before the place where it breaks off.
-/

namespace Deliberation.Json

def isSpace (c : Char) : Bool := c == ' ' || c == '\n' || c == '\t' || c == '\r'

/-- The text without the blanks at its front. -/
def skip (text : List Char) : List Char := text.dropWhile isSpace

/-- The greatest integer of 64 bits without a sign. -/
def greatestWord : Nat := UInt64.size - 1

/-- The leading digits of a number that fit a word of 64 bits after `n`, and the digits that do not. -/
def leadingDigits (n : Nat) : List Char → Nat × List Char
  | [] => (n, [])
  | digit :: rest =>
    let next := 10 * n + (digit.toNat - '0'.toNat)
    if next ≤ greatestWord then leadingDigits next rest else (n, digit :: rest)

def powerOfTen (n : Nat) : Float := Float.ofScientific 1 false n

/-- Digits scaled by a power of ten: one multiplication or division, after as many divisions by 1e308 as bring
the power into the range of doubles. Nothing when the result is too great. -/
def scale? : (steps : Nat) → Float → Int → Option Float
  | 0, x, _ => some x
  | steps + 1, x, power =>
    if power.natAbs ≤ 308 then
      if 0 ≤ power then
        let y := x * powerOfTen power.natAbs
        if y.isInf then none else some y
      else some (x / powerOfTen power.natAbs)
    else if x == 0.0 then some x
    else if 0 ≤ power then none
    else scale? steps (x / powerOfTen 308) (power + 308)

/-- The double of a sign, leading digits and a power of ten; it cannot be read when it is too great. -/
def double (negative : Bool) (digits : Nat) (power : Int) : Data :=
  match scale? 4 (Float.ofScientific digits false 0) power with
  | some x => .num (if negative then -x else x)
  | none => .unreadable .null

/-- The digits at the front of a text, at least one, and the rest. -/
def digits? (text : List Char) : Option (List Char × List Char) :=
  match text.takeWhile Char.isDigit with
  | [] => none
  | digits => some (digits, text.dropWhile Char.isDigit)

/-- The exponent at the front of a text, zero when there is none, and the rest. -/
def exponent? (text : List Char) : Option (Int × List Char) :=
  match text with
  | 'e' :: rest | 'E' :: rest =>
    let (negative, rest) := match rest with
      | '+' :: rest => (false, rest)
      | '-' :: rest => (true, rest)
      | rest => (false, rest)
    (digits? rest).map fun (digits, rest) =>
      (if negative then -(Decimal.digitValue digits : Int) else Decimal.digitValue digits, rest)
  | _ => some (0, text)

/-- The whole part of a number: one zero, or digits that do not start with a zero. -/
def whole? (text : List Char) : Option (List Char × List Char) :=
  match digits? text with
  | some ('0' :: _ :: _, _) => none
  | found => found

/-- The number without a sign at the front of a text, and the rest. -/
def readUnsigned? (negative : Bool) (text : List Char) : Option (Data × List Char) := do
  let (whole, rest) ← whole? text
  let (n, dropped) := leadingDigits 0 whole
  match rest with
  | '.' :: rest =>
    let (fraction, rest) ← digits? rest
    let (n, ignored) := leadingDigits n fraction
    let (exponent, rest) ← exponent? rest
    let used := fraction.length - ignored.length
    return (double negative n (dropped.length - used + exponent), rest)
  | 'e' :: _ | 'E' :: _ =>
    let (exponent, rest) ← exponent? rest
    return (double negative n (dropped.length + exponent), rest)
  | _ =>
    if !dropped.isEmpty then return (double negative n dropped.length, rest)
    else if !negative then return (.int n, rest)
    else if 0 < n ∧ Int64.minValue.toInt ≤ -n then return (.int (-n), rest)
    else return (double true n 0, rest)

def hexDigit? (c : Char) : Option Nat :=
  if c.isDigit then some (c.toNat - '0'.toNat)
  else if 'a' ≤ c ∧ c ≤ 'f' then some (c.toNat - 'a'.toNat + 10)
  else if 'A' ≤ c ∧ c ≤ 'F' then some (c.toNat - 'A'.toNat + 10)
  else none

/-- A code unit of four hexadecimal digits. -/
def unit? (digits : List Char) : Option Nat :=
  digits.foldlM (fun n c => (hexDigit? c).map (16 * n + ·)) 0

/-- The character that a letter stands for after a backslash. -/
def escaped? : Char → Option Char
  | '"' => some '"'
  | '\\' => some '\\'
  | '/' => some '/'
  | 'b' => some '\x08'
  | 'f' => some '\x0c'
  | 'n' => some '\n'
  | 'r' => some '\r'
  | 't' => some '\t'
  | _ => none

/-- What a code unit stands for: half of a pair, or a character. -/
def ofUnit (unit : Nat) : Nat ⊕ Char :=
  if 0xd800 ≤ unit ∧ unit ≤ 0xdfff then .inl unit else .inr (Char.ofNat unit)

/-- The character of a pair of code units. -/
def pair? (high low : Nat) : Option Char :=
  if 0xd800 ≤ high ∧ high ≤ 0xdbff ∧ 0xdc00 ≤ low ∧ low ≤ 0xdfff then
    some (Char.ofNat (0x10000 + (high - 0xd800) * 0x400 + (low - 0xdc00)))
  else none

/-- The rest of a string after its opening quote: its characters and halves of pairs, and the text after the
closing quote. -/
def readUnits? : List Char → Option (List (Nat ⊕ Char) × List Char)
  | [] => none
  | '"' :: rest => some ([], rest)
  | '\\' :: 'u' :: a :: b :: c :: d :: rest => do
    let unit ← unit? [a, b, c, d]
    let (units, rest) ← readUnits? rest
    return (ofUnit unit :: units, rest)
  | '\\' :: c :: rest => do
    let c ← escaped? c
    let (units, rest) ← readUnits? rest
    return (.inr c :: units, rest)
  | c :: rest => do
    if c.toNat < 0x20 then none
    let (units, rest) ← readUnits? rest
    return (.inr c :: units, rest)

/-- The characters of a string, if every half of a pair stands with its other half. -/
def joinPairs? : List (Nat ⊕ Char) → Option (List Char)
  | [] => some []
  | .inr c :: rest => (joinPairs? rest).map (c :: ·)
  | .inl high :: .inl low :: rest => do return (← pair? high low) :: (← joinPairs? rest)
  | .inl _ :: _ => none

/-- The rest of a string after its opening quote, if its characters can be read, and the text after the
closing quote. -/
def readString? (text : List Char) : Option (Option String × List Char) :=
  (readUnits? text).map fun (units, rest) => ((joinPairs? units).map String.ofList, rest)

/-- The entries before the first one whose key is missing. -/
def namedEntries : List (Option String × Data) → List (String × Data)
  | (some key, data) :: rest => (key, data) :: namedEntries rest
  | _ => []

/-- A record of entries; from the first one on whose key is missing, it cannot be read. -/
def recordOf (entries : List (Option String × Data)) : Data :=
  let named := Data.record (namedEntries entries)
  if entries.all (·.1.isSome) then named else .unreadable named

/-- A word at the front of a text, and the rest. -/
def word? (word : String) (data : Data) (text : List Char) : Option (Data × List Char) :=
  (word.toList.isPrefixOf? text).map (data, ·)

/-- Data at the front of a text and the rest, or the start of it when the text breaks off. -/
abbrev Reading (α : Type) := Except α (α × List Char)

/-- What is read of a value that has no parts; there is no start of it. -/
def unparted (value : Option (Data × List Char)) : Reading Data :=
  match value with
  | some found => .ok found
  | none => .error .null

/-- A reading of data, made from a reading of its parts. -/
def Reading.map {α β : Type} (make : α → β) (start : α → β) : Reading α → Reading β
  | .ok (value, rest) => .ok (make value, rest)
  | .error value => .error (start value)

/-- The items of a list after its opening bracket or a comma; each takes a character at least. -/
def readItems (value : List Char → Reading Data) : (bound : Nat) → List Char → Reading (List Data)
  | 0, _ => .error []
  | bound + 1, text =>
    match value text with
    | .error start => .error [.unreadable start]
    | .ok (item, rest) =>
      match skip rest with
      | ']' :: rest => .ok ([item], rest)
      | ',' :: rest => (readItems value bound rest).map (item :: ·) (item :: ·)
      | _ => .error [item]

/-- The key of an entry, if its characters can be read, and the text after the colon. -/
def readKey? (text : List Char) : Option (Option String × List Char) := do
  match skip text with
  | '"' :: rest =>
    let (key, rest) ← readString? rest
    match skip rest with
    | ':' :: rest => return (key, rest)
    | _ => none
  | _ => none

/-- The entries of a record after its opening brace or a comma. -/
def readEntries (value : List Char → Reading Data) :
    (bound : Nat) → List Char → Reading (List (Option String × Data))
  | 0, _ => .error []
  | bound + 1, text =>
    match readKey? text with
    | none => .error []
    | some (key, rest) =>
      match value rest with
      | .error start => .error [(key, .unreadable start)]
      | .ok (data, rest) =>
        match skip rest with
        | '\x7d' :: rest => .ok ([(key, data)], rest)
        | ',' :: rest => (readEntries value bound rest).map ((key, data) :: ·) ((key, data) :: ·)
        | _ => .error [(key, data)]

/-- The value at the front of a text and the rest. Each list and record takes a character, so the length of
the text bounds how deep they nest. -/
def readValue : (bound : Nat) → List Char → Reading Data
  | 0, _ => .error .null
  | bound + 1, text =>
    match skip text with
    | 'n' :: rest => unparted (word? "null" .null ('n' :: rest))
    | 't' :: rest => unparted (word? "true" (.bool true) ('t' :: rest))
    | 'f' :: rest => unparted (word? "false" (.bool false) ('f' :: rest))
    | '"' :: rest =>
      unparted ((readString? rest).map fun (s, rest) => ((s.map Data.text).getD (.unreadable .null), rest))
    | '-' :: rest => unparted (readUnsigned? true rest)
    | '[' :: rest =>
      match skip rest with
      | ']' :: rest => .ok (.list [], rest)
      | inside => (readItems (readValue bound) inside.length inside).map .list .list
    | '\x7b' :: rest =>
      match skip rest with
      | '\x7d' :: rest => .ok (.record [], rest)
      | inside =>
        (readEntries (readValue bound) inside.length inside).map recordOf fun entries =>
          .record (namedEntries entries)
    | rest => unparted (readUnsigned? false rest)

/-- The data of a text that is JSON, or what stands before the place where it is not. Lists and records may
nest to any depth. -/
def scan (text : String) : Except Data Data :=
  match readValue (text.length + 1) text.toList with
  | .ok (data, rest) => if (skip rest).isEmpty then .ok data else .error data
  | .error start => .error start

/-- How deep lists and records may nest that are read. -/
def depthLimit : Nat := 127

/-- The data that a text stands for: all of it, or what stands before the place where the text is not JSON. -/
def parse (text : String) : Except Data Data :=
  match scan text with
  | .ok data => .ok (data.within depthLimit)
  | .error start => .error (start.within depthLimit)

/-- A hexadecimal digit of a number below sixteen. -/
def hexChar (n : Nat) : Char := (Nat.toDigits 16 n).headD '0'

def renderChar (c : Char) : List Char :=
  match c with
  | '"' => ['\\', '"']
  | '\\' => ['\\', '\\']
  | '\n' => ['\\', 'n']
  | '\r' => ['\\', 'r']
  | '\t' => ['\\', 't']
  | '\x08' => ['\\', 'b']
  | '\x0c' => ['\\', 'f']
  | c =>
    if c.toNat < 0x20 then ['\\', 'u', '0', '0', hexChar (c.toNat / 16), hexChar (c.toNat % 16)]
    else [c]

def renderString (s : String) : List Char := '"' :: s.toList.flatMap renderChar ++ ['"']

mutual

/-- The JSON text of data; what has no text of its own, such as a number that is not finite, becomes null. -/
def render : Data → List Char
  | .null | .unreadable _ => "null".toList
  | .bool true => "true".toList
  | .bool false => "false".toList
  | .int n => (toString n).toList
  | .num x => ((Decimal.data? x).getD "null").toList
  | .text s => renderString s
  | .list items => '[' :: Text.join "," (renderAll items) ++ [']']
  | .record entries => '\x7b' :: Text.join "," (renderEntries entries) ++ ['\x7d']

def renderAll : List Data → List (List Char)
  | [] => []
  | item :: rest => render item :: renderAll rest

def renderEntries : List (String × Data) → List (List Char)
  | [] => []
  | (key, value) :: rest => (renderString key ++ ':' :: render value) :: renderEntries rest

end

mutual

/-- The JSON text of data, with each item and entry on a line of its own, two blanks deeper than what it is in. -/
def renderIndented (margin : String) : Data → List Char
  | .list (item :: rest) =>
    let inner := margin ++ "  "
    '[' :: Text.join "," (renderItemLines inner (item :: rest)) ++ margin.toList ++ [']']
  | .record (entry :: rest) =>
    let inner := margin ++ "  "
    '\x7b' :: Text.join "," (renderEntryLines inner (entry :: rest)) ++ margin.toList ++ ['\x7d']
  | data => render data

def renderItemLines (margin : String) : List Data → List (List Char)
  | [] => []
  | item :: rest => (margin.toList ++ renderIndented margin item) :: renderItemLines margin rest

def renderEntryLines (margin : String) : List (String × Data) → List (List Char)
  | [] => []
  | (key, value) :: rest =>
    (margin.toList ++ renderString key ++ ": ".toList ++ renderIndented margin value) :: renderEntryLines margin rest

end

/-- The JSON text of a file. -/
def indentedText (data : Data) : String := String.ofList (renderIndented "\n" data)

/-- The JSON text of an answer, on one line; its zeros have no sign. -/
def text (data : Data) : String := String.ofList (render data.unsignedZeros)

end Deliberation.Json
