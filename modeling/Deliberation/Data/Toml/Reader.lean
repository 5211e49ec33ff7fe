import Deliberation.Data.Json
import Deliberation.Data.Toml.Table

/-!
Reading TOML text: comments, headers of tables and of lists of tables, dotted keys, and values. Dates
and times are not read.
-/

namespace Deliberation.Toml

def isBlank (c : Char) : Bool := c == ' ' || c == '\t'

def skip (text : List Char) : List Char := text.dropWhile isBlank

/-- Whether a character may stand in a comment or, unescaped, in a string. -/
def isPlain (c : Char) : Bool := c == '\t' || (0x20 ≤ c.toNat && c.toNat ≠ 0x7f)

/-- The text after the end of a line, if one stands at the front. -/
def newline? : List Char → Option (List Char)
  | '\n' :: rest => some rest
  | '\r' :: '\n' :: rest => some rest
  | _ => none

/-- The text without the comment at its front, if there is one. -/
def skipComment (text : List Char) : List Char :=
  match text with
  | '#' :: rest => rest.dropWhile isPlain
  | text => text

/-- The text after blanks, a comment and the end of the line or of the text. -/
def lineEnd? (text : List Char) : Option (List Char) :=
  match skipComment (skip text) with
  | [] => some []
  | rest => newline? rest

/-- The text without the blanks and ends of lines at its front. -/
def skipEmpty : (bound : Nat) → List Char → List Char
  | 0, text => text
  | bound + 1, text =>
    match newline? (skip text) with
    | some rest => skipEmpty bound rest
    | none => skip text

/-- The text without the blanks, comments and ends of lines at its front. -/
def skipLines : (bound : Nat) → List Char → List Char
  | 0, text => text
  | bound + 1, text =>
    let rest := skipComment (skip text)
    match newline? rest with
    | some next => skipLines bound next
    | none => rest

/-! ## Strings -/

/-- The character of a number given in hexadecimal digits. -/
def codePoint? (digits : List Char) : Option Char := do
  let n ← Json.unit? digits
  if n < 0xd800 ∨ (0xdfff < n ∧ n ≤ 0x10ffff) then some (Char.ofNat n) else none

/-- The character that an escape stands for, and the text after it. -/
def escape? : List Char → Option (Char × List Char)
  | 'u' :: a :: b :: c :: d :: rest => (codePoint? [a, b, c, d]).map (·, rest)
  | 'U' :: a :: b :: c :: d :: e :: f :: g :: h :: rest => (codePoint? [a, b, c, d, e, f, g, h]).map (·, rest)
  | '/' :: _ => none
  | c :: rest => (Json.escaped? c).map (·, rest)
  | [] => none

/-- The rest of a string in double quotes. -/
def readBasic? : (bound : Nat) → List Char → Option (List Char × List Char)
  | 0, _ => none
  | _ + 1, '"' :: rest => some ([], rest)
  | bound + 1, '\\' :: rest => do
    let (c, rest) ← escape? rest
    let (cs, rest) ← readBasic? bound rest
    return (c :: cs, rest)
  | bound + 1, c :: rest =>
    if isPlain c then (readBasic? bound rest).map fun (cs, rest) => (c :: cs, rest) else none
  | _ + 1, [] => none

/-- The rest of a string in single quotes, in which nothing is escaped. -/
def readLiteral? : List Char → Option (List Char × List Char)
  | [] => none
  | '\'' :: rest => some ([], rest)
  | c :: rest => if isPlain c then (readLiteral? rest).map fun (cs, rest) => (c :: cs, rest) else none

/-- The closing of a string of several lines: three quotes, with up to two more before them that belong to the
string. -/
def closing? (quote : Char) (text : List Char) : Option (List Char × List Char) :=
  let quotes := text.takeWhile (· == quote)
  if 3 ≤ quotes.length then
    let inside := Nat.min (quotes.length - 3) 2
    some (quotes.take inside, text.drop (inside + 3))
  else none

/-- The text after blanks and at least one end of line, which a backslash joins to what is before. -/
def joined? (text : List Char) : Option (List Char) :=
  (newline? (skip text)).map fun rest => skipEmpty rest.length rest

/-- The rest of a string of several lines; only in double quotes a backslash escapes. -/
def readLines? (quote : Char) : (bound : Nat) → List Char → Option (List Char × List Char)
  | 0, _ => none
  | bound + 1, text =>
    match closing? quote text with
    | some found => some found
    | none =>
      match newline? text with
      | some rest => (readLines? quote bound rest).map fun (cs, rest) => ('\n' :: cs, rest)
      | none =>
        match text with
        | [] => none
        | c :: rest =>
          if c = '\\' ∧ quote = '"' then
            match joined? rest with
            | some rest => readLines? quote bound rest
            | none => do
              let (c, rest) ← escape? rest
              let (cs, rest) ← readLines? quote bound rest
              return (c :: cs, rest)
          else if isPlain c then (readLines? quote bound rest).map fun (cs, rest) => (c :: cs, rest)
          else none

/-- The string at the front of a text; where several lines are allowed, three quotes open one of them, and the
end of line after those does not count. -/
def readString? (several : Bool) (text : List Char) : Option (List Char × List Char) :=
  match text with
  | '"' :: rest =>
    match several, rest with
    | true, '"' :: '"' :: rest => readLines? '"' (rest.length + 1) ((newline? rest).getD rest)
    | _, _ => readBasic? (rest.length + 1) rest
  | '\'' :: rest =>
    match several, rest with
    | true, '\'' :: '\'' :: rest => readLines? '\'' (rest.length + 1) ((newline? rest).getD rest)
    | _, _ => readLiteral? rest
  | _ => none

/-! ## Numbers -/

/-- The digits at the front of a text, with single underscores between them left out, and the rest. -/
def digitRun? (isDigit : Char → Bool) : List Char → Option (List Char × List Char)
  | [] => none
  | [c] => if isDigit c then some ([c], []) else none
  | c :: '_' :: rest =>
    if isDigit c then (digitRun? isDigit rest).map fun (digits, rest) => (c :: digits, rest) else none
  | c :: next :: rest =>
    if isDigit c then
      if isDigit next then (digitRun? isDigit (next :: rest)).map fun (digits, rest) => (c :: digits, rest)
      else some ([c], next :: rest)
    else none

def digit? (base : Nat) (c : Char) : Option Nat := (Json.hexDigit? c).filter (· < base)

def inBase? (base : Nat) (text : List Char) : Option (Data × List Char) := do
  let (digits, rest) ← digitRun? (fun c => (digit? base c).isSome) text
  let n := digits.foldl (fun n c => base * n + (digit? base c).getD 0) 0
  if (n : Int) ≤ Int64.maxValue.toInt then some (.int n, rest) else none

/-- The exponent at the front of a text, zero when there is none; whether there is one, and the rest. -/
def exponent? (text : List Char) : Option (Int × Bool × List Char) :=
  match text with
  | 'e' :: rest | 'E' :: rest =>
    let (negative, rest) := match rest with
      | '+' :: rest => (false, rest)
      | '-' :: rest => (true, rest)
      | rest => (false, rest)
    (digitRun? Char.isDigit rest).map fun (digits, rest) =>
      let n : Int := Decimal.digitValue digits
      (if negative then -n else n, true, rest)
  | _ => some (0, false, text)

/-- The digits after a point at the front of a text, none when there is no point. -/
def fraction? (text : List Char) : Option (List Char × List Char) :=
  match text with
  | '.' :: rest => digitRun? Char.isDigit rest
  | _ => some ([], text)

/-- The double nearest to a decimal, unless it is greater than all of them. -/
def double? (negative : Bool) (whole fraction : List Char) (power : Int) : Option Data :=
  let x := Decimal.nearest whole fraction power
  if x.isInf && !negative then none else some (.num (if negative then -x else x))

/-- The decimal integer or the number at the front of a text without its sign. -/
def readDecimal? (negative : Bool) (text : List Char) : Option (Data × List Char) := do
  let (whole, rest) ← digitRun? Char.isDigit text
  if 1 < whole.length ∧ whole.head? = some '0' then none
  let (fraction, rest) ← fraction? rest
  let (power, raised, rest) ← exponent? rest
  if fraction.isEmpty && !raised then
    let n : Int := Decimal.digitValue whole
    let n := if negative then -n else n
    if Int64.minValue.toInt ≤ n ∧ n ≤ Int64.maxValue.toInt then return (.int n, rest) else none
  else return (← double? negative whole fraction power, rest)

/-- A number after its sign. -/
def readSigned? (negative : Bool) (text : List Char) : Option (Data × List Char) :=
  match text with
  | 'i' :: 'n' :: 'f' :: rest => some (.num (if negative then -1.0 / 0.0 else 1.0 / 0.0), rest)
  | 'n' :: 'a' :: 'n' :: rest => some (.num (0.0 / 0.0), rest)
  | text => readDecimal? negative text

def readNumber? (text : List Char) : Option (Data × List Char) :=
  match text with
  | '+' :: rest => readSigned? false rest
  | '-' :: rest => readSigned? true rest
  | '0' :: 'x' :: rest => inBase? 16 rest
  | '0' :: 'o' :: rest => inBase? 8 rest
  | '0' :: 'b' :: rest => inBase? 2 rest
  | text => readSigned? false text

/-! ## Keys and values -/

/-- Whether a character may stand in a key without quotes. -/
def isKeyChar (c : Char) : Bool := c.isAlphanum || c == '_' || c == '-'

def readKey? (text : List Char) : Option (String × List Char) :=
  match text with
  | '"' :: _ | '\'' :: _ => (readString? false text).map fun (key, rest) => (String.ofList key, rest)
  | text =>
    match text.takeWhile isKeyChar with
    | [] => none
    | key => some (String.ofList key, text.dropWhile isKeyChar)

/-- How deep lists and inline tables may nest, and how many keys a path may have. -/
def depthLimit : Nat := 79

/-- The keys at the front of a text with points between them, and the text after blanks. -/
def readPath? : (bound : Nat) → List Char → Option (List String × List Char)
  | 0, _ => none
  | bound + 1, text => do
    let (key, rest) ← readKey? (skip text)
    match skip rest with
    | '.' :: rest =>
      let (keys, rest) ← readPath? bound rest
      return (key :: keys, rest)
    | rest => return ([key], rest)

def readPair? (value? : List Char → Option (Data × List Char)) (text : List Char) :
    Option (List String × Data × List Char) := do
  let (path, rest) ← readPath? depthLimit text
  match rest with
  | '=' :: rest =>
    let (data, rest) ← value? (skip rest)
    return (path, data, rest)
  | _ => none

/-- The items of a list after its opening bracket or a comma, and the rest; a comma may stand behind the last. -/
def readItems? (value? : List Char → Option (Data × List Char)) :
    (bound : Nat) → List Char → Option (List Data × List Char)
  | 0, _ => none
  | bound + 1, text =>
    match skipLines text.length text with
    | ']' :: rest => some ([], rest)
    | text => do
      let (item, rest) ← value? text
      match skipLines rest.length rest with
      | ']' :: rest => return ([item], rest)
      | ',' :: rest =>
        let (items, rest) ← readItems? value? bound rest
        return (item :: items, rest)
      | _ => none

/-- The pairs of an inline table after its opening brace or a comma, put into those before them. -/
def readPairs? (value? : List Char → Option (Data × List Char)) :
    (bound : Nat) → List Char → Entries → Option (Entries × List Char)
  | 0, _, _ => none
  | bound + 1, text, entries => do
    let (path, data, rest) ← readPair? value? text
    let entries ← entries.insertAt path data
    match skip rest with
    | '\x7d' :: rest => return (entries, rest)
    | ',' :: rest => readPairs? value? bound rest entries
    | _ => none

/-- The value at the front of a text, in which lists and inline tables nest to a depth at most. -/
def readValue? : (depth : Nat) → List Char → Option (Data × List Char)
  | depth, text =>
    match text with
    | '"' :: _ | '\'' :: _ => (readString? true text).map fun (cs, rest) => (.text (String.ofList cs), rest)
    | 't' :: rest => Json.word? "true" (.bool true) ('t' :: rest)
    | 'f' :: rest => Json.word? "false" (.bool false) ('f' :: rest)
    | '[' :: rest =>
      match depth with
      | 0 => none
      | depth + 1 =>
        (readItems? (readValue? depth) (rest.length + 1) rest).map fun (items, rest) => (.list items, rest)
    | '\x7b' :: rest =>
      match depth with
      | 0 => none
      | depth + 1 =>
        match skip rest with
        | '\x7d' :: rest => some (.record [], rest)
        | inside =>
          (readPairs? (readValue? depth) inside.length inside []).map fun (entries, rest) =>
            (.record (entriesData entries), rest)
    | text => readNumber? text

/-! ## Documents -/

/-- The tables so far, and the header under which pairs belong. -/
structure Progress where
  root : Entries
  header : List String

/-- A header after its opening bracket: the keys of its table, and the text after its closing. -/
def readHeader? (close text : List Char) : Option (List String × List Char) := do
  let (path, rest) ← readPath? depthLimit text
  return (path, ← close.isPrefixOf? rest)

/-- One line that is not blank: a header or a pair. -/
def readLine? (text : List Char) (progress : Progress) : Option (Progress × List Char) :=
  match text with
  | '[' :: '[' :: rest => do
    let (path, rest) ← readHeader? [']', ']'] rest
    return (⟨← progress.root.declareElement path, path⟩, rest)
  | '[' :: rest => do
    let (path, rest) ← readHeader? [']'] rest
    return (⟨← progress.root.declare path, path⟩, rest)
  | text => do
    let (path, data, rest) ← readPair? (readValue? depthLimit) text
    return ({ progress with root := ← progress.root.insertUnder progress.header path data }, rest)

/-- The tables of all lines. -/
def readDocument? : (bound : Nat) → List Char → Progress → Option Entries
  | 0, _, _ => none
  | bound + 1, text, progress =>
    match skipLines text.length text with
    | [] => some progress.root
    | text => do
      let (progress, rest) ← readLine? text progress
      readDocument? bound (← lineEnd? rest) progress

/-- The data that a text stands for, if it is TOML. -/
def parse? (text : String) : Option Data :=
  let text := match text.toList with
    | '\ufeff' :: rest => rest
    | text => text
  (readDocument? (text.length + 1) text ⟨[], []⟩).map fun entries => .record (entriesData entries)

end Deliberation.Toml
