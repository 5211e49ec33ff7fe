/-!
Cutting text: at a separator, at the first place where one of several marks stands, and the letter
case of ASCII.
-/

namespace Deliberation.Text

/-- The pieces between the occurrences of a separator; there is always at least one. -/
def splitOn (separator : Char) : List Char → List (List Char)
  | [] => [[]]
  | c :: rest =>
    if c = separator then [] :: splitOn separator rest
    else
      match splitOn separator rest with
      | [] => [[c]]
      | piece :: pieces => (c :: piece) :: pieces

/-- Pieces joined by a separator. -/
def join (separator : String) (pieces : List (List Char)) : List Char :=
  separator.toList.intercalate pieces

/-- Texts joined by a separator. -/
def joinWith (separator : String) (texts : List String) : String :=
  String.ofList (join separator (texts.map String.toList))

def upper (c : Char) : Char := c.toUpper

/-- Whether a text is a word, whatever the case of its ASCII letters. -/
def isWord (word : String) (text : List Char) : Bool := text.map upper == word.toList.map upper

/-- Whether a text starts with a mark, with ASCII letters of either case taken for equal. -/
def startsWith : (mark text : List Char) → Bool
  | [], _ => true
  | _ :: _, [] => false
  | m :: mark, c :: text => upper m == upper c && startsWith mark text

/-- The text before and after the first place where a mark stands, with ASCII letters of either case taken for
equal. -/
def cutAt? (mark : List Char) : List Char → Option (List Char × List Char)
  | [] => none
  | c :: rest =>
    if startsWith mark (c :: rest) then some ([], (c :: rest).drop mark.length)
    else (cutAt? mark rest).map fun cut => (c :: cut.1, cut.2)

/-- The cut at the mark that stands first in the text; of two marks at one place the one named first cuts. -/
def cutAtFirst? (marks : List String) (text : List Char) : Option (List Char × List Char) :=
  marks.foldl (fun best mark =>
    match best, cutAt? mark.toList text with
    | some kept, some cut => if cut.1.length < kept.1.length then some cut else some kept
    | none, cut => cut
    | kept, none => kept) none

/-- How many bytes a text takes in UTF-8. -/
def byteLength : List Char → Nat
  | [] => 0
  | c :: rest => c.utf8Size + byteLength rest

/-- The part of a text that fills exactly its first `bytes` bytes, with the rest; nothing when that place is
inside a character or beyond the end. -/
def splitAtByte? (bytes : Nat) : List Char → Option (List Char × List Char)
  | [] => if bytes = 0 then some ([], []) else none
  | c :: rest =>
    if bytes = 0 then some ([], c :: rest)
    else if bytes < c.utf8Size then none
    else (splitAtByte? (bytes - c.utf8Size) rest).map fun cut => (c :: cut.1, cut.2)

end Deliberation.Text
