/-!
Decimal text of doubles. The shortest decimal that reads back as a double is found in exact integer
arithmetic, and a style says how its digits are laid out.
-/

namespace Deliberation.Decimal

/-- A double taken apart: a finite one is its significand times a power of two. -/
inductive Parts where
  | undefined
  | infinite (negative : Bool)
  | finite (negative : Bool) (significand : Nat) (exponent : Int)
  deriving DecidableEq, Repr

/-- Two to the fifty-second: the least significand of a double that has all its digits. -/
def leastFull : Nat := 0x10000000000000

/-- The parts of a double, read off its 64 bits. -/
def parts (x : Float) : Parts :=
  let bits := x.toBits.toNat
  let negative := decide (0x8000000000000000 ≤ bits)
  let biased : Nat := bits / leastFull % 2048
  let fraction : Nat := bits % leastFull
  if biased = 2047 then if fraction = 0 then .infinite negative else .undefined
  else if biased = 0 then .finite negative fraction (-1074)
  else .finite negative (leastFull + fraction) (biased - 1075)

/-- A fraction `above / below` scaled by a power of two. -/
def scaleTwo (exponent : Int) (above : Nat) : Nat × Nat :=
  (above * Nat.pow 2 exponent.toNat, Nat.pow 2 (-exponent).toNat)

/-- The multiples of a power of ten next to a positive double, of which the nearest that reads back as the
double is taken; of two equally near ones `tieUp` takes the greater. -/
def onGrid? (tieUp : Bool) (significand : Nat) (exponent : Int) (power : Int) : Option Nat :=
  let value := 4 * significand
  let low := if significand = leastFull ∧ -1074 < exponent then value - 1 else value - 2
  let high := value + 2
  let (unit, below) := scaleTwo (exponent - 2) 1
  let below := below * Nat.pow 10 power.toNat
  let unit := unit * Nat.pow 10 (-power).toNat
  let inside (n : Nat) : Bool :=
    if significand % 2 = 0 then low * unit ≤ n * below && n * below ≤ high * unit
    else low * unit < n * below && n * below < high * unit
  let floor := value * unit / below
  let rest := value * unit - floor * below
  let nearUp := if tieUp then below ≤ 2 * rest else below < 2 * rest || (below == 2 * rest && floor % 2 == 1)
  match inside floor, inside (floor + 1) with
  | true, true => some (if nearUp then floor + 1 else floor)
  | true, false => some floor
  | false, true => some (floor + 1)
  | false, false => none

/-- The first of ever finer powers of ten with a multiple that reads back; seventeen digits always do. -/
def findGrid (tieUp : Bool) (significand : Nat) (exponent : Int) : (tries : Nat) → (power : Int) → Nat × Int
  | 0, power => (significand, power)
  | tries + 1, power =>
    match onGrid? tieUp significand exponent power with
    | some digits => (digits, power)
    | none => findGrid tieUp significand exponent tries (power - 1)

/-- The fewest digits, and their power of ten, that read back as a positive double. -/
def shortest (tieUp : Bool) (significand : Nat) (exponent : Int) : Nat × Int :=
  findGrid tieUp significand exponent 24 ((significand.log2 + exponent) * 30103 / 100000 + 3)

/-- The digits of a decimal as text. -/
def digitText (digits : Nat) : List Char := Nat.toDigits 10 digits

/-- A decimal without exponent; without a fraction the text ends in `whole`. -/
def positional (whole : String) (digits : Nat) (power : Int) : List Char :=
  let text := digitText digits
  if 0 ≤ power then text ++ List.replicate power.toNat '0' ++ whole.toList
  else
    let places := (-power).toNat
    if places < text.length then text.take (text.length - places) ++ '.' :: text.drop (text.length - places)
    else '0' :: '.' :: List.replicate (places - text.length) '0' ++ text

/-- A decimal with one digit before the point and an exponent. -/
def scientific (digits : Nat) (power : Int) : List Char :=
  let text := digitText digits
  let exponent := power + (text.length - 1 : Nat)
  let front := match text with
    | [] => []
    | [digit] => [digit]
    | digit :: rest => digit :: '.' :: rest
  front ++ 'e' :: (if exponent < 0 then '-' else '+') :: digitText exponent.natAbs

/-- The text of a double in messages and expressions: the shortest digits and never an exponent. -/
def plain (x : Float) : String :=
  match parts x with
  | .undefined => "NaN"
  | .infinite negative => if negative then "-inf" else "inf"
  | .finite negative significand exponent =>
    let text :=
      if significand = 0 then ['0']
      else
        let (digits, power) := shortest true significand exponent
        positional "" digits power
    String.ofList (if negative then '-' :: text else text)

/-- The text of a double in data: the shortest digits, always with a point or an exponent, positional from
1e-5 to below 1e16. There is no text for what is not finite. -/
def data? (x : Float) : Option String :=
  match parts x with
  | .finite negative significand exponent =>
    let text :=
      if significand = 0 then ['0', '.', '0']
      else
        let (digits, power) := shortest false significand exponent
        let magnitude := power + ((digitText digits).length - 1 : Nat)
        if -5 ≤ magnitude ∧ magnitude < 16 then positional ".0" digits power else scientific digits power
    some (String.ofList (if negative then '-' :: text else text))
  | _ => none

/-- The whole number that a double is, with its sign, if it is one. -/
def whole? (x : Float) : Option (Bool × Nat) :=
  match parts x with
  | .finite negative significand exponent =>
    let (above, below) := scaleTwo exponent significand
    if above % below = 0 then some (negative, above / below) else none
  | _ => none

/-- The text of a double as a literal of an expression: a whole number has all its digits and one place. -/
def literal (x : Float) : String :=
  match whole? x with
  | some (negative, n) => String.ofList ((if negative then ['-'] else []) ++ digitText n ++ ['.', '0'])
  | none => plain x

def digitValue (digits : List Char) : Nat := digits.foldl (fun n c => 10 * n + (c.toNat - '0'.toNat)) 0

/-- The double nearest to a decimal, given as the digits before and after its point and a power of ten. -/
def nearest (before after : List Char) (power : Int) : Float :=
  let power := power - after.length
  Float.ofScientific (digitValue (before ++ after)) (decide (power < 0)) power.natAbs

end Deliberation.Decimal
