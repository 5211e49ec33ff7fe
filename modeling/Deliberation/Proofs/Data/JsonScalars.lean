import Deliberation.Data.Json
import Deliberation.Proofs.Data.Plain
import Deliberation.Proofs.Lists
import Deliberation.Proofs.Number.Decimals

/-!
The JSON text of what has no parts. Strings and integers of 64 bits are read as they were written; a
number is read from its text the same way wherever it stands.
-/

namespace Deliberation.Json

open Data

/-! ### Strings -/

theorem unit?_hexChar : ∀ n < 0x20, unit? ['0', '0', hexChar (n / 16), hexChar (n % 16)] = some n := by decide

theorem readUnits?_renderChar (c : Char) {text after : List Char} {units : List (Nat ⊕ Char)}
    (read : readUnits? text = some (units, after)) : readUnits? (renderChar c ++ text) = some (.inr c :: units, after) := by
  rw [renderChar.eq_def]
  split
  case h_8 _ notQuote notSlash _ _ _ _ _ =>
    split
    · next control =>
      have unit := unit?_hexChar c.toNat control
      have char : ofUnit c.toNat = .inr c := by
        rw [ofUnit, if_neg (by omega), Char.ofNat_toNat]
      simp [readUnits?, unit, char, read]
    · next printed =>
      rw [List.singleton_append, readUnits?.eq_def]
      split
      · next same => cases same
      · next same => exact absurd (List.cons.inj same).1 notQuote
      · next same => exact absurd (List.cons.inj same).1 notSlash
      · next same => exact absurd (List.cons.inj same).1 notSlash
      · next same =>
        cases same
        simp [printed, read]
  all_goals simp [readUnits?, escaped?, read]

theorem readUnits?_render (chars : List Char) (after : List Char) :
    readUnits? (chars.flatMap renderChar ++ '"' :: after) = some (chars.map .inr, after) := by
  induction chars with
  | nil => simp [readUnits?]
  | cons c rest ih =>
    rw [List.flatMap_cons, List.append_assoc]
    exact readUnits?_renderChar c ih

theorem joinPairs?_inr (chars : List Char) : joinPairs? (chars.map .inr) = some chars := by
  induction chars with
  | nil => rfl
  | cons c rest ih => simp [joinPairs?, ih]

/-- A string is read as it was written. -/
theorem readString?_render (s : String) (after : List Char) :
    readString? (s.toList.flatMap renderChar ++ '"' :: after) = some (some s, after) := by
  rw [readString?, readUnits?_render]
  simp [joinPairs?_inr]

/-! ### Integers -/

/-- No number goes on with this text. -/
def Ends (text : List Char) : Prop := ∀ c ∈ text.head?, c.isDigit = false ∧ c ≠ '.' ∧ c ≠ 'e' ∧ c ≠ 'E'

theorem ends_nil : Ends [] := by simp [Ends]

theorem ends_cons {c : Char} {text : List Char} (digit : c.isDigit = false) (apart : c ∉ ['.', 'e', 'E']) :
    Ends (c :: text) := by
  rintro _ ⟨rfl⟩
  simp only [List.mem_cons, List.not_mem_nil, or_false, not_or] at apart
  exact ⟨digit, apart⟩

theorem leadingDigits_eq (digits : List Char) (n : Nat)
    (fits : digits.foldl (fun n c => 10 * n + (c.toNat - '0'.toNat)) n ≤ greatestWord) :
    leadingDigits n digits = (digits.foldl (fun n c => 10 * n + (c.toNat - '0'.toNat)) n, []) := by
  have grows (digits : List Char) (n : Nat) : n ≤ digits.foldl (fun n c => 10 * n + (c.toNat - '0'.toNat)) n := by
    induction digits generalizing n with
    | nil => exact Nat.le_refl n
    | cons digit rest ih =>
      have here : n ≤ 10 * n + (digit.toNat - '0'.toNat) := by omega
      exact Nat.le_trans here (ih _)
  induction digits generalizing n with
  | nil => rfl
  | cons digit rest ih =>
    rw [List.foldl_cons] at fits ⊢
    rw [leadingDigits, if_pos (Nat.le_trans (grows rest _) fits), ih _ fits]

theorem leadingDigits_digitText {n : Nat} (fits : n ≤ greatestWord) : leadingDigits 0 (Decimal.digitText n) = (n, []) := by
  have value : (Decimal.digitText n).foldl (fun n c => 10 * n + (c.toNat - '0'.toNat)) 0 = n := Decimal.digitValue_digitText n
  rw [leadingDigits_eq _ _ (Nat.le_trans (Nat.le_of_eq value) fits), value]

/-- Only zero has digits that start with a zero. -/
theorem head?_digitText (n : Nat) (positive : 0 < n) : (Decimal.digitText n).head? ≠ some '0' := by
  rw [Decimal.digitText]
  induction n using Nat.strongRecOn with
  | ind n ih =>
    by_cases small : n < 10
    · have digits : ∀ n < 10, 0 < n → Nat.digitChar n ≠ '0' := by decide
      rw [Nat.toDigits_of_lt_base small]
      simpa using digits n small positive
    · rw [Nat.toDigits_of_base_le (by decide) (Nat.not_lt.1 small), List.head?_append_of_ne_nil _ Nat.toDigits_ne_nil]
      exact ih (n / 10) (by omega) (by omega)

theorem digits?_digits {digits after : List Char} (all : ∀ c ∈ digits, c.isDigit) (some : digits ≠ []) (ends : Ends after) :
    digits? (digits ++ after) = .some (digits, after) := by
  have stops : ∀ c ∈ after.head?, c.isDigit = false := fun c here => (ends c here).1
  rw [digits?, Lists.takeWhile_append_closed all stops, Lists.dropWhile_append_closed all stops]
  cases digits with
  | nil => exact (some rfl).elim
  | cons => rfl

theorem whole?_digitText (n : Nat) {after : List Char} (ends : Ends after) :
    whole? (Decimal.digitText n ++ after) = some (Decimal.digitText n, after) := by
  rw [whole?, digits?_digits (fun _ => Decimal.isDigit_of_mem_digitText) (Decimal.digitText_ne_nil n) ends]
  split
  · next second rest _ same =>
    obtain ⟨text, rfl⟩ := Prod.mk.inj (Option.some.inj same)
    by_cases positive : 0 < n
    · exact absurd (by rw [text]; rfl) (head?_digitText n positive)
    · obtain rfl : n = 0 := by omega
      cases text
  · rfl

/-- The number of a whole part that neither a point nor an exponent follows. -/
def unbroken (negative : Bool) (n : Nat) (dropped : List Char) : Data :=
  if !dropped.isEmpty then double negative n dropped.length
  else if !negative then .int n
  else if 0 < n ∧ Int64.minValue.toInt ≤ -n then .int (-n)
  else double true n 0

/-- The number of a whole part with a fraction and an exponent. -/
def broken (negative : Bool) (n : Nat) (dropped fraction : List Char) (exponent : Int) : Data :=
  let (n, ignored) := leadingDigits n fraction
  let used := fraction.length - ignored.length
  double negative n (dropped.length - used + exponent)

/-- What is read behind the whole part of a number. -/
def goOn? (negative : Bool) (n : Nat) (dropped rest : List Char) : Option (Data × List Char) :=
  match rest with
  | '.' :: rest => (digits? rest).bind fun (fraction, rest) =>
    (exponent? rest).map fun (exponent, rest) => (broken negative n dropped fraction exponent, rest)
  | 'e' :: tail => (exponent? ('e' :: tail)).map fun (exponent, rest) => (double negative n (dropped.length + exponent), rest)
  | 'E' :: tail => (exponent? ('E' :: tail)).map fun (exponent, rest) => (double negative n (dropped.length + exponent), rest)
  | rest => some (unbroken negative n dropped, rest)

theorem readUnsigned?_eq (negative : Bool) (text : List Char) : readUnsigned? negative text =
    (whole? text).bind fun (whole, rest) => goOn? negative (leadingDigits 0 whole).1 (leadingDigits 0 whole).2 rest := by
  rw [readUnsigned?]
  refine congrArg (Option.bind (whole? text)) (funext fun (whole, rest) => ?_)
  simp only
  unfold goOn?
  split
  · simp only [Option.bind_eq_bind, Option.map_eq_bind]
    rfl
  · simp only [Option.map_eq_bind]
    rfl
  · simp only [Option.map_eq_bind]
    rfl
  · simp only [unbroken]
    split_ifs <;> rfl

theorem goOn?_unbroken {negative : Bool} {n : Nat} {dropped rest : List Char} (stops : ∀ c ∈ rest.head?, c ∉ ['.', 'e', 'E']) :
    goOn? negative n dropped rest = some (unbroken negative n dropped, rest) := by
  rw [goOn?.eq_def]
  split
  · exact absurd (by decide) (stops _ rfl)
  · exact absurd (by decide) (stops _ rfl)
  · exact absurd (by decide) (stops _ rfl)
  · rfl

/-- The digits of an integer are read as it. -/
theorem readUnsigned?_digitText (negative : Bool) {n : Nat} (fits : n ≤ greatestWord) {after : List Char} (ends : Ends after) :
    readUnsigned? negative (Decimal.digitText n ++ after) = some (unbroken negative n [], after) := by
  simp only [readUnsigned?_eq, whole?_digitText n ends, Option.bind_some, leadingDigits_digitText fits]
  exact goOn?_unbroken fun c here => by simpa using (ends c here).2

/-! ### Numbers -/

/-- What is read of a text, and what is left of it, stay the same when the text goes on where a number ends. -/
structure Local {α : Type} (read : List Char → Option (α × List Char)) : Prop where
  left : ∀ {text rest : List Char} {a : α}, read text = some (a, rest) →
    rest <:+ text ∧ ∀ after, Ends after → read (text ++ after) = some (a, rest ++ after)

theorem local_digits? : Local digits? := by
  refine ⟨fun {text rest digits} read => ?_⟩
  rw [digits?] at read
  split at read
  · cases read
  · next found =>
    cases read
    refine ⟨List.dropWhile_suffix _, fun after ends => ?_⟩
    obtain ⟨taken, dropped⟩ := Lists.span_append (p := Char.isDigit) (fun c here => (ends c here).1) text
    rw [digits?, taken, dropped]
    split
    · next none => exact (found none).elim
    · rfl

theorem Local.map {α β : Type} {read : List Char → Option (α × List Char)} (known : Local read) (make : α → β) :
    Local fun text => (read text).map fun (a, rest) => (make a, rest) := by
  refine ⟨fun {text rest b} done => ?_⟩
  obtain ⟨⟨a, rest⟩, found, same⟩ := Option.map_eq_some_iff.1 done
  cases same
  obtain ⟨suffix, stays⟩ := known.left found
  exact ⟨suffix, fun after ends => by simp [stays after ends]⟩

theorem Local.bind {α β : Type} {read : List Char → Option (α × List Char)} {next : α → List Char → Option (β × List Char)}
    (known : Local read) (goes : ∀ a, Local (next a)) : Local fun text => (read text).bind fun (a, rest) => next a rest := by
  refine ⟨fun {text rest b} done => ?_⟩
  obtain ⟨⟨a, between⟩, first, second⟩ := Option.bind_eq_some_iff.1 done
  obtain ⟨suffix, stays⟩ := known.left first
  obtain ⟨further, goes_on⟩ := (goes a).left second
  exact ⟨further.trans suffix, fun after ends => by rw [stays after ends]; exact goes_on after ends⟩

/-- The exponent of digits behind a sign. -/
def power (negative : Bool) (digits : List Char) : Int :=
  if negative then -(Decimal.digitValue digits : Int) else Decimal.digitValue digits

/-- Behind the letter of an exponent there may be a sign before its digits. -/
theorem exponent?_letter {letter : Char} (known : letter ∈ ['e', 'E']) (c : Char) (tail : List Char) :
    ∃ negative digits, digits <:+ c :: tail ∧ ∀ after, exponent? (letter :: c :: tail ++ after) =
      (digits? (digits ++ after)).map fun (digits, rest) => (power negative digits, rest) := by
  simp only [List.mem_cons, List.not_mem_nil, or_false] at known
  by_cases plus : c = '+'
  · subst plus
    exact ⟨false, tail, List.suffix_cons .., fun after => by rcases known with rfl | rfl <;> rfl⟩
  · by_cases minus : c = '-'
    · subst minus
      exact ⟨true, tail, List.suffix_cons .., fun after => by rcases known with rfl | rfl <;> rfl⟩
    · exact ⟨false, c :: tail, List.suffix_rfl, fun after => by
        rcases known with rfl | rfl <;> simp [exponent?, power, plus, minus]⟩

theorem exponent?_absent {text : List Char} (absent : ∀ c ∈ text.head?, c ∉ ['e', 'E']) : exponent? text = some (0, text) := by
  rw [exponent?.eq_def]
  split
  · exact absurd (by decide) (absent _ rfl)
  · exact absurd (by decide) (absent _ rfl)
  · rfl

theorem local_exponent? : Local exponent? := by
  refine ⟨fun {text rest found} read => ?_⟩
  cases text with
  | nil =>
    cases read
    refine ⟨List.suffix_rfl, fun after ends => exponent?_absent fun c here => ?_⟩
    simpa using (ends c here).2.2
  | cons letter tail =>
    by_cases known : letter ∈ ['e', 'E']
    · cases tail with
      | nil =>
        simp only [List.mem_cons, List.not_mem_nil, or_false] at known
        rcases known with rfl | rfl <;> cases read
      | cons c tail =>
        obtain ⟨negative, digits, suffix, same⟩ := exponent?_letter known c tail
        have unchanged := same []
        rw [List.append_nil, List.append_nil] at unchanged
        rw [unchanged] at read
        obtain ⟨left, stays⟩ := (local_digits?.map (power negative)).left read
        refine ⟨left.trans (suffix.trans (List.suffix_cons ..)), fun after ends => ?_⟩
        rw [same]
        exact stays after ends
    · have absent (after : List Char) : exponent? (letter :: tail ++ after) = some (0, letter :: tail ++ after) :=
        exponent?_absent (by simpa using known)
      have unchanged := absent []
      rw [List.append_nil, read] at unchanged
      cases unchanged
      exact ⟨List.suffix_rfl, fun after _ => absent after⟩

theorem local_whole? : Local whole? := by
  refine ⟨fun {text rest whole} read => ?_⟩
  rw [whole?] at read
  split at read
  · cases read
  · next plain =>
    obtain ⟨suffix, stays⟩ := local_digits?.left read
    refine ⟨suffix, fun after ends => ?_⟩
    rw [whole?, stays after ends]
    split
    · next same =>
      cases same
      exact (plain _ _ _ read).elim
    · rfl

theorem local_goOn? (negative : Bool) (n : Nat) (dropped : List Char) : Local (goOn? negative n dropped) := by
  refine ⟨fun {text rest data} read => ?_⟩
  by_cases goes : ∃ c tail, text = c :: tail ∧ c ∈ ['.', 'e', 'E']
  · obtain ⟨c, tail, rfl, known⟩ := goes
    simp only [List.mem_cons, List.not_mem_nil, or_false] at known
    rcases known with rfl | rfl | rfl
    · obtain ⟨suffix, stays⟩ :=
        (local_digits?.bind fun fraction => local_exponent?.map (broken negative n dropped fraction)).left read
      exact ⟨suffix.trans (List.suffix_cons ..), stays⟩
    · exact (local_exponent?.map fun exponent => double negative n (dropped.length + exponent)).left read
    · exact (local_exponent?.map fun exponent => double negative n (dropped.length + exponent)).left read
  · have stops (after : List Char) (ends : Ends after) : ∀ c ∈ (text ++ after).head?, c ∉ ['.', 'e', 'E'] := by
      intro c here
      cases text with
      | nil => simpa using (ends c here).2
      | cons first tail =>
        obtain rfl : first = c := Option.some.inj here
        exact fun known => goes ⟨first, tail, rfl, known⟩
    have whole := stops [] ends_nil
    rw [List.append_nil] at whole
    rw [goOn?_unbroken whole] at read
    cases read
    exact ⟨List.suffix_rfl, fun after ends => goOn?_unbroken (stops after ends)⟩
/-- The number at the front of a text is read the same way wherever it stands. -/
theorem local_readUnsigned? (negative : Bool) : Local (readUnsigned? negative) := by
  have parts := local_whole?.bind fun whole => local_goOn? negative (leadingDigits 0 whole).1 (leadingDigits 0 whole).2
  refine ⟨fun {text rest data} read => ?_⟩
  rw [readUnsigned?_eq] at read
  obtain ⟨suffix, stays⟩ := parts.left read
  exact ⟨suffix, fun after ends => (readUnsigned?_eq negative _).trans (stays after ends)⟩

/-- The characters of numbers. -/
def isNumeral (c : Char) : Bool := Token.isNumeric c || c ∈ ['e', '+', '-']

theorem isSpace_of_isNumeral {c : Char} (numeral : isNumeral c) : isSpace c = false := by
  rw [← Bool.not_eq_true]
  intro space
  simp only [isSpace, Bool.or_eq_true, beq_iff_eq] at space
  rcases space with ((rfl | rfl) | rfl) | rfl <;> revert numeral <;> decide

/-- A digit, and what a number may go on with. -/
structure Numeral (text : List Char) : Prop where
  digit : ∃ first ∈ text.head?, first.isDigit
  numeral : ∀ c ∈ text, isNumeral c

theorem numeral_of_decimals {text : List Char} (decimals : Decimals text) : Numeral text :=
  ⟨decimals.digit, fun c member => by simp [isNumeral, decimals.numeric c member]⟩

theorem numeral_scientific (digits : Nat) (power : Int) : Numeral (Decimal.scientific digits power) := by
  have exponent (negative : Prop) [Decidable negative] (n : Nat) :
      ∀ c ∈ 'e' :: (if negative then '-' else '+') :: Decimal.digitText n, isNumeral c := by
    refine List.forall_mem_cons.2 ⟨by decide, List.forall_mem_cons.2 ⟨by split <;> decide, ?_⟩⟩
    exact (numeral_of_decimals (decimals_digitText n)).numeral
  obtain ⟨digit, numeral⟩ := numeral_of_decimals (decimals_digitText digits)
  simp only [Decimal.scientific]
  generalize Decimal.digitText digits = text at digit numeral ⊢
  obtain ⟨first, here, digit⟩ := digit
  obtain ⟨rest, rfl⟩ := List.head?_eq_some_iff.1 here
  cases rest with
  | nil => exact ⟨⟨first, rfl, digit⟩, List.forall_mem_append.2 ⟨numeral, exponent _ _⟩⟩
  | cons second rest =>
    refine ⟨⟨first, rfl, digit⟩, List.forall_mem_append.2 ⟨?_, exponent _ _⟩⟩
    obtain ⟨start, others⟩ := List.forall_mem_cons.1 numeral
    exact List.forall_mem_cons.2 ⟨start, List.forall_mem_cons.2 ⟨by decide, others⟩⟩

theorem signed_shape {shape : List Char → Prop} {text : List Char} (negative : Bool) (known : shape text) :
    ∃ sign ∈ [[], ['-']], ∃ digits, (if negative then '-' :: text else text) = sign ++ digits ∧ shape digits := by
  cases negative with
  | false => exact ⟨[], by decide, text, rfl, known⟩
  | true => exact ⟨['-'], by decide, text, rfl, known⟩

/-- The text of a number is a numeral, behind a sign if it has one. -/
theorem data?_shape {x : Float} {s : String} (written : Decimal.data? x = some s) :
    ∃ sign ∈ [[], ['-']], ∃ text, s.toList = sign ++ text ∧ Numeral text := by
  rw [Decimal.data?] at written
  split at written
  · next negative significand exponent _ =>
    cases written
    rw [String.toList_ofList]
    refine signed_shape negative ?_
    split
    · exact ⟨⟨'0', rfl, by decide⟩, List.all_eq_true.1 (by decide)⟩
    · simp only
      split
      · exact numeral_of_decimals (decimals_positional (List.all_eq_true.1 (by decide)) _ _)
      · exact numeral_scientific _ _
  · cases written

end Deliberation.Json
