import Deliberation.Proofs.Data.JsonScalars
import Deliberation.Proofs.Text

/-!
Plain data comes back from its JSON text, provided that its numbers do. A value takes its own text and
leaves what follows it; blanks before it change nothing.
-/

namespace Deliberation.Json

open Data

/-- The JSON text of a number is read as the number. -/
def ReadsBack (x : Float) : Prop := parse (indentedText (.num x)) = .ok (.num x)

/-- A value starts with this text. -/
def Starts (text : List Char) : Prop := ∃ c ∈ text.head?, isSpace c = false ∧ c ≠ ']'

/-- A text is read as data wherever it stands. -/
structure Reads (text : List Char) (data : Data) : Prop where
  starts : Starts text
  read : ∀ {after : List Char} {bound : Nat}, Ends after → text.length < bound → readValue bound (text ++ after) = .ok (data, after)

def Blank (text : List Char) : Prop := ∀ c ∈ text, isSpace c

instance (text : List Char) : Decidable (Blank text) := decidable_of_iff (text.all isSpace) List.all_eq_true

theorem skip_append {blanks : List Char} (blank : Blank blanks) (text : List Char) : skip (blanks ++ text) = skip text := by
  rw [skip, List.dropWhile_append_of_pos blank, skip]

theorem skip_cons {c : Char} (solid : isSpace c = false) (text : List Char) : skip (c :: text) = c :: text := by
  simp [skip, solid]

theorem readValue_append {blanks : List Char} (blank : Blank blanks) (bound : Nat) (text : List Char) :
    readValue bound (blanks ++ text) = readValue bound text := by
  cases bound with
  | zero => rfl
  | succ bound => rw [readValue, readValue, skip_append blank]

/-! ### Scalars -/

theorem readValue_digit {c : Char} (digit : c.isDigit) (bound : Nat) (rest : List Char) :
    readValue (bound + 1) (c :: rest) = unparted (readUnsigned? false (c :: rest)) := by
  have solid : isSpace c = false := isSpace_of_isNumeral (by simp [isNumeral, Token.isNumeric, digit])
  rw [readValue, skip_cons solid]
  split
  case h_8 => rfl
  all_goals
    next same =>
    cases same
    exact absurd digit (by decide)

theorem Numeral.starts {text : List Char} (numeral : Numeral text) : Starts text := by
  obtain ⟨first, here, digit⟩ := numeral.digit
  refine ⟨first, here, isSpace_of_isNumeral (numeral.numeral first (List.mem_of_mem_head? here)), ?_⟩
  rintro rfl
  exact absurd digit (by decide)

theorem Numeral.readValue {text : List Char} (numeral : Numeral text) (bound : Nat) (after : List Char) :
    readValue (bound + 1) (text ++ after) = unparted (readUnsigned? false (text ++ after)) := by
  obtain ⟨first, here, digit⟩ := numeral.digit
  obtain ⟨rest, rfl⟩ := List.head?_eq_some_iff.1 here
  exact readValue_digit digit bound _

theorem reads_null : Reads (render .null) .null := by
  refine ⟨⟨'n', rfl, by decide⟩, fun {after bound} _ enough => ?_⟩
  obtain ⟨bound, rfl⟩ := Nat.exists_eq_add_one.2 (Nat.zero_lt_of_lt enough)
  rfl

theorem reads_bool (b : Bool) : Reads (render (.bool b)) (.bool b) := by
  have starts : Starts (render (.bool b)) := by
    cases b <;> exact ⟨_, rfl, by decide⟩
  refine ⟨starts, fun {after bound} _ enough => ?_⟩
  obtain ⟨bound, rfl⟩ := Nat.exists_eq_add_one.2 (Nat.zero_lt_of_lt enough)
  cases b <;> rfl

theorem reads_text (s : String) : Reads (render (.text s)) (.text s) := by
  refine ⟨⟨'"', rfl, by decide⟩, fun {after bound} _ enough => ?_⟩
  obtain ⟨bound, rfl⟩ := Nat.exists_eq_add_one.2 (Nat.zero_lt_of_lt enough)
  have read := readString?_render s after
  simp [render, renderString, readValue, skip, isSpace, read, unparted]

theorem reads_int {n : Int} (word : IsWord n) : Reads (render (.int n)) (.int n) := by
  obtain ⟨least, greatest⟩ := word
  have text : render (.int n) = n.repr.toList := rfl
  rw [text, Int.repr_eq_if]
  by_cases positive : 0 ≤ n
  · have fits : n.toNat ≤ greatestWord := by
      rw [greatestWord]
      omega
    have same : unbroken false n.toNat [] = .int n := by
      rw [unbroken]
      exact congrArg Data.int (Int.toNat_of_nonneg positive)
    have numeral := numeral_of_decimals (decimals_digitText n.toNat)
    rw [if_pos positive, Nat.toList_repr, ← same]
    refine ⟨numeral.starts, fun {after bound} ends enough => ?_⟩
    obtain ⟨bound, rfl⟩ := Nat.exists_eq_add_one.2 (Nat.zero_lt_of_lt enough)
    exact (numeral.readValue bound after).trans (congrArg unparted (readUnsigned?_digitText false fits ends))
  · have least_toInt : Int64.minValue.toInt = -2 ^ 63 := by decide
    have fits : (-n).toNat ≤ greatestWord := by
      have greatest : greatestWord = 2 ^ 64 - 1 := rfl
      omega
    have same : unbroken true (-n).toNat [] = .int n := by
      have exact_neg : -((-n).toNat : Int) = n := by omega
      rw [unbroken, exact_neg]
      exact if_pos (c := 0 < (-n).toNat ∧ Int64.minValue.toInt ≤ n) ⟨by omega, least⟩
    rw [if_neg positive, String.toList_append, Nat.toList_repr, ← same]
    refine ⟨⟨'-', rfl, by decide⟩, fun {after bound} ends enough => ?_⟩
    obtain ⟨bound, rfl⟩ := Nat.exists_eq_add_one.2 (Nat.zero_lt_of_lt enough)
    exact congrArg unparted (readUnsigned?_digitText true fits ends)

/-- A numeral that is read with only blanks behind it is read as the same number wherever it stands. -/
theorem readUnsigned?_append {negative : Bool} {text rest : List Char} {data : Data} (numeral : Numeral text)
    (read : readUnsigned? negative text = some (data, rest)) (ended : (skip rest).isEmpty) {after : List Char}
    (ends : Ends after) : readUnsigned? negative (text ++ after) = some (data, after) := by
  obtain ⟨suffix, stays⟩ := (local_readUnsigned? negative).left read
  cases rest with
  | nil => exact stays after ends
  | cons c rest =>
    have solid := isSpace_of_isNumeral (numeral.numeral c (suffix.subset (List.mem_cons_self ..)))
    rw [skip_cons solid] at ended
    cases ended

theorem unparted_eq_ok {value : Option (Data × List Char)} {data : Data} {rest : List Char}
    (read : unparted value = .ok (data, rest)) : value = some (data, rest) := by
  cases value with
  | none => cases read
  | some found =>
    cases read
    rfl

/-- A number that reads back by itself does so wherever it stands. -/
theorem reads_num {x : Float} (back : ReadsBack x) : Reads (render (.num x)) (.num x) := by
  rw [ReadsBack, parse] at back
  split at back
  case h_2 => cases back
  next data scanned =>
  have same : data = .num x := by
    have within : data.within depthLimit = .num x := Except.ok.inj back
    cases data with
    | list items => cases within
    | record entries => cases within
    | unreadable start => cases within
    | null | bool | int | num | text => exact within
  subst same
  rw [scan] at scanned
  split at scanned
  case h_2 => cases scanned
  next data rest read =>
  split at scanned
  case isFalse => cases scanned
  next ended =>
  cases scanned
  have text : (indentedText (.num x)).toList = ((Decimal.data? x).getD "null").toList := by
    simp [indentedText, renderIndented, render]
  rw [text] at read
  cases written : Decimal.data? x with
  | none =>
    rw [written] at read
    cases read
  | some s =>
    obtain ⟨sign, known, numerals, shape, numeral⟩ := data?_shape written
    rw [written, Option.getD_some, shape] at read
    rw [render, written, Option.getD_some, shape]
    simp only [List.mem_cons, List.not_mem_nil, or_false] at known
    rcases known with rfl | rfl
    · have alone := numeral.readValue (indentedText (.num x)).length []
      rw [List.append_nil] at alone
      have found := unparted_eq_ok (alone.symm.trans read)
      refine ⟨numeral.starts, fun {after bound} ends enough => ?_⟩
      obtain ⟨bound, rfl⟩ := Nat.exists_eq_add_one.2 (Nat.zero_lt_of_lt enough)
      refine (numeral.readValue bound after).trans ?_
      rw [readUnsigned?_append numeral found ended ends, unparted]
    · have found : readUnsigned? true numerals = _ := unparted_eq_ok read
      refine ⟨⟨'-', rfl, by decide⟩, fun {after bound} ends enough => ?_⟩
      obtain ⟨bound, rfl⟩ := Nat.exists_eq_add_one.2 (Nat.zero_lt_of_lt enough)
      exact congrArg unparted (readUnsigned?_append numeral found ended ends)

/-! ### Lists and records -/

/-- What stands behind the first of several parts: the others, each behind a comma. -/
def others {α : Type} (write : α → List Char) (rest : List α) : List Char := rest.flatMap fun part => ',' :: write part

theorem join_lines {α : Type} (write : α → List Char) (first : α) (rest : List α) :
    Text.join "," (write first :: rest.map write) = write first ++ others write rest := by
  rw [Text.join_cons, List.flatMap_map]
  rfl

theorem ends_of_blank {blanks : List Char} (blank : Blank blanks) {text : List Char} (ends : Ends text) : Ends (blanks ++ text) := by
  cases blanks with
  | nil => exact ends
  | cons space rest =>
    have here := blank space (List.mem_cons_self ..)
    simp only [isSpace, Bool.or_eq_true, beq_iff_eq] at here
    rcases here with ((rfl | rfl) | rfl) | rfl <;> exact ends_cons (by decide) (by decide)

/-- A text is read as data within a bound. -/
structure ReadsIn (bound : Nat) (text : List Char) (data : Data) : Prop where
  read : ∀ {after : List Char}, Ends after → readValue bound (text ++ after) = .ok (data, after)

theorem Reads.within {text : List Char} {data : Data} (reads : Reads text data) {bound : Nat} (shorter : text.length < bound) :
    ReadsIn bound text data := ⟨fun ends => reads.read ends shorter⟩

theorem ReadsIn.behind {bound : Nat} {text : List Char} {data : Data} (reads : ReadsIn bound text data) {blanks : List Char}
    (blank : Blank blanks) : ReadsIn bound (blanks ++ text) data := by
  refine ⟨fun ends => ?_⟩
  rw [List.append_assoc, readValue_append blank]
  exact reads.read ends

variable {bound : Nat} {margin : List Char}

theorem readItems_written (blank : Blank margin) (after : List Char) {write : Data → List Char} {rest : List Data} {steps : Nat}
    (enough : rest.length < steps) {text : List Char} {item : Data} (here : ReadsIn bound text item)
    (later : ∀ next ∈ rest, ReadsIn bound (write next) next) :
    readItems (readValue bound) steps (text ++ (others write rest ++ (margin ++ ']' :: after))) = .ok (item :: rest, after) := by
  obtain ⟨steps, rfl⟩ := Nat.exists_eq_add_one.2 (Nat.zero_lt_of_lt enough)
  induction rest generalizing text item steps with
  | nil =>
    have ends : Ends (margin ++ ']' :: after) := ends_of_blank blank (ends_cons (by decide) (by decide))
    rw [others, List.flatMap_nil, List.nil_append, readItems, here.read ends]
    simp only [skip_append blank]
    rfl
  | cons next rest ih =>
    obtain ⟨following, later⟩ := List.forall_mem_cons.1 later
    rw [List.length_cons] at enough
    obtain ⟨steps, rfl⟩ := Nat.exists_eq_add_one.2 (Nat.zero_lt_of_lt (Nat.lt_of_succ_lt_succ enough))
    have tail := ih following later steps (Nat.lt_of_succ_lt_succ enough)
    have parts : others write (next :: rest) ++ (margin ++ ']' :: after) =
        ',' :: (write next ++ (others write rest ++ (margin ++ ']' :: after))) := by
      simp [others]
    rw [parts, readItems, here.read (ends_cons (by decide) (by decide))]
    simp only [skip_cons (show isSpace ',' = false by decide), tail, Reading.map]

/-- The text of an entry: its key, and its value behind a colon. -/
structure ReadsEntry (bound : Nat) (text : List Char) (entry : String × Data) : Prop where
  shape : ∃ blanks value, text = blanks ++ (renderString entry.1 ++ ':' :: value) ∧ Blank blanks ∧ ReadsIn bound value entry.2

theorem readKey?_written {blanks : List Char} (blank : Blank blanks) (key : String) (text : List Char) :
    readKey? (blanks ++ (renderString key ++ ':' :: text)) = some (some key, text) := by
  have read := readString?_render key (':' :: text)
  have text_eq : renderString key ++ ':' :: text = '"' :: (key.toList.flatMap renderChar ++ '"' :: ':' :: text) := by
    simp [renderString]
  rw [readKey?, skip_append blank, text_eq, skip_cons (by decide)]
  simp [read, skip_cons (show isSpace ':' = false by decide)]

theorem readEntries_written (blank : Blank margin) (after : List Char) {write : String × Data → List Char} {rest : List (String × Data)} {steps : Nat}
    (enough : rest.length < steps) {text : List Char} {entry : String × Data} (here : ReadsEntry bound text entry)
    (later : ∀ next ∈ rest, ReadsEntry bound (write next) next) :
    readEntries (readValue bound) steps (text ++ (others write rest ++ (margin ++ '\x7d' :: after))) =
      .ok ((entry :: rest).map fun entry => (some entry.1, entry.2), after) := by
  obtain ⟨steps, rfl⟩ := Nat.exists_eq_add_one.2 (Nat.zero_lt_of_lt enough)
  induction rest generalizing text entry steps with
  | nil =>
    have ends : Ends (margin ++ '\x7d' :: after) := ends_of_blank blank (ends_cons (by decide) (by decide))
    obtain ⟨blanks, value, rfl, before, reads⟩ := here.shape
    rw [others, List.flatMap_nil, List.nil_append, readEntries, List.append_assoc, List.append_assoc, List.cons_append,
      readKey?_written before]
    simp only [reads.read ends, skip_append blank]
    rfl
  | cons next rest ih =>
    obtain ⟨following, later⟩ := List.forall_mem_cons.1 later
    rw [List.length_cons] at enough
    obtain ⟨steps, rfl⟩ := Nat.exists_eq_add_one.2 (Nat.zero_lt_of_lt (Nat.lt_of_succ_lt_succ enough))
    have tail := ih following later steps (Nat.lt_of_succ_lt_succ enough)
    have parts : others write (next :: rest) ++ (margin ++ '\x7d' :: after) =
        ',' :: (write next ++ (others write rest ++ (margin ++ '\x7d' :: after))) := by
      simp [others]
    obtain ⟨blanks, value, rfl, before, reads⟩ := here.shape
    rw [parts, readEntries, List.append_assoc, List.append_assoc, List.cons_append, readKey?_written before]
    simp only [reads.read (ends_cons (c := ',') (by decide) (by decide)), skip_cons (show isSpace ',' = false by decide), tail,
      Reading.map, List.map_cons]

theorem namedEntries_some (entries : List (String × Data)) :
    namedEntries (entries.map fun entry => (some entry.1, entry.2)) = entries := by
  induction entries with
  | nil => rfl
  | cons entry rest ih => rw [List.map_cons, namedEntries, ih]

theorem recordOf_some (entries : List (String × Data)) :
    recordOf (entries.map fun entry => (some entry.1, entry.2)) = .record entries := by
  simp [recordOf, namedEntries_some]

/-- An item on a line of its own. -/
def itemLine (margin : String) (item : Data) : List Char := margin.toList ++ renderIndented margin item

/-- An entry on a line of its own. -/
def entryLine (margin : String) (entry : String × Data) : List Char :=
  margin.toList ++ (renderString entry.1 ++ ':' :: ' ' :: renderIndented margin entry.2)

theorem renderItemLines_eq (margin : String) (items : List Data) : renderItemLines margin items = items.map (itemLine margin) := by
  induction items with
  | nil => rfl
  | cons item rest ih => rw [renderItemLines, ih, List.map_cons, itemLine]

theorem renderEntryLines_eq (margin : String) (entries : List (String × Data)) :
    renderEntryLines margin entries = entries.map (entryLine margin) := by
  induction entries with
  | nil => rfl
  | cons entry rest ih =>
    rw [renderEntryLines, ih, List.map_cons, entryLine]
    simp

theorem length_le_others {α : Type} (write : α → List Char) (rest : List α) : rest.length ≤ (others write rest).length := by
  induction rest with
  | nil => exact Nat.zero_le _
  | cons part rest ih =>
    simp only [others, List.flatMap_cons, List.length_append, List.length_cons] at ih ⊢
    omega

theorem length_le_of_mem {α : Type} (write : α → List Char) {rest : List α} {part : α} (member : part ∈ rest) :
    (write part).length ≤ (others write rest).length := by
  induction rest with
  | nil => cases member
  | cons first rest ih =>
    simp only [others, List.flatMap_cons, List.length_append, List.length_cons] at ih ⊢
    rcases List.mem_cons.1 member with rfl | later
    · omega
    · have shorter := ih later
      omega

theorem blank_deeper {margin : String} (blank : Blank margin.toList) : Blank (margin ++ "  ").toList := by
  rw [String.toList_append]
  exact List.forall_mem_append.2 ⟨blank, show Blank _ by decide⟩

theorem reads_list {margin : String} (blank : Blank margin.toList) {items : List Data}
    (each : ∀ item ∈ items, Reads (renderIndented (margin ++ "  ") item) item) :
    Reads (renderIndented margin (.list items)) (.list items) := by
  cases items with
  | nil =>
    refine ⟨⟨'[', rfl, by decide⟩, fun {after bound} _ enough => ?_⟩
    obtain ⟨bound, rfl⟩ := Nat.exists_eq_add_one.2 (Nat.zero_lt_of_lt enough)
    rfl
  | cons item rest =>
    obtain ⟨here, later⟩ := List.forall_mem_cons.1 each
    have deeper := blank_deeper blank
    have text : renderIndented margin (.list (item :: rest)) =
        '[' :: (itemLine (margin ++ "  ") item ++ (others (itemLine (margin ++ "  ")) rest ++ (margin.toList ++ [']']))) := by
      simp [renderIndented, renderItemLines_eq, join_lines]
    rw [text]
    refine ⟨⟨'[', rfl, by decide⟩, fun {after bound} _ enough => ?_⟩
    obtain ⟨bound, rfl⟩ := Nat.exists_eq_add_one.2 (Nat.zero_lt_of_lt enough)
    simp only [itemLine, List.length_cons, List.length_append] at enough
    have first : ReadsIn bound (renderIndented (margin ++ "  ") item) item := here.within (by omega)
    have following : ∀ next ∈ rest, ReadsIn bound (itemLine (margin ++ "  ") next) next := by
      intro next member
      have shorter := length_le_of_mem (itemLine (margin ++ "  ")) member
      simp only [itemLine, List.length_append] at shorter
      exact ((later next member).within (by omega)).behind deeper
    obtain ⟨c, starts, solid, notClosing⟩ := here.starts
    obtain ⟨tail, same⟩ := List.head?_eq_some_iff.1 starts
    have inside (text : List Char) : skip (itemLine (margin ++ "  ") item ++ text) = renderIndented (margin ++ "  ") item ++ text := by
      rw [itemLine, List.append_assoc, skip_append deeper, same, List.cons_append, skip_cons solid]
    have count : rest.length < (renderIndented (margin ++ "  ") item ++
        (others (itemLine (margin ++ "  ")) rest ++ (margin.toList ++ ']' :: after))).length := by
      have commas := length_le_others (itemLine (margin ++ "  ")) rest
      simp only [List.length_append, List.length_cons]
      omega
    have items := readItems_written blank after count first following
    simp only [List.cons_append, List.append_assoc, List.nil_append, readValue, skip_cons (show isSpace '[' = false by decide),
      inside]
    split
    · next closed =>
      rw [same] at closed
      cases closed
      exact (notClosing rfl).elim
    · rw [items]
      rfl

theorem reads_record {margin : String} (blank : Blank margin.toList) {entries : List (String × Data)}
    (each : ∀ entry ∈ entries, Reads (renderIndented (margin ++ "  ") entry.2) entry.2) :
    Reads (renderIndented margin (.record entries)) (.record entries) := by
  cases entries with
  | nil =>
    refine ⟨⟨'\x7b', rfl, by decide⟩, fun {after bound} _ enough => ?_⟩
    obtain ⟨bound, rfl⟩ := Nat.exists_eq_add_one.2 (Nat.zero_lt_of_lt enough)
    rfl
  | cons entry rest =>
    obtain ⟨here, later⟩ := List.forall_mem_cons.1 each
    have deeper := blank_deeper blank
    have text : renderIndented margin (.record (entry :: rest)) =
        '\x7b' :: (entryLine (margin ++ "  ") entry ++ (others (entryLine (margin ++ "  ")) rest ++ (margin.toList ++ ['\x7d']))) := by
      simp [renderIndented, renderEntryLines_eq, join_lines]
    rw [text]
    refine ⟨⟨'\x7b', rfl, by decide⟩, fun {after bound} _ enough => ?_⟩
    obtain ⟨bound, rfl⟩ := Nat.exists_eq_add_one.2 (Nat.zero_lt_of_lt enough)
    simp only [entryLine, List.length_cons, List.length_append] at enough
    have space : Blank [' '] := by decide
    have first : ReadsEntry bound (renderString entry.1 ++ ':' :: ' ' :: renderIndented (margin ++ "  ") entry.2) entry :=
      ⟨[], _, rfl, by decide, (here.within (by omega)).behind space⟩
    have following : ∀ next ∈ rest, ReadsEntry bound (entryLine (margin ++ "  ") next) next := by
      intro next member
      have shorter := length_le_of_mem (entryLine (margin ++ "  ")) member
      simp only [entryLine, List.length_append, List.length_cons] at shorter
      exact ⟨_, _, rfl, deeper, ((later next member).within (by omega)).behind space⟩
    have inside (text : List Char) : skip (entryLine (margin ++ "  ") entry ++ text) =
        renderString entry.1 ++ ':' :: ' ' :: renderIndented (margin ++ "  ") entry.2 ++ text := by
      rw [entryLine, List.append_assoc, skip_append deeper]
      rfl
    have count : rest.length < (renderString entry.1 ++ ':' :: ' ' :: renderIndented (margin ++ "  ") entry.2 ++
        (others (entryLine (margin ++ "  ")) rest ++ (margin.toList ++ '\x7d' :: after))).length := by
      have commas := length_le_others (entryLine (margin ++ "  ")) rest
      simp only [List.length_append, List.length_cons]
      omega
    have entries := readEntries_written blank after count first following
    have made : Reading.map recordOf (fun entries => Data.record (namedEntries entries))
        (.ok ((entry :: rest).map fun entry => (some entry.1, entry.2), after)) = .ok (.record (entry :: rest), after) := by
      rw [Reading.map, recordOf_some]
    rw [← made, ← entries]
    simp only [List.cons_append, List.append_assoc, List.nil_append, readValue, skip_cons (show isSpace '\x7b' = false by decide),
      inside]
    rfl

/-- Plain data is read from its text, if its numbers are. -/
theorem reads_renderIndented {limit : Nat} {data : Data} (plain : Plain IsWord limit data)
    (numbers : ∀ x ∈ data.numbers, ReadsBack x) {margin : String} (blank : Blank margin.toList) :
    Reads (renderIndented margin data) data := by
  induction plain generalizing margin with
  | null => exact reads_null
  | bool b => exact reads_bool b
  | int word => exact reads_int word
  | num x => exact reads_num (numbers x (by simp [Data.numbers]))
  | text s => exact reads_text s
  | list _ ih =>
    rw [Data.numbers, numbersAll_eq] at numbers
    exact reads_list blank fun item member =>
      ih item member (fun x here => numbers x (List.mem_flatMap.2 ⟨item, member, here⟩)) (blank_deeper blank)
  | record _ ih =>
    rw [Data.numbers, numbersEntries_eq] at numbers
    exact reads_record blank fun entry member =>
      ih entry member (fun x here => numbers x (List.mem_flatMap.2 ⟨entry, member, here⟩)) (blank_deeper blank)

/-- What is read of the text of plain data is the data, if its numbers are read back. -/
theorem parse_indentedText {data : Data} (plain : Plain IsWord depthLimit data) (numbers : ∀ x ∈ data.numbers, ReadsBack x) :
    parse (indentedText data) = .ok data := by
  have blank : Blank "\n".toList := by decide
  have reads := reads_renderIndented plain numbers blank
  have read : readValue ((renderIndented "\n" data).length + 1) (renderIndented "\n" data ++ []) = .ok (data, []) :=
    reads.read ends_nil (Nat.lt_succ_self _)
  rw [List.append_nil] at read
  have scanned : scan (indentedText data) = .ok data := by
    rw [scan, indentedText, String.toList_ofList, ← String.length_toList, String.toList_ofList, read]
    rfl
  rw [parse, scanned]
  exact congrArg Except.ok plain.within

end Deliberation.Json
