import Deliberation.Proofs.Expr.Lexing
import Deliberation.Proofs.Text.Bytes

/-!
Where tokens stand. A walk over the bytes of a text, which cuts parts out of it at the bytes that it has come
to, finds the tokens and never cuts inside a character. What the tokens do not cover is blank.
-/

namespace Deliberation.Token

open Text

/-! ### A walk over bytes -/

/-- How many bytes from a place on pass a test in a row. -/
def runLength (test : Char → Bool) (text : String) (place : Nat) : Nat :=
  (((bytes text).drop place).takeWhile fun byte => test (.ofUInt8 byte)).length

/-- The symbol that a mark at a place opens and the place after the mark that closes it. -/
def lookQuoted (text : String) (place : Nat) (mark : Char) : Option (Except ExprFault (Kind × Nat)) :=
  (slice? text (place + 1) (bytes text).length).bind fun rest =>
    if mark ∈ rest then
      let stop := place + 1 + byteLength (rest.takeWhile (· ≠ mark))
      (slice? text (place + 1) stop).map fun inner => .ok (.sym (String.ofList inner), stop + 1)
    else some (.error .unterminatedString)

/-- The kind of the token that starts with a byte and the place where it stops, or why there is none;
nothing where a part would be cut out of the text inside a character. -/
def look (text : String) (place : Nat) (byte : UInt8) : Option (Except ExprFault (Kind × Nat)) :=
  let first := Char.ofUInt8 byte
  if first.isDigit then
    let stop := place + runLength isNumeric text place
    (slice? text place stop).map fun covered => (readNumber covered).map (·, stop)
  else if startsName first then
    let stop := place + runLength continuesName text place
    (slice? text place stop).map fun covered => .ok (.name (String.ofList covered), stop)
  else if first = '"' ∨ first = '\'' then
    lookQuoted text place first
  else
    (slice? text place (bytes text).length).map fun rest =>
      match operators.find? (·.toList.isPrefixOf rest) with
      | some op => .ok (.op op, place + op.utf8ByteSize)
      | none => .error (.unexpectedCharacter (rest.headD '?'))

/-- The tokens from a place on, with a turn for each token and each blank byte, or the first fault and its
place; nothing where the turns do not suffice, or a part would be cut out of the text inside a character. -/
def walk (text : String) : (turns place : Nat) → Option (Except (ExprFault × Nat) (List Token))
  | 0, place => if place < (bytes text).length then none else some (.ok [])
  | turns + 1, place =>
    match (bytes text)[place]? with
    | none => some (.ok [])
    | some byte =>
      if isSpace (.ofUInt8 byte) then walk text turns (place + 1)
      else
        match look text place byte with
        | none => none
        | some (.error fault) => some (.error (fault, place))
        | some (.ok (kind, stop)) => (walk text turns stop).map (·.map (⟨kind, place, stop⟩ :: ·))

/-! ### Characters of one byte -/

theorem ascii_isSpace : Ascii isSpace := by
  intro c space
  have code := isSpace_iff.1 space
  simp only [List.mem_cons, List.not_mem_nil, or_false] at code
  omega

theorem ascii_isDigit : Ascii Char.isDigit := by
  intro c digit
  have code := isDigit_iff.1 digit
  omega

theorem ascii_startsName : Ascii startsName := by
  intro c starts
  have code := startsName_iff.1 starts
  omega

theorem ascii_isNumeric : Ascii isNumeric := by
  intro c numeric
  simp only [isNumeric, Bool.or_eq_true, beq_iff_eq] at numeric
  rcases numeric with digit | rfl
  · exact ascii_isDigit c digit
  · decide

theorem ascii_continuesName : Ascii continuesName := by
  intro c continues
  simp only [continuesName, Char.isAlphanum, Bool.or_eq_true, beq_iff_eq] at continues
  rcases continues with ((letter | digit) | rfl) | rfl
  · exact ascii_startsName c (by simp [startsName, letter])
  · exact ascii_isDigit c digit
  · decide
  · decide

theorem ascii_isQuote : Ascii fun c => decide (c = '"' ∨ c = '\'') := by
  intro c quote
  rcases of_decide_eq_true quote with rfl | rfl <;> decide

variable {text : String} {rest : List Char} {first : Char} {byte : UInt8} {place : Nat}
  {outcome : Except (ExprFault × Nat) (List Token)}

theorem runLength_eq {test : Char → Bool} (ascii : Ascii test) (remains : Remains text place rest) :
    runLength test text place = byteLength (rest.takeWhile test) := by
  rw [runLength, remains.drop_bytes, ascii.length_takeWhile]

theorem lookQuoted_eq (quote : first = '"' ∨ first = '\'') (remains : Remains text place (first :: rest)) :
    lookQuoted text place first = some ((lexeme first rest).map fun found => (found.1, place + byteLength found.2.1)) := by
  have low : first.toNat < 128 := ascii_isQuote first (decide_eq_true quote)
  have opens : ¬ first.isDigit ∧ ¬ startsName first := by rcases quote with rfl | rfl <;> decide
  have inside := remains.step low
  rw [lexeme, if_neg opens.1, if_neg opens.2, if_pos quote, lookQuoted, inside.slice?_to_end, Option.bind_some]
  rcases Lists.dropWhile_ne_cases first rest with ⟨absent, dropped⟩ | ⟨after, here, dropped⟩
  · rw [if_neg absent, dropped]
    rfl
  · have covered : byteLength (first :: rest.takeWhile (· ≠ first) ++ [first]) =
        1 + byteLength (rest.takeWhile (· ≠ first)) + 1 := by
      rw [byteLength_append, byteLength, byteLength, utf8Size_of_lt low, byteLength]
    simp only [if_pos here, dropped, inside.slice?_takeWhile, Option.map_some]
    simp only [Except.map, covered, Nat.add_assoc]

/-- What is looked up in the bytes is the token that the characters have there. -/
theorem look_eq (remains : Remains text place (first :: rest)) (member : byte ∈ String.utf8EncodeChar first) :
    look text place byte = some ((lexeme first rest).map fun found => (found.1, place + byteLength found.2.1)) := by
  have sameQuote := decide_eq_decide.1 (ascii_isQuote.test_ofUInt8 member)
  simp only [look, ascii_isDigit.test_ofUInt8 member, ascii_startsName.test_ofUInt8 member, sameQuote]
  split
  · next digit =>
    rw [lexeme, if_pos digit, runLength_eq ascii_isNumeric remains, remains.slice?_takeWhile, Option.map_some]
    cases number : readNumber ((first :: rest).takeWhile isNumeric) <;> simp only [number] <;> rfl
  · next noDigit =>
    split
    · next starts =>
      rw [lexeme, if_neg noDigit, if_pos starts, runLength_eq ascii_continuesName remains, remains.slice?_takeWhile]
      rfl
    · next noName =>
      split
      · next quote =>
        rw [ofUInt8_of_mem_utf8EncodeChar (ascii_isQuote first (decide_eq_true quote)) member]
        exact lookQuoted_eq quote remains
      · next noQuote =>
        rw [lexeme, if_neg noDigit, if_neg noName, if_neg noQuote, remains.slice?_to_end, Option.map_some]
        cases operators.find? (·.toList.isPrefixOf (first :: rest)) with
        | none => rfl
        | some op => simp only [Except.map, byteLength_toList]

theorem remains_of_lexeme {covered after : List Char} {kind : Kind} (read : lexeme first rest = .ok (kind, covered, after))
    (remains : Remains text place (first :: rest)) : Remains text (place + byteLength covered) after := by
  rw [← (append_of_lexeme read).1] at remains
  exact remains.advance

/-- The walk finds what the characters are scanned into, where it has a turn for each byte. -/
theorem Scans.walk_eq (scans : Scans place rest outcome) (remains : Remains text place rest) {turns : Nat}
    (enough : byteLength rest ≤ turns) : walk text turns place = some outcome := by
  -- a turn takes a byte at least, so what is left of the turns suffices for what is left of the bytes
  induction scans generalizing turns with
  | done =>
    have ends := remains.length_bytes
    rw [byteLength, Nat.add_zero] at ends
    cases turns with
    | zero => rw [walk, ends, if_neg (Nat.lt_irrefl _)]
    | succ turns => rw [walk, List.getElem?_eq_none (Nat.le_of_eq ends)]
  | @blank place first rest outcome space _ ih =>
    obtain ⟨byte, member, found⟩ := remains.exists_byte
    have low := ascii_isSpace first space
    rw [byteLength, utf8Size_of_lt low, Nat.add_comm] at enough
    obtain ⟨turns, rfl⟩ : ∃ n, turns = n + 1 := Nat.exists_eq_add_one.2 (Nat.lt_of_lt_of_le (Nat.succ_pos _) enough)
    rw [walk, found]
    simp only [ascii_isSpace.test_ofUInt8 member, space, if_true]
    exact ih (remains.step low) (Nat.le_of_succ_le_succ enough)
  | @fault place first rest fault solid read =>
    obtain ⟨byte, member, found⟩ := remains.exists_byte
    have positive := byteLength_pos (List.cons_ne_nil first rest)
    obtain ⟨turns, rfl⟩ : ∃ n, turns = n + 1 := Nat.exists_eq_add_one.2 (Nat.lt_of_lt_of_le positive enough)
    rw [walk, found]
    simp only [ascii_isSpace.test_ofUInt8 member, solid, look_eq remains member, read, Except.map]
    rfl
  | @token place first rest covered after kind outcome solid read _ ih =>
    obtain ⟨byte, member, found⟩ := remains.exists_byte
    obtain ⟨parts, nonempty⟩ := append_of_lexeme read
    have positive := byteLength_pos nonempty
    rw [← parts, byteLength_append] at enough
    obtain ⟨turns, rfl⟩ : ∃ n, turns = n + 1 := Nat.exists_eq_add_one.2 (by omega)
    have further : walk text turns (place + byteLength covered) = some outcome :=
      ih (remains_of_lexeme read remains) (by omega)
    rw [walk, found]
    simp only [ascii_isSpace.test_ofUInt8 member, solid, look_eq remains member, read, Except.map, further]
    rfl

theorem walk_eq_tokenize (text : String) : walk text (bytes text).length 0 = some (tokenize text.toList) := by
  have remains := remains_all text
  refine (scans_tokenize text.toList).walk_eq remains ?_
  rw [remains.length_bytes, Nat.zero_add]

/-! ### What is covered -/

/-- The tokens of a text from a place on: they follow each other, each covers whole characters, one at least,
and a byte that none of them covers is a space, a tab, a line feed, a form feed or a carriage return. -/
structure Covers (text : String) (start : Nat) (tokens : List Token) : Prop where
  after : ∀ token ∈ tokens, start ≤ token.start
  nonempty : ∀ token ∈ tokens, token.start < token.stop
  increasing : tokens.Pairwise fun token later => token.start < later.start ∧ token.stop < later.stop
  disjoint : tokens.Pairwise fun token later => token.stop ≤ later.start
  boundaries : ∀ token ∈ tokens, IsBoundary text token.start ∧ IsBoundary text token.stop
  blank : ∀ place byte, start ≤ place → (bytes text)[place]? = some byte →
    (∀ token ∈ tokens, ¬ (token.start ≤ place ∧ place < token.stop)) → byte.toNat ∈ [32, 9, 10, 12, 13]

variable {start stop : Nat} {tokens : List Token} {kind : Kind}

theorem covers_nil (ends : (bytes text).length ≤ start) : Covers text start [] where
  after := nofun
  nonempty := nofun
  increasing := .nil
  disjoint := .nil
  boundaries := nofun
  blank place byte later found := by
    rw [List.getElem?_eq_none (Nat.le_trans ends later)] at found
    cases found

theorem Covers.skip (covers : Covers text (start + 1) tokens) (found : (bytes text)[start]? = some byte)
    (space : isSpace (.ofUInt8 byte)) : Covers text start tokens where
  after token member := Nat.le_of_succ_le (covers.after token member)
  nonempty := covers.nonempty
  increasing := covers.increasing
  disjoint := covers.disjoint
  boundaries := covers.boundaries
  blank place other later here free := by
    rcases Nat.eq_or_lt_of_le later with rfl | later
    · rw [found] at here
      cases here
      exact isSpace_iff.1 space
    · exact covers.blank place other later here free

theorem Covers.cons (covers : Covers text stop tokens) (nonempty : start < stop) (opens : IsBoundary text start)
    (closes : IsBoundary text stop) : Covers text start (⟨kind, start, stop⟩ :: tokens) where
  after := List.forall_mem_cons.2 ⟨Nat.le_refl _, fun token member => Nat.le_trans nonempty.le (covers.after token member)⟩
  nonempty := List.forall_mem_cons.2 ⟨nonempty, covers.nonempty⟩
  increasing := by
    refine List.pairwise_cons.2 ⟨fun token member => ?_, covers.increasing⟩
    have later := covers.after token member
    exact ⟨Nat.lt_of_lt_of_le nonempty later, Nat.lt_of_le_of_lt later (covers.nonempty token member)⟩
  disjoint := List.pairwise_cons.2 ⟨covers.after, covers.disjoint⟩
  boundaries := List.forall_mem_cons.2 ⟨⟨opens, closes⟩, covers.boundaries⟩
  blank place byte later here free := by
    obtain ⟨outside, free⟩ := List.forall_mem_cons.1 free
    exact covers.blank place byte (Nat.not_lt.1 fun inside => outside ⟨later, inside⟩) here free

theorem Scans.covers (scans : Scans place rest outcome) (remains : Remains text place rest) (found : outcome = .ok tokens) :
    Covers text place tokens := by
  induction scans generalizing tokens with
  | done =>
    cases found
    exact covers_nil (Nat.le_of_eq remains.length_bytes)
  | @blank place first rest outcome space _ ih =>
    obtain ⟨byte, member, stands⟩ := remains.exists_byte
    refine (ih (remains.step (ascii_isSpace first space)) found).skip stands ?_
    rw [ascii_isSpace.test_ofUInt8 member, space]
  | fault => cases found
  | @token place first rest covered after kind outcome solid read _ ih =>
    obtain ⟨others, rfl, rfl⟩ := Lists.map_eq_ok found
    have further := remains_of_lexeme read remains
    have positive := byteLength_pos (append_of_lexeme read).2
    exact (ih further rfl).cons (Nat.lt_add_of_pos_right positive) remains.isBoundary further.isBoundary

theorem covers_of_tokenize (read : tokenize text.toList = .ok tokens) : Covers text 0 tokens :=
  (scans_tokenize text.toList).covers (remains_all text) read

theorem Scans.isBoundary_fault (scans : Scans place rest outcome) {fault : ExprFault} {offset : Nat}
    (remains : Remains text place rest) (failed : outcome = .error (fault, offset)) : IsBoundary text offset := by
  induction scans with
  | done => cases failed
  | blank space _ ih => exact ih (remains.step (ascii_isSpace _ space)) failed
  | fault =>
    cases failed
    exact remains.isBoundary
  | @token _ _ _ _ _ _ outcome _ read _ ih =>
    cases outcome with
    | ok => cases failed
    | error => exact ih (remains_of_lexeme read remains) failed

theorem isBoundary_of_tokenize {fault : ExprFault} {offset : Nat} (failed : tokenize text.toList = .error (fault, offset)) :
    IsBoundary text offset := (scans_tokenize text.toList).isBoundary_fault (remains_all text) failed

end Deliberation.Token
