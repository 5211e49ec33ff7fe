import Deliberation.Expr.Token
import Deliberation.Proofs.Lists
import Deliberation.Proofs.Number.Whole

/-!
What a text consists of. A text spells the kinds of the tokens that follow each other in it; reading it
gives tokens of these kinds. What a token covers depends on the text after it only through its first
character.
-/

namespace Deliberation.Token

/-- A text spells kinds of tokens, from the first to the last; between them there may be blanks. -/
inductive Spells : List Char → List Kind → Prop
  | done : Spells [] []
  | blank {first : Char} {rest : List Char} {kinds : List Kind} (space : isSpace first) (spells : Spells rest kinds) :
      Spells (first :: rest) kinds
  | token {first : Char} {rest covered after : List Char} {kind : Kind} {kinds : List Kind} (solid : isSpace first = false)
      (read : lexeme first rest = .ok (kind, covered, after)) (spells : Spells after kinds) :
      Spells (first :: rest) (kind :: kinds)

/-! ### Characters -/

theorem isDigit_iff {c : Char} : c.isDigit ↔ 48 ≤ c.toNat ∧ c.toNat ≤ 57 := by
  simp [Char.isDigit, UInt32.le_iff_toNat_le]

theorem startsName_iff {c : Char} : startsName c ↔
    (65 ≤ c.toNat ∧ c.toNat ≤ 90) ∨ (97 ≤ c.toNat ∧ c.toNat ≤ 122) ∨ c.toNat = 95 := by
  have upper : c.isUpper ↔ 65 ≤ c.toNat ∧ c.toNat ≤ 90 := decide_eq_true_iff
  have lower : c.isLower ↔ 97 ≤ c.toNat ∧ c.toNat ≤ 122 :=
    Bool.and_eq_true_iff.trans (and_congr decide_eq_true_iff decide_eq_true_iff)
  have line : c = '_' ↔ c.toNat = 95 := Char.toNat_inj.symm
  change ((c.isUpper || c.isLower) || c == '_') = true ↔ _
  simp only [Bool.or_eq_true, beq_iff_eq, upper, lower, line, or_assoc]

theorem isSpace_iff {c : Char} : isSpace c ↔ c.toNat ∈ [32, 9, 10, 12, 13] := by
  simp only [isSpace, List.mem_cons, List.not_mem_nil, or_false, decide_eq_true_eq, ← Char.toNat_inj]
  rfl

theorem continuesName_of_startsName {c : Char} (starts : startsName c) : continuesName c := by
  simp only [startsName, Bool.or_eq_true] at starts
  rcases starts with letter | line <;> simp_all [continuesName, Char.isAlphanum]

theorem continuesName_of_isNumeric {c : Char} (numeric : isNumeric c) : continuesName c := by
  simp only [isNumeric, Bool.or_eq_true] at numeric
  rcases numeric with digit | point <;> simp_all [continuesName, Char.isAlphanum]

/-! ### Reading -/

/-- What a token covers is the front of the text, and not nothing. -/
theorem append_of_lexeme {first : Char} {rest covered after : List Char} {kind : Kind}
    (read : lexeme first rest = .ok (kind, covered, after)) : covered ++ after = first :: rest ∧ covered ≠ [] := by
  rw [lexeme] at read
  split at read
  · next digit =>
    have numeric : isNumeric first := by simp [isNumeric, digit]
    cases number : readNumber ((first :: rest).takeWhile isNumeric) with
    | error fault => simp [number, bind, Except.bind] at read
    | ok found =>
      simp only [number, bind, Except.bind, pure, Except.pure, Except.ok.injEq, Prod.mk.injEq] at read
      obtain ⟨_, rfl, rfl⟩ := read
      exact ⟨List.takeWhile_append_dropWhile, by simp [List.takeWhile_cons_of_pos numeric]⟩
  · split at read
    · next starts =>
      have continues := continuesName_of_startsName starts
      simp only [Except.ok.injEq, Prod.mk.injEq] at read
      obtain ⟨_, rfl, rfl⟩ := read
      exact ⟨List.takeWhile_append_dropWhile, by simp [List.takeWhile_cons_of_pos continues]⟩
    · split at read
      · split at read
        · cases read
        · next close others dropped =>
          simp only [Except.ok.injEq, Prod.mk.injEq] at read
          obtain ⟨_, rfl, rfl⟩ := read
          refine ⟨?_, by simp⟩
          rw [List.cons_append, List.cons_append, List.append_assoc, List.singleton_append, ← dropped,
            List.takeWhile_append_dropWhile]
      · split at read
        · next op found =>
          have nonempty : ∀ op ∈ operators, op.toList ≠ [] := by decide
          simp only [Except.ok.injEq, Prod.mk.injEq] at read
          obtain ⟨_, rfl, rfl⟩ := read
          have fits := List.find?_some found
          obtain ⟨others, split⟩ := List.isPrefixOf_iff_prefix.1 fits
          refine ⟨?_, nonempty op (List.mem_of_find?_eq_some found)⟩
          rw [← split, ← String.length_toList, List.drop_left]
        · cases read

/-- A token covers a character at least. -/
theorem length_le_of_lexeme {first : Char} {rest covered after : List Char} {kind : Kind}
    (read : lexeme first rest = .ok (kind, covered, after)) : after.length ≤ rest.length := by
  obtain ⟨split, nonempty⟩ := append_of_lexeme read
  have sizes := congrArg List.length split
  have positive := List.length_pos_iff.2 nonempty
  rw [List.length_append, List.length_cons] at sizes
  omega

/-- How the tokens of a text that starts at a byte are found, or the first fault. -/
inductive Scans : Nat → List Char → Except (ExprFault × Nat) (List Token) → Prop
  | done {offset : Nat} : Scans offset [] (.ok [])
  | blank {offset : Nat} {first : Char} {rest : List Char} {outcome : Except (ExprFault × Nat) (List Token)}
      (space : isSpace first) (scans : Scans (offset + 1) rest outcome) : Scans offset (first :: rest) outcome
  | fault {offset : Nat} {first : Char} {rest : List Char} {fault : ExprFault} (solid : isSpace first = false)
      (read : lexeme first rest = .error fault) : Scans offset (first :: rest) (.error (fault, offset))
  | token {offset : Nat} {first : Char} {rest covered after : List Char} {kind : Kind}
      {outcome : Except (ExprFault × Nat) (List Token)} (solid : isSpace first = false)
      (read : lexeme first rest = .ok (kind, covered, after)) (scans : Scans (offset + Text.byteLength covered) after outcome) :
      Scans offset (first :: rest) (outcome.map (⟨kind, offset, offset + Text.byteLength covered⟩ :: ·))

theorem scans_scan {steps : Nat} {text : List Char} (enough : text.length ≤ steps) (offset : Nat) :
    Scans offset text (scan steps offset text) := by
  induction steps generalizing offset text with
  | zero =>
    obtain rfl := List.length_eq_zero_iff.1 (Nat.le_zero.1 enough)
    exact .done
  | succ steps ih =>
    cases text with
    | nil => exact .done
    | cons first rest =>
      rw [List.length_cons] at enough
      rw [scan]
      split
      · next space => exact .blank space (ih (by omega) _)
      · next solid =>
        have solid : isSpace first = false := by simpa using solid
        split
        · next fault read => exact .fault solid read
        · next kind covered after read =>
          have shorter := length_le_of_lexeme read
          simp only [bind_pure_comp]
          exact .token solid read (ih (by omega) _)

theorem scans_tokenize (text : List Char) : Scans 0 text (tokenize text) := scans_scan (Nat.le_refl _) 0

theorem Scans.spells {offset : Nat} {text : List Char} {outcome : Except (ExprFault × Nat) (List Token)}
    (scans : Scans offset text outcome) {tokens : List Token} (found : outcome = .ok tokens) :
    Spells text (tokens.map Token.kind) := by
  induction scans generalizing tokens with
  | done =>
    cases found
    exact .done
  | blank space _ ih => exact .blank space (ih found)
  | fault => cases found
  | token solid read _ ih =>
    obtain ⟨others, rfl, rfl⟩ := Lists.map_eq_ok found
    exact .token solid read (ih rfl)

theorem scan_of_spells {text : List Char} {kinds : List Kind} (spells : Spells text kinds) {steps : Nat}
    (enough : text.length ≤ steps) (offset : Nat) :
    ∃ tokens, scan steps offset text = .ok tokens ∧ tokens.map Token.kind = kinds := by
  induction spells generalizing steps offset with
  | done => exact ⟨[], by cases steps <;> rfl, rfl⟩
  | blank space _ ih =>
    obtain ⟨steps, rfl⟩ : ∃ n, steps = n + 1 := Nat.exists_eq_add_one.2 (Nat.lt_of_lt_of_le (Nat.succ_pos _) enough)
    obtain ⟨tokens, scanned, spelled⟩ := ih (Nat.le_of_succ_le_succ enough) (offset + 1)
    exact ⟨tokens, by rw [scan, if_pos space, scanned], spelled⟩
  | @token first rest covered after kind kinds solid read _ ih =>
    obtain ⟨steps, rfl⟩ : ∃ n, steps = n + 1 := Nat.exists_eq_add_one.2 (Nat.lt_of_lt_of_le (Nat.succ_pos _) enough)
    have shorter := Nat.le_trans (length_le_of_lexeme read) (Nat.le_of_succ_le_succ enough)
    obtain ⟨tokens, scanned, spelled⟩ := ih shorter (offset + Text.byteLength covered)
    refine ⟨⟨kind, offset, offset + Text.byteLength covered⟩ :: tokens, ?_, by simp [spelled]⟩
    simp [scan, solid, read, scanned, bind, Except.bind, pure, Except.pure]

theorem spells_of_tokenize {text : List Char} {tokens : List Token} (read : tokenize text = .ok tokens) :
    Spells text (tokens.map Token.kind) := (scans_tokenize text).spells read

theorem tokenize_of_spells {text : List Char} {kinds : List Kind} (spells : Spells text kinds) :
    ∃ tokens, tokenize text = .ok tokens ∧ tokens.map Token.kind = kinds := scan_of_spells spells (Nat.le_refl _) 0

/-- The characters of a name. -/
structure Identifier (name : List Char) : Prop where
  starts : ∃ first ∈ name.head?, startsName first
  continues : ∀ c ∈ name, continuesName c

instance (name : List Char) : Decidable (Identifier name) :=
  decidable_of_iff (name.head?.any startsName ∧ name.all continuesName) <| by
    rw [Option.any_eq_true, List.all_eq_true]
    exact ⟨fun known => ⟨known.1, known.2⟩, fun known => ⟨known.starts, known.continues⟩⟩

/-- Before this text a name or a number ends. -/
def Closed (text : List Char) : Prop := ∀ c ∈ text.head?, continuesName c = false

theorem closed_nil : Closed [] := by simp [Closed]

theorem closed_of {c : Char} {text : List Char} (stops : continuesName c = false) : Closed (c :: text) := by
  rintro _ ⟨rfl⟩
  exact stops

/-! ### Writing -/

variable {after : List Char} {kinds : List Kind}

theorem Spells.name {name : List Char} (identifier : Identifier name) (closed : Closed after) (spells : Spells after kinds) :
    Spells (name ++ after) (.name (String.ofList name) :: kinds) := by
  obtain ⟨first, here, starts⟩ := identifier.starts
  obtain ⟨rest, rfl⟩ := List.head?_eq_some_iff.1 here
  have code := startsName_iff.1 starts
  have solid : ¬ isSpace first := by
    rw [isSpace_iff]
    simp
    omega
  have letter : ¬ first.isDigit := by
    rw [isDigit_iff]
    omega
  rw [List.cons_append]
  refine @Spells.token _ _ (first :: rest) _ _ _ (by simpa using solid) ?_ spells
  rw [lexeme, if_neg letter, if_pos starts, ← List.cons_append, Lists.takeWhile_append_closed identifier.continues closed,
    Lists.dropWhile_append_closed identifier.continues closed]

theorem Spells.number {text : List Char} {kind : Kind} (digit : ∃ first ∈ text.head?, first.isDigit)
    (numeric : ∀ c ∈ text, isNumeric c) (read : readNumber text = .ok kind) (closed : Closed after)
    (spells : Spells after kinds) : Spells (text ++ after) (kind :: kinds) := by
  obtain ⟨first, here, digit⟩ := digit
  obtain ⟨rest, rfl⟩ := List.head?_eq_some_iff.1 here
  have solid : ¬ isSpace first := by
    have code := isDigit_iff.1 digit
    rw [isSpace_iff]
    simp
    omega
  have stops : ∀ c ∈ after.head?, isNumeric c = false := by
    intro c next
    rw [← Bool.not_eq_true]
    intro numeric
    have continues := continuesName_of_isNumeric numeric
    rw [closed c next] at continues
    cases continues
  rw [List.cons_append]
  refine @Spells.token _ _ (first :: rest) _ _ _ (by simpa using solid) ?_ spells
  rw [lexeme, if_pos digit, ← List.cons_append, Lists.takeWhile_append_closed numeric stops, Lists.dropWhile_append_closed numeric stops]
  simp only [read]
  rfl

theorem Spells.quoted {name : List Char} (plain : '"' ∉ name) (spells : Spells after kinds) :
    Spells ('"' :: name ++ '"' :: after) (.sym (String.ofList name) :: kinds) := by
  have inside : ∀ c ∈ name, (c != '"') = true := by
    intro c member
    rw [bne_iff_ne]
    rintro rfl
    exact plain member
  rw [List.cons_append]
  refine @Spells.token _ _ ('"' :: name ++ ['"']) _ _ _ (by decide) ?_ spells
  have opened : ¬ ('"' : Char).isDigit ∧ ¬ startsName '"' := by decide
  have taken : (name ++ '"' :: after).takeWhile (· ≠ '"') = name :=
    Lists.takeWhile_append_closed (by simpa using inside) (by simp)
  have dropped : (name ++ '"' :: after).dropWhile (· ≠ '"') = '"' :: after :=
    Lists.dropWhile_append_closed (by simpa using inside) (by simp)
  rw [lexeme, if_neg opened.1, if_neg opened.2, if_pos (.inl rfl), taken, dropped]

/-- A bracket or a comma is an operator wherever it stands. -/
theorem Spells.bracket (mark : Char) (single : mark ∈ ['(', ')', '\x7b', '\x7d', ',']) (spells : Spells after kinds) :
    Spells (mark :: after) (.op (String.singleton mark) :: kinds) := by
  simp only [List.mem_cons, List.not_mem_nil, or_false] at single
  rcases single with rfl | rfl | rfl | rfl | rfl <;> exact .token (by decide) rfl spells

/-- A sign between blanks. -/
theorem Spells.sign {sign : String} (known : sign ∈ ["+", "-", "*", "/", "==", "!=", "<", "<=", ">", ">=", "&&", "||", "->"])
    (spells : Spells after kinds) : Spells (' ' :: sign.toList ++ ' ' :: after) (.op sign :: kinds) := by
  have spells : Spells (' ' :: after) kinds := .blank (by decide) spells
  simp only [List.mem_cons, List.not_mem_nil, or_false] at known
  rcases known with rfl | rfl | rfl | rfl | rfl | rfl | rfl | rfl | rfl | rfl | rfl | rfl | rfl <;>
    exact .blank (by decide) (.token (by decide) rfl spells)

/-- No operator goes on with this text. -/
def Separate (text : List Char) : Prop := ∀ c ∈ text.head?, c ≠ '>' ∧ c ≠ '='

theorem Spells.minus (separate : Separate after) (spells : Spells after kinds) : Spells ('-' :: after) (.op "-" :: kinds) := by
  refine @Spells.token _ _ ['-'] _ _ _ (by decide) ?_ spells
  cases after with
  | nil => rfl
  | cons c rest =>
    obtain ⟨notArrow, _⟩ := separate c rfl
    simp [lexeme, operators, startsName, List.isPrefixOf, notArrow.symm]
    rfl

theorem Spells.exclamation (separate : Separate after) (spells : Spells after kinds) :
    Spells ('!' :: after) (.op "!" :: kinds) := by
  refine @Spells.token _ _ ['!'] _ _ _ (by decide) ?_ spells
  cases after with
  | nil => rfl
  | cons c rest =>
    obtain ⟨_, notEqual⟩ := separate c rfl
    simp [lexeme, operators, startsName, List.isPrefixOf, notEqual.symm]
    rfl

/-! ### What is spelled -/

/-- What a kind of token cannot but be: a name has the characters of one, and an integer has no sign. -/
def Kind.Sound : Kind → Prop
  | .name text => Identifier text.toList
  | .int n => 0 ≤ n.toInt
  | _ => True

theorem sound_of_readNumber {text : List Char} {kind : Kind} (read : readNumber text = .ok kind) : kind.Sound := by
  rw [readNumber] at read
  split at read
  · split at read
    · next n fits =>
      cases read
      rw [Kind.Sound, toInt_of_int64? fits]
      exact Int.natCast_nonneg _
    · cases read
  · cases read
    trivial
  · cases read

theorem sound_of_lexeme {first : Char} {rest covered after : List Char} {kind : Kind}
    (read : lexeme first rest = .ok (kind, covered, after)) : kind.Sound := by
  rw [lexeme] at read
  split at read
  · cases number : readNumber ((first :: rest).takeWhile isNumeric) with
    | error fault => simp [number, bind, Except.bind] at read
    | ok found =>
      simp only [number, bind, Except.bind, pure, Except.pure, Except.ok.injEq, Prod.mk.injEq] at read
      exact read.1 ▸ sound_of_readNumber number
  · split at read
    · next starts =>
      cases read
      have continues := continuesName_of_startsName starts
      rw [Kind.Sound, String.toList_ofList, List.takeWhile_cons_of_pos continues]
      refine ⟨⟨first, rfl, starts⟩, ?_⟩
      intro c member
      rcases List.mem_cons.1 member with rfl | member
      · exact continues
      · exact List.all_eq_true.1 List.all_takeWhile c member
    · split at read
      · split at read
        · cases read
        · cases read
          exact trivial
      · split at read
        · cases read
          exact trivial
        · cases read

theorem sound_of_spells {text : List Char} (spells : Spells text kinds) : ∀ kind ∈ kinds, kind.Sound := by
  induction spells with
  | done => simp
  | blank _ _ ih => exact ih
  | token _ read _ ih => exact List.forall_mem_cons.2 ⟨sound_of_lexeme read, ih⟩

end Deliberation.Token
