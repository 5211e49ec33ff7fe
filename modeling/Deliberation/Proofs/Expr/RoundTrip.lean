import Deliberation.Proofs.Expr.Reading

/-!
Expressions come back from their text. What was read off a text is printed so that it reads as the same
expression, provided that its symbols have no quotes and that the decimals of its numbers read back.
-/

namespace Deliberation

open Token

namespace Expr

/-- What a text writes is read off the whole of it. -/
theorem parse_of_writes {e : Expr Float} {text : String} {kinds : List Kind} (writes : Writes text.toList kinds)
    (reads : Reads 1 kinds e) : parse text = .ok e := by
  have spells : Spells (text.toList ++ []) (kinds ++ []) := writes.spells closed_nil .done
  rw [List.append_nil, List.append_nil] at spells
  obtain ⟨tokens, tokenized, spelled⟩ := tokenize_of_spells spells
  have read : reader (tokens.length + 1) (tokens ++ []) = .ok (e, []) := reads.reader spelled (by simp) stops_nil
  rw [List.append_nil] at read
  exact parse_eq_ok_iff.2 ⟨tokens, tokenized, read⟩

/-- A legible expression that was read is read again from its text. -/
theorem parse_text_of_free {e : Expr Float} (free : Free e) (legible : e.Legible) : parse e.text = .ok e := by
  have writes := writes_render e free.printable legible
  rw [← String.toList_ofList (l := e.render)] at writes
  exact parse_of_writes writes <|
    (readable e free.printable legible).reads 1 (by decide) (by decide) (one_le_precedence e) fun _ => free.free

mutual

theorem values_ne_least : (e : Expr Float) → e.Printable → ∀ value ∈ e.values, value ≠ .int Int64.minValue
  | .const value, printable => by simpa [values, Printable] using printable
  | .var _, _ => by simp [values]
  | .neg operand, printable => values_ne_least operand printable.2.2
  | .not operand, printable => values_ne_least operand printable.2
  | .arith _ left right, printable =>
    List.forall_mem_append.2 ⟨values_ne_least left printable.1.2, values_ne_least right printable.2.2⟩
  | .compare _ left right, printable =>
    List.forall_mem_append.2 ⟨values_ne_least left printable.1.2, values_ne_least right printable.2.2⟩
  | .logic _ left right, printable =>
    List.forall_mem_append.2 ⟨values_ne_least left printable.1.2, values_ne_least right printable.2.2⟩
  | .member element _, printable => List.forall_mem_append.2 ⟨values_ne_least element printable.1.2, printable.2⟩
  | .call _ args, printable => valuesOf_ne_least args printable

theorem valuesOf_ne_least : (args : List (Expr Float)) → PrintableArgs args → ∀ value ∈ valuesOf args, value ≠ .int Int64.minValue
  | [], _ => by simp [valuesOf]
  | e :: rest, printable =>
    List.forall_mem_append.2 ⟨values_ne_least e printable.1.2, valuesOf_ne_least rest printable.2⟩

end

end Expr

/-! ### Numbers -/

/-- A number is printed as digits and points behind its sign, unless it is not finite. -/
theorem literal_shape (x : Float) : (∃ sign ∈ [[], ['-']], ∃ text, Decimals text ∧ (Decimal.literal x).toList = sign ++ text) ∨
    Decimal.literal x ∈ ["NaN", "inf", "-inf"] := by
  have signed (negative : Bool) : (if negative then ['-'] else []) ∈ [[], ['-']] := by cases negative <;> decide
  rw [Decimal.literal]
  split
  · next negative n _ =>
    have place : ∀ c ∈ ['.', '0'], isNumeric c := List.all_eq_true.1 (by decide)
    refine .inl ⟨_, signed negative, _, (decimals_digitText n).append place, ?_⟩
    rw [String.toList_ofList, List.append_assoc]
  · rw [Decimal.plain]
    split
    · exact .inr (by decide)
    · next negative _ => cases negative <;> exact .inr (by decide)
    · next negative significand exponent _ =>
      have decimals : Decimals (if significand = 0 then ['0']
          else Decimal.positional "" (Decimal.shortest true significand exponent).1
            (Decimal.shortest true significand exponent).2) := by
        split
        · exact ⟨⟨'0', rfl, by decide⟩, List.all_eq_true.1 (by decide)⟩
        · exact decimals_positional (by simp) _ _
      refine .inl ⟨_, signed negative, _, decimals, ?_⟩
      cases negative <;> simp

/-- The printed decimal of a number is read as the number. -/
def ReadsBack (x : Float) : Prop := Expr.parse (Decimal.literal x) = .ok (.const (.num x))

theorem lexeme_minus {text : List Char} (decimals : Decimals text) : lexeme '-' text = .ok (.op "-", ['-'], text) := by
  obtain ⟨first, here, digit⟩ := decimals.digit
  obtain ⟨rest, rfl⟩ := List.head?_eq_some_iff.1 here
  have notArrow : '>' ≠ first := by
    rintro rfl
    exact absurd digit (by decide)
  simp [lexeme, operators, startsName, List.isPrefixOf, notArrow]
  rfl

theorem Decimals.exists_kind {text : List Char} {kinds : List Kind} (decimals : Decimals text) (spells : Spells text kinds) :
    ∃ kind, readNumber text = .ok kind := by
  obtain ⟨first, here, digit⟩ := decimals.digit
  have numeric := decimals.numeric
  obtain ⟨rest, rfl⟩ := List.head?_eq_some_iff.1 here
  cases spells with
  | blank space =>
    have code := isDigit_iff.1 digit
    have blank := isSpace_iff.1 space
    simp only [List.mem_cons, List.not_mem_nil, or_false] at blank
    omega
  | token _ read _ =>
    have taken : (first :: rest ++ []).takeWhile isNumeric = first :: rest := Lists.takeWhile_append_closed numeric (by simp)
    rw [List.append_nil] at taken
    rw [lexeme, if_pos digit, taken] at read
    obtain ⟨kind, number, _⟩ := Lists.bind_eq_ok read
    exact ⟨kind, number⟩

/-- The digits of a text that is read are read as a number. -/
theorem exists_kind_of_spells {sign text : List Char} (known : sign ∈ [[], ['-']]) (decimals : Decimals text) {kinds : List Kind}
    (spells : Spells (sign ++ text) kinds) : ∃ kind, readNumber text = .ok kind := by
  simp only [List.mem_cons, List.not_mem_nil, or_false] at known
  rcases known with rfl | rfl
  · exact decimals.exists_kind spells
  · cases spells with
    | blank space => cases space
    | token _ read spells =>
      have same := (lexeme_minus decimals).symm.trans read
      cases same
      exact decimals.exists_kind spells

theorem exists_denoted {text : List Char} {kind : Kind} (read : readNumber text = .ok kind) : ∃ value, kind.Denotes value := by
  rw [readNumber] at read
  split at read
  · split at read
    · cases read
      exact ⟨_, .int _⟩
    · cases read
  · cases read
    exact ⟨_, .num _⟩
  · cases read

theorem parse_of_written {value : Value Float} {text : String} {kinds : List Kind} (written : Written value text.toList kinds) :
    Expr.parse text = .ok (.const value) := by
  have reads : Expr.Reads 8 kinds (.const value) := Expr.reads_written written
  exact Expr.parse_of_writes written.writes <|
    reads.mono (by decide) (by decide) (by decide) fun _ _ => Expr.unnegated_written written

/-- A number whose decimal reads back is legible. -/
theorem legible_num {x : Float} (readsBack : ReadsBack x) : (Value.num x).Legible := by
  rcases literal_shape x with ⟨sign, known, text, decimals, shape⟩ | odd
  · obtain ⟨tokens, tokenized, _⟩ := Expr.parse_eq_ok_iff.1 readsBack
    have spells := spells_of_tokenize tokenized
    rw [shape] at spells
    obtain ⟨kind, number⟩ := exists_kind_of_spells known decimals spells
    obtain ⟨value, denotes⟩ := exists_denoted number
    simp only [List.mem_cons, List.not_mem_nil, or_false] at known
    rcases known with rfl | rfl
    · have written : Written value (Decimal.literal x).toList [kind] :=
        shape ▸ Written.number decimals.digit decimals.numeric number denotes
      have same := (parse_of_written written).symm.trans readsBack
      cases same
      exact legible_number decimals.digit decimals.numeric number denotes shape
    · obtain ⟨turned, turns⟩ : ∃ turned, Expr.turnSign (.const value) = .const turned := by cases denotes <;> exact ⟨_, rfl⟩
      have written : Written turned (Decimal.literal x).toList [.op "-", kind] :=
        shape ▸ Written.negative decimals.digit decimals.numeric number denotes turns
      have same := (parse_of_written written).symm.trans readsBack
      cases same
      exact legible_negative decimals.digit decimals.numeric number denotes turns shape
  · rw [ReadsBack] at readsBack
    simp only [List.mem_cons, List.not_mem_nil, or_false] at odd
    rcases odd with same | same | same <;> rw [same] at readsBack <;> cases readsBack

namespace Expr

/-- An expression that can be read is legible if its numbers are finite and its symbols have no quotes. -/
theorem Free.legible {e : Expr Float} (free : Free e) (finite : ∀ x, .num x ∈ e.values → x.isFinite)
    (unquoted : ∀ name, .sym name ∈ e.values → '"' ∉ name.toList)
    (readsBack : ∀ x, .num x ∈ e.values → x.isFinite → ReadsBack x) : e.Legible := by
  intro value member
  cases value with
  | bool b => exact legible_bool b
  | int n => exact legible_int fun least => values_ne_least e free.printable _ member (congrArg Value.int least)
  | num x => exact legible_num (readsBack x member (finite x member))
  | sym name => exact legible_sym (unquoted name member)

/-- The text of an expression that was read is read as the same expression, if its numbers are finite and its
symbols have no quotes. -/
theorem parse_text {text : String} {e : Expr Float} (parsed : parse text = .ok e)
    (finite : ∀ x, .num x ∈ e.values → x.isFinite) (unquoted : ∀ name, .sym name ∈ e.values → '"' ∉ name.toList)
    (readsBack : ∀ x, .num x ∈ e.values → x.isFinite → ReadsBack x) : parse e.text = .ok e := by
  have free := free_of_parse parsed
  exact parse_text_of_free free (free.legible finite unquoted readsBack)

def dial : Expr Float :=
  .logic .and (.not (.compare .eq (.neg (.var "x")) (.const (.num 2.5)))) (.member (.var "y") [.sym "up"])

/-- The tokens of `not (-x = 2.5) and y in {up}`. -/
def dialTokens : List Token :=
  [⟨.name "not", 0, 3⟩, ⟨.op "(", 4, 5⟩, ⟨.op "-", 5, 6⟩, ⟨.name "x", 6, 7⟩, ⟨.op "=", 8, 9⟩, ⟨.num 2.5, 10, 13⟩,
    ⟨.op ")", 13, 14⟩, ⟨.name "and", 15, 18⟩, ⟨.name "y", 19, 20⟩, ⟨.name "in", 21, 23⟩, ⟨.op "\x7b", 24, 25⟩,
    ⟨.name "up", 25, 27⟩, ⟨.op "\x7d", 27, 28⟩]

theorem dial_comes_back : dial.text = "!-x == 2.5 && y in \x7b\"up\"\x7d" ∧ parse dial.text = .ok dial := by
  have parsed : parse "not (-x = 2.5) and y in \x7bup\x7d" = .ok dial := parse_eq_ok_iff.2 ⟨dialTokens, by rfl, by rfl⟩
  have number : ∀ x, .num x ∈ dial.values → x = 2.5 := by simp [dial, values]
  have symbol : ∀ name, .sym name ∈ dial.values → name = "up" := by simp [dial, values]
  refine ⟨by decide +kernel, parse_text parsed ?_ ?_ ?_⟩
  · intro x member
    rw [number x member]
    decide +kernel
  · intro name member
    rw [symbol name member]
    decide
  · intro x member _
    have literal : Decimal.literal 2.5 = "2.5" := by decide +kernel
    rw [number x member, ReadsBack, literal]
    exact parse_eq_ok_iff.2 ⟨[⟨.num 2.5, 0, 3⟩], by rfl, by rfl⟩

end Expr

end Deliberation
