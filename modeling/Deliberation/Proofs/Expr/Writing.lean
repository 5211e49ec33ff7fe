import Deliberation.Expr.Parser
import Deliberation.Proofs.Expr.Parsed
import Deliberation.Proofs.Number.Decimals
import Deliberation.Proofs.Text

/-!
The tokens of printed expressions. Where the constants of an expression are legible, its text spells the
tokens of its parts in their order.
-/

namespace Deliberation

open Token

/-! ### Constants -/

/-- The tokens of a number: a minus sign if it has one, and its digits. -/
def numeralKinds : List Char → List Kind
  | '-' :: digits => .op "-" :: (readNumber digits).toOption.toList
  | digits => (readNumber digits).toOption.toList

/-- The tokens of a constant. -/
def Value.kinds : Value Float → List Kind
  | .bool b => [.name (Value.text (.bool b))]
  | .sym name => [.sym name]
  | value => numeralKinds value.literal.toList

/-- A token that stands for a constant. -/
inductive Token.Kind.Denotes : Kind → Value Float → Prop
  | int (n : Int64) : Denotes (.int n) (.int n)
  | num (x : Float) : Denotes (.num x) (.num x)

/-- How a text writes a constant, by which tokens. -/
inductive Written : Value Float → List Char → List Kind → Prop
  | bool (b : Bool) : Written (.bool b) (Value.text (.bool b)).toList [.name (Value.text (.bool b))]
  | sym {name : String} (plain : '"' ∉ name.toList) : Written (.sym name) ('"' :: name.toList ++ ['"']) [.sym name]
  | number {digits : List Char} {kind : Kind} {value : Value Float} (digit : ∃ first ∈ digits.head?, first.isDigit)
      (numeric : ∀ c ∈ digits, isNumeric c) (read : readNumber digits = .ok kind) (denotes : kind.Denotes value) :
      Written value digits [kind]
  | negative {digits : List Char} {kind : Kind} {value turned : Value Float} (digit : ∃ first ∈ digits.head?, first.isDigit)
      (numeric : ∀ c ∈ digits, isNumeric c) (read : readNumber digits = .ok kind) (denotes : kind.Denotes value)
      (turns : Expr.turnSign (.const value) = .const turned) : Written turned ('-' :: digits) [.op "-", kind]

/-- A constant whose literal writes it. -/
def Value.Legible (value : Value Float) : Prop := Written value value.literal.toList value.kinds

/-- Wherever a token can end behind it, a text spells tokens. -/
structure Writes (text : List Char) (kinds : List Kind) : Prop where
  spells : ∀ {after : List Char} {later : List Kind}, Closed after → Spells after later → Spells (text ++ after) (kinds ++ later)

theorem separate_of_digit {digits : List Char} (digit : ∃ first ∈ digits.head?, first.isDigit) (after : List Char) :
    Separate (digits ++ after) := by
  obtain ⟨first, here, digit⟩ := digit
  obtain ⟨rest, rfl⟩ := List.head?_eq_some_iff.1 here
  rintro _ ⟨rfl⟩
  constructor <;> rintro rfl <;> revert digit <;> decide

theorem Written.writes {value : Value Float} {text : List Char} {kinds : List Kind} (written : Written value text kinds) :
    Writes text kinds := by
  refine ⟨fun {after later} closed spells => ?_⟩
  cases written with
  | bool b =>
    have identifier : Identifier (Value.text (.bool b)).toList := by
      cases b <;> decide
    simpa using Spells.name identifier closed spells
  | sym plain => simpa using Spells.quoted plain spells
  | number digit numeric read _ => exact .number digit numeric read closed spells
  | negative digit numeric read _ _ => exact .minus (separate_of_digit digit after) (.number digit numeric read closed spells)

theorem legible_bool (b : Bool) : (Value.bool b).Legible := by
  cases b <;> exact .bool _

theorem legible_sym {name : String} (plain : '"' ∉ name.toList) : (Value.sym name).Legible := by
  have written := Written.sym plain
  simpa [Value.Legible, Value.literal, Value.kinds] using written

theorem readNumber_digitText (n : Int64) {m : Nat} (same : (m : Int) = n.toInt) :
    readNumber (Decimal.digitText m) = .ok (.int n) := by
  have apart : '.' ∉ Decimal.digitText m := by
    intro member
    exact absurd (Decimal.isDigit_of_mem_digitText member) (by decide)
  rw [readNumber, Text.splitOn_eq_self apart]
  simp [Decimal.digitValue_digitText, same, int64?_toInt]

theorem numeralKinds_of_digit {digits : List Char} {kind : Kind} (digit : ∃ first ∈ digits.head?, first.isDigit)
    (read : readNumber digits = .ok kind) : numeralKinds digits = [kind] := by
  obtain ⟨first, here, digit⟩ := digit
  obtain ⟨rest, rfl⟩ := List.head?_eq_some_iff.1 here
  unfold numeralKinds
  split
  · next same =>
    cases same
    exact absurd digit (by decide)
  · rw [read]
    rfl

theorem legible_number {value : Value Float} {digits : List Char} {kind : Kind} (digit : ∃ first ∈ digits.head?, first.isDigit)
    (numeric : ∀ c ∈ digits, isNumeric c) (read : readNumber digits = .ok kind) (denotes : kind.Denotes value)
    (text : value.literal.toList = digits) : value.Legible := by
  have kinds : value.kinds = numeralKinds value.literal.toList := by cases denotes <;> rfl
  rw [Value.Legible, kinds, text, numeralKinds_of_digit digit read]
  exact .number digit numeric read denotes

theorem legible_negative {value turned : Value Float} {digits : List Char} {kind : Kind}
    (digit : ∃ first ∈ digits.head?, first.isDigit) (numeric : ∀ c ∈ digits, isNumeric c)
    (read : readNumber digits = .ok kind) (denotes : kind.Denotes value)
    (turns : Expr.turnSign (.const value) = .const turned) (text : turned.literal.toList = '-' :: digits) :
    turned.Legible := by
  have kinds : turned.kinds = numeralKinds turned.literal.toList := by cases denotes <;> cases turns <;> rfl
  have spelled : numeralKinds ('-' :: digits) = [.op "-", kind] := by
    rw [numeralKinds, read]
    rfl
  rw [Value.Legible, kinds, text, spelled]
  exact .negative digit numeric read denotes turns

/-- Every integer but the least, which has no digits of its own without the sign, is written so that it can be
read. -/
theorem legible_int {n : Int64} (notLeast : n ≠ Int64.minValue) : (Value.int n).Legible := by
  have text : (Value.int n).literal.toList = n.toInt.repr.toList := rfl
  rw [Int.repr_eq_if] at text
  by_cases positive : 0 ≤ n.toInt
  · rw [if_pos positive, Nat.toList_repr] at text
    exact legible_number (digitText_digit _) (digitText_numeric _) (readNumber_digitText n (Int.toNat_of_nonneg positive))
      (.int n) text
  · rw [if_neg positive, String.toList_append, Nat.toList_repr] at text
    have exact_neg := toInt_neg_of_ne notLeast
    have magnitude : ((-n.toInt).toNat : Int) = (-n).toInt := by omega
    refine legible_negative (digitText_digit _) (digitText_numeric _) (readNumber_digitText (-n) magnitude) (.int (-n)) ?_ text
    rw [Expr.turnSign, Int64.neg_neg]

/-! ### Expressions -/

/-- Tokens in parentheses, if they are needed. -/
def enclose (needed : Bool) (kinds : List Kind) : List Kind :=
  if needed then .op "(" :: kinds ++ [.op ")"] else kinds

/-- The tokens of items, with commas between them. -/
def commaKinds (items : List (List Kind)) : List Kind := [Kind.op ","].intercalate items

namespace Expr

mutual

/-- The tokens of an expression. -/
def kinds : Expr Float → List Kind
  | .const value => value.kinds
  | .var name => [.name name]
  | .neg operand => .op "-" :: enclose (operand.precedence < 8) operand.kinds
  | .not operand => .op "!" :: enclose (operand.precedence < 5) operand.kinds
  | .arith op left right =>
    let level := (arith op left right).precedence
    enclose (left.precedence < level) left.kinds ++ .op op.sign :: enclose (right.precedence < level + 1) right.kinds
  | .compare op left right =>
    enclose (left.precedence < 6) left.kinds ++ .op op.sign :: enclose (right.precedence < 6) right.kinds
  | .logic .implies left right =>
    enclose (left.precedence < 2) left.kinds ++ .op LogicOp.implies.sign :: enclose (right.precedence < 1) right.kinds
  | .logic op left right =>
    let level := (logic op left right).precedence
    enclose (left.precedence < level) left.kinds ++ .op op.sign :: enclose (right.precedence < level + 1) right.kinds
  | .member element set =>
    enclose (element.precedence < 6) element.kinds ++
      .name "in" :: (.op "\x7b" :: commaKinds (set.map Value.kinds) ++ [.op "\x7d"])
  | .call func args => .name func.name :: .op "(" :: commaKinds (kindsOf args) ++ [.op ")"]

def kindsOf : List (Expr Float) → List (List Kind)
  | [] => []
  | e :: rest => e.kinds :: kindsOf rest

end

variable {R : Type}

mutual

/-- The constants at all the places where one stands, members of sets included. -/
def values : Expr R → List (Value R)
  | .const value => [value]
  | .var _ => []
  | .neg operand => operand.values
  | .not operand => operand.values
  | .arith _ left right => left.values ++ right.values
  | .compare _ left right => left.values ++ right.values
  | .logic _ left right => left.values ++ right.values
  | .member element set => element.values ++ set
  | .call _ args => valuesOf args

def valuesOf : List (Expr R) → List (Value R)
  | [] => []
  | e :: rest => e.values ++ valuesOf rest

end

end Expr

/-! ### Texts -/

section Texts

variable {text left right : List Char} {kinds leftKinds rightKinds : List Kind}

theorem Writes.parenthesize (writes : Writes text kinds) (needed : Bool) :
    Writes (Expr.parenthesize needed text) (enclose needed kinds) := by
  cases needed with
  | false => exact writes
  | true =>
    refine ⟨fun closed spells => ?_⟩
    have closing := Spells.bracket ')' (by decide) spells
    have inner := writes.spells (closed_of (by decide)) closing
    have opening := Spells.bracket '(' (by decide) inner
    simpa [Expr.parenthesize, enclose] using opening

/-- Two texts with a sign between them that has blanks on both sides. -/
theorem Writes.between {sign : String} {kind : Kind}
    (between : ∀ {after : List Char} {later : List Kind}, Spells after later →
      Spells (' ' :: sign.toList ++ ' ' :: after) (kind :: later))
    (first : Writes left leftKinds) (second : Writes right rightKinds) :
    Writes (Expr.infixText left sign right) (leftKinds ++ kind :: rightKinds) := by
  refine ⟨fun closed spells => ?_⟩
  have whole := first.spells (closed_of (by decide)) (between (second.spells closed spells))
  simpa [Expr.infixText] using whole

theorem Writes.comma {texts : List (List Char)} {items : List (List Kind)} (writes : List.Forall₂ Writes texts items) :
    Writes (Text.join ", " texts) (commaKinds items) := by
  induction writes with
  | nil => exact ⟨fun _ spells => spells⟩
  | @cons first firstKinds others otherKinds here later ih =>
    cases later with
    | nil => simpa [Text.join, commaKinds] using here
    | @cons next nextKinds others otherKinds =>
      refine ⟨fun closed spells => ?_⟩
      have tail := Spells.blank (by decide : isSpace ' ') (ih.spells closed spells)
      have comma := Spells.bracket ',' (by decide) tail
      have whole := here.spells (closed_of (by decide)) comma
      simpa [Text.join, commaKinds, List.intercalate_cons_cons] using whole

/-- Items between brackets. -/
theorem Writes.bracketed (opening closing : Char) (opens : opening ∈ ['(', ')', '\x7b', '\x7d', ','])
    (closes : closing ∈ ['(', ')', '\x7b', '\x7d', ',']) (ends : continuesName closing = false)
    {texts : List (List Char)} {items : List (List Kind)} (writes : List.Forall₂ Writes texts items) :
    Writes (opening :: Text.join ", " texts ++ [closing])
      (.op (String.singleton opening) :: commaKinds items ++ [.op (String.singleton closing)]) := by
  refine ⟨fun closed spells => ?_⟩
  have inner := (Writes.comma writes).spells (closed_of ends) (.bracket _ closes spells)
  have whole := Spells.bracket _ opens inner
  simpa using whole

end Texts

/-! ### Printed expressions -/

namespace Expr

/-- A text starts with a character that goes on with no operator. -/
def Starts (text : List Char) : Prop := ∃ c ∈ text.head?, c ≠ '>' ∧ c ≠ '='

theorem Starts.separate {text : List Char} (starts : Starts text) (after : List Char) : Separate (text ++ after) := by
  obtain ⟨c, here, different⟩ := starts
  obtain ⟨rest, rfl⟩ := List.head?_eq_some_iff.1 here
  rintro _ ⟨rfl⟩
  exact different

theorem starts_append {text : List Char} (starts : Starts text) (after : List Char) : Starts (text ++ after) := by
  obtain ⟨c, here, different⟩ := starts
  obtain ⟨rest, rfl⟩ := List.head?_eq_some_iff.1 here
  exact ⟨c, rfl, different⟩

theorem starts_parenthesize {text : List Char} (starts : Starts text) (needed : Bool) : Starts (parenthesize needed text) := by
  cases needed with
  | false => exact starts
  | true => exact ⟨'(', rfl, by decide⟩

theorem starts_identifier {name : List Char} (identifier : Identifier name) : Starts name := by
  obtain ⟨first, here, starts⟩ := identifier.starts
  refine ⟨first, here, ?_, ?_⟩ <;> rintro rfl <;> revert starts <;> decide

theorem starts_written {value : Value Float} {text : List Char} {kinds : List Kind} (written : Written value text kinds) :
    Starts text := by
  cases written with
  | bool b => cases b <;> exact ⟨_, rfl, by decide⟩
  | sym plain => exact ⟨'"', rfl, by decide⟩
  | number digit _ _ _ =>
    obtain ⟨first, here, digit⟩ := digit
    refine ⟨first, here, ?_, ?_⟩ <;> rintro rfl <;> revert digit <;> decide
  | negative => exact ⟨'-', rfl, by decide⟩

/-- The constants of an expression have literals that write them. -/
def Legible (e : Expr Float) : Prop := ∀ value ∈ e.values, value.Legible

theorem starts_operand {text : List Char} (starts : Starts text) (needed : Bool) (sign : String) (right : List Char) :
    Starts (infixText (parenthesize needed text) sign right) :=
  starts_append (starts_append (starts_parenthesize starts needed) _) _

theorem starts_render : (e : Expr Float) → e.Printable → e.Legible → Starts e.render
  | .const value, _, legible => starts_written (legible value (by simp [values]))
  | .var _, printable, _ => starts_identifier printable.1
  | .neg _, _, _ => ⟨'-', rfl, by decide⟩
  | .not _, _, _ => ⟨'!', rfl, by decide⟩
  | .arith _ left _, printable, legible =>
    starts_operand (starts_render left printable.1.2 (List.forall_mem_append.1 legible).1) ..
  | .compare _ left _, printable, legible =>
    starts_operand (starts_render left printable.1.2 (List.forall_mem_append.1 legible).1) ..
  | .logic op left _, printable, legible => by
    have starts := starts_render left printable.1.2 (List.forall_mem_append.1 legible).1
    cases op <;> exact starts_operand starts ..
  | .member element _, printable, legible =>
    starts_operand (starts_render element printable.1.2 (List.forall_mem_append.1 legible).1) ..
  | .call func _, _, _ => by cases func <;> exact ⟨_, rfl, by decide⟩

theorem spells_in {after : List Char} {later : List Kind} (spells : Spells after later) :
    Spells (' ' :: "in".toList ++ ' ' :: after) (.name "in" :: later) := by
  have identifier : Identifier "in".toList := by decide
  have spells := Spells.blank (by decide : isSpace ' ') spells
  have word := Spells.name identifier (closed_of (by decide)) spells
  exact .blank (by decide) word

theorem identifier_func (func : Func) : Identifier func.name.toList := by
  cases func <;> decide

mutual

/-- The text of an expression spells its tokens. -/
theorem writes_render : (e : Expr Float) → e.Printable → e.Legible → Writes e.render e.kinds
  | .const value, _, legible => (legible value (by simp [values])).writes
  | .var name, printable, _ => ⟨fun closed spells => by simpa [render, kinds] using Spells.name printable.1 closed spells⟩
  | .neg operand, printable, legible => by
    have starts := starts_parenthesize (starts_render operand printable.2.2 legible) (operand.precedence < 8)
    have inner := (writes_render operand printable.2.2 legible).parenthesize (operand.precedence < 8)
    exact ⟨fun {after _} closed spells => .minus (starts.separate after) (inner.spells closed spells)⟩
  | .not operand, printable, legible => by
    have starts := starts_parenthesize (starts_render operand printable.2 legible) (operand.precedence < 5)
    have inner := (writes_render operand printable.2 legible).parenthesize (operand.precedence < 5)
    exact ⟨fun {after _} closed spells => .exclamation (starts.separate after) (inner.spells closed spells)⟩
  | .arith op left right, printable, legible => by
    obtain ⟨first, second⟩ := List.forall_mem_append.1 legible
    have left_writes := writes_render left printable.1.2 first
    have right_writes := writes_render right printable.2.2 second
    exact (left_writes.parenthesize _).between (fun spells => .sign (by cases op <;> decide) spells) (right_writes.parenthesize _)
  | .compare op left right, printable, legible => by
    obtain ⟨first, second⟩ := List.forall_mem_append.1 legible
    have left_writes := writes_render left printable.1.2 first
    have right_writes := writes_render right printable.2.2 second
    exact (left_writes.parenthesize _).between (fun spells => .sign (by cases op <;> decide) spells) (right_writes.parenthesize _)
  | .logic op left right, printable, legible => by
    obtain ⟨first, second⟩ := List.forall_mem_append.1 legible
    have left_writes := writes_render left printable.1.2 first
    have right_writes := writes_render right printable.2.2 second
    cases op <;>
      exact (left_writes.parenthesize _).between (fun spells => .sign (by decide) spells) (right_writes.parenthesize _)
  | .member element set, printable, legible => by
    obtain ⟨first, members⟩ := List.forall_mem_append.1 legible
    have element_writes := writes_render element printable.1.2 first
    have set_writes : List.Forall₂ Writes (set.map (·.literal.toList)) (set.map Value.kinds) := by
      rw [List.forall₂_map_left_iff, List.forall₂_map_right_iff]
      exact List.forall₂_same.2 fun value member => (members value member).writes
    exact (element_writes.parenthesize _).between spells_in (.bracketed _ _ (by decide) (by decide) (by decide) set_writes)
  | .call func args, printable, legible => by
    have args_writes := Writes.bracketed '(' ')' (by decide) (by decide) (by decide)
      (writes_renderAll args printable legible)
    refine ⟨fun closed spells => ?_⟩
    have whole := Spells.name (identifier_func func) (closed_of (by decide)) (args_writes.spells closed spells)
    simpa [render, kinds] using whole

theorem writes_renderAll : (args : List (Expr Float)) → PrintableArgs args → (∀ value ∈ valuesOf args, value.Legible) →
    List.Forall₂ Writes (renderAll args) (kindsOf args)
  | [], _, _ => .nil
  | e :: rest, printable, legible =>
    .cons (writes_render e printable.1.2 (List.forall_mem_append.1 legible).1)
      (writes_renderAll rest printable.2 (List.forall_mem_append.1 legible).2)

end

end Expr

end Deliberation
