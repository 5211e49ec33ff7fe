import Deliberation.Proofs.Expr.Writing
import Mathlib.Tactic.IntervalCases

/-!
Printed expressions read back. Where nothing goes on with an expression, the reader of a level gives the
expression for its tokens, if it binds as tightly as the level asks for or stands in parentheses. A
chain of operands is followed up to where it goes on.
-/

namespace Deliberation

open Token Expr.Reader

/-! ### What goes on -/

/-- The level of the expressions that a token goes on with. -/
def Token.Kind.level : Kind → Nat
  | .op text =>
    if text = "(" then 9
    else if text ∈ ["*", "/"] then 7
    else if text ∈ ["+", "-"] then 6
    else if text ∈ ["==", "=", "!=", "<=", ">=", "<", ">"] then 5
    else if text = "&&" then 3
    else if text = "||" then 2
    else if text ∈ ["->", "=>"] then 1
    else 0
  | .name word =>
    if Text.isWord "in" word.toList then 5
    else if Text.isWord "and" word.toList then 3
    else if Text.isWord "or" word.toList then 2
    else 0
  | _ => 0

/-- An expression of a level does not go on with these tokens. -/
def Stops (level : Nat) (rest : List Token) : Prop := ∀ token ∈ rest.head?, token.kind.level < level

theorem Stops.mono {level upper : Nat} {rest : List Token} (stops : Stops level rest) (le : level ≤ upper) :
    Stops upper rest := fun token here => Nat.lt_of_lt_of_le (stops token here) le

theorem stops_nil {level : Nat} : Stops level [] := nofun

theorem stops_cons {level : Nat} {token : Token} {rest : List Token} (below : token.kind.level < level) :
    Stops level (token :: rest) := by
  rintro _ ⟨rfl⟩
  exact below

theorem operator?_stops {choices : List String} {level : Nat} {rest : List Token}
    (levels : ∀ text ∈ choices, level ≤ (Kind.op text).level) (stops : Stops level rest) :
    operator? choices rest = .ok (none, rest) := by
  rcases operator?_cases choices rest with none | ⟨text, start, stop, after, member, rfl, _⟩
  · exact none
  · exact absurd (stops _ rfl) (Nat.not_lt.2 (levels text member))

theorem keyword?_stops {word : String} {level : Nat} {rest : List Token}
    (levels : ∀ name, Text.isWord word name.toList → level ≤ (Kind.name name).level) (stops : Stops level rest) :
    keyword? word rest = .ok (false, rest) := by
  rcases keyword?_cases word rest with none | ⟨name, start, stop, after, same, rfl, _⟩
  · exact none
  · exact absurd (stops _ rfl) (Nat.not_lt.2 (levels name same))

theorem level_in {name : String} (word : Text.isWord "in" name.toList) : (Kind.name name).level = 5 := by
  simp [Kind.level, word]

theorem level_and {name : String} (word : Text.isWord "and" name.toList) : 3 ≤ (Kind.name name).level := by
  by_cases other : Text.isWord "in" name.toList <;> simp [Kind.level, word, other]

theorem level_or {name : String} (word : Text.isWord "or" name.toList) : 2 ≤ (Kind.name name).level := by
  by_cases other : Text.isWord "in" name.toList <;> by_cases another : Text.isWord "and" name.toList <;>
    simp [Kind.level, word, other, another]

namespace Expr

/-! ### Chains -/

namespace Reader

section Chains

variable {α β : Type} {next? : Reader (Option β)} {operand : Reader α} {combine : β → α → α → α} {tokens rest : List Token} {a : α}

/-- The first operands of a chain come to so much, and the rest of the chain is still to be read. -/
def Begun (next? : Reader (Option β)) (operand : Reader α) (combine : β → α → α → α) (tokens : List Token) (a : α)
    (rest : List Token) : Prop :=
  ∃ first between, operand tokens = .ok (first, between) ∧ ∀ bound, between.length ≤ bound →
    ∃ left, rest.length ≤ left ∧ chain next? operand combine bound first between = chain next? operand combine left a rest

theorem begun_of_operand (read : operand tokens = .ok (a, rest)) : Begun next? operand combine tokens a rest :=
  ⟨a, rest, read, fun bound enough => ⟨bound, enough, rfl⟩⟩

theorem Begun.step {between after : List Token} {op : β} {b : α} (begun : Begun next? operand combine tokens a between)
    (sign : next? between = .ok (some op, after)) (shorter : after.length < between.length)
    (read : operand after = .ok (b, rest)) (suffix : rest.length ≤ after.length) :
    Begun next? operand combine tokens (combine op a b) rest := by
  obtain ⟨first, start, begins, goes⟩ := begun
  refine ⟨first, start, begins, fun bound enough => ?_⟩
  obtain ⟨left, enough, same⟩ := goes bound enough
  obtain ⟨left, rfl⟩ : ∃ n, left = n + 1 := ⟨left - 1, by omega⟩
  refine ⟨left, by omega, ?_⟩
  rw [same, chain, bind_ok sign]
  exact bind_ok read

theorem Begun.finish (begun : Begun next? operand combine tokens a rest) (none : next? rest = .ok (none, rest)) :
    (do let first ← operand; chain next? operand combine (← get).length first : Reader α) tokens = .ok (a, rest) := by
  obtain ⟨first, between, begins, goes⟩ := begun
  obtain ⟨left, _, same⟩ := goes between.length (Nat.le_refl _)
  have ends : chain next? operand combine left a rest = .ok (a, rest) := by
    cases left with
    | zero => rfl
    | succ left => exact bind_ok none
  rw [bind_ok begins, get_bind, same, ends]

end Chains

end Reader

/-! ### Levels -/

/-- The reader of a level. -/
def readerAt (nested : Reader (Expr Float)) (bound : Nat) : Nat → Reader (Expr Float)
  | 1 => implication nested bound
  | 2 => disjunction nested
  | 3 => connected .and "and" (negation nested)
  | 4 => negation nested
  | 5 => comparison nested
  | 6 => additive nested
  | 7 => product nested
  | 8 => signed nested
  | _ => primary nested

/-- Tokens of these kinds are read as an expression at a level, where nothing goes on with it. -/
structure Reads (level : Nat) (kinds : List Kind) (e : Expr Float) : Prop where
  read : ∀ {depth bound : Nat} {tokens rest : List Token}, tokens.map Token.kind = kinds → (tokens ++ rest).length ≤ depth →
    (tokens ++ rest).length ≤ bound → Stops level rest →
    readerAt (reader depth) bound level (tokens ++ rest) = .ok (e, rest)

/-- The same, up to where an expression of the level goes on. -/
structure Begins (kinds : List Kind) (e : Expr Float) (level : Nat) : Prop where
  begun : ∀ {depth : Nat} {tokens rest : List Token}, tokens.map Token.kind = kinds → (tokens ++ rest).length ≤ depth →
    Stops (level + 1) rest →
    match level with
    | 2 => Begun (logicOp? .or "or") (connected .and "and" (negation (reader depth))) .logic (tokens ++ rest) e rest
    | 3 => Begun (logicOp? .and "and") (negation (reader depth)) .logic (tokens ++ rest) e rest
    | 6 => Begun (arithOp? [.add, .sub]) (product (reader depth)) .arith (tokens ++ rest) e rest
    | 7 => Begun (arithOp? [.mul, .div]) (signed (reader depth)) .arith (tokens ++ rest) e rest
    | _ => True

theorem arithOp?_stops {operations : List ArithOp} {level : Nat} {rest : List Token}
    (levels : ∀ op ∈ operations, level ≤ (Kind.op op.sign).level) (stops : Stops level rest) :
    arithOp? operations rest = .ok (none, rest) := by
  exact bind_ok (operator?_stops (by simpa using levels) stops)

theorem connective?_stops {sign word : String} {level : Nat} {rest : List Token} (sign_level : level ≤ (Kind.op sign).level)
    (word_level : ∀ name, Text.isWord word name.toList → level ≤ (Kind.name name).level) (stops : Stops level rest) :
    connective? sign word rest = .ok (false, rest) := by
  have noSign : operator? [sign] rest = _ := operator?_stops (by simpa using sign_level) stops
  have noWord := keyword?_stops word_level stops
  rw [connective?, bind_ok noSign]
  exact noWord

theorem logicOp?_stops {op : LogicOp} {word : String} {level : Nat} {rest : List Token}
    (sign_level : level ≤ (Kind.op op.sign).level)
    (word_level : ∀ name, Text.isWord word name.toList → level ≤ (Kind.name name).level) (stops : Stops level rest) :
    logicOp? op word rest = .ok (none, rest) := by
  exact bind_ok (connective?_stops sign_level word_level stops)

theorem countSigns_none {sign? : Reader Bool} {tokens : List Token} (none : sign? tokens = .ok (false, tokens)) (bound : Nat) :
    countSigns sign? bound tokens = .ok (0, tokens) := by
  cases bound with
  | zero => rfl
  | succ bound => exact bind_ok none

variable {kinds : List Kind} {e : Expr Float}

theorem Begins.reads {level : Nat} (chain : level ∈ [2, 3, 6, 7]) (begins : Begins kinds e level) : Reads level kinds e := by
  refine ⟨fun {depth bound tokens rest} spelled deep _ stops => ?_⟩
  have begun := begins.begun spelled deep (stops.mono (Nat.le_succ _))
  simp only [List.mem_cons, List.not_mem_nil, or_false] at chain
  rcases chain with rfl | rfl | rfl | rfl
  · exact begun.finish (logicOp?_stops (by decide) (fun _ => level_or) stops)
  · exact begun.finish (logicOp?_stops (by decide) (fun _ => level_and) stops)
  · exact begun.finish (arithOp?_stops (by decide) stops)
  · exact begun.finish (arithOp?_stops (by decide) stops)

theorem Reads.begins {level : Nat} (chain : level ∈ [2, 3, 6, 7]) (reads : Reads (level + 1) kinds e) : Begins kinds e level := by
  refine ⟨fun {depth tokens rest} spelled deep stops => ?_⟩
  have read := reads.read spelled deep (Nat.le_refl _) stops
  simp only [List.mem_cons, List.not_mem_nil, or_false] at chain
  rcases chain with rfl | rfl | rfl | rfl <;> exact begun_of_operand read

/-- No negation would be read here. -/
def Unnegated (kinds : List Kind) : Prop :=
  ∃ first ∈ kinds.head?, first ≠ .op "!" ∧ ∀ name, first = .name name → ¬Text.isWord "not" name.toList

/-- No sign would be read here. -/
def Unsigned (kinds : List Kind) : Prop := ∃ first ∈ kinds.head?, first ≠ .op "-"

theorem head_spelled {tokens rest : List Token} {first : Kind} (spelled : tokens.map Token.kind = kinds)
    (here : first ∈ kinds.head?) : ∃ start stop others, tokens ++ rest = ⟨first, start, stop⟩ :: others := by
  subst spelled
  cases tokens with
  | nil => cases here
  | cons token others =>
    obtain rfl : token.kind = first := Option.some.inj here
    exact ⟨token.start, token.stop, others ++ rest, rfl⟩

theorem Reads.signed (reads : Reads 9 kinds e) (unsigned : Unsigned kinds) : Reads 8 kinds e := by
  refine ⟨fun {depth bound tokens rest} spelled deep enough stops => ?_⟩
  have read : primary (reader depth) (tokens ++ rest) = _ := reads.read spelled deep enough (stops.mono (by decide))
  obtain ⟨first, here, different⟩ := unsigned
  obtain ⟨start, stop, others, same⟩ := head_spelled spelled here
  have none : (do return (← operator? ["-"]).isSome : Reader Bool) (tokens ++ rest) = .ok (false, tokens ++ rest) := by
    rcases operator?_cases ["-"] (tokens ++ rest) with none | ⟨text, _, _, _, member, minus, _⟩
    · exact bind_ok none
    · rw [same] at minus
      cases minus
      exact absurd (congrArg Kind.op (List.mem_singleton.1 member)) different
  have counted := countSigns_none none (tokens ++ rest).length
  change Expr.signed (reader depth) (tokens ++ rest) = _
  rw [Expr.signed, get_bind, bind_ok counted]
  exact bind_ok read

/-- What is read as a sum is read as a comparison that has none. -/
theorem Reads.comparison (reads : Reads 6 kinds e) : Reads 5 kinds e := by
  refine ⟨fun {depth bound tokens rest} spelled deep enough stops => ?_⟩
  have read : additive (reader depth) (tokens ++ rest) = _ := reads.read spelled deep enough (stops.mono (by decide))
  have noWord : keyword? "in" rest = _ := keyword?_stops (fun _ word => (level_in word).ge) stops
  have noSign : operator? ["==", "=", "!=", "<=", ">=", "<", ">"] rest = _ := operator?_stops (by decide) stops
  change Expr.comparison (reader depth) (tokens ++ rest) = _
  rw [Expr.comparison, bind_ok read, bind_ok noWord]
  exact bind_ok noSign

theorem Reads.negation (reads : Reads 5 kinds e) (unnegated : Unnegated kinds) : Reads 4 kinds e := by
  refine ⟨fun {depth bound tokens rest} spelled deep enough stops => ?_⟩
  have read : Expr.comparison (reader depth) (tokens ++ rest) = _ := reads.read spelled deep enough (stops.mono (by decide))
  obtain ⟨first, here, noSign, noWord⟩ := unnegated
  obtain ⟨start, stop, others, same⟩ := head_spelled spelled here
  have none : connective? "!" "not" (tokens ++ rest) = .ok (false, tokens ++ rest) := by
    rcases operator?_cases ["!"] (tokens ++ rest) with none | ⟨text, _, _, _, member, sign, _⟩
    · rw [connective?, bind_ok none]
      rcases keyword?_cases "not" (tokens ++ rest) with none | ⟨name, _, _, _, word, named, _⟩
      · exact none
      · rw [same] at named
        cases named
        exact absurd word (noWord name rfl)
    · rw [same] at sign
      cases sign
      exact absurd (congrArg Kind.op (List.mem_singleton.1 member)) noSign
  change Expr.negation (reader depth) (tokens ++ rest) = _
  rw [Expr.negation, get_bind, bind_ok (countSigns_none none _)]
  exact bind_ok read

/-- What is read as a disjunction is read as an implication that has none. -/
theorem Reads.implication (reads : Reads 2 kinds e) : Reads 1 kinds e := by
  refine ⟨fun {depth bound tokens rest} spelled deep enough stops => ?_⟩
  have read : disjunction (reader depth) (tokens ++ rest) = _ := reads.read spelled deep enough (stops.mono (by decide))
  change Expr.implication (reader depth) bound (tokens ++ rest) = _
  cases bound with
  | zero => exact read
  | succ bound =>
    have none : operator? ["->", "=>"] rest = _ := operator?_stops (by decide) stops
    rw [Expr.implication, bind_ok read]
    exact bind_ok none

theorem Reads.lower {level : Nat} (reads : Reads (level + 1) kinds e) (low : 1 ≤ level) (high : level < 8)
    (unnegated : level = 4 → Unnegated kinds) : Reads level kinds e := by
  interval_cases level
  · exact reads.implication
  · exact (reads.begins (by decide)).reads (by decide)
  · exact (reads.begins (by decide)).reads (by decide)
  · exact reads.negation (unnegated rfl)
  · exact reads.comparison
  · exact (reads.begins (by decide)).reads (by decide)
  · exact (reads.begins (by decide)).reads (by decide)

theorem Reads.mono {level lower : Nat} (reads : Reads level kinds e) (le : lower ≤ level) (low : 1 ≤ lower) (high : level ≤ 8)
    (unnegated : lower ≤ 4 → 4 < level → Unnegated kinds) : Reads lower kinds e := by
  induction level, le using Nat.le_induction with
  | base => exact reads
  | succ level le ih =>
    refine ih (reads.lower (low.trans le) (by omega) ?_) (by omega) fun below above => unnegated below (by omega)
    rintro rfl
    exact unnegated le (by decide)

/-! ### Parentheses -/

theorem exists_split {tokens : List Token} {first second : List Kind} {kind : Kind}
    (spelled : tokens.map Token.kind = first ++ kind :: second) :
    ∃ before start stop after, tokens = before ++ ⟨kind, start, stop⟩ :: after ∧ before.map Token.kind = first ∧
      after.map Token.kind = second := by
  obtain ⟨before, others, rfl, spelled_before, spelled_others⟩ := List.map_eq_append_iff.1 spelled
  obtain ⟨⟨_, start, stop⟩, after, rfl, rfl, spelled_after⟩ := List.map_eq_cons_iff.1 spelled_others
  exact ⟨before, start, stop, after, rfl, spelled_before, spelled_after⟩

theorem Reads.reader (reads : Reads 1 kinds e) {depth : Nat} {tokens rest : List Token} (spelled : tokens.map Token.kind = kinds)
    (deep : (tokens ++ rest).length < depth) (stops : Stops 1 rest) : reader depth (tokens ++ rest) = .ok (e, rest) := by
  obtain ⟨depth, rfl⟩ : ∃ n, depth = n + 1 := ⟨depth - 1, by omega⟩
  exact reads.read spelled (Nat.le_of_lt_succ deep) (Nat.le_refl _) stops

theorem Reads.parentheses (reads : Reads 1 kinds e) : Reads 9 (.op "(" :: kinds ++ [.op ")"]) e := by
  refine ⟨fun {depth _ tokens rest} spelled deep _ _ => ?_⟩
  obtain ⟨before, start, stop, after, rfl, opened, last⟩ := exists_split spelled
  obtain rfl := List.map_eq_nil_iff.1 last
  obtain ⟨⟨_, start', stop'⟩, inner, rfl, rfl, within⟩ := List.map_eq_cons_iff.1 opened
  simp only [List.append_assoc, List.cons_append, List.nil_append, List.length_cons] at deep ⊢
  have closing : (Kind.op ")").level < 1 := by decide
  have read := reads.reader within deep (stops_cons closing)
  change (do let inner ← Expr.reader depth; expect ")"; return inner : Reader (Expr Float)) (inner ++ ⟨.op ")", start, stop⟩ :: rest) = _
  rw [bind_ok read]
  rfl

/-! ### Operands -/

/-- An expression is read from its tokens at every level at which it needs no parentheses, and up to where a
chain goes on. -/
structure Readable (e : Expr Float) : Prop where
  reads : ∀ level, 1 ≤ level → level ≤ 8 → level ≤ e.precedence → (level ≤ 4 → ¬e.leads) → Reads level e.kinds e
  begins : ∀ level ∈ [2, 3, 6, 7], level ≤ e.precedence → (level ≤ 4 → ¬e.leads) → Begins e.kinds e level
  unnegated : 5 ≤ e.precedence → ¬e.leads → Unnegated e.kinds

theorem one_le_precedence (e : Expr Float) : 1 ≤ e.precedence := by
  unfold precedence
  split <;> decide

theorem unnegated_parentheses (kinds : List Kind) : Unnegated (.op "(" :: kinds ++ [.op ")"]) :=
  ⟨.op "(", rfl, by simp, nofun⟩

namespace Readable

variable (readable : Readable e)

include readable

theorem parentheses {level : Nat} (low : 1 ≤ level) (high : level ≤ 8) (free : ¬e.leads) :
    Reads level (.op "(" :: e.kinds ++ [.op ")"]) e := by
  have inner := readable.reads 1 (by decide) (by decide) (one_le_precedence e) fun _ => free
  have outer := inner.parentheses.signed ⟨.op "(", rfl, by simp⟩
  exact outer.mono high low (by decide) fun _ _ => unnegated_parentheses _

theorem operand {level : Nat} (low : 1 ≤ level) (high : level ≤ 8) (inside : e.Inside level) (free : level ≤ 4 → ¬e.leads) :
    Reads level (enclose (e.precedence < level) e.kinds) e := by
  by_cases below : e.precedence < level
  · simpa [enclose, below] using readable.parentheses low high (inside below)
  · simpa [enclose, below] using readable.reads level low high (Nat.not_lt.1 below) free

theorem tight_operand {level : Nat} (low : 4 < level) (high : level ≤ 8) (inside : e.Inside level) :
    Reads level (enclose (e.precedence < level) e.kinds) e :=
  readable.operand (Nat.lt_of_le_of_lt (by decide) low).le high inside fun below => absurd below (Nat.not_le.2 low)

theorem first_operand {level : Nat} (chain : level ∈ [2, 3, 6, 7]) (inside : e.Inside level) (free : level ≤ 4 → ¬e.leads) :
    Begins (enclose (e.precedence < level) e.kinds) e level := by
  by_cases below : e.precedence < level
  · have range : 1 ≤ level + 1 ∧ level + 1 ≤ 8 := by
      have bounds : ∀ level ∈ [2, 3, 6, 7], 1 ≤ level + 1 ∧ level + 1 ≤ 8 := by decide
      exact bounds level chain
    simpa [enclose, below] using (readable.parentheses range.1 range.2 (inside below)).begins chain
  · simpa [enclose, below] using readable.begins level chain (Nat.not_lt.1 below) free

end Readable

/-- An expression is read at the level of its own, and from there at the looser ones. -/
theorem readable_of {native : Nat} (tight : native = min 8 e.precedence)
    (reads : (native ≤ 4 → ¬e.leads) → Reads native e.kinds e)
    (begins : native ∈ [2, 3, 6, 7] → (native ≤ 4 → ¬e.leads) → Begins e.kinds e native)
    (unnegated : 5 ≤ e.precedence → ¬e.leads → Unnegated e.kinds) : Readable e := by
  have lower : ∀ level, 1 ≤ level → level ≤ native → (level ≤ 4 → ¬e.leads) → Reads level e.kinds e := by
    intro level low le free
    have own := reads fun below => free (le.trans below)
    exact own.mono le low (by omega) fun below above => unnegated (by omega) (free below)
  refine ⟨fun level low high le => lower level low (by omega), ?_, unnegated⟩
  intro level chain le free
  have bounds : ∀ level ∈ [2, 3, 6, 7], 1 ≤ level ∧ level ≠ 4 ∧ level + 1 ≤ 8 := by decide
  obtain ⟨low, notFour, high⟩ := bounds level chain
  by_cases own : level = native
  · subst own
    exact begins chain free
  · exact (lower (level + 1) (by omega) (by omega) fun below => free (by omega)).begins chain

theorem readable_of_reads (native : Nat) (tight : native = min 8 e.precedence) (alone : native ∉ [2, 3, 6, 7])
    (reads : (native ≤ 4 → ¬e.leads) → Reads native e.kinds e)
    (unnegated : 5 ≤ e.precedence → ¬e.leads → Unnegated e.kinds) : Readable e :=
  readable_of tight reads (fun chain => absurd chain alone) unnegated

theorem readable_of_begins {native : Nat} (tight : native = min 8 e.precedence) (chain : native ∈ [2, 3, 6, 7])
    (begins : (native ≤ 4 → ¬e.leads) → Begins e.kinds e native)
    (unnegated : 5 ≤ e.precedence → ¬e.leads → Unnegated e.kinds) : Readable e :=
  readable_of tight (fun free => (begins free).reads chain) (fun _ => begins) unnegated

/-! ### Chains of operands -/

theorem begun_arith {op : ArithOp} {operations : List ArithOp} {operand : Reader (Expr Float)} {left right : Expr Float}
    {tokens others rest : List Token} {start stop : Nat} (known : op ∈ operations)
    (found : operations.find? (·.sign == op.sign) = some op)
    (begun : Begun (arithOp? operations) operand .arith tokens left (⟨.op op.sign, start, stop⟩ :: others))
    (read : operand others = .ok (right, rest)) (shorter : rest.length ≤ others.length) :
    Begun (arithOp? operations) operand .arith tokens (.arith op left right) rest := by
  refine begun.step ?_ (Nat.lt_succ_self _) read shorter
  have taken : operator? (operations.map ArithOp.sign) (⟨.op op.sign, start, stop⟩ :: others) = .ok (some op.sign, others) :=
    if_pos (List.mem_map_of_mem known)
  rw [arithOp?, bind_ok taken]
  simp only [found]
  rfl

theorem begun_logic {op : LogicOp} {word : String} {operand : Reader (Expr Float)} {left right : Expr Float}
    {tokens others rest : List Token} {start stop : Nat}
    (begun : Begun (logicOp? op word) operand .logic tokens left (⟨.op op.sign, start, stop⟩ :: others))
    (read : operand others = .ok (right, rest)) (shorter : rest.length ≤ others.length) :
    Begun (logicOp? op word) operand .logic tokens (.logic op left right) rest := by
  refine begun.step ?_ (Nat.lt_succ_self _) read shorter
  have sign : operator? [op.sign] (⟨.op op.sign, start, stop⟩ :: others) = .ok (some op.sign, others) :=
    if_pos (List.mem_singleton_self _)
  have taken : connective? op.sign word (⟨.op op.sign, start, stop⟩ :: others) = .ok (true, others) := bind_ok sign
  rw [logicOp?, bind_ok taken]
  rfl

variable {leftKinds rightKinds : List Kind} {left right : Expr Float}

/-- What stands on both sides of a sign, where the whole is as long as the tokens may be. -/
theorem length_sides {before after rest : List Token} {token : Token} {depth : Nat}
    (deep : (before ++ token :: after ++ rest).length ≤ depth) :
    (before ++ token :: (after ++ rest)).length ≤ depth ∧ (after ++ rest).length < depth := by
  simp only [List.append_assoc, List.cons_append, List.length_append, List.length_cons] at deep ⊢
  omega

theorem Begins.arith {op : ArithOp} (first : Begins leftKinds left (arith op left right).precedence)
    (second : Reads ((Expr.arith op left right).precedence + 1) rightKinds right) :
    Begins (leftKinds ++ .op op.sign :: rightKinds) (.arith op left right) (arith op left right).precedence := by
  refine ⟨fun {depth tokens rest} spelled deep stops => ?_⟩
  obtain ⟨before, start, stop, after, rfl, spelled_left, spelled_right⟩ := exists_split spelled
  obtain ⟨deep_left, deep_right⟩ := length_sides deep
  have level : (Kind.op op.sign).level < (Expr.arith op left right).precedence + 1 := by
    cases op <;> exact Nat.lt_succ_self _
  have begun := first.begun spelled_left deep_left (stops_cons level)
  have read := second.read spelled_right deep_right.le deep_right.le stops
  rw [List.append_assoc]
  cases op <;> exact begun_arith (by decide) rfl begun read (by simp)

theorem Begins.logic {op : LogicOp} (notImplies : op ≠ .implies) (first : Begins leftKinds left (logic op left right).precedence)
    (second : Reads ((Expr.logic op left right).precedence + 1) rightKinds right) :
    Begins (leftKinds ++ .op op.sign :: rightKinds) (.logic op left right) (logic op left right).precedence := by
  refine ⟨fun {depth tokens rest} spelled deep stops => ?_⟩
  obtain ⟨before, start, stop, after, rfl, spelled_left, spelled_right⟩ := exists_split spelled
  obtain ⟨deep_left, deep_right⟩ := length_sides deep
  have level : (Kind.op op.sign).level < (Expr.logic op left right).precedence + 1 := by
    cases op <;> exact Nat.lt_succ_self _
  have begun := first.begun spelled_left deep_left (stops_cons level)
  have read := second.read spelled_right deep_right.le deep_right.le stops
  rw [List.append_assoc]
  cases op with
  | implies => exact (notImplies rfl).elim
  | and => exact begun_logic begun read (by simp)
  | or => exact begun_logic begun read (by simp)

/-- Implications group to the right. -/
theorem Reads.implies (first : Reads 2 leftKinds left) (second : Reads 1 rightKinds right) :
    Reads 1 (leftKinds ++ .op LogicOp.implies.sign :: rightKinds) (.logic .implies left right) := by
  refine ⟨fun {depth bound tokens rest} spelled deep enough stops => ?_⟩
  obtain ⟨before, start, stop, after, rfl, spelled_left, spelled_right⟩ := exists_split spelled
  obtain ⟨deep_left, deep_right⟩ := length_sides deep
  obtain ⟨_, enough_right⟩ := length_sides enough
  obtain ⟨bound, rfl⟩ : ∃ n, bound = n + 1 := ⟨bound - 1, by omega⟩
  have level : (Kind.op LogicOp.implies.sign).level < 2 := by decide
  have read_left : disjunction (Expr.reader depth) _ = _ :=
    first.read spelled_left deep_left deep_left (stops_cons level)
  have read_right : Expr.implication (Expr.reader depth) bound (after ++ rest) = _ :=
    second.read spelled_right deep_right.le (Nat.le_of_lt_succ enough_right) stops
  have sign : operator? ["->", "=>"] (⟨.op LogicOp.implies.sign, start, stop⟩ :: (after ++ rest)) =
      .ok (some LogicOp.implies.sign, after ++ rest) := rfl
  change Expr.implication (Expr.reader depth) (bound + 1) _ = _
  rw [List.append_assoc, Expr.implication]
  refine (bind_ok read_left).trans ((bind_ok sign).trans ?_)
  exact bind_ok read_right

theorem Reads.compare {op : CompareOp} (first : Reads 6 leftKinds left) (second : Reads 6 rightKinds right) :
    Reads 5 (leftKinds ++ .op op.sign :: rightKinds) (.compare op left right) := by
  refine ⟨fun {depth bound tokens rest} spelled deep enough stops => ?_⟩
  obtain ⟨before, start, stop, after, rfl, spelled_left, spelled_right⟩ := exists_split spelled
  obtain ⟨deep_left, deep_right⟩ := length_sides deep
  have level : (Kind.op op.sign).level < 6 := by cases op <;> decide
  have read_left : additive (Expr.reader depth) _ = _ :=
    first.read spelled_left deep_left deep_left (stops_cons level)
  have read_right : additive (Expr.reader depth) (after ++ rest) = _ :=
    second.read spelled_right deep_right.le deep_right.le (stops.mono (by decide))
  have known : op.sign ∈ ["==", "=", "!=", "<=", ">=", "<", ">"] := by cases op <;> decide
  have sign : operator? ["==", "=", "!=", "<=", ">=", "<", ">"] (⟨.op op.sign, start, stop⟩ :: (after ++ rest)) =
      .ok (some op.sign, after ++ rest) := if_pos known
  have means : (some op.sign).bind compareOp? = some op := by cases op <;> rfl
  change Expr.comparison (Expr.reader depth) _ = _
  rw [List.append_assoc, Expr.comparison]
  refine (bind_ok read_left).trans ((bind_ok rfl).trans ((bind_ok sign).trans ?_))
  rw [means]
  exact bind_ok read_right

theorem signed_minus {nested : Reader (Expr Float)} {tokens rest : List Token} {start stop : Nat}
    (read : Expr.signed nested tokens = .ok (e, rest)) :
    Expr.signed nested (⟨.op "-", start, stop⟩ :: tokens) = .ok (turnSign e, rest) := by
  rw [Expr.signed, get_bind] at read
  obtain ⟨signs, between, counted, done⟩ := bind_eq_ok read
  obtain ⟨operand, after, read, done⟩ := bind_eq_ok done
  cases done
  rw [Expr.signed, get_bind]
  have more : countSigns (do return (← operator? ["-"]).isSome) (tokens.length + 1) (⟨.op "-", start, stop⟩ :: tokens) =
      .ok (signs + 1, between) := (bind_ok rfl).trans (bind_ok counted)
  exact (bind_ok more).trans (bind_ok read)

theorem negation_exclamation {nested : Reader (Expr Float)} {tokens rest : List Token} {start stop : Nat}
    (read : Expr.negation nested tokens = .ok (e, rest)) :
    Expr.negation nested (⟨.op "!", start, stop⟩ :: tokens) = .ok (.not e, rest) := by
  rw [Expr.negation, get_bind] at read
  obtain ⟨negations, between, counted, done⟩ := bind_eq_ok read
  obtain ⟨operand, after, read, done⟩ := bind_eq_ok done
  cases done
  rw [Expr.negation, get_bind]
  have more : countSigns (connective? "!" "not") (tokens.length + 1) (⟨.op "!", start, stop⟩ :: tokens) =
      .ok (negations + 1, between) := (bind_ok rfl).trans (bind_ok counted)
  exact (bind_ok more).trans (bind_ok read)

theorem Reads.minus (reads : Reads 8 kinds e) : Reads 8 (.op "-" :: kinds) (turnSign e) := by
  refine ⟨fun {depth bound tokens rest} spelled deep enough stops => ?_⟩
  obtain ⟨⟨_, start, stop⟩, others, rfl, rfl, within⟩ := List.map_eq_cons_iff.1 spelled
  exact signed_minus (reads.read within (Nat.le_of_succ_le deep) (Nat.le_of_succ_le deep) stops)

theorem Reads.exclamation (reads : Reads 4 kinds e) : Reads 4 (.op "!" :: kinds) (.not e) := by
  refine ⟨fun {depth bound tokens rest} spelled deep enough stops => ?_⟩
  obtain ⟨⟨_, start, stop⟩, others, rfl, rfl, within⟩ := List.map_eq_cons_iff.1 spelled
  exact negation_exclamation (reads.read within (Nat.le_of_succ_le deep) (Nat.le_of_succ_le deep) stops)

/-! ### Brackets -/

/-- Items may start with these kinds; none of them closes a bracket. -/
def Opening (kinds : List Kind) : Prop := ∃ first ∈ kinds.head?, ∀ text, first = .op text → text ∈ ["-", "!", "("]

/-- An item is read from its tokens, where at most so many of them are left and nothing goes on with it. -/
structure ReadsItem {α : Type} (item : Reader α) (depth : Nat) (kinds : List Kind) (a : α) : Prop where
  read : ∀ {tokens rest : List Token}, tokens.map Token.kind = kinds → (tokens ++ rest).length < depth → Stops 1 rest →
    item (tokens ++ rest) = .ok (a, rest)
  opening : Opening kinds

theorem length_le_commaKinds (items : List (List Kind)) : items.length ≤ (commaKinds items).length + 1 := by
  induction items with
  | nil => simp
  | cons first rest ih =>
    cases rest with
    | nil => simp
    | cons next rest =>
      simp only [commaKinds, List.intercalate_cons_cons, List.length_append, List.length_cons] at ih ⊢
      omega

/-- A closing mark goes on with nothing, and neither separates items nor starts one. -/
theorem closing_mark : ∀ close ∈ [")", "\x7d"],
    (Kind.op close).level < 1 ∧ "," ∉ [close] ∧ close ∉ ["-", "!", "("] := by decide

section Items

variable {α : Type} {item : Reader α} {depth : Nat} {close : String} {itemKinds : List (List Kind)} {found : List α}

theorem items_read (closes : close ∈ [")", "\x7d"]) (each : List.Forall₂ (ReadsItem item depth) itemKinds found)
    (nonempty : found ≠ []) {bound : Nat} {tokens rest : List Token}
    (spelled : tokens.map Token.kind = commaKinds itemKinds ++ [.op close]) (deep : (tokens ++ rest).length < depth)
    (enough : found.length ≤ bound) : items item close bound (tokens ++ rest) = .ok (found, rest) := by
  obtain ⟨close_level, noComma, _⟩ := closing_mark close closes
  induction each generalizing bound tokens with
  | nil => exact (nonempty rfl).elim
  | @cons firstKinds first otherKinds others here later ih =>
    obtain ⟨bound, rfl⟩ : ∃ n, bound = n + 1 := Nat.exists_eq_add_one.2 (Nat.lt_of_lt_of_le (Nat.succ_pos _) enough)
    cases later with
    | nil =>
      have single : commaKinds [firstKinds] ++ [Kind.op close] = firstKinds ++ [Kind.op close] := by simp [commaKinds]
      rw [single] at spelled
      obtain ⟨before, start, stop, after, rfl, spelled_first, last⟩ := exists_split spelled
      obtain rfl := List.map_eq_nil_iff.1 last
      rw [List.append_assoc] at deep ⊢
      have read := here.read spelled_first deep (stops_cons close_level)
      have ends : operator? [close] (⟨.op close, start, stop⟩ :: rest) = .ok (some close, rest) :=
        if_pos (List.mem_singleton_self _)
      exact (bind_ok read).trans (bind_ok ends)
    | @cons nextKinds next otherKinds others second third =>
      have split : commaKinds (firstKinds :: nextKinds :: otherKinds) ++ [Kind.op close] =
          firstKinds ++ Kind.op "," :: (commaKinds (nextKinds :: otherKinds) ++ [Kind.op close]) := by
        simp [commaKinds, List.intercalate_cons_cons]
      rw [split] at spelled
      obtain ⟨before, start, stop, after, rfl, spelled_first, spelled_others⟩ := exists_split spelled
      obtain ⟨deep_first, deep_others⟩ := length_sides (Nat.le_of_lt deep)
      rw [List.append_assoc] at deep ⊢
      have comma_level : (Kind.op ",").level < 1 := by decide
      have read := here.read spelled_first deep (stops_cons comma_level)
      have notClose : operator? [close] (⟨.op ",", start, stop⟩ :: (after ++ rest)) =
          .ok (none, ⟨.op ",", start, stop⟩ :: (after ++ rest)) := if_neg noComma
      have comma : expect "," (⟨.op ",", start, stop⟩ :: (after ++ rest)) = .ok ((), after ++ rest) := rfl
      have tail := ih (List.cons_ne_nil _ _) spelled_others deep_others (Nat.le_of_succ_le_succ enough)
      exact (bind_ok read).trans ((bind_ok notClose).trans ((bind_ok comma).trans (bind_ok tail)))

theorem bracketed_read (closes : close ∈ [")", "\x7d"]) (each : List.Forall₂ (ReadsItem item depth) itemKinds found)
    {tokens rest : List Token} (spelled : tokens.map Token.kind = commaKinds itemKinds ++ [.op close])
    (deep : (tokens ++ rest).length < depth) : bracketed item close (tokens ++ rest) = .ok (found, rest) := by
  cases each with
  | nil =>
    obtain ⟨⟨_, start, stop⟩, after, rfl, rfl, last⟩ := List.map_eq_cons_iff.1 spelled
    obtain rfl := List.map_eq_nil_iff.1 last
    have ends : operator? [close] (⟨.op close, start, stop⟩ :: rest) = .ok (some close, rest) :=
      if_pos (List.mem_singleton_self _)
    exact bind_ok ends
  | @cons firstKinds first otherKinds others here later =>
    obtain ⟨kind, head, opens⟩ := here.opening
    have whole : kind ∈ (commaKinds (firstKinds :: otherKinds) ++ [Kind.op close]).head? := by
      obtain ⟨more, rfl⟩ := List.head?_eq_some_iff.1 head
      cases later <;> simp [commaKinds, List.intercalate_cons_cons]
    obtain ⟨start, stop, more, same⟩ := head_spelled spelled whole
    have notClose : operator? [close] (tokens ++ rest) = .ok (none, tokens ++ rest) := by
      rcases operator?_cases [close] (tokens ++ rest) with none | ⟨text, _, _, _, member, mark, _⟩
      · exact none
      · rw [same] at mark
        cases mark
        obtain rfl := List.mem_singleton.1 member
        exact ((closing_mark text closes).2.2 (opens text rfl)).elim
    have length : (first :: others).length ≤ (tokens ++ rest).length + 1 := by
      have count := length_le_commaKinds (firstKinds :: otherKinds)
      have same := congrArg List.length spelled
      simp only [List.length_map, List.length_append, List.length_cons, List.length_nil] at same count ⊢
      have pairs := later.length_eq
      omega
    rw [bracketed, bind_ok notClose]
    exact items_read closes (.cons here later) (List.cons_ne_nil _ _) spelled deep length

end Items

/-! ### Constants, names and calls -/

theorem reads_token {kind : Kind} (given : ∀ {nested : Reader (Expr Float)} {start stop : Nat} {rest : List Token}, Stops 9 rest →
    primary nested (⟨kind, start, stop⟩ :: rest) = .ok (e, rest)) (unsigned : kind ≠ .op "-") : Reads 8 [kind] e := by
  have reads : Reads 9 [kind] e := by
    refine ⟨fun {depth bound tokens rest} spelled _ _ stops => ?_⟩
    obtain ⟨⟨_, start, stop⟩, others, rfl, rfl, last⟩ := List.map_eq_cons_iff.1 spelled
    obtain rfl := List.map_eq_nil_iff.1 last
    exact given stops
  exact reads.signed ⟨kind, rfl, unsigned⟩

theorem reads_denoted {kind : Kind} {value : Value Float} (denotes : kind.Denotes value) : Reads 8 [kind] (.const value) := by
  cases denotes with
  | int n => exact reads_token (fun _ => rfl) nofun
  | num x => exact reads_token (fun _ => rfl) nofun

theorem reads_written {value : Value Float} {text : List Char} (written : Written value text kinds) :
    Reads 8 kinds (.const value) := by
  cases written with
  | bool b => cases b <;> exact reads_token (fun _ => rfl) nofun
  | sym plain => exact reads_token (fun _ => rfl) nofun
  | number _ _ _ denotes => exact reads_denoted denotes
  | negative _ _ _ denotes turns => exact turns ▸ (reads_denoted denotes).minus

theorem reads_var {name : String} (notTrue : name ≠ "true") (notFalse : name ≠ "false") : Reads 8 [.name name] (.var name) := by
  refine reads_token (fun {nested start stop rest} stops => ?_) nofun
  unfold primary
  split
  · next absurd => cases absurd
  · next token others same =>
    cases same
    simp only
    split
    · exact absurd (stops _ rfl) (Nat.lt_irrefl 9)
    · rfl

theorem opening_written {value : Value Float} {text : List Char} (written : Written value text kinds) : Opening kinds := by
  cases written with
  | bool | sym => exact ⟨_, rfl, nofun⟩
  | number _ _ _ denotes => cases denotes <;> exact ⟨_, rfl, nofun⟩
  | negative => exact ⟨_, rfl, by rintro _ ⟨⟩; decide⟩

theorem unnegated_written {value : Value Float} {text : List Char} (written : Written value text kinds) : Unnegated kinds := by
  cases written with
  | bool b =>
    refine ⟨_, rfl, nofun, ?_⟩
    rintro name ⟨⟩
    cases b <;> decide
  | sym => exact ⟨_, rfl, nofun, nofun⟩
  | number _ _ _ denotes => cases denotes <;> exact ⟨_, rfl, nofun, nofun⟩
  | negative => exact ⟨_, rfl, by simp, nofun⟩

/-- The members of a set are read as they are written. -/
theorem readsItem_setMember {value : Value Float} (legible : value.Legible) (depth : Nat) :
    ReadsItem (setMember (reader depth)) depth value.kinds value where
  opening := opening_written legible
  read spelled deep stops := by
    have read : Expr.signed (Expr.reader depth) _ = _ :=
      (reads_written legible).read spelled deep.le deep.le (stops.mono (by decide))
    rw [setMember, bind_ok read]
    rfl

/-! ### Printed expressions -/

theorem opening_operand {first : List Kind} (opening : Opening first) (needed : Bool) (others : List Kind) :
    Opening (enclose needed first ++ others) := by
  cases needed with
  | false =>
    obtain ⟨kind, here, opens⟩ := opening
    obtain ⟨more, rfl⟩ := List.head?_eq_some_iff.1 here
    exact ⟨kind, rfl, opens⟩
  | true => exact ⟨.op "(", rfl, by rintro _ ⟨⟩; decide⟩

theorem opening_kinds : (e : Expr Float) → e.Legible → Opening e.kinds
  | .const value, legible => opening_written (legible value (by simp [values]))
  | .var _, _ => ⟨_, rfl, nofun⟩
  | .neg _, _ => ⟨_, rfl, by rintro _ ⟨⟩; decide⟩
  | .not _, _ => ⟨_, rfl, by rintro _ ⟨⟩; decide⟩
  | .arith _ left _, legible => opening_operand (opening_kinds left (List.forall_mem_append.1 legible).1) ..
  | .compare _ left _, legible => opening_operand (opening_kinds left (List.forall_mem_append.1 legible).1) ..
  | .logic op left _, legible => by
    have opening := opening_kinds left (List.forall_mem_append.1 legible).1
    cases op <;> exact opening_operand opening ..
  | .member element _, legible => opening_operand (opening_kinds element (List.forall_mem_append.1 legible).1) ..
  | .call _ _, _ => ⟨_, rfl, nofun⟩

theorem unnegated_operand {level : Nat} (high : 5 ≤ level) (unnegated : 5 ≤ e.precedence → ¬e.leads → Unnegated e.kinds)
    (free : ¬(level ≤ e.precedence ∧ e.leads)) (others : List Kind) :
    Unnegated (enclose (e.precedence < level) e.kinds ++ others) := by
  by_cases below : e.precedence < level
  · rw [decide_eq_true below]
    exact ⟨.op "(", rfl, by simp, nofun⟩
  · rw [decide_eq_false below]
    have tight := Nat.not_lt.1 below
    obtain ⟨kind, here, different⟩ := unnegated (high.trans tight) fun leads => free ⟨tight, leads⟩
    obtain ⟨more, same⟩ := List.head?_eq_some_iff.1 here
    exact ⟨kind, by simp [enclose, same], different⟩

theorem unnegated_kinds : (e : Expr Float) → e.Legible → 5 ≤ e.precedence → ¬e.leads → Unnegated e.kinds
  | .const value, legible, _, _ => unnegated_written (legible value (by simp [values]))
  | .var name, _, _, free => ⟨_, rfl, by simp, by rintro _ ⟨⟩; exact free⟩
  | .neg _, _, _, _ => ⟨_, rfl, by simp, by simp⟩
  | .not _, _, tight, _ => absurd tight (by simp [precedence])
  | .arith op left right, legible, tight, free =>
    unnegated_operand tight (unnegated_kinds left (List.forall_mem_append.1 legible).1) free _
  | .compare _ left _, legible, _, free =>
    unnegated_operand (by decide) (unnegated_kinds left (List.forall_mem_append.1 legible).1) free _
  | .logic op _ _, _, tight, _ => by cases op <;> exact absurd tight (by simp [precedence])
  | .member element _, legible, _, free =>
    unnegated_operand (by decide) (unnegated_kinds element (List.forall_mem_append.1 legible).1) free _
  | .call func _, _, _, _ => by
    refine ⟨_, rfl, by simp, ?_⟩
    rintro _ ⟨⟩
    cases func <;> decide

theorem primary_call {nested : Reader (Expr Float)} {func : Func} {tokens : List Token} {start stop start' stop' : Nat} :
    primary nested (⟨.name func.name, start, stop⟩ :: ⟨.op "(", start', stop'⟩ :: tokens) =
      (do return .call func (← bracketed nested ")") : Reader (Expr Float)) tokens := by
  cases func <;> rfl

theorem Reads.member {element : Expr Float} {set : List (Value Float)} {elementKinds : List Kind}
    (first : Reads 6 elementKinds element) (legible : ∀ value ∈ set, value.Legible) :
    Reads 5 (elementKinds ++ .name "in" :: (.op "\x7b" :: commaKinds (set.map Value.kinds) ++ [.op "\x7d"]))
      (.member element set) := by
  refine ⟨fun {depth bound tokens rest} spelled deep enough stops => ?_⟩
  obtain ⟨before, start, stop, others, rfl, spelled_element, spelled_set⟩ := exists_split spelled
  obtain ⟨⟨_, start', stop'⟩, after, rfl, rfl, spelled_members⟩ := List.map_eq_cons_iff.1 spelled_set
  obtain ⟨deep_element, deep_set⟩ := length_sides deep
  have level : (Kind.name "in").level < 6 := by decide
  have read_element : additive (Expr.reader depth) _ = _ :=
    first.read spelled_element deep_element deep_element (stops_cons level)
  have word : keyword? "in" (⟨.name "in", start, stop⟩ :: (⟨.op "\x7b", start', stop'⟩ :: after ++ rest)) =
      .ok (true, ⟨.op "\x7b", start', stop'⟩ :: after ++ rest) := rfl
  have opened : expect "\x7b" (⟨.op "\x7b", start', stop'⟩ :: after ++ rest) = .ok ((), after ++ rest) := rfl
  have each : List.Forall₂ (ReadsItem (setMember (Expr.reader depth)) depth) (set.map Value.kinds) set := by
    rw [List.forall₂_map_left_iff]
    exact List.forall₂_same.2 fun value member => readsItem_setMember (legible value member) depth
  have members := bracketed_read (by decide) each spelled_members (Nat.lt_of_succ_lt deep_set)
  change Expr.comparison (Expr.reader depth) _ = _
  rw [List.append_assoc, Expr.comparison]
  exact (bind_ok read_element).trans ((bind_ok word).trans ((bind_ok opened).trans (bind_ok members)))

theorem Reads.call {func : Func} {args : List (Expr Float)} {argKinds : List (List Kind)}
    (each : ∀ depth, List.Forall₂ (ReadsItem (Expr.reader depth) depth) argKinds args) :
    Reads 8 (.name func.name :: (.op "(" :: commaKinds argKinds ++ [.op ")"])) (.call func args) := by
  have reads : Reads 9 (.name func.name :: (.op "(" :: commaKinds argKinds ++ [.op ")"])) (.call func args) := by
    refine ⟨fun {depth bound tokens rest} spelled deep enough stops => ?_⟩
    obtain ⟨⟨_, start, stop⟩, others, rfl, rfl, spelled_others⟩ := List.map_eq_cons_iff.1 spelled
    obtain ⟨⟨_, start', stop'⟩, after, rfl, rfl, spelled_args⟩ := List.map_eq_cons_iff.1 spelled_others
    have read := bracketed_read (by decide) (each depth) spelled_args (Nat.lt_of_succ_lt deep)
    exact primary_call.trans (bind_ok read)
  exact reads.signed ⟨_, rfl, nofun⟩

theorem bounds_arith (op : ArithOp) (left right : Expr Float) : (arith op left right).precedence ∈ [2, 3, 6, 7] ∧
    4 < (arith op left right).precedence ∧ (arith op left right).precedence + 1 ≤ 8 := by
  cases op <;> simp [precedence]

theorem bounds_logic {op : LogicOp} (notImplies : op ≠ .implies) (left right : Expr Float) :
    (logic op left right).precedence ∈ [2, 3, 6, 7] ∧ 1 ≤ (logic op left right).precedence ∧
      (logic op left right).precedence + 1 ≤ 8 := by
  cases op <;> simp [precedence] at notImplies ⊢

mutual

/-- A printed expression is read from its tokens. -/
theorem readable : (e : Expr Float) → e.Printable → e.Legible → Readable e
  | .const value, _, legible =>
    readable_of_reads 8 rfl (by decide) (fun _ => reads_written (legible value (by simp [values])))
      (unnegated_kinds _ legible)
  | .var _, printable, legible =>
    readable_of_reads 8 rfl (by decide) (fun _ => reads_var printable.2.1 printable.2.2) (unnegated_kinds _ legible)
  | .neg operand, printable, legible => by
    have inner := readable operand printable.2.2 legible
    have reads := (inner.tight_operand (by decide) (by decide) printable.2.1).minus
    have turns : turnSign operand = .neg operand := by
      have without := printable.1
      unfold turnSign
      split
      · exact (without trivial).elim
      · exact (without trivial).elim
      · rfl
    rw [turns] at reads
    exact readable_of_reads 8 rfl (by decide) (fun _ => reads) (unnegated_kinds _ legible)
  | .not operand, printable, legible => by
    have inner := readable operand printable.2 legible
    have reads : Reads 5 _ _ := inner.tight_operand (by decide) (by decide) fun _ => printable.1
    have unnegated : Unnegated (enclose (operand.precedence < 5) operand.kinds) := by
      have whole := unnegated_operand (le_refl 5) (unnegated_kinds operand legible) (fun leads => printable.1 leads.2) []
      rwa [List.append_nil] at whole
    exact readable_of_reads 4 rfl (by decide) (fun _ => (reads.negation unnegated).exclamation)
      (unnegated_kinds _ legible)
  | .arith op left right, printable, legible => by
    obtain ⟨first, second⟩ := List.forall_mem_append.1 legible
    have left_readable := readable left printable.1.2 first
    have right_readable := readable right printable.2.2 second
    obtain ⟨chain, tight, high⟩ := bounds_arith op left right
    have begins := (left_readable.first_operand chain printable.1.1 fun below => absurd below (Nat.not_le.2 tight)).arith
      (right_readable.tight_operand (Nat.lt_succ_of_lt tight) high printable.2.1)
    exact readable_of_begins (by omega) chain (fun _ => begins) (unnegated_kinds _ legible)
  | .compare op left right, printable, legible => by
    obtain ⟨first, second⟩ := List.forall_mem_append.1 legible
    have reads_left := (readable left printable.1.2 first).tight_operand (by decide) (by decide) printable.1.1
    have reads_right := (readable right printable.2.2 second).tight_operand (by decide) (by decide) printable.2.1
    exact readable_of_reads 5 rfl (by decide) (fun _ => reads_left.compare reads_right) (unnegated_kinds _ legible)
  | .logic op left right, printable, legible => by
    obtain ⟨first, second⟩ := List.forall_mem_append.1 legible
    have left_readable := readable left printable.1.2 first
    have right_readable := readable right printable.2.2 second
    have first_free (level : Nat) : left.Inside level ∧ (level ≤ 4 → ¬left.leads) := ⟨fun _ => printable.1.1, fun _ => printable.1.1⟩
    have second_free (level : Nat) : right.Inside level ∧ (level ≤ 4 → ¬right.leads) := ⟨fun _ => printable.2.1, fun _ => printable.2.1⟩
    by_cases implies : op = .implies
    · subst implies
      have reads_left := left_readable.operand (by decide) (by decide) (first_free 2).1 (first_free 2).2
      have reads_right := right_readable.operand (by decide) (by decide) (second_free 1).1 (second_free 1).2
      exact readable_of_reads 1 rfl (by decide) (fun _ => reads_left.implies reads_right) (unnegated_kinds _ legible)
    · obtain ⟨chain, low, high⟩ := bounds_logic implies left right
      have begins := (left_readable.first_operand chain (first_free _).1 (first_free _).2).logic implies
        (right_readable.operand (Nat.succ_pos _) high (second_free _).1 (second_free _).2)
      refine readable_of_begins (by omega) chain (fun _ => ?_) (unnegated_kinds _ legible)
      cases op with
      | implies => exact (implies rfl).elim
      | and => exact begins
      | or => exact begins
  | .member element set, printable, legible => by
    obtain ⟨first, members⟩ := List.forall_mem_append.1 legible
    have reads := (readable element printable.1.2 first).tight_operand (by decide) (by decide) printable.1.1
    exact readable_of_reads 5 rfl (by decide) (fun _ => reads.member members) (unnegated_kinds _ legible)
  | .call func args, printable, legible =>
    readable_of_reads 8 rfl (by decide) (fun _ => .call fun depth => readable_args depth args printable legible)
      (unnegated_kinds _ legible)

theorem readable_args (depth : Nat) : (args : List (Expr Float)) → PrintableArgs args → (∀ value ∈ valuesOf args, value.Legible) →
    List.Forall₂ (ReadsItem (reader depth) depth) (kindsOf args) args
  | [], _, _ => .nil
  | e :: rest, printable, legible => by
    obtain ⟨here, others⟩ := List.forall_mem_append.1 legible
    have reads := (readable e printable.1.2 here).reads 1 (by decide) (by decide) (one_le_precedence e) fun _ => printable.1.1
    exact .cons ⟨fun spelled deep stops => reads.reader spelled deep stops, opening_kinds e here⟩
      (readable_args depth rest printable.2 others)

end

end Expr

end Deliberation
