import Deliberation.Proofs.Expr.Readers
import Deliberation.Proofs.Expr.Spans

/-!
Where a text is refused. A reader leaves the end of the tokens that it was given, with a fault as without
one; so the byte that a refusal names is the first of a token, the first that has no token, or the end of
the text.
-/

namespace Deliberation.Expr

open Token Reader Text

namespace Reader

/-- The tokens at whose front a reader stops. -/
def left {α : Type} : Except (ExprFault × List Token) (α × List Token) → List Token
  | .ok (_, rest) => rest
  | .error (_, rest) => rest

/-- A reader stops in the tokens that it was given, be it at a fault. -/
def Advances {α : Type} (reader : Reader α) : Prop := ∀ tokens, left (reader tokens) <:+ tokens

variable {α β : Type}

theorem Advances.bind {first : Reader α} {next : α → Reader β} (advances : Advances first) (goes : ∀ a, Advances (next a)) :
    Advances (first >>= next) := by
  intro tokens
  have suffix := advances tokens
  cases read : first tokens with
  | error fault =>
    change left (first tokens >>= fun found => next found.1 found.2) <:+ _
    rw [read] at suffix ⊢
    exact suffix
  | ok found =>
    rw [bind_ok read]
    rw [read] at suffix
    exact (goes found.1 found.2).trans suffix

theorem advances_pure (a : α) : Advances (pure a) := fun _ => List.suffix_rfl

theorem advances_fail (fault : ExprFault) : Advances (fail fault : Reader α) := fun _ => List.suffix_rfl

theorem advances_get : Advances (get : Reader (List Token)) := fun _ => List.suffix_rfl

theorem advances_operator? (choices : List String) : Advances (operator? choices) := by
  intro tokens
  rcases operator?_cases choices tokens with none | ⟨text, start, stop, rest, _, rfl, taken⟩
  · rw [none]
    exact List.suffix_rfl
  · rw [taken]
    exact List.suffix_cons ..

theorem Peeks.advances {sign? : Reader Bool} (peeks : Peeks sign?) : Advances sign? := by
  intro tokens
  rcases peeks tokens with none | ⟨token, rest, rfl, taken⟩
  · rw [none]
    exact List.suffix_rfl
  · rw [taken]
    exact List.suffix_cons ..

theorem advances_expect (text : String) : Advances (expect text) := by
  refine (advances_operator? [text]).bind fun found => ?_
  cases found with
  | none => exact advances_fail _
  | some => exact advances_pure _

theorem Peeks.advances_countSigns {sign? : Reader Bool} (peeks : Peeks sign?) (bound : Nat) :
    Advances (countSigns sign? bound) := by
  induction bound with
  | zero => exact advances_pure _
  | succ bound ih =>
    refine peeks.advances.bind fun found => ?_
    cases found with
    | false => exact advances_pure _
    | true => exact ih.bind fun _ => advances_pure _

theorem Advances.chain {next? : Reader (Option β)} {operand : Reader α} (next : Advances next?) (advances : Advances operand)
    (combine : β → α → α → α) (bound : Nat) (first : α) : Advances (chain next? operand combine bound first) := by
  induction bound generalizing first with
  | zero => exact advances_pure _
  | succ bound ih =>
    refine next.bind fun found => ?_
    cases found with
    | none => exact advances_pure _
    | some => exact advances.bind fun _ => ih _

theorem Advances.items {item : Reader α} (advances : Advances item) (close : String) (bound : Nat) :
    Advances (items item close bound) := by
  induction bound with
  | zero => exact advances_fail _
  | succ bound ih =>
    refine advances.bind fun _ => (advances_operator? _).bind fun found => ?_
    cases found with
    | some => exact advances_pure _
    | none => exact (advances_expect ",").bind fun _ => ih.bind fun _ => advances_pure _

theorem Advances.bracketed {item : Reader α} (advances : Advances item) (close : String) : Advances (bracketed item close) := by
  refine (advances_operator? _).bind fun found => ?_
  cases found with
  | some => exact advances_pure _
  | none => exact advances_get.bind fun _ => advances.items close _

end Reader

/-! ### The levels -/

section Levels

variable {nested operand : Reader (Expr Float)} (advances : Advances nested)

theorem advances_arithmetic (advances : Advances operand) (operations : List ArithOp) :
    Advances (arithmetic operand operations) := by
  have next : Advances (arithOp? operations) := by
    refine (advances_operator? _).bind fun found => ?_
    cases found <;> exact advances_pure _
  rw [arithmetic_eq]
  exact advances.bind fun _ => advances_get.bind fun _ => next.chain advances _ _ _

theorem advances_connected (advances : Advances operand) (op : LogicOp) (word : String) :
    Advances (connected op word operand) := by
  have next : Advances (logicOp? op word) := by
    refine (peeks_connective? _ _).advances.bind fun found => ?_
    cases found <;> exact advances_pure _
  rw [connected_eq]
  exact advances.bind fun _ => advances_get.bind fun _ => next.chain advances _ _ _

include advances

theorem advances_primary : Advances (primary nested) := by
  intro tokens
  unfold primary
  split
  · exact List.suffix_rfl
  · next token rest =>
    have later {other : List Token} (suffix : other <:+ rest) : other <:+ token :: rest :=
      suffix.trans (List.suffix_cons ..)
    split
    · exact later List.suffix_rfl
    · exact later List.suffix_rfl
    · exact later List.suffix_rfl
    · exact later ((advances.bind fun _ => (advances_expect ")").bind fun _ => advances_pure _) rest)
    · exact List.suffix_rfl
    · exact later List.suffix_rfl
    · exact later List.suffix_rfl
    · split
      · next start stop inside =>
        split
        · exact later List.suffix_rfl
        · exact later (((advances.bracketed ")").bind fun _ => advances_pure _) inside |>.trans (List.suffix_cons ..))
      · exact later List.suffix_rfl

theorem advances_signed : Advances (signed nested) :=
  advances_get.bind fun _ => ((peeks_operator? ["-"]).advances_countSigns _).bind fun _ =>
    (advances_primary advances).bind fun _ => advances_pure _

theorem advances_additive : Advances (additive nested) :=
  advances_arithmetic (advances_arithmetic (advances_signed advances) _) _

theorem advances_setMember : Advances (setMember nested) := by
  refine (advances_signed advances).bind fun e => ?_
  split
  · exact advances_pure _
  · exact advances_pure _
  · exact advances_fail _

theorem advances_comparison : Advances (comparison nested) := by
  refine (advances_additive advances).bind fun _ => (peeks_keyword? "in").advances.bind fun found => ?_
  cases found with
  | true =>
    exact (advances_expect "\x7b").bind fun _ => ((advances_setMember advances).bracketed "\x7d").bind fun _ => advances_pure _
  | false =>
    refine (advances_operator? _).bind fun found => ?_
    split
    · exact advances_pure _
    · exact (advances_additive advances).bind fun _ => advances_pure _

theorem advances_negation : Advances (negation nested) :=
  advances_get.bind fun _ => ((peeks_connective? "!" "not").advances_countSigns _).bind fun _ =>
    (advances_comparison advances).bind fun _ => advances_pure _

theorem advances_disjunction : Advances (disjunction nested) :=
  advances_connected (advances_connected (advances_negation advances) _ _) _ _

theorem advances_implication (bound : Nat) : Advances (implication nested bound) := by
  induction bound with
  | zero => exact advances_disjunction advances
  | succ bound ih =>
    refine (advances_disjunction advances).bind fun _ => (advances_operator? _).bind fun found => ?_
    cases found with
    | none => exact advances_pure _
    | some => exact ih.bind fun _ => advances_pure _

end Levels

theorem advances_reader (depth : Nat) : Advances (reader depth) := by
  induction depth with
  | zero => exact advances_fail _
  | succ depth ih => exact advances_get.bind fun _ => advances_implication ih _

/-! ### Texts -/

variable {text : String} {tokens rest : List Token}

theorem isBoundary_placeOf (covers : Covers text 0 tokens) (suffix : rest <:+ tokens) :
    IsBoundary text (placeOf text.toList rest) := by
  cases rest with
  | nil => exact (remains_none text).isBoundary
  | cons token others => exact (covers.boundaries token (suffix.subset List.mem_cons_self)).1

/-- The place at which reading finds a fault is between characters. -/
theorem isBoundary_of_read {fault : ExprFault} {offset : Nat} (failed : Expr.read text.toList = .error (fault, offset)) :
    IsBoundary text offset := by
  rw [Expr.read] at failed
  cases tokenized : tokenize text.toList with
  | error found =>
    rw [tokenized] at failed
    cases failed
    exact isBoundary_of_tokenize tokenized
  | ok tokens =>
    have covers := covers_of_tokenize tokenized
    have suffix := advances_reader (tokens.length + 1) tokens
    simp only [tokenized, bind, Except.bind] at failed
    split at failed
    · next fault rest read =>
      cases failed
      rw [read] at suffix
      exact isBoundary_placeOf covers suffix
    · cases failed
    · next e rest _ read =>
      cases failed
      rw [read] at suffix
      exact isBoundary_placeOf covers suffix

/-- Reading the tokens of a text byte by byte ends within a turn for each byte and cuts nothing out of the
text inside a character. The tokens cover the text up to blanks; and where a text is refused, the byte
that the refusal names is not inside a character. -/
theorem tokenize_covers (text : String) :
    walk text (bytes text).length 0 = some (tokenize text.toList) ∧
      (∀ tokens, tokenize text.toList = .ok tokens → Covers text 0 tokens) ∧
        ∀ error, parse text = .error error →
          ∃ fault offset, error = ⟨text, .expression fault offset⟩ ∧ IsBoundary text offset := by
  refine ⟨walk_eq_tokenize text, fun tokens => covers_of_tokenize, fun error failed => ?_⟩
  rw [parse] at failed
  cases read : Expr.read text.toList with
  | ok e =>
    rw [read] at failed
    cases failed
  | error found =>
    rw [read] at failed
    cases failed
    exact ⟨found.1, found.2, rfl, isBoundary_of_read read⟩

/-- A letter of two bytes, in a symbol and where it has no place. -/
theorem tokenize_covers_wide_letter :
    Covers "a <= 'é'" 0 [⟨.name "a", 0, 1⟩, ⟨.op "<=", 2, 4⟩, ⟨.sym "é", 5, 9⟩] ∧
      parse "'é' é" = .error ⟨"'é' é", .expression (.unexpectedCharacter 'é') 5⟩ ∧ IsBoundary "'é' é" 5 := by
  have refused : parse "'é' é" = .error ⟨"'é' é", .expression (.unexpectedCharacter 'é') 5⟩ := rfl
  obtain ⟨fault, offset, same, boundary⟩ := (tokenize_covers "'é' é").2.2 _ refused
  cases same
  exact ⟨(tokenize_covers "a <= 'é'").2.1 _ rfl, refused, boundary⟩

end Deliberation.Expr
