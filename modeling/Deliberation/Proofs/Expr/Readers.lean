import Deliberation.Expr.Parser
import Deliberation.Proofs.Expr.Lexing
import Deliberation.Proofs.Lists

/-!
Readers. What a reader gives is said by a property of it and of the tokens it was read from; a reader that
is put together from others gives what follows from what these give.
-/

namespace Deliberation.Expr

open Token Reader

namespace Reader

theorem bind_eq_ok {α β : Type} {first : Reader α} {next : α → Reader β} {tokens rest : List Token} {b : β}
    (done : (first >>= next) tokens = .ok (b, rest)) :
    ∃ a between, first tokens = .ok (a, between) ∧ next a between = .ok (b, rest) := by
  change (first tokens >>= fun found => next found.1 found.2) = _ at done
  cases read : first tokens with
  | error fault => rw [read] at done; cases done
  | ok found => exact ⟨found.1, found.2, rfl, by rw [read] at done; exact done⟩

theorem bind_ok {α β : Type} {first : Reader α} {next : α → Reader β} {tokens between : List Token} {a : α}
    (read : first tokens = .ok (a, between)) : (first >>= next) tokens = next a between := by
  change (first tokens >>= fun found => next found.1 found.2) = _
  rw [read]
  rfl

theorem get_bind {β : Type} {next : List Token → Reader β} {tokens : List Token} :
    ((get : Reader (List Token)) >>= next) tokens = next tokens tokens := rfl

/-- What a reader takes is the front of the tokens, and what it gives is so and so, where the tokens are sound. -/
def Gives {α : Type} (reader : Reader α) (holds : List Token → α → Prop) : Prop :=
  ∀ tokens a rest, (∀ token ∈ tokens, token.kind.Sound) → reader tokens = .ok (a, rest) → rest <:+ tokens ∧ holds tokens a

variable {α : Type} {holds : List Token → α → Prop}

theorem Gives.bind {β : Type} {first : Reader α} {next : α → Reader β} {whole : List Token → β → Prop}
    (gives : Gives first holds)
    (goes : ∀ tokens a, holds tokens a → Gives (next a) fun _ b => whole tokens b) : Gives (first >>= next) whole := by
  intro tokens b rest sound done
  obtain ⟨a, between, read, done⟩ := bind_eq_ok done
  obtain ⟨suffix, holds⟩ := gives tokens a between sound read
  obtain ⟨further, whole⟩ := goes tokens a holds between b rest (fun token member => sound token (suffix.subset member)) done
  exact ⟨further.trans suffix, whole⟩

theorem gives_pure {a : α} (here : ∀ tokens, holds tokens a) : Gives (pure a) holds := by
  intro tokens b rest _ done
  cases done
  exact ⟨List.suffix_rfl, here tokens⟩

theorem gives_fail {fault : ExprFault} : Gives (fail fault : Reader α) holds := by
  intro tokens b rest _ done
  cases done

theorem gives_get : Gives (get : Reader (List Token)) fun tokens found => found = tokens := by
  intro tokens b rest _ done
  cases done
  exact ⟨List.suffix_rfl, rfl⟩

theorem Gives.imp {reader : Reader α} {other : List Token → α → Prop} (gives : Gives reader holds)
    (imp : ∀ tokens a, holds tokens a → other tokens a) : Gives reader other := by
  intro tokens a rest sound done
  obtain ⟨suffix, here⟩ := gives tokens a rest sound done
  exact ⟨suffix, imp tokens a here⟩

theorem operator?_cases (choices : List String) (tokens : List Token) :
    operator? choices tokens = .ok (none, tokens) ∨
      ∃ text start stop rest, text ∈ choices ∧ tokens = ⟨.op text, start, stop⟩ :: rest ∧
        operator? choices tokens = .ok (some text, rest) := by
  unfold operator?
  split
  · next text start stop rest =>
    split
    · next member => exact .inr ⟨text, start, stop, rest, member, rfl, rfl⟩
    · exact .inl rfl
  · exact .inl rfl

theorem gives_operator? (choices : List String) : Gives (operator? choices) fun _ found => ∀ text ∈ found, text ∈ choices := by
  intro tokens found rest _ done
  rcases operator?_cases choices tokens with none | ⟨text, start, stop, after, member, rfl, taken⟩
  · rw [none] at done
    cases done
    exact ⟨List.suffix_rfl, by simp⟩
  · rw [taken] at done
    cases done
    exact ⟨List.suffix_cons .., by simpa using member⟩

theorem keyword?_cases (word : String) (tokens : List Token) :
    keyword? word tokens = .ok (false, tokens) ∨
      ∃ name start stop rest, Text.isWord word name.toList ∧ tokens = ⟨.name name, start, stop⟩ :: rest ∧
        keyword? word tokens = .ok (true, rest) := by
  unfold keyword?
  split
  · next name start stop rest =>
    split
    · next same => exact .inr ⟨name, start, stop, rest, same, rfl, rfl⟩
    · exact .inl rfl
  · exact .inl rfl

/-- A reader takes the next token or leaves it. -/
def Peeks (sign? : Reader Bool) : Prop :=
  ∀ tokens, sign? tokens = .ok (false, tokens) ∨ ∃ token rest, tokens = token :: rest ∧ sign? tokens = .ok (true, rest)

theorem peeks_keyword? (word : String) : Peeks (keyword? word) := by
  intro tokens
  rcases keyword?_cases word tokens with none | ⟨name, start, stop, rest, _, same, taken⟩
  · exact .inl none
  · exact .inr ⟨_, rest, same, taken⟩

theorem peeks_operator? (choices : List String) : Peeks do return (← operator? choices).isSome := by
  intro tokens
  rcases operator?_cases choices tokens with none | ⟨text, start, stop, rest, _, same, taken⟩
  · exact .inl (bind_ok none)
  · exact .inr ⟨_, rest, same, bind_ok taken⟩

theorem peeks_connective? (sign word : String) : Peeks (connective? sign word) := by
  intro tokens
  rcases operator?_cases [sign] tokens with none | ⟨text, start, stop, rest, _, same, taken⟩
  · rw [connective?, bind_ok none]
    exact peeks_keyword? word tokens
  · exact .inr ⟨_, rest, same, bind_ok taken⟩

theorem Peeks.gives {sign? : Reader Bool} (peeks : Peeks sign?) : Gives sign? fun _ _ => True := by
  intro tokens found rest _ done
  rcases peeks tokens with none | ⟨token, after, rfl, taken⟩
  · rw [none] at done
    cases done
    exact ⟨List.suffix_rfl, trivial⟩
  · rw [taken] at done
    cases done
    exact ⟨List.suffix_cons .., trivial⟩

theorem gives_expect (text : String) : Gives (expect text) fun _ _ => True := by
  refine (gives_operator? [text]).bind fun _ found _ => ?_
  cases found with
  | none => exact gives_fail
  | some => exact gives_pure fun _ => trivial

theorem countSigns_eq_ok {sign? : Reader Bool} (peeks : Peeks sign?) {bound count : Nat} {tokens rest : List Token}
    (enough : tokens.length ≤ bound) (counted : countSigns sign? bound tokens = .ok (count, rest)) :
    rest <:+ tokens ∧ (count = 0 → rest = tokens) ∧ sign? rest = .ok (false, rest) := by
  induction bound generalizing tokens count with
  | zero =>
    obtain rfl := List.length_eq_zero_iff.1 (Nat.le_zero.1 enough)
    cases counted
    refine ⟨List.suffix_rfl, fun _ => rfl, ?_⟩
    rcases peeks [] with none | ⟨_, _, absurd, _⟩
    · exact none
    · cases absurd
  | succ bound ih =>
    obtain ⟨found, between, read, goes⟩ := bind_eq_ok counted
    rcases peeks tokens with none | ⟨token, later, rfl, taken⟩
    · rw [none] at read
      cases read
      cases goes
      exact ⟨List.suffix_rfl, fun _ => rfl, none⟩
    · rw [taken] at read
      cases read
      obtain ⟨others, after, counted, done⟩ := bind_eq_ok goes
      cases done
      obtain ⟨suffix, _, stops⟩ := ih (Nat.le_of_succ_le_succ enough) counted
      exact ⟨suffix.trans (List.suffix_cons ..), nofun, stops⟩

theorem gives_chain {β : Type} {next? : Reader (Option β)} {operand : Reader α} {combine : β → α → α → α} {known : β → Prop}
    {among : α → Prop} (holds : List Token → α → Prop) (start : List Token) (gives_next : Gives next? fun _ found => ∀ op ∈ found, known op)
    (gives_operand : Gives operand fun _ a => among a)
    (combines : ∀ op left right, known op → among right → holds start left → holds start (combine op left right))
    (bound : Nat) {left : α} (first : holds start left) : Gives (chain next? operand combine bound left) fun _ => holds start := by
  induction bound generalizing left with
  | zero => exact gives_pure fun _ => first
  | succ bound ih =>
    refine gives_next.bind fun _ found known => ?_
    cases found with
    | none => exact gives_pure fun _ => first
    | some op =>
      refine gives_operand.bind fun _ right among => ?_
      exact ih (combines op left right (known op rfl) among first)

theorem gives_items {item : Reader α} {among : α → Prop} (gives : Gives item fun _ a => among a) (close : String) (bound : Nat) :
    Gives (items item close bound) fun _ found => ∀ a ∈ found, among a := by
  induction bound with
  | zero => exact gives_fail
  | succ bound ih =>
    refine gives.bind fun _ first here => (gives_operator? [close]).bind fun _ found _ => ?_
    cases found with
    | some => exact gives_pure fun _ => by simpa using here
    | none =>
      refine (gives_expect ",").bind fun _ _ _ => ih.bind fun _ others later => ?_
      exact gives_pure fun _ => List.forall_mem_cons.2 ⟨here, later⟩

theorem gives_bracketed {item : Reader α} {among : α → Prop} (gives : Gives item fun _ a => among a) (close : String) :
    Gives (bracketed item close) fun _ found => ∀ a ∈ found, among a := by
  refine (gives_operator? [close]).bind fun _ found _ => ?_
  cases found with
  | some => exact gives_pure fun _ => by simp
  | none => exact gives_get.bind fun _ tokens _ => gives_items gives close _

end Reader

/-- Takes the sign of one of some operations, if it comes next. -/
def arithOp? (operations : List ArithOp) : Reader (Option ArithOp) := do
  match ← operator? (operations.map ArithOp.sign) with
  | none => return none
  | some sign => return operations.find? (·.sign == sign)

theorem arithmetic_eq (operand : Reader (Expr Float)) (operations : List ArithOp) :
    arithmetic operand operations = (do
      let first ← operand
      chain (arithOp? operations) operand .arith (← get).length first) := rfl

/-- Takes the sign of a connective, or the word for it, if it comes next. -/
def logicOp? (op : LogicOp) (word : String) : Reader (Option LogicOp) := do
  if ← connective? op.sign word then return some op else return none

theorem connected_eq (op : LogicOp) (word : String) (operand : Reader (Expr Float)) :
    connected op word operand = (do
      let first ← operand
      chain (logicOp? op word) operand .logic (← get).length first) := rfl

theorem gives_arithOp? (operations : List ArithOp) :
    Gives (arithOp? operations) fun _ found => ∀ op ∈ found, op ∈ operations := by
  refine (gives_operator? _).bind fun _ found _ => ?_
  cases found with
  | none => exact gives_pure fun _ => by simp
  | some sign => exact gives_pure fun _ op found => List.mem_of_find?_eq_some found

theorem gives_logicOp? (op : LogicOp) (word : String) : Gives (logicOp? op word) fun _ found => ∀ other ∈ found, other = op := by
  refine (peeks_connective? op.sign word).gives.bind fun _ found _ => ?_
  cases found <;> exact gives_pure fun _ => by simp

/-- A text is read when its tokens are and none of them is left. -/
theorem parse_eq_ok_iff {text : String} {e : Expr Float} :
    parse text = .ok e ↔
      ∃ tokens, tokenize text.toList = .ok tokens ∧ reader (tokens.length + 1) tokens = .ok (e, []) := by
  constructor
  · intro parsed
    obtain ⟨tokens, tokenized, read⟩ := Lists.bind_eq_ok (Lists.mapError_eq_ok parsed)
    refine ⟨tokens, tokenized, ?_⟩
    split at read
    · cases read
    · next found _ =>
      cases read
      assumption
    · cases read
  · rintro ⟨tokens, tokenized, read⟩
    simp [parse, Expr.read, tokenized, read, bind, Except.bind, Except.mapError]

end Deliberation.Expr
