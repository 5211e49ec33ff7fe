import Deliberation.Proofs.Expr.Readers

/-!
What reading yields. An expression that was read can be printed: its names are names, its signs are in
its constants, and where a negation would be read no variable stands that is a word for one.
-/

namespace Deliberation

namespace Expr

open Token

/-- The text starts with a variable that would be read as a negation. -/
def leads : Expr Float → Prop
  | .var name => Text.isWord "not" name.toList
  | .arith op left right => (arith op left right).precedence ≤ left.precedence ∧ left.leads
  | .compare _ left _ => 6 ≤ left.precedence ∧ left.leads
  | .member element _ => 6 ≤ element.precedence ∧ element.leads
  | .logic .implies left _ => 2 ≤ left.precedence ∧ left.leads
  | .logic op left right => (logic op left right).precedence ≤ left.precedence ∧ left.leads
  | _ => False

/-- An operand in parentheses does not start with such a variable. -/
def Inside (level : Nat) (operand : Expr Float) : Prop := operand.precedence < level → ¬operand.leads

/-- A constant that takes a sign itself. -/
def TakesSign : Expr Float → Prop
  | .const (.int _) => True
  | .const (.num _) => True
  | _ => False

mutual

/-- An expression that comes back when its text is read, if its constants do. -/
def Printable : Expr Float → Prop
  | .const value => value ≠ .int Int64.minValue
  | .var name => Identifier name.toList ∧ name ≠ "true" ∧ name ≠ "false"
  | .neg operand => ¬operand.TakesSign ∧ operand.Inside 8 ∧ operand.Printable
  | .not operand => ¬operand.leads ∧ operand.Printable
  | .arith op left right =>
    (left.Inside (arith op left right).precedence ∧ left.Printable) ∧
      right.Inside ((arith op left right).precedence + 1) ∧ right.Printable
  | .compare _ left right => (left.Inside 6 ∧ left.Printable) ∧ right.Inside 6 ∧ right.Printable
  | .logic _ left right => (¬left.leads ∧ left.Printable) ∧ ¬right.leads ∧ right.Printable
  | .member element set => (element.Inside 6 ∧ element.Printable) ∧ ∀ value ∈ set, value ≠ .int Int64.minValue
  | .call _ args => PrintableArgs args

def PrintableArgs : List (Expr Float) → Prop
  | [] => True
  | e :: rest => (¬e.leads ∧ e.Printable) ∧ PrintableArgs rest

end

theorem printableArgs_iff {args : List (Expr Float)} : PrintableArgs args ↔ ∀ e ∈ args, ¬e.leads ∧ e.Printable := by
  induction args with
  | nil => simp [PrintableArgs]
  | cons e rest ih => rw [PrintableArgs, ih, List.forall_mem_cons]

/-- What is read where a negation may stand. -/
structure Free (e : Expr Float) : Prop where
  free : ¬e.leads
  printable : e.Printable

/-- What is read at a level, from tokens of which the first says whether the expression starts with such a
variable. -/
structure Fits (level : Nat) (tokens : List Token) (e : Expr Float) : Prop where
  inside : e.Inside level
  printable : e.Printable
  starts : e.leads → ∃ name start stop rest, tokens = ⟨.name name, start, stop⟩ :: rest ∧ Text.isWord "not" name.toList

theorem Fits.mono {level lower : Nat} {tokens : List Token} {e : Expr Float} (fits : Fits level tokens e)
    (le : lower ≤ level) : Fits lower tokens e :=
  ⟨fun below => fits.inside (Nat.lt_of_lt_of_le below le), fits.printable, fits.starts⟩

theorem Free.fits {level : Nat} {tokens : List Token} {e : Expr Float} (free : Free e) : Fits level tokens e :=
  ⟨fun _ => free.free, free.printable, fun leads => (free.free leads).elim⟩

end Expr

namespace Expr

open Token Reader

theorem neg_ne_least {n : Int64} (notLeast : n ≠ Int64.minValue) : -n ≠ Int64.minValue := by
  intro same
  have exact := toInt_neg_of_ne notLeast
  have greatest := n.toInt_le
  rw [same, Int64.toInt_minValue] at exact
  rw [Int64.toInt_maxValue] at greatest
  omega

theorem fits_turnSign {tokens start : List Token} {e : Expr Float} (fits : Fits 8 start e) : Fits 8 tokens (turnSign e) := by
  unfold turnSign
  split
  · next n =>
    have notLeast : n ≠ Int64.minValue := fun same => fits.printable (congrArg Value.int same)
    refine ⟨fun _ => nofun, fun same => neg_ne_least notLeast ?_, nofun⟩
    exact Value.int.inj same
  · exact ⟨fun _ => nofun, nofun, nofun⟩
  · next noInt noNum =>
    refine ⟨fun _ => nofun, ⟨?_, fits.inside, fits.printable⟩, nofun⟩
    unfold TakesSign
    split
    · exact (noInt _ rfl).elim
    · exact (noNum _ rfl).elim
    · exact id

theorem fits_turnSigns {start : List Token} {e : Expr Float} (fits : Fits 8 start e) (signs : Nat) :
    Fits 8 start (Nat.repeat turnSign signs e) := by
  induction signs with
  | zero => exact fits
  | succ signs ih => exact fits_turnSign ih

theorem free_nots {e : Expr Float} (free : Free e) (negations : Nat) : Free (Nat.repeat .not negations e) := by
  induction negations with
  | zero => exact free
  | succ negations ih => exact ⟨nofun, ih.free, ih.printable⟩

variable {nested : Reader (Expr Float)} (frees : Gives nested fun _ e => Free e)

include frees

theorem gives_inner : Gives (do let inner ← nested; expect ")"; return inner) fun _ e => Free e :=
  frees.bind fun _ _ free => (gives_expect ")").bind fun _ _ _ => gives_pure fun _ => free

theorem gives_call (func : Func) : Gives (do return .call func (← bracketed nested ")")) fun _ e => Free e := by
  refine (gives_bracketed frees ")").bind fun _ args free => gives_pure fun _ => ⟨nofun, printableArgs_iff.2 ?_⟩
  exact fun e member => ⟨(free e member).free, (free e member).printable⟩

theorem gives_primary : Gives (primary nested) (Fits 9) := by
  intro tokens e rest sound done
  unfold primary at done
  split at done
  · cases done
  · next token others =>
    have here := sound token (List.mem_cons_self ..)
    obtain ⟨kind, start, stop⟩ := token
    split at done
    · next n same =>
      cases done
      refine ⟨List.suffix_cons .., fun _ => nofun, ?_, nofun⟩
      change kind = _ at same
      subst same
      rintro ⟨⟩
      exact absurd here (show ¬(0 : Int) ≤ Int64.minValue.toInt by decide)
    · cases done
      exact ⟨List.suffix_cons .., fun _ => nofun, nofun, nofun⟩
    · cases done
      exact ⟨List.suffix_cons .., fun _ => nofun, nofun, nofun⟩
    · have later := fun token member => sound token (List.mem_cons_of_mem _ member)
      obtain ⟨suffix, free⟩ := gives_inner frees others e rest later done
      exact ⟨suffix.trans (List.suffix_cons ..), free.fits⟩
    · cases done
    · cases done
      exact ⟨List.suffix_cons .., fun _ => nofun, nofun, nofun⟩
    · cases done
      exact ⟨List.suffix_cons .., fun _ => nofun, nofun, nofun⟩
    · next name notTrue notFalse same =>
      change kind = _ at same
      subst same
      split at done
      · next inside =>
        split at done
        · cases done
        · next func known =>
          have later := fun token member => sound token (List.mem_cons_of_mem _ (List.mem_cons_of_mem _ member))
          obtain ⟨suffix, free⟩ := gives_call frees func inside e rest later done
          exact ⟨(suffix.trans (List.suffix_cons ..)).trans (List.suffix_cons ..), free.fits⟩
      · cases done
        refine ⟨List.suffix_cons .., fun below => absurd below (Nat.lt_irrefl 9), ⟨here, ?_, ?_⟩, fun leads => ?_⟩
        · rintro rfl
          exact notTrue rfl
        · rintro rfl
          exact notFalse rfl
        · exact ⟨name, start, stop, rest, rfl, leads⟩

theorem gives_signed : Gives (signed nested) (Fits 8) := by
  intro tokens e rest sound done
  obtain ⟨_, _, got, done⟩ := bind_eq_ok done
  cases got
  obtain ⟨signs, between, counted, done⟩ := bind_eq_ok done
  obtain ⟨operand, after, read, done⟩ := bind_eq_ok done
  cases done
  obtain ⟨taken, none, _⟩ := countSigns_eq_ok (peeks_operator? ["-"]) (Nat.le_refl _) counted
  obtain ⟨suffix, fits⟩ := gives_primary frees between operand rest (fun token member => sound token (taken.subset member)) read
  refine ⟨suffix.trans taken, ?_⟩
  have lower : Fits 8 between operand := fits.mono (by decide)
  cases signs with
  | zero =>
    rw [none rfl] at lower
    exact lower
  | succ signs => exact fits_turnSign (fits_turnSigns lower signs)

omit frees in
theorem gives_arithmetic {operand : Reader (Expr Float)} {operations : List ArithOp} {level : Nat}
    (levels : ∀ op ∈ operations, ∀ left right : Expr Float, (arith op left right).precedence = level)
    (gives : Gives operand (Fits (level + 1))) : Gives (arithmetic operand operations) (Fits level) := by
  rw [arithmetic_eq]
  refine gives.bind fun start first fits => gives_get.bind fun _ _ _ => ?_
  have gives : Gives operand fun _ e => e.Inside (level + 1) ∧ e.Printable :=
    gives.imp fun _ _ fits => ⟨fits.inside, fits.printable⟩
  refine gives_chain (Fits level) start (gives_arithOp? operations) gives ?_ _ (fits.mono (Nat.le_succ _))
  intro op left right known among fits
  have same := levels op known left right
  refine ⟨fun below => absurd below (by omega), ⟨⟨?_, fits.printable⟩, ?_, among.2⟩, fun leads => fits.starts leads.2⟩
  · rw [same]
    exact fits.inside
  · rw [same]
    exact among.1

theorem gives_product : Gives (product nested) (Fits 7) :=
  gives_arithmetic (by simp [precedence]) (gives_signed frees)

theorem gives_additive : Gives (additive nested) (Fits 6) :=
  gives_arithmetic (by simp [precedence]) (gives_product frees)

theorem gives_setMember : Gives (setMember nested) fun _ value => value ≠ .int Int64.minValue := by
  refine (gives_signed frees).bind fun _ e fits => ?_
  split
  · exact gives_pure fun _ => fits.printable
  · exact gives_pure fun _ => nofun
  · exact gives_fail

theorem gives_comparison : Gives (comparison nested) (Fits 5) := by
  refine (gives_additive frees).bind fun tokens left fits => ?_
  refine (peeks_keyword? "in").gives.bind fun _ found _ => ?_
  cases found with
  | true =>
    refine (gives_expect "\x7b").bind fun _ _ _ => (gives_bracketed (gives_setMember frees) "\x7d").bind fun _ set members => ?_
    exact gives_pure fun _ =>
      ⟨fun below => absurd below (Nat.lt_irrefl 5), ⟨⟨fits.inside, fits.printable⟩, members⟩, fun leads => fits.starts leads.2⟩
  | false =>
    refine (gives_operator? _).bind fun _ found _ => ?_
    split
    · exact gives_pure fun _ => fits.mono (by decide)
    · next op _ =>
      refine (gives_additive frees).bind fun _ right other => gives_pure fun _ => ?_
      exact ⟨fun below => absurd below (Nat.lt_irrefl 5), ⟨⟨fits.inside, fits.printable⟩, other.inside, other.printable⟩,
        fun leads => fits.starts leads.2⟩

theorem gives_negation : Gives (negation nested) fun _ e => Free e := by
  intro tokens e rest sound done
  obtain ⟨_, _, got, done⟩ := bind_eq_ok done
  cases got
  obtain ⟨negations, between, counted, done⟩ := bind_eq_ok done
  obtain ⟨operand, after, read, done⟩ := bind_eq_ok done
  cases done
  obtain ⟨taken, _, stops⟩ := countSigns_eq_ok (peeks_connective? "!" "not") (Nat.le_refl _) counted
  obtain ⟨suffix, fits⟩ :=
    gives_comparison frees between operand rest (fun token member => sound token (taken.subset member)) read
  refine ⟨suffix.trans taken, ?_⟩
  have free : Free operand := by
    refine ⟨fun leads => ?_, fits.printable⟩
    obtain ⟨name, start, stop, others, rfl, word⟩ := fits.starts leads
    have taken : connective? "!" "not" (⟨.name name, start, stop⟩ :: others) = .ok (true, others) := by
      rw [connective?, bind_ok rfl]
      simp [keyword?, word]
    rw [taken] at stops
    cases stops
  exact free_nots free negations

omit frees in
theorem gives_connected {operand : Reader (Expr Float)} (op : LogicOp) (word : String) (gives : Gives operand fun _ e => Free e) :
    Gives (connected op word operand) fun _ e => Free e := by
  rw [connected_eq]
  refine gives.bind fun start first free => gives_get.bind fun _ _ _ => ?_
  refine gives_chain (fun _ e => Free e) start (gives_logicOp? op word) gives ?_ _ free
  intro op left right _ other free
  refine ⟨?_, ⟨free.free, free.printable⟩, other.free, other.printable⟩
  cases op <;> exact fun leads => free.free leads.2

theorem gives_disjunction : Gives (disjunction nested) fun _ e => Free e :=
  gives_connected .or "or" (gives_connected .and "and" (gives_negation frees))

theorem gives_implication (bound : Nat) : Gives (implication nested bound) fun _ e => Free e := by
  induction bound with
  | zero => exact gives_disjunction frees
  | succ bound ih =>
    refine (gives_disjunction frees).bind fun _ left free => (gives_operator? _).bind fun _ found _ => ?_
    cases found with
    | none => exact gives_pure fun _ => free
    | some =>
      refine ih.bind fun _ right other => gives_pure fun _ => ?_
      exact ⟨fun leads => free.free leads.2, ⟨free.free, free.printable⟩, other.free, other.printable⟩

omit frees in
theorem gives_reader (depth : Nat) : Gives (reader depth) fun _ e => Free e := by
  induction depth with
  | zero => exact gives_fail
  | succ depth ih => exact gives_get.bind fun _ tokens _ => gives_implication ih _

omit frees in
/-- What is read off a text can be printed, and no negation would be read at its start. -/
theorem free_of_parse {text : String} {e : Expr Float} (parsed : parse text = .ok e) : Free e := by
  obtain ⟨tokens, tokenized, read⟩ := parse_eq_ok_iff.1 parsed
  have sound : ∀ token ∈ tokens, token.kind.Sound := fun token member =>
    sound_of_spells (spells_of_tokenize tokenized) _ (List.mem_map_of_mem member)
  exact (gives_reader _ tokens e [] sound read).2

end Expr

end Deliberation
