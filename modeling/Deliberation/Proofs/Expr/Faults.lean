import Deliberation.Proofs.Expr.Evaluation
import Deliberation.Proofs.Lists
import Mathlib.Logic.Relation
import Mathlib.Tactic.SplitIfs

/-!
What an evaluation without a value comes from. It has evaluated some part that fails of itself: a variable
that has no value, operands that do not fit, or the quotient of the least integer and minus one, at which it
stops.
-/

namespace Deliberation

variable {R : Type} [Scalar R]

namespace Expr

/-! ### Steps on values -/

/-- A step that fails only because operands do not fit. -/
def Typed {α : Type} (outcome : Result R α) : Prop := Lists.FailsOnly (fun fault => ∃ own, fault = .mistyped own) outcome

section

omit [Scalar R]

theorem typed_ok {α : Type} (a : α) : Typed (.ok a : Result R α) := Lists.failsOnly_ok a

theorem typed_mistyped {α : Type} (own : TypeFault R) : Typed (.error (.mistyped own) : Result R α) :=
  Lists.failsOnly_error ⟨own, rfl⟩

theorem typed_boolean (value : Value R) : Typed (boolean value) := by
  cases value <;> first | exact typed_ok _ | exact typed_mistyped _

theorem typed_integer (n : Int) : Typed (integer n : Result R (Value R)) := by
  unfold integer
  split
  · exact typed_ok _
  · exact typed_mistyped _

end

theorem typed_number (value : Value R) : Typed (number value) := by
  unfold number
  split
  · exact typed_ok _
  · exact typed_mistyped _

theorem typed_negate (value : Value R) : Typed (negate value) := by
  cases value <;> first | exact typed_integer _ | exact typed_ok _ | exact typed_mistyped _

theorem typed_arithNum (op : ArithOp) (a b : R) : Typed (arithNum op a b) := by
  cases op with
  | add => exact typed_ok _
  | sub => exact typed_ok _
  | mul => exact typed_ok _
  | div =>
    rw [arithNum]
    split
    · exact typed_mistyped _
    · exact typed_ok _

theorem typed_order (left right : Value R) : Typed (order left right) := by
  unfold order
  split
  · exact typed_ok _
  · exact typed_mistyped _

theorem typed_applyCompare (op : CompareOp) (left right : Value R) : Typed (applyCompare op left right) := by
  cases op with
  | eq => exact typed_ok _
  | ne => exact typed_ok _
  | lt => exact (typed_order left right).map _
  | le => exact (typed_order left right).map _
  | gt => exact (typed_order left right).map _
  | ge => exact (typed_order left right).map _

theorem typed_extremum (better : Ordering → Bool) (best : Value R) (values : List (Value R)) :
    Typed (extremum better best values) := by
  induction values generalizing best with
  | nil => exact typed_ok _
  | cons value rest ih =>
    rw [extremum]
    exact (typed_order value best).bind fun _ => ih _

theorem typed_applyFunc (func : Func) (args : List (Value R)) : Typed (applyFunc func args) := by
  unfold applyFunc
  split
  · exact typed_integer _
  · exact (typed_number _).map _
  · exact typed_mistyped _
  · exact typed_extremum _ _ _
  · exact typed_extremum _ _ _
  · exact typed_mistyped _
  · exact typed_mistyped _
  · exact typed_ok _

/-- Arithmetic fails because its operands do not fit, or at the quotient of the least integer and minus one. -/
theorem applyArith_error {op : ArithOp} {a b : Value R} {fault : EvalError R} (failed : applyArith op a b = .error fault) :
    (∃ own, fault = .mistyped own) ∨
      op = .div ∧ a = .int Int64.minValue ∧ b = .int (-1) ∧ fault = .aborted .leastQuotient := by
  unfold applyArith at failed
  split at failed
  · next m n =>
    cases op with
    | add => exact .inl (typed_integer _ fault failed)
    | sub => exact .inl (typed_integer _ fault failed)
    | mul => exact .inl (typed_integer _ fault failed)
    | div =>
      rw [arithInt] at failed
      split_ifs at failed with _ least
      · exact .inl (typed_mistyped _ fault failed)
      · obtain ⟨rfl, rfl⟩ := least
        exact .inr ⟨rfl, rfl, rfl, (Except.error.inj failed).symm⟩
      · exact .inl (typed_integer _ fault failed)
  · exact .inl ((typed_number _).bind (fun _ => (typed_number _).bind fun _ => typed_arithNum _ _ _) fault failed)

/-! ### Parts that are evaluated -/

/-- To evaluate an expression, a part of it is evaluated: those before it have values that leave it to count. -/
inductive Evaluates (env : Env R) : Expr R → Expr R → Prop
  | neg {operand : Expr R} : Evaluates env (.neg operand) operand
  | not {operand : Expr R} : Evaluates env (.not operand) operand
  | arithLeft {op : ArithOp} {left right : Expr R} : Evaluates env (.arith op left right) left
  | arithRight {op : ArithOp} {left right : Expr R} {a : Value R} (first : left.eval env = .ok a) :
      Evaluates env (.arith op left right) right
  | compareLeft {op : CompareOp} {left right : Expr R} : Evaluates env (.compare op left right) left
  | compareRight {op : CompareOp} {left right : Expr R} {a : Value R} (first : left.eval env = .ok a) :
      Evaluates env (.compare op left right) right
  | logicLeft {op : LogicOp} {left right : Expr R} : Evaluates env (.logic op left right) left
  | logicRight {op : LogicOp} {left right : Expr R} {b : Bool} (first : left.eval env = .ok (.bool b))
      (undecided : shortCut? op b = none) : Evaluates env (.logic op left right) right
  | member {element : Expr R} {set : List (Value R)} : Evaluates env (.member element set) element
  | call {func : Func} {before after : List (Expr R)} {arg : Expr R} (first : ∀ e ∈ before, ∃ v, e.eval env = .ok v) :
      Evaluates env (.call func (before ++ arg :: after)) arg

/-- What an expression fails with while the parts that it evaluates have values. -/
inductive Fails (env : Env R) : Expr R → EvalError R → Prop
  | unbound {name : String} (missing : env name = none) : Fails env (.var name) (.unbound name)
  | mistyped {e : Expr R} (own : TypeFault R) : Fails env e (.mistyped own)
  | least {left right : Expr R} (first : left.eval env = .ok (.int Int64.minValue))
      (second : right.eval env = .ok (.int (-1))) : Fails env (.arith .div left right) (.aborted .leastQuotient)

/-- Evaluation comes to the quotient of the least integer and minus one. -/
def ReachesLeastQuotient (env : Env R) (e : Expr R) : Prop :=
  ∃ left right, Relation.ReflTransGen (Evaluates env) e (.arith .div left right) ∧
    left.eval env = .ok (.int Int64.minValue) ∧ right.eval env = .ok (.int (-1))

variable {env : Env R} {e part : Expr R} {fault : EvalError R}

theorem Typed.fails {α : Type} {outcome : Result R α} (typed : Typed outcome) (failed : outcome = .error fault) :
    Fails env e fault := by
  obtain ⟨own, rfl⟩ := typed fault failed
  exact .mistyped own

theorem evalAll_append_error {before after : List (Expr R)} (first : ∀ e ∈ before, ∃ v, e.eval env = .ok v)
    (failed : part.eval env = .error fault) : evalAll env (before ++ part :: after) = .error fault := by
  induction before with
  | nil =>
    rw [List.nil_append, evalAll, failed]
    rfl
  | cons e rest ih =>
    obtain ⟨⟨v, here⟩, others⟩ := List.forall_mem_cons.1 first
    rw [List.cons_append, evalAll, here, ih others]
    rfl

theorem exists_of_evalAll_error {args : List (Expr R)} (failed : evalAll env args = .error fault) :
    ∃ before part after, args = before ++ part :: after ∧ (∀ e ∈ before, ∃ v, e.eval env = .ok v) ∧
      part.eval env = .error fault := by
  induction args with
  | nil => cases failed
  | cons e rest ih =>
    rw [evalAll] at failed
    rcases Lists.bind_eq_error failed with here | ⟨v, here, failed⟩
    · exact ⟨[], e, rest, rfl, by simp, here⟩
    · rcases Lists.bind_eq_error failed with later | ⟨_, _, impossible⟩
      · obtain ⟨before, part, after, rfl, first, there⟩ := ih later
        exact ⟨e :: before, part, after, rfl, List.forall_mem_cons.2 ⟨⟨v, here⟩, first⟩, there⟩
      · cases impossible

/-- An expression fails with what a part that it evaluates fails with. -/
theorem Evaluates.eval_error (evaluates : Evaluates env e part) (failed : part.eval env = .error fault) :
    e.eval env = .error fault := by
  cases evaluates with
  | call first =>
    rw [eval, evalAll_append_error first failed]
    rfl
  | arithRight first | compareRight first =>
    rw [eval, first, failed]
    rfl
  | logicRight first undecided =>
    rw [eval, first, failed]
    simp only [bind, Except.bind, boolean, undecided]
  | _ =>
    rw [eval, failed]
    rfl

/-- An expression that fails does so of itself, or a part that it evaluates does. -/
theorem fails_or_evaluates (failed : e.eval env = .error fault) :
    Fails env e fault ∨ ∃ part, Evaluates env e part ∧ part.eval env = .error fault := by
  cases e with
  | const value => cases failed
  | var name =>
    rw [eval] at failed
    cases stored : env name with
    | some value =>
      rw [stored] at failed
      cases failed
    | none =>
      rw [stored] at failed
      cases failed
      exact .inl (.unbound stored)
  | neg operand =>
    rw [eval] at failed
    rcases Lists.bind_eq_error failed with here | ⟨v, _, failed⟩
    · exact .inr ⟨operand, .neg, here⟩
    · exact .inl ((typed_negate v).fails failed)
  | not operand =>
    rw [eval] at failed
    rcases Lists.bind_eq_error failed with here | ⟨v, _, failed⟩
    · exact .inr ⟨operand, .not, here⟩
    · exact .inl (Typed.fails ((typed_boolean v).bind fun _ => typed_ok _) failed)
  | arith op left right =>
    rw [eval] at failed
    rcases Lists.bind_eq_error failed with here | ⟨a, first, failed⟩
    · exact .inr ⟨left, .arithLeft, here⟩
    · rcases Lists.bind_eq_error failed with here | ⟨b, second, failed⟩
      · exact .inr ⟨right, .arithRight first, here⟩
      · rcases applyArith_error failed with ⟨own, rfl⟩ | ⟨rfl, rfl, rfl, rfl⟩
        · exact .inl (.mistyped own)
        · exact .inl (.least first second)
  | compare op left right =>
    rw [eval] at failed
    rcases Lists.bind_eq_error failed with here | ⟨a, first, failed⟩
    · exact .inr ⟨left, .compareLeft, here⟩
    · rcases Lists.bind_eq_error failed with here | ⟨b, _, failed⟩
      · exact .inr ⟨right, .compareRight first, here⟩
      · exact .inl (Typed.fails ((typed_applyCompare op a b).bind fun _ => typed_ok _) failed)
  | logic op left right =>
    rw [eval] at failed
    rcases Lists.bind_eq_error failed with here | ⟨v, first, failed⟩
    · exact .inr ⟨left, .logicLeft, here⟩
    · rcases Lists.bind_eq_error failed with here | ⟨b, truth, failed⟩
      · exact .inl ((typed_boolean v).fails here)
      · cases decided : shortCut? op b with
        | some decision =>
          rw [decided] at failed
          cases failed
        | none =>
          rw [decided] at failed
          rcases Lists.bind_eq_error failed with here | ⟨w, _, failed⟩
          · cases v <;> cases truth
            exact .inr ⟨right, .logicRight first decided, here⟩
          · exact .inl (Typed.fails ((typed_boolean w).bind fun _ => typed_ok _) failed)
  | member element set =>
    rw [eval] at failed
    rcases Lists.bind_eq_error failed with here | ⟨_, _, impossible⟩
    · exact .inr ⟨element, .member, here⟩
    · cases impossible
  | call func args =>
    rw [eval] at failed
    rcases Lists.bind_eq_error failed with here | ⟨values, _, failed⟩
    · obtain ⟨before, part, after, rfl, first, there⟩ := exists_of_evalAll_error here
      exact .inr ⟨part, .call first, there⟩
    · exact .inl ((typed_applyFunc func values).fails failed)

theorem Evaluates.sizeOf_lt (evaluates : Evaluates env e part) : sizeOf part < sizeOf e := by
  cases evaluates with
  | @call func before after _ first =>
    have inside := List.sizeOf_lt_of_mem (show part ∈ before ++ part :: after by simp)
    rw [call.sizeOf_spec]
    omega
  | _ => simp +arith

/-- Where an expression has no value, it has evaluated a part that fails of itself. -/
theorem exists_fails (failed : e.eval env = .error fault) :
    ∃ part, Relation.ReflTransGen (Evaluates env) e part ∧ Fails env part fault := by
  induction size : sizeOf e using Nat.strongRecOn generalizing e with
  | ind n ih =>
    subst size
    rcases fails_or_evaluates failed with own | ⟨operand, evaluates, failed⟩
    · exact ⟨e, .refl, own⟩
    · obtain ⟨part, reaches, own⟩ := ih _ evaluates.sizeOf_lt failed rfl
      exact ⟨part, .head evaluates reaches, own⟩

theorem missing_of_eval {name : String} (failed : e.eval env = .error (.unbound name)) : env name = none := by
  obtain ⟨_, _, own⟩ := exists_fails failed
  cases own with
  | unbound missing => exact missing

/-- Evaluation stops exactly where it comes to the quotient of the least integer and minus one. -/
theorem eval_aborted_iff {reason : Abort} :
    e.eval env = .error (.aborted reason) ↔ reason = .leastQuotient ∧ ReachesLeastQuotient env e := by
  constructor
  · intro stopped
    obtain ⟨_, reaches, own⟩ := exists_fails stopped
    cases own with
    | least first second => exact ⟨rfl, _, _, reaches, first, second⟩
  · rintro ⟨rfl, left, right, reaches, first, second⟩
    induction reaches using Relation.ReflTransGen.head_induction_on with
    | refl =>
      rw [eval, first, second]
      rfl
    | head evaluates _ ih => exact evaluates.eval_error ih

end Expr

/-- A constraint that cannot be judged divides the least integer by minus one. -/
theorem Constraint.holds_error {c : Constraint R} {env : Env R} {reason : Abort} (failed : c.holds env = .error reason) :
    reason = .leastQuotient := by
  rw [holds, Expr.holds] at failed
  split at failed
  · cases failed
  · cases failed
  · cases failed
  · cases failed
  · next stopped =>
    cases failed
    exact (Expr.eval_aborted_iff.1 stopped).1

/-- A constraint whose variables all have values is decided, unless it cannot be judged. -/
theorem Constraint.exists_verdict {c : Constraint R} {env : Env R} (bound : ∀ name ∈ c.vars, (env name).isSome)
    {verdict : Option Bool} (judged : c.holds env = .ok verdict) : ∃ holds, verdict = some holds := by
  -- Only the variables of the constraint count, so that the others may have some value too.
  have whole : ∀ name, (env name <|> some (.bool true)) ≠ none := by simp
  have same : c.holds env = c.holds fun name => env name <|> some (.bool true) := by
    refine holds_congr fun name mentioned => ?_
    obtain ⟨value, stored⟩ := Option.isSome_iff_exists.1 (bound name mentioned)
    simp [stored]
  rw [same, holds, Expr.holds] at judged
  split at judged
  · exact ⟨_, (Except.ok.inj judged).symm⟩
  · exact ⟨_, (Except.ok.inj judged).symm⟩
  · next unbound => exact absurd (Expr.missing_of_eval unbound) (whole _)
  · exact ⟨_, (Except.ok.inj judged).symm⟩
  · cases judged

end Deliberation
