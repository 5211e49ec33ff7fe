import Deliberation.Constraint.Basic

/-!
What an expression depends on. Only the variables that it mentions count, and once it has a value or
a fault, values for further variables change neither.
-/

namespace Deliberation

variable {R : Type} [Scalar R]

/-- Every variable has the value that it has in a smaller environment. -/
def Env.Extends (larger smaller : Env R) : Prop :=
  ∀ name value, smaller name = some value → larger name = some value

namespace Expr

/-- A later outcome is the earlier one, unless that was for want of a variable. -/
def Keeps {α : Type} (later earlier : Result R α) : Prop :=
  later = earlier ∨ ∃ name, earlier = .error (.unbound name)

omit [Scalar R] in
theorem Keeps.bind {α β : Type} {later earlier : Result R α} {next next' : α → Result R β} (keeps : Keeps later earlier)
    (step : ∀ a, Keeps (next a) (next' a)) : Keeps (later >>= next) (earlier >>= next') := by
  rcases keeps with same | ⟨name, unbound⟩
  · rw [same]
    cases earlier with
    | error fault => exact .inl rfl
    | ok a => exact step a
  · rw [unbound]
    exact .inr ⟨name, rfl⟩

omit [Scalar R] in
theorem Keeps.refl {α : Type} (outcome : Result R α) : Keeps outcome outcome := .inl rfl

mutual

/-- Environments that agree on what an expression mentions give it one value. -/
theorem eval_congr {env env' : Env R} : (e : Expr R) → (∀ name ∈ e.mentions, env name = env' name) →
    e.eval env = e.eval env'
  | .const value, _ => rfl
  | .var name, agree => by rw [eval, eval, agree name (by simp [mentions])]
  | .neg operand, agree => by rw [eval, eval, eval_congr operand agree]
  | .not operand, agree => by rw [eval, eval, eval_congr operand agree]
  | .arith op left right, agree => by
    simp only [mentions, List.forall_mem_append] at agree
    rw [eval, eval, eval_congr left agree.1, eval_congr right agree.2]
  | .compare op left right, agree => by
    simp only [mentions, List.forall_mem_append] at agree
    rw [eval, eval, eval_congr left agree.1, eval_congr right agree.2]
  | .logic op left right, agree => by
    simp only [mentions, List.forall_mem_append] at agree
    rw [eval, eval, eval_congr left agree.1, eval_congr right agree.2]
  | .member element set, agree => by rw [eval, eval, eval_congr element agree]
  | .call func args, agree => by rw [eval, eval, evalAll_congr args agree]

theorem evalAll_congr {env env' : Env R} : (es : List (Expr R)) → (∀ name ∈ mentionsOf es, env name = env' name) →
    evalAll env es = evalAll env' es
  | [], _ => rfl
  | e :: rest, agree => by
    simp only [mentionsOf, List.forall_mem_append] at agree
    rw [evalAll, evalAll, eval_congr e agree.1, evalAll_congr rest agree.2]

end

mutual

/-- An outcome that no variable is wanting for stays when more variables have values. -/
theorem eval_keeps {larger smaller : Env R} (extended : larger.Extends smaller) : (e : Expr R) →
    Keeps (e.eval larger) (e.eval smaller)
  | .const value => .refl _
  | .var name => by
    rw [eval, eval]
    cases stored : smaller name with
    | none => exact .inr ⟨name, rfl⟩
    | some value =>
      rw [extended name value stored]
      exact .refl _
  | .neg operand => by
    rw [eval, eval]
    exact (eval_keeps extended operand).bind fun _ => .refl _
  | .not operand => by
    rw [eval, eval]
    exact (eval_keeps extended operand).bind fun _ => .refl _
  | .arith op left right => by
    rw [eval, eval]
    exact (eval_keeps extended left).bind fun _ => (eval_keeps extended right).bind fun _ => .refl _
  | .compare op left right => by
    rw [eval, eval]
    exact (eval_keeps extended left).bind fun _ => (eval_keeps extended right).bind fun _ => .refl _
  | .logic op left right => by
    rw [eval, eval]
    refine (eval_keeps extended left).bind fun value => (Keeps.refl _).bind fun b => ?_
    cases shortCut? op b with
    | some decided => exact .refl _
    | none => exact (eval_keeps extended right).bind fun _ => .refl _
  | .member element set => by
    rw [eval, eval]
    exact (eval_keeps extended element).bind fun _ => .refl _
  | .call func args => by
    rw [eval, eval]
    exact (evalAll_keeps extended args).bind fun _ => .refl _

theorem evalAll_keeps {larger smaller : Env R} (extended : larger.Extends smaller) : (es : List (Expr R)) →
    Keeps (evalAll larger es) (evalAll smaller es)
  | [] => .refl _
  | e :: rest => by
    rw [evalAll, evalAll]
    exact (eval_keeps extended e).bind fun _ => (evalAll_keeps extended rest).bind fun _ => .refl _

end

end Expr

namespace Constraint

variable {c : Constraint R}

/-- Environments that agree on the variables of a constraint judge it alike. -/
theorem holds_congr {env env' : Env R} (agree : ∀ name ∈ c.vars, env name = env' name) : c.holds env = c.holds env' := by
  have same : c.predicate.eval env = c.predicate.eval env' :=
    Expr.eval_congr c.predicate fun name member => agree name (List.mem_eraseDups.2 member)
  rw [holds, holds, Expr.holds, Expr.holds, same]

/-- A verdict stays when more variables have values. -/
theorem holds_of_extends {larger smaller : Env R} (extended : larger.Extends smaller) {verdict : Bool}
    (decided : c.holds smaller = .ok (some verdict)) : c.holds larger = .ok (some verdict) := by
  rw [holds, Expr.holds] at decided
  rcases Expr.eval_keeps extended c.predicate with same | ⟨name, unbound⟩
  · rw [holds, Expr.holds, same]
    exact decided
  · rw [unbound] at decided
    simp at decided

end Constraint

end Deliberation
