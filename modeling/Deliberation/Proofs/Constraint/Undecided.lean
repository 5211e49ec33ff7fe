import Deliberation.Proofs.Expr.Faults

/-!
What a predicate is undecided for. Once an evaluation does not end for want of a variable, it ends alike
wherever more variables have values; where it does, the variable is one that the predicate mentions and that
has no value, and the check of an assignment names such a one.
-/

namespace Deliberation

variable {R : Type} [Scalar R]

namespace Expr

variable {env larger smaller : Env R} {e part : Expr R} {name : String}

omit [Scalar R] in
theorem mem_mentionsOf {es : List (Expr R)} (member : e ∈ es) (mentioned : name ∈ e.mentions) : name ∈ mentionsOf es := by
  induction es with
  | nil => cases member
  | cons first rest ih =>
    rw [mentionsOf, List.mem_append]
    rcases List.mem_cons.1 member with rfl | later
    · exact .inl mentioned
    · exact .inr (ih later)

/-- A part that is evaluated mentions nothing that the whole does not. -/
theorem Evaluates.mem_mentions (evaluates : Evaluates env e part) (mentioned : name ∈ part.mentions) :
    name ∈ e.mentions := by
  cases evaluates with
  | neg | not | member => exact mentioned
  | arithLeft | compareLeft | logicLeft => exact List.mem_append_left _ mentioned
  | arithRight | compareRight | logicRight => exact List.mem_append_right _ mentioned
  | call => exact mem_mentionsOf (by simp) mentioned

/-- The variable that an evaluation ends for the want of is mentioned, and has no value. -/
theorem wanting_of_unbound (failed : e.eval env = .error (.unbound name)) : name ∈ e.vars ∧ env name = none := by
  obtain ⟨part, reaches, own⟩ := exists_fails failed
  clear failed
  cases own with
  | unbound missing =>
    refine ⟨List.mem_eraseDups.2 ?_, missing⟩
    induction reaches using Relation.ReflTransGen.head_induction_on with
    | refl => exact List.mem_singleton.2 rfl
    | head evaluates _ ih => exact evaluates.mem_mentions ih

/-- An evaluation that no variable is wanting for ends alike where more variables have values. -/
theorem eval_of_extends (extended : larger.Extends smaller) (decided : ∀ name, e.eval smaller ≠ .error (.unbound name)) :
    e.eval larger = e.eval smaller := by
  rcases eval_keeps extended e with same | ⟨name, unbound⟩
  · exact same
  · exact absurd unbound (decided name)

theorem holds_eq_none_iff : e.holds env = .ok none ↔ ∃ name, e.eval env = .error (.unbound name) := by
  rw [holds]
  split <;> simp_all

theorem exists_wanting (undecided : e.holds env = .ok none) : ∃ name ∈ e.vars, env name = none := by
  obtain ⟨name, unbound⟩ := holds_eq_none_iff.1 undecided
  exact ⟨name, wanting_of_unbound unbound⟩

end Expr

section Checking

variable {env : Env R} {constraint name : String}

/-- Constraints are refused for a variable that one of them mentions, and that has no value. -/
theorem wanting_of_violations {constraints : List (Constraint R)}
    (refused : violations env constraints = .error (.unknownVariable constraint name)) :
    ∃ c ∈ constraints, c.name = constraint ∧ c.holds env = .ok none ∧ name ∈ c.vars ∧ env name = none := by
  induction constraints with
  | nil => cases refused
  | cons c rest ih =>
    rw [violations] at refused
    split at refused
    · cases refused
    · next undecided =>
      obtain ⟨missing, mentioned, absent⟩ := Expr.exists_wanting undecided
      obtain ⟨found, first⟩ : ∃ found, c.vars.find? (fun name => (env name).isNone) = some found :=
        Option.isSome_iff_exists.1 (List.find?_isSome.2 ⟨missing, mentioned, by simp [absent]⟩)
      rw [first] at refused
      cases refused
      have empty := List.find?_some first
      exact ⟨c, by simp, rfl, undecided, List.mem_of_find?_eq_some first, by simpa using empty⟩
    · obtain ⟨other, member, found⟩ := ih refused
      exact ⟨other, List.mem_cons_of_mem _ member, found⟩
    · rcases Lists.bind_eq_error refused with refused | ⟨_, _, impossible⟩
      · obtain ⟨other, member, found⟩ := ih refused
        exact ⟨other, List.mem_cons_of_mem _ member, found⟩
      · cases impossible

theorem wanting_of_checkAssignment {hard soft : List (Constraint R)}
    (refused : checkAssignment env hard soft = .error (.unknownVariable constraint name)) :
    ∃ c ∈ hard ++ soft, c.name = constraint ∧ c.holds env = .ok none ∧ name ∈ c.vars ∧ env name = none := by
  rw [checkAssignment] at refused
  rcases Lists.bind_eq_error refused with refused | ⟨_, _, refused⟩
  · obtain ⟨c, member, found⟩ := wanting_of_violations refused
    exact ⟨c, List.mem_append_left _ member, found⟩
  · rcases Lists.bind_eq_error refused with refused | ⟨_, _, impossible⟩
    · obtain ⟨c, member, found⟩ := wanting_of_violations refused
      exact ⟨c, List.mem_append_right _ member, found⟩
    · cases impossible

/-- A variable without a value is all that leaves a predicate undecided, and more values change no outcome
that needed none of them. The check of an assignment refuses a constraint for a variable that it mentions and
that has no value. -/
theorem undecided_for_want :
    (∀ (e : Expr R) (larger smaller : Env R), larger.Extends smaller →
      (∀ name, e.eval smaller ≠ .error (.unbound name)) → e.eval larger = e.eval smaller) ∧
    (∀ (e : Expr R) (env : Env R), (∀ name ∈ e.vars, (env name).isSome) → e.holds env ≠ .ok none) ∧
    (∀ (e : Expr R) (env : Env R), e.holds env = .ok none → ∃ name ∈ e.vars, env name = none) ∧
    ∀ (env : Env R) (hard soft : List (Constraint R)) (constraint name : String),
      checkAssignment env hard soft = .error (.unknownVariable constraint name) →
      ∃ c ∈ hard ++ soft, c.name = constraint ∧ c.holds env = .ok none ∧ name ∈ c.vars ∧ env name = none := by
  refine ⟨fun e larger smaller => Expr.eval_of_extends, fun e env bound undecided => ?_, fun e env => Expr.exists_wanting,
    fun env hard soft constraint name => wanting_of_checkAssignment⟩
  obtain ⟨name, mentioned, absent⟩ := Expr.exists_wanting undecided
  have present := bound name mentioned
  rw [absent] at present
  cases present

/-- `x or y`. -/
def either : Expr Rat := .logic .or (.var "x") (.var "y")

/-- Truth values of some variables. -/
def truths (values : List (String × Bool)) : Env Rat := fun name => (values.lookup name).map .bool

theorem either_for_want :
    either.eval (truths [("x", true), ("y", false)]) = either.eval (truths [("x", true)]) ∧
    either.holds (truths [("x", false), ("y", false)]) ≠ .ok none ∧
    (∃ name ∈ either.vars, truths [("x", false)] name = none) ∧
    ∃ c ∈ [(⟨"some", either, 1⟩ : Constraint Rat)], c.name = "some" ∧ c.holds (truths [("x", false)]) = .ok none ∧
      "y" ∈ c.vars ∧ truths [("x", false)] "y" = none := by
  obtain ⟨stays, decides, wants, names⟩ := undecided_for_want (R := Rat)
  refine ⟨stays either _ _ (fun name value stored => ?_) fun name unbound => ?_, decides either _ ?_,
    wants either _ rfl, names _ [] [⟨"some", either, 1⟩] "some" "y" rfl⟩
  · rw [truths, Option.map_eq_some_iff] at stored ⊢
    obtain ⟨truth, found, rfl⟩ := stored
    refine ⟨truth, ?_, rfl⟩
    rw [List.lookup_cons] at found ⊢
    split at found
    · exact found
    · cases found
  · have decided : either.eval (truths [("x", true)]) = .ok (.bool true) := rfl
    rw [decided] at unbound
    cases unbound
  · decide

end Checking

end Deliberation
