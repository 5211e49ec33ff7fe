import Deliberation.Proofs.Inference.Absence

/-!
The tree of a proof. Its leaves are asserted, each other node applies a rule to the goals right below it, and
no goal comes up again below itself. The last holds although proofs are remembered and put into others: all
goals of a remembered proof are known, while a goal that is being proven is not known yet.
-/

namespace Deliberation

namespace Proof

/-- A proof derives its goal: what it takes as asserted is a fact, and the rule of each other node, which the
label names, makes its goal of those of the premises and of what is absent. -/
inductive Derives (facts : FactSet) (rules : List Rule) : Proof → Prop
  | asserted {goal : Fact} (known : goal ∈ facts) : Derives facts rules (.asserted goal)
  | rule {rule : Rule} {place : Nat} {goal : Fact} {premises : List Proof} {absent : List Fact}
      (listed : (rule, place) ∈ rules.zipIdx) (applies : rule.Applies goal (premises.map Proof.goal) absent)
      (proven : ∀ premise ∈ premises, Derives facts rules premise) :
      Derives facts rules (.rule goal (rule.label place) premises absent)

/-- A path leads from the root of a proof down to a node; it is given by the goals on it. -/
inductive Descends : Proof → List Fact → Prop
  | root (proof : Proof) : Descends proof [proof.goal]
  | premise {goal : Fact} {label : String} {premises : List Proof} {absent path : List Fact} {premise : Proof}
      (among : premise ∈ premises) (further : Descends premise path) :
      Descends (.rule goal label premises absent) (goal :: path)

theorem Descends.mem_goals {proof : Proof} {path : List Fact} (descends : proof.Descends path) :
    ∀ fact ∈ path, fact ∈ proof.goals := by
  induction descends with
  | root proof => exact List.forall_mem_singleton.2 proof.goal_mem_goals
  | premise among _ ih =>
    refine List.forall_mem_cons.2 ⟨goal_mem_goals (.rule ..), fun fact member => ?_⟩
    rw [goals, List.mem_cons, mem_goalsOf]
    exact .inr ⟨_, among, ih fact member⟩

/-- No goal occurs twice on a path. -/
def Acyclic (proof : Proof) : Prop := ∀ path, proof.Descends path → path.Nodup

theorem Acyclic.asserted (goal : Fact) : Acyclic (.asserted goal) := by
  rintro _ ⟨_⟩
  exact List.nodup_singleton goal

/-- A goal that does not come up in the proofs of the premises can go above them. -/
theorem Acyclic.rule {goal : Fact} {label : String} {premises : List Proof} {absent : List Fact}
    (acyclic : ∀ premise ∈ premises, premise.Acyclic) (fresh : ∀ premise ∈ premises, goal ∉ premise.goals) :
    Acyclic (.rule goal label premises absent) := by
  intro path descends
  cases descends with
  | root => exact List.nodup_singleton goal
  | @premise _ _ _ _ path premise among further =>
    exact List.nodup_cons.2 ⟨fun member => fresh premise among (further.mem_goals goal member),
      acyclic premise among path further⟩

end Proof

namespace Backward

variable {facts : FactSet} {rules : List Rule} {pool : List String}

/-- A proof that may be put into others: it derives its goal, no goal comes up again below itself, and all of
them are known. -/
structure Usable (facts : FactSet) (rules : List Rule) (memory : Memory) (proof : Proof) : Prop where
  derives : proof.Derives facts rules
  acyclic : proof.Acyclic
  known : ∀ fact ∈ proof.goals, memory.Has facts fact

theorem Usable.follows {openGoals : List Fact} {before after : Memory} {proof : Proof}
    (usable : Usable facts rules before proof) (follows : before.Follows openGoals after) : Usable facts rules after proof :=
  ⟨usable.derives, usable.acyclic, fun fact member => follows.has (usable.known fact member)⟩

/-- A goal for which rules have been tried is not known yet, so no proof that may be used contains it. -/
theorem Tried.fresh {invariant : List Fact → Memory → Prop} {depth : Nat} {openGoals : List Fact} {goal : Fact}
    {before after : Memory} (tried : Tried facts rules pool invariant depth openGoals goal before after) {proof : Proof}
    (usable : Usable facts rules after proof) : goal ∉ proof.goals := by
  intro member
  rcases usable.known goal member with asserted | found
  · exact tried.unknown.unasserted asserted
  · simp [tried.unproven] at found

theorem lawful_of_usable : Lawful facts rules pool (fun _ _ => True) (Usable facts rules) fun _ _ _ => True where
  good_follows follows usable := usable.follows follows
  givenUp_follows _ _ := trivial
  asserted known := ⟨.asserted known, .asserted _, by simpa [Proof.goals] using .inl known⟩
  opens _ _ := trivial
  refuted _ _ := trivial
  circle _ _ _ := ⟨trivial, trivial⟩
  found := by
    intro depth openGoals goal before after rule place proof premises absent tried listed byRule
    obtain ⟨rfl, applies, proven, _⟩ := byRule
    have usable (premise : Proof) (among : premise ∈ premises) : Usable facts rules after premise := (proven premise among).2
    have derives : (Proof.rule goal (rule.label place) premises absent).Derives facts rules :=
      .rule listed applies fun premise among => (usable premise among).derives
    have acyclic : (Proof.rule goal (rule.label place) premises absent).Acyclic :=
      .rule (fun premise among => (usable premise among).acyclic) fun premise among => tried.fresh (usable premise among)
    refine ⟨trivial, derives, acyclic, fun fact member => ?_⟩
    rw [Proof.goals, List.mem_cons, Proof.mem_goalsOf] at member
    rcases member with rfl | ⟨premise, among, member⟩
    · exact .inr (by simp [conclude])
    · exact (follows_conclude tried.unknown.closed ..).has ((usable premise among).known fact member)
  failed _ _ := ⟨trivial, trivial⟩

/-- A proof that is found is one of the query, it derives it, and no goal occurs twice on a path through it. -/
theorem prove_derives {query : Atom} {proof : Proof} (proved : prove query facts rules = .ok (some proof)) :
    proof.goal.toAtom = query ∧ proof.Derives facts rules ∧ proof.Acyclic := by
  obtain ⟨goal, rfl⟩ := exists_toAtom_of_prove fun error refused => by rw [proved] at refused; cases refused
  obtain ⟨pool, covers, overPool, enough⟩ := exists_pool facts rules goal
  obtain ⟨_, own, usable⟩ := lawful_of_usable.of_prove covers overPool enough trivial proved
  exact ⟨congrArg Fact.toAtom own, usable.derives, usable.acyclic⟩

/-- A member is trusted unless barred, and so is who a trusted one knows. -/
def trust : List Rule :=
  [⟨some "vouch", [.positive ⟨"trusted", [.var "y"]⟩, .positive ⟨"knows", [.var "y", .var "x"]⟩, .negative ⟨"barred", [.var "x"]⟩],
      ⟨"trusted", [.var "x"]⟩⟩,
    ⟨none, [.positive ⟨"member", [.var "x"]⟩, .negative ⟨"barred", [.var "x"]⟩], ⟨"trusted", [.var "x"]⟩⟩]

def acquaintances : FactSet := .ofList
  [⟨"knows", ["a", "b"]⟩, ⟨"knows", ["b", "a"]⟩, ⟨"knows", ["b", "c"]⟩, ⟨"member", ["a"]⟩, ⟨"barred", ["d"]⟩]

/-- Those who know each other could vouch for each other, but the proof goes back to the member. -/
def vouched : Proof :=
  .rule ⟨"trusted", ["c"]⟩ "vouch"
    [.rule ⟨"trusted", ["b"]⟩ "vouch"
        [.rule ⟨"trusted", ["a"]⟩ "rule#1" [.asserted ⟨"member", ["a"]⟩] [⟨"barred", ["a"]⟩], .asserted ⟨"knows", ["a", "b"]⟩]
        [⟨"barred", ["b"]⟩],
      .asserted ⟨"knows", ["b", "c"]⟩]
    [⟨"barred", ["c"]⟩]

theorem vouched_derives : prove (Fact.toAtom ⟨"trusted", ["c"]⟩) acquaintances trust = .ok (some vouched) ∧
    vouched.Derives acquaintances trust ∧ vouched.Acyclic := by
  have proved : prove (Fact.toAtom ⟨"trusted", ["c"]⟩) acquaintances trust = .ok (some vouched) := rfl
  exact ⟨proved, (prove_derives proved).2⟩

end Backward

end Deliberation
