import Deliberation.Proofs.Inference.Cycles

/-!
The circle that a search reports, read along the rules. It is a piece of the stack of open goals as it was
when one of them came up again, turned around: each fact on it asks for the next one. Open goals are not
asserted and differ from one another, so the circle is no longer than it has to be.
-/

namespace Deliberation

/-- Along a closed walk each fact asks for the next one under some rule, none is asserted, and only the first
comes up again, at the end. -/
structure Rule.ClosedWalk (facts : FactSet) (rules : List Rule) (cycle : List Fact) : Prop where
  long : 2 ≤ cycle.length
  closed : cycle.head? = cycle.getLast?
  distinct : cycle.dropLast.Nodup
  unasserted : ∀ fact ∈ cycle, fact ∉ facts
  linked : cycle.IsChain fun goal fact => Rule.Asked rules fact goal

namespace Backward

variable {facts : FactSet} {rules : List Rule} {pool : List String} {openGoals : List Fact} {goal : Fact} {memory : Memory}

/-- The stack is cut at the goal that is met again, and the circle goes back over what is in front of it. -/
theorem MetWith.walk_eq {opened cycle : List Fact} (met : MetWith rules opened goal cycle) :
    ∃ inner outer, opened = inner ++ goal :: outer ∧ goal ∉ inner ∧ cycle = goal :: inner.reverse ++ [goal] := by
  obtain ⟨inner, outer, rfl, absent⟩ := List.eq_append_cons_of_mem met.again
  refine ⟨inner, outer, rfl, absent, ?_⟩
  have others : ∀ fact ∈ inner, decide (fact ≠ goal) := fun fact member =>
    decide_eq_true (ne_of_mem_of_not_mem member absent)
  rw [met.cycle_eq, Lists.takeWhile_append_closed others (by simp)]

/-- When a goal comes up again among others that are neither equal nor asserted, the circle is a closed walk. -/
theorem MetWith.closedWalk {opened cycle : List Fact} (met : MetWith rules opened goal cycle) (distinct : opened.Nodup)
    (unasserted : ∀ other ∈ opened, other ∉ facts) : Rule.ClosedWalk facts rules cycle := by
  obtain ⟨inner, outer, rfl, absent, rfl⟩ := met.walk_eq
  refine ⟨by simp, List.getLast?_concat.symm, ?_, fun fact member => unasserted fact (met.mem_opened member), ?_⟩
  · rw [List.dropLast_concat, List.nodup_cons, List.mem_reverse, List.nodup_reverse]
    exact ⟨absent, distinct.of_append_left⟩
  · -- the stack has the goal opened last in front
    have stack : (goal :: inner ++ [goal]).IsChain (Rule.Asked rules) :=
      met.linked.prefix ⟨outer, by simp⟩
    simpa using List.isChain_reverse.2 stack

/-- Open goals are not asserted, and the first circle is a closed walk. -/
structure Memory.Walks (facts : FactSet) (rules : List Rule) (openGoals : List Fact) (memory : Memory) : Prop where
  unasserted : ∀ other ∈ openGoals, other ∉ facts
  closed : ∀ cycle, memory.firstCycle = some cycle → Rule.ClosedWalk facts rules cycle

theorem Memory.Walks.meetCycle {depth : Nat} {tentative : Bool} (walks : memory.Walks facts rules openGoals)
    (call : Call rules pool depth openGoals goal) (again : goal ∈ openGoals) :
    (Backward.meetCycle openGoals tentative goal memory).Walks facts rules openGoals := by
  refine ⟨walks.unasserted, fun cycle first => ?_⟩
  rcases firstCycle_meetCycle first with known | same
  · exact walks.closed cycle known
  · have met : MetWith rules openGoals goal cycle := ⟨again, same, call.linked⟩
    exact met.closedWalk call.distinct walks.unasserted

theorem Memory.Walks.conclude {cyclesBefore : Nat} {found : Option Proof} (walks : memory.Walks facts rules (goal :: openGoals)) :
    (Backward.conclude cyclesBefore goal found memory).Walks facts rules openGoals := by
  refine ⟨(List.forall_mem_cons.1 walks.unasserted).2, fun cycle first => ?_⟩
  rw [firstCycle_conclude] at first
  exact walks.closed cycle first

theorem lawful_of_walks : Lawful facts rules pool (fun openGoals memory => memory.Walks facts rules openGoals)
    (fun _ _ => True) fun _ _ _ => True where
  good_follows _ _ := trivial
  givenUp_follows _ _ := trivial
  asserted _ := trivial
  opens unknown walks := ⟨List.forall_mem_cons.2 ⟨unknown.unasserted, walks.unasserted⟩, walks.closed⟩
  refuted _ _ := trivial
  circle call again walks := ⟨walks.meetCycle call again, trivial⟩
  found tried _ _ := ⟨tried.keeps.conclude, trivial⟩
  failed tried _ := ⟨tried.keeps.conclude, trivial⟩

/-- A circle that is reported is a closed walk. -/
theorem circularDependency_closedWalk {query : Atom} {cycle : List Fact}
    (raised : prove query facts rules = .error (.circularDependency cycle)) : Rule.ClosedWalk facts rules cycle := by
  obtain ⟨goal, rfl⟩ := exists_toAtom_of_prove fun error same => ⟨cycle, Except.error.inj (same.symm.trans raised)⟩
  have walks : (finalMemory goal facts rules).Walks facts rules [] :=
    Lawful.finalMemory (fun _ _ => lawful_of_walks) ⟨by simp, fun cycle first => by cases first⟩ goal
  exact walks.closed cycle (firstCycle_of_prove raised).2

/-- Who is at home stays unless leaving or called, and leaves if it is known who stays. -/
def staying : List Rule :=
  [⟨none, [.positive ⟨"stays", [.var "x"]⟩], ⟨"lit", [.var "x"]⟩⟩,
    ⟨none, [.positive ⟨"home", [.var "x"]⟩, .negative ⟨"leaves", [.var "x"]⟩, .negative ⟨"called", [.var "x"]⟩], ⟨"stays", [.var "x"]⟩⟩,
    ⟨none, [.positive ⟨"stays", [.var "x"]⟩], ⟨"leaves", [.var "x"]⟩⟩]

def atHome : FactSet := .ofList [⟨"home", ["ann"]⟩, ⟨"called", ["ann"]⟩]

/-- The circle leaves out the query that led to it, and it goes through a negated literal. -/
theorem staying_closedWalk :
    prove (Fact.toAtom ⟨"lit", ["ann"]⟩) atHome staying =
        .error (.circularDependency [⟨"stays", ["ann"]⟩, ⟨"leaves", ["ann"]⟩, ⟨"stays", ["ann"]⟩]) ∧
      Rule.ClosedWalk atHome staying [⟨"stays", ["ann"]⟩, ⟨"leaves", ["ann"]⟩, ⟨"stays", ["ann"]⟩] := by
  have raised : prove (Fact.toAtom ⟨"lit", ["ann"]⟩) atHome staying =
      .error (.circularDependency [⟨"stays", ["ann"]⟩, ⟨"leaves", ["ann"]⟩, ⟨"stays", ["ann"]⟩]) := rfl
  exact ⟨raised, circularDependency_closedWalk raised⟩

end Backward

end Deliberation
