import Deliberation.Proofs.Linear.Bland
import Mathlib.Algebra.Order.BigOperators.Group.List

/-!
The two phases. The first one drives the artificial columns to zero or shows that they cannot be; what it
leaves of them stands in lines without an entry in a real column. The second one finds a cheapest
solution, or a direction in which solutions become cheaper without end.
-/

namespace Deliberation.Simplex

open Finset (range)

variable {table before after reached : Table Rat} {line : Line Rat} {x : Nat → Rat} {column row j k : Nat}
  {cost : List Rat} {allowed : Nat → Bool}

/-! ### What minimizing finds -/

/-- A table that no column improves shows a cheapest solution among those that use allowed columns only. -/
theorem Table.Canonical.cost_le_worth (least : ∀ j < table.width, allowed j = true → 0 ≤ table.reducedCost cost j)
    (nonneg : ∀ j < table.width, 0 ≤ x j) (unused : ∀ j < table.width, allowed j = false → x j = 0)
    (solves : table.Solves x) : table.cost cost ≤ worth cost table.width x := by
  rw [solves.worth_eq]
  have gain : 0 ≤ ∑ j ∈ range table.width, table.reducedCost cost j * x j := by
    refine Finset.sum_nonneg ?_
    intro j inside
    have inside := Finset.mem_range.1 inside
    by_cases open_ : allowed j = true
    · exact mul_nonneg (least j inside open_) (nonneg j inside)
    · rw [unused j inside (by simpa using open_), mul_zero]
  linarith

/-- Nothing becomes negative along a direction that no line limits. -/
theorem Table.Canonical.along_nonneg (canonical : table.Canonical) (apart : ¬ table.Basic column)
    (free : ∀ line ∈ table.lines, line.entry column ≤ 0) {far : Rat} (forward : 0 ≤ far) (j : Nat) :
    0 ≤ table.shown j + far * table.direction column j := by
  have shown := canonical.shown_nonneg j
  have rises : 0 ≤ table.direction column j := by
    by_cases same : j = column
    · rw [same, Table.direction_self apart]
      exact zero_le_one
    · by_cases basic : table.Basic j
      · obtain ⟨line, member, rfl⟩ := basic
        rw [canonical.proper.direction_basic apart member]
        linarith [free line member]
      · rw [Table.direction_eq_zero same basic]
  linarith [mul_nonneg forward rises]

theorem exists_far {gain : Rat} (gains : gain < 0) (start limit : Rat) : ∃ far, 0 ≤ far ∧ start + far * gain < limit := by
  refine ⟨(|start - limit| + 1) / -gain, ?_, ?_⟩
  · exact div_nonneg (by positivity) (by linarith)
  · have length : (|start - limit| + 1) / -gain * gain = -(|start - limit| + 1) := by
      rw [div_neg, neg_mul, div_mul_cancel₀ _ gains.ne]
    rw [length]
    linarith [le_abs_self (start - limit)]

/-- What minimizing comes to: a table that no column improves, or a column that improves it and that nothing
limits. -/
inductive Minimizes (cost : List Rat) (allowed : Nat → Bool) (table : Table Rat) : Outcome Rat → Prop
  | optimal {reached : Table Rat} (reaches : Relation.ReflTransGen (Step cost allowed) table reached)
      (least : ∀ j < reached.width, allowed j = true → 0 ≤ reached.reducedCost cost j) :
      Minimizes cost allowed table (.optimal reached)
  | unbounded {reached : Table Rat} {column : Nat} (reaches : Relation.ReflTransGen (Step cost allowed) table reached)
      (enters : Enters cost allowed reached column) (free : ∀ line ∈ reached.lines, line.entry column ≤ 0) :
      Minimizes cost allowed table .unbounded

theorem minimizes (canonical : table.Canonical) (cost : List Rat) (allowed : Nat → Bool) :
    Minimizes cost allowed table (minimize 0 cost allowed (stepBound table) table) := by
  have ends := ends_minimize cost allowed (stepBound table) table
  generalize minimize 0 cost allowed (stepBound table) table = outcome at ends
  cases ends with
  | optimal reaches least => exact .optimal reaches fun j inside open_ => reducedCost_nonneg_of_entering? least inside open_
  | unbounded reaches enters free => exact .unbounded reaches enters free
  | unending run start step =>
    subst start
    have few := not_unending canonical step
    simp only [stepBound, Nat.pow_eq] at few
    omega

/-! ### The first phase -/

/-- Values that a table allows: none is negative, every line is true, and no artificial column has any. -/
structure Table.Allows (table : Table Rat) (x : Nat → Rat) : Prop where
  nonneg : ∀ j < table.width, 0 ≤ x j
  solves : table.Solves x
  real : ∀ j < table.width, table.isArtificial j = true → x j = 0

theorem Table.Kin.allows (kin : before.Kin after) : after.Allows x ↔ before.Allows x := by
  constructor
  · rintro ⟨nonneg, solves, real⟩
    rw [kin.width] at nonneg real
    refine ⟨nonneg, (kin.solves x).1 solves, ?_⟩
    intro j inside artificial
    exact real j inside (kin.isArtificial j ▸ artificial)
  · rintro ⟨nonneg, solves, real⟩
    rw [← kin.width] at nonneg real
    refine ⟨nonneg, (kin.solves x).2 solves, ?_⟩
    intro j inside artificial
    exact real j inside (kin.isArtificial j ▸ artificial)

/-- The cost that counts what the artificial columns have. -/
def artificialCost (table : Table Rat) : List Rat := table.artificial.map fun artificial => if artificial then 1 else 0

theorem getD_artificialCost : (artificialCost table).getD j 0 = if table.isArtificial j then 1 else 0 :=
  Lists.getD_map (f := fun artificial : Bool => if artificial then (1 : Rat) else 0) (if_neg Bool.false_ne_true) _ j

theorem worth_artificialCost_nonneg (nonneg : ∀ j < table.width, 0 ≤ x j) :
    0 ≤ worth (artificialCost table) table.width x := by
  refine Finset.sum_nonneg ?_
  intro j inside
  rw [getD_artificialCost]
  split
  · rw [one_mul]
    exact nonneg j (Finset.mem_range.1 inside)
  · rw [zero_mul]

theorem Table.Allows.worth_artificialCost (allows : table.Allows x) : worth (artificialCost table) table.width x = 0 := by
  refine Finset.sum_eq_zero ?_
  intro j inside
  rw [getD_artificialCost]
  split
  · next artificial => rw [allows.real j (Finset.mem_range.1 inside) artificial, mul_zero]
  · rw [zero_mul]

/-- Artificial columns that are still basic have nothing. -/
def Table.Empty (table : Table Rat) : Prop :=
  ∀ line ∈ table.lines, table.isArtificial line.basic = true → line.bound = 0

/-- No real column has an entry in a line with an artificial basic column. -/
def Table.Redundant (table : Table Rat) (line : Line Rat) : Prop :=
  table.isArtificial line.basic = true → ∀ j < table.width, table.isArtificial j = false → line.entry j = 0

theorem Table.Canonical.empty_of_cost (canonical : table.Canonical) (none : ¬ 0 < table.cost (artificialCost table)) :
    table.Empty := by
  intro line member artificial
  have each : ∀ amount ∈ table.lines.map fun line => (artificialCost table).getD line.basic 0 * line.bound, 0 ≤ amount := by
    intro amount among
    obtain ⟨other, there, rfl⟩ := List.mem_map.1 among
    refine mul_nonneg ?_ (canonical.nonneg other there)
    rw [getD_artificialCost]
    split
    · exact zero_le_one
    · exact le_rfl
  have part := List.single_le_sum each _ (List.mem_map_of_mem member)
  rw [getD_artificialCost, if_pos artificial, one_mul] at part
  rw [Table.cost, Scalar.sum_eq] at none
  exact le_antisymm (part.trans (not_lt.1 none)) (canonical.nonneg line member)

/-- What holds after some lines have been gone through: no artificial column has anything, and those lines
have no basic one or no real entry. -/
structure Expelled (start : Table Rat) (k : Nat) (table : Table Rat) : Prop where
  canonical : table.Canonical
  kin : start.Kin table
  empty : table.Empty
  redundant : ∀ i < k, ∀ line, table.lines[i]? = some line → table.Redundant line

/-- A pivot on a real column in an empty line with an artificial one changes no bound, and no line that was
gone through. -/
theorem Expelled.pivot {start : Table Rat} (expelled : Expelled start k table) (listed : table.lines[k]? = some line)
    (artificial : table.isArtificial line.basic = true) (within : column < table.width)
    (real : table.isArtificial column = false) (nonzero : line.entry column ≠ 0) :
    Expelled start (k + 1) (table.pivot k column) := by
  have proper := expelled.canonical.proper
  have member := List.mem_of_getElem? listed
  have none : line.bound = 0 := expelled.empty line member artificial
  have kin := proper.kin_pivot listed nonzero
  have bound (other : Line Rat) (there : other ∈ table.lines) : (line.swap column other).bound = other.bound := by
    by_cases same : other.basic = line.basic
    · cases proper.basic_inj there member same
      rw [Line.swap_self, Line.divide, none, zero_div]
    · rw [Line.bound_swap same, none, zero_div, mul_zero, sub_zero]
  constructor
  · refine ⟨proper.pivot listed nonzero within, ?_⟩
    intro new among
    obtain ⟨other, there, rfl⟩ := (proper.mem_pivot listed).1 among
    rw [bound other there]
    exact expelled.canonical.nonneg other there
  · exact expelled.kin.trans kin
  · intro new among still
    obtain ⟨other, there, rfl⟩ := (proper.mem_pivot listed).1 among
    rw [kin.isArtificial, Line.basic_swap] at still
    split at still
    · rw [real] at still
      cases still
    · rw [bound other there]
      exact expelled.empty other there still
  · intro i below new at_i still j inside open_
    rw [proper.lines_pivot listed, List.getElem?_map, Option.map_eq_some_iff] at at_i
    obtain ⟨other, other_listed, rfl⟩ := at_i
    rw [kin.isArtificial, Line.basic_swap] at still
    split at still
    · rw [real] at still
      cases still
    · next apart =>
      have before : i < k := by
        refine lt_of_le_of_ne (by omega) ?_
        rintro rfl
        cases Option.some.inj (other_listed.symm.trans listed)
        exact apart rfl
      have there := List.mem_of_getElem? other_listed
      have zero := expelled.redundant i before other other_listed still
      rw [width_pivot] at inside
      rw [kin.isArtificial] at open_
      rw [Line.entry_swap (proper.even listed there) apart,
        zero column within real, zero j inside open_, zero_mul, sub_zero]

theorem Expelled.expel {start : Table Rat} (expelled : Expelled start k table) :
    Expelled start (k + 1) (expel 0 table k) := by
  have still (settled : ∀ line, table.lines[k]? = some line → table.Redundant line) : Expelled start (k + 1) table := by
    refine ⟨expelled.canonical, expelled.kin, expelled.empty, ?_⟩
    intro i below line listed
    rcases Nat.lt_succ_iff_lt_or_eq.1 below with earlier | rfl
    · exact expelled.redundant i earlier line listed
    · exact settled line listed
  rw [Simplex.expel]
  split
  · next missing =>
    refine still ?_
    intro line listed
    rw [missing] at listed
    cases listed
  · next line listed =>
    by_cases artificial : table.isArtificial line.basic = true
    · rw [if_pos artificial]
      split
      · next column found =>
        have chosen := List.find?_some found
        have within := List.mem_range.1 (List.mem_of_find?_eq_some found)
        simp only [Bool.and_eq_true, Bool.not_eq_true', decide_eq_true_eq, Scalar.abs_eq] at chosen
        exact expelled.pivot listed artificial within chosen.1 (abs_pos.1 chosen.2)
      · next none =>
        refine still ?_
        intro other there _ j inside open_
        cases Option.some.inj (listed.symm.trans there)
        have refused := List.find?_eq_none.1 none j (List.mem_range.2 inside)
        simp only [open_, Bool.not_false, Bool.true_and, decide_eq_true_eq] at refused
        exact Line.entry_eq_zero refused
    · rw [if_neg artificial]
      refine still ?_
      intro other there basic
      cases Option.some.inj (listed.symm.trans there)
      exact absurd basic artificial

/-- A table for the second phase: what is left of the artificial columns has nothing and takes no part. -/
structure Table.Ready (table : Table Rat) : Prop where
  canonical : table.Canonical
  empty : table.Empty
  redundant : ∀ line ∈ table.lines, table.Redundant line

theorem length_expel (table : Table Rat) (row : Nat) : (expel 0 table row).lines.length = table.lines.length := by
  have kept (column : Nat) : (table.pivot row column).lines.length = table.lines.length := by
    rw [Table.pivot]
    split <;> simp
  rw [Simplex.expel]
  split
  · rfl
  · split
    · split
      · exact kept _
      · rfl
    · rfl

/-- Driving out the artificial columns leaves a table for the second phase. -/
theorem ready_expelled (canonical : table.Canonical) (empty : table.Empty) :
    ((List.range table.lines.length).foldl (expel 0) table).Ready ∧
      table.Kin ((List.range table.lines.length).foldl (expel 0) table) := by
  have after (k : Nat) : Expelled table k ((List.range k).foldl (expel 0) table) ∧
      ((List.range k).foldl (expel 0) table).lines.length = table.lines.length := by
    induction k with
    | zero => exact ⟨⟨canonical, .refl table, empty, fun i below => absurd below (Nat.not_lt_zero i)⟩, rfl⟩
    | succ k ih =>
      rw [List.range_succ, List.foldl_append]
      exact ⟨ih.1.expel, (length_expel _ k).trans ih.2⟩
  obtain ⟨expelled, length⟩ := after table.lines.length
  refine ⟨⟨expelled.canonical, expelled.empty, ?_⟩, expelled.kin⟩
  intro line member
  obtain ⟨i, listed⟩ := List.mem_iff_getElem?.1 member
  obtain ⟨below, _⟩ := List.getElem?_eq_some_iff.1 listed
  exact expelled.redundant i (length ▸ below) line listed

/-- A table without artificial columns is ready at once. -/
theorem Table.Canonical.ready_of_real (canonical : table.Canonical) (real : ¬ table.artificial.any id = true) : table.Ready := by
  have none (j : Nat) : table.isArtificial j = false := by
    rw [Table.isArtificial, List.getD_eq_getElem?_getD]
    cases there : table.artificial[j]? with
    | none => rfl
    | some artificial =>
      by_contra marked
      exact real (List.any_eq_true.2 ⟨artificial, List.mem_of_getElem? there, by simpa using marked⟩)
  refine ⟨canonical, ?_, ?_⟩
  · intro line _ artificial
    rw [none] at artificial
    cases artificial
  · intro line _ artificial
    rw [none] at artificial
    cases artificial

/-- What the first phase comes to: a table for the second one, or none where nothing is allowed. -/
inductive Prepares (table : Table Rat) : Except Abort (Option (Table Rat)) → Prop
  | ready {ready : Table Rat} (fits : ready.Ready) (kin : table.Kin ready) : Prepares table (.ok (some ready))
  | none (empty : ∀ x, ¬ table.Allows x) : Prepares table (.ok none)

theorem artificialCost_eq (kin : before.Kin after) : artificialCost after = artificialCost before := by
  rw [artificialCost, artificialCost, kin.artificial]

/-- What the artificial columns have cannot fall without end. -/
theorem not_free (canonical : table.Canonical) (enters : Enters (artificialCost table) allowed table column)
    (free : ∀ line ∈ table.lines, line.entry column ≤ 0) : False := by
  have apart := enters.not_basic canonical.proper
  obtain ⟨far, forward, low⟩ := exists_far enters.improves (table.cost (artificialCost table)) 0
  have along : worth (artificialCost table) table.width (fun j => table.shown j + far * table.direction column j) =
      worth (artificialCost table) table.width table.shown + far * table.reducedCost (artificialCost table) column :=
    canonical.proper.worth_along enters.within apart canonical.proper.solves_shown far
  rw [canonical.proper.worth_shown] at along
  have nonneg : 0 ≤ worth (artificialCost table) table.width fun j => table.shown j + far * table.direction column j :=
    worth_artificialCost_nonneg fun j _ => canonical.along_nonneg apart free forward j
  rw [along] at nonneg
  exact absurd low (not_lt.2 nonneg)

theorem prepares_phaseOne (canonical : table.Canonical) : Prepares table (phaseOne ⟨0, 0⟩ table) := by
  have minimizes := minimizes canonical (artificialCost table) fun _ => true
  rw [phaseOne]
  extract_lets counted
  split
  · split
    · next ended =>
      rw [show minimize 0 (artificialCost table) _ _ table = _ from ended] at minimizes
      cases minimizes
    · next ended =>
      rw [show minimize 0 (artificialCost table) _ _ table = _ from ended] at minimizes
      cases minimizes with
      | unbounded reaches enters free =>
        obtain ⟨there, kin⟩ := canonical_of_reaches reaches canonical
        rw [← artificialCost_eq kin] at enters
        exact (not_free there enters free).elim
    · next reached ended =>
      rw [show minimize 0 (artificialCost table) _ _ table = _ from ended] at minimizes
      cases minimizes with
      | optimal reaches least =>
        obtain ⟨there, kin⟩ := canonical_of_reaches reaches canonical
        have same : artificialCost reached = counted := artificialCost_eq kin
        split
        · next left =>
          refine .none ?_
          intro x allows
          have allowed := kin.allows.2 allows
          have lowest := Table.Canonical.cost_le_worth least allowed.nonneg (by simp) allowed.solves
          rw [← artificialCost_eq kin, allowed.worth_artificialCost, same] at lowest
          exact absurd left (not_lt.2 lowest)
        · next none =>
          obtain ⟨ready, onward⟩ := ready_expelled there (there.empty_of_cost (same ▸ none))
          exact .ready ready (kin.trans onward)
  · next real => exact .ready (canonical.ready_of_real real) (.refl table)

/-! ### The second phase -/

theorem Table.Ready.allows_shown (ready : table.Ready) : table.Allows table.shown := by
  refine ⟨fun j _ => ready.canonical.shown_nonneg j, ready.canonical.proper.solves_shown, ?_⟩
  intro j _ artificial
  by_cases basic : table.Basic j
  · obtain ⟨line, member, rfl⟩ := basic
    rw [ready.canonical.proper.shown_basic member, ready.empty line member artificial]
  · exact Table.shown_eq_zero basic

/-- A step over real columns leaves the lines alone that have an artificial basic column. -/
theorem Step.ready (step : Step cost (fun column => !before.isArtificial column) before after) (ready : before.Ready) :
    after.Ready := by
  have canonical := step.canonical ready.canonical
  have kin := step.kin ready.canonical
  cases step with
  | @pivot column row line enters leaves =>
    have proper := ready.canonical.proper
    have real : before.isArtificial column = false := by simpa using enters.admitted
    -- A line with an artificial basic column does not limit a real one, so it is another line and has no entry there.
    have untouched (other : Line Rat) (there : other ∈ before.lines)
        (artificial : before.isArtificial (line.swap column other).basic = true) :
        other.basic ≠ line.basic ∧ before.isArtificial other.basic = true ∧ other.entry column = 0 := by
      rw [Line.basic_swap] at artificial
      split at artificial
      · rw [real] at artificial
        cases artificial
      · next apart =>
        exact ⟨apart, artificial, ready.redundant other there artificial column enters.within real⟩
    refine ⟨canonical, ?_, ?_⟩
    · intro new among artificial
      rw [kin.isArtificial] at artificial
      obtain ⟨other, there, rfl⟩ := (proper.mem_pivot leaves.listed).1 among
      obtain ⟨apart, old, none⟩ := untouched other there artificial
      rw [Line.bound_swap apart, none, zero_mul, sub_zero]
      exact ready.empty other there old
    · intro new among artificial j inside open_
      rw [kin.isArtificial] at artificial open_
      rw [kin.width] at inside
      obtain ⟨other, there, rfl⟩ := (proper.mem_pivot leaves.listed).1 among
      obtain ⟨apart, old, none⟩ := untouched other there artificial
      rw [Line.entry_swap (proper.even leaves.listed there) apart, none, zero_mul, sub_zero]
      exact ready.redundant other there old j inside open_

theorem ready_of_reaches (reaches : Relation.ReflTransGen (Step cost fun column => !table.isArtificial column) table reached)
    (ready : table.Ready) : reached.Ready ∧ table.Kin reached := by
  induction reaches with
  | refl => exact ⟨ready, .refl table⟩
  | tail _ step ih =>
    obtain ⟨there, kin⟩ := ih
    have onward := step.kin there.canonical
    simp only [← kin.isArtificial] at step
    exact ⟨step.ready there, kin.trans onward⟩

/-- What the second phase comes to: a table that shows a cheapest of the allowed values, or none where they
become cheaper without end. -/
inductive Concludes (cost : List Rat) (table : Table Rat) : Except Abort (Option (Table Rat)) → Prop
  | cheapest {last : Table Rat} (ready : last.Ready) (kin : table.Kin last)
      (least : ∀ x, table.Allows x → worth cost table.width last.shown ≤ worth cost table.width x) :
      Concludes cost table (.ok (some last))
  | endless (lower : ∀ limit, ∃ x, table.Allows x ∧ worth cost table.width x < limit) : Concludes cost table (.ok none)

/-- Along a direction of a real column that no line limits, all values are allowed. -/
theorem Table.Ready.allows_along (ready : table.Ready) (within : column < table.width)
    (real : table.isArtificial column = false) (apart : ¬ table.Basic column)
    (free : ∀ line ∈ table.lines, line.entry column ≤ 0) {far : Rat} (forward : 0 ≤ far) :
    table.Allows fun j => table.shown j + far * table.direction column j := by
  refine ⟨fun j _ => ready.canonical.along_nonneg apart free forward j,
    ready.canonical.proper.solves_along within ready.canonical.proper.solves_shown far, ?_⟩
  intro j inside artificial
  rw [ready.allows_shown.real j inside artificial, zero_add]
  by_cases basic : table.Basic j
  · obtain ⟨line, member, rfl⟩ := basic
    rw [ready.canonical.proper.direction_basic apart member,
      ready.redundant line member artificial column within real, neg_zero, mul_zero]
  · have other : j ≠ column := by
      rintro rfl
      rw [real] at artificial
      cases artificial
    rw [Table.direction_eq_zero other basic, mul_zero]

theorem concludes_phaseTwo (ready : table.Ready) (cost : List Rat) : Concludes cost table (phaseTwo ⟨0, 0⟩ cost table) := by
  have minimizes := minimizes ready.canonical cost fun column => !table.isArtificial column
  rw [phaseTwo]
  split
  · next ended =>
    rw [ended] at minimizes
    cases minimizes
  · next ended =>
    rw [ended] at minimizes
    cases minimizes with
    | @unbounded reached column reaches enters free =>
      obtain ⟨there, kin⟩ := ready_of_reaches reaches ready
      have apart := enters.not_basic there.canonical.proper
      have real : reached.isArtificial column = false := by
        rw [kin.isArtificial]
        simpa using enters.admitted
      refine .endless ?_
      intro limit
      obtain ⟨far, forward, low⟩ := exists_far enters.improves (reached.cost cost) limit
      refine ⟨_, kin.allows.1 (there.allows_along enters.within real apart free forward), ?_⟩
      rw [← kin.width, there.canonical.proper.worth_along enters.within apart there.canonical.proper.solves_shown,
        there.canonical.proper.worth_shown]
      exact low
  · next last ended =>
    rw [ended] at minimizes
    cases minimizes with
    | optimal reaches least =>
      obtain ⟨there, kin⟩ := ready_of_reaches reaches ready
      refine .cheapest there kin ?_
      intro x allows
      have allowed := kin.allows.2 allows
      rw [← kin.width, there.canonical.proper.worth_shown]
      refine Table.Canonical.cost_le_worth least allowed.nonneg ?_ allowed.solves
      intro j inside closed
      exact allowed.real j inside (by simpa [kin.isArtificial] using closed)

end Deliberation.Simplex
