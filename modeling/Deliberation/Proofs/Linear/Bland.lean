import Deliberation.Proofs.Linear.Descent
import Mathlib.Algebra.Order.BigOperators.Group.Finset
import Mathlib.Data.Finset.Card
import Mathlib.Data.Finset.Powerset
import Mathlib.Data.Nat.Find

/-!
Minimizing comes to an end. If a basis came twice, the cost would be the same all along the way and so
would the solution shown. Take the last column that enters on the way: where it leaves, a direction gains
on the cost; where it enters, the choice of the first improving column leaves nothing that could gain.
So each pivot leads to a new set of basic columns, and of those there are only so many.
-/

namespace Deliberation.Simplex

open Finset (range)

variable {table before after : Table Rat} {line : Line Rat} {column row j : Nat} {cost : List Rat}
  {allowed : Nat → Bool} {run : Nat → Table Rat} {n p q : Nat}

theorem Enters.not_basic (enters : Enters cost allowed table column) (proper : table.Proper) : ¬ table.Basic column := by
  rintro ⟨line, member, rfl⟩
  have improves := enters.improves
  rw [proper.reducedCost_basic member] at improves
  exact lt_irrefl _ improves

/-- A pivot changes the cost by what the entering column then has, at its reduced cost. -/
theorem cost_pivot (canonical : table.Canonical) (enters : Enters cost allowed table column)
    (leaves : Leaves table column row line) : (table.pivot row column).cost cost =
      table.cost cost + table.reducedCost cost column * (table.pivot row column).shown column := by
  have proper := canonical.proper
  have next := (leaves.canonical_pivot canonical enters.within).proper
  have solves := (proper.solves_pivot leaves.listed leaves.positive.ne').1 next.solves_shown
  rw [← next.worth_shown, width_pivot, solves.worth_eq, Finset.sum_eq_single column]
  · intro j _ apart
    by_cases basic : table.Basic j
    · obtain ⟨other, member, rfl⟩ := basic
      rw [proper.reducedCost_basic member, zero_mul]
    · rw [Table.shown_eq_zero, mul_zero]
      rw [proper.basic_pivot leaves.listed]
      rintro (rfl | ⟨_, same⟩)
      · exact apart rfl
      · exact basic same
  · intro outside
    exact absurd (Finset.mem_range.2 enters.within) outside

theorem Step.cost_le (step : Step cost allowed before after) (canonical : before.Canonical) :
    after.cost cost ≤ before.cost cost := by
  have shown := (step.canonical canonical).shown_nonneg
  cases step with
  | @pivot column _ _ enters leaves =>
    rw [cost_pivot canonical enters leaves]
    have loss := mul_nonpos_of_nonpos_of_nonneg enters.improves.le (shown column)
    linarith

/-- A step that does not lower the cost does not change the solution shown. -/
theorem Step.shown_eq (step : Step cost allowed before after) (canonical : before.Canonical)
    (same : after.cost cost = before.cost cost) (inside : j < before.width) : after.shown j = before.shown j := by
  have kin := step.kin canonical
  have next := (step.canonical canonical).proper
  cases step with
  | @pivot column row _ enters leaves =>
    have still : (before.pivot row column).shown column = 0 := by
      rw [cost_pivot canonical enters leaves, add_eq_left, mul_eq_zero] at same
      exact same.resolve_left enters.improves.ne
    refine canonical.proper.eq_shown ?_ ((kin.solves _).1 next.solves_shown) inside
    intro j _ absent
    by_cases entered : j = column
    · rw [entered]
      exact still
    · refine Table.shown_eq_zero ?_
      rw [canonical.proper.basic_pivot leaves.listed]
      rintro (same | ⟨_, basic⟩)
      · exact entered same
      · exact absent basic

/-- Where a column leaves, an earlier one that has nothing does not fall along the direction: it would leave
instead. -/
theorem Leaves.direction_nonneg (leaves : Leaves table column row line) (canonical : table.Canonical)
    (apart : ¬ table.Basic column) (earlier : j < line.basic) (nothing : table.shown j = 0) :
    0 ≤ table.direction column j := by
  by_contra falling
  rw [not_le] at falling
  have basic : table.Basic j := by
    by_contra missing
    by_cases entered : j = column
    · rw [entered, Table.direction_self apart] at falling
      linarith
    · rw [Table.direction_eq_zero entered missing] at falling
      exact lt_irrefl _ falling
  obtain ⟨other, among, rfl⟩ := basic
  rw [canonical.proper.direction_basic apart among] at falling
  rw [canonical.proper.shown_basic among] at nothing
  have limits : 0 < other.entry column := by linarith
  have ratio : line.bound / line.entry column = 0 := by
    refine le_antisymm ?_ (div_nonneg (canonical.nonneg line (List.mem_of_getElem? leaves.listed)) leaves.positive.le)
    have least := leaves.least other among limits
    rwa [nothing, zero_div] at least
  have first := leaves.first other among limits (by rw [nothing, zero_div, ratio])
  omega

/-! ### Cycles -/

/-- Steps that come back to the basic columns that they started from. -/
structure Cycle (cost : List Rat) (allowed : Nat → Bool) (run : Nat → Table Rat) (n : Nat) : Prop where
  canonical : (run 0).Canonical
  step : ∀ i < n, Step cost allowed (run i) (run (i + 1))
  closes : ∀ j, (run n).Basic j ↔ (run 0).Basic j

/-- Along steps, tables stay canonical and keep their solutions. -/
theorem canonical_run (canonical : (run 0).Canonical) (step : ∀ i < n, Step cost allowed (run i) (run (i + 1)))
    {i : Nat} (inside : i ≤ n) : (run i).Canonical ∧ (run 0).Kin (run i) := by
  induction i with
  | zero => exact ⟨canonical, .refl _⟩
  | succ i ih =>
    obtain ⟨here, kin⟩ := ih (by omega)
    have next := step i (by omega)
    exact ⟨next.canonical here, kin.trans (next.kin here)⟩

namespace Cycle

variable (cycle : Cycle cost allowed run n)

include cycle

theorem at_canonical {i : Nat} (inside : i ≤ n) : (run i).Canonical := (canonical_run cycle.canonical cycle.step inside).1

theorem at_kin {i : Nat} (inside : i ≤ n) : (run 0).Kin (run i) := (canonical_run cycle.canonical cycle.step inside).2

theorem cost_last : (run n).cost cost = (run 0).cost cost := by
  have last := (cycle.at_canonical le_rfl).proper
  have kin := cycle.at_kin le_rfl
  rw [← last.worth_shown, ← cycle.canonical.proper.worth_shown, kin.width, worth, worth]
  refine Finset.sum_congr rfl ?_
  intro j inside
  rw [cycle.canonical.proper.eq_shown ?_ ((kin.solves _).1 last.solves_shown) (Finset.mem_range.1 inside)]
  intro k _ absent
  exact Table.shown_eq_zero (mt (cycle.closes k).1 absent)

/-- No step of a cycle lowers the cost. -/
theorem cost_eq {i : Nat} (inside : i ≤ n) : (run i).cost cost = (run 0).cost cost := by
  have falls {a b : Nat} (order : a ≤ b) (within : b ≤ n) : (run b).cost cost ≤ (run a).cost cost := by
    induction b, order using Nat.le_induction with
    | base => exact le_rfl
    | succ b _ ih => exact ((cycle.step b (by omega)).cost_le (cycle.at_canonical (by omega))).trans (ih (by omega))
  refine le_antisymm (falls (Nat.zero_le i) inside) ?_
  rw [← cycle.cost_last]
  exact falls inside le_rfl

/-- All tables of a cycle show one solution. -/
theorem shown_eq {i : Nat} (inside : i ≤ n) {j : Nat} (within : j < (run 0).width) :
    (run i).shown j = (run 0).shown j := by
  induction i with
  | zero => rfl
  | succ i ih =>
    have same : (run (i + 1)).cost cost = (run i).cost cost :=
      (cycle.cost_eq inside).trans (cycle.cost_eq (by omega)).symm
    rw [(cycle.step i (by omega)).shown_eq (cycle.at_canonical (by omega)) same, ih (by omega)]
    rwa [(cycle.at_kin (by omega)).width]

/-- A column that is basic at one time and not at another becomes basic at some step. -/
theorem exists_rise {c : Nat} (there : p ≤ n) (gone : q ≤ n) (basic : (run p).Basic c) (absent : ¬ (run q).Basic c) :
    ∃ i < n, ¬ (run i).Basic c ∧ (run (i + 1)).Basic c := by
  by_contra never
  push Not at never
  have earlier {a b : Nat} (order : a ≤ b) (within : b ≤ n) : (run b).Basic c → (run a).Basic c := by
    induction b, order using Nat.le_induction with
    | base => exact id
    | succ b _ ih =>
      intro later
      by_contra missing
      exact never b (by omega) (fun here => missing (ih (by omega) here)) later
  exact absent (earlier gone le_rfl ((cycle.closes c).2 (earlier (Nat.zero_le p) there basic)))

/-- A column that is basic at one time and not at another stops being basic at some step. -/
theorem exists_fall {c : Nat} (there : p ≤ n) (gone : q ≤ n) (basic : (run p).Basic c) (absent : ¬ (run q).Basic c) :
    ∃ i < n, (run i).Basic c ∧ ¬ (run (i + 1)).Basic c := by
  by_contra never
  push Not at never
  have later {a b : Nat} (order : a ≤ b) (within : b ≤ n) : (run a).Basic c → (run b).Basic c := by
    induction b, order using Nat.le_induction with
    | base => exact id
    | succ b _ ih =>
      intro earlier
      exact never b (by omega) (ih (by omega) earlier)
  exact absent (later (Nat.zero_le q) gone ((cycle.closes c).1 (later there le_rfl basic)))

/-- Where a column becomes basic at a step, it is the one that enters. -/
theorem enters_of_rise {i c : Nat} (inside : i < n) (absent : ¬ (run i).Basic c) (basic : (run (i + 1)).Basic c) :
    Enters cost allowed (run i) c := by
  have canonical := cycle.at_canonical inside.le
  have step := cycle.step i inside
  generalize run (i + 1) = after at step basic
  cases step with
  | pivot enters leaves =>
    rcases (canonical.proper.basic_pivot leaves.listed).1 basic with rfl | ⟨_, before⟩
    · exact enters
    · exact absurd before absent

/-- Where a column stops being basic at a step, it is that of the line that leaves. -/
theorem leaves_of_fall {i c : Nat} (inside : i < n) (basic : (run i).Basic c) (absent : ¬ (run (i + 1)).Basic c) :
    ∃ column row line, Enters cost allowed (run i) column ∧ Leaves (run i) column row line ∧ line.basic = c := by
  have canonical := cycle.at_canonical inside.le
  have step := cycle.step i inside
  generalize run (i + 1) = after at step absent
  cases step with
  | @pivot column row line enters leaves =>
    refine ⟨column, row, line, enters, leaves, ?_⟩
    by_contra other
    exact absent ((canonical.proper.basic_pivot leaves.listed).2 (.inr ⟨Ne.symm other, basic⟩))

/-- The column that enters at a step is basic after it. -/
theorem rise_of_enters {i c : Nat} (inside : i < n) (enters : Enters cost allowed (run i) c) : (run (i + 1)).Basic c := by
  have canonical := cycle.at_canonical inside.le
  have step := cycle.step i inside
  generalize run (i + 1) = after at step ⊢
  cases step with
  | @pivot column row line other leaves =>
    have same : c = column := by
      rcases lt_trichotomy c column with less | same | greater
      · exact absurd (other.first c less enters.admitted) (not_le.2 enters.improves)
      · exact same
      · exact absurd (enters.first column greater other.admitted) (not_le.2 other.improves)
    exact (canonical.proper.basic_pivot leaves.listed).2 (.inl same)

/-- A direction that gains where one column enters also gains, in terms of any other table of the cycle, in
some column. -/
theorem exists_gain {s : Nat} (first : p ≤ n) (second : q ≤ n) (enters : Enters cost allowed (run p) s) :
    ∃ j < (run 0).width, ¬ (run q).Basic j ∧ (run q).reducedCost cost j * (run p).direction s j < 0 := by
  have here := (cycle.at_canonical first).proper
  have there := (cycle.at_canonical second).proper
  have width_p := (cycle.at_kin first).width
  have width_q := (cycle.at_kin second).width
  let moved : Nat → Rat := fun j => (run p).shown j + 1 * (run p).direction s j
  have solves : (run q).Solves moved := by
    rw [(cycle.at_kin second).solves, ← (cycle.at_kin first).solves]
    exact here.solves_along enters.within here.solves_shown 1
  have gains : worth cost (run q).width moved = (run p).cost cost + (run p).reducedCost cost s := by
    have along : worth cost (run p).width moved =
        worth cost (run p).width (run p).shown + 1 * (run p).reducedCost cost s :=
      here.worth_along enters.within (enters.not_basic here) here.solves_shown 1
    rw [here.worth_shown, one_mul, width_p] at along
    rw [width_q]
    exact along
  have sum : ∑ j ∈ range (run 0).width, (run q).reducedCost cost j * moved j = (run p).reducedCost cost s := by
    have total : worth cost (run q).width moved = (run q).cost cost +
        ∑ j ∈ range (run q).width, (run q).reducedCost cost j * moved j := solves.worth_eq
    rw [gains, cycle.cost_eq first, cycle.cost_eq second, width_q] at total
    linarith
  by_contra none
  push Not at none
  refine absurd enters.improves (not_lt.2 ?_)
  rw [← sum]
  refine Finset.sum_nonneg ?_
  intro j inside
  have inside := Finset.mem_range.1 inside
  by_cases basic : (run q).Basic j
  · obtain ⟨line, member, rfl⟩ := basic
    rw [there.reducedCost_basic member, zero_mul]
  · have still : (run p).shown j = 0 := by
      rw [cycle.shown_eq first inside, ← cycle.shown_eq second inside, Table.shown_eq_zero basic]
    have nonneg := none j inside basic
    simpa [moved, still] using nonneg

/-- Of the columns that enter at some step, one is the last. -/
theorem exists_last (long : 0 < n) : ∃ t, (∃ i < n, Enters cost allowed (run i) t) ∧
    ∀ c, (∃ i < n, Enters cost allowed (run i) c) → c ≤ t := by
  classical
  have bounded : ∀ c, (∃ i < n, Enters cost allowed (run i) c) → c ≤ (run 0).width := by
    rintro c ⟨i, inside, enters⟩
    rw [← (cycle.at_kin inside.le).width]
    exact enters.within.le
  obtain ⟨c, entering⟩ : ∃ c, ∃ i < n, Enters cost allowed (run i) c := by
    have step := cycle.step 0 long
    generalize run (0 + 1) = after at step
    cases step with
    | pivot enters leaves => exact ⟨_, 0, long, enters⟩
  exact ⟨_, Nat.findGreatest_spec (P := fun c => ∃ i < n, Enters cost allowed (run i) c) (bounded c entering) entering,
    fun c entering => Nat.le_findGreatest (bounded c entering) entering⟩

/-- A column along the direction at one time that is not basic at another enters at some step. -/
theorem entering_of_moves {s : Nat} (before_p : p < n) (gone : q ≤ n) (enters : Enters cost allowed (run p) s)
    (moves : (run p).direction s j ≠ 0) (absent : ¬ (run q).Basic j) : ∃ i < n, Enters cost allowed (run i) j := by
  by_cases entered : j = s
  · rw [entered]
    exact ⟨p, before_p, enters⟩
  · have basic : (run p).Basic j := by
      by_contra missing
      exact moves (Table.direction_eq_zero entered missing)
    obtain ⟨i, within, rises⟩ := cycle.exists_rise before_p.le gone basic absent
    exact ⟨i, within, cycle.enters_of_rise within rises.1 rises.2⟩

/-- There are no cycles. -/
theorem elim (long : 0 < n) : False := by
  -- The last column that enters at any step, the step at which it enters and one at which it leaves.
  obtain ⟨t, ⟨q, before_q, enters_t⟩, last⟩ := cycle.exists_last long
  have absent_q := enters_t.not_basic (cycle.at_canonical before_q.le).proper
  obtain ⟨p, before_p, basic_p, falls⟩ :=
    cycle.exists_fall (show q + 1 ≤ n by omega) before_q.le (cycle.rise_of_enters before_q enters_t) absent_q
  obtain ⟨s, row, line, enters_s, leaves, rfl⟩ := cycle.leaves_of_fall before_p basic_p falls
  have here := cycle.at_canonical before_p.le
  have apart := enters_s.not_basic here.proper
  obtain ⟨j, inside, absent, gain⟩ := cycle.exists_gain before_p.le before_q.le enters_s
  have moves : (run p).direction s j ≠ 0 := by
    intro still
    rw [still, mul_zero] at gain
    exact lt_irrefl _ gain
  have entering := cycle.entering_of_moves before_p before_q.le enters_s moves absent
  rcases (last j entering).lt_or_eq with earlier | rfl
  · -- Its reduced cost is not negative where the last column enters, and it does not fall where that one leaves.
    obtain ⟨_, _, enters_j⟩ := entering
    have nonneg := enters_t.first j earlier enters_j.admitted
    have nothing : (run p).shown j = 0 := by
      rw [cycle.shown_eq before_p.le inside, ← cycle.shown_eq before_q.le inside, Table.shown_eq_zero absent]
    exact absurd gain (not_lt.2 (mul_nonneg nonneg (leaves.direction_nonneg here apart earlier nothing)))
  · have falling : (run p).direction s line.basic < 0 := by
      rw [here.proper.direction_basic apart (List.mem_of_getElem? leaves.listed)]
      linarith [leaves.positive]
    exact absurd (mul_pos_of_neg_of_neg enters_t.improves falling) (not_lt.2 gain.le)

end Cycle

/-- Minimizing does not go on for more steps than there are sets of columns. -/
theorem not_unending (canonical : (run 0).Canonical) (step : ∀ i < n, Step cost allowed (run i) (run (i + 1))) :
    n ≤ 2 ^ (run 0).width := by
  classical
  by_contra many
  let basis (i : Nat) : Finset Nat := (range (run 0).width).filter (run i).Basic
  have maps : ∀ i ∈ range (n + 1), basis i ∈ (range (run 0).width).powerset := by
    intro i _
    exact Finset.mem_powerset.2 (Finset.filter_subset _ _)
  have fewer : ((range (run 0).width).powerset).card < (range (n + 1)).card := by
    rw [Finset.card_powerset, Finset.card_range, Finset.card_range]
    omega
  have cyclic {a b : Nat} (order : a < b) (within : b ≤ n) (same : basis a = basis b) : False := by
    have mem_basis {i : Nat} (inside : i ≤ n) (j : Nat) : j ∈ basis i ↔ (run i).Basic j := by
      obtain ⟨here, kin⟩ := canonical_run canonical step inside
      simp only [basis, Finset.mem_filter, Finset.mem_range, and_iff_right_iff_imp]
      rintro ⟨line, member, rfl⟩
      rw [← kin.width]
      exact here.proper.within line member
    have cycle : Cycle cost allowed (fun i => run (a + i)) (b - a) := by
      constructor
      · exact (canonical_run canonical step (by omega)).1
      · intro i inside
        exact step (a + i) (by omega)
      · intro j
        rw [show a + (b - a) = b by omega, ← mem_basis within, ← same, mem_basis (by omega)]
        rfl
    exact cycle.elim (by omega)
  obtain ⟨a, inside_a, b, inside_b, apart, same⟩ := Finset.exists_ne_map_eq_of_card_lt_of_maps_to fewer maps
  rw [Finset.mem_range] at inside_a inside_b
  rcases apart.lt_or_gt with order | order
  · exact cyclic order (by omega) same
  · exact cyclic order (by omega) same.symm

end Deliberation.Simplex
