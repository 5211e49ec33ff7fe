import Deliberation.Proofs.Constraint.Counting
import Deliberation.Proofs.Constraint.Ranking

/-!
A search keeps the first of the cheapest leaves. One that counts assignments meets all leaves until
it has enough of them; one that is bounded only passes over leaves that do not cost less.
-/

namespace Deliberation.ConstraintSearch

variable {R : Type} [Scalar R] {problem : Problem R} {options : SolveOptions} {worth : R → Rat}

/-- The leaves of a part of the tree. -/
def Part.leaves (problem : Problem R) (order : VariableOrder) (depth : Nat) (state : State) : Part → List State
  | .node => ConstraintSearch.leaves problem order depth state
  | .children place value => leavesFrom problem order depth state place value

/-- The depth is enough to reach the leaves of a part of the tree. -/
def Part.Reaches (problem : Problem R) (depth : Nat) (state : State) : Part → Prop
  | .node => (problem.openPlaces state).card < depth
  | .children _ _ => (problem.openPlaces state).card ≤ depth

/-- The best answer so far. -/
def Tally.answer (tally : Tally R) : Option (Answer R) := tally.best.map Solution.answer

/-- A walk has kept the first of the cheapest leaves, all of which it has met when it comes back; where it is
not bounded, it has counted them. -/
def Ranks (problem : Problem R) (options : SolveOptions) (tally : Tally R) (states : List State) : Ending R → Prop
  | .back after => after.answer = cheapest? problem tally.answer states ∧
      (options.strategy ≠ .branchAndBound → after.seen = tally.seen + states.length)
  | .finished after => ∃ visited rest, states = visited ++ rest ∧ after.answer = cheapest? problem tally.answer visited ∧
      (options.strategy ≠ .branchAndBound → after.seen = tally.seen + visited.length)
  | .overBudget _ => True

section Ranking

variable {tally middle found : Tally R} {first second : List State} {ending : Ending R} {state : State}

theorem Ranks.append (ranks : Ranks problem options tally first (.back middle))
    (later : Ranks problem options middle second ending) : Ranks problem options tally (first ++ second) ending := by
  obtain ⟨best, counted⟩ := ranks
  cases ending with
  | back after =>
    obtain ⟨best', counted'⟩ := later
    refine ⟨by rw [best', best, cheapest?_append], fun counts => ?_⟩
    rw [counted' counts, counted counts, List.length_append, Nat.add_assoc]
  | finished after =>
    obtain ⟨visited, rest, rfl, best', counted'⟩ := later
    refine ⟨first ++ visited, rest, by rw [List.append_assoc], by rw [best', best, cheapest?_append], fun counts => ?_⟩
    rw [counted' counts, counted counts, List.length_append, Nat.add_assoc]
  | overBudget best => trivial

/-- A walk that does not come back leaves the rest unvisited. -/
theorem Ranks.stop (final : ∀ after, ending ≠ .back after) (ranks : Ranks problem options tally first ending)
    (second : List State) : Ranks problem options tally (first ++ second) ending := by
  cases ending with
  | back after => exact absurd rfl (final after)
  | finished after =>
    obtain ⟨visited, rest, rfl, best, counted⟩ := ranks
    exact ⟨visited, rest ++ second, by rw [List.append_assoc], best, counted⟩
  | overBudget best => trivial

theorem ranks_record (recorded : tally.record problem state = .ok found) :
    Ranks problem options tally [state] (.back found) := by
  obtain ⟨seen, _, failures, judged, kept⟩ := record_cases recorded
  refine ⟨?_, fun _ => seen⟩
  have offered : answer? problem state = some (rated problem state failures tally).answer := by
    rw [answer?, judged]
    rfl
  rw [cheapest?, List.filterMap_cons_some offered, Tally.answer, Tally.answer]
  show found.best.map Solution.answer = keep (tally.best.map Solution.answer) (rated problem state failures tally).answer
  rcases kept with ⟨better, beats⟩ | ⟨best, known, dear, same⟩
  · rw [better]
    cases known : tally.best with
    | none => rfl
    | some best => exact (if_pos (beats best known)).symm
  · rw [same, known]
    exact (if_neg dear).symm

omit [Scalar R] in
/-- Values kept make an environment grow. -/
theorem env_extends {later : State}
    (keeps : ∀ place value, state.given place = some value → later.given place = some value) :
    (problem.env later.assigned).Extends (problem.env state.assigned) := by
  intro name value stored
  obtain ⟨place, found, stored⟩ := Option.bind_eq_some_iff.1 stored
  obtain ⟨position, there, stored⟩ := Option.bind_eq_some_iff.1 stored
  rw [env_given found (keeps place position there), stored]

variable (proper : problem.Proper)
  (exact : ExactWeights worth (problem.preferences.map Constraint.weight))

include proper exact

/-- The leaves below a value that is outbid do not cost less than the best answer. -/
theorem ranks_outbid {place value depth : Nat} (sound : problem.Sound state) (inside : place < problem.values.size)
    (vacant : state.isOpen place = true) (within : value < problem.domainSize place)
    (graded : Graded problem tally.answer)
    (bound : withinBound problem options (tally.tick.within state []) (state.assign place (some value)) = .ok false) :
    Ranks problem options tally ((child? problem state place value).elim [] (leaves problem options.order depth))
      (.back tally.tick) := by
  obtain ⟨bounded, best, failures, known, judged, dear⟩ := withinBound_false bound
  refine ⟨?_, fun counts => absurd bounded counts⟩
  have held : tally.answer = some best.answer := by
    rw [Tally.answer, show tally.best = some best from known]
    rfl
  have total : IsTotal (problem.preferences.map Constraint.weight) best.cost := graded best.answer held
  show tally.answer = _
  rw [held]
  refine (cheapest?_of_not_lt fun leaf member answer offered => ?_).symm
  cases tried : child? problem state place value with
  | none => simp [tried] at member
  | some child =>
    have effect := tried_of_attempt proper sound vacant inside within (child?_eq_some_iff.1 tried).2
    rw [tried] at member
    have below := leaf_of_mem proper (effect.sound rfl) member
    -- The bound was taken for fewer values than the leaf has, and what fails for these fails for more.
    have grown : (problem.env leaf.assigned).Extends (problem.env (state.assign place (some value)).assigned) := by
      rw [← effect.assigned]
      exact env_extends below.keeps
    have partly : ¬ worth (Scalar.sum (failures.map Constraint.weight)) < worth best.cost := by
      have total' : IsTotal (problem.preferences.map Constraint.weight) (Scalar.sum (failures.map Constraint.weight)) :=
        failing_eq judged ▸ isTotal_sum _
      rwa [← total'.lt_iff exact total]
    show ¬ answer.cost < best.cost
    rw [(isTotal_of_answer? offered).lt_iff exact total, worth_of_answer? exact offered, not_lt]
    calc worth best.cost ≤ worth (Scalar.sum (failures.map Constraint.weight)) := not_lt.1 partly
      _ = penalty worth problem.preferences (problem.env (state.assign place (some value)).assigned) := by
        rw [failing_eq judged]
        exact worth_sum exact _
      _ ≤ penalty worth problem.preferences (problem.env leaf.assigned) := penalty_le_of_extends exact grown

/-- Every walk keeps the first of the cheapest leaves. -/
theorem Walk.ranks {part : Part} (walk : Walk problem options part state tally ending) {depth : Nat}
    (reaches : part.Reaches problem depth state) (sound : problem.Sound state) (fits : part.Fits problem state)
    (graded : Graded problem tally.answer) :
    Ranks problem options tally (part.leaves problem options.order depth state) ending := by
  induction walk generalizing depth with
  | leaf full recorded more =>
    obtain ⟨depth, rfl⟩ := Nat.exists_eq_add_one_of_ne_zero (Nat.ne_zero_of_lt reaches)
    rw [Part.leaves, leaves_full full]
    exact ranks_record recorded
  | final full recorded finished =>
    obtain ⟨depth, rfl⟩ := Nat.exists_eq_add_one_of_ne_zero (Nat.ne_zero_of_lt reaches)
    rw [Part.leaves, leaves_full full]
    have ranks : Ranks problem options _ [_] (.back _) := ranks_record recorded
    exact ⟨[_], [], rfl, ranks⟩
  | inner chosen walked ih =>
    obtain ⟨depth, rfl⟩ := Nat.exists_eq_add_one_of_ne_zero (Nat.ne_zero_of_lt reaches)
    rw [Part.leaves, leaves_inner chosen]
    exact ih (Nat.lt_succ_iff.1 reaches) sound (isOpen_of_select chosen) graded
  | last beyond =>
    rw [Part.leaves, leavesFrom_beyond beyond]
    exact ⟨rfl, fun _ => rfl⟩
  | dead within dead rest ih =>
    rw [Part.leaves, leavesFrom_within within, child?_eq_none fun _ live _ => by simp [dead] at live]
    exact ih reaches sound fits graded
  | overBudget within live spent => trivial
  | outbid within live bound rest ih =>
    rw [Part.leaves, leavesFrom_within within]
    refine (ranks_outbid proper exact sound fits.1 fits.2 within graded bound).append ?_
    exact ih reaches sound fits graded
  | refuted within live tried rest ih =>
    rw [Part.leaves, leavesFrom_within within, child?_eq_none fun _ _ passed => by simp [tried] at passed]
    exact ih reaches sound fits graded
  | @entered state child tally after ending place value within live bound tried walked rest first second =>
    have effect := tried_of_attempt proper sound fits.2 fits.1 within tried
    have fewer := effect.card_openPlaces_lt sound fits.1 fits.2
    have below : Ranks problem options tally (leaves problem options.order depth child) (.back after) :=
      first (fewer.trans_le reaches) (effect.sound rfl) trivial graded
    rw [Part.leaves, leavesFrom_within within, child?_eq_some_iff.2 ⟨live, tried⟩]
    refine below.append (second reaches sound fits ?_)
    rw [below.1]
    exact graded.cheapest? _
  | @stopped state child tally ending place value within live bound tried final walked ih =>
    have effect := tried_of_attempt proper sound fits.2 fits.1 within tried
    have fewer := effect.card_openPlaces_lt sound fits.1 fits.2
    have below : Ranks problem options tally (leaves problem options.order depth child) ending :=
      ih (fewer.trans_le reaches) (effect.sound rfl) trivial graded
    rw [Part.leaves, leavesFrom_within within, child?_eq_some_iff.2 ⟨live, tried⟩]
    exact below.stop final _

end Ranking

section Searches

/-- The leaves that a search can meet. -/
def Problem.allLeaves (problem : Problem R) (order : VariableOrder) : List State :=
  match nodeConsistent problem problem.hard problem.start with
  | .ok (some state) => leaves problem order (problem.values.size + 1) state
  | _ => []

/-- Every variable has a value in a leaf that a search can meet. -/
theorem leaf_of_mem_allLeaves (proper : problem.Proper) {order : VariableOrder} {leaf : State}
    (member : leaf ∈ problem.allLeaves order) : problem.Sound leaf ∧ problem.select order leaf = none := by
  rw [Problem.allLeaves] at member
  split at member
  · next state made =>
    have below := leaf_of_mem proper (start_sound proper made).1 member
    exact ⟨below.sound, below.full⟩
  · cases member

theorem Translates.length_allLeaves_le {vars : List (Variable R)} {hard soft : List (Constraint R)}
    (translates : Translates vars hard soft problem) (distinct : (vars.map Variable.name).Nodup)
    (declared : Declared vars hard) (order : VariableOrder) :
    (problem.allLeaves order).length ≤ (satisfyingChoices vars hard).length := by
  rw [Problem.allLeaves]
  split
  · next state made =>
    exact translates.length_leaves_le distinct declared (start_sound translates.proper made).1 _
  · exact Nat.zero_le _

/-- What a search has found. -/
def Outcome.answer? : Outcome R → Option (Answer R)
  | .found solution => some solution.answer
  | _ => none

omit [Scalar R] in
theorem answer?_outcome (tally : Tally R) : tally.outcome.answer? = tally.answer := by
  obtain ⟨best, seen, nodes⟩ := tally
  cases best <;> rfl

/-- A search does not end before it has met so many assignments, unless one is free. -/
def SolveOptions.Exhausts (options : SolveOptions) (count : Nat) : Prop :=
  options.strategy = .branchAndBound ∨ ∃ n, options.strategy = .bestOf n ∧ count ≤ n

/-- A search that is over has met enough assignments or one that is free. -/
theorem isOver_cases {tally : Tally R} {count : Nat} (exhausts : SolveOptions.Exhausts options count)
    (finished : tally.isOver options = true) :
    (∃ best, tally.best = some best ∧ best.cost ≤ 0) ∨ options.strategy ≠ .branchAndBound ∧ count ≤ tally.seen := by
  rw [Tally.isOver, ConstraintSearch.isOver, Bool.or_eq_true] at finished
  rcases finished with enough | free
  · rcases exhausts with bounded | ⟨n, counted, most⟩
    · simp [bounded] at enough
    · have met : max 1 n ≤ tally.seen := by simpa [counted, Tally.within] using enough
      exact .inr ⟨by simp [counted], by omega⟩
  · obtain ⟨best, seen, nodes⟩ := tally
    cases best with
    | none => simp [Tally.within] at free
    | some best => exact .inl ⟨best, rfl, by simpa [Tally.within] using free⟩

variable {outcome : Outcome R} (proper : problem.Proper)
  (exact : ExactWeights worth (problem.preferences.map Constraint.weight))

include proper exact

/-- A search that does not end too early finds the first of the cheapest leaves. -/
theorem answer?_of_search (searched : search problem options = .ok outcome)
    (unspent : ∀ best, outcome ≠ .overBudget best)
    (exhausts : SolveOptions.Exhausts options (problem.allLeaves options.order).length) :
    outcome.answer? = cheapest? problem none (problem.allLeaves options.order) := by
  rcases search_cases proper searched with ⟨made, rfl, _⟩ | ⟨state, ending, made, sound, _, walk, ended⟩
  · rw [Problem.allLeaves, made]
    rfl
  · have all : problem.allLeaves options.order = leaves problem options.order (problem.values.size + 1) state := by
      rw [Problem.allLeaves, made]
    have graded : Graded problem (none : Option (Answer R)) := fun _ impossible => by cases impossible
    have ranks := walk.ranks proper exact (Nat.lt_succ_of_le (card_openPlaces_le state)) sound trivial graded
    rw [Part.leaves, ← all] at ranks
    cases ending with
    | back after =>
      rw [show outcome = after.outcome from ended, answer?_outcome]
      exact ranks.1
    | finished after =>
      rw [show outcome = after.outcome from ended, answer?_outcome]
      obtain ⟨visited, rest, same, best, counted⟩ := ranks
      have best : after.answer = cheapest? problem none visited := best
      -- The leaves left unvisited cannot beat an answer that is free, and otherwise there are none.
      rcases isOver_cases exhausts (walk.isOver rfl).2 with ⟨held, known, free⟩ | ⟨counts, enough⟩
      · have kept : cheapest? problem none visited = some held.answer := by
          rw [← best, Tally.answer, known]
          rfl
        rw [same, cheapest?_append, cheapest?_of_free exact (graded.cheapest? visited) kept free, best]
      · have met : after.seen = 0 + visited.length := counted counts
        rw [same, List.length_append] at enough
        have nothing : rest = [] := List.eq_nil_of_length_eq_zero (by omega)
        rw [same, nothing, List.append_nil, best]
    | overBudget best => exact absurd ended (unspent _)

end Searches

end Deliberation.ConstraintSearch
