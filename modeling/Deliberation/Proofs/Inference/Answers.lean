import Deliberation.Inference.Backward
import Mathlib.Order.Nat

/-!
What it means that a search for a proof answers rightly. A search that met a circle may have given up
too early, so how thorough its denial is depends on whether it met one.
-/

namespace Deliberation.Backward

/-- Whatever is remembered, a search keeps an invariant of it and answers as described; `quiet` says that no
circle was met. -/
def Ensures {α : Type} (invariant : Memory → Prop) (search : Search α) (answers : (quiet : Prop) → α → Prop) : Prop :=
  ∀ memory, invariant memory → invariant (search memory).2 ∧ memory.cyclesMet ≤ (search memory).2.cyclesMet ∧
    answers ((search memory).2.cyclesMet = memory.cyclesMet) (search memory).1

/-- An answer is right: what is found is good, and where nothing is found there is nothing. A thorough denial
is only asked for when no circle was met. -/
def Right {α : Type} (good : α → Prop) (exist : (thorough : Bool) → Prop) (quiet : Prop) : Option α → Prop
  | some found => good found
  | none => ∀ thorough, (thorough = true → quiet) → ¬ exist thorough

variable {α β : Type} {invariant : Memory → Prop}

theorem Ensures.imp {search : Search α} {answers answers' : Prop → α → Prop} (ensures : Ensures invariant search answers)
    (implied : ∀ quiet a, answers quiet a → answers' quiet a) : Ensures invariant search answers' := by
  intro memory holds
  obtain ⟨kept, grown, answered⟩ := ensures memory holds
  exact ⟨kept, grown, implied _ _ answered⟩

theorem ensures_pure {answers : Prop → α → Prop} {a : α} (answered : answers True a) :
    Ensures invariant (pure a) answers := by
  intro memory holds
  refine ⟨holds, le_rfl, ?_⟩
  have same : (((pure a : Search α) memory).2.cyclesMet = memory.cyclesMet) = True := eq_true rfl
  rw [same]
  exact answered

/-- Two searches one after the other meet no circle when neither does. -/
theorem Ensures.bind {first : Search α} {next : α → Search β} {middle : Prop → α → Prop} {answers : Prop → β → Prop}
    (ensures : Ensures invariant first middle)
    (later : ∀ quiet a, middle quiet a → Ensures invariant (next a) fun quiet' b => answers (quiet ∧ quiet') b) :
    Ensures invariant (first >>= next) answers := by
  intro memory holds
  obtain ⟨kept, grown, answered⟩ := ensures memory holds
  obtain ⟨kept', grown', answered'⟩ := later _ _ answered _ kept
  have run : (first >>= next) memory = next (first memory).1 (first memory).2 := rfl
  rw [run]
  refine ⟨kept', grown.trans grown', ?_⟩
  have quiet : ((next (first memory).1 (first memory).2).2.cyclesMet = memory.cyclesMet) =
      ((first memory).2.cyclesMet = memory.cyclesMet ∧
        (next (first memory).1 (first memory).2).2.cyclesMet = (first memory).2.cyclesMet) := by
    apply propext
    constructor
    · intro same
      omega
    · rintro ⟨same, same'⟩
      omega
  rw [quiet]
  exact answered'

theorem Ensures.map {search : Search α} {change : α → β} {middle : Prop → α → Prop} {answers : Prop → β → Prop}
    (ensures : Ensures invariant search middle) (implied : ∀ quiet a, middle quiet a → answers quiet (change a)) :
    Ensures invariant (search >>= fun a => pure (change a)) answers := by
  refine ensures.bind fun quiet a answered => ensures_pure ?_
  simpa using implied quiet a answered

theorem Right.imp {good good' : α → Prop} {exist exist' : Bool → Prop} {quiet : Prop} {answer : Option α}
    (right : Right good exist quiet answer) (better : ∀ found, good found → good' found)
    (fewer : ∀ thorough, exist' thorough → exist thorough) : Right good' exist' quiet answer := by
  cases answer with
  | some found => exact better found right
  | none => exact fun thorough allowed there => right thorough allowed (fewer thorough there)

theorem Right.map {good : α → Prop} {good' : β → Prop} {exist : Bool → Prop} {quiet : Prop} {answer : Option α}
    {change : α → β} (right : Right good exist quiet answer) (better : ∀ found, good found → good' (change found)) :
    Right good' exist quiet (answer.map change) := by
  cases answer with
  | some found => exact better found right
  | none => exact right

/-- The first success among candidates is right when every attempt is. -/
theorem firstSuccess_right {attempt : α → Search (Option β)} {good : β → Prop} {exist : α → Bool → Prop}
    {candidates : List α} (each : ∀ a ∈ candidates, Ensures invariant (attempt a) (Right good (exist a))) :
    Ensures invariant (firstSuccess attempt candidates)
      (Right good fun thorough => ∃ a ∈ candidates, exist a thorough) := by
  induction candidates with
  | nil => exact ensures_pure fun _ _ there => by simp at there
  | cons candidate rest ih =>
    rw [firstSuccess]
    refine (each candidate (by simp)).bind fun quiet answer right => ?_
    cases answer with
    | some found => exact ensures_pure right
    | none =>
      refine (ih fun a member => each a (by simp [member])).imp fun quiet' answer' right' => ?_
      cases answer' with
      | some found => exact right'
      | none =>
        rintro thorough allowed ⟨a, member, there⟩
        rcases List.mem_cons.1 member with rfl | member
        · exact right thorough (fun asked => (allowed asked).1) there
        · exact right' thorough (fun asked => (allowed asked).2) ⟨a, member, there⟩

end Deliberation.Backward
