import Deliberation.Proofs.Text

/-!
Where text is cut at keywords. A keyword between two spaces is a word of the text, so that a text whose
words are others is passed over as a whole.
-/

namespace Deliberation.Text

/-! ### Letter case -/

/-- Only letters have another case. -/
theorem eq_of_upper_eq {c m : Char} (notLetter : m.isUpper = false) (same : upper c = m) : c = m := by
  by_cases small : 'a'.val ≤ c.val ∧ c.val ≤ 'z'.val
  · have shifted : upper c = ⟨c.val + ('A'.val - 'a'.val), _⟩ := dif_pos small
    have outside := decide_eq_false_iff_not.1 notLetter
    rw [← same, shifted] at outside
    simp only [ge_iff_le, UInt32.le_iff_toNat_le, UInt32.toNat_add, UInt32.toNat_sub, Char.reduceVal, UInt32.reduceToNat,
      Nat.reducePow] at small outside
    omega
  · have kept : upper c = c := dif_neg small
    exact kept.symm.trans same

theorem mem_of_upper_mem {m : Char} {text : List Char} (notLetter : m.isUpper = false) (member : m ∈ text.map upper) : m ∈ text := by
  obtain ⟨c, among, same⟩ := List.mem_map.1 member
  exact eq_of_upper_eq notLetter same ▸ among

theorem startsWith_iff {mark text : List Char} : startsWith mark text = true ↔ mark.map upper <+: text.map upper := by
  induction mark generalizing text with
  | nil => simp [startsWith]
  | cons m mark ih =>
    cases text with
    | nil => simp [startsWith]
    | cons c text => simp [startsWith, ih, List.cons_prefix_cons]

theorem isWord_iff {word : String} {text : List Char} : isWord word text = true ↔ text.map upper = word.toList.map upper := by
  rw [isWord, beq_iff_eq]

/-! ### Words -/

theorem splitOn_ne_nil (separator : Char) (text : List Char) : splitOn separator text ≠ [] := by
  cases text with
  | nil => simp [splitOn]
  | cons c rest =>
    rw [splitOn]
    split
    · simp
    · split <;> simp

/-- A separator parts the pieces before it from those behind it. -/
theorem splitOn_append_separator (separator : Char) (before rest : List Char) :
    splitOn separator (before ++ separator :: rest) = splitOn separator before ++ splitOn separator rest := by
  induction before with
  | nil => simp [splitOn]
  | cons c before ih =>
    obtain ⟨piece, pieces, split⟩ := List.exists_cons_of_ne_nil (splitOn_ne_nil separator before)
    rw [List.cons_append, splitOn, splitOn, ih, split]
    by_cases here : c = separator <;> simp [here]

theorem notMem_of_mem_splitOn {separator : Char} {text piece : List Char} (member : piece ∈ splitOn separator text) :
    separator ∉ piece := by
  induction text generalizing piece with
  | nil => simp_all [splitOn]
  | cons c rest ih =>
    obtain ⟨first, others, split⟩ := List.exists_cons_of_ne_nil (splitOn_ne_nil separator rest)
    rw [split] at ih
    obtain ⟨here, later⟩ := List.forall_mem_cons.1 fun _ member => ih member
    rw [splitOn, split] at member
    by_cases starts : c = separator
    · rw [if_pos starts] at member
      rcases List.mem_cons.1 member with rfl | member
      · simp
      · exact ih member
    · rw [if_neg starts] at member
      rcases List.mem_cons.1 member with rfl | member
      · simpa [here] using Ne.symm starts
      · exact later piece member

/-- A text is its words with a space before each but the first. -/
theorem join_splitOn_space (text : List Char) : join " " (splitOn ' ' text) = text := by
  induction text with
  | nil => rfl
  | cons c rest ih =>
    obtain ⟨first, others, split⟩ := List.exists_cons_of_ne_nil (splitOn_ne_nil ' ' rest)
    rw [split, join_cons] at ih
    rw [splitOn, split]
    by_cases starts : c = ' '
    · rw [if_pos starts, join_cons, List.flatMap_cons, List.append_assoc, ih, starts]
      rfl
    · rw [if_neg starts]
      simp only [join_cons, List.cons_append, ih]

/-! ### Cuts -/

section

variable {m : Char} {mark text before tail : List Char}

/-- A mark cuts nowhere in a text without one of its characters. -/
theorem cutAt?_eq_none (member : m ∈ mark) (notLetter : m.isUpper = false) (notSmall : upper m = m) (apart : m ∉ text) :
    cutAt? mark text = none := by
  induction text with
  | nil => rfl
  | cons c rest ih =>
    have elsewhere : startsWith mark (c :: rest) = false := by
      rw [← Bool.not_eq_true, startsWith_iff]
      intro starts
      have found := starts.subset (List.mem_map_of_mem (f := upper) member)
      rw [notSmall] at found
      exact apart (mem_of_upper_mem notLetter found)
    rw [cutAt?, elsewhere, ih fun later => apart (List.mem_cons_of_mem _ later)]
    rfl

/-- Where only the mark that is named first is found, the cut is at it. -/
theorem cutAtFirst?_cons {first : String} {others : List String} (absent : ∀ other ∈ others, cutAt? other.toList text = none) :
    cutAtFirst? (first :: others) text = cutAt? first.toList text := by
  rw [cutAtFirst?, List.foldl_cons]
  generalize cutAt? first.toList text = cut
  induction others generalizing cut with
  | nil => rfl
  | cons other others ih =>
    obtain ⟨none, absent⟩ := List.forall_mem_cons.1 absent
    rw [List.foldl_cons, none]
    cases cut <;> exact ih absent _

/-- A mark that begins with a space does not cut inside a word. -/
theorem cutAt?_append (apart : ' ' ∉ before) :
    cutAt? (' ' :: mark) (before ++ tail) = (cutAt? (' ' :: mark) tail).map fun cut => (before ++ cut.1, cut.2) := by
  induction before with
  | nil => simp
  | cons c before ih =>
    obtain ⟨other, apart⟩ := not_or.1 (List.mem_cons.not.1 apart)
    have elsewhere : startsWith (' ' :: mark) (c :: (before ++ tail)) = false := by
      rw [startsWith, Bool.and_eq_false_iff]
      refine .inl (beq_eq_false_iff_ne.2 fun same => other ?_)
      exact (eq_of_upper_eq (by decide) (same.symm.trans (by decide))).symm
    rw [List.cons_append, cutAt?, elsewhere, ih apart, Option.map_map]
    rfl

end

/-- A keyword: a word that is not spelled with spaces or the marks around terms, and is not the one that negates. -/
structure Keyword (word : String) : Prop where
  plain : ∀ c ∈ [' ', ',', ')'], c ∉ word.toList.map upper
  notSign : isWord word "not".toList = false

theorem keyword_then : Keyword "THEN" where
  plain := by
    simp only [List.forall_mem_cons, List.not_mem_nil, false_implies, implies_true, and_true]
    decide
  notSign := by decide

theorem keyword_and : Keyword "AND" where
  plain := by
    simp only [List.forall_mem_cons, List.not_mem_nil, false_implies, implies_true, and_true]
    decide
  notSign := by decide

namespace Keyword

variable {keyword : String} {word tail : List Char} {words : List (List Char)}

/-- A word with one of the marks around terms is not the keyword. -/
theorem isWord_eq_false (known : Keyword keyword) {c : Char} (mark : c ∈ [' ', ',', ')']) (member : c ∈ word) :
    isWord keyword word = false := by
  have itself : upper c = c := by
    simp only [List.mem_cons, List.not_mem_nil, or_false] at mark
    rcases mark with rfl | rfl | rfl <;> decide
  rw [← Bool.not_eq_true, isWord_iff]
  intro same
  have listed := List.mem_map_of_mem (f := upper) member
  rw [same, itself] at listed
  exact known.plain c mark listed

/-- A keyword with a space behind it is a whole word. -/
theorem isWord_of_startsWith (known : Keyword keyword) (apart : ' ' ∉ word) (opens : ∀ c ∈ tail.head?, c = ' ')
    (starts : startsWith (keyword.toList ++ [' ']) (word ++ tail) = true) : isWord keyword word = true := by
  have space : ([' '] : List Char).map upper = [' '] := by decide
  have apart : ' ' ∉ word.map upper := fun member => apart (mem_of_upper_mem (by decide) member)
  rw [startsWith_iff, List.map_append, List.map_append, space] at starts
  obtain ⟨rest, same⟩ := starts
  rw [List.append_assoc, List.singleton_append] at same
  rw [isWord_iff]
  -- the keyword ends where the word does: a space follows both, and neither has one
  cases tail with
  | nil =>
    rw [List.map_nil, List.append_nil] at same
    exact absurd (same ▸ by simp : ' ' ∈ word.map upper) apart
  | cons c tail =>
    obtain rfl := opens c rfl
    rw [List.map_cons, show upper ' ' = ' ' by decide] at same
    rcases List.append_eq_append_iff.1 same with ⟨more, longer, follows⟩ | ⟨more, longer, follows⟩
    · cases more with
      | nil => simpa using longer
      | cons d more =>
        obtain ⟨rfl, _⟩ := List.cons_eq_cons.1 follows
        exact absurd (longer ▸ by simp : ' ' ∈ word.map upper) apart
    · cases more with
      | nil => simpa using longer.symm
      | cons d more =>
        obtain ⟨rfl, _⟩ := List.cons_eq_cons.1 follows
        exact absurd (longer ▸ by simp : ' ' ∈ keyword.toList.map upper) (known.plain ' ' (by decide))

theorem cutAt?_words (known : Keyword keyword) {first : List Char} (apart : ∀ word ∈ first :: words, ' ' ∉ word)
    (others : ∀ word ∈ words, isWord keyword word = false) (opens : ∀ c ∈ tail.head?, c = ' ') :
    cutAt? (' ' :: (keyword.toList ++ [' '])) (join " " (first :: words) ++ tail) =
      (cutAt? (' ' :: (keyword.toList ++ [' '])) tail).map fun cut => (join " " (first :: words) ++ cut.1, cut.2) := by
  -- the mark begins with a space, so it can only stand where a word ends, and then the next word is the keyword
  induction words generalizing first with
  | nil => simpa [join] using cutAt?_append (apart first (List.mem_cons_self ..))
  | cons second words ih =>
    obtain ⟨here, apart⟩ := List.forall_mem_cons.1 apart
    obtain ⟨other, others⟩ := List.forall_mem_cons.1 others
    have parts : join " " (first :: second :: words) = first ++ ' ' :: join " " (second :: words) := join_cons_cons ..
    have elsewhere : startsWith (' ' :: (keyword.toList ++ [' '])) (' ' :: (join " " (second :: words) ++ tail)) = false := by
      rw [startsWith, beq_self_eq_true, Bool.true_and, ← Bool.not_eq_true, join_cons, List.append_assoc]
      intro starts
      refine Bool.false_ne_true (other.symm.trans (known.isWord_of_startsWith (apart second (List.mem_cons_self ..)) ?_ starts))
      cases words with
      | nil => exact opens
      | cons third words => simp
    rw [parts, List.append_assoc, cutAt?_append here, List.cons_append, cutAt?, elsewhere, ih apart others, Option.map_map]
    simp [Function.comp_def]

/-- A text none of whose words is the keyword is passed over, where a space or nothing follows. -/
theorem cutAt?_passes (known : Keyword keyword) {text : List Char} (others : ∀ word ∈ splitOn ' ' text, isWord keyword word = false)
    (opens : ∀ c ∈ tail.head?, c = ' ') :
    cutAt? (' ' :: (keyword.toList ++ [' '])) (text ++ tail) =
      (cutAt? (' ' :: (keyword.toList ++ [' '])) tail).map fun cut => (text ++ cut.1, cut.2) := by
  have whole := join_splitOn_space text
  have apart : ∀ word ∈ splitOn ' ' text, ' ' ∉ word := fun word member => notMem_of_mem_splitOn member
  obtain ⟨first, words, split⟩ := List.exists_cons_of_ne_nil (splitOn_ne_nil ' ' text)
  rw [split] at whole apart others
  rw [← whole]
  exact known.cutAt?_words apart (List.forall_mem_cons.1 others).2 opens

/-- The cut is at the keyword where no word before it is one. -/
theorem cutAt?_eq_some (known : Keyword keyword) {before : List Char}
    (others : ∀ word ∈ splitOn ' ' before, isWord keyword word = false) (after : List Char) :
    cutAt? (' ' :: (keyword.toList ++ [' '])) (before ++ (' ' :: (keyword.toList ++ [' ']) ++ after)) = some (before, after) := by
  have starts : startsWith (' ' :: (keyword.toList ++ [' '])) (' ' :: (keyword.toList ++ [' ']) ++ after) = true := by
    rw [startsWith_iff, List.map_append]
    exact List.prefix_append _ _
  rw [known.cutAt?_passes others (by simp)]
  rw [List.cons_append] at starts ⊢
  rw [cutAt?, if_pos starts]
  simp

/-- There is no cut in a text none of whose words is the keyword. -/
theorem cutAt?_eq_none (known : Keyword keyword) {text : List Char}
    (others : ∀ word ∈ splitOn ' ' text, isWord keyword word = false) :
    cutAt? (' ' :: (keyword.toList ++ [' '])) text = none := by
  have ends : ∀ c ∈ ([] : List Char).head?, c = ' ' := by simp
  simpa [cutAt?] using known.cutAt?_passes others ends

end Keyword

end Deliberation.Text
