import Deliberation.Proofs.Lists
import Deliberation.Text.Blank
import Deliberation.Text.Cut
import Mathlib.Data.List.TakeWhile

/-!
Trimming, splitting and joining text.
-/

namespace Deliberation.Text

/-- A text with characters at both ends that are not blank. -/
structure Trimmed (text : List Char) : Prop where
  first : ∃ c ∈ text.head?, isBlank c = false
  last : ∃ c ∈ text.getLast?, isBlank c = false

theorem Trimmed.append {before after : List Char} (first : Trimmed before) (last : Trimmed after) (between : List Char) :
    Trimmed (before ++ (between ++ after)) := by
  obtain ⟨c, starts, solid⟩ := first.first
  obtain ⟨d, ends, solid_end⟩ := last.last
  exact ⟨⟨c, by simp [Option.mem_def.1 starts], solid⟩, ⟨d, by simp [Option.mem_def.1 ends], solid_end⟩⟩

theorem Trimmed.ne_nil {text : List Char} (trimmed : Trimmed text) : text ≠ [] := by
  rintro rfl
  obtain ⟨_, starts, _⟩ := trimmed.first
  cases starts

theorem trimmed_singleton {c : Char} (solid : isBlank c = false) : Trimmed [c] := ⟨⟨c, rfl, solid⟩, ⟨c, rfl, solid⟩⟩

theorem trimEnd_eq_self {text : List Char} (trimmed : Trimmed text) : trimEnd text = text := by
  obtain ⟨d, ends, solid⟩ := trimmed.last
  rw [← List.head?_reverse] at ends
  obtain ⟨rest, same⟩ := List.head?_eq_some_iff.1 ends
  rw [trimEnd, same, List.dropWhile_cons_of_neg (by simp [solid]), ← same, List.reverse_reverse]

theorem Trimmed.trim {text : List Char} (trimmed : Trimmed text) : trim text = text := by
  obtain ⟨c, starts, solid⟩ := trimmed.first
  obtain ⟨rest, same⟩ := List.head?_eq_some_iff.1 starts
  rw [Text.trim, trimStart, same, List.dropWhile_cons_of_neg (by simp [solid]), ← same, trimEnd_eq_self trimmed]

/-- A space before a text is trimmed away. -/
theorem Trimmed.trim_space {text : List Char} (trimmed : Trimmed text) : Text.trim (' ' :: text) = text := by
  have blank : isBlank ' ' := by decide
  rw [Text.trim, trimStart, List.dropWhile_cons_of_pos blank]
  exact trimmed.trim

theorem trim_ne_nil {text : List Char} {c : Char} (member : c ∈ text) (solid : isBlank c = false) : Text.trim text ≠ [] := by
  intro empty
  have kept : c ∈ trimStart text := by
    rw [← List.takeWhile_append_dropWhile (p := isBlank) (l := text)] at member
    refine (List.mem_append.1 member).resolve_left fun front => ?_
    exact Bool.false_ne_true (solid.symm.trans (List.mem_takeWhile_imp front))
  rw [Text.trim, trimEnd, List.reverse_eq_nil_iff, List.dropWhile_eq_nil_iff] at empty
  exact Bool.false_ne_true (solid.symm.trans (empty c (List.mem_reverse.2 kept)))

theorem splitOn_append {separator : Char} {piece : List Char} (apart : separator ∉ piece) (rest : List Char) :
    splitOn separator (piece ++ separator :: rest) = piece :: splitOn separator rest := by
  induction piece with
  | nil => simp [splitOn]
  | cons c piece ih =>
    obtain ⟨other, apart⟩ := not_or.1 (List.mem_cons.not.1 apart)
    rw [List.cons_append, splitOn, if_neg (Ne.symm other), ih apart]

theorem splitOn_eq_self {separator : Char} {piece : List Char} (apart : separator ∉ piece) : splitOn separator piece = [piece] := by
  induction piece with
  | nil => rfl
  | cons c piece ih =>
    obtain ⟨other, apart⟩ := not_or.1 (List.mem_cons.not.1 apart)
    rw [splitOn, if_neg (Ne.symm other), ih apart]

theorem join_cons (separator : String) (first : List Char) (rest : List (List Char)) :
    join separator (first :: rest) = first ++ rest.flatMap (separator.toList ++ ·) := by
  induction rest generalizing first with
  | nil => simp [join]
  | cons second rest ih =>
    have tail := ih second
    rw [join] at tail ⊢
    rw [List.intercalate_cons_cons, tail, List.flatMap_cons, List.append_assoc, List.append_assoc]

theorem join_cons_cons (separator : String) (first second : List Char) (rest : List (List Char)) :
    join separator (first :: second :: rest) = first ++ (separator.toList ++ join separator (second :: rest)) := by
  simp [join_cons]

theorem mem_join {separator : String} {pieces : List (List Char)} {c : Char} (member : c ∈ join separator pieces) :
    c ∈ separator.toList ∨ ∃ piece ∈ pieces, c ∈ piece := by
  cases pieces with
  | nil => simp [join] at member
  | cons first rest =>
    rw [join_cons, List.mem_append, List.mem_flatMap] at member
    rcases member with here | ⟨piece, listed, within⟩
    · exact .inr ⟨first, List.mem_cons_self .., here⟩
    · rcases List.mem_append.1 within with mark | inside
      · exact .inl mark
      · exact .inr ⟨piece, List.mem_cons_of_mem _ listed, inside⟩

theorem trimmed_join (separator : String) {pieces : List (List Char)} (some : pieces ≠ [])
    (each : ∀ piece ∈ pieces, Trimmed piece) : Trimmed (join separator pieces) := by
  induction pieces with
  | nil => exact absurd rfl some
  | cons first rest ih =>
    obtain ⟨here, later⟩ := List.forall_mem_cons.1 each
    cases rest with
    | nil => simpa [join] using here
    | cons second rest =>
      rw [join_cons_cons]
      exact here.append (ih (by simp) later) separator.toList

/-- Pieces that were joined by a comma and a space are the pieces between the commas, each but the first
behind its space. -/
theorem splitOn_join {first : List Char} {rest : List (List Char)} (apart : ∀ piece ∈ first :: rest, ',' ∉ piece) :
    splitOn ',' (join ", " (first :: rest)) = first :: rest.map (' ' :: ·) := by
  induction rest generalizing first with
  | nil => simpa [join] using splitOn_eq_self (apart first (List.mem_cons_self ..))
  | cons second rest ih =>
    obtain ⟨here, later⟩ := List.forall_mem_cons.1 apart
    have parts : join ", " (first :: second :: rest) = first ++ ',' :: (' ' :: join ", " (second :: rest)) :=
      join_cons_cons ..
    rw [parts, splitOn_append here, splitOn, if_neg (by decide), ih later]
    rfl

end Deliberation.Text
