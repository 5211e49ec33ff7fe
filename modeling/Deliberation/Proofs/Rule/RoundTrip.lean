import Deliberation.Proofs.Planning.Stored
import Deliberation.Proofs.Text.Cut

/-!
Rules come back from their texts. The keywords of a rule are words of its text; the words of a literal are
names, the word that negates, and what ends in one of the marks around terms, so that only an atom without
terms can be spelled like a keyword.
-/

namespace Deliberation

open Text

/-! ### Characters -/

theorem Term.mem_render {term : Term} (named : term.Named) {c : Char} (member : c ∈ term.render) : isNameChar c ∨ c = '?' := by
  cases term with
  | const name => exact .inl (isNameChar_of_name named member)
  | var name =>
    rcases List.mem_cons.1 member with rfl | member
    · exact .inr rfl
    · exact .inl (isNameChar_of_name named member)

theorem Atom.mem_render {atom : Atom} (named : atom.Named) {c : Char} (member : c ∈ atom.render) :
    isNameChar c ∨ c ∈ ['(', ')', ',', '?', ' '] := by
  rw [render] at member
  split at member
  · exact .inl (isNameChar_of_name named.predicate member)
  · simp only [List.mem_append, List.mem_cons, List.not_mem_nil, or_false] at member
    rcases member with (front | rfl | inside) | rfl
    · exact .inl (isNameChar_of_name named.predicate front)
    · exact .inr (by decide)
    · rcases mem_join inside with mark | ⟨piece, listed, within⟩
      · have listed : ∀ c ∈ ", ".toList, c ∈ ['(', ')', ',', '?', ' '] := by simp
        exact .inr (listed c mark)
      · obtain ⟨term, among, rfl⟩ := List.mem_map.1 listed
        rcases Term.mem_render (named.terms term among) within with known | rfl
        · exact .inl known
        · exact .inr (by decide)
    · exact .inr (by decide)

/-- The characters of the marks that may stand for a keyword do not occur in atoms and literals. -/
theorem Atom.notMem_render {atom : Atom} (named : atom.Named) {c : Char} (foreign : c ∈ ['>', '&']) : c ∉ atom.render := by
  have others : ∀ c ∈ ['>', '&'], isNameChar c = false ∧ c ∉ ['(', ')', ',', '?', ' '] := by
    simp only [List.forall_mem_cons, List.not_mem_nil, false_implies, implies_true, and_true]
    decide +kernel
  obtain ⟨notName, notMark⟩ := others c foreign
  intro member
  rcases mem_render named member with char | mark
  · exact Bool.false_ne_true (notName.symm.trans char)
  · exact notMark mark

theorem Literal.notMem_render {literal : Literal} (named : literal.atom.Named) {c : Char} (foreign : c ∈ ['>', '&']) :
    c ∉ literal.render := by
  have apart := Atom.notMem_render named foreign
  rw [render]
  split
  · have sign : ∀ c ∈ ['>', '&'], c ∉ "not ".toList := by simp
    simpa [apart] using sign c foreign
  · exact apart

/-! ### Words -/

variable {keyword : String}

/-- Between parentheses, every word ends in a comma or closes them. -/
theorem closed_words {start : List Char} {pieces : List (List Char)} (apart : ∀ piece ∈ start :: pieces, ' ' ∉ piece) :
    ∀ word ∈ splitOn ' ' (join ", " (start :: pieces) ++ [')']), ',' ∈ word ∨ ')' ∈ word := by
  induction pieces generalizing start with
  | nil =>
    have here : ' ' ∉ start ++ [')'] := by simpa using apart start (List.mem_cons_self ..)
    simp [join, splitOn_eq_self here]
  | cons second pieces ih =>
    obtain ⟨here, apart⟩ := List.forall_mem_cons.1 apart
    have here : ' ' ∉ start ++ [','] := by simpa using here
    have parts : join ", " (start :: second :: pieces) ++ [')'] =
        start ++ [','] ++ ' ' :: (join ", " (second :: pieces) ++ [')']) := by
      simp [join_cons_cons]
    rw [parts, splitOn_append_separator, splitOn_eq_self here]
    exact List.forall_mem_cons.2 ⟨by simp, ih apart⟩

/-- An atom has a word that is a keyword only where it has no terms and is spelled like it. -/
theorem Atom.words_render {atom : Atom} (named : atom.Named) (known : Keyword keyword)
    (free : atom.terms = [] → isWord keyword atom.predicate.toList = false) :
    ∀ word ∈ splitOn ' ' atom.render, isWord keyword word = false := by
  have solid : ' ' ∉ atom.predicate.toList := notMem_of_name named.predicate (by decide)
  obtain ⟨predicate, terms⟩ := atom
  cases terms with
  | nil => simpa [render, splitOn_eq_self solid] using free rfl
  | cons first rest =>
    have apart : ∀ piece ∈ (predicate.toList ++ '(' :: first.render) :: rest.map Term.render, ' ' ∉ piece := by
      have single (term : Term) (member : term ∈ first :: rest) : ' ' ∉ term.render := by
        intro inside
        rcases Term.mem_render (named.terms term member) inside with char | mark
        · exact Bool.false_ne_true ((isNameChar_marks ' ' (by decide)).symm.trans char)
        · exact absurd mark (by decide)
      refine List.forall_mem_cons.2 ⟨by simpa [solid] using single first (List.mem_cons_self ..), ?_⟩
      exact List.forall_mem_map.2 fun term member => single term (List.mem_cons_of_mem _ member)
    have whole : render ⟨predicate, first :: rest⟩ =
        join ", " ((predicate.toList ++ '(' :: first.render) :: rest.map Term.render) ++ [')'] := by
      simp [render, join_cons]
    intro word member
    rw [whole] at member
    rcases closed_words apart word member with comma | closing
    · exact known.isWord_eq_false (by decide) comma
    · exact known.isWord_eq_false (by decide) closing

theorem Literal.words_render {literal : Literal} (named : literal.atom.Named) (known : Keyword keyword)
    (free : literal.atom.terms = [] → isWord keyword literal.atom.predicate.toList = false) :
    ∀ word ∈ splitOn ' ' literal.render, isWord keyword word = false := by
  have positive := Atom.words_render named known free
  rw [render]
  split
  · have parts : "not ".toList ++ literal.atom.render = "not".toList ++ ' ' :: literal.atom.render := rfl
    have sign : splitOn ' ' "not".toList = ["not".toList] := by decide
    rw [parts, splitOn_append_separator, sign]
    exact List.forall_mem_cons.2 ⟨known.notSign, positive⟩
  · exact positive

/-- Pieces that are joined have their own words, and those between them. -/
theorem words_join {pieces : List (List Char)} (notAnd : isWord keyword "AND".toList = false)
    (each : ∀ piece ∈ pieces, ∀ word ∈ splitOn ' ' piece, isWord keyword word = false) (notEmpty : isWord keyword [] = false) :
    ∀ word ∈ splitOn ' ' (join " AND " pieces), isWord keyword word = false := by
  induction pieces with
  | nil => simpa [join, splitOn] using notEmpty
  | cons first rest ih =>
    obtain ⟨here, later⟩ := List.forall_mem_cons.1 each
    cases rest with
    | nil => simpa [join] using here
    | cons second rest =>
      have parts : join " AND " (first :: second :: rest) = first ++ ' ' :: ("AND".toList ++ ' ' :: join " AND " (second :: rest)) :=
        join_cons_cons ..
      have mark : splitOn ' ' "AND".toList = ["AND".toList] := by decide
      rw [parts, splitOn_append_separator, splitOn_append_separator, mark]
      exact List.forall_mem_append.2 ⟨here, List.forall_mem_cons.2 ⟨notAnd, ih later⟩⟩

/-! ### Cuts -/

namespace Rule

/-- The literals of a rule, joined. -/
def conjunction (literals : List Literal) : List Char := join " AND " (literals.map Literal.render)

/-- No literal is an atom without terms that is spelled like a keyword. -/
def Unambiguous (literals : List Literal) : Prop :=
  ∀ literal ∈ literals, literal.atom.terms = [] →
    isWord "THEN" literal.atom.predicate.toList = false ∧ isWord "AND" literal.atom.predicate.toList = false

variable {literals : List Literal}

theorem notMem_conjunction (named : ∀ literal ∈ literals, literal.atom.Named) {c : Char} (foreign : c ∈ ['>', '&']) :
    c ∉ conjunction literals := by
  intro member
  rcases mem_join member with mark | ⟨piece, listed, inside⟩
  · have sign : ∀ c ∈ ['>', '&'], c ∉ " AND ".toList := by simp
    exact sign c foreign mark
  · obtain ⟨literal, among, rfl⟩ := List.mem_map.1 listed
    exact Literal.notMem_render (named literal among) foreign inside

theorem trimmed_conjunction (named : ∀ literal ∈ literals, literal.atom.Named) (some : literals ≠ []) :
    Trimmed (conjunction literals) := by
  refine trimmed_join " AND " (by simpa using some) fun piece member => ?_
  obtain ⟨literal, among, rfl⟩ := List.mem_map.1 member
  exact Literal.trimmed_render (named literal among)

theorem trim_conjunction (named : ∀ literal ∈ literals, literal.atom.Named) : trim (conjunction literals) = conjunction literals := by
  cases literals with
  | nil => rfl
  | cons first rest => exact (trimmed_conjunction named (by simp)).trim

/-- A conjunction is cut behind its first literal; behind a single one nothing is left. -/
theorem cut_conjunction {first : Literal} {rest : List Literal} (named : ∀ literal ∈ first :: rest, literal.atom.Named)
    (free : Unambiguous (first :: rest)) :
    (cutAtFirst? [" AND ", "&&", "&"] (conjunction (first :: rest))).getD (conjunction (first :: rest), []) =
      (first.render, conjunction rest) := by
  have here := List.mem_cons_self (a := first) (l := rest)
  have words := Literal.words_render (named first here) keyword_and fun bare => (free first here bare).2
  have noSign : ∀ mark ∈ ["&&", "&"], cutAt? mark.toList (conjunction (first :: rest)) = none := by
    have signed : ∀ mark ∈ ["&&", "&"], '&' ∈ mark.toList := by decide
    exact fun mark listed => cutAt?_eq_none (signed mark listed) (by decide) (by decide) (notMem_conjunction named (by decide))
  rw [cutAtFirst?_cons noSign]
  cases rest with
  | nil =>
    have single : conjunction [first] = first.render := by simp [conjunction, join]
    have none : cutAt? " AND ".toList first.render = none := keyword_and.cutAt?_eq_none words
    rw [single, none]
    rfl
  | cons second rest =>
    have parts : conjunction (first :: second :: rest) = first.render ++ (" AND ".toList ++ conjunction (second :: rest)) :=
      join_cons_cons ..
    have found : cutAt? " AND ".toList (conjunction (first :: second :: rest)) = some (first.render, conjunction (second :: rest)) := by
      rw [parts]
      exact keyword_and.cutAt?_eq_some words _
    rw [found]
    rfl

/-- The literals of a conjunction are read one after the other. -/
theorem readConjunction_conjunction (named : ∀ literal ∈ literals, literal.atom.Named) (free : Unambiguous literals)
    {bound : Nat} (enough : (conjunction literals).length ≤ bound) :
    readConjunction bound (conjunction literals) = .ok literals := by
  induction literals generalizing bound with
  | nil => cases bound <;> rfl
  | cons first rest ih =>
    obtain ⟨here, later⟩ := List.forall_mem_cons.1 named
    have solid := (trimmed_conjunction named (by simp)).ne_nil
    have longer : (conjunction rest).length < (conjunction (first :: rest)).length := by
      have long := List.length_pos_iff.2 (Literal.trimmed_render here).ne_nil
      cases rest with
      | nil => simpa [conjunction, join] using long
      | cons second rest =>
        simp only [conjunction, List.map_cons, join_cons_cons, List.length_append]
        omega
    obtain ⟨bound, rfl⟩ : ∃ more, bound = more + 1 := ⟨bound - 1, by omega⟩
    have read := Literal.parse_rendered here
    rw [Literal.parse, Literal.text, String.toList_ofList] at read
    have shorter : (conjunction rest).length ≤ bound := by omega
    have others := ih later (fun literal member => free literal (List.mem_cons_of_mem _ member)) shorter
    rw [readConjunction, if_neg (by simpa using solid), cut_conjunction named free]
    simp only [read, trim_conjunction later]
    rw [others]
    rfl

theorem dropIf_render (text : List Char) : dropIf ("IF ".toList ++ text) = .ok text := by
  have split : splitAtByte? 3 ("IF ".toList ++ text) = some ("IF ".toList, text) := by
    cases text <;> rfl
  have long : ¬ byteLength ("IF ".toList ++ text) < 3 := by
    change ¬ 'I'.utf8Size + ('F'.utf8Size + (' '.utf8Size + byteLength text)) < 3
    have sizes : 'I'.utf8Size = 1 ∧ 'F'.utf8Size = 1 ∧ ' '.utf8Size = 1 := by decide
    omega
  rw [dropIf, if_neg long, split]
  rfl

theorem words_body (named : ∀ literal ∈ literals, literal.atom.Named) (free : Unambiguous literals) :
    ∀ word ∈ splitOn ' ' ("IF ".toList ++ conjunction literals), isWord "THEN" word = false := by
  have parts : "IF ".toList ++ conjunction literals = "IF".toList ++ ' ' :: conjunction literals := rfl
  have sign : splitOn ' ' "IF".toList = ["IF".toList] := by decide
  rw [parts, splitOn_append_separator, sign]
  refine List.forall_mem_cons.2 ⟨by decide, words_join (by decide) (fun piece member => ?_) (by decide)⟩
  obtain ⟨literal, among, rfl⟩ := List.mem_map.1 member
  exact Literal.words_render (named literal among) keyword_then fun bare => (free literal among bare).1

/-- The text of a rule is cut before its consequent. -/
theorem cut_render {rule : Rule} (named : rule.Named) (free : Unambiguous rule.antecedent) :
    cutAtFirst? [" THEN ", "->", "=>"] rule.render = some ("IF ".toList ++ conjunction rule.antecedent, rule.consequent.render) := by
  have parts : rule.render = "IF ".toList ++ conjunction rule.antecedent ++ (" THEN ".toList ++ rule.consequent.render) := by
    simp [render, conjunction]
  have apart : '>' ∉ rule.render := by
    rw [parts]
    have head := Atom.notMem_render named.consequent (c := '>') (by decide)
    have body := notMem_conjunction named.antecedent (c := '>') (by decide)
    simp [head, body]
  have noArrow : ∀ mark ∈ ["->", "=>"], cutAt? mark.toList rule.render = none := by
    have signed : ∀ mark ∈ ["->", "=>"], '>' ∈ mark.toList := by decide
    exact fun mark listed => cutAt?_eq_none (signed mark listed) (by decide) (by decide) apart
  rw [cutAtFirst?_cons noArrow, parts]
  exact keyword_then.cutAt?_eq_some (words_body named.antecedent free) _

/-- A rule of names is read from its text, where no literal is an atom without terms that is spelled like a
keyword. -/
theorem text_reads_back {rule : Rule} (named : rule.Named) (some : rule.antecedent ≠ []) (free : Unambiguous rule.antecedent) :
    parse rule.text = .ok ⟨none, rule.antecedent, rule.consequent⟩ := by
  have known := trimmed_conjunction named.antecedent some
  have body : Trimmed ("IF ".toList ++ conjunction rule.antecedent) := (trimmed_singleton (c := 'I') (by decide)).append known ['F', ' ']
  have consequent : Literal.read rule.consequent.render = .ok (.positive rule.consequent) := by
    have positive : (Literal.positive rule.consequent).atom.Named := named.consequent
    have read := Literal.parse_rendered positive
    rwa [Literal.parse, Literal.text, String.toList_ofList] at read
  have whole : Trimmed rule.render := by
    have ends := body.append (Atom.trimmed_render named.consequent) " THEN ".toList
    simpa [render, conjunction] using ends
  rw [parse, text, String.toList_ofList, whole.trim, cut_render named free]
  simp only [body.trim, dropIf_render]
  simp [bind, Except.bind, known.trim, readConjunction_conjunction named.antecedent free le_rfl, consequent, Except.mapError,
    Literal.positive]

/-- A rule whose names are those of keywords, wherever they can be. -/
def echo : Rule where
  name := none
  antecedent := [.positive ⟨"THEN", [.var "not"]⟩, .negative ⟨"and", [.var "not", .const "then"]⟩, .positive ⟨"not", []⟩,
    .negative ⟨"IF", []⟩]
  consequent := ⟨"then", []⟩

theorem echo_reads_back : echo.Named ∧ echo.antecedent ≠ [] ∧ Unambiguous echo.antecedent ∧
    echo.text = "IF THEN(?not) AND not and(?not, then) AND not AND not IF THEN then" ∧ parse echo.text = .ok echo := by
  have spelled : ∀ name ∈ ["THEN", "not", "and", "then", "IF"], isName name.toList := by decide +kernel
  simp only [List.forall_mem_cons, List.not_mem_nil, false_implies, implies_true, and_true] at spelled
  obtain ⟨upperThen, sign, conjoins, concludes, condition⟩ := spelled
  have named : echo.Named := by
    refine ⟨?_, ⟨concludes, by simp [echo]⟩⟩
    simp only [echo, List.forall_mem_cons, List.not_mem_nil, false_implies, implies_true, and_true]
    exact ⟨⟨upperThen, List.forall_mem_singleton.2 sign⟩,
      ⟨conjoins, List.forall_mem_cons.2 ⟨sign, List.forall_mem_singleton.2 concludes⟩⟩, ⟨sign, nofun⟩, ⟨condition, nofun⟩⟩
  have free : Unambiguous echo.antecedent := by
    rw [Unambiguous]
    decide
  exact ⟨named, by simp [echo], free, rfl, text_reads_back named (by simp [echo]) free⟩

end Rule

end Deliberation
