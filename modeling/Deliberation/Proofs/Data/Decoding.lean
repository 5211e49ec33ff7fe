import Deliberation.Data.Decode
import Deliberation.Proofs.Data.Plain
import Deliberation.Proofs.Lists

/-!
Values that come back: what is written of them is plain, and is read as them. Each way to put readings
together is looked at once, for what its parts have read and for what it reads again.
-/

namespace Deliberation.Decode

open Data

variable {α β : Type}

/-- Some data was read as this value. -/
def Read (read : Data → Decoded α) (value : α) : Prop := ∃ data rigor, read data rigor = .ok value

/-- What is written of a value is read as the value, and nests no deeper than a limit. -/
structure Returns (read : Data → Decoded α) (write : α → Data) (limit : Nat) (value : α) : Prop where
  plain : Plain IsWord limit (write value)
  back : read (write value) .strict = .ok value

/-! ### Steps -/

theorem bind_eq_ok {first : Decoded α} {next : α → Decoded β} {rigor : Rigor} {b : β} (done : (first >>= next) rigor = .ok b) :
    ∃ a, first rigor = .ok a ∧ next a rigor = .ok b := Lists.bind_eq_ok done

theorem bind_ok {first : Decoded α} {next : α → Decoded β} {rigor : Rigor} {a : α} (done : first rigor = .ok a) :
    (first >>= next) rigor = next a rigor := congrArg (fun outcome => outcome >>= fun a => next a rigor) done

theorem map_eq_ok {first : Decoded α} {change : α → β} {rigor : Rigor} {b : β} (done : (change <$> first) rigor = .ok b) :
    ∃ a, first rigor = .ok a ∧ change a = b := Lists.map_eq_ok done

theorem map_ok {first : Decoded α} {change : α → β} {rigor : Rigor} {a : α} (done : first rigor = .ok a) :
    (change <$> first) rigor = .ok (change a) := congrArg (fun outcome => change <$> outcome) done

theorem map_refused {first : Decoded α} {change : α → β} {rigor : Rigor} {refusal : Refusal} (refused : first rigor = .error refusal) :
    (change <$> first) rigor = .error refusal := congrArg (fun outcome => change <$> outcome) refused

theorem orElse_apply (first second : Decoded α) (rigor : Rigor) :
    (first <|> second) rigor = tryCatch (first rigor) fun _ => second rigor := rfl

theorem orElse_ok {first second : Decoded α} {rigor : Rigor} {a : α} (done : first rigor = .ok a) :
    (first <|> second) rigor = .ok a := by
  rw [orElse_apply, done]
  rfl

theorem orElse_refused {first second : Decoded α} {rigor : Rigor} {refusal : Refusal} (refused : first rigor = .error refusal) :
    (first <|> second) rigor = second rigor := by
  rw [orElse_apply, refused]
  rfl

theorem orElse_eq_ok {first second : Decoded α} {rigor : Rigor} {a : α} (done : (first <|> second) rigor = .ok a) :
    first rigor = .ok a ∨ second rigor = .ok a := by
  cases found : first rigor with
  | ok b => exact .inl ((orElse_ok found).symm.trans done)
  | error refusal => exact .inr ((orElse_refused found).symm.trans done)

theorem mapM_apply (item : β → Decoded α) (l : List β) (rigor : Rigor) :
    (l.mapM item) rigor = l.mapM fun b => item b rigor := by
  induction l with
  | nil => rfl
  | cons b rest ih =>
    rw [List.mapM_cons, List.mapM_cons, ← ih]
    rfl

/-! ### Readings -/

theorem inParts_eq_ok {read : Data → Decoded α} {data : Data} {rigor : Rigor} {value : α}
    (done : inParts read data rigor = .ok value) : read data rigor = .ok value := by
  unfold inParts at done
  split at done
  · obtain ⟨_, _, refused⟩ := bind_eq_ok done
    cases refused
  · exact done

theorem Read.of_list {item : Data → Decoded α} {values : List α} (known : Read (list item) values) : ∀ value ∈ values, Read item value := by
  obtain ⟨data, rigor, done⟩ := known
  have done := inParts_eq_ok done
  cases data with
  | list items =>
    change (items.mapM item) rigor = _ at done
    rw [mapM_apply] at done
    intro value member
    obtain ⟨data, _, read⟩ := (Lists.mem_iff_of_mapM done).1 member
    exact ⟨data, rigor, read⟩
  | _ => cases done

theorem list_back {item : Data → Decoded α} {write : α → Data} {values : List α} {rigor : Rigor}
    (each : ∀ value ∈ values, item (write value) rigor = .ok value) : list item (.list (values.map write)) rigor = .ok values := by
  change ((values.map write).mapM item) rigor = _
  rw [mapM_apply, Lists.mapM_eq_ok_iff, List.forall₂_map_left_iff]
  exact List.forall₂_same.2 each

theorem returns_list {item : Data → Decoded α} {write : α → Data} {limit : Nat} {values : List α}
    (each : ∀ value ∈ values, Returns item write limit value) :
    Returns (list item) (fun values => .list (values.map write)) (limit + 1) values :=
  ⟨plain_list fun value member => (each value member).plain, list_back fun value member => (each value member).back⟩

theorem returns_texts (texts : List String) (limit : Nat) : Returns (list text) .texts (limit + 1) texts :=
  ⟨plain_texts limit texts, list_back fun _ _ => rfl⟩

/-- A list of values that are written as texts. -/
theorem returns_written {item : Data → Decoded α} {write : α → String} {limit : Nat} {values : List α}
    (each : ∀ value ∈ values, Returns item (fun value => .text (write value)) limit value) :
    Returns (list item) (fun values => .texts (values.map write)) (limit + 1) values := by
  have whole := returns_list each
  have written : Data.texts (values.map write) = .list (values.map fun value => .text (write value)) := by
    rw [Data.texts, List.map_map]
    rfl
  exact ⟨written ▸ whole.plain, written ▸ whole.back⟩

theorem Read.of_parsed {ε : Type} {parse : String → Except ε α} {value : α} (known : Read (parsed parse) value) :
    ∃ s, parse s = .ok value := by
  obtain ⟨data, rigor, done⟩ := known
  obtain ⟨s, _, done⟩ := bind_eq_ok done
  refine ⟨s, ?_⟩
  cases found : parse s with
  | error fault =>
    rw [found] at done
    cases done
  | ok value =>
    rw [found] at done
    cases done
    rfl

theorem parsed_back {ε : Type} {parse : String → Except ε α} {s : String} {value : α} (parses : parse s = .ok value) (rigor : Rigor) :
    parsed parse (.text s) rigor = .ok value := by
  have read : text (.text s) rigor = .ok s := rfl
  rw [parsed, bind_ok read, parses]
  rfl

theorem option_eq_ok {read : Data → Decoded α} {data : Data} {rigor : Rigor} {value : α}
    (done : option read data rigor = .ok (some value)) : read data rigor = .ok value := by
  unfold option at done
  split at done
  · cases done
  · obtain ⟨found, read, same⟩ := map_eq_ok done
    cases same
    exact read

theorem option_back {read : Data → Decoded α} {data : Data} {value : α} {rigor : Rigor} (held : data ≠ .null)
    (done : read data rigor = .ok value) : option read data rigor = .ok (some value) := by
  cases data with
  | null => exact (held rfl).elim
  | _ => exact map_ok done

theorem whole_eq_ok {read : Data → Decoded α} {data : Data} {rigor : Rigor} {value : α} (done : whole read data rigor = .ok value) :
    data.isReadable ∧ read data .strict = .ok value := by
  unfold whole at done
  split at done
  · next readable => exact ⟨readable, done⟩
  · cases done

theorem whole_back {read : Data → Decoded α} {data : Data} {value : α} (readable : data.isReadable)
    (done : read data .strict = .ok value) (rigor : Rigor) : whole read data rigor = .ok value := by
  rw [whole, if_pos readable]
  exact done

theorem Read.of_firstOf {readings : List (Data → Decoded α)} {value : α} (known : Read (firstOf readings) value) :
    ∃ reading ∈ readings, Read reading value := by
  obtain ⟨data, rigor, done⟩ := known
  replace done := (whole_eq_ok done).2
  induction readings with
  | nil => cases done
  | cons reading rest ih =>
    rw [List.foldr_cons] at done
    split at done
    · obtain ⟨other, member, known⟩ := ih done
      exact ⟨other, List.mem_cons_of_mem _ member, known⟩
    · exact ⟨reading, List.mem_cons_self .., data, .strict, done⟩

/-- Data is given to the second of two readings when the first refuses it. -/
theorem firstOf_second {first second : Data → Decoded α} {data : Data} {value : α} (readable : data.isReadable)
    (refused : first data .strict = .error .refused) (done : second data .strict = .ok value) (rigor : Rigor) :
    firstOf [first, second] data rigor = .ok value := by
  refine whole_back readable ?_ rigor
  simp only [List.foldr_cons, refused, done]

theorem firstOf_first {first : Data → Decoded α} {others : List (Data → Decoded α)} {data : Data} {value : α}
    (readable : data.isReadable) (done : first data .strict = .ok value) (rigor : Rigor) :
    firstOf (first :: others) data rigor = .ok value := by
  refine whole_back readable ?_ rigor
  simp only [List.foldr_cons, done]

theorem Read.of_tagged {key : String} {read : String → Data → Decoded α} {value : α} (known : Read (tagged key read) value) :
    ∃ kind data outcome, read kind data = outcome ∧ outcome .strict = .ok value := by
  obtain ⟨data, rigor, done⟩ := known
  replace done := (whole_eq_ok done).2
  cases data with
  | record entries =>
    dsimp only at done
    generalize entries.partition (fun entry : String × Data => entry.1 = key) = parts at done
    obtain ⟨_ | ⟨⟨_, _ | _ | _ | _ | kind | _ | _ | _⟩, _ | _⟩, rest⟩ := parts
    all_goals first | cases done | exact ⟨kind, _, _, rfl, done⟩
  | list items =>
    obtain _ | ⟨_ | _ | _ | _ | kind | _ | _ | _, rest⟩ := items
    all_goals first | cases done | exact ⟨kind, _, _, rfl, done⟩
  | _ => cases done

/-- Data is read as its kind when its kind stands first and no other entry has the same key. -/
theorem tagged_back {key kind : String} {read : String → Data → Decoded α} {limit : Nat} {entries : List (String × Data)} {value : α}
    (plain : ∀ entry ∈ entries, Plain IsWord limit entry.2) (apart : ∀ entry ∈ entries, entry.1 ≠ key)
    (done : read kind (.record entries) .strict = .ok value) (rigor : Rigor) :
    tagged key read (.record ((key, .text kind) :: entries)) rigor = .ok value := by
  have parts : ((key, Data.text kind) :: entries).partition (fun entry => decide (entry.1 = key)) = ([(key, .text kind)], entries) := by
    have none : entries.filter (fun entry => decide (entry.1 = key)) = [] := by simpa using apart
    have all : entries.filter (not ∘ fun entry => decide (entry.1 = key)) = entries := by simpa using apart
    rw [List.partition_eq_filter_filter]
    simp [none, all]
  have whole : Plain IsWord (limit + 1) (.record ((key, .text kind) :: entries)) := .record (List.forall_mem_cons.2 ⟨.text _, plain⟩)
  refine whole_back whole.isReadable ?_ rigor
  simp only [parts]
  exact done

/-! ### Fields -/

namespace Row

variable {row : Row} {name : String} {read : Data → Decoded α} {rigor : Rigor}

/-- A field is found behind entries that do not have its names. -/
theorem field_append {names : List String} {before : List (String × Data)} (apart : ∀ entry ∈ before, entry.1 ∉ names)
    (here : name ∈ names) (data : Data) : field names (before ++ [(name, data)]) = pure (some data) := by
  have none : before.filter (fun entry => names.contains entry.1) = [] :=
    List.filter_eq_nil_iff.2 fun entry member => by simpa using apart entry member
  have found : (before ++ [(name, data)]).filter (fun entry => names.contains entry.1) = [(name, data)] := by
    rw [List.filter_append, none]
    simp [here]
  rw [field, found]

theorem read_of_required {value : α} (done : row.required name read rigor = .ok value) : Read read value := by
  unfold required at done
  cases found : row.values.lookup name with
  | none =>
    rw [found] at done
    cases done
  | some data =>
    rw [found] at done
    exact ⟨data, rigor, done⟩

theorem read_of_withDefault {absent value : α} (done : row.withDefault name read absent rigor = .ok value) :
    value = absent ∨ Read read value := by
  unfold withDefault at done
  cases found : row.values.lookup name with
  | none =>
    rw [found] at done
    cases done
    exact .inl rfl
  | some data =>
    rw [found] at done
    exact .inr ⟨data, rigor, done⟩

/-- A list that is empty where it is left out. -/
theorem read_of_list {item : Data → Decoded α} {values : List α} (done : row.withDefault name (list item) [] rigor = .ok values) :
    ∀ value ∈ values, Read item value := by
  rcases read_of_withDefault done with rfl | known
  · nofun
  · exact known.of_list

end Row

end Deliberation.Decode
