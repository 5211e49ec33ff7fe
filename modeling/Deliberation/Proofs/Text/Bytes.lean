import Deliberation.Text.Cut

/-!
Texts as bytes. Where a text is taken apart between characters there is a boundary, and what lies between
two boundaries are the characters that were there. A test that only ASCII passes gives the same on a
character and on each of its bytes.
-/

namespace Deliberation.Text

/-- The bytes of a text in UTF-8. -/
def bytes (text : String) : List UInt8 := text.toByteArray.data.toList

/-- A place among the bytes of a text, or its end, that is not inside a character. -/
def IsBoundary (text : String) (place : Nat) : Prop := String.Pos.Raw.IsValid text ⟨place⟩

instance (text : String) (place : Nat) : Decidable (IsBoundary text place) :=
  inferInstanceAs (Decidable (String.Pos.Raw.IsValid text ⟨place⟩))

/-- The text from one byte to before another; nothing where one of the two is inside a character or beyond the end. -/
def slice? (text : String) (start stop : Nat) : Option (List Char) :=
  if places : start ≤ stop ∧ IsBoundary text start ∧ IsBoundary text stop then
    some (text.extract ⟨⟨start⟩, places.2.1⟩ ⟨⟨stop⟩, places.2.2⟩).toList
  else none

/-- Only ASCII characters pass the test. -/
def Ascii (test : Char → Bool) : Prop := ∀ c, test c → c.toNat < 128

variable {text : String} {middle rest : List Char} {place : Nat} {test : Char → Bool} {c : Char} {byte : UInt8}

theorem byteLength_append (front rest : List Char) : byteLength (front ++ rest) = byteLength front + byteLength rest := by
  induction front with
  | nil => simp [byteLength]
  | cons c front ih => rw [List.cons_append, byteLength, byteLength, ih, Nat.add_assoc]

theorem length_flatMap_encode (chars : List Char) : (chars.flatMap String.utf8EncodeChar).length = byteLength chars := by
  induction chars with
  | nil => rfl
  | cons c chars ih => rw [List.flatMap_cons, List.length_append, String.length_utf8EncodeChar, ih, byteLength]

theorem bytes_eq_flatMap (text : String) : bytes text = text.toList.flatMap String.utf8EncodeChar := by
  rw [bytes, ← String.utf8Encode_toList, List.utf8Encode, List.toList_data_toByteArray]

theorem size_utf8Encode (chars : List Char) : chars.utf8Encode.size = byteLength chars := by
  rw [List.utf8Encode, List.size_toByteArray, length_flatMap_encode]

theorem utf8ByteSize_ofList (chars : List Char) : (String.ofList chars).utf8ByteSize = byteLength chars := by
  rw [String.utf8ByteSize, String.toByteArray_ofList, size_utf8Encode]

theorem byteLength_toList (text : String) : byteLength text.toList = text.utf8ByteSize := by
  rw [← utf8ByteSize_ofList, String.ofList_toList]

theorem byteLength_pos {chars : List Char} (nonempty : chars ≠ []) : 0 < byteLength chars := by
  obtain ⟨c, others, rfl⟩ := List.exists_cons_of_ne_nil nonempty
  exact Nat.add_pos_left c.utf8Size_pos _

/-! ### What remains -/

/-- What remains of a text from a place among its bytes on. -/
def Remains (text : String) (place : Nat) (rest : List Char) : Prop :=
  ∃ front, text.toList = front ++ rest ∧ byteLength front = place

theorem remains_all (text : String) : Remains text 0 text.toList := ⟨[], rfl, rfl⟩

theorem remains_none (text : String) : Remains text (byteLength text.toList) [] := ⟨text.toList, (List.append_nil _).symm, rfl⟩

theorem Remains.advance (remains : Remains text place (middle ++ rest)) : Remains text (place + byteLength middle) rest := by
  obtain ⟨front, split, rfl⟩ := remains
  exact ⟨front ++ middle, by rw [split, List.append_assoc], byteLength_append front middle⟩

theorem Remains.length_bytes (remains : Remains text place rest) : (bytes text).length = place + byteLength rest := by
  obtain ⟨front, split, rfl⟩ := remains
  rw [bytes_eq_flatMap, length_flatMap_encode, split, byteLength_append]

theorem Remains.drop_bytes (remains : Remains text place rest) :
    (bytes text).drop place = rest.flatMap String.utf8EncodeChar := by
  obtain ⟨front, split, rfl⟩ := remains
  rw [bytes_eq_flatMap, split, List.flatMap_append, ← length_flatMap_encode, List.drop_left]

/-- Where a character stands, there is its first byte. -/
theorem Remains.exists_byte (remains : Remains text place (c :: rest)) :
    ∃ byte ∈ String.utf8EncodeChar c, (bytes text)[place]? = some byte := by
  obtain ⟨byte, others, same⟩ := List.exists_cons_of_ne_nil (String.utf8EncodeChar_ne_nil (c := c))
  refine ⟨byte, by simp [same], ?_⟩
  rw [← List.head?_drop, remains.drop_bytes, List.flatMap_cons, same]
  rfl

/-- The boundaries of a text are the places at which its characters fall into two parts. -/
theorem isBoundary_iff : IsBoundary text place ↔ ∃ rest, Remains text place rest := by
  rw [IsBoundary, String.Pos.Raw.isValid_iff_exists_append]
  constructor
  · rintro ⟨front, rest, rfl, same⟩
    refine ⟨rest.toList, front.toList, String.toList_append, ?_⟩
    rw [byteLength_toList]
    exact (String.Pos.Raw.ext_iff.1 same).symm
  · rintro ⟨rest, front, split, rfl⟩
    refine ⟨.ofList front, .ofList rest, ?_, ?_⟩
    · rw [← String.ofList_append, ← split, String.ofList_toList]
    · rw [String.rawEndPos, utf8ByteSize_ofList]

theorem Remains.isBoundary (remains : Remains text place rest) : IsBoundary text place := isBoundary_iff.2 ⟨rest, remains⟩

/-- Between two boundaries lies the part of the text that is there. -/
theorem Remains.slice? (remains : Remains text place (middle ++ rest)) :
    slice? text place (place + byteLength middle) = some middle := by
  have start := remains.isBoundary
  have stop := remains.advance.isBoundary
  obtain ⟨front, split, rfl⟩ := remains
  have parts : text.toByteArray = front.utf8Encode ++ (middle.utf8Encode ++ rest.utf8Encode) := by
    rw [← String.utf8Encode_toList, split, List.utf8Encode_append, List.utf8Encode_append]
  have cut := ByteArray.extract_append_size_add' (b := middle.utf8Encode ++ rest.utf8Encode) (i := 0)
    (j := byteLength middle) (size_utf8Encode front).symm
  rw [ByteArray.extract_append_eq_left (size_utf8Encode middle).symm] at cut
  rw [Text.slice?, dif_pos ⟨Nat.le_add_right .., start, stop⟩, Option.some.injEq, ← String.ofList_inj, String.ofList_toList,
    ← String.toByteArray_inj, String.toByteArray_extract, String.toByteArray_ofList, parts]
  exact cut

/-- The rest of a text lies between its place and the end. -/
theorem Remains.slice?_to_end (remains : Remains text place rest) : Text.slice? text place (bytes text).length = some rest := by
  have whole : Remains text place (rest ++ []) := by rwa [List.append_nil]
  rw [remains.length_bytes]
  exact whole.slice?

theorem Remains.slice?_takeWhile (remains : Remains text place rest) (test : Char → Bool) :
    Text.slice? text place (place + byteLength (rest.takeWhile test)) = some (rest.takeWhile test) := by
  have parts : Remains text place (rest.takeWhile test ++ rest.dropWhile test) := by rwa [List.takeWhile_append_dropWhile]
  exact parts.slice?

/-! ### ASCII -/

theorem utf8Size_of_lt (low : c.toNat < 128) : c.utf8Size = 1 :=
  Char.utf8Size_eq_one_iff.2 (UInt32.le_iff_toNat_le.2 (Nat.le_of_lt_succ low))

/-- An ASCII character is passed with one byte. -/
theorem Remains.step (remains : Remains text place (c :: rest)) (low : c.toNat < 128) : Remains text (place + 1) rest := by
  have parts : Remains text place ([c] ++ rest) := remains
  have further := parts.advance
  rwa [byteLength, utf8Size_of_lt low, byteLength] at further

theorem utf8EncodeChar_of_lt (low : c.toNat < 128) : String.utf8EncodeChar c = [c.toUInt8] :=
  String.utf8EncodeChar_eq_singleton (utf8Size_of_lt low)

theorem le_of_mem_utf8EncodeChar (high : 128 ≤ c.toNat) (member : byte ∈ String.utf8EncodeChar c) : 128 ≤ byte.toNat := by
  have wide : ¬ c.val.toNat ≤ 127 := Nat.not_le.2 high
  -- every byte is a remainder raised by 128 at least, which stays below 256
  have marked {n least : Nat} (above : 128 ≤ least) (below : n + least < 256) : 128 ≤ (UInt8.ofNat (n + least)).toNat := by
    rw [UInt8.toNat_ofNat', Nat.mod_eq_of_lt below]
    omega
  simp only [String.utf8EncodeChar, wide, if_false] at member
  split at member
  · simp only [List.mem_cons, List.not_mem_nil, or_false] at member
    rcases member with rfl | rfl <;> exact marked (by decide) (by omega)
  · split at member <;> simp only [List.mem_cons, List.not_mem_nil, or_false] at member
    · rcases member with rfl | rfl | rfl <;> exact marked (by decide) (by omega)
    · rcases member with rfl | rfl | rfl | rfl <;> exact marked (by decide) (by omega)

/-- An ASCII character is the one that its byte stands for. -/
theorem ofUInt8_of_mem_utf8EncodeChar (low : c.toNat < 128) (member : byte ∈ String.utf8EncodeChar c) : .ofUInt8 byte = c := by
  rw [utf8EncodeChar_of_lt low, List.mem_singleton] at member
  rw [← Char.toNat_inj, member]
  change c.toNat % 256 = c.toNat
  omega

/-- The bytes of a character pass a test for ASCII if the character does. -/
theorem Ascii.test_ofUInt8 (ascii : Ascii test) (member : byte ∈ String.utf8EncodeChar c) :
    test (.ofUInt8 byte) = test c := by
  by_cases low : c.toNat < 128
  · rw [ofUInt8_of_mem_utf8EncodeChar low member]
  · have high := le_of_mem_utf8EncodeChar (Nat.not_lt.1 low) member
    have fails : ¬ test c := fun passes => low (ascii c passes)
    have fails' : ¬ test (.ofUInt8 byte) := fun passes => Nat.not_lt.2 high (ascii _ passes)
    rw [Bool.eq_false_iff.2 fails, Bool.eq_false_iff.2 fails']

/-- As many bytes pass a test for ASCII as the characters have that pass it. -/
theorem Ascii.length_takeWhile (ascii : Ascii test) (chars : List Char) :
    ((chars.flatMap String.utf8EncodeChar).takeWhile fun byte => test (.ofUInt8 byte)).length =
      byteLength (chars.takeWhile test) := by
  induction chars with
  | nil => rfl
  | cons c chars ih =>
    rw [List.flatMap_cons]
    by_cases passes : test c
    · have all : ∀ byte ∈ String.utf8EncodeChar c, test (.ofUInt8 byte) := fun byte member => by
        rw [ascii.test_ofUInt8 member, passes]
      rw [List.takeWhile_append_of_pos all, List.length_append, ih, String.length_utf8EncodeChar,
        List.takeWhile_cons_of_pos passes, byteLength]
    · obtain ⟨byte, others, same⟩ := List.exists_cons_of_ne_nil (String.utf8EncodeChar_ne_nil (c := c))
      have first : byte ∈ String.utf8EncodeChar c := by simp [same]
      have fails : test (.ofUInt8 byte) = false := by rw [ascii.test_ofUInt8 first, Bool.eq_false_iff.2 passes]
      rw [same, List.cons_append, List.takeWhile_cons, fails, List.takeWhile_cons_of_neg passes]
      rfl

end Deliberation.Text
