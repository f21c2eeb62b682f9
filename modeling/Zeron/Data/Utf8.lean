import Mathlib.Data.List.Basic
import Mathlib.Data.List.Flatten

/-!
# UTF-8

Texts as bytes.  A byte below 128 stands for itself and occurs in the code of no other
character.
-/

namespace Zeron.Data

/-- The bytes of a text. -/
def encodeUtf8 (chars : List Char) : List UInt8 :=
  chars.flatMap String.utf8EncodeChar

/-- `from_utf8`. -/
def decodeUtf8 (bytes : List UInt8) : Option (List Char) :=
  (bytes.toByteArray.utf8Decode?).map Array.toList

@[simp]
theorem encodeUtf8_cons (char : Char) (chars : List Char) :
    encodeUtf8 (char :: chars) = String.utf8EncodeChar char ++ encodeUtf8 chars := rfl

theorem utf8Encode_eq (chars : List Char) : chars.utf8Encode = (encodeUtf8 chars).toByteArray :=
  rfl

@[simp]
theorem decodeUtf8_encodeUtf8 (chars : List Char) : decodeUtf8 (encodeUtf8 chars) = some chars := by
  simp [decodeUtf8, ← utf8Encode_eq]

variable {chars : List Char}

theorem decodeUtf8_eq_some_iff {bytes : List UInt8} :
    decodeUtf8 bytes = some chars ↔ encodeUtf8 chars = bytes := by
  constructor
  · intro decoded
    rcases Option.map_eq_some_iff.mp decoded with ⟨array, found, rfl⟩
    have valid : bytes.toByteArray.utf8Decode?.isSome = true := by
      rw [found, Option.isSome_some]
    have encoded := ByteArray.utf8Encode_get_utf8Decode? (b := bytes.toByteArray) (h := valid)
    rw [utf8Encode_eq] at encoded
    simpa [found] using encoded
  · rintro rfl
    exact decodeUtf8_encodeUtf8 chars

theorem isSome_decodeUtf8 (bytes : List UInt8) :
    (decodeUtf8 bytes).isSome = bytes.toByteArray.validateUTF8 := by
  rw [decodeUtf8, Option.isSome_map, ByteArray.isSome_utf8Decode?_eq_validateUTF8]

/-- The code of a text begins with that of another one only if the text does. -/
theorem prefix_of_encodeUtf8 {first : List Char} (starts : encodeUtf8 first <+: encodeUtf8 chars) :
    first <+: chars := by
  rcases starts with ⟨rest, split⟩
  refine List.isPrefix_of_utf8Encode_append_eq_utf8Encode rest.toByteArray ?_
  rw [utf8Encode_eq, utf8Encode_eq, ← split, List.toByteArray_append]

/-! ## Bytes below 128 -/

/-- The bytes of longer codes have their highest bit set. -/
theorem toNat_eq_of_mem_utf8EncodeChar {char : Char} {byte : UInt8}
    (listed : byte ∈ String.utf8EncodeChar char) (low : byte.toNat < 128) :
    char.toNat = byte.toNat := by
  unfold String.utf8EncodeChar at listed
  dsimp only at listed
  have same : char.toNat = char.val.toNat := rfl
  split at listed
  · rw [List.mem_singleton] at listed
    subst listed
    rw [UInt8.toNat_ofNat'] at low ⊢
    omega
  · exfalso
    split at listed
    · rcases List.mem_pair.mp listed with rfl | rfl <;> rw [UInt8.toNat_ofNat'] at low <;> omega
    · split at listed
      · simp only [List.mem_cons, List.not_mem_nil, or_false] at listed
        rcases listed with rfl | rfl | rfl <;> rw [UInt8.toNat_ofNat'] at low <;> omega
      · simp only [List.mem_cons, List.not_mem_nil, or_false] at listed
        rcases listed with rfl | rfl | rfl | rfl <;> rw [UInt8.toNat_ofNat'] at low <;> omega

theorem utf8EncodeChar_of_lt {char : Char} (low : char.toNat < 128) :
    String.utf8EncodeChar char = [UInt8.ofNat char.toNat] := by
  have small : char.val.toNat ≤ 127 := Nat.le_of_lt_succ low
  unfold String.utf8EncodeChar
  rw [if_pos small]
  rfl

/-- A byte below 128 occurs exactly where its character does. -/
theorem mem_encodeUtf8_iff {byte : UInt8} (low : byte.toNat < 128) :
    byte ∈ encodeUtf8 chars ↔ ∃ char ∈ chars, char.toNat = byte.toNat := by
  constructor
  · intro listed
    rcases List.mem_flatMap.mp listed with ⟨char, there, inside⟩
    exact ⟨char, there, toNat_eq_of_mem_utf8EncodeChar inside low⟩
  · rintro ⟨char, there, same⟩
    refine List.mem_flatMap.mpr ⟨char, there, ?_⟩
    rw [utf8EncodeChar_of_lt (same ▸ low), same]
    simp

end Zeron.Data

/-!
## The pieces between separators
-/

namespace Zeron.Data

universe u

variable {α : Type u} {separator : α}

/-- No piece has the separator. -/
theorem not_mem_of_mem_splitOn [BEq α] [LawfulBEq α] {list piece : List α}
    (listed : piece ∈ list.splitOn separator) : separator ∉ piece := by
  induction list generalizing piece with
  | nil =>
      rw [List.splitOn_nil, List.mem_singleton] at listed
      subst listed
      exact List.not_mem_nil
  | cons first rest ih =>
      rw [List.splitOn_cons_eq_if_modifyHead] at listed
      by_cases same : first == separator
      · rw [if_pos same] at listed
        rcases List.mem_cons.mp listed with rfl | listed
        · exact List.not_mem_nil
        · exact ih listed
      · rw [if_neg same] at listed
        cases pieces : rest.splitOn separator with
        | nil => exact absurd pieces (List.splitOn_ne_nil separator rest)
        | cons head tail =>
            rw [pieces, List.modifyHead_cons, List.mem_cons] at listed
            rw [pieces] at ih
            rcases listed with rfl | listed
            · have apart : separator ≠ first := by
                rintro rfl
                exact same (BEq.rfl)
              exact List.not_mem_cons_of_ne_of_not_mem apart (ih List.mem_cons_self)
            · exact ih (List.mem_cons_of_mem head listed)

theorem head_splitOn [BEq α] [LawfulBEq α] {list : List α} (inner : list.head? ≠ some separator)
    (more : list ≠ []) : (list.splitOn separator).head? ≠ some [] := by
  cases list with
  | nil => exact absurd rfl more
  | cons first rest =>
      have apart : ¬ (first == separator) = true := by simpa using inner
      rw [List.splitOn_cons_eq_if_modifyHead, if_neg apart]
      cases pieces : rest.splitOn separator with
      | nil => exact absurd pieces (List.splitOn_ne_nil separator rest)
      | cons head tail => simp

/-- Fewer pieces make a part of the text. -/
theorem intercalate_sublist {fewer pieces : List (List α)} (part : fewer.Sublist pieces)
    (glue : List α) : (glue.intercalate fewer).Sublist (glue.intercalate pieces) := by
  induction part with
  | slnil => exact List.Sublist.refl _
  | @cons kept all piece part ih =>
      by_cases last : all = []
      · subst last
        rw [List.sublist_nil.mp part]
        exact List.nil_sublist _
      · rw [List.intercalate_cons_of_ne_nil last]
        exact ih.trans (List.sublist_append_right _ _)
  | @cons_cons kept all piece part ih =>
      by_cases alone : kept = []
      · subst alone
        rw [List.intercalate_singleton]
        by_cases last : all = []
        · rw [last, List.intercalate_singleton]
        · rw [List.intercalate_cons_of_ne_nil last]
          simp only [List.append_assoc]
          exact List.sublist_append_left _ _
      · have last : all ≠ [] := by
          rintro rfl
          exact alone (List.sublist_nil.mp part)
        rw [List.intercalate_cons_of_ne_nil alone, List.intercalate_cons_of_ne_nil last]
        exact (List.Sublist.refl _).append ih

theorem utf8ByteSize_eq (text : String) : text.utf8ByteSize = (encodeUtf8 text.toList).length := by
  rw [← String.size_toByteArray, ← String.ofList_toList (s := text), String.toByteArray_ofList,
    utf8Encode_eq]
  simp

/-- A part of a text is no longer than the text. -/
theorem utf8ByteSize_le_of_sublist {part text : String}
    (sublist : part.toList.Sublist text.toList) : part.utf8ByteSize ≤ text.utf8ByteSize := by
  rw [utf8ByteSize_eq, utf8ByteSize_eq]
  exact (sublist.flatMap String.utf8EncodeChar).length_le

end Zeron.Data
