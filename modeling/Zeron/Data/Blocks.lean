import Mathlib.Algebra.Group.Nat.Defs
import Mathlib.Data.List.Basic

/-!
# Blocks behind their lengths

A body is a list of blocks, each behind its length in four bytes.  A reader goes from one
length to the next and stops at the first block that is not there whole, so that a body
that is cut anywhere gives the blocks before the cut.
-/

namespace Zeron.Data.Blocks

universe u

variable {α : Type u}

/-- `bytes[start..stop]`, which fails outside the bytes. -/
def slice (bytes : List UInt8) (start stop : Nat) : Option (List UInt8) :=
  if start ≤ stop ∧ stop ≤ bytes.length then some ((bytes.drop start).take (stop - start)) else none

/-! ## Little-endian numbers -/

/-- The low 32 bits of a number, the lowest first. -/
def toLeBytes (value : Nat) : List UInt8 :=
  [.ofNat value, .ofNat (value / 2 ^ 8), .ofNat (value / 2 ^ 16), .ofNat (value / 2 ^ 24)]

/-- `u32::from_le_bytes`. -/
def ofLeBytes (bytes : List UInt8) : Nat :=
  bytes.foldr (fun byte value => byte.toNat + 256 * value) 0

@[simp]
theorem length_toLeBytes (value : Nat) : (toLeBytes value).length = 4 :=
  rfl

theorem ofLeBytes_toLeBytes (value : Nat) : ofLeBytes (toLeBytes value) = value % 2 ^ 32 := by
  simp only [ofLeBytes, toLeBytes, List.foldr_cons, List.foldr_nil, UInt8.toNat_ofNat']
  omega

theorem ofLeBytes_lt (bytes : List UInt8) : ofLeBytes bytes < 256 ^ bytes.length := by
  induction bytes with
  | nil => exact Nat.one_pos
  | cons byte bytes ih =>
      have small := byte.toNat_lt
      rw [List.length_cons]
      change byte.toNat + 256 * ofLeBytes bytes < _
      omega

/-! ## The slices -/

theorem length_slice {bytes part : List UInt8} {start stop : Nat}
    (read : slice bytes start stop = some part) : part.length = stop - start := by
  unfold slice at read
  split at read
  · rename_i inside
    rcases Option.some.inj read with rfl
    rw [List.length_take, List.length_drop]
    omega
  · cases read

theorem isSome_slice (bytes : List UInt8) {start stop : Nat} (ordered : start ≤ stop)
    (inside : stop ≤ bytes.length) : ∃ part, slice bytes start stop = some part :=
  ⟨_, if_pos ⟨ordered, inside⟩⟩

/-- A slice past the first bytes is one of the rest. -/
theorem slice_append (first rest : List UInt8) (start stop : Nat) :
    slice (first ++ rest) (first.length + start) (first.length + stop) = slice rest start stop := by
  unfold slice
  rw [List.length_append, List.drop_append, List.drop_eq_nil_of_le (by omega), List.nil_append]
  congr 1
  · rw [Nat.add_le_add_iff_left, Nat.add_le_add_iff_left]
  · rw [Nat.add_sub_cancel_left, Nat.add_sub_add_left]

theorem slice_left (first rest : List UInt8) : slice (first ++ rest) 0 first.length = some first := by
  unfold slice
  rw [if_pos ⟨Nat.zero_le _, by simp⟩, List.drop_zero, Nat.sub_zero, List.take_left]

/-- The bytes behind the first ones. -/
theorem slice_middle (first middle rest : List UInt8) {start stop : Nat}
    (start_eq : start = first.length) (stop_eq : stop = start + middle.length) :
    slice (first ++ (middle ++ rest)) start stop = some middle := by
  have read := slice_append first (middle ++ rest) 0 middle.length
  rw [Nat.add_zero, slice_left] at read
  rw [stop_eq, start_eq, read]

/-! ## Writing and reading -/

/-- Each block behind its length. -/
def write (blocks : List (List UInt8)) : List UInt8 :=
  blocks.flatMap fun block => toLeBytes block.length ++ block

/-- The blocks from an offset on, each through a decoder that may skip it or fail. -/
def readAll (decode : List UInt8 → Option (Option α)) (body : List UInt8) (off : Nat) :
    Option (List α) :=
  if _bounded : off + 4 ≤ body.length then
    (slice body off (off + 4)).bind fun bytes =>
      let len := ofLeBytes bytes
      if off + 4 + len > body.length then some []
      else
        (slice body (off + 4) (off + 4 + len)).bind fun block =>
          (decode block).bind fun item =>
            (readAll decode body (off + 4 + len)).map fun rest => item.toList ++ rest
  else some []
termination_by body.length - off

variable {decode : List UInt8 → Option (Option α)} {encode : α → List UInt8}

theorem readAll_of_short {body : List UInt8} {off : Nat} (short : body.length < off + 4) :
    readAll decode body off = some [] := by
  rw [readAll, dif_neg (by omega)]

/-- Reading never leaves the body. -/
theorem isSome_readAll (total : ∀ block, ∃ item, decode block = some item) (body : List UInt8)
    (off : Nat) : ∃ items, readAll decode body off = some items := by
  induction off using readAll.induct body with
  | case1 off bounded ih =>
      rw [readAll, dif_pos bounded]
      rcases isSome_slice body (Nat.le_add_right off 4) bounded with
        ⟨bytes, read⟩
      rw [read, Option.bind_some]
      dsimp only
      split
      · exact ⟨[], rfl⟩
      · rename_i whole
        rcases isSome_slice body (Nat.le_add_right (off + 4) (ofLeBytes bytes))
          (Nat.le_of_not_lt whole) with ⟨block, block_read⟩
        rcases total block with ⟨item, decoded⟩
        rcases ih bytes whole with ⟨rest, later⟩
        rw [block_read, Option.bind_some, decoded, later]
        exact ⟨_, rfl⟩
  | case2 off bounded => exact ⟨[], by rw [readAll, dif_neg bounded]⟩

/-- What is read comes from a block whose length fits into the four bytes. -/
theorem exists_block_of_mem {body : List UInt8} {off : Nat} {items : List α} {item : α}
    (read : readAll decode body off = some items) (listed : item ∈ items) :
    ∃ block, block.length < 2 ^ 32 ∧ decode block = some (some item) := by
  induction off using readAll.induct body generalizing items with
  | case1 off bounded ih =>
      rw [readAll, dif_pos bounded] at read
      rcases Option.bind_eq_some_iff.mp read with ⟨bytes, bytes_read, rest⟩
      dsimp only at rest
      split at rest
      · rcases Option.some.inj rest with rfl
        cases listed
      · rename_i whole
        rcases Option.bind_eq_some_iff.mp rest with ⟨block, block_read, rest⟩
        rcases Option.bind_eq_some_iff.mp rest with ⟨decoded, decode_eq, rest⟩
        rcases Option.map_eq_some_iff.mp rest with ⟨later, later_read, rfl⟩
        rcases List.mem_append.mp listed with own | others
        · refine ⟨block, ?_, ?_⟩
          · have small := ofLeBytes_lt bytes
            rw [length_slice bytes_read, Nat.add_sub_cancel_left] at small
            rw [length_slice block_read]
            omega
          · rw [decode_eq, Option.mem_toList.mp own]
        · exact ih bytes whole later_read others
  | case2 off bounded =>
      rw [readAll, dif_neg bounded] at read
      rcases Option.some.inj read with rfl
      cases listed

/-- Reading behind the first bytes is reading the rest. -/
theorem readAll_append (decode : List UInt8 → Option (Option α)) (first rest : List UInt8) (off : Nat) :
    readAll decode (first ++ rest) (first.length + off) = readAll decode rest off := by
  induction off using readAll.induct rest with
  | case1 off bounded ih =>
      rw [readAll, readAll, dif_pos (by rw [List.length_append]; omega), dif_pos bounded,
        Nat.add_assoc first.length off 4, slice_append]
      apply Option.bind_congr
      intro bytes _
      dsimp only
      rw [Nat.add_assoc first.length (off + 4), List.length_append]
      split
      · rw [if_pos (by omega)]
      · rename_i whole
        rw [if_neg (by omega), slice_append, ih bytes (by omega)]
  | case2 off bounded =>
      rw [readAll_of_short (by rw [List.length_append]; omega), readAll_of_short (by omega)]

section Written

variable {item : α} {items : List α}

/-- A block that is there whole is read, and the reader stands at the next one. -/
theorem readAll_block {block rest : List UInt8} (fits : block.length < 2 ^ 32)
    (decoded : decode block = some (some item)) :
    readAll decode (toLeBytes block.length ++ (block ++ rest)) 0 =
      (readAll decode rest 0).map fun items => item :: items := by
  have header : slice (toLeBytes block.length ++ (block ++ rest)) 0 4 =
      some (toLeBytes block.length) := slice_left _ _
  have announced : ofLeBytes (toLeBytes block.length) = block.length := by
    rw [ofLeBytes_toLeBytes, Nat.mod_eq_of_lt fits]
  have later : readAll decode (toLeBytes block.length ++ (block ++ rest)) (4 + block.length) =
      readAll decode rest 0 := by
    have behind := readAll_append decode (toLeBytes block.length ++ block) rest 0
    rwa [List.length_append] at behind
  rw [readAll, header, Option.bind_some]
  rw [announced, if_neg (by simp), slice_middle _ _ _ (length_toLeBytes _).symm rfl, Option.bind_some, decoded,
    later]
  rfl

section

variable (fits : ∀ item ∈ items, (encode item).length < 2 ^ 32) (decodes : ∀ item ∈ items, decode (encode item) = some (some item))
include fits decodes

/-- The blocks that a body holds whole. -/
theorem readAll_take_write (cut : Nat) :
    ∃ read, readAll decode ((write (items.map encode)).take cut) 0 = some read ∧ read <+: items := by
  induction items generalizing cut with
  | nil =>
      refine ⟨[], readAll_of_short ?_, List.prefix_rfl⟩
      rw [List.map_nil, write, List.flatMap_nil, List.take_nil, List.length_nil]
      omega
  | cons item items ih =>
      have item_fits := fits item List.mem_cons_self
      rw [List.map_cons, write, List.flatMap_cons, ← write, List.append_assoc]
      by_cases header : cut < 4
      · refine ⟨[], readAll_of_short ?_, List.nil_prefix⟩
        rw [List.length_take]
        omega
      · by_cases whole : 4 + (encode item).length ≤ cut
        · rcases ih (fun other listed => fits other (List.mem_cons_of_mem _ listed))
            (fun other listed => decodes other (List.mem_cons_of_mem _ listed))
            (cut - (4 + (encode item).length)) with ⟨read, rest, within⟩
          refine ⟨item :: read, ?_, List.cons_prefix_cons.mpr ⟨rfl, within⟩⟩
          rw [List.take_append, length_toLeBytes, List.take_append,
            List.take_of_length_le (by rw [length_toLeBytes]; omega),
            List.take_of_length_le (by omega),
            readAll_block item_fits (decodes item List.mem_cons_self), Nat.sub_sub, rest]
          rfl
        · refine ⟨[], ?_, List.nil_prefix⟩
          have cut_header : (toLeBytes (encode item).length ++
              (encode item ++ write (items.map encode))).take cut =
                toLeBytes (encode item).length ++
                  (encode item ++ write (items.map encode)).take (cut - 4) := by
            rw [List.take_append, length_toLeBytes,
              List.take_of_length_le (by rw [length_toLeBytes]; omega)]
          have announced : ofLeBytes (toLeBytes (encode item).length) = (encode item).length := by
            rw [ofLeBytes_toLeBytes, Nat.mod_eq_of_lt item_fits]
          have first : slice (toLeBytes (encode item).length ++
              (encode item ++ write (items.map encode)).take (cut - 4)) 0 4 =
                some (toLeBytes (encode item).length) := slice_left _ _
          rw [cut_header, readAll, dif_pos (by simp), first, Option.bind_some]
          rw [if_pos]
          rw [List.length_append, length_toLeBytes, List.length_take]
          omega

/-- A body that is whole gives every block. -/
theorem readAll_write : readAll decode (write (items.map encode)) 0 = some items := by
  induction items with
  | nil => exact readAll_of_short (by simp [write])
  | cons item items ih =>
      rw [List.map_cons, write, List.flatMap_cons, ← write, List.append_assoc,
        readAll_block (fits item List.mem_cons_self) (decodes item List.mem_cons_self),
        ih (fun other listed => fits other (List.mem_cons_of_mem _ listed))
          (fun other listed => decodes other (List.mem_cons_of_mem _ listed))]
      rfl

end

end Written

end Zeron.Data.Blocks
