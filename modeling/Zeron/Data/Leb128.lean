import Mathlib.Data.Nat.Bitwise
import Mathlib.Tactic.Ring

/-!
# Unsigned LEB128

A number in groups of seven bits, the lowest first.  Every group but the last has its high bit
set.
-/

namespace Zeron.Data.Leb128

def encode (n : Nat) : List UInt8 :=
  if n < 128 then [UInt8.ofNat n] else UInt8.ofNat (n % 128 + 128) :: encode (n / 128)
termination_by n
decreasing_by omega

/-- The number at the start of some bytes, and the bytes after it. -/
def decode : List UInt8 → Option (Nat × List UInt8)
  | [] => none
  | byte :: rest =>
      if byte.toNat < 128 then some (byte.toNat, rest)
      else (decode rest).map fun (n, rest) => (byte.toNat - 128 + 128 * n, rest)

theorem decode_encode (n : Nat) (rest : List UInt8) : decode (encode n ++ rest) = some (n, rest) := by
  induction n using Nat.strongRecOn with
  | ind n ih =>
      rw [encode]
      split
      · rename_i small
        have byte : (UInt8.ofNat n).toNat = n := by
          rw [UInt8.toNat_ofNat']
          omega
        simp [decode, byte, small]
      · rename_i big
        have byte : (UInt8.ofNat (n % 128 + 128)).toNat = n % 128 + 128 := by
          rw [UInt8.toNat_ofNat']
          omega
        rw [List.cons_append, decode, if_neg (by omega), ih (n / 128) (by omega)]
        simp only [Option.map_some, Option.some.injEq, Prod.mk.injEq, and_true]
        omega

/-- The groups of a number are as many as its bits need. -/
theorem length_encode_le_iff (n k : Nat) : (encode n).length ≤ k + 1 ↔ n < 128 ^ (k + 1) := by
  induction k generalizing n with
  | zero =>
      rw [encode]
      split
      · rename_i small
        simpa using small
      · rename_i big
        have more : (encode (n / 128)).length ≠ 0 := by
          rw [encode]
          split <;> simp
        simp only [List.length_cons]
        constructor <;> intro bound <;> omega
  | succ k ih =>
      rw [encode]
      split
      · rename_i small
        have bound : 128 ≤ 128 ^ (k + 1 + 1) := Nat.le_self_pow (by omega) 128
        simp only [List.length_cons, List.length_nil]
        constructor <;> intro <;> omega
      · rw [List.length_cons, Nat.add_le_add_iff_right, ih, Nat.div_lt_iff_lt_mul (by decide)]
        rw [← Nat.pow_succ]

/-- What is left is a suffix, after one group at least. -/
theorem exists_groups {bytes rest : List UInt8} {n : Nat} (read : decode bytes = some (n, rest)) :
    ∃ groups, bytes = groups ++ rest ∧ 0 < groups.length ∧ n < 128 ^ groups.length := by
  induction bytes generalizing n with
  | nil => cases read
  | cons byte bytes ih =>
      rw [decode] at read
      split at read
      · rename_i small
        cases read
        exact ⟨[byte], rfl, by simp, by simpa using small⟩
      · obtain ⟨⟨m, left⟩, inside, same⟩ := Option.map_eq_some_iff.mp read
        cases same
        obtain ⟨groups, split, -, bound⟩ := ih inside
        refine ⟨byte :: groups, by rw [split]; rfl, by simp, ?_⟩
        have low := byte.toNat_lt
        rw [List.length_cons]
        omega

end Zeron.Data.Leb128
