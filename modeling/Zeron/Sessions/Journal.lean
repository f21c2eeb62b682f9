import Mathlib.Data.List.Induction
import Mathlib.Data.Nat.Basic
import Mathlib.Order.Basic

/-!
# The journal of a chat

Every published event is appended to a file of lines.  A write that fails may leave
text behind, onto which the next line is joined unless the file was opened again.
-/

namespace Zeron.Sessions

universe u

variable {ε : Type u}

/-- An event with its number in the journal; 0 if it was not recorded. -/
structure Journaled (ε : Type u) where
  seq : Nat
  event : ε
  deriving DecidableEq

/-- What becomes of a write to the file. -/
inductive Write where
  | whole
  /-- The file cannot be opened or written. -/
  | fails
  /-- Part of the line is written. -/
  | torn
  deriving DecidableEq

/-- The cached handle of an open file. -/
structure Handle where
  nextSeq : Nat
  needsNewline : Bool
  deriving DecidableEq

structure Journal (ε : Type u) where
  /-- Complete lines, `none` if one does not parse. -/
  lines : List (Option (Journaled ε))
  /-- The file ends within a line. -/
  torn : Bool
  handle : Option Handle
  deriving DecidableEq

namespace Journal

/-- A chat that has no file yet. -/
def empty : Journal ε where
  lines := []
  torn := false
  handle := none

/-- The lines that parse. -/
def records (journal : Journal ε) : List (Journaled ε) :=
  journal.lines.filterMap fun line => line

/-- `read_tail`: the number of the last valid line. -/
def lastSeq (journal : Journal ε) : Nat :=
  (journal.records.getLast?.map Journaled.seq).getD 0

/-- The handle that `append` works with; `scan_tail` reads it from the file. -/
def opened (journal : Journal ε) : Handle :=
  journal.handle.getD { nextSeq := journal.lastSeq + 1, needsNewline := journal.torn }

/-- A line that is appended stands by itself. -/
def readable (journal : Journal ε) : Bool :=
  !journal.torn || journal.opened.needsNewline

/-- The lines with one more; text that was left behind spoils it. -/
def written (journal : Journal ε) (line : Journaled ε) : List (Option (Journaled ε)) :=
  if journal.torn then
    if journal.opened.needsNewline then journal.lines ++ [none, some line]
    else journal.lines ++ [none]
  else journal.lines ++ [some line]

/-- `append`, with the number that `publish` makes of its result. -/
def append (journal : Journal ε) (event : ε) : Write → Journal ε × Nat
  | .whole =>
      let nextSeq := journal.opened.nextSeq
      ({ lines := journal.written { seq := nextSeq, event }
         torn := false
         handle := some { nextSeq := nextSeq + 1, needsNewline := false } }, nextSeq)
  | .fails => (journal, 0)
  | .torn => ({ journal with torn := true, handle := some journal.opened }, 0)

/-- Another chat takes the place of the cached handle. -/
def evict (journal : Journal ε) : Journal ε :=
  { journal with handle := none }

/-- `replay`: a cursor ahead of the last number reads everything. -/
def replay (journal : Journal ε) (afterSeq : Nat) : List (Journaled ε) :=
  let start := if journal.lastSeq < afterSeq then 0 else afterSeq
  journal.records.filter fun record => decide (start < record.seq)

/-! ## Numbers -/

/-- Numbers grow along the file, and the next one is above them all. -/
structure Ordered (journal : Journal ε) : Prop where
  increasing : journal.records.Pairwise fun first second => first.seq < second.seq
  positive : ∀ record ∈ journal.records, 0 < record.seq
  below : ∀ record ∈ journal.records, record.seq < journal.opened.nextSeq
  next : 0 < journal.opened.nextSeq

variable {journal : Journal ε}

theorem ordered_empty : (empty : Journal ε).Ordered where
  increasing := .nil
  positive := nofun
  below := nofun
  next := Nat.one_pos

/-- The last number is the greatest. -/
theorem seq_le_lastSeq
    (increasing : journal.records.Pairwise fun first second => first.seq < second.seq)
    {record : Journaled ε} (recorded : record ∈ journal.records) :
    record.seq ≤ journal.lastSeq := by
  unfold lastSeq
  generalize journal.records = records at increasing recorded
  cases records using List.reverseRecOn with
  | nil => cases recorded
  | append_singleton before last =>
      rw [List.getLast?_concat]
      obtain earlier | rfl := (List.mem_append.mp recorded).imp_right List.mem_singleton.mp
      · exact ((List.pairwise_append.mp increasing).2.2 record earlier last
          (List.mem_singleton_self last)).le
      · exact le_rfl

/-- A readable line is the last record; otherwise the records stay. -/
theorem filterMap_written (journal : Journal ε) (line : Journaled ε) :
    (journal.written line).filterMap (fun line => line) =
      if journal.readable then journal.records ++ [line] else journal.records := by
  unfold written readable records
  cases journal.torn with
  | false => simp
  | true => cases journal.opened.needsNewline <;> simp

theorem records_append_of_readable (readable : journal.readable = true) (event : ε) :
    (journal.append event .whole).1.records =
      journal.records ++ [{ seq := journal.opened.nextSeq, event }] := by
  exact (journal.filterMap_written _).trans (if_pos readable)

/-- An event that was not recorded leaves the records alone. -/
theorem append_cases (journal : Journal ε) (event : ε) (write : Write) :
    (write = .whole ∧ journal.readable = true ∧
        (journal.append event write).1.records =
          journal.records ++ [{ seq := (journal.append event write).2, event }]) ∨
      (journal.append event write).1.records = journal.records := by
  cases write with
  | fails => exact .inr rfl
  | torn => exact .inr rfl
  | whole =>
      by_cases readable : journal.readable = true
      · exact .inl ⟨rfl, readable, records_append_of_readable readable event⟩
      · exact .inr ((journal.filterMap_written _).trans (if_neg readable))

/-- Every write keeps the numbers in order. -/
theorem Ordered.append (ordered : journal.Ordered) (event : ε) (write : Write) :
    (journal.append event write).1.Ordered := by
  cases write with
  | fails => exact ordered
  | torn => exact ⟨ordered.increasing, ordered.positive, ordered.below, ordered.next⟩
  | whole =>
      have records : (journal.append event .whole).1.records = _ := journal.filterMap_written _
      have opened : (journal.append event .whole).1.opened.nextSeq =
        journal.opened.nextSeq + 1 := rfl
      have next := ordered.next
      constructor
      · rw [records]
        split
        · refine List.pairwise_append.mpr ⟨ordered.increasing, List.pairwise_singleton _ _, ?_⟩
          intro record recorded last last_eq
          obtain rfl := List.mem_singleton.mp last_eq
          exact ordered.below record recorded
        · exact ordered.increasing
      · intro record recorded
        rw [records] at recorded
        split at recorded
        · obtain old | rfl := (List.mem_append.mp recorded).imp_right List.mem_singleton.mp
          · exact ordered.positive record old
          · exact next
        · exact ordered.positive record recorded
      · intro record recorded
        rw [records] at recorded
        split at recorded
        · obtain old | rfl := (List.mem_append.mp recorded).imp_right List.mem_singleton.mp
          · exact (ordered.below record old).trans (Nat.lt_succ_self _)
          · exact Nat.lt_succ_self _
        · exact (ordered.below record recorded).trans (Nat.lt_succ_self _)
      · exact next.trans (Nat.lt_succ_self _)

theorem Ordered.evict (ordered : journal.Ordered) : journal.evict.Ordered where
  increasing := ordered.increasing
  positive := ordered.positive
  below record recorded := by
    exact Nat.lt_succ_of_le (seq_le_lastSeq ordered.increasing recorded)
  next := Nat.succ_pos _

/-- What is replayed from a cursor that the journal knows. -/
theorem replay_of_known {afterSeq : Nat}
    (known : afterSeq ≤ journal.lastSeq) :
    journal.replay afterSeq =
      journal.records.filter fun record => decide (afterSeq < record.seq) := by
  unfold replay
  rw [if_neg (Nat.not_lt.mpr known)]

end Journal

end Zeron.Sessions
