import Mathlib.Data.List.Perm.Basic
import Mathlib.Order.Lattice

/-!
# Last-writer-wins cells

A cell keeps the newest of the clocked writes put into it; a write may carry a
value or delete it.  Ties keep the stored write, so putting a write twice is
the same as putting it once.

A cell is determined by the set of writes it has seen as soon as no clock names
two different writes: it holds the write with the greatest clock.
-/

namespace Zeron.Lww

universe u v

/-- A clocked write.  `none` deletes the value, which is still a write. -/
structure Write (κ : Type u) (ν : Type v) where
  clock : κ
  value : Option ν

/-- The newest write seen so far, if any. -/
abbrev Cell (κ : Type u) (ν : Type v) :=
  Option (Write κ ν)

variable {κ : Type u} {ν : Type v} [LinearOrder κ]

/-- Put a write into a cell: it is stored when its clock is strictly newer. -/
def put (cell : Cell κ ν) (write : Write κ ν) : Cell κ ν :=
  match cell with
  | none => some write
  | some stored => if stored.clock < write.clock then some write else some stored

/-- Put several writes in order. -/
def putAll (cell : Cell κ ν) (writes : List (Write κ ν)) : Cell κ ν :=
  writes.foldl put cell

/-- No clock names two different writes. -/
def Consistent (writes : List (Write κ ν)) : Prop :=
  ∀ first ∈ writes, ∀ second ∈ writes, first.clock = second.clock → first = second

/-- The cell holds a newest one of the writes, or nothing when there are none. -/
def IsNewest (cell : Cell κ ν) (writes : List (Write κ ν)) : Prop :=
  match cell with
  | none => writes = []
  | some newest => newest ∈ writes ∧ ∀ write ∈ writes, write.clock ≤ newest.clock

@[simp]
theorem put_none (write : Write κ ν) : put none write = some write :=
  rfl

theorem put_of_lt {stored write : Write κ ν} (newer : stored.clock < write.clock) :
    put (some stored) write = some write :=
  if_pos newer

theorem put_of_le {stored write : Write κ ν} (older : write.clock ≤ stored.clock) :
    put (some stored) write = some stored :=
  if_neg (not_lt.mpr older)

@[simp]
theorem putAll_nil (cell : Cell κ ν) : putAll cell [] = cell :=
  rfl

@[simp]
theorem putAll_cons (cell : Cell κ ν) (write : Write κ ν) (writes : List (Write κ ν)) :
    putAll cell (write :: writes) = putAll (put cell write) writes :=
  rfl

theorem putAll_append (cell : Cell κ ν) (first second : List (Write κ ν)) :
    putAll cell (first ++ second) = putAll (putAll cell first) second :=
  List.foldl_append

/-- One more write keeps the cell a newest one. -/
theorem IsNewest.put {cell : Cell κ ν} {writes : List (Write κ ν)}
    (newest : IsNewest cell writes) (write : Write κ ν) :
    IsNewest (put cell write) (writes ++ [write]) := by
  cases cell with
  | none =>
      have noWrites : writes = [] := newest
      subst noWrites
      exact ⟨List.mem_singleton.mpr rfl, by simp⟩
  | some stored =>
      obtain ⟨storedMem, storedMax⟩ := newest
      by_cases newer : stored.clock < write.clock
      · rw [put_of_lt newer]
        refine ⟨by simp, fun other otherMem => ?_⟩
        rcases List.mem_append.mp otherMem with before | now
        · exact (storedMax other before).trans newer.le
        · rw [List.mem_singleton.mp now]
      · have older : write.clock ≤ stored.clock := not_lt.mp newer
        rw [put_of_le older]
        refine ⟨List.mem_append_left _ storedMem, fun other otherMem => ?_⟩
        rcases List.mem_append.mp otherMem with before | now
        · exact storedMax other before
        · rw [List.mem_singleton.mp now]
          exact older

/-- A cell that starts empty ends with a newest one of the writes put into it. -/
theorem isNewest_putAll {cell : Cell κ ν} {seen : List (Write κ ν)}
    (newest : IsNewest cell seen) (writes : List (Write κ ν)) :
    IsNewest (putAll cell writes) (seen ++ writes) := by
  induction writes generalizing cell seen with
  | nil => simpa using newest
  | cons write rest ih =>
      have next := ih (newest.put write)
      rwa [List.append_assoc] at next

theorem isNewest_putAll_none (writes : List (Write κ ν)) :
    IsNewest (putAll none writes) writes := by
  have start : IsNewest (none : Cell κ ν) [] := rfl
  exact isNewest_putAll start writes

/-- With consistent clocks there is only one newest write. -/
theorem IsNewest.unique {first second : Cell κ ν} {writes others : List (Write κ ν)}
    (consistent : Consistent writes) (same : ∀ write, write ∈ writes ↔ write ∈ others)
    (firstNewest : IsNewest first writes) (secondNewest : IsNewest second others) :
    first = second := by
  cases first with
  | none =>
      have noWrites : writes = [] := firstNewest
      cases second with
      | none => rfl
      | some newest =>
          have : newest ∈ writes := (same newest).mpr secondNewest.1
          simp [noWrites] at this
  | some newest =>
      cases second with
      | none =>
          have noOthers : others = [] := secondNewest
          have : newest ∈ others := (same newest).mp firstNewest.1
          simp [noOthers] at this
      | some other =>
          have otherMem : other ∈ writes := (same other).mpr secondNewest.1
          have newestMem : newest ∈ others := (same newest).mp firstNewest.1
          have clockEq : newest.clock = other.clock :=
            le_antisymm (secondNewest.2 newest newestMem) (firstNewest.2 other otherMem)
          rw [consistent newest firstNewest.1 other otherMem clockEq]

/-- Under consistent clocks the order of the writes does not matter. -/
theorem putAll_none_perm {writes others : List (Write κ ν)} (consistent : Consistent writes)
    (perm : writes.Perm others) : putAll none writes = putAll none others :=
  IsNewest.unique consistent (fun _ => perm.mem_iff) (isNewest_putAll_none writes)
    (isNewest_putAll_none others)

end Zeron.Lww
