import Zeron.Data.Table

/-!
# Tables in the order of the last write

A row that is written goes to the end, whether its key was there or not.  Readers
that sort by the number of the last write see the rows in this order.
-/

namespace Zeron.Data.Table

universe u v

variable {κ : Type u} {ρ : Type v} {key : ρ → κ} [DecidableEq κ]

/-- Write a row over the one of its key, if there is one. -/
def touch (table : Table key) (row : ρ) : Table key where
  rows := (table.rows.filter fun other => key other ≠ key row) ++ [row]
  distinct := by
    rw [List.map_append, List.nodup_append]
    refine ⟨(List.filter_sublist.map key).nodup table.distinct, List.nodup_singleton _, ?_⟩
    intro k listed other other_eq
    rcases List.mem_map.mp listed with ⟨kept, kept_listed, rfl⟩
    rcases List.mem_singleton.mp other_eq with rfl
    exact of_decide_eq_true (List.mem_filter.mp kept_listed).2

variable {table : Table key}

theorem mem_touch_iff {row other : ρ} :
    other ∈ (table.touch row).rows ↔
      other = row ∨ (other ∈ table.rows ∧ key other ≠ key row) := by
  rw [touch, List.mem_append, List.mem_singleton, List.mem_filter, decide_eq_true_eq, or_comm]

@[simp]
theorem get_touch (table : Table key) (row : ρ) (k : κ) :
    (table.touch row).get k = if key row = k then some row else table.get k := by
  split
  · rename_i same
    exact get_eq_some_iff.mpr ⟨mem_touch_iff.mpr (.inl rfl), same⟩
  · rename_i other
    cases found : table.get k with
    | none =>
        rw [get_eq_none_iff] at found ⊢
        intro listed
        rcases List.mem_map.mp listed with ⟨kept, stored, same⟩
        rcases mem_touch_iff.mp stored with rfl | ⟨before, _⟩
        · exact other same
        · exact found (List.mem_map.mpr ⟨kept, before, same⟩)
    | some kept =>
        rcases get_eq_some_iff.mp found with ⟨stored, same⟩
        apply get_eq_some_iff.mpr
        refine ⟨mem_touch_iff.mpr (.inr ⟨stored, ?_⟩), same⟩
        rw [same]
        exact Ne.symm other

/-- Write one row after the other. -/
def touchAll (table : Table key) (rows : List ρ) : Table key :=
  rows.foldl touch table

@[simp]
theorem touchAll_cons (table : Table key) (row : ρ) (rows : List ρ) :
    table.touchAll (row :: rows) = (table.touch row).touchAll rows :=
  rfl

theorem touchAll_append (table : Table key) (first second : List ρ) :
    table.touchAll (first ++ second) = (table.touchAll first).touchAll second :=
  List.foldl_append

variable {rows : List ρ}

/-- A key that is not written keeps its row. -/
theorem get_touchAll_of_notMem {k : κ} (free : k ∉ rows.map key) :
    (table.touchAll rows).get k = table.get k := by
  induction rows generalizing table with
  | nil => rfl
  | cons row rows ih =>
      rw [List.map_cons, List.mem_cons, not_or] at free
      rw [touchAll_cons, ih free.2, get_touch, if_neg (Ne.symm free.1)]

/-- A row that is written under a key of its own is found there. -/
theorem get_touchAll_of_mem {row : ρ} (distinct : (rows.map key).Nodup) (written : row ∈ rows) :
    (table.touchAll rows).get (key row) = some row := by
  induction rows generalizing table with
  | nil => cases written
  | cons first rows ih =>
      rw [List.map_cons, List.nodup_cons] at distinct
      rw [touchAll_cons]
      rcases List.mem_cons.mp written with rfl | later
      · rw [get_touchAll_of_notMem distinct.1, get_touch, if_pos rfl]
      · exact ih distinct.2 later

/-- Under a key that is written stands one of the rows of that key. -/
theorem exists_get_touchAll (table : Table key) {k : κ} (written : k ∈ rows.map key) :
    ∃ row ∈ rows, key row = k ∧ (table.touchAll rows).get k = some row := by
  induction rows generalizing table with
  | nil => cases written
  | cons row rows ih =>
      rw [touchAll_cons]
      by_cases later : k ∈ rows.map key
      · rcases ih (table.touch row) later with ⟨last, listed, same, found⟩
        exact ⟨last, List.mem_cons_of_mem _ listed, same, found⟩
      · rw [List.map_cons, List.mem_cons, or_iff_left later] at written
        refine ⟨row, List.mem_cons_self, written.symm, ?_⟩
        rw [get_touchAll_of_notMem later, get_touch, if_pos written.symm]

/-- What is found was written, or is what was there before. -/
theorem of_get_touchAll {row : ρ} {k : κ} (found : (table.touchAll rows).get k = some row) :
    row ∈ rows ∧ key row = k ∨ k ∉ rows.map key ∧ table.get k = some row := by
  by_cases written : k ∈ rows.map key
  · rcases table.exists_get_touchAll written with ⟨last, listed, same, shown⟩
    rw [shown] at found
    rcases Option.some.inj found with rfl
    exact .inl ⟨listed, same⟩
  · rw [get_touchAll_of_notMem written] at found
    exact .inr ⟨written, found⟩

/-- Rows under keys that are free join the table. -/
theorem mem_touchAll_iff_of_fresh (fresh : ∀ row ∈ rows, table.get (key row) = none)
    (distinct : (rows.map key).Nodup) {row : ρ} :
    row ∈ (table.touchAll rows).rows ↔ row ∈ table.rows ∨ row ∈ rows := by
  constructor
  · intro stored
    rcases of_get_touchAll (get_of_mem stored) with ⟨written, _⟩ | ⟨_, found⟩
    · exact .inr written
    · exact .inl (mem_of_get found)
  · rintro (stored | written)
    · apply mem_of_get (k := key row)
      rw [get_touchAll_of_notMem, get_of_mem stored]
      intro taken
      rcases List.mem_map.mp taken with ⟨other, other_written, same⟩
      have free := fresh other other_written
      rw [same, get_of_mem stored] at free
      cases free
    · exact mem_of_get (get_touchAll_of_mem distinct written)

/-- A condition on the key picks one row or none. -/
theorem filter_key_eq (table : Table key) (which : ρ → Bool) (k : κ) :
    (table.rows.filter fun row => which row && decide (key row = k)) =
      ((table.get k).filter which).toList := by
  have single : (table.rows.filter fun row => decide (key row = k)) = (table.get k).toList := by
    obtain ⟨rows, distinct⟩ := table
    change (rows.filter fun row => decide (key row = k)) =
      (rows.find? fun row => decide (key row = k)).toList
    induction rows with
    | nil => rfl
    | cons row rows ih =>
        rw [List.map_cons, List.nodup_cons] at distinct
        rw [List.filter_cons, List.find?_cons]
        by_cases same : key row = k
        · rw [if_pos (decide_eq_true same), decide_eq_true same]
          congr 1
          rw [List.filter_eq_nil_iff]
          intro other listed other_same
          apply distinct.1
          rw [same, ← of_decide_eq_true other_same]
          exact List.mem_map_of_mem listed
        · rw [decide_eq_false same]
          exact ih distinct.2
  rw [← List.filter_filter, single]
  cases table.get k with
  | none => rfl
  | some row =>
      rw [Option.toList_some, List.filter_singleton, Option.filter_some]
      cases which row <;> rfl

section Sweep

variable (sweep : ρ → Option ρ) (keeps : ∀ row next, sweep row = some next → key next = key row)

include keeps

end Sweep

end Zeron.Data.Table
