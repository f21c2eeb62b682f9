import Mathlib.Data.List.Nodup
import Mathlib.Data.List.TakeWhile

/-!
# Keyed tables

A table of a relational store: rows in the order of their insertion, no two
with one key.  A statement that rewrites rows picks them by a condition and
keeps their keys, so a table never has to be checked again.
-/

namespace Zeron.Data

universe u v

/-- Rows with pairwise different keys. -/
structure Table {κ : Type u} {ρ : Type v} (key : ρ → κ) where
  rows : List ρ
  distinct : (rows.map key).Nodup

namespace Table

variable {κ : Type u} {ρ : Type v} {key : ρ → κ}

@[ext]
theorem ext {first second : Table key} (same : first.rows = second.rows) : first = second := by
  cases first
  cases second
  cases same
  rfl

instance [DecidableEq ρ] : DecidableEq (Table key) := fun first second =>
  decidable_of_iff (first.rows = second.rows) ⟨ext, congrArg rows⟩

def empty : Table key :=
  { rows := [], distinct := List.nodup_nil }

theorem distinct_map (table : Table key) {set : ρ → ρ} (keeps : ∀ row, key (set row) = key row) :
    ((table.rows.map set).map key).Nodup := by
  have same : (table.rows.map set).map key = table.rows.map key := by
    rw [List.map_map]
    exact List.map_congr_left fun row _ => keeps row
  rw [same]
  exact table.distinct

/-- `UPDATE … SET … WHERE`. -/
def update (table : Table key) (which : ρ → Bool) (set : ρ → ρ)
    (keeps : ∀ row, key (set row) = key row) : Table key where
  rows := table.rows.map fun row => if which row then set row else row
  distinct := table.distinct_map fun row => by
    split
    · exact keeps row
    · rfl

/-- `DELETE … WHERE`. -/
def remove (table : Table key) (which : ρ → Bool) : Table key where
  rows := table.rows.filter fun row => !which row
  distinct := (List.filter_sublist.map key).nodup table.distinct

/-- The number of rows that a condition picks. -/
def count (table : Table key) (which : ρ → Bool) : Nat :=
  table.rows.countP which

theorem distinct_append (table : Table key) {row : ρ} (free : key row ∉ table.rows.map key) :
    ((table.rows ++ [row]).map key).Nodup := by
  rw [List.map_append, List.map_cons, List.map_nil]
  refine List.nodup_append.mpr ⟨table.distinct, List.nodup_singleton _, ?_⟩
  intro k listed other other_eq same
  rw [List.mem_singleton] at other_eq
  exact free (other_eq ▸ same ▸ listed)

section Keys

variable [DecidableEq κ]

/-- The row of a key. -/
def get (table : Table key) (k : κ) : Option ρ :=
  table.rows.find? fun row => decide (key row = k)

/-- `INSERT`, which fails on a key that is taken. -/
def insert (table : Table key) (row : ρ) : Option (Table key) :=
  if taken : key row ∈ table.rows.map key then none
  else some {
    rows := table.rows ++ [row]
    distinct := table.distinct_append taken }

/-- The rows inserted before the one of a key. -/
def before (table : Table key) (k : κ) : List ρ :=
  table.rows.takeWhile fun row => decide (key row ≠ k)

/-- `INSERT OR IGNORE`. -/
def insertOrIgnore (table : Table key) (row : ρ) : Table key :=
  (table.insert row).getD table

/-- `INSERT … ON CONFLICT DO UPDATE`: the row takes the place of the one with
its key. -/
def put (table : Table key) (row : ρ) : Table key :=
  if taken : key row ∈ table.rows.map key then {
    rows := table.rows.map fun old => if key old = key row then row else old
    distinct := table.distinct_map fun old => by
      split
      · exact Eq.symm ‹_›
      · rfl }
  else {
    rows := table.rows ++ [row]
    distinct := table.distinct_append taken }

variable {table : Table key} {row : ρ} {k : κ}

theorem key_of_get (found : table.get k = some row) :
    key row = k := by
  have picked := List.find?_some found
  exact of_decide_eq_true picked

theorem mem_of_get (found : table.get k = some row) :
    row ∈ table.rows :=
  List.mem_of_find?_eq_some found

omit [DecidableEq κ] in
theorem eq_of_mem {first second : ρ} (first_stored : first ∈ table.rows)
    (second_stored : second ∈ table.rows) (same : key first = key second) : first = second :=
  List.inj_on_of_nodup_map table.distinct first_stored second_stored same

/-- A row is found under its key. -/
theorem get_of_mem (stored : row ∈ table.rows) :
    table.get (key row) = some row := by
  cases found : table.get (key row) with
  | none =>
      have absent := List.find?_eq_none.mp found row stored
      exact absurd (decide_eq_true rfl) absent
  | some other =>
      rw [eq_of_mem (mem_of_get found) stored (key_of_get found)]

theorem get_eq_some_iff :
    table.get k = some row ↔ row ∈ table.rows ∧ key row = k := by
  constructor
  · intro found
    exact ⟨mem_of_get found, key_of_get found⟩
  · rintro ⟨stored, rfl⟩
    exact get_of_mem stored

theorem get_eq_none_iff :
    table.get k = none ↔ k ∉ table.rows.map key := by
  unfold get
  rw [List.find?_eq_none]
  simp only [decide_eq_true_eq, List.mem_map, not_exists, not_and]

/-- A statement rewrites the row of each key by itself. -/
theorem get_update (table : Table key) (which : ρ → Bool) (set : ρ → ρ)
    (keeps : ∀ row, key (set row) = key row) (k : κ) :
    (table.update which set keeps).get k =
      (table.get k).map fun row => if which row then set row else row := by
  unfold get update
  rw [List.find?_map]
  congr 2
  funext row
  simp only [Function.comp_apply]
  split
  · rw [keeps]
  · rfl

theorem insert_eq_none_iff :
    table.insert row = none ↔ (table.get (key row)).isSome := by
  unfold insert
  rw [← Option.ne_none_iff_isSome, Ne, get_eq_none_iff, not_not]
  split
  · exact iff_of_true rfl ‹_›
  · exact iff_of_false (by simp) ‹_›

theorem rows_insert {table next : Table key} (inserted : table.insert row = some next) :
    next.rows = table.rows ++ [row] := by
  unfold insert at inserted
  split at inserted
  · cases inserted
  · cases inserted
    rfl

theorem get_insert {table next : Table key} (inserted : table.insert row = some next) (k : κ) :
    next.get k = if key row = k then some row else table.get k := by
  have free : table.get (key row) = none := by
    rw [← Option.not_isSome_iff_eq_none, ← insert_eq_none_iff, inserted]
    simp
  unfold get
  rw [rows_insert inserted, List.find?_append]
  by_cases same : key row = k
  · subst same
    unfold get at free
    rw [free, if_pos rfl]
    simp
  · simp [same]

theorem mem_insertOrIgnore {row other : ρ} (stored : other ∈ table.rows) :
    other ∈ (table.insertOrIgnore row).rows := by
  unfold insertOrIgnore
  cases inserted : table.insert row with
  | none => exact stored
  | some next =>
      change other ∈ next.rows
      rw [rows_insert inserted]
      exact List.mem_append_left _ stored

theorem mem_of_mem_insertOrIgnore {row other : ρ}
    (stored : other ∈ (table.insertOrIgnore row).rows) : other ∈ table.rows ∨ other = row := by
  unfold insertOrIgnore at stored
  cases inserted : table.insert row with
  | none =>
      rw [inserted] at stored
      exact .inl stored
  | some next =>
      rw [inserted] at stored
      change other ∈ next.rows at stored
      rw [rows_insert inserted] at stored
      exact (List.mem_append.mp stored).imp_right List.mem_singleton.mp

/-- Afterwards the key is taken, and no other than before. -/
theorem isSome_get_insertOrIgnore (table : Table key) (row : ρ) (k : κ) :
    ((table.insertOrIgnore row).get k).isSome ↔ (table.get k).isSome ∨ key row = k := by
  unfold insertOrIgnore
  cases inserted : table.insert row with
  | none =>
      have taken := insert_eq_none_iff.mp inserted
      refine ⟨.inl, ?_⟩
      rintro (stored | rfl)
      · exact stored
      · exact taken
  | some next =>
      rw [Option.getD_some, get_insert inserted]
      by_cases same : key row = k
      · simp [same]
      · simp [same]

theorem get_put (table : Table key) (row : ρ) (k : κ) :
    (table.put row).get k = if key row = k then some row else table.get k := by
  unfold put
  split
  · rename_i taken
    unfold get
    rw [List.find?_map]
    by_cases same : key row = k
    · subst same
      rw [if_pos rfl]
      obtain ⟨old, stored, old_key⟩ := List.mem_map.mp taken
      have found : table.get (key row) = some old := get_eq_some_iff.mpr ⟨stored, old_key⟩
      unfold get at found
      have agree : ((fun found => decide (key found = key row)) ∘
          fun old => if key old = key row then row else old) =
            fun old => decide (key old = key row) := by
        funext other
        rw [Function.comp_apply]
        split
        · simp [‹key other = key row›]
        · rfl
      rw [agree, found, Option.map_some, if_pos old_key]
    · rw [if_neg same]
      have agree : ((fun found => decide (key found = k)) ∘
          fun old => if key old = key row then row else old) =
            fun old => decide (key old = k) := by
        funext other
        rw [Function.comp_apply]
        split
        · rename_i other_key
          rw [other_key]
        · rfl
      rw [agree]
      cases found : table.rows.find? fun old => decide (key old = k) with
      | none => rfl
      | some other =>
          have picked := List.find?_some found
          have other_key : key other = k := of_decide_eq_true picked
          rw [Option.map_some, if_neg]
          rw [other_key]
          exact Ne.symm same
  · rename_i free
    have inserted : table.insert row = some ⟨table.rows ++ [row], by
        rw [List.map_append, List.map_cons, List.map_nil]
        refine List.nodup_append.mpr ⟨table.distinct, List.nodup_singleton _, ?_⟩
        intro k listed other other_eq same
        rw [List.mem_singleton] at other_eq
        exact free (other_eq ▸ same ▸ listed)⟩ := by
      unfold insert
      rw [dif_neg free]
    exact get_insert inserted k

theorem mem_put_iff {row other : ρ} :
    other ∈ (table.put row).rows ↔
      other = row ∨ other ∈ table.rows ∧ key other ≠ key row := by
  have found (row' : ρ) (rows : Table key) : row' ∈ rows.rows ↔ rows.get (key row') = some row' := by
    rw [get_eq_some_iff, and_iff_left rfl]
  rw [found, found, get_put]
  by_cases same : key row = key other
  · rw [if_pos same, Option.some.injEq]
    constructor
    · intro equal
      exact .inl equal.symm
    · rintro (rfl | ⟨_, apart⟩)
      · rfl
      · exact absurd same.symm apart
  · rw [if_neg same]
    constructor
    · intro stored
      exact .inr ⟨stored, Ne.symm same⟩
    · rintro (rfl | ⟨stored, _⟩)
      · exact absurd rfl same
      · exact stored

/-- A row that is there already takes its own place. -/
theorem put_of_mem (stored : row ∈ table.rows) :
    table.put row = table := by
  apply ext
  unfold put
  rw [dif_pos (List.mem_map_of_mem stored)]
  apply (List.map_congr_left _).trans (List.map_id _)
  intro old old_stored
  split
  · exact (eq_of_mem old_stored stored ‹_›).symm
  · rfl

/-- Upserts, one after another. -/
def putAll (table : Table key) (rows : List ρ) : Table key :=
  rows.foldl put table

@[simp]
theorem putAll_nil (table : Table key) : table.putAll [] = table :=
  rfl

@[simp]
theorem putAll_cons (table : Table key) (row : ρ) (rows : List ρ) :
    table.putAll (row :: rows) = (table.put row).putAll rows :=
  rfl

theorem putAll_of_mem {rows : List ρ} (stored : ∀ row ∈ rows, row ∈ table.rows) :
    table.putAll rows = table := by
  induction rows with
  | nil => rfl
  | cons row rows ih =>
      rw [putAll_cons, put_of_mem (stored row List.mem_cons_self)]
      exact ih fun other listed => stored other (List.mem_cons_of_mem _ listed)

/-- Of rows with different keys all are stored, beside the old ones with other keys. -/
theorem mem_putAll_iff {rows : List ρ} (distinct : (rows.map key).Nodup) :
    row ∈ (table.putAll rows).rows ↔
      row ∈ rows ∨ row ∈ table.rows ∧ key row ∉ rows.map key := by
  induction rows generalizing table with
  | nil => simp
  | cons head tail ih =>
      rw [List.map_cons, List.nodup_cons] at distinct
      rw [putAll_cons, ih distinct.2, mem_put_iff, List.map_cons, List.mem_cons, List.mem_cons,
        not_or]
      constructor
      · rintro (later | ⟨rfl | ⟨stored, apart⟩, free⟩)
        · exact .inl (.inr later)
        · exact .inl (.inl rfl)
        · exact .inr ⟨stored, apart, free⟩
      · rintro ((rfl | later) | ⟨stored, apart, free⟩)
        · exact .inr ⟨.inl rfl, distinct.1⟩
        · exact .inl later
        · exact .inr ⟨.inr ⟨stored, apart⟩, free⟩

/-- A relation to the rows before holds of all rows after an upsert exactly when
it holds of the new row. -/
theorem kept_put_iff {kept : ρ → ρ → Prop} (refl : ∀ row, kept row row) (table : Table key)
    (next : ρ) :
    (∀ k old, table.get k = some old → ∃ row, (table.put next).get k = some row ∧ kept old row) ↔
      ∀ old, table.get (key next) = some old → kept old next := by
  constructor
  · intro all old found
    obtain ⟨row, row_found, related⟩ := all (key next) old found
    rw [get_put, if_pos rfl] at row_found
    cases row_found
    exact related
  · intro one k old found
    rw [get_put]
    split
    · rename_i same
      exact ⟨next, rfl, one old (same ▸ found)⟩
    · exact ⟨old, found, refl old⟩

variable {which : ρ → Bool}

/-- A condition on one key picks one row or none. -/
theorem count_eq_one_iff (one : ∀ row ∈ table.rows, which row = true → key row = k) :
    table.count which = 1 ↔ ∃ row, table.get k = some row ∧ which row = true := by
  unfold count
  rw [List.countP_eq_length_filter]
  constructor
  · intro single
    obtain ⟨row, alone⟩ := List.length_eq_one_iff.mp single
    have listed : row ∈ table.rows.filter which := alone ▸ List.mem_singleton_self row
    obtain ⟨stored, picked⟩ := List.mem_filter.mp listed
    exact ⟨row, get_eq_some_iff.mpr ⟨stored, one row stored picked⟩, picked⟩
  · rintro ⟨row, found, picked⟩
    have all_equal : ∀ other ∈ table.rows.filter which, other = row := by
      intro other listed
      obtain ⟨stored, other_picked⟩ := List.mem_filter.mp listed
      apply eq_of_mem stored (mem_of_get found)
      rw [one other stored other_picked, key_of_get found]
    have distinct : (table.rows.filter which).Nodup := by
      have nodup : table.rows.Nodup := List.Nodup.of_map key table.distinct
      exact nodup.filter which
    have listed : row ∈ table.rows.filter which :=
      List.mem_filter.mpr ⟨mem_of_get found, picked⟩
    have alone : table.rows.filter which = [row] := by
      cases rest : table.rows.filter which with
      | nil =>
          rw [rest] at listed
          cases listed
      | cons first tail =>
          rw [rest] at all_equal distinct
          have first_eq := all_equal first List.mem_cons_self
          cases tail with
          | nil => rw [first_eq]
          | cons second _ =>
              have second_eq := all_equal second (List.mem_cons_of_mem _ List.mem_cons_self)
              have apart := (List.nodup_cons.mp distinct).1
              exact absurd (first_eq.trans second_eq.symm ▸ List.mem_cons_self) apart
    rw [alone]
    rfl

/-- A deleted row is gone, and no other. -/
theorem get_remove (table : Table key) (which : ρ → Bool) (k : κ) :
    (table.remove which).get k = (table.get k).filter fun row => !which row := by
  cases found : table.get k with
  | none =>
      rw [get_eq_none_iff] at found
      rw [Option.filter_none, get_eq_none_iff]
      exact fun listed => found ((List.filter_sublist.map key).subset listed)
  | some row =>
      have stored := mem_of_get found
      by_cases gone : which row = true
      · rw [Option.filter_some, gone, Bool.not_true, if_neg Bool.false_ne_true, get_eq_none_iff]
        intro listed
        obtain ⟨other, other_listed, same⟩ := List.mem_map.mp listed
        obtain ⟨other_stored, kept⟩ := List.mem_filter.mp other_listed
        have other_eq := eq_of_mem other_stored stored (same.trans (key_of_get found).symm)
        rw [other_eq, gone] at kept
        cases kept
      · rw [Bool.not_eq_true] at gone
        rw [Option.filter_some, gone]
        refine get_eq_some_iff.mpr ⟨List.mem_filter.mpr ⟨stored, ?_⟩, key_of_get found⟩
        rw [gone]
        rfl

theorem mem_of_mem_before (earlier : row ∈ table.before k) :
    row ∈ table.rows :=
  List.takeWhile_sublist _ |>.subset earlier

theorem before_update (table : Table key) (which : ρ → Bool) (set : ρ → ρ)
    (keeps : ∀ row, key (set row) = key row) (k : κ) :
    (table.update which set keeps).before k =
      (table.before k).map fun row => if which row then set row else row := by
  unfold before update
  rw [List.takeWhile_map]
  congr 2
  funext row
  rw [Function.comp_apply]
  split
  · rw [keeps]
  · rfl

/-- A later insertion comes after a stored row. -/
theorem before_insert {table next : Table key} {row other : ρ}
    (inserted : table.insert row = some next) (stored : other ∈ table.rows) :
    next.before (key other) = table.before (key other) := by
  unfold before
  rw [rows_insert inserted, List.takeWhile_append, if_neg]
  intro full
  have all := List.takeWhile_sublist (fun row => decide (key row ≠ key other)) |>.eq_of_length full
  have passes := List.takeWhile_eq_self_iff.mp all other stored
  exact of_decide_eq_true passes rfl

/-- Of two rows one was inserted before the other. -/
theorem before_total {first second : ρ} (first_stored : first ∈ table.rows)
    (second_stored : second ∈ table.rows) :
    first = second ∨ first ∈ table.before (key second) ∨ second ∈ table.before (key first) := by
  obtain ⟨rows, distinct⟩ := table
  unfold before
  induction rows with
  | nil => cases first_stored
  | cons head tail ih =>
      rw [List.map_cons, List.nodup_cons] at distinct
      have head_ne : ∀ row ∈ tail, key head ≠ key row := by
        intro row later same
        exact distinct.1 (same ▸ List.mem_map_of_mem later)
      obtain rfl | first_later := List.mem_cons.mp first_stored
      · obtain rfl | second_later := List.mem_cons.mp second_stored
        · exact .inl rfl
        · right
          left
          rw [List.takeWhile_cons_of_pos (by simpa using head_ne second second_later)]
          exact List.mem_cons_self
      · obtain rfl | second_later := List.mem_cons.mp second_stored
        · right
          right
          rw [List.takeWhile_cons_of_pos (by simpa using head_ne first first_later)]
          exact List.mem_cons_self
        · rw [List.takeWhile_cons_of_pos (by simpa using head_ne second second_later),
            List.takeWhile_cons_of_pos (by simpa using head_ne first first_later)]
          obtain same | earlier | later := ih distinct.2 first_later second_later
          · exact .inl same
          · exact .inr (.inl (List.mem_cons_of_mem _ earlier))
          · exact .inr (.inr (List.mem_cons_of_mem _ later))

/-- A relation along the table holds between a row and an earlier one. -/
theorem rel_of_mem_before {related : ρ → ρ → Prop} (along : table.rows.Pairwise related)
    {earlier row : ρ} (stored : row ∈ table.rows) (comes : earlier ∈ table.before (key row)) :
    related earlier row := by
  obtain ⟨rows, distinct⟩ := table
  unfold before at comes
  induction rows with
  | nil => cases stored
  | cons head tail ih =>
      rw [List.map_cons, List.nodup_cons] at distinct
      obtain ⟨head_related, tail_related⟩ := List.pairwise_cons.mp along
      obtain rfl | later := List.mem_cons.mp stored
      · rw [List.takeWhile_cons_of_neg (by simp)] at comes
        cases comes
      · have head_ne : key head ≠ key row := by
          intro same
          exact distinct.1 (same ▸ List.mem_map_of_mem later)
        rw [List.takeWhile_cons_of_pos (by simpa using head_ne)] at comes
        obtain rfl | inner := List.mem_cons.mp comes
        · exact head_related row later
        · exact ih distinct.2 tail_related later inner

/-- No row before the first that meets a condition meets it. -/
theorem not_of_mem_before_find {earlier row : ρ} (found : table.rows.find? which = some row)
    (comes : earlier ∈ table.before (key row)) :
    which earlier = false := by
  obtain ⟨rows, distinct⟩ := table
  unfold before at comes
  simp only at *
  clear distinct
  induction rows with
  | nil => cases found
  | cons head tail ih =>
      rw [List.find?_cons] at found
      cases picked : which head with
      | true =>
          rw [picked] at found
          cases found
          rw [List.takeWhile_cons_of_neg (by simp)] at comes
          cases comes
      | false =>
          rw [picked] at found
          rw [List.takeWhile_cons] at comes
          split at comes
          · obtain rfl | inner := List.mem_cons.mp comes
            · exact picked
            · exact ih found inner
          · cases comes

end Keys

end Table

end Zeron.Data
