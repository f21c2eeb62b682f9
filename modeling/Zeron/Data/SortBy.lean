import Mathlib.Data.List.Sort
import Mathlib.Data.Prod.Lex
import Mathlib.Data.String.Basic

/-!
# Lists sorted by a key

The sort is stable: rows with one key stay in the order in which they came.
-/

namespace Zeron.Data

universe u v

variable {α : Type u} {κ : Type v} [LinearOrder κ]

/-- `sort_by_key`. -/
def sortBy (key : α → κ) (rows : List α) : List α :=
  rows.insertionSort fun first second => key first ≤ key second

variable {key : α → κ} {rows : List α}

theorem perm_sortBy (key : α → κ) (rows : List α) : (sortBy key rows).Perm rows :=
  List.perm_insertionSort _ rows

@[simp]
theorem mem_sortBy {row : α} : row ∈ sortBy key rows ↔ row ∈ rows :=
  (perm_sortBy key rows).mem_iff

theorem pairwise_sortBy (key : α → κ) (rows : List α) :
    (sortBy key rows).Pairwise fun first second => key first ≤ key second := by
  have total : Std.Total fun first second => key first ≤ key second :=
    ⟨fun first second => le_total (key first) (key second)⟩
  have trans : IsTrans α fun first second => key first ≤ key second :=
    ⟨fun _ _ _ => le_trans⟩
  exact List.pairwise_insertionSort _ rows

/-- Keys that differ along the rows are sorted strictly. -/
theorem pairwise_lt_sortBy (distinct : (rows.map key).Nodup) :
    (sortBy key rows).Pairwise fun first second => key first < key second := by
  have apart : (sortBy key rows).Pairwise fun first second => key first ≠ key second := by
    have nodup : ((sortBy key rows).map key).Nodup :=
      ((perm_sortBy key rows).map key).nodup_iff.mpr distinct
    rwa [List.Nodup, List.pairwise_map] at nodup
  exact ((pairwise_sortBy key rows).and apart).imp fun both => lt_of_le_of_ne both.1 both.2

/-- Rows in ascending order are the sorted ones. -/
theorem sortBy_eq_of_perm {sorted : List α} (same : sorted.Perm rows)
    (ascending : sorted.Pairwise fun first second => key first < key second) :
    sortBy key rows = sorted := by
  have distinct : (rows.map key).Nodup := by
    rw [← (same.map key).nodup_iff, List.Nodup, List.pairwise_map]
    exact ascending.imp ne_of_lt
  apply List.Perm.eq_of_pairwise _ (pairwise_lt_sortBy distinct) ascending
    ((perm_sortBy key rows).trans same.symm)
  intro first second _ _ before after
  exact absurd before after.asymm

/-- The sorted rows that meet a condition are those in ascending order. -/
theorem filter_sortBy_eq_of_perm {sorted : List α} {which : α → Bool}
    (same : sorted.Perm (rows.filter which))
    (ascending : sorted.Pairwise fun first second => key first < key second) :
    (sortBy key rows).filter which = sorted := by
  have perm : ((sortBy key rows).filter which).Perm sorted :=
    ((perm_sortBy key rows).filter which).trans same.symm
  have apart : ((sortBy key rows).filter which).Pairwise fun first second => key first ≠ key second :=
    (perm.pairwise_iff fun other => Ne.symm other).mpr (ascending.imp ne_of_lt)
  have strict : ((sortBy key rows).filter which).Pairwise fun first second =>
      key first < key second :=
    (((pairwise_sortBy key rows).filter which).and apart).imp fun both =>
      lt_of_le_of_ne both.1 both.2
  apply List.Perm.eq_of_pairwise _ strict ascending perm
  intro first second _ _ before after
  exact absurd before after.asymm

/-- Along a list in strict order, a condition is first met by the row that meets it
while no earlier one does. -/
theorem find?_eq_some_iff_of_pairwise {before : α → α → Prop} [Std.Asymm before]
    (ordered : rows.Pairwise before) {which : α → Bool} {row : α} (listed : row ∈ rows) :
    rows.find? which = some row ↔
      which row = true ∧ ∀ other ∈ rows, before other row → which other = false := by
  rw [List.find?_eq_some_iff_append]
  constructor
  · rintro ⟨picked, first, last, rfl, rejected⟩
    refine ⟨picked, fun other stored comes => ?_⟩
    obtain early | late := List.mem_append.mp stored
    · simpa using rejected other early
    · have ordered_last := (List.pairwise_append.mp ordered).2.1
      obtain rfl | late := List.mem_cons.mp late
      · exact absurd comes (asymm_of before comes)
      · exact absurd comes (asymm_of before (List.rel_of_pairwise_cons ordered_last late))
  · rintro ⟨picked, rejected⟩
    obtain ⟨first, last, rfl⟩ := List.append_of_mem listed
    refine ⟨picked, first, last, rfl, fun other early => ?_⟩
    have comes : before other row :=
      (List.pairwise_append.mp ordered).2.2 other early row List.mem_cons_self
    rw [rejected other (List.mem_append_left _ early) comes]
    rfl

end Zeron.Data
