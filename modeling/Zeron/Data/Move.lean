import Mathlib.Data.List.Nodup
import Mathlib.Data.List.Perm.Basic

/-!
# Moving the rows of a list

A movable list moves a row, found by its key, to an index.  Rows that are moved to
the front one after another end up there in the order of their keys.
-/

namespace Zeron.Data

universe u v

variable {ρ : Type u} {κ : Type v} [DecidableEq κ]

/-- The row of a key is moved to an index, or to the end if that is nearer. -/
def moveTo (key : ρ → κ) (rows : List ρ) (k : κ) (place : Nat) : List ρ :=
  match rows.findIdx? fun row => decide (key row = k) with
  | none => rows
  | some found =>
      match rows[found]? with
      | none => rows
      | some row => (rows.eraseIdx found).insertIdx (min place (rows.length - 1)) row

/-- The rows of the keys are moved to one index after another. -/
def moveAll (key : ρ → κ) : Nat → List κ → List ρ → List ρ
  | _, [], rows => rows
  | place, k :: ks, rows => moveAll key (place + 1) ks (moveTo key rows k place)

variable {key : ρ → κ} {row : ρ}

theorem insertIdx_append (front back : List ρ) (row : ρ) :
    (front ++ back).insertIdx front.length row = front ++ row :: back := by
  induction front with
  | nil => rfl
  | cons head front ih =>
      rw [List.cons_append, List.length_cons, List.insertIdx_succ_cons, ih, List.cons_append]

theorem moveTo_append {front before after : List ρ}
    (free : ∀ other ∈ front ++ before, key other ≠ key row) :
    moveTo key (front ++ before ++ row :: after) (key row) front.length =
      front ++ row :: (before ++ after) := by
  have found : (front ++ before ++ row :: after).findIdx?
      (fun other => decide (key other = key row)) = some (front ++ before).length := by
    rw [List.findIdx?_append, List.findIdx?_eq_none_iff.mpr fun other listed =>
      decide_eq_false (free other listed), List.findIdx?_cons]
    simp
  have fits : min front.length ((front ++ before ++ row :: after).length - 1) = front.length := by
    simp only [List.length_append, List.length_cons]
    omega
  have taken : (front ++ before ++ row :: after)[(front ++ before).length]? = some row := by
    simp
  unfold moveTo
  rw [found]
  simp only [taken, fits]
  rw [List.eraseIdx_append_of_length_le (Nat.le_refl _), Nat.sub_self, List.eraseIdx_cons_zero,
    List.append_assoc, insertIdx_append]

/-- Rows that are moved to the front one after another come in the order of their
keys, and the others follow as they were. -/
theorem moveAll_append {front back picked : List ρ} (distinct : ((front ++ back).map key).Nodup)
    (picked_distinct : (picked.map key).Nodup) (listed : ∀ row ∈ picked, row ∈ back) :
    moveAll key front.length (picked.map key) (front ++ back) =
      front ++ picked ++ back.filter fun row => decide (key row ∉ picked.map key) := by
  induction picked generalizing front back with
  | nil => simp [moveAll]
  | cons row picked ih =>
      obtain ⟨before, after, rfl⟩ := List.append_of_mem (listed row List.mem_cons_self)
      rw [List.map_cons, List.nodup_cons] at picked_distinct
      have middle : (front ++ (before ++ row :: after)).Perm (row :: (front ++ before ++ after)) := by
        rw [← List.append_assoc]
        exact List.perm_middle
      have nodup := List.nodup_cons.mp ((middle.map key).nodup_iff.mp distinct)
      have apart : ∀ other ∈ front ++ before ++ after, key other ≠ key row := by
        intro other other_listed same
        exact nodup.1 (same ▸ List.mem_map_of_mem other_listed)
      have moved : moveTo key (front ++ (before ++ row :: after)) (key row) front.length =
          (front ++ [row]) ++ (before ++ after) := by
        rw [← List.append_assoc, moveTo_append fun other other_listed =>
          apart other (List.mem_append_left _ other_listed)]
        simp
      have later : ∀ other ∈ picked, other ∈ before ++ after := by
        intro other other_listed
        have stored := listed other (List.mem_cons_of_mem _ other_listed)
        obtain rfl | stored := List.mem_cons.mp (List.perm_middle.mem_iff.mp stored)
        · exact absurd (List.mem_map_of_mem other_listed) picked_distinct.1
        · exact stored
      have rest_distinct : ((front ++ [row] ++ (before ++ after)).map key).Nodup := by
        have same : (front ++ [row] ++ (before ++ after)).Perm
            (front ++ (before ++ row :: after)) := by
          rw [List.append_assoc, List.singleton_append]
          exact List.perm_middle.symm.append_left front
        exact (same.map key).nodup_iff.mpr distinct
      have next := ih rest_distinct picked_distinct.2 later
      rw [List.length_append, List.length_singleton] at next
      have others : (before ++ row :: after).filter
          (fun other => decide (key other ∉ (row :: picked).map key)) =
          (before ++ after).filter fun other => decide (key other ∉ picked.map key) := by
        have dropped : decide (key row ∉ (row :: picked).map key) = false := by simp
        rw [List.filter_append, List.filter_cons_of_neg (by rw [dropped]; decide),
          ← List.filter_append]
        apply List.filter_congr
        intro other other_listed
        have own := apart other (by
          rw [List.append_assoc]
          exact List.mem_append_right _ other_listed)
        simp [own]
      rw [List.map_cons, moveAll, moved, next, ← List.map_cons, others]
      simp

/-- All rows may be moved. -/
theorem moveAll_zero {rows picked : List ρ} (distinct : (rows.map key).Nodup)
    (picked_distinct : (picked.map key).Nodup) (listed : ∀ row ∈ picked, row ∈ rows) :
    moveAll key 0 (picked.map key) rows =
      picked ++ rows.filter fun row => decide (key row ∉ picked.map key) := by
  have moved : moveAll key ([] : List ρ).length (picked.map key) ([] ++ rows) =
      [] ++ picked ++ rows.filter fun row => decide (key row ∉ picked.map key) :=
    moveAll_append distinct picked_distinct listed
  exact moved

omit [DecidableEq κ] in
/-- Keys that are there have their rows. -/
theorem exists_rows_of_keys {rows : List ρ} {ks : List κ} (listed : ∀ k ∈ ks, k ∈ rows.map key) :
    ∃ picked : List ρ, picked.map key = ks ∧ ∀ row ∈ picked, row ∈ rows := by
  induction ks with
  | nil => exact ⟨[], rfl, nofun⟩
  | cons k ks ih =>
      obtain ⟨row, stored, rfl⟩ := List.mem_map.mp (listed k List.mem_cons_self)
      obtain ⟨picked, rfl, rest⟩ := ih fun other later => listed other (List.mem_cons_of_mem _ later)
      exact ⟨row :: picked, rfl, List.forall_mem_cons.mpr ⟨stored, rest⟩⟩

/-- Moving rows loses none. -/
theorem perm_picked {rows picked : List ρ} (distinct : (rows.map key).Nodup)
    (picked_distinct : (picked.map key).Nodup) (listed : ∀ row ∈ picked, row ∈ rows) :
    (picked ++ rows.filter fun row => decide (key row ∉ picked.map key)).Perm rows := by
  have nodup := List.Nodup.of_map key distinct
  have chosen : picked.Perm (rows.filter fun row => decide (key row ∈ picked.map key)) := by
    refine (List.perm_ext_iff_of_nodup (List.Nodup.of_map key picked_distinct)
      (nodup.filter _)).mpr fun row => ?_
    rw [List.mem_filter, decide_eq_true_eq]
    constructor
    · intro member
      exact ⟨listed row member, List.mem_map_of_mem member⟩
    · rintro ⟨stored, member⟩
      obtain ⟨other, other_member, same⟩ := List.mem_map.mp member
      rw [← List.inj_on_of_nodup_map distinct (listed other other_member) stored same]
      exact other_member
  have split := List.filter_append_perm (fun row => decide (key row ∈ picked.map key)) rows
  refine (chosen.append_right _).trans ?_
  simp only [decide_not]
  exact split

end Zeron.Data
