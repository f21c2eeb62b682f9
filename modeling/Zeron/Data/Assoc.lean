import Mathlib.Algebra.GroupWithZero.Nat
import Mathlib.Data.List.Basic

/-!
# Lists of keyed values

A list of pairs with each key at most once: a key that is written moves to the front.
-/

namespace Zeron.Data.Assoc

universe u v

variable {κ : Type u} {α : Type v} [DecidableEq κ]

/-- The entries without a key. -/
def drop (entries : List (κ × α)) (key : κ) : List (κ × α) :=
  entries.filter fun entry => decide (entry.1 ≠ key)

/-- The entries with a value for a key. -/
def put (entries : List (κ × α)) (key : κ) (value : α) : List (κ × α) :=
  (key, value) :: drop entries key

variable {entries : List (κ × α)} {key other : κ}

@[simp]
theorem lookup_drop_self : (drop entries key).lookup key = none := by
  rw [List.lookup_eq_none_iff]
  intro entry listed
  have apart := of_decide_eq_true (List.mem_filter.mp listed).2
  exact bne_iff_ne.mpr (Ne.symm apart)

theorem lookup_drop_of_ne (apart : other ≠ key) :
    (drop entries key).lookup other = entries.lookup other := by
  induction entries with
  | nil => rfl
  | cons entry entries ih =>
      rcases entry with ⟨first, value⟩
      unfold drop at ih ⊢
      rw [List.filter_cons, List.lookup_cons]
      split
      · rw [List.lookup_cons, ih]
      · rename_i dropped
        have same : first = key := by simpa using dropped
        rw [ih, beq_false_of_ne (same ▸ apart)]

@[simp]
theorem lookup_put_self (value : α) : (put entries key value).lookup key = some value := by
  rw [put, List.lookup_cons_self]

theorem lookup_put_of_ne (apart : other ≠ key) (value : α) :
    (put entries key value).lookup other = entries.lookup other := by
  rw [put, List.lookup_cons, beq_false_of_ne apart]
  exact lookup_drop_of_ne apart

theorem mem_keys_iff : key ∈ entries.map Prod.fst ↔ (entries.lookup key).isSome = true := by
  induction entries with
  | nil => simp
  | cons entry entries ih =>
      rcases entry with ⟨first, value⟩
      cases same : key == first with
      | true => simp [beq_iff_eq.mp same]
      | false => simp [ne_of_beq_false same]

theorem mem_of_lookup {value : α} (found : entries.lookup key = some value) :
    (key, value) ∈ entries := by
  rcases List.lookup_eq_some_iff.mp found with ⟨before, after, rfl, -⟩
  exact List.mem_append_right _ List.mem_cons_self

/-- With each key once, an entry is what its key leads to. -/
theorem lookup_eq_some_iff_mem (distinct : (entries.map Prod.fst).Nodup) {value : α} :
    entries.lookup key = some value ↔ (key, value) ∈ entries := by
  constructor
  · exact mem_of_lookup
  · intro listed
    rcases List.append_of_mem listed with ⟨before, after, rfl⟩
    refine List.lookup_eq_some_iff.mpr ⟨before, after, rfl, fun entry early => ?_⟩
    rw [List.map_append, List.nodup_append] at distinct
    have apart := distinct.2.2 entry.1 (List.mem_map_of_mem early) key List.mem_cons_self
    exact bne_iff_ne.mpr apart.symm

theorem lookup_filter_key (which : κ → Bool) :
    (entries.filter fun entry => which entry.1).lookup key =
      if which key then entries.lookup key else none := by
  induction entries with
  | nil => simp
  | cons entry entries ih =>
      rcases entry with ⟨first, value⟩
      rw [List.filter_cons]
      by_cases same : key = first
      · subst same
        cases kept : which key <;> simp [kept, ih]
      · cases which first <;> simp [ih, List.lookup_cons, beq_false_of_ne same]

theorem nodup_put (distinct : (entries.map Prod.fst).Nodup) (value : α) :
    ((put entries key value).map Prod.fst).Nodup := by
  rw [put, List.map_cons, List.nodup_cons]
  constructor
  · intro listed
    have found := mem_keys_iff.mp listed
    rw [lookup_drop_self] at found
    cases found
  · exact distinct.sublist (List.filter_sublist.map Prod.fst)

/-- Values are changed before or after a write. -/
theorem map_put {β : Type v} (change : α → β) (value : α) :
    (put entries key value).map (fun entry => (entry.1, change entry.2)) =
      put (entries.map fun entry => (entry.1, change entry.2)) key (change value) := by
  simp [put, drop, List.filter_map, Function.comp_def]

theorem lookup_map {β : Type v} (change : α → β) :
    (entries.map fun entry => (entry.1, change entry.2)).lookup key =
      (entries.lookup key).map change := by
  induction entries with
  | nil => rfl
  | cons entry entries ih =>
      rw [List.map_cons, List.lookup_cons, List.lookup_cons]
      cases key == entry.1 with
      | true => rfl
      | false => exact ih

theorem drop_of_lookup_eq_none (missing : entries.lookup key = none) :
    drop entries key = entries := by
  rw [drop, List.filter_eq_self]
  intro entry listed
  have apart := List.lookup_eq_none_iff.mp missing entry listed
  exact decide_eq_true (Ne.symm (bne_iff_ne.mp apart))

/-- What an entry weighs is missing without it. -/
theorem sum_drop (distinct : (entries.map Prod.fst).Nodup) (weight : α → Nat) :
    ((drop entries key).map fun entry => weight entry.2).sum +
        ((entries.lookup key).map weight).getD 0 =
      (entries.map fun entry => weight entry.2).sum := by
  induction entries with
  | nil => rfl
  | cons entry entries ih =>
      rcases entry with ⟨first, value⟩
      rw [List.map_cons, List.nodup_cons] at distinct
      rw [List.lookup_cons]
      by_cases same : key = first
      · subst same
        have missing : entries.lookup key = none := by
          rw [← Option.not_isSome_iff_eq_none, ← mem_keys_iff]
          exact distinct.1
        have dropped : drop ((key, value) :: entries) key = entries := by
          rw [← drop_of_lookup_eq_none missing]
          simp [drop]
        rw [dropped]
        simp [Nat.add_comm]
      · have kept : drop ((first, value) :: entries) key = (first, value) :: drop entries key :=
          List.filter_cons_of_pos (decide_eq_true (Ne.symm same))
        have rest := ih distinct.2
        rw [kept, beq_false_of_ne same]
        simp only [List.map_cons, List.sum_cons]
        omega

end Zeron.Data.Assoc
