import Mathlib.Data.List.Induction
import Mathlib.Data.List.Nodup

/-!
# Reordering a list by moves

A list is brought into the order of another one by moving some of its entries,
each to the place right after the entry that precedes it in the other list.
The entries that are not moved keep their order, so the result is the other
list exactly when they stood in its order from the start.
-/

namespace Zeron.Data.Splice

universe u

variable {κ : Type u} [DecidableEq κ]

/-- Put an item right after an anchor, if the anchor is there. -/
def insertAfter (anchor item : κ) : List κ → Option (List κ)
  | [] => none
  | first :: rest =>
      if first = anchor then some (first :: item :: rest)
      else (insertAfter anchor item rest).map (first :: ·)

/-- Put an item after an optional anchor; without one, in front. -/
def place (list : List κ) (after : Option κ) (item : κ) : Option (List κ) :=
  match after with
  | none => some (item :: list)
  | some anchor => insertAfter anchor item list

/-- Take an item out and put it after its anchor. -/
def move (list : List κ) (step : Option κ × κ) : Option (List κ) :=
  place (list.erase step.2) step.1 step.2

/-- The entries of a list, each with the one before it. -/
def chain (before : Option κ) : List κ → List (Option κ × κ)
  | [] => []
  | item :: rest => (before, item) :: chain (some item) rest

/-- Entries that are not waiting for their move. -/
def settled (moved : κ → Bool) (waiting : List κ) (list : List κ) : List κ :=
  list.filter fun item => !(moved item && decide (item ∈ waiting))

theorem insertAfter_append {anchor item : κ} {front rest : List κ} (fresh : anchor ∉ front) :
    insertAfter anchor item (front ++ anchor :: rest) =
      some (front ++ anchor :: item :: rest) := by
  induction front with
  | nil => rw [List.nil_append, insertAfter, if_pos rfl, List.nil_append]
  | cons first front ih =>
      rw [List.mem_cons, not_or] at fresh
      rw [List.cons_append, insertAfter, if_neg (Ne.symm fresh.1), ih fresh.2, Option.map_some,
        List.cons_append]

variable {after : Option κ} {list : List κ}

/-- An item is placed after an anchor that is there. -/
theorem place_eq_some (item : κ) (anchored : ∀ anchor, after = some anchor → anchor ∈ list) :
    ∃ front rest, list = front ++ rest ∧ place list after item = some (front ++ item :: rest) ∧
      after = front.getLast? := by
  cases after with
  | none => exact ⟨[], list, rfl, rfl, rfl⟩
  | some anchor =>
      obtain ⟨front, rest, rfl, fresh⟩ := List.eq_append_cons_of_mem (anchored anchor rfl)
      refine ⟨front ++ [anchor], rest, ?_, ?_, ?_⟩
      · rw [List.append_assoc, List.singleton_append]
      · rw [place, insertAfter_append fresh, List.append_assoc, List.singleton_append]
      · rw [List.getLast?_concat]

theorem perm_insertAfter {anchor item : κ} {next : List κ}
    (inserted : insertAfter anchor item list = some next) : next.Perm (item :: list) := by
  induction list generalizing next with
  | nil => cases inserted
  | cons first rest ih =>
      rw [insertAfter] at inserted
      split at inserted
      · cases inserted
        exact List.Perm.swap item first rest
      · obtain ⟨tail, placed, rfl⟩ := Option.map_eq_some_iff.mp inserted
        exact ((ih placed).cons first).trans (List.Perm.swap item first rest)

/-- A move keeps entries distinct. -/
theorem nodup_move {next : List κ} {step : Option κ × κ} (distinct : list.Nodup)
    (moved : move list step = some next) : next.Nodup := by
  have placed : next.Perm (step.2 :: list.erase step.2) := by
    unfold move place at moved
    split at moved
    · cases moved
      exact List.Perm.refl _
    · exact perm_insertAfter moved
  rw [placed.nodup_iff, List.nodup_cons]
  exact ⟨distinct.not_mem_erase, distinct.erase _⟩

theorem insertAfter_filter (keep : κ → Bool) {anchor item : κ} (anchor_kept : keep anchor = true)
    (item_kept : keep item = true) (list : List κ) :
    insertAfter anchor item (list.filter keep) =
      (insertAfter anchor item list).map (List.filter keep) := by
  induction list with
  | nil => rfl
  | cons first rest ih =>
      by_cases anchored : first = anchor
      · subst anchored
        rw [List.filter_cons_of_pos anchor_kept, insertAfter, insertAfter, if_pos rfl, if_pos rfl,
          Option.map_some, List.filter_cons_of_pos anchor_kept, List.filter_cons_of_pos item_kept]
      · rw [insertAfter, if_neg anchored]
        by_cases first_kept : keep first = true
        · rw [List.filter_cons_of_pos first_kept, insertAfter, if_neg anchored, ih, Option.map_map,
            Option.map_map]
          congr 1
          funext tail
          rw [Function.comp_apply, Function.comp_apply, List.filter_cons_of_pos first_kept]
        · rw [List.filter_cons_of_neg first_kept, ih, Option.map_map]
          congr 1
          funext tail
          rw [Function.comp_apply, List.filter_cons_of_neg first_kept]

variable {item : κ}

/-- Placing an item commutes with dropping entries other than it and its anchor. -/
theorem place_filter (keep : κ → Bool)
    (after_kept : ∀ anchor, after = some anchor → keep anchor = true)
    (item_kept : keep item = true) (list : List κ) :
    place (list.filter keep) after item = (place list after item).map (List.filter keep) := by
  cases after with
  | none =>
      rw [place, place, Option.map_some, List.filter_cons_of_pos item_kept]
  | some anchor => exact insertAfter_filter keep (after_kept anchor rfl) item_kept list

/-- Two lists without an item agree when they agree after it is placed. -/
theorem place_inj {first second : List κ} (first_fresh : item ∉ first)
    (second_fresh : item ∉ second)
    (first_anchored : ∀ anchor, after = some anchor → anchor ∈ first)
    (second_anchored : ∀ anchor, after = some anchor → anchor ∈ second) :
    place first after item = place second after item ↔ first = second := by
  constructor
  · intro same
    obtain ⟨front, rest, rfl, placed, _⟩ := place_eq_some item first_anchored
    obtain ⟨other_front, other_rest, rfl, other_placed, _⟩ := place_eq_some item second_anchored
    rw [placed, other_placed] at same
    rw [List.mem_append, not_or] at first_fresh second_fresh
    have erased := congrArg (fun list => list.erase item) (Option.some.inj same)
    simp only [List.erase_append_right _ first_fresh.1,
      List.erase_append_right _ second_fresh.1, List.erase_cons_head] at erased
    exact erased
  · rintro rfl
    rfl

theorem settled_nil (moved : κ → Bool) (list : List κ) : settled moved [] list = list := by
  unfold settled
  rw [List.filter_eq_self]
  intro item _
  simp

variable {moved : κ → Bool}

/-- An entry that is not moved waits for nothing. -/
theorem settled_cons_of_neg (unmoved : moved item = false) (waiting list : List κ) :
    settled moved (item :: waiting) list = settled moved waiting list := by
  apply List.filter_congr
  intro other _
  by_cases same : other = item
  · subst same
    rw [unmoved, Bool.false_and, Bool.false_and]
  · simp [same]

/-- While an entry waits for its move it is not among the settled ones. -/
theorem settled_cons_of_pos (is_moved : moved item = true) {waiting : List κ}
    (distinct : list.Nodup) :
    settled moved (item :: waiting) list = settled moved waiting (list.erase item) := by
  unfold settled
  rw [distinct.erase_eq_filter, List.filter_filter]
  apply List.filter_congr
  intro other _
  by_cases same : other = item
  · subst same
    simp [is_moved]
  · simp [same]

/-- An entry that waits for its move is not settled. -/
theorem not_mem_settled (is_moved : moved item = true) {waiting : List κ} (distinct : list.Nodup) :
    item ∉ settled moved (item :: waiting) list := by
  intro listed
  rw [settled_cons_of_pos is_moved distinct] at listed
  exact distinct.not_mem_erase (List.mem_of_mem_filter listed)

/-- When an entry is placed, it is placed among the settled ones. -/
theorem place_settled (is_moved : moved item = true) {waiting next : List κ}
    (distinct : list.Nodup) (item_last : item ∉ waiting)
    (after_last : ∀ anchor, after = some anchor → anchor ∉ waiting)
    (placed : place (list.erase item) after item = some next) :
    place (settled moved (item :: waiting) list) after item = some (settled moved waiting next) := by
  rw [settled_cons_of_pos is_moved distinct, settled, place_filter, placed]
  · rfl
  · intro anchor last
    simp [after_last anchor last]
  · simp [item_last]

/-- Taking an entry out and placing it after the one before it changes nothing. -/
theorem place_erase_self {front rest : List κ} (distinct : (front ++ item :: rest).Nodup) :
    place ((front ++ item :: rest).erase item) front.getLast? item =
      some (front ++ item :: rest) := by
  obtain ⟨front_distinct, _, apart⟩ := List.nodup_append.mp distinct
  have fresh : item ∉ front := fun listed => apart item listed item List.mem_cons_self rfl
  rw [List.erase_append_right _ fresh, List.erase_cons_head]
  cases front using List.reverseRecOn with
  | nil => rfl
  | append_singleton earlier anchor _ =>
      have anchor_fresh : anchor ∉ earlier := by
        intro listed
        exact (List.nodup_append.mp front_distinct).2.2 anchor listed anchor
          (List.mem_singleton_self _) rfl
      rw [List.getLast?_concat, place, List.append_assoc, List.singleton_append,
        insertAfter_append anchor_fresh, List.append_assoc, List.singleton_append]

/-- The moves of a list's last part. -/
theorem move_chain {target done todo : List κ} (moved : κ → Bool)
    (split_at : target = done ++ todo) (distinct : target.Nodup) (list_distinct : list.Nodup)
    (inside : ∀ item ∈ list, item ∈ target) (present : ∀ item ∈ done, item ∈ list)
    (unmoved : ∀ item ∈ target, moved item = false → item ∈ list) :
    ∃ result,
      ((chain done.getLast? todo).filter fun step => moved step.2).foldlM move list =
        some result ∧
      result.Nodup ∧ (∀ item, item ∈ result ↔ item ∈ target) ∧
      (result = target ↔ settled moved todo list = settled moved todo target) := by
  induction todo generalizing done list with
  | nil =>
      refine ⟨list, rfl, list_distinct, ?_, ?_⟩
      · intro item
        refine ⟨inside item, fun listed => present item ?_⟩
        rw [split_at, List.append_nil] at listed
        exact listed
      · rw [settled_nil, settled_nil]
  | cons item todo ih =>
      have next_split : target = (done ++ [item]) ++ todo := by
        rw [split_at, List.append_assoc, List.singleton_append]
      have in_target : item ∈ target := by
        rw [split_at]
        exact List.mem_append_right _ List.mem_cons_self
      rw [chain, List.filter_cons]
      cases is_moved : moved item with
      | false =>
          have next_present : ∀ other ∈ done ++ [item], other ∈ list := by
            intro other listed
            obtain earlier | now := List.mem_append.mp listed
            · exact present other earlier
            · rw [List.mem_singleton.mp now]
              exact unmoved item in_target is_moved
          obtain ⟨result, ran, result_distinct, members, exact_order⟩ :=
            ih next_split list_distinct inside next_present unmoved
          rw [List.getLast?_concat] at ran
          rw [settled_cons_of_neg is_moved, settled_cons_of_neg is_moved]
          exact ⟨result, ran, result_distinct, members, exact_order⟩
      | true =>
          obtain ⟨done_distinct, later_distinct, apart⟩ :=
            List.nodup_append.mp (split_at ▸ distinct)
          have item_fresh : item ∉ done :=
            fun listed => apart item listed item List.mem_cons_self rfl
          have item_last : item ∉ todo := (List.nodup_cons.mp later_distinct).1
          have after_last : ∀ anchor, done.getLast? = some anchor → anchor ∉ todo := by
            intro anchor last listed
            exact apart anchor (List.mem_of_getLast? last) anchor
              (List.mem_cons_of_mem _ listed) rfl
          -- The anchor was placed or left alone before, so it is there.
          have anchored : ∀ anchor, done.getLast? = some anchor → anchor ∈ list.erase item := by
            intro anchor last
            have listed : anchor ∈ done := List.mem_of_getLast? last
            refine (List.mem_erase_of_ne ?_).mpr (present anchor listed)
            rintro rfl
            exact item_fresh listed
          obtain ⟨front, rest, erased, placed, _⟩ := place_eq_some item anchored
          have next_mem : ∀ other, other ∈ front ++ item :: rest ↔
              other = item ∨ other ∈ list.erase item := by
            intro other
            rw [erased, List.mem_append, List.mem_append, List.mem_cons]
            tauto
          have next_distinct : (front ++ item :: rest).Nodup := by
            have erased_distinct := list_distinct.erase item
            have absent : item ∉ list.erase item := list_distinct.not_mem_erase
            rw [erased] at erased_distinct absent
            exact List.nodup_middle.mpr (List.nodup_cons.mpr ⟨absent, erased_distinct⟩)
          have next_inside : ∀ other ∈ front ++ item :: rest, other ∈ target := by
            intro other listed
            obtain rfl | remained := (next_mem other).mp listed
            · exact in_target
            · exact inside other (List.mem_of_mem_erase remained)
          have next_kept : ∀ other ∈ list, other ∈ front ++ item :: rest := by
            intro other listed
            rw [next_mem]
            by_cases same : other = item
            · exact .inl same
            · exact .inr ((List.mem_erase_of_ne same).mpr listed)
          have next_present : ∀ other ∈ done ++ [item], other ∈ front ++ item :: rest := by
            intro other listed
            obtain earlier | now := List.mem_append.mp listed
            · exact next_kept other (present other earlier)
            · rw [List.mem_singleton.mp now, next_mem]
              exact .inl rfl
          obtain ⟨result, ran, result_distinct, members, exact_order⟩ :=
            ih next_split next_distinct next_inside next_present
              fun other listed is_unmoved => next_kept other (unmoved other listed is_unmoved)
          rw [List.getLast?_concat] at ran
          refine ⟨result, ?_, result_distinct, members, ?_⟩
          · simp only [if_true, List.foldlM_cons, move, placed]
            exact ran
          · -- Both sides are the entries settled before, with the item placed among them.
            have target_placed : place (target.erase item) done.getLast? item = some target := by
              rw [split_at]
              exact place_erase_self (split_at ▸ distinct)
            have list_side := place_settled is_moved list_distinct item_last after_last placed
            have target_side := place_settled is_moved distinct item_last after_last target_placed
            rw [exact_order, ← Option.some.injEq, ← list_side, ← target_side]
            apply place_inj (not_mem_settled is_moved list_distinct)
              (not_mem_settled is_moved distinct)
            · intro anchor last
              rw [settled_cons_of_pos is_moved list_distinct]
              refine List.mem_filter.mpr ⟨anchored anchor last, ?_⟩
              simp [after_last anchor last]
            · intro anchor last
              rw [settled_cons_of_pos is_moved distinct]
              refine List.mem_filter.mpr ⟨(List.mem_erase_of_ne ?_).mpr ?_, ?_⟩
              · rintro rfl
                exact item_fresh (List.mem_of_getLast? last)
              · rw [split_at]
                exact List.mem_append_left _ (List.mem_of_getLast? last)
              · simp [after_last anchor last]

/-- Moving entries behind their predecessors gives the other list exactly when
the entries that are not moved stand in its order. -/
theorem moves_eq_iff {target : List κ} (moved : κ → Bool) (distinct : target.Nodup)
    (list_distinct : list.Nodup) (inside : ∀ item ∈ list, item ∈ target)
    (unmoved : ∀ item ∈ target, moved item = false → item ∈ list) :
    ∃ result,
      ((chain none target).filter fun step => moved step.2).foldlM move list = some result ∧
      result.Nodup ∧ (∀ item, item ∈ result ↔ item ∈ target) ∧
      (result = target ↔
        (list.filter fun item => !moved item) = target.filter fun item => !moved item) := by
  have whole : target = [] ++ target := rfl
  obtain ⟨result, ran, result_distinct, members, exact_order⟩ :=
    move_chain moved whole distinct list_distinct inside
      (nofun) unmoved
  have all_wait : ∀ {other : List κ}, (∀ item ∈ other, item ∈ target) →
      settled moved target other = other.filter fun item => !moved item := by
    intro other within
    apply List.filter_congr
    intro item listed
    simp [within item listed]
  rw [all_wait inside, all_wait fun _ listed => listed] at exact_order
  exact ⟨result, ran, result_distinct, members, exact_order⟩

end Zeron.Data.Splice
