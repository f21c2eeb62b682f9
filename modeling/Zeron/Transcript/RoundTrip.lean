import Zeron.Transcript.Exact

/-!
# The round trip of a frame

Upserts move entries and give them their new content, appends give the kept
ones theirs.  No step of a frame fails on the transcript it was made for, and
the length always comes out right, so a wrong order goes unnoticed.
-/

namespace Zeron.Transcript

open Data

variable {content : Type} {entries : List (SessionMessageEntry content)}
variable {entry : SessionMessageEntry content}

section Upserts

theorem insertEntry_ids (anchor : String) (entry : SessionMessageEntry content)
    (entries : List (SessionMessageEntry content)) :
    (insertEntry anchor entry entries).map (List.map SessionMessageEntry.id) =
      Splice.insertAfter anchor entry.id (entries.map SessionMessageEntry.id) := by
  induction entries with
  | nil => rfl
  | cons first rest ih =>
      rw [insertEntry, List.map_cons, Splice.insertAfter]
      split
      · rfl
      · rw [← ih, Option.map_map, Option.map_map]
        rfl

theorem perm_insertEntry {anchor : String} {placed : List (SessionMessageEntry content)}
    (inserted : insertEntry anchor entry entries = some placed) :
    placed.Perm (entry :: entries) := by
  induction entries generalizing placed with
  | nil => cases inserted
  | cons first rest ih =>
      rw [insertEntry] at inserted
      split at inserted
      · cases inserted
        exact List.Perm.swap entry first rest
      · obtain ⟨tail, placed_tail, rfl⟩ := Option.map_eq_some_iff.mp inserted
        exact ((ih placed_tail).cons first).trans (List.Perm.swap entry first rest)

/-- The entries without the first one of an id. -/
def without (entries : List (SessionMessageEntry content)) (id : String) :
    List (SessionMessageEntry content) :=
  entries.eraseP fun entry => entry.id = id

theorem without_ids (entries : List (SessionMessageEntry content)) (id : String) :
    (without entries id).map SessionMessageEntry.id =
      (entries.map SessionMessageEntry.id).erase id := by
  unfold without
  rw [List.erase_eq_eraseP, List.eraseP_map]
  congr 2
  funext entry
  exact decide_eq_decide.mpr eq_comm

/-- An upsert moves the id and brings the entry. -/
theorem applyUpsert_of_move {current : List (SessionMessageEntry content)}
    (distinct : (current.map SessionMessageEntry.id).Nodup) {upsert : TranscriptUpsert content}
    {ids : List String}
    (moved : Splice.move (current.map SessionMessageEntry.id) (upsert.after, upsert.entry.id) =
      some ids) :
    ∃ placed, applyUpsert current upsert = .ok placed ∧
      placed.map SessionMessageEntry.id = ids ∧
      ∀ entry ∈ placed, entry = upsert.entry ∨ entry ∈ current ∧ entry.id ≠ upsert.entry.id := by
  have removed_members : ∀ entry ∈ without current upsert.entry.id,
      entry ∈ current ∧ entry.id ≠ upsert.entry.id := by
    intro entry listed
    refine ⟨List.mem_of_mem_eraseP listed, ?_⟩
    intro same
    have listed_id : entry.id ∈ (without current upsert.entry.id).map SessionMessageEntry.id :=
      List.mem_map_of_mem listed
    rw [without_ids, same] at listed_id
    exact distinct.not_mem_erase listed_id
  have of_perm : ∀ {placed : List (SessionMessageEntry content)},
      placed.Perm (upsert.entry :: without current upsert.entry.id) →
      ∀ entry ∈ placed, entry = upsert.entry ∨ entry ∈ current ∧ entry.id ≠ upsert.entry.id := by
    intro placed permuted entry listed
    obtain same | remained := List.mem_cons.mp (permuted.mem_iff.mp listed)
    · exact .inl same
    · exact .inr (removed_members entry remained)
  unfold Splice.move Splice.place at moved
  rw [← without_ids] at moved
  cases after : upsert.after with
  | none =>
      rw [after] at moved
      cases moved
      refine ⟨upsert.entry :: without current upsert.entry.id, ?_, rfl,
        of_perm (List.Perm.refl _)⟩
      simp only [applyUpsert, after]
      rfl
  | some anchor =>
      rw [after] at moved
      simp only at moved
      rw [← insertEntry_ids] at moved
      obtain ⟨placed, inserted, rfl⟩ := Option.map_eq_some_iff.mp moved
      refine ⟨placed, ?_, rfl, of_perm (perm_insertEntry inserted)⟩
      unfold without at inserted
      simp only [applyUpsert, after, inserted]

/-- A run of upserts moves the ids and brings the entries. -/
theorem foldlM_applyUpsert {upserts : List (TranscriptUpsert content)}
    {current : List (SessionMessageEntry content)} {ids : List String}
    (distinct : (current.map SessionMessageEntry.id).Nodup)
    (moved : (upserts.map fun upsert => (upsert.after, upsert.entry.id)).foldlM Splice.move
      (current.map SessionMessageEntry.id) = some ids) :
    ∃ placed, upserts.foldlM applyUpsert current = .ok placed ∧
      placed.map SessionMessageEntry.id = ids ∧
      ∀ entry ∈ placed, (∃ upsert ∈ upserts, entry = upsert.entry) ∨
        entry ∈ current ∧ ∀ upsert ∈ upserts, entry.id ≠ upsert.entry.id := by
  induction upserts generalizing current with
  | nil =>
      cases moved
      exact ⟨current, rfl, rfl, fun entry listed => .inr ⟨listed, fun _ none_listed =>
        absurd none_listed List.not_mem_nil⟩⟩
  | cons upsert upserts ih =>
      obtain ⟨next, first_moved, later_moved⟩ := Option.bind_eq_some_iff.mp moved
      obtain ⟨placed, applied, rfl, members⟩ := applyUpsert_of_move distinct first_moved
      obtain ⟨result, ran, result_ids, result_members⟩ :=
        ih (Splice.nodup_move distinct first_moved) later_moved
      refine ⟨result, ?_, result_ids, ?_⟩
      · rw [List.foldlM_cons, applied]
        exact ran
      · intro entry listed
        obtain ⟨later, later_listed, same⟩ | ⟨kept, others⟩ := result_members entry listed
        · exact .inl ⟨later, List.mem_cons_of_mem _ later_listed, same⟩
        · obtain same | ⟨before, differs⟩ := members entry kept
          · exact .inl ⟨upsert, List.mem_cons_self, same⟩
          · refine .inr ⟨before, ?_⟩
            intro other other_listed
            obtain rfl | later := List.mem_cons.mp other_listed
            · exact differs
            · exact others other later

end Upserts

section Appends

variable [DecidableEq content]

/-- An append changes its entry into the new one and no other. -/
theorem applyAppend_of_mem (distinct : (entries.map SessionMessageEntry.id).Nodup)
    {prev next : SessionMessageEntry content} {append : TextAppend} (stored : prev ∈ entries)
    (parts : (next.parts.map MessagePart.id).Nodup)
    (found : tryTextAppend prev next = some append) :
    ∃ result, applyAppend append entries = .ok result ∧
      result.map SessionMessageEntry.id = entries.map SessionMessageEntry.id ∧
      ∀ entry ∈ result, entry = next ∨ entry ∈ entries ∧ entry.id ≠ append.entry := by
  obtain ⟨same_id, named, applied⟩ := appendToEntry_tryTextAppend parts found
  induction entries with
  | nil => cases stored
  | cons first rest ih =>
      rw [List.map_cons, List.nodup_cons] at distinct
      rw [applyAppend]
      by_cases here : first.id = append.entry
      · have first_eq : first = prev := by
          obtain same | later := List.mem_cons.mp stored
          · exact same.symm
          · refine absurd ?_ distinct.1
            rw [here, named, ← same_id]
            exact List.mem_map_of_mem later
        subst first_eq
        rw [if_pos here, applied]
        refine ⟨next :: rest, rfl, ?_, ?_⟩
        · rw [List.map_cons, List.map_cons, same_id]
        · intro entry listed
          obtain rfl | later := List.mem_cons.mp listed
          · exact .inl rfl
          · refine .inr ⟨List.mem_cons_of_mem _ later, ?_⟩
            intro same
            exact distinct.1 (here ▸ same ▸ List.mem_map_of_mem later)
      · rw [if_neg here]
        have later : prev ∈ rest := by
          obtain same | later := List.mem_cons.mp stored
          · refine absurd ?_ here
            rw [← same, same_id, named]
          · exact later
        obtain ⟨result, ran, ids, members⟩ := ih distinct.2 later
        rw [ran]
        refine ⟨first :: result, rfl, ?_, ?_⟩
        · rw [List.map_cons, List.map_cons, ids]
        · intro entry listed
          obtain rfl | tail := List.mem_cons.mp listed
          · exact .inr ⟨List.mem_cons_self, here⟩
          · obtain same | ⟨stays, differs⟩ := members entry tail
            · exact .inl same
            · exact .inr ⟨List.mem_cons_of_mem _ stays, differs⟩

/-- A run of appends changes their entries into the new ones and no others. -/
theorem foldlM_applyAppend {appends : List TextAppend}
    {target : List (SessionMessageEntry content)}
    (distinct : (entries.map SessionMessageEntry.id).Nodup)
    (apart : (appends.map TextAppend.entry).Nodup)
    (parts : ∀ entry ∈ target, (entry.parts.map MessagePart.id).Nodup)
    (found : ∀ append ∈ appends, ∃ prev ∈ entries, ∃ next ∈ target,
      tryTextAppend prev next = some append) :
    ∃ result,
      appends.foldlM (fun entries append => applyAppend append entries) entries = .ok result ∧
      result.map SessionMessageEntry.id = entries.map SessionMessageEntry.id ∧
      ∀ entry ∈ result, entry ∈ target ∨
        entry ∈ entries ∧ ∀ append ∈ appends, entry.id ≠ append.entry := by
  induction appends generalizing entries with
  | nil =>
      exact ⟨entries, rfl, rfl, fun entry listed => .inr ⟨listed, fun _ none_listed =>
        absurd none_listed List.not_mem_nil⟩⟩
  | cons append appends ih =>
      rw [List.map_cons, List.nodup_cons] at apart
      obtain ⟨prev, stored, next, wanted, extended⟩ := found append List.mem_cons_self
      obtain ⟨middle, applied, ids, members⟩ :=
        applyAppend_of_mem distinct stored (parts next wanted) extended
      have later_found : ∀ other ∈ appends, ∃ prev ∈ middle, ∃ next ∈ target,
          tryTextAppend prev next = some other := by
        intro other listed
        obtain ⟨other_prev, other_stored, other_next, other_wanted, other_extended⟩ :=
          found other (List.mem_cons_of_mem _ listed)
        obtain ⟨same_id, named, _⟩ :=
          appendToEntry_tryTextAppend (parts other_next other_wanted) other_extended
        -- The entry of another append is still there under its id.
        have id_listed : other_prev.id ∈ middle.map SessionMessageEntry.id := by
          rw [ids]
          exact List.mem_map_of_mem other_stored
        obtain ⟨entry, entry_stored, entry_id⟩ := List.mem_map.mp id_listed
        obtain rfl | ⟨before, _⟩ := members entry entry_stored
        · obtain ⟨_, first_named, _⟩ := appendToEntry_tryTextAppend (parts entry wanted) extended
          refine absurd ?_ apart.1
          rw [first_named, entry_id, same_id, ← named]
          exact List.mem_map_of_mem listed
        · have same := List.inj_on_of_nodup_map distinct before other_stored entry_id
          exact ⟨other_prev, same ▸ entry_stored, other_next, other_wanted, other_extended⟩
      obtain ⟨result, ran, result_ids, result_members⟩ :=
        ih (ids ▸ distinct) apart.2 later_found
      refine ⟨result, ?_, result_ids.trans ids, ?_⟩
      · rw [List.foldlM_cons, applied]
        exact ran
      · intro entry listed
        obtain wanted_entry | ⟨stays, others⟩ := result_members entry listed
        · exact .inl wanted_entry
        · obtain rfl | ⟨before, differs⟩ := members entry stays
          · exact .inl wanted
          · refine .inr ⟨before, ?_⟩
            intro other other_listed
            obtain rfl | later := List.mem_cons.mp other_listed
            · exact differs
            · exact others other later

end Appends

section Diff

variable [DecidableEq content]

def upsertsOf (prev : List (SessionMessageEntry content))
    (steps : List (Option String × SessionMessageEntry content)) :
    List (TranscriptUpsert content) :=
  steps.filterMap fun (after, entry) =>
    match changeOf prev after entry with
    | .upsert => some { after, entry }
    | _ => none

def appendsOf (prev : List (SessionMessageEntry content))
    (steps : List (Option String × SessionMessageEntry content)) : List TextAppend :=
  steps.filterMap fun (after, entry) =>
    match changeOf prev after entry with
    | .append text => some text
    | _ => none

def removedIds (prev next : List (SessionMessageEntry content)) : List String :=
  (prev.filter fun entry => entry.id ∉ next.map SessionMessageEntry.id).map
    SessionMessageEntry.id

theorem diffTranscript_eq (prev next : List (SessionMessageEntry content)) :
    diffTranscript prev next =
      if max next.length 1 ≤ (upsertsOf prev (withAfter none next)).length * 2 ∧
          4 < next.length then .reset next
      else .delta (upsertsOf prev (withAfter none next)) (appendsOf prev (withAfter none next))
        (removedIds prev next) next.length :=
  rfl

variable (prev : List (SessionMessageEntry content))
variable {next : List (SessionMessageEntry content)}

/-- The diff moves exactly the entries that are not kept. -/
theorem upsert_steps (distinct : (next.map SessionMessageEntry.id).Nodup)
    {steps : List (Option String × SessionMessageEntry content)}
    (inside : ∀ step ∈ steps, step ∈ withAfter none next) :
    (upsertsOf prev steps).map (fun upsert => (upsert.after, upsert.entry.id)) =
      (steps.map fun step => (step.1, step.2.id)).filter
        fun step => !keeps prev next step.2 := by
  induction steps with
  | nil => rfl
  | cons step steps ih =>
      have rest := ih fun other listed => inside other (List.mem_cons_of_mem _ listed)
      unfold upsertsOf at rest ⊢
      rw [List.map_cons, List.filter_cons, List.filterMap_cons]
      obtain ⟨moved, change⟩ | ⟨kept, change, _⟩ | ⟨kept, _, _, change, _⟩ :=
        changeOf_cases prev distinct (inside step List.mem_cons_self)
      · simp only [change, moved, Bool.not_false, if_true, List.map_cons, rest]
      · simp only [change, kept, Bool.not_true, Bool.false_eq_true, if_false, rest]
      · simp only [change, kept, Bool.not_true, Bool.false_eq_true, if_false, rest]

/-- Every entry that is not kept has its upsert. -/
theorem exists_upsert (distinct : (next.map SessionMessageEntry.id).Nodup) {id : String}
    (wanted : id ∈ next.map SessionMessageEntry.id) (moved : keeps prev next id = false) :
    ∃ upsert ∈ upsertsOf prev (withAfter none next), upsert.entry.id = id := by
  obtain ⟨step, found⟩ := exists_place wanted
  obtain ⟨step_listed, rfl⟩ := mem_of_placeOf found
  have listed : (step.1, step.2.id) ∈ (upsertsOf prev (withAfter none next)).map
      fun upsert => (upsert.after, upsert.entry.id) := by
    rw [upsert_steps prev distinct fun _ listed => listed]
    refine List.mem_filter.mpr ⟨List.mem_map_of_mem step_listed, ?_⟩
    rw [moved]
    rfl
  obtain ⟨upsert, upsert_listed, same⟩ := List.mem_map.mp listed
  exact ⟨upsert, upsert_listed, congrArg Prod.snd same⟩

variable {prev}

theorem mem_upsertsOf (distinct : (next.map SessionMessageEntry.id).Nodup)
    {upsert : TranscriptUpsert content} (listed : upsert ∈ upsertsOf prev (withAfter none next)) :
    upsert.entry ∈ next ∧ keeps prev next upsert.entry.id = false := by
  obtain ⟨step, step_listed, made⟩ := List.mem_filterMap.mp listed
  obtain ⟨moved, change⟩ | ⟨_, change, _⟩ | ⟨_, _, _, change, _⟩ :=
    changeOf_cases prev distinct step_listed
  · simp only [change] at made
    cases made
    exact ⟨mem_of_mem_withAfter step_listed, moved⟩
  · simp only [change] at made
    cases made
  · simp only [change] at made
    cases made

/-- An append is made for an entry that is kept. -/
theorem mem_appendsOf (distinct : (next.map SessionMessageEntry.id).Nodup)
    {append : TextAppend} (listed : append ∈ appendsOf prev (withAfter none next)) :
    ∃ prevEntry ∈ prev, ∃ nextEntry ∈ next, prevEntry.id = nextEntry.id ∧
      keeps prev next nextEntry.id = true ∧ tryTextAppend prevEntry nextEntry = some append := by
  obtain ⟨step, step_listed, made⟩ := List.mem_filterMap.mp listed
  obtain ⟨_, change⟩ | ⟨_, change, _⟩ | ⟨kept, prevEntry, text, change, found, extended⟩ :=
    changeOf_cases prev distinct step_listed
  · simp only [change] at made
    cases made
  · simp only [change] at made
    cases made
  · simp only [change] at made
    cases made
    obtain ⟨place_listed, same_id⟩ := mem_of_placeOf found
    exact ⟨prevEntry, mem_of_mem_withAfter place_listed, step.2,
      mem_of_mem_withAfter step_listed, same_id, kept, extended⟩

/-- No two appends are for one entry. -/
theorem appendsOf_distinct (distinct : (next.map SessionMessageEntry.id).Nodup)
    (parts : ∀ entry ∈ next, (entry.parts.map MessagePart.id).Nodup) :
    ((appendsOf prev (withAfter none next)).map TextAppend.entry).Nodup := by
  have within : ∀ steps : List (Option String × SessionMessageEntry content),
      (∀ step ∈ steps, step ∈ withAfter none next) →
      ((appendsOf prev steps).map TextAppend.entry).Sublist
        ((steps.map Prod.snd).map SessionMessageEntry.id) := by
    intro steps inside
    induction steps with
    | nil => exact List.Sublist.slnil
    | cons step steps ih =>
        have rest := ih fun other listed => inside other (List.mem_cons_of_mem _ listed)
        have here := inside step List.mem_cons_self
        unfold appendsOf at rest ⊢
        rw [List.filterMap_cons]
        obtain ⟨_, change⟩ | ⟨_, change, _⟩ | ⟨_, _, text, change, _, extended⟩ :=
          changeOf_cases prev distinct here
        · simp only [change]
          exact rest.cons _
        · simp only [change]
          exact rest.cons _
        · simp only [change, List.map_cons]
          obtain ⟨_, named, _⟩ :=
            appendToEntry_tryTextAppend (parts step.2 (mem_of_mem_withAfter here)) extended
          rw [named]
          exact rest.cons_cons _
  have listed := within (withAfter none next) fun _ listed => listed
  rw [withAfter_entries] at listed
  exact distinct.sublist listed

/-- A kept entry has its new content already, or an append brings it. -/
theorem kept_content (prev_distinct : (prev.map SessionMessageEntry.id).Nodup)
    (distinct : (next.map SessionMessageEntry.id).Nodup)
    (parts : ∀ entry ∈ next, (entry.parts.map MessagePart.id).Nodup) (stored : entry ∈ prev)
    (kept : keeps prev next entry.id = true) :
    entry ∈ next ∨ ∃ append ∈ appendsOf prev (withAfter none next), append.entry = entry.id := by
  obtain ⟨prevStep, step, prev_found, next_found⟩ := places_of_keeps kept
  obtain ⟨prev_listed, prev_id⟩ := mem_of_placeOf prev_found
  obtain ⟨step_listed, step_id⟩ := mem_of_placeOf next_found
  have prev_eq : prevStep.2 = entry :=
    List.inj_on_of_nodup_map prev_distinct (mem_of_mem_withAfter prev_listed) stored prev_id
  rw [← step_id] at kept prev_found
  obtain ⟨moved, _⟩ | ⟨_, _, found⟩ | ⟨_, prevEntry, text, change, found, extended⟩ :=
    changeOf_cases prev distinct step_listed
  · rw [kept] at moved
    cases moved
  · rw [prev_found] at found
    refine .inl ?_
    rw [← prev_eq, Option.some.inj found]
    exact mem_of_mem_withAfter step_listed
  · refine .inr ⟨text, List.mem_filterMap.mpr ⟨step, step_listed, ?_⟩, ?_⟩
    · simp only [change]
    · obtain ⟨_, named, _⟩ :=
        appendToEntry_tryTextAppend (parts step.2 (mem_of_mem_withAfter step_listed)) extended
      rw [named, step_id]

/-- The diff upserts what is not kept. -/
theorem upsertsOf_length (distinct : (next.map SessionMessageEntry.id).Nodup) :
    (upsertsOf prev (withAfter none next)).length =
      next.length - (keptIds prev next next).length := by
  have steps := congrArg List.length (upsert_steps prev distinct fun _ listed => listed)
  have moved : ((next.map SessionMessageEntry.id).filter fun id => !keeps prev next id).length =
      (upsertsOf prev (withAfter none next)).length := by
    have ids : next.map SessionMessageEntry.id =
        ((withAfter none next).map fun step => (step.1, step.2.id)).map Prod.snd := by
      conv_lhs => rw [← withAfter_entries none next, List.map_map]
      rw [List.map_map]
      rfl
    rw [List.length_map] at steps
    rw [ids, List.filter_map, List.length_map, steps]
    rfl
  have split_at : (next.map SessionMessageEntry.id).length = _ :=
    List.length_eq_length_filter_add (keeps prev next)
  rw [List.length_map] at split_at
  unfold keptIds
  omega

end Diff

/-- Entries that their ids determine are determined by the list of ids. -/
theorem eq_of_ids_eq {first second : List (SessionMessageEntry content)}
    (determined : ∀ entry ∈ first, ∀ other ∈ second, entry.id = other.id → entry = other)
    (ids : first.map SessionMessageEntry.id = second.map SessionMessageEntry.id) :
    first = second := by
  induction first generalizing second with
  | nil =>
      exact (List.map_eq_nil_iff.mp ids.symm).symm
  | cons entry rest ih =>
      cases second with
      | nil => cases ids
      | cons other others =>
          rw [List.map_cons, List.map_cons, List.cons.injEq] at ids
          have heads := determined entry List.mem_cons_self other List.mem_cons_self ids.1
          have tails : rest = others := by
            apply ih
            · intro one listed another also_listed
              exact determined one (List.mem_cons_of_mem _ listed) another
                (List.mem_cons_of_mem _ also_listed)
            · exact ids.2
          rw [heads, tails]

variable [DecidableEq content]

/-- A kept entry stands in both transcripts. -/
theorem listed_of_keeps {prev next : List (SessionMessageEntry content)} {id : String}
    (kept : keeps prev next id = true) :
    id ∈ prev.map SessionMessageEntry.id ∧ id ∈ next.map SessionMessageEntry.id := by
  obtain ⟨prevStep, nextStep, prev_found, next_found⟩ := places_of_keeps kept
  obtain ⟨prev_stored, rfl⟩ := mem_of_placeOf prev_found
  obtain ⟨next_stored, same⟩ := mem_of_placeOf next_found
  exact ⟨List.mem_map_of_mem (mem_of_mem_withAfter prev_stored),
    same ▸ List.mem_map_of_mem (mem_of_mem_withAfter next_stored)⟩

omit [DecidableEq content] in
/-- The removed ids are those that `next` does not have. -/
theorem not_mem_removedIds_iff {prev next : List (SessionMessageEntry content)}
    (stored : entry ∈ prev) :
    entry.id ∉ removedIds prev next ↔ entry.id ∈ next.map SessionMessageEntry.id := by
  rw [← not_iff_not, not_not]
  constructor
  · intro listed
    obtain ⟨other, other_listed, same⟩ := List.mem_map.mp listed
    rw [← same]
    exact of_decide_eq_true (List.mem_filter.mp other_listed).2
  · intro gone
    exact List.mem_map_of_mem (List.mem_filter.mpr ⟨stored, decide_eq_true gone⟩)

/-- Removing entries leaves the kept ones. -/
theorem keptIds_retained (prev next : List (SessionMessageEntry content)) :
    keptIds prev next (prev.filter fun entry => entry.id ∉ removedIds prev next) =
      keptIds prev next prev := by
  unfold keptIds
  rw [List.filter_map, List.filter_map, List.filter_filter]
  congr 1
  apply List.filter_congr
  intro entry stored
  rw [Function.comp_apply]
  by_cases kept : keeps prev next entry.id = true
  · have remains := (not_mem_removedIds_iff stored).mpr (listed_of_keeps kept).2
    rw [kept]
    exact decide_eq_true remains
  · rw [Bool.not_eq_true] at kept
    rw [kept, Bool.false_and]

/-- A delta never fails, and its result has the entries of `next`; the order is
right exactly when the kept entries stand in one order in both transcripts. -/
theorem apply_delta (prev next : SessionTranscript content) :
    ∃ result,
      applyTranscriptFrame prev.entries
          (.delta (upsertsOf prev.entries (withAfter none next.entries))
            (appendsOf prev.entries (withAfter none next.entries))
            (removedIds prev.entries next.entries) next.entries.length) = .ok result ∧
      result.Perm next.entries ∧
      (result = next.entries ↔ keptIds prev.entries next.entries prev.entries =
        keptIds prev.entries next.entries next.entries) := by
  obtain ⟨prev, prev_distinct, _⟩ := prev
  obtain ⟨next, distinct, parts⟩ := next
  let retained := prev.filter fun entry => entry.id ∉ removedIds prev next
  have retained_sub : retained.Sublist prev := List.filter_sublist
  have retained_distinct : (retained.map SessionMessageEntry.id).Nodup :=
    prev_distinct.sublist (retained_sub.map _)
  have inside : ∀ id ∈ retained.map SessionMessageEntry.id,
      id ∈ next.map SessionMessageEntry.id := by
    intro id listed
    obtain ⟨entry, entry_listed, rfl⟩ := List.mem_map.mp listed
    obtain ⟨stored, remains⟩ := List.mem_filter.mp entry_listed
    exact (not_mem_removedIds_iff stored).mp (of_decide_eq_true remains)
  have unmoved : ∀ id ∈ next.map SessionMessageEntry.id,
      (!keeps prev next id) = false → id ∈ retained.map SessionMessageEntry.id := by
    intro id wanted kept
    rw [Bool.not_eq_false'] at kept
    obtain ⟨entry, stored, rfl⟩ := List.mem_map.mp (listed_of_keeps kept).1
    apply List.mem_map_of_mem
    exact List.mem_filter.mpr
      ⟨stored, decide_eq_true ((not_mem_removedIds_iff stored).mpr wanted)⟩
  -- The upserts put the ids in their places.
  obtain ⟨ids, moves, ids_distinct, ids_iff, exact_order⟩ :=
    Splice.moves_eq_iff (fun id => !keeps prev next id) distinct retained_distinct inside unmoved
  rw [← chain_ids, ← upsert_steps prev distinct fun _ listed => listed] at moves
  obtain ⟨placed, upserted, rfl, placed_members⟩ := foldlM_applyUpsert retained_distinct moves
  -- A kept entry of `prev` is among the placed ones with its old content.
  have placed_of_kept : ∀ entry ∈ prev, keeps prev next entry.id = true → entry ∈ placed := by
    intro entry stored kept
    obtain ⟨other, other_placed, same⟩ :=
      List.mem_map.mp ((ids_iff entry.id).mpr (listed_of_keeps kept).2)
    obtain ⟨upsert, listed, rfl⟩ | ⟨before, _⟩ := placed_members other other_placed
    · have moved := (mem_upsertsOf distinct listed).2
      rw [same, kept] at moved
      cases moved
    · rw [← List.inj_on_of_nodup_map prev_distinct (retained_sub.subset before) stored same]
      exact other_placed
  have found : ∀ append ∈ appendsOf prev (withAfter none next), ∃ old ∈ placed,
      ∃ new ∈ next, tryTextAppend old new = some append := by
    intro append listed
    obtain ⟨old, old_stored, new, wanted, same, kept, extended⟩ := mem_appendsOf distinct listed
    exact ⟨old, placed_of_kept old old_stored (same ▸ kept), new, wanted, extended⟩
  obtain ⟨result, appended, result_ids, result_members⟩ :=
    foldlM_applyAppend ids_distinct (appendsOf_distinct distinct parts) parts found
  have result_inside : ∀ entry ∈ result, entry ∈ next := by
    intro entry listed
    obtain wanted | ⟨entry_placed, no_append⟩ := result_members entry listed
    · exact wanted
    · obtain ⟨upsert, upsert_listed, rfl⟩ | ⟨before, no_upsert⟩ :=
        placed_members entry entry_placed
      · exact (mem_upsertsOf distinct upsert_listed).1
      · have stored := retained_sub.subset before
        cases kept : keeps prev next entry.id with
        | true =>
            obtain wanted | ⟨append, append_listed, named⟩ :=
              kept_content prev_distinct distinct parts stored kept
            · exact wanted
            · exact absurd named.symm (no_append append append_listed)
        | false =>
            have wanted := inside entry.id (List.mem_map_of_mem before)
            obtain ⟨upsert, upsert_listed, same⟩ := exists_upsert prev distinct wanted kept
            exact absurd same.symm (no_upsert upsert upsert_listed)
  have determined : ∀ entry ∈ result, ∀ other ∈ next, entry.id = other.id → entry = other := by
    intro entry listed other wanted same
    exact List.inj_on_of_nodup_map distinct (result_inside entry listed) wanted same
  have permuted : result.Perm next := by
    refine (List.perm_ext_iff_of_nodup ?_ (List.Nodup.of_map _ distinct)).mpr ?_
    · rw [← result_ids] at ids_distinct
      exact List.Nodup.of_map _ ids_distinct
    · intro entry
      refine ⟨result_inside entry, fun wanted => ?_⟩
      have id_listed := (ids_iff entry.id).mpr (List.mem_map_of_mem wanted)
      rw [← result_ids] at id_listed
      obtain ⟨other, listed, same⟩ := List.mem_map.mp id_listed
      exact determined other listed entry wanted same ▸ listed
  refine ⟨result, ?_, permuted, ?_⟩
  · simp only [applyTranscriptFrame]
    rw [upserted]
    simp only [bind, Except.bind, appended, permuted.length_eq, if_true]
  · have order : (retained.map SessionMessageEntry.id).filter (fun id => !!keeps prev next id) =
        keptIds prev next prev := by
      rw [← keptIds_retained]
      simp only [Bool.not_not]
      rfl
    rw [order] at exact_order
    simp only [Bool.not_not] at exact_order
    rw [← show keptIds prev next next = (next.map SessionMessageEntry.id).filter
      (fun id => keeps prev next id) from rfl] at exact_order
    rw [← exact_order, ← result_ids]
    constructor
    · rintro rfl
      rfl
    · exact eq_of_ids_eq determined

/-- A frame brings the reader to the new transcript exactly when it is a reset
or the kept entries stand in one order in both transcripts. -/
theorem round_trip_iff (prev next : SessionTranscript content) :
    applyTranscriptFrame prev.entries (diffTranscript prev.entries next.entries) =
        .ok next.entries ↔
      MostlyChanged prev.entries next.entries ∨
        keptIds prev.entries next.entries prev.entries =
          keptIds prev.entries next.entries next.entries := by
  rw [diffTranscript_eq, upsertsOf_length next.distinct]
  by_cases most : MostlyChanged prev.entries next.entries
  · have large : max next.entries.length 1 ≤
        (next.entries.length - (keptIds prev.entries next.entries next.entries).length) * 2 ∧
          4 < next.entries.length := by
      unfold MostlyChanged at most
      omega
    rw [if_pos large]
    exact iff_of_true rfl (.inl most)
  · have small : ¬ (max next.entries.length 1 ≤
        (next.entries.length - (keptIds prev.entries next.entries next.entries).length) * 2 ∧
          4 < next.entries.length) := by
      unfold MostlyChanged at most
      omega
    rw [if_neg small, or_iff_right most]
    obtain ⟨result, applied, _, exact_order⟩ := apply_delta prev next
    rw [applied, Except.ok.injEq, exact_order]

/-- A block of two entries that trades places with another one comes apart. -/
theorem moved_block_is_torn :
    let entry := fun id : String => ({
      id
      role := .assistant
      parts := [.text "t0" id]
      createdAt := 0
      deviceId := "dev"
      status := none
      continuationOf := none } : SessionMessageEntry Unit)
    ∃ prev next : SessionTranscript Unit,
      prev.entries = ["a", "b", "c", "d"].map entry ∧
      next.entries = ["c", "d", "a", "b"].map entry ∧
      applyTranscriptFrame prev.entries (diffTranscript prev.entries next.entries) =
        .ok (["c", "b", "d", "a"].map entry) ∧
      applyTranscriptFrame prev.entries (diffTranscript prev.entries next.entries) ≠
        .ok next.entries := by
  refine ⟨⟨_, ?_, ?_⟩, ⟨_, ?_, ?_⟩, rfl, rfl, ?_, ?_⟩
  all_goals decide +kernel

end Zeron.Transcript
