import Zeron.Transcript.Delta

/-!
# Frames that restore the transcript

A frame moves the entries whose predecessor has changed and leaves the others
where they are.  What the reader ends up with has the right entries, and the
right order exactly when the entries left alone were in order.
-/

namespace Zeron.Transcript

open Data

variable {content : Type}

/-- An entry with the id of the one before it. -/
def placeOf (entries : List (SessionMessageEntry content)) (id : String) :
    Option (Option String × SessionMessageEntry content) :=
  (withAfter none entries).find? fun step => step.2.id == id

/-- The entry stands in both transcripts, after the same entry and with the
same content up to text appended to one part. -/
def keeps [DecidableEq content] (prev next : List (SessionMessageEntry content)) (id : String) :
    Bool :=
  match placeOf prev id, placeOf next id with
  | some (prevAfter, prevEntry), some (nextAfter, nextEntry) =>
      prevAfter == nextAfter &&
        (prevEntry == nextEntry || (tryTextAppend prevEntry nextEntry).isSome)
  | _, _ => false

/-- The ids of the entries that are kept, in the order of a transcript. -/
def keptIds [DecidableEq content] (prev next entries : List (SessionMessageEntry content)) :
    List String :=
  (entries.map SessionMessageEntry.id).filter (keeps prev next)

/-- More than four entries, at least half of which are not kept. -/
def MostlyChanged [DecidableEq content] (prev next : List (SessionMessageEntry content)) : Prop :=
  4 < next.length ∧ next.length ≤ 2 * (next.length - (keptIds prev next next).length)

section Chain

theorem chain_ids (after : Option String) (entries : List (SessionMessageEntry content)) :
    (withAfter after entries).map (fun step => (step.1, step.2.id)) =
      Splice.chain after (entries.map SessionMessageEntry.id) := by
  induction entries generalizing after with
  | nil => rfl
  | cons entry rest ih =>
      rw [withAfter, List.map_cons, ih, List.map_cons, Splice.chain]

theorem withAfter_entries (after : Option String) (entries : List (SessionMessageEntry content)) :
    (withAfter after entries).map Prod.snd = entries := by
  induction entries generalizing after with
  | nil => rfl
  | cons entry rest ih => rw [withAfter, List.map_cons, ih]

variable {entries : List (SessionMessageEntry content)}
  {step : Option String × SessionMessageEntry content}

theorem mem_of_mem_withAfter {after : Option String} (listed : step ∈ withAfter after entries) :
    step.2 ∈ entries := by
  rw [← withAfter_entries after entries]
  exact List.mem_map_of_mem listed

/-- With distinct ids an entry's place is found under its id. -/
theorem placeOf_of_mem (distinct : (entries.map SessionMessageEntry.id).Nodup)
    (listed : step ∈ withAfter none entries) :
    placeOf entries step.2.id = some step := by
  have step_distinct : ((withAfter none entries).map fun step => step.2.id).Nodup := by
    have ids : (withAfter none entries).map (fun step => step.2.id) =
        entries.map SessionMessageEntry.id := by
      conv_rhs => rw [← withAfter_entries none entries, List.map_map]
      rfl
    rw [ids]
    exact distinct
  cases found : placeOf entries step.2.id with
  | none =>
      have absent := List.find?_eq_none.mp found step listed
      simp at absent
  | some other =>
      have same : other.2.id = step.2.id := by
        have picked := List.find?_some found
        exact eq_of_beq picked
      rw [List.inj_on_of_nodup_map step_distinct (List.mem_of_find?_eq_some found) listed same]

theorem mem_of_placeOf {id : String} (found : placeOf entries id = some step) :
    step ∈ withAfter none entries ∧ step.2.id = id := by
  have picked := List.find?_some found
  exact ⟨List.mem_of_find?_eq_some found, eq_of_beq picked⟩

/-- Every entry has a place. -/
theorem exists_place {id : String} (listed : id ∈ entries.map SessionMessageEntry.id) :
    ∃ step, placeOf entries id = some step := by
  cases found : placeOf entries id with
  | some step => exact ⟨step, rfl⟩
  | none =>
      obtain ⟨entry, stored, rfl⟩ := List.mem_map.mp listed
      rw [← withAfter_entries none entries] at stored
      obtain ⟨step, step_listed, rfl⟩ := List.mem_map.mp stored
      have absent := List.find?_eq_none.mp found step step_listed
      simp at absent

end Chain

section Kept

variable [DecidableEq content]

variable {prev next : List (SessionMessageEntry content)} {id : String}

theorem keeps_eq {prevStep nextStep : Option String × SessionMessageEntry content}
    (prev_found : placeOf prev id = some prevStep) (next_found : placeOf next id = some nextStep) :
    keeps prev next id = (prevStep.1 == nextStep.1 &&
      (prevStep.2 == nextStep.2 || (tryTextAppend prevStep.2 nextStep.2).isSome)) := by
  unfold keeps
  rw [prev_found, next_found]

theorem keeps_of_missing (missing : placeOf prev id = none) : keeps prev next id = false := by
  unfold keeps
  rw [missing]

/-- A kept entry has a place in both transcripts. -/
theorem places_of_keeps (kept : keeps prev next id = true) :
    ∃ prevStep nextStep, placeOf prev id = some prevStep ∧ placeOf next id = some nextStep := by
  unfold keeps at kept
  split at kept
  · rename_i prev_found next_found
    exact ⟨_, _, prev_found, next_found⟩
  · cases kept

/-- What the loop does with an entry of `next`. -/
theorem changeOf_cases (prev : List (SessionMessageEntry content))
    {next : List (SessionMessageEntry content)}
    (distinct : (next.map SessionMessageEntry.id).Nodup)
    {step : Option String × SessionMessageEntry content} (listed : step ∈ withAfter none next) :
    (keeps prev next step.2.id = false ∧ changeOf prev step.1 step.2 = .upsert) ∨
    (keeps prev next step.2.id = true ∧ changeOf prev step.1 step.2 = .keep ∧
      placeOf prev step.2.id = some step) ∨
    (keeps prev next step.2.id = true ∧ ∃ prevEntry text,
      changeOf prev step.1 step.2 = .append text ∧
      placeOf prev step.2.id = some (step.1, prevEntry) ∧
      tryTextAppend prevEntry step.2 = some text) := by
  have next_found := placeOf_of_mem distinct listed
  have unfolded := changeOf.eq_def prev step.1 step.2
  rw [← placeOf] at unfolded
  cases prev_found : placeOf prev step.2.id with
  | none =>
      rw [prev_found] at unfolded
      exact .inl ⟨keeps_of_missing prev_found, unfolded⟩
  | some place =>
      obtain ⟨prevAfter, prevEntry⟩ := place
      have kept := keeps_eq prev_found next_found
      rw [prev_found] at unfolded
      simp only at unfolded kept
      by_cases same_after : prevAfter = step.1
      · subst same_after
        rw [beq_self_eq_true] at kept
        by_cases same_entry : prevEntry = step.2
        · subst same_entry
          rw [if_pos ⟨rfl, rfl⟩] at unfolded
          rw [beq_self_eq_true] at kept
          exact .inr (.inl ⟨kept, unfolded, rfl⟩)
        · rw [if_neg fun both => same_entry both.1, if_pos rfl] at unfolded
          rw [beq_eq_false_iff_ne.mpr same_entry] at kept
          cases appended : tryTextAppend prevEntry step.2 with
          | some text =>
              rw [appended] at unfolded kept
              exact .inr (.inr ⟨kept, prevEntry, text, unfolded, rfl, appended⟩)
          | none =>
              rw [appended] at unfolded kept
              exact .inl ⟨kept, unfolded⟩
      · rw [if_neg fun both => same_after both.2, if_neg same_after] at unfolded
        rw [beq_eq_false_iff_ne.mpr same_after] at kept
        exact .inl ⟨kept, unfolded⟩

end Kept

section Append

variable [DecidableEq content]

theorem append_tail {short long text : String} (found : tail? short long = some text) :
    short ++ text = long := by
  unfold tail? at found
  split at found
  · rename_i within
    cases found
    apply String.toList_injective
    rw [String.toList_append, String.toList_ofList]
    exact List.prefix_iff_eq_append.mp within
  · cases found

theorem appendedPart_cons (entry : String) (prev next : MessagePart content)
    (rest : List (MessagePart content × MessagePart content)) (append : Option TextAppend) :
    appendedPart entry ((prev, next) :: rest) append =
      if prev = next then appendedPart entry rest append
      else
        match partAppend entry prev next, append with
        | some found, none => appendedPart entry rest (some found)
        | _, _ => none :=
  rfl

variable {entry : String}

/-- After its first finding the loop finds no more. -/
theorem appendedPart_found {found result : TextAppend} {prev next : List (MessagePart content)}
    (same_length : prev.length = next.length)
    (appended : appendedPart entry (prev.zip next) (some found) = some result) :
    prev = next ∧ result = found := by
  induction prev generalizing next with
  | nil =>
      cases next with
      | nil =>
          cases appended
          exact ⟨rfl, rfl⟩
      | cons _ _ => cases same_length
  | cons first prev ih =>
      cases next with
      | nil => cases same_length
      | cons other next =>
          rw [List.zip_cons_cons, appendedPart_cons] at appended
          by_cases same : first = other
          · rw [if_pos same] at appended
            obtain ⟨rest_eq, rfl⟩ := ih (Nat.succ.inj same_length) appended
            rw [same, rest_eq]
            exact ⟨rfl, rfl⟩
          · rw [if_neg same] at appended
            -- A second difference ends the loop.
            cases difference : partAppend entry first other with
            | none =>
                rw [difference] at appended
                cases appended
            | some _ =>
                rw [difference] at appended
                cases appended

variable {append : TextAppend}

omit [DecidableEq content] in
/-- The append that turns one part into another, applied to the first. -/
theorem appendToPart_partAppend {prev next : MessagePart content}
    (found : partAppend entry prev next = some append) (rest : List (MessagePart content)) :
    append.entry = entry ∧ append.part = next.id ∧
      appendToPart append.part append.text (prev :: rest) = some (next :: rest, append.len) := by
  unfold partAppend at found
  cases bodies : textBodies prev next with
  | none =>
      rw [bodies] at found
      cases found
  | some pair =>
      obtain ⟨⟨prevId, prevText⟩, nextId, nextText⟩ := pair
      rw [bodies] at found
      simp only at found
      split at found
      · cases found
      · rename_i same_id
        rw [not_not] at same_id
        subst same_id
        obtain ⟨text, extended, rfl⟩ := Option.map_eq_some_iff.mp found
        have whole := append_tail extended
        cases prev <;> cases next <;> cases bodies
        all_goals
          refine ⟨rfl, rfl, ?_⟩
          simp only [appendToPart, if_true, whole]

omit [DecidableEq content] in
theorem appendToPart_cons_of_ne {part text : String} {first : MessagePart content}
    (other : first.id ≠ part) (rest : List (MessagePart content)) :
    appendToPart part text (first :: rest) =
      (appendToPart part text rest).map fun found => (first :: found.1, found.2) := by
  cases first
  case text id body => exact if_neg other
  case reasoning id body => exact if_neg other
  all_goals rfl

omit [DecidableEq content] in
/-- Parts with other ids are passed over. -/
theorem appendToPart_append {part text : String} {front rest : List (MessagePart content)}
    (fresh : part ∉ front.map MessagePart.id) :
    appendToPart part text (front ++ rest) =
      (appendToPart part text rest).map fun found => (front ++ found.1, found.2) := by
  induction front with
  | nil =>
      simp only [List.nil_append, Option.map_id']
  | cons first front ih =>
      rw [List.map_cons, List.mem_cons, not_or] at fresh
      rw [List.cons_append, appendToPart_cons_of_ne (Ne.symm fresh.1), ih fresh.2, Option.map_map]
      rfl

/-- The loop finds the one difference. -/
theorem appendToPart_appendedPart {prev next : List (MessagePart content)}
    (same_length : prev.length = next.length) (distinct : (next.map MessagePart.id).Nodup)
    (appended : appendedPart entry (prev.zip next) none = some append) :
    append.entry = entry ∧ append.part ∈ next.map MessagePart.id ∧
      appendToPart append.part append.text prev = some (next, append.len) := by
  induction prev generalizing next with
  | nil =>
      cases next with
      | nil => cases appended
      | cons _ _ => cases same_length
  | cons first prev ih =>
      cases next with
      | nil => cases same_length
      | cons other next =>
          have rest_length : prev.length = next.length := Nat.succ.inj same_length
          rw [List.map_cons, List.nodup_cons] at distinct
          rw [List.zip_cons_cons, appendedPart_cons] at appended
          by_cases same : first = other
          · subst same
            rw [if_pos rfl] at appended
            obtain ⟨named, listed, applied⟩ := ih rest_length distinct.2 appended
            have fresh : append.part ∉ [first].map MessagePart.id := by
              rw [List.map_singleton, List.mem_singleton]
              intro same
              exact distinct.1 (same ▸ listed)
            refine ⟨named, List.mem_cons_of_mem _ listed, ?_⟩
            have passed : appendToPart append.part append.text ([first] ++ prev) = _ :=
              appendToPart_append fresh
            rw [applied] at passed
            exact passed
          · rw [if_neg same] at appended
            cases difference : partAppend entry first other with
            | none =>
                rw [difference] at appended
                cases appended
            | some found =>
                rw [difference] at appended
                obtain ⟨rest_eq, rfl⟩ := appendedPart_found rest_length appended
                obtain ⟨named, part, applied⟩ := appendToPart_partAppend difference prev
                rw [applied, rest_eq, part]
                exact ⟨named, List.mem_cons_self, rfl⟩

/-- An append that the diff finds turns the old entry into the new one. -/
theorem appendToEntry_tryTextAppend {prev next : SessionMessageEntry content}
    (distinct : (next.parts.map MessagePart.id).Nodup)
    (found : tryTextAppend prev next = some append) :
    prev.id = next.id ∧ append.entry = next.id ∧ appendToEntry prev append = .ok next := by
  unfold tryTextAppend at found
  split at found
  · cases found
  · rename_i same
    simp only [not_or, not_not] at same
    obtain ⟨id, role, created, device, status, continuation, length⟩ := same
    obtain ⟨named, _, applied⟩ := appendToPart_appendedPart length distinct found
    refine ⟨id, named, ?_⟩
    unfold appendToEntry
    rw [applied]
    simp only [if_true]
    cases prev
    cases next
    subst id role created device status continuation
    rfl

end Append

end Zeron.Transcript
