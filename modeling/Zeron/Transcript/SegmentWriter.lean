import Mathlib.Data.List.InsertIdx
import Zeron.Transcript.Delta
import Zeron.Transition.Run

/-!
# Writing a streaming entry

A segment writer keeps the index that its entry had when it was pushed, and writes the
growth of the folded parts to the entry at that index.  Other devices' entries are
merged into the list at any place.
-/

namespace Zeron.Transcript

open Transition

/-- A part as its map has it: the text containers, and all other fields by key. -/
structure DocPart (value : Type) where
  id : String
  kind : String
  text : Option String
  reasoning : Option String
  fields : List (String × value)
  deriving DecidableEq

/-- The map of an entry; an import may bring it before its parts. -/
structure EntryMap (value : Type) where
  id : String
  role : MessageRole
  parts : Option (List (DocPart value))
  createdAt : Int
  deviceId : String
  status : Option MessageStatus
  continuationOf : Option String
  deriving DecidableEq

/-- The containers that grow at their ends. -/
inductive TextField where
  | text
  | reasoning

variable {value : Type}

namespace DocPart

/-- `map.insert`. -/
def putField (fields : List (String × value)) (field : String × value) : List (String × value) :=
  if fields.any fun old => old.1 == field.1 then
    fields.map fun old => if old.1 = field.1 then field else old
  else fields ++ [field]

/-- `update_part_fields`. -/
def updateFields (old part : DocPart value) : DocPart value :=
  { old with
    text := if part.text.isSome then old.text.bind fun _ => part.text else old.text
    reasoning :=
      if part.reasoning.isSome then old.reasoning.bind fun _ => part.reasoning else old.reasoning
    fields := part.fields.foldl putField old.fields }

/-- The text at the end of a part that has grown. -/
def grown (prev part : DocPart value) : Option (TextField × String) :=
  if prev.kind = "text" ∧ part.kind = "text" then
    (tail? (prev.text.getD "") (part.text.getD "")).map fun delta => (.text, delta)
  else if prev.kind = "reasoning" ∧ part.kind = "reasoning" then
    (tail? (prev.reasoning.getD "") (part.reasoning.getD "")).map fun delta => (.reasoning, delta)
  else none

/-- An insertion at the end of a text container. -/
def append (part : DocPart value) (delta : String) : TextField → Option (DocPart value)
  | .text => part.text.map fun text => { part with text := some (text ++ delta) }
  | .reasoning =>
      part.reasoning.map fun reasoning => { part with reasoning := some (reasoning ++ delta) }

end DocPart

/-- What `sync` writes for a part that differs from the one it wrote before. -/
def writePart (prev part : DocPart value) (parts : List (DocPart value)) (i : Nat) :
    Option (List (DocPart value)) :=
  match prev.grown part with
  | some (field, delta) =>
      if delta = "" then some parts
      else (parts[i]?.bind fun map => map.append delta field).map (parts.set i)
  | none => (parts[i]?.map fun map => map.updateFields part).map (parts.set i)

/-- The parts of an entry and their mirror; an error leaves what was written so far. -/
structure Synced (value : Type) where
  parts : List (DocPart value)
  written : List (DocPart value)
  failed : Bool

section Sync

variable [DecidableEq value]

/-- The loop of `sync`, from an index on. -/
def syncFrom : Nat → List (DocPart value) → Synced value → Synced value
  | _, [], synced => synced
  | i, part :: rest, synced =>
      match synced.written[i]? with
      | none => syncFrom (i + 1) rest { synced with
          parts := synced.parts ++ [part], written := synced.written ++ [part] }
      | some prev =>
          if prev = part then syncFrom (i + 1) rest synced
          else
            match writePart prev part synced.parts i with
            | none => { synced with failed := true }
            | some parts => syncFrom (i + 1) rest { synced with
                parts, written := synced.written.set i part }

/-- `sync` on the parts of an entry. -/
def sync (written folded parts : List (DocPart value)) : Synced value :=
  syncFrom 0 folded { parts, written, failed := false }

/-- `SegmentWriter`, or the state between `into_state` and `resume`. -/
structure SegmentWriter (value : Type) where
  /-- The id that was passed to `begin`. -/
  entryId : String
  entryIndex : Nat
  written : List (DocPart value)
  /-- How many entries were merged in before its own. -/
  displaced : Nat

namespace SegmentWriter

/-- Where the writer's own entry is. -/
def place (writer : SegmentWriter value) : Nat :=
  writer.entryIndex + writer.displaced

/-- An entry has been merged in at an index. -/
def shifted (writer : SegmentWriter value) (index : Nat) : SegmentWriter value :=
  if index ≤ writer.place then { writer with displaced := writer.displaced + 1 } else writer

end SegmentWriter

namespace EntryMap

/-- `sync` on an entry. -/
def synced (written folded : List (DocPart value)) (entry : EntryMap value) : EntryMap value :=
  { entry with parts := entry.parts.map fun parts => (sync written folded parts).parts }

/-- `finish` on an entry; an error leaves the status. -/
def finished (written folded : List (DocPart value)) (status : MessageStatus)
    (entry : EntryMap value) : EntryMap value :=
  match entry.parts with
  | none => entry
  | some parts =>
      let done := sync written folded parts
      { entry with
        parts := some done.parts
        status := if done.failed then entry.status else some status }

end EntryMap

/-- The messages of a document and the writers that are open on it. -/
structure StreamedDoc (value : Type) where
  messages : List (EntryMap value)
  writers : List (SegmentWriter value)

inductive StreamStep (value : Type) where
  | begin (entryId deviceId : String) (createdAt : Int)
  | sync (entryId : String) (folded : List (DocPart value))
  | finish (entryId : String) (folded : List (DocPart value)) (status : MessageStatus)
  | pushMessage (entry : EntryMap value)
  /-- An entry of another device, merged in at an index. -/
  | imported (index : Nat) (entry : EntryMap value)

namespace StreamedDoc

/-- A document without messages. -/
def empty : StreamedDoc value where
  messages := []
  writers := []

/-- Ids of entries are fresh. -/
def taken (doc : StreamedDoc value) (id : String) : Bool :=
  doc.messages.any fun entry => entry.id == id

def writer? (doc : StreamedDoc value) (entryId : String) : Option (SegmentWriter value) :=
  doc.writers.find? fun writer => writer.entryId == entryId

/-- What a writer has written after `sync`. -/
def writtenAfter (doc : StreamedDoc value) (writer : SegmentWriter value)
    (folded : List (DocPart value)) : List (DocPart value) :=
  match doc.messages[writer.entryIndex]?.bind EntryMap.parts with
  | none => writer.written
  | some parts => (Transcript.sync writer.written folded parts).written

def step (doc : StreamedDoc value) : StreamStep value → Option (StreamedDoc value)
  | .begin entryId deviceId createdAt =>
      if doc.taken entryId then none
      else some {
        messages := doc.messages ++ [{
          id := entryId, role := .assistant, parts := some [], createdAt, deviceId
          status := some .streaming, continuationOf := none }]
        writers := doc.writers ++ [{
          entryId, entryIndex := doc.messages.length, written := [], displaced := 0 }] }
  | .sync entryId folded =>
      (doc.writer? entryId).map fun writer => {
        messages := doc.messages.modify writer.entryIndex (EntryMap.synced writer.written folded)
        writers := doc.writers.map fun other =>
          if other.entryId = entryId then
            { other with written := doc.writtenAfter writer folded }
          else other }
  | .finish entryId folded status =>
      (doc.writer? entryId).map fun writer => {
        messages := doc.messages.modify writer.entryIndex
          (EntryMap.finished writer.written folded status)
        writers := doc.writers.filter fun other => other.entryId != entryId }
  | .pushMessage entry =>
      if doc.taken entry.id then none
      else some { doc with messages := doc.messages ++ [entry] }
  | .imported index entry =>
      if doc.taken entry.id || decide (doc.messages.length < index) then none
      else some {
        messages := doc.messages.insertIdx index entry
        writers := doc.writers.map fun writer => writer.shifted index }

/-! ## Whose entry is written -/

/-- A write changes the entry whose id was passed to `begin`, as `sync` and `finish`
say, and no other. -/
def WritesOwnEntry (doc : StreamedDoc value) : StreamStep value → Prop
  | .sync entryId folded => ∀ writer next, doc.writer? entryId = some writer →
      doc.step (.sync entryId folded) = some next →
      next.messages = doc.messages.map fun entry =>
        if entry.id = entryId then entry.synced writer.written folded else entry
  | .finish entryId folded status => ∀ writer next, doc.writer? entryId = some writer →
      doc.step (.finish entryId folded status) = some next →
      next.messages = doc.messages.map fun entry =>
        if entry.id = entryId then entry.finished writer.written folded status else entry
  | _ => True

/-- Nothing was merged in before the entry of a writer that has something to write. -/
def Undisplaced (doc : StreamedDoc value) : StreamStep value → Prop
  | .sync entryId folded => ∀ writer ∈ doc.writer? entryId,
      writer.displaced = 0 ∨ folded <+: writer.written
  | .finish entryId _ _ => ∀ writer ∈ doc.writer? entryId, writer.displaced = 0
  | _ => True

end StreamedDoc

end Sync

/-- Entries have ids of their own, and a writer's entry is at its place. -/
structure Placed (messages : List (EntryMap value)) (writers : List (SegmentWriter value)) :
    Prop where
  distinct : (messages.map EntryMap.id).Nodup
  place : ∀ writer ∈ writers, (messages.map EntryMap.id)[writer.place]? = some writer.entryId

variable {messages : List (EntryMap value)} {writers : List (SegmentWriter value)}

theorem placed_nil : Placed ([] : List (EntryMap value)) [] where
  distinct := .nil
  place := nofun

/-- Of rows with different keys, the one at an index is the one with its key. -/
theorem modify_eq_map {α κ : Type} [DecidableEq κ] {key : α → κ} {rows : List α} {k : κ} {i : Nat}
    (distinct : (rows.map key).Nodup) (found : (rows.map key)[i]? = some k) (write : α → α) :
    rows.modify i write = rows.map fun row => if key row = k then write row else row := by
  induction rows generalizing i with
  | nil => cases found
  | cons row rows ih =>
      rw [List.map_cons, List.nodup_cons] at distinct
      rw [List.map_cons] at found ⊢
      cases i with
      | zero =>
          obtain rfl : key row = k := Option.some.inj found
          have others : (rows.map fun other => if key other = key row then write other else other) =
              rows := by
            refine (List.map_congr_left fun other listed => if_neg fun same => ?_).trans
              (List.map_id' rows)
            exact distinct.1 (same ▸ List.mem_map_of_mem listed)
          rw [List.modify_zero_cons, if_pos rfl, others]
      | succ i =>
          have listed : k ∈ rows.map key := List.mem_of_getElem? found
          have apart : key row ≠ k := fun same => distinct.1 (same ▸ listed)
          rw [List.modify_succ_cons, ih distinct.2 found, if_neg apart]

/-- A row that keeps its key may be written anywhere. -/
theorem map_modify_of_keeps {α κ : Type} {key : α → κ} {write : α → α}
    (keeps : ∀ row, key (write row) = key row) (rows : List α) (i : Nat) :
    (rows.modify i write).map key = rows.map key := by
  induction rows generalizing i with
  | nil => rw [List.modify_nil]
  | cons row rows ih =>
      cases i with
      | zero => rw [List.modify_zero_cons, List.map_cons, keeps, List.map_cons]
      | succ i => rw [List.modify_succ_cons, List.map_cons, ih, List.map_cons]

theorem Placed.push (placed : Placed messages writers) {entry : EntryMap value}
    (fresh : entry.id ∉ messages.map EntryMap.id) : Placed (messages ++ [entry]) writers where
  distinct := by
    rw [List.map_append]
    exact List.nodup_append_comm.mp (List.nodup_cons.mpr ⟨fresh, placed.distinct⟩)
  place writer opened := by
    have found := placed.place writer opened
    have inside := (List.getElem?_eq_some_iff.mp found).1
    rw [List.map_append, List.getElem?_append_left inside, found]

theorem place_shifted (writer : SegmentWriter value) (index : Nat) :
    (writer.shifted index).place = if index ≤ writer.place then writer.place + 1
      else writer.place := by
  unfold SegmentWriter.shifted
  split <;> rfl

theorem entryId_shifted (writer : SegmentWriter value) (index : Nat) :
    (writer.shifted index).entryId = writer.entryId := by
  unfold SegmentWriter.shifted
  split <;> rfl

/-- A writer's place follows its entry when others are merged in. -/
theorem Placed.insert (placed : Placed messages writers) {entry : EntryMap value} {index : Nat}
    (inside : index ≤ messages.length) (fresh : entry.id ∉ messages.map EntryMap.id) :
    Placed (messages.insertIdx index entry) (writers.map fun writer => writer.shifted index) := by
  have ids : (messages.insertIdx index entry).map EntryMap.id =
      (messages.map EntryMap.id).insertIdx index entry.id := List.map_insertIdx _ _ _ _
  constructor
  · rw [ids]
    have inside_ids : index ≤ (messages.map EntryMap.id).length := by
      rw [List.length_map]
      exact inside
    have perm := List.perm_insertIdx entry.id (messages.map EntryMap.id) inside_ids
    exact perm.nodup_iff.mpr (List.nodup_cons.mpr ⟨fresh, placed.distinct⟩)
  · intro shifted listed
    obtain ⟨writer, opened, rfl⟩ := List.mem_map.mp listed
    rw [ids, place_shifted, entryId_shifted]
    have found := placed.place writer opened
    split
    · rw [List.getElem?_insertIdx_of_gt (by omega), Nat.add_sub_cancel, found]
    · rw [List.getElem?_insertIdx_of_lt (by omega), found]

/-- Writers that have only written stay where they are. -/
theorem Placed.write (placed : Placed messages writers) {messages' : List (EntryMap value)}
    (ids : messages'.map EntryMap.id = messages.map EntryMap.id)
    {writers' : List (SegmentWriter value)}
    (same : ∀ writer' ∈ writers', ∃ writer ∈ writers, writer'.place = writer.place ∧
      writer'.entryId = writer.entryId) : Placed messages' writers' where
  distinct := by
    rw [ids]
    exact placed.distinct
  place writer' opened := by
    obtain ⟨writer, listed, place, entryId⟩ := same writer' opened
    rw [ids, place, entryId]
    exact placed.place writer listed

section Writing

variable [DecidableEq value] {doc next : StreamedDoc value} {folded : List (DocPart value)}

/-- Parts that were all written before are not written again. -/
theorem syncFrom_of_written {i : Nat} {synced : Synced value}
    (old : ∀ j part, folded[j]? = some part → synced.written[i + j]? = some part) :
    syncFrom i folded synced = synced := by
  induction folded generalizing i with
  | nil => rfl
  | cons part rest ih =>
      have here : synced.written[i]? = some part := old 0 part rfl
      unfold syncFrom
      rw [here]
      simp only [↓reduceIte]
      refine ih fun j other found => ?_
      rw [Nat.add_assoc, Nat.add_comm 1 j]
      exact old (j + 1) other found

theorem sync_of_prefix {written parts : List (DocPart value)} (old : folded <+: written) :
    sync written folded parts = { parts, written, failed := false } := by
  obtain ⟨more, rfl⟩ := old
  refine syncFrom_of_written fun j part found => ?_
  rw [Nat.zero_add, List.getElem?_append_left (List.getElem?_eq_some_iff.mp found).1, found]

theorem synced_of_prefix {written : List (DocPart value)} (old : folded <+: written)
    (entry : EntryMap value) : entry.synced written folded = entry := by
  unfold EntryMap.synced
  cases held : entry.parts with
  | none => rw [Option.map_none, ← held]
  | some parts => rw [Option.map_some, sync_of_prefix old, ← held]

theorem id_finished (written folded : List (DocPart value)) (status : MessageStatus)
    (entry : EntryMap value) : (entry.finished written folded status).id = entry.id := by
  unfold EntryMap.finished
  split <;> rfl

namespace StreamedDoc

omit [DecidableEq value] in
theorem fresh_of_not_taken {id : String} (free : doc.taken id = false) :
    id ∉ doc.messages.map EntryMap.id := by
  intro listed
  obtain ⟨entry, stored, rfl⟩ := List.mem_map.mp listed
  exact List.any_eq_false.mp free entry stored (beq_self_eq_true entry.id)

/-- Every step keeps the writers' places. -/
theorem placed_step (placed : Placed doc.messages doc.writers) {event : StreamStep value}
    (stepped : doc.step event = some next) : Placed next.messages next.writers := by
  cases event with
  | begin entryId deviceId createdAt =>
      simp only [step] at stepped
      split at stepped
      · cases stepped
      · rename_i free
        cases stepped
        have fresh := fresh_of_not_taken (eq_false_of_ne_true free)
        let entry : EntryMap value := {
          id := entryId, role := .assistant, parts := some [], createdAt, deviceId
          status := some .streaming, continuationOf := none }
        have pushed : Placed (doc.messages ++ [entry]) doc.writers := placed.push fresh
        refine ⟨pushed.distinct, fun writer opened => ?_⟩
        obtain old | new := List.mem_append.mp opened
        · exact pushed.place writer old
        · obtain rfl := List.mem_singleton.mp new
          rw [List.map_append]
          have behind : doc.messages.length = (doc.messages.map EntryMap.id).length :=
            (List.length_map _).symm
          rw [behind]
          exact List.getElem?_concat_length
  | sync entryId folded =>
      obtain ⟨writer, _, rfl⟩ := Option.map_eq_some_iff.mp stepped
      have keeps (entry : EntryMap value) :
          (entry.synced writer.written folded).id = entry.id := rfl
      refine placed.write (map_modify_of_keeps keeps _ _) fun writer' listed => ?_
      obtain ⟨other, opened, rfl⟩ := List.mem_map.mp listed
      refine ⟨other, opened, ?_⟩
      split <;> exact ⟨rfl, rfl⟩
  | finish entryId folded status =>
      obtain ⟨writer, _, rfl⟩ := Option.map_eq_some_iff.mp stepped
      refine placed.write (map_modify_of_keeps (id_finished _ _ _) _ _) fun writer' listed => ?_
      exact ⟨writer', (List.mem_filter.mp listed).1, rfl, rfl⟩
  | pushMessage entry =>
      simp only [step] at stepped
      split at stepped
      · cases stepped
      · rename_i free
        cases stepped
        exact placed.push (fresh_of_not_taken (eq_false_of_ne_true free))
  | imported index entry =>
      simp only [step] at stepped
      split at stepped
      · cases stepped
      · rename_i free
        cases stepped
        simp only [Bool.or_eq_true, decide_eq_true_eq, not_or, Nat.not_lt] at free
        exact placed.insert free.2 (fresh_of_not_taken (eq_false_of_ne_true free.1))

omit [DecidableEq value] in
/-- The entry at a writer's index is its own as long as nothing was merged in before. -/
theorem own_entry_at_index (placed : Placed doc.messages doc.writers) {entryId : String}
    {writer : SegmentWriter value} (found : doc.writer? entryId = some writer)
    (undisplaced : writer.displaced = 0) :
    (doc.messages.map EntryMap.id)[writer.entryIndex]? = some entryId := by
  have same : writer.entryId = entryId := by simpa using List.find?_some found
  have place := placed.place writer (List.mem_of_find?_eq_some found)
  unfold SegmentWriter.place at place
  rw [undisplaced, Nat.add_zero] at place
  rw [place, same]

/-- A writer that was not displaced writes its own entry only. -/
theorem writes_own_entry (placed : Placed doc.messages doc.writers) (event : StreamStep value)
    (undisplaced : doc.Undisplaced event) : doc.WritesOwnEntry event := by
  cases event with
  | begin entryId deviceId createdAt => trivial
  | pushMessage entry => trivial
  | imported index entry => trivial
  | sync entryId folded =>
      intro writer next found stepped
      simp only [step, found] at stepped
      cases stepped
      obtain in_place | old := undisplaced writer found
      · exact modify_eq_map placed.distinct (own_entry_at_index placed found in_place) _
      · have idle : EntryMap.synced writer.written folded = fun entry => entry := by
          funext entry
          exact synced_of_prefix old entry
        simp only [idle, ite_self, List.map_id']
        exact List.modify_id _ _
  | finish entryId folded status =>
      intro writer next found stepped
      simp only [step, found] at stepped
      cases stepped
      exact modify_eq_map placed.distinct
        (own_entry_at_index placed found (undisplaced writer found)) _

/-- In every run in which no entry is merged in before the entry of a writer that still has
something to write, each write goes to its own entry and to no other. -/
theorem streaming_writes_own_entries {events : List (StreamStep value)}
    (undisplaced : EveryStep step Undisplaced (empty : StreamedDoc value) events) :
    EveryStep step WritesOwnEntry (empty : StreamedDoc value) events :=
  EveryStep.imp (fun placed stepped => placed_step placed stepped)
    (fun placed => writes_own_entry placed _) placed_nil undisplaced

instance (doc : StreamedDoc value) : (event : StreamStep value) → Decidable (doc.Undisplaced event)
  | .sync _ _ => inferInstanceAs (Decidable (∀ writer ∈ doc.writer? _, _))
  | .finish _ _ _ => inferInstanceAs (Decidable (∀ writer ∈ doc.writer? _, _))
  | .begin _ _ _ => .isTrue trivial
  | .pushMessage _ => .isTrue trivial
  | .imported _ _ => .isTrue trivial

/-- An entry of another device without parts. -/
def remoteEntry (id : String) : EntryMap Nat where
  id := id
  role := .user
  parts := some []
  createdAt := 0
  deviceId := "other"
  status := some .complete
  continuationOf := none

/-- An entry is streamed while another is merged in behind it. -/
def mergedBehind : List (StreamStep Nat) := [
  .begin "a" "host" 0,
  .sync "a" [{ id := "t0", kind := "text", text := some "b", reasoning := none, fields := [] }],
  .imported 1 (remoteEntry "m"),
  .finish "a" [{ id := "t0", kind := "text", text := some "by", reasoning := none, fields := [] }]
    .complete]

theorem writes_own_entries_of_merged_behind :
    EveryStep step WritesOwnEntry (empty : StreamedDoc Nat) mergedBehind :=
  streaming_writes_own_entries
    (everyStep_of_checkSteps (fun doc event => decide (doc.Undisplaced event))
      (fun _ _ checked => of_decide_eq_true checked) (by decide +kernel))

/-- An entry that is merged in front takes the status of the one that is streamed. -/
theorem merged_in_front_is_finished :
    ¬ EveryStep step WritesOwnEntry (empty : StreamedDoc Nat)
      [.begin "a" "host" 0, .imported 0 (remoteEntry "m"), .finish "a" [] .aborted] := by
  intro every
  obtain ⟨_, later⟩ := every
  have begun := later _ rfl
  have merged := (begun.2 _ rfl).1
  exact absurd (merged _ _ rfl rfl) (by decide +kernel)

end StreamedDoc

end Writing

end Zeron.Transcript
