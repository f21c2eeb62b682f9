import Zeron.Registry.Replica

/-!
# Reading one's own writes

A replica shows its pending operations over the server's rows by the merge that
the server uses, so a write of its own is shown only where its clock beats what
is there.  The clock source looks at the wall clock and at what it has printed
itself, not at the rows: a row written by a device whose clock is ahead keeps
its values.
-/

namespace Zeron.Registry

open Zeron.Data
open Zeron.Wire

/-! ## What a call is to show -/

/-- What the reads are to show after a call. -/
inductive Effect where
  | shows (key : RowKey) (set : FieldMap Json)
  | removes (keys : List RowKey)

/-- What a written value reads back as. -/
def shownAs (value : Json) : Option Json :=
  if value.isNull then none else some value

/-- The row reads back with these values. -/
def RegistryRow.Shows (row : RegistryRow) (set : FieldMap Json) : Prop :=
  ∀ (field : String) (value : Json), set[field]? = some value → row.fields[field]? = shownAs value

/-- The effect in the reads of a replica. -/
def Effect.Shown (doc : RegistryDoc) : Effect → Prop
  | shows key set => ∃ row, doc.overlayRow key = some row ∧ row.Shows set
  | removes keys => ∀ key ∈ keys, doc.overlayRow key = none

/-- What is to be read after an intent is carried out. -/
def Intent.effect : Intent → Effect
  | update kind id set => .shows ⟨kind, id⟩ set
  | upsert kind id set => .shows ⟨kind, id⟩ set
  | delete keys => .removes keys
  | rest kind id => .shows ⟨kind, id⟩ ∅

namespace RegistryDoc

/-- What a call promises to the reads. -/
def effect (times : TimeTexts) (doc : RegistryDoc) (mutation : Mutation) : Effect :=
  (doc.intent times mutation).effect

variable {times : TimeTexts} {doc : RegistryDoc} {now : Nat → Nat}

/-! ## The replayed row -/

/-- The row as the pending operations leave it, tombstones included. -/
def replayed (doc : RegistryDoc) (key : RowKey) : Option RegistryRow :=
  applyOps doc.authoritative[key]? (doc.pendingOps key)

/-- The clock text that the next call prints. -/
def stamp (doc : RegistryDoc) (now : Nat → Nat) : Hlc :=
  (doc.clock.tick (now 0)).print doc.deviceId

theorem overlayRow_eq_replayed (key : RowKey) :
    doc.overlayRow key = (doc.replayed key).filter fun row => !row.deleted :=
  doc.overlayRow_eq key

/-- Queued operations are replayed last. -/
theorem replayed_of_queues {next : RegistryDoc} {added : List PendingBatch}
    (view : SameView doc next) (queues : Queues doc next added) (key : RowKey) :
    next.replayed key = applyOps (doc.replayed key)
      ((added.flatMap PendingBatch.ops).filter fun op => op.key = key) := by
  unfold replayed pendingOps
  rw [view.authoritative_eq, queues.pending_eq, List.flatMap_append, List.filter_append,
    applyOps_append]

theorem replayed_write (kind id : String) (op : OpKind) (set : FieldMap Json) :
    (doc.write now kind id op set).replayed ⟨kind, id⟩ =
      (applyOp (doc.replayed ⟨kind, id⟩) (.fieldWrite kind id op set (doc.stamp now))).1 := by
  obtain ⟨added, queues, ops_eq⟩ := doc.queues_write now kind id op set
  have mine : (RowOp.fieldWrite kind id op set (doc.stamp now)).key = ⟨kind, id⟩ := rfl
  rw [replayed_of_queues (doc.sameView_write now kind id op set) queues, ops_eq]
  change applyOps _ ([RowOp.fieldWrite kind id op set (doc.stamp now)].filter _) = _
  simp [mine]

theorem replayed_deleteRowOps (keys : List RowKey) (key : RowKey) :
    (doc.deleteRowOps now keys).replayed key =
      applyOps (doc.replayed key) ((keys.filter fun other => other = key).map fun other =>
        .rowDelete other.kind other.id (doc.stamp now)) := by
  obtain ⟨added, queues, ops_eq⟩ := doc.queues_deleteRowOps now keys
  rw [replayed_of_queues (doc.sameView_deleteRowOps now keys) queues, ops_eq, List.filter_map]
  rfl

end RegistryDoc

/-! ## Which writes are shown -/

/-- A write of the values under this clock goes through on what stands at the row: on a
live row each value beats the one stored for its field, or repeats it; a tombstone is
older than the clock. -/
def Unshadowed (clock : Hlc) (set : FieldMap Json) : Option RegistryRow → Prop
  | none => True
  | some row =>
      if row.deleted then hlcNewer clock row.delHlc = true
      else
        ∀ (field : String) (value : Json), set[field]? = some value →
          hlcNewer clock row.clocks[field]? = true ∨ row.fields[field]? = shownAs value

/-- A delete under this clock goes through: a live row has no clock as new. -/
def Deletable (clock : Hlc) (row : Option RegistryRow) : Prop :=
  ∀ stored ∈ row, stored.deleted = false → hlcNewer clock stored.maxClock = true

/-- The condition of an effect, on the rows as they are replayed before the call. -/
def Effect.Clear (doc : RegistryDoc) (clock : Hlc) : Effect → Prop
  | shows key set => Unshadowed clock set (doc.replayed key)
  | removes keys => ∀ key ∈ keys, Deletable clock (doc.replayed key)

def Effect.keys : Effect → List RowKey
  | shows key _ => [key]
  | removes keys => keys

/-- The clock is newer than every clock on the rows that the effect is about. -/
def Effect.Newest (doc : RegistryDoc) (clock : Hlc) (effect : Effect) : Prop :=
  ∀ key ∈ effect.keys, ∀ row ∈ doc.replayed key, hlcNewer clock row.maxClock = true

instance (doc : RegistryDoc) (clock : Hlc) (effect : Effect) : Decidable (effect.Newest doc clock) :=
  inferInstanceAs (Decidable (∀ key ∈ effect.keys, ∀ row ∈ doc.replayed key, _))

/-- Nothing shadows a clock that is newer than everything on the row. -/
theorem Effect.Newest.clear {doc : RegistryDoc} {clock : Hlc} {effect : Effect}
    (newest : effect.Newest doc clock) : effect.Clear doc clock := by
  cases effect with
  | shows key set =>
      have above := newest key (List.mem_singleton_self key)
      simp only [Clear]
      cases stored : doc.replayed key with
      | none => trivial
      | some row =>
          obtain ⟨tombstone, written⟩ := (row.newer_maxClock_iff clock).mp (above row stored)
          simp only [Unshadowed]
          split
          · exact tombstone
          · exact fun field value _ => Or.inl (written field)
  | removes keys => exact fun key listed row stored _ => newest key listed row stored

section Writes

variable {kind id : String} {op : OpKind} {set : FieldMap Json} {clock : Hlc} {row : RegistryRow}

theorem fields_writeFields (base : RegistryRow) (created : Bool) {field : String} {value : Json}
    (writes : set[field]? = some value) :
    (writeFields (.fieldWrite kind id op set clock) base created).1.fields[field]? =
      if hlcNewer clock base.clocks[field]? then shownAs value else base.fields[field]? := by
  have view := congrArg Prod.snd
    (writeFields_view (.fieldWrite kind id op set clock) base created field)
  have same : (RowOp.fieldWrite kind id op set clock).writes[field]? = some value := writes
  have clockEq : (RowOp.fieldWrite kind id op set clock).clockFor field = clock := by
    simp [RowOp.clockFor, RowOp.fieldWrite]
  rw [same, clockEq] at view
  simp only at view
  rw [view]
  split <;> rfl

/-- The values show on what they are written over exactly where they beat or repeat it. -/
theorem shows_writeFields_iff (base : RegistryRow) (created : Bool) :
    (writeFields (.fieldWrite kind id op set clock) base created).1.Shows set ↔
      ∀ (field : String) (value : Json), set[field]? = some value →
        hlcNewer clock base.clocks[field]? = true ∨ base.fields[field]? = shownAs value := by
  refine forall₃_congr fun field value writes => ?_
  rw [fields_writeFields base created writes]
  cases hlcNewer clock base.clocks[field]? <;> simp

/-- On a row without clocks every value shows. -/
theorem shows_writeFields_of_empty {base : RegistryRow} (created : Bool) (empty : base.clocks = ∅) :
    (writeFields (.fieldWrite kind id op set clock) base created).1.Shows set :=
  (shows_writeFields_iff base created).mpr fun field _ _ => Or.inl (by simp [empty])

/-- An upsert, and an update of a row that is shown, are shown exactly when nothing shadows
them. -/
theorem shown_applyOp_iff (stored : Option RegistryRow)
    (allowed : op = .upsert ∨ op = .update ∧ ∃ row, stored = some row ∧ row.deleted = false) :
    (∃ next, (applyOp stored (.fieldWrite kind id op set clock)).1.filter
        (fun row => !row.deleted) = some next ∧ next.Shows set) ↔
      Unshadowed clock set stored := by
  have notDelete : (RowOp.fieldWrite kind id op set clock).op ≠ .delete := by
    obtain rfl | ⟨rfl, _⟩ := allowed <;> exact nofun
  cases stored with
  | none =>
      obtain rfl | ⟨_, row, missing, _⟩ := allowed
      · rw [applyOp_upsert_none rfl]
        have live : (!(writeFields (.fieldWrite kind id .upsert set clock)
            (.blank kind id) true).1.deleted) = true := by
          rw [writeFields_deleted]
          rfl
        refine iff_of_true ⟨_, Option.filter_eq_some_iff.mpr ⟨rfl, live⟩, ?_⟩ trivial
        exact shows_writeFields_of_empty _ rfl
      · cases missing
  | some row =>
      cases dead : row.deleted with
      | true =>
          obtain rfl | ⟨_, other, same, live⟩ := allowed
          · simp only [Unshadowed, dead]
            have clockEq : (RowOp.fieldWrite kind id .upsert set clock).hlc = clock := rfl
            rw [applyOp_upsert_tombstone rfl dead, clockEq]
            cases newer : hlcNewer clock row.delHlc with
            | true =>
                have live : (!(writeFields (.fieldWrite kind id .upsert set clock) row.revive
                    true).1.deleted) = true := by
                  rw [writeFields_deleted]
                  rfl
                refine iff_of_true ⟨_, Option.filter_eq_some_iff.mpr ⟨rfl, live⟩, ?_⟩ rfl
                exact shows_writeFields_of_empty _ rfl
            | false => simp [dead]
          · cases same
            rw [dead] at live
            cases live
      | false =>
          have shows_iff : (writeFields (.fieldWrite kind id op set clock) row false).1.Shows set ↔ _ :=
            shows_writeFields_iff row false
          simp only [Unshadowed]
          rw [applyOp_live notDelete dead, ← shows_iff]
          simp [dead]

/-! ## Which deletes are shown -/

theorem applyOp_delete_deleted (dead : row.deleted = true) :
    ∃ next, (applyOp (some row) (.rowDelete kind id clock)).1 = some next ∧ next.deleted = true := by
  simp only [applyOp, applyDelete, RowOp.rowDelete, if_true, dead]
  split
  · exact ⟨_, rfl, rfl⟩
  · exact ⟨row, rfl, dead⟩

theorem applyOp_delete_live (live : row.deleted = false) :
    (applyOp (some row) (.rowDelete kind id clock)).1 =
      some (if hlcNewer clock row.maxClock then row.bury clock else row) := by
  simp only [applyOp, applyDelete, RowOp.rowDelete, if_true, live, Bool.false_eq_true, if_false]
  split <;> rfl

/-- What is deleted stays deleted under further deletes. -/
theorem applyOps_deletes_deleted (keys : List RowKey) (dead : row.deleted = true) :
    ∃ next, applyOps (some row) (keys.map fun key => .rowDelete key.kind key.id clock) = some next ∧
      next.deleted = true := by
  induction keys generalizing row with
  | nil => exact ⟨row, rfl, dead⟩
  | cons key keys ih =>
      obtain ⟨next, applied, gone⟩ := applyOp_delete_deleted dead
      rw [List.map_cons, applyOps_cons, applied]
      exact ih gone

/-- Deletes of a row under one clock are shown exactly when no clock of a live row is as
new; repeating them changes nothing. -/
theorem gone_iff_deletable {keys : List RowKey} (some_key : keys ≠ []) (stored : Option RegistryRow) :
    (applyOps stored (keys.map fun key => .rowDelete key.kind key.id clock)).filter
        (fun row => !row.deleted) = none ↔ Deletable clock stored := by
  induction keys generalizing stored with
  | nil => exact absurd rfl some_key
  | cons key keys ih =>
      rw [List.map_cons, applyOps_cons]
      have after_dead : ∀ {row : RegistryRow}, row.deleted = true →
          (applyOps (some row) (keys.map fun key => .rowDelete key.kind key.id clock)).filter
            (fun row => !row.deleted) = none := by
        intro row dead
        obtain ⟨next, applied, gone⟩ :
            ∃ next, applyOps (some row) (keys.map fun key => .rowDelete key.kind key.id clock) =
              some next ∧ next.deleted = true := applyOps_deletes_deleted keys dead
        simp [applied, gone]
      cases stored with
      | none => exact iff_of_true (after_dead rfl) nofun
      | some row =>
          cases dead : row.deleted with
          | true =>
              obtain ⟨next, applied, gone⟩ := applyOp_delete_deleted dead
              rw [applied]
              refine iff_of_true (after_dead gone) fun stored same live => ?_
              cases same
              rw [dead] at live
              cases live
          | false =>
              rw [applyOp_delete_live dead]
              cases newer : hlcNewer clock row.maxClock with
              | true => exact iff_of_true (after_dead rfl) fun stored same _ => by cases same; exact newer
              | false =>
                  have kept : ¬ Deletable clock (some row) := fun deletable => by
                    have beaten := deletable row rfl dead
                    rw [newer] at beaten
                    cases beaten
                  refine iff_of_false (fun gone => ?_) kept
                  cases keys with
                  | nil => simp [dead] at gone
                  | cons => exact kept ((ih (List.cons_ne_nil _ _) _).mp gone)

end Writes

/-! ## Own writes are read back -/

namespace RegistryDoc

variable {times : TimeTexts} {doc : RegistryDoc} {now : Nat → Nat}

theorem exists_live_of_rowExists {key : RowKey} (there : doc.rowExists key = true) :
    ∃ row, doc.replayed key = some row ∧ row.deleted = false := by
  obtain ⟨row, shown⟩ := Option.isSome_iff_exists.mp there
  rw [overlayRow_eq_replayed, Option.filter_eq_some_iff] at shown
  exact ⟨row, shown.1, by simpa using shown.2⟩

theorem shown_write_iff {kind id : String} {op : OpKind} {set : FieldMap Json}
    (allowed : op = .upsert ∨ op = .update ∧ doc.rowExists ⟨kind, id⟩ = true) :
    (Effect.shows ⟨kind, id⟩ set).Shown (doc.write now kind id op set) ↔
      (Effect.shows ⟨kind, id⟩ set).Clear doc (doc.stamp now) := by
  simp only [Effect.Shown, overlayRow_eq_replayed, replayed_write]
  exact shown_applyOp_iff _ (allowed.imp_right fun ⟨update, there⟩ =>
    ⟨update, exists_live_of_rowExists there⟩)

theorem shown_deleteRowOps_iff (keys : List RowKey) :
    (Effect.removes keys).Shown (doc.deleteRowOps now keys) ↔
      (Effect.removes keys).Clear doc (doc.stamp now) := by
  refine forall₂_congr fun key listed => ?_
  have some_key : keys.filter (fun other => other = key) ≠ [] := by
    rw [ne_eq, List.filter_eq_nil_iff]
    exact fun none_listed => none_listed key listed (decide_eq_true rfl)
  rw [overlayRow_eq_replayed, replayed_deleteRowOps]
  exact gone_iff_deletable some_key _

/-- Where nothing is written, nothing needs to be newer. -/
theorem shown_rest {kind id : String} (there : doc.rowExists ⟨kind, id⟩ = true) (clock : Hlc) :
    (Effect.shows ⟨kind, id⟩ ∅).Shown doc ∧ (Effect.shows ⟨kind, id⟩ ∅).Clear doc clock := by
  obtain ⟨row, stands, live⟩ := exists_live_of_rowExists there
  have shown : doc.overlayRow ⟨kind, id⟩ = some row := by
    rw [overlayRow_eq_replayed, stands]
    simp [live]
  refine ⟨⟨row, shown, fun field value writes => by simp at writes⟩, ?_⟩
  simp only [Effect.Clear, stands, Unshadowed, live]
  exact fun field value writes => by simp at writes

theorem shown_mutate_iff {mutation : Mutation}
    (success : (doc.mutate times now mutation).2 = true) :
    (doc.effect times mutation).Shown (doc.mutate times now mutation).1 ↔
      (doc.effect times mutation).Clear doc (doc.stamp now) := by
  rw [mutate_eq_perform, effect]
  cases asked : doc.intent times mutation with
  | update kind id set =>
      have there := exists_of_success success (Or.inl ⟨set, asked⟩)
      rw [perform, updateRow_of_exists there]
      exact shown_write_iff (Or.inr ⟨rfl, there⟩)
  | upsert kind id set => exact shown_write_iff (Or.inl rfl)
  | delete keys => exact shown_deleteRowOps_iff keys
  | rest kind id =>
      have there := exists_of_success success (Or.inr asked)
      obtain ⟨shown, clear⟩ := shown_rest there (doc.stamp now)
      exact iff_of_true shown clear

/-- A successful call is read back exactly when its clock beats what stands at its row: of
each field of a live row that it changes, of a tombstone that it revives, of the whole row
that it deletes.  A clock newer than every clock on the row does. -/
theorem reads_own_writes_iff (mutation : Mutation)
    (success : (doc.mutate times now mutation).2 = true) :
    ((doc.effect times mutation).Shown (doc.mutate times now mutation).1 ↔
        (doc.effect times mutation).Clear doc (doc.stamp now)) ∧
      ((doc.effect times mutation).Newest doc (doc.stamp now) →
        (doc.effect times mutation).Shown (doc.mutate times now mutation).1) :=
  have exact_iff := shown_mutate_iff success
  ⟨exact_iff, fun newest => exact_iff.mpr newest.clear⟩

/-- A chat that the device has created itself is renamed. -/
theorem reads_own_writes_after_rename :
    let times : TimeTexts := ⟨fun _ => none, fun _ => none⟩
    let created := ((new "a").mutate times (fun _ => 1000) (.claimChat "c1" none none 1000)).1
    (created.effect times (.renameChat "c1" "draft")).Shown
      (created.mutate times (fun _ => 1000) (.renameChat "c1" "draft")).1 := by
  intro times created
  exact (reads_own_writes_iff (.renameChat "c1" "draft") (by decide +kernel)).2 (by decide +kernel)

/-- The server's row carries a clock of a device that is a second ahead: the rename reports
success, and the old title is read. -/
theorem rename_under_clock_ahead_is_not_read :
    let times : TimeTexts := ⟨fun _ => none, fun _ => none⟩
    let now : Nat → Nat := fun _ => 1000
    let chat : RegistryRow :=
      { kind := "chats", id := "c1", seq := 1, deleted := false, delHlc := none
        fields := fields [("title", .str "plan")]
        clocks := .ofList [("title", encodeHlc 2000 0 "b")] compare }
    let frame : StateFrame := { seq := 1, full := true, gcFloor := 0, rows := [chat] }
    ∃ doc, Transition.run (step times) (new "a") [.state now frame] = some doc ∧
      (doc.mutate times now (.renameChat "c1" "draft")).2 = true ∧
      ¬ (doc.effect times (.renameChat "c1" "draft")).Shown
        (doc.mutate times now (.renameChat "c1" "draft")).1 ∧
      ¬ (doc.effect times (.renameChat "c1" "draft")).Newest doc (doc.stamp now) := by
  intro times now chat frame
  let renamed := (((new "a").applyState now frame).1.mutate times now (.renameChat "c1" "draft")).1
  refine ⟨((new "a").applyState now frame).1, rfl, by decide +kernel, ?_, by decide +kernel⟩
  rintro ⟨row, shown, values⟩
  have title := values "title" (.str "draft") (by decide +kernel)
  have kept : ((renamed.overlayRow ⟨kindChats, "c1"⟩).bind fun row => row.fields["title"]?) =
      some (.str "plan") := by decide +kernel
  have read : renamed.overlayRow ⟨kindChats, "c1"⟩ = some row := shown
  rw [read, Option.bind_some, title] at kept
  exact absurd kept (by decide)

end RegistryDoc

end Zeron.Registry
