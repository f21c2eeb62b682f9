import Zeron.Chat.Replay
import Zeron.Chat.SyncClient

/-!
# What checkpoints publish

A batch that is too large for the room, or that the room has rejected for good, reaches
other devices only in a checkpoint of the engine that made it, which then retires the
batch.  The room takes any
checkpoint whose number is between its floor and its head.
-/

namespace Zeron.Chat

open Transition

/-- What the document library writes: the snapshot and the version vector of updates. -/
structure Exporter where
  snapshot : List Update → List UInt8
  vector : List Update → List UInt8

/-- A snapshot contains the updates that it was made of. -/
def Exporter.Faithful (exporter : Exporter) (loro : Loro) : Prop :=
  ∀ updates, updates ⊆ loro.content (exporter.snapshot updates)

/-- A checkpoint under way, with the rejected batches that it covers. -/
structure CheckpointPost where
  seqCovered : Nat
  frontier : List UInt8
  snapshot : List UInt8
  covered : List (String × Update)
  /-- The room has accepted it, and the answer is under way. -/
  committed : Bool

/-- An engine, as far as checkpoints go. -/
structure PostingEngine where
  device : String
  doc : Document
  queued : List (String × Update)
  /-- `rejected_chat_updates`. -/
  rejected : List (String × Update)
  /-- One checkpoint is in flight at a time. -/
  post : Option CheckpointPost

/-- A room and the engines on it. -/
structure Fleet where
  room : ChatRoom
  /-- All rows that the room has relayed. -/
  relayed : List LogRow
  engines : List PostingEngine
  /-- Posts whose engines have stopped waiting; the room may still get them. -/
  abandoned : List CheckpointPost
  /-- The batches that were retired because a checkpoint covers them. -/
  retired : List Update

inductive FleetEvent where
  | edit (engine : Nat) (batchId : String) (bytes : Update)
  | push (engine : Nat)
  /-- A row that was relayed arrives. -/
  | receive (engine : Nat) (row : LogRow)
  | catchUp (engine cursor : Nat)
  /-- `spawn_chat2_checkpoint`, for whatever reason and with whatever cursor. -/
  | post (engine seqCovered : Nat)
  | commit (engine : Nat)
  /-- The engine retires the batches that are covered, but for those whose write fails. -/
  | answered (engine : Nat) (failed : List String)
  | abandon (engine : Nat)
  | commitAbandoned (post : Nat)

namespace ChatRoom

/-- What the checkpoint contains. -/
def published (loro : Loro) (room : ChatRoom) : List Update :=
  (room.checkpoint.map fun checkpoint => loro.content checkpoint.bytes).getD []

/-- What the room contains: its checkpoint together with its rows. -/
def operations (loro : Loro) (room : ChatRoom) : List Update :=
  room.published loro ++ room.rows.map LogRow.bytes

/-- The handler of `POST /checkpoint`; `none` if it is refused. -/
def checkpointed (room : ChatRoom) (post : CheckpointPost) : Option ChatRoom :=
  if post.frontier.length = 0 ∧ 0 < post.seqCovered then none
  else
    match room.commitCheckpoint post.seqCovered post.frontier post.snapshot with
    | (next, .committed _ _) => some next
    | (_, .rejected _) => none

end ChatRoom

namespace PostingEngine

/-- `plan_catch_up` with the cursor of the client, and the import that follows. -/
def catchUp (loro : Loro) (engine : PostingEngine) (room : ChatRoom) (cursor : Nat) :
    PostingEngine :=
  let contained := engine.doc.containsFrontier loro
    ((room.checkpoint.map Checkpoint.frontier).getD [])
  let header : StateHeader := {
    headSeq := room.headSeq
    checkpointSeq := room.checkpointSeq
    checkpointSize := (room.checkpoint.map fun checkpoint => checkpoint.bytes.length).getD 0
    wipes := 0 }
  let plan := planCatchUp cursor header contained
  let doc :=
    match plan, room.checkpoint with
    | .checkpointThenRows _, some checkpoint => engine.doc.importCheckpoint loro checkpoint.bytes
    | _, _ => engine.doc
  { engine with
    doc := (room.rowsAfter plan.after).foldl
      (fun doc row => (doc.importRow loro row.bytes).1) doc }

/-- `spawn_chat2_checkpoint`: the rejected batches that the snapshot has are covered. -/
def startPost (exporter : Exporter) (engine : PostingEngine) (seqCovered : Nat) :
    PostingEngine :=
  { engine with post := some {
    seqCovered
    frontier := exporter.vector engine.doc.applied
    snapshot := exporter.snapshot engine.doc.applied
    covered := engine.rejected.filter fun batch => engine.doc.has batch.2
    committed := false } }

/-- A batch that can never be stored. -/
def reject (engine : PostingEngine) (batch : String × Update) (queued : List (String × Update)) :
    PostingEngine :=
  { engine with queued, rejected := engine.rejected ++ [batch] }

end PostingEngine

namespace Fleet

/-- A room and engines that have nothing yet. -/
def start (devices : List String) : Fleet where
  room := .initial
  relayed := []
  engines := devices.map fun device =>
    { device, doc := .empty, queued := [], rejected := [], post := none }
  abandoned := []
  retired := []

def withEngine (fleet : Fleet) (i : Nat) (engine : PostingEngine) : Fleet :=
  { fleet with engines := fleet.engines.set i engine }

/-- The room handles a push. -/
def pushed (fleet : Fleet) (i : Nat) (engine : PostingEngine) (batch : String × Update)
    (queued : List (String × Update)) : Fleet :=
  if batch.1 = "" ∨ 128 < (Wire.utf16 batch.1).length then
    fleet.withEngine i (engine.reject batch queued)
  else
    match fleet.room.appendRow engine.device batch.1 batch.2 with
    | (room, .appended seq) =>
        { fleet.withEngine i { engine with queued } with
          room
          relayed := fleet.relayed ++
            [{ seq, device := engine.device, batchId := batch.1, bytes := batch.2 }] }
    | (_, .dup _) => fleet.withEngine i { engine with queued }
    | (_, .rejected _) => fleet.withEngine i (engine.reject batch queued)

section Step

variable (loro : Loro) (exporter : Exporter)

def step (fleet : Fleet) : FleetEvent → Option Fleet
  | .edit i batchId bytes => do
      let engine ← fleet.engines[i]?
      if engine.doc.ready loro bytes then
        let edited := { engine with doc := (engine.doc.importRow loro bytes).1 }
        -- `enqueue_batch` refuses what the room could never take.
        return fleet.withEngine i <|
          if maxPushBytes < bytes.length then edited.reject (batchId, bytes) edited.queued
          else { edited with queued := edited.queued ++ [(batchId, bytes)] }
      else none
  | .push i => do
      let engine ← fleet.engines[i]?
      match engine.queued with
      | [] => none
      | batch :: queued => return fleet.pushed i engine batch queued
  | .receive i row => do
      let engine ← fleet.engines[i]?
      if row ∈ fleet.relayed then
        return fleet.withEngine i { engine with doc := (engine.doc.importRow loro row.bytes).1 }
      else none
  | .catchUp i cursor => do
      let engine ← fleet.engines[i]?
      return fleet.withEngine i (engine.catchUp loro fleet.room cursor)
  | .post i seqCovered => do
      let engine ← fleet.engines[i]?
      if engine.post.isSome then none
      else return fleet.withEngine i (engine.startPost exporter seqCovered)
  | .commit i => do
      let engine ← fleet.engines[i]?
      let post ← engine.post
      if post.committed then none
      else
        match fleet.room.checkpointed post with
        | some room =>
            return { fleet.withEngine i { engine with post := some { post with committed := true } }
              with room }
        | none => return fleet.withEngine i { engine with post := none }
  | .answered i failed => do
      let engine ← fleet.engines[i]?
      let post ← engine.post
      if post.committed then
        let done := post.covered.filter fun batch => !failed.contains batch.1
        return { fleet.withEngine i { engine with
            rejected := engine.rejected.filter fun batch => !done.any fun old => old.1 == batch.1
            post := none } with
          retired := fleet.retired ++ done.map Prod.snd }
      else none
  | .abandon i => do
      let engine ← fleet.engines[i]?
      let post ← engine.post
      return { fleet.withEngine i { engine with post := none } with
        abandoned := if post.committed then fleet.abandoned else fleet.abandoned ++ [post] }
  | .commitAbandoned k => do
      let post ← fleet.abandoned[k]?
      return { fleet with
        room := (fleet.room.checkpointed post).getD fleet.room
        abandoned := fleet.abandoned.eraseIdx k }

/-- The room contains every batch that was retired. -/
def KeepsRetired (fleet : Fleet) : Prop :=
  ∀ update ∈ fleet.retired, update ∈ fleet.room.operations loro

/-- A checkpoint that the room accepts was made from a document which has all that the
room's current checkpoint has. -/
def BuildsOn (fleet : Fleet) : FleetEvent → Prop
  | .commit i => ∀ engine ∈ fleet.engines[i]?, ∀ post ∈ engine.post,
      (fleet.room.checkpointed post).isSome →
      fleet.room.published loro ⊆ loro.content post.snapshot
  | .commitAbandoned k => ∀ post ∈ fleet.abandoned[k]?,
      (fleet.room.checkpointed post).isSome →
      fleet.room.published loro ⊆ loro.content post.snapshot
  | _ => True

/-- What is published stays published, and is retired only then. -/
structure Published (fleet : Fleet) : Prop where
  retired : fleet.retired ⊆ fleet.room.published loro
  covered : ∀ engine ∈ fleet.engines, ∀ post, engine.post = some post →
    post.covered.map Prod.snd ⊆ loro.content post.snapshot
  committed : ∀ engine ∈ fleet.engines, ∀ post, engine.post = some post →
    post.committed = true → post.covered.map Prod.snd ⊆ fleet.room.published loro

end Step

variable {loro : Loro} {exporter : Exporter} {fleet next : Fleet} {room : ChatRoom}
variable {post : CheckpointPost}

theorem published_of_checkpointed {next : ChatRoom}
    (accepted : room.checkpointed post = some next) :
    next.published loro = loro.content post.snapshot := by
  unfold ChatRoom.checkpointed ChatRoom.commitCheckpoint at accepted
  split at accepted
  · cases accepted
  · split at accepted
    · rename_i committed
      split at committed
      · cases committed
      · split at committed
        · cases committed
        · split at committed
          · cases committed
          · obtain ⟨rfl, _⟩ := Prod.mk.inj committed
            cases accepted
            rfl
    · cases accepted

theorem published_appendRow (room : ChatRoom) (device batchId : String) (bytes : List UInt8) :
    (room.appendRow device batchId bytes).1.published loro = room.published loro := by
  unfold ChatRoom.appendRow
  split
  · rfl
  · split
    · rfl
    · split <;> rfl

/-- A post that the ledger allows in this room. -/
def PostIn (loro : Loro) (room : ChatRoom) (post : CheckpointPost) : Prop :=
  post.covered.map Prod.snd ⊆ loro.content post.snapshot ∧
    (post.committed = true → post.covered.map Prod.snd ⊆ room.published loro)

variable {engine : PostingEngine}

section

variable (published : fleet.Published loro)
include published

theorem Published.post_in (listed : engine ∈ fleet.engines) (posted : engine.post = some post) :
    PostIn loro fleet.room post :=
  ⟨published.covered engine listed post posted, published.committed engine listed post posted⟩

/-- One engine changes. -/
theorem Published.withEngine (i : Nat)
    (allowed : ∀ post, engine.post = some post → PostIn loro fleet.room post) :
    (fleet.withEngine i engine).Published loro where
  retired := published.retired
  covered other listed other_post posted := by
    obtain old | rfl := List.mem_or_eq_of_mem_set listed
    · exact published.covered other old other_post posted
    · exact (allowed other_post posted).1
  committed other listed other_post posted := by
    obtain old | rfl := List.mem_or_eq_of_mem_set listed
    · exact published.committed other old other_post posted
    · exact (allowed other_post posted).2

/-- One engine changes, but not its post. -/
theorem Published.samePost {i : Nat} {engine' : PostingEngine}
    (found : fleet.engines[i]? = some engine) (same : engine'.post = engine.post) :
    (fleet.withEngine i engine').Published loro :=
  published.withEngine i fun _ posted =>
    published.post_in (List.mem_of_getElem? found) (same ▸ posted)

/-- The room publishes more. -/
theorem Published.grow {relayed : List LogRow} {abandoned : List CheckpointPost}
    (grows : fleet.room.published loro ⊆ room.published loro) :
    ({ fleet with room, relayed, abandoned } : Fleet).Published loro where
  retired := List.Subset.trans published.retired grows
  covered := published.covered
  committed engine listed _ posted done :=
    List.Subset.trans (published.committed engine listed _ posted done) grows

theorem Published.keepsRetired : fleet.KeepsRetired loro :=
  fun _ retired => List.mem_append_left _ (published.retired retired)

end

theorem published_start (devices : List String) : (start devices).Published loro where
  retired := List.nil_subset _
  covered engine listed post posted := by
    obtain ⟨device, _, rfl⟩ := List.mem_map.mp listed
    cases posted
  committed engine listed post posted := by
    obtain ⟨device, _, rfl⟩ := List.mem_map.mp listed
    cases posted

theorem Published.pushed (published : fleet.Published loro) {i : Nat}
    (found : fleet.engines[i]? = some engine) (batch : String × Update)
    (queued : List (String × Update)) : (fleet.pushed i engine batch queued).Published loro := by
  unfold Fleet.pushed
  split
  · exact published.samePost found rfl
  · have same : (fleet.room.appendRow engine.device batch.1 batch.2).1.published loro =
        fleet.room.published loro := published_appendRow _ _ _ _
    split
    · rename_i room seq appended
      rw [appended] at same
      have kept : (fleet.withEngine i { engine with queued }).Published loro :=
        published.samePost found rfl
      exact kept.grow fun _ listed => same ▸ listed
    · exact published.samePost found rfl
    · exact published.samePost found rfl

/-- A checkpoint that builds on the one before publishes more. -/
theorem grows_of_checkpointed {next : ChatRoom} (accepted : room.checkpointed post = some next)
    (builds : room.published loro ⊆ loro.content post.snapshot) :
    room.published loro ⊆ next.published loro := by
  rw [published_of_checkpointed accepted]
  exact builds

theorem Published.commit (published : fleet.Published loro) {i : Nat}
    (builds : fleet.BuildsOn loro (.commit i))
    (stepped : fleet.step loro exporter (.commit i) = some next) : next.Published loro := by
  simp only [step, Option.bind_eq_bind, Option.bind_eq_some_iff] at stepped
  obtain ⟨engine, found, post, posted, stepped⟩ := stepped
  have allowed := published.post_in (List.mem_of_getElem? found) posted
  split at stepped
  · cases stepped
  · split at stepped
    · rename_i room accepted
      cases stepped
      have grows : fleet.room.published loro ⊆ room.published loro :=
        grows_of_checkpointed accepted (builds engine found post posted (accepted ▸ rfl))
      have kept : ({ fleet with room } : Fleet).Published loro := published.grow grows
      refine kept.withEngine i fun other same => ?_
      cases same
      refine ⟨allowed.1, fun _ => ?_⟩
      rw [published_of_checkpointed accepted]
      exact allowed.1
    · cases stepped
      exact published.withEngine i nofun

theorem Published.answered (published : fleet.Published loro) {i : Nat} {failed : List String}
    (stepped : fleet.step loro exporter (.answered i failed) = some next) :
    next.Published loro := by
  simp only [step, Option.bind_eq_bind, Option.bind_eq_some_iff] at stepped
  obtain ⟨engine, found, post, posted, stepped⟩ := stepped
  split at stepped
  · rename_i committed
    cases stepped
    have covered := published.committed engine (List.mem_of_getElem? found) post posted committed
    have kept : (fleet.withEngine i { engine with
        rejected := engine.rejected.filter fun batch =>
          !(post.covered.filter fun batch => !failed.contains batch.1).any fun old =>
            old.1 == batch.1
        post := none }).Published loro := published.withEngine i nofun
    refine ⟨fun update retired => ?_, kept.covered, kept.committed⟩
    obtain before | now := List.mem_append.mp retired
    · exact published.retired before
    · obtain ⟨batch, listed, rfl⟩ := List.mem_map.mp now
      exact covered (List.mem_map_of_mem (List.mem_of_mem_filter listed))
  · cases stepped

/-- Every step whose checkpoint builds on the one before keeps what is published. -/
theorem Published.step (faithful : exporter.Faithful loro) (published : fleet.Published loro)
    {event : FleetEvent} (builds : fleet.BuildsOn loro event)
    (stepped : fleet.step loro exporter event = some next) : next.Published loro := by
  cases event with
  | edit i batchId bytes =>
      simp only [Fleet.step, Option.bind_eq_bind, Option.bind_eq_some_iff] at stepped
      obtain ⟨engine, found, stepped⟩ := stepped
      split at stepped
      · cases stepped
        refine published.samePost found ?_
        split <;> rfl
      · cases stepped
  | push i =>
      simp only [Fleet.step, Option.bind_eq_bind, Option.bind_eq_some_iff] at stepped
      obtain ⟨engine, found, stepped⟩ := stepped
      split at stepped
      · cases stepped
      · cases stepped
        exact published.pushed found _ _
  | receive i row =>
      simp only [Fleet.step, Option.bind_eq_bind, Option.bind_eq_some_iff] at stepped
      obtain ⟨engine, found, stepped⟩ := stepped
      split at stepped
      · cases stepped
        exact published.samePost found rfl
      · cases stepped
  | catchUp i cursor =>
      simp only [Fleet.step, Option.bind_eq_bind, Option.bind_eq_some_iff] at stepped
      obtain ⟨engine, found, stepped⟩ := stepped
      cases stepped
      exact published.samePost found rfl
  | post i seqCovered =>
      simp only [Fleet.step, Option.bind_eq_bind, Option.bind_eq_some_iff] at stepped
      obtain ⟨engine, found, stepped⟩ := stepped
      split at stepped
      · cases stepped
      · cases stepped
        refine published.withEngine i fun _ posted => ?_
        cases posted
        refine ⟨fun update listed => ?_, nofun⟩
        obtain ⟨batch, covered, rfl⟩ := List.mem_map.mp listed
        exact faithful _ (Document.has_iff.mp (List.mem_filter.mp covered).2)
  | commit i => exact published.commit builds stepped
  | answered i failed => exact published.answered stepped
  | abandon i =>
      simp only [Fleet.step, Option.bind_eq_bind, Option.bind_eq_some_iff] at stepped
      obtain ⟨engine, found, post, posted, stepped⟩ := stepped
      cases stepped
      have kept : (fleet.withEngine i { engine with post := none }).Published loro :=
        published.withEngine i nofun
      exact kept.grow (List.Subset.refl _)
  | commitAbandoned k =>
      simp only [Fleet.step, Option.bind_eq_bind, Option.bind_eq_some_iff] at stepped
      obtain ⟨post, found, stepped⟩ := stepped
      cases stepped
      refine published.grow ?_
      cases accepted : fleet.room.checkpointed post with
      | none => exact List.Subset.refl _
      | some room =>
          exact grows_of_checkpointed accepted (builds post found (accepted ▸ rfl))

/-- In every run whose accepted checkpoints build on the ones before, the room keeps the
operations of every rejected batch that was retired. -/
theorem retired_batches_stay (loro : Loro) (exporter : Exporter)
    (faithful : exporter.Faithful loro) (devices : List String) {events : List FleetEvent}
    (builds : EveryStep (Fleet.step loro exporter) (BuildsOn loro) (start devices) events) :
    EveryState (Fleet.step loro exporter) (KeepsRetired loro) (start devices) events :=
  everyState_of_everyStep (fun published => published.step faithful) Published.keepsRetired
    (published_start devices) builds

/-! ## A library for examples -/

/-- Each byte is marked, and a zero ends the update. -/
def framed (updates : List Update) : List UInt8 :=
  updates.flatMap fun update => update.flatMap (fun byte => [1, byte]) ++ [0]

def unframe : Update → List UInt8 → List Update
  | update, 0 :: bytes => update :: unframe [] bytes
  | update, _ :: byte :: bytes => unframe (update ++ [byte]) bytes
  | _, _ => []

theorem unframe_append (before update : Update) (bytes : List UInt8) :
    unframe before (update.flatMap (fun byte => [1, byte]) ++ [0] ++ bytes) =
      (before ++ update) :: unframe [] bytes := by
  induction update generalizing before with
  | nil => rw [List.append_nil]; rfl
  | cons byte update ih =>
      have moved := ih (before ++ [byte])
      rw [List.append_assoc before] at moved
      exact moved

/-- What was framed is read back. -/
theorem unframe_framed (updates : List Update) : unframe [] (framed updates) = updates := by
  induction updates with
  | nil => rfl
  | cons update updates ih =>
      have first := unframe_append [] update (framed updates)
      rw [ih] at first
      exact first

/-- Updates that build on nothing, in frames. -/
def framedLoro : Loro where
  deps _ := []
  content := unframe []
  decode bytes := some (unframe [] bytes)

def framedExporter : Exporter where
  snapshot := framed
  vector := framed

theorem framed_faithful : framedExporter.Faithful framedLoro := by
  intro updates update listed
  change update ∈ unframe [] (framed updates)
  rwa [unframe_framed]

instance (fleet : Fleet) : (event : FleetEvent) → Decidable (fleet.BuildsOn framedLoro event)
  | .commit _ => inferInstanceAs (Decidable (∀ engine ∈ fleet.engines[_]?, _))
  | .commitAbandoned _ => inferInstanceAs (Decidable (∀ post ∈ fleet.abandoned[_]?, _))
  | .edit _ _ _ => .isTrue trivial
  | .push _ => .isTrue trivial
  | .receive _ _ => .isTrue trivial
  | .catchUp _ _ => .isTrue trivial
  | .post _ _ => .isTrue trivial
  | .answered _ _ => .isTrue trivial
  | .abandon _ => .isTrue trivial

/-- A batch is rejected and published; the other engine reads the checkpoint before it
posts its own. -/
def readsBeforePosting : List FleetEvent := [
  .edit 0 "rejected" [], .push 0, .post 0 0, .commit 0, .answered 0 [], .catchUp 1 0,
  .edit 1 "small" [1], .push 1, .post 1 1, .commit 1]

theorem retired_batches_stay_of_reading :
    EveryState (Fleet.step framedLoro framedExporter) (KeepsRetired framedLoro)
      (start ["a", "b"]) readsBeforePosting :=
  retired_batches_stay framedLoro framedExporter framed_faithful ["a", "b"]
    (everyStep_of_checkSteps (fun fleet event => decide (fleet.BuildsOn framedLoro event))
      (fun _ _ checked => of_decide_eq_true checked) (by decide +kernel))

/-- A batch is too large and is published; the other engine, which was never told of
the checkpoint, posts its own. -/
def postsWithoutReading (bytes : Update) : List FleetEvent := [
  .edit 0 "large" bytes, .post 0 0, .commit 0, .answered 0 [],
  .edit 1 "small" [1], .post 1 0, .commit 1]

theorem framed_ne_nil {updates : List Update} (some_update : updates ≠ []) :
    framed updates ≠ [] := by
  intro nothing
  apply some_update
  rw [← unframe_framed updates, nothing]
  rfl

/-- A room without rows takes a checkpoint that covers none. -/
theorem checkpointed_of_no_rows (no_rows : room.rows = []) (floor : room.seqFloor = 0)
    {frontier snapshot : List UInt8} (nonempty : snapshot ≠ []) (covered : List (String × Update))
    (committed : Bool) :
    room.checkpointed { seqCovered := 0, frontier, snapshot, covered, committed } =
      some { room with checkpoint := some { seqCovered := 0, frontier, bytes := snapshot } } := by
  unfold ChatRoom.checkpointed ChatRoom.commitCheckpoint
  simp [no_rows, floor, nonempty]

theorem exists_run_postsWithoutReading {bytes : Update}
    (oversized : maxPushBytes < bytes.length) :
    ∃ last, run (Fleet.step framedLoro framedExporter) (start ["a", "b"])
        (postsWithoutReading bytes) = some last ∧
      last.retired = [bytes] ∧ last.room.operations framedLoro = [[1]] := by
  have fits : maxPushBytes ≠ 0 := by decide
  have large : framed [bytes] ≠ [] := framed_ne_nil nofun
  have small : framed [[1]] ≠ [] := framed_ne_nil nofun
  have no_rows : ChatRoom.initial.rows = [] := rfl
  have floor : ChatRoom.initial.seqFloor = 0 := rfl
  simp [postsWithoutReading, run, Fleet.step, start, withEngine, oversized, fits,
    Document.ready, Document.importRow, Document.empty, Document.settle, framedLoro,
    PostingEngine.reject, PostingEngine.startPost, framedExporter, checkpointed_of_no_rows,
    no_rows, floor, large, small, ChatRoom.operations, ChatRoom.published, unframe_framed]

theorem oversized_batch_is_dropped :
    ¬ EveryState (Fleet.step framedLoro framedExporter) (KeepsRetired framedLoro)
      (start ["a", "b"]) (postsWithoutReading (List.replicate (maxPushBytes + 1) 0)) := by
  intro every
  have oversized : maxPushBytes <
      (List.replicate (maxPushBytes + 1) (0 : UInt8)).length := by
    rw [List.length_replicate]
    exact Nat.lt_succ_self _
  obtain ⟨last, ran, retired, operations⟩ := exists_run_postsWithoutReading oversized
  have kept := every.final ran _ (retired ▸ List.mem_singleton_self _)
  rw [operations, List.mem_singleton] at kept
  have lengths := congrArg List.length kept
  rw [List.length_replicate] at lengths
  exact absurd lengths (by decide)

end Fleet

end Zeron.Chat
