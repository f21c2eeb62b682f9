import Zeron.Chat.Publication

/-!
# The document of a chat

A document is the set of the updates that it has applied.  An update that builds
on others which are not there yet is parked, and applied once they are; a
snapshot brings all of its updates at once.  An export leaves parked updates out.
-/

namespace Zeron.Chat

/-- One update of a document, as an opaque blob. -/
abbrev Update := List UInt8

/-- What the document library reads from blobs. -/
structure Loro where
  /-- The updates that an update builds on. -/
  deps : Update → List Update
  /-- The updates in a snapshot. -/
  content : List UInt8 → List Update
  /-- The updates that a version vector names; `none` if it cannot be decoded. -/
  decode : List UInt8 → Option (List Update)

/-- A small library, for examples: an update is its own byte, with the bytes of the
updates that it builds on behind it; snapshots and vectors list updates that build
on nothing. -/
def Loro.bytewise : Loro where
  deps update := update.tail.map fun byte => [byte]
  content bytes := bytes.map fun byte => [byte]
  decode bytes := some (bytes.map fun byte => [byte])

structure Document where
  applied : List Update
  parked : List Update

inductive RowImportOutcome where
  | applied
  | pendingDependencies

namespace Document

def empty : Document :=
  { applied := [], parked := [] }

def has (doc : Document) (update : Update) : Bool :=
  doc.applied.contains update

/-- All that the update builds on is there. -/
def ready (loro : Loro) (doc : Document) (update : Update) : Bool :=
  (loro.deps update).all doc.has

/-- Apply parked updates as long as one is ready. -/
def settle (loro : Loro) : Nat → Document → Document
  | 0, doc => doc
  | fuel + 1, doc =>
      match doc.parked.find? (doc.ready loro) with
      | none => doc
      | some update =>
          settle loro fuel
            { applied := update :: doc.applied, parked := doc.parked.erase update }

/-- `import` of one update. -/
def importRow (loro : Loro) (doc : Document) (update : Update) : Document × RowImportOutcome :=
  if doc.has update then (doc, .applied)
  else if doc.ready loro update then
    (settle loro doc.parked.length { doc with applied := update :: doc.applied }, .applied)
  else ({ doc with parked := update :: doc.parked }, .pendingDependencies)

/-- `import` of a snapshot. -/
def importCheckpoint (loro : Loro) (doc : Document) (bytes : List UInt8) : Document :=
  settle loro doc.parked.length
    { doc with applied := loro.content bytes ++ doc.applied }

/-- `contains_frontier`.  A frontier that cannot be read, or that names nothing,
is not contained. -/
def containsFrontier (loro : Loro) (doc : Document) (frontier : List UInt8) : Bool :=
  match loro.decode frontier with
  | none => false
  | some named => !named.isEmpty && named.all doc.has

variable {update : Update} {doc : Document}

@[simp]
theorem has_iff : doc.has update = true ↔ update ∈ doc.applied :=
  List.contains_iff_mem

theorem mem_settle (loro : Loro) (fuel : Nat) (applied : update ∈ doc.applied) :
    update ∈ (settle loro fuel doc).applied := by
  induction fuel generalizing doc with
  | zero => exact applied
  | succ fuel ih =>
      unfold settle
      split
      · exact applied
      · exact ih (List.mem_cons_of_mem _ applied)

/-- An import takes nothing away. -/
theorem mem_importRow (loro : Loro) (applied : update ∈ doc.applied) (other : Update) :
    update ∈ (doc.importRow loro other).1.applied := by
  unfold importRow
  split
  · exact applied
  · split
    · exact mem_settle loro _ (List.mem_cons_of_mem _ applied)
    · exact applied

/-- An update that is not parked is applied. -/
theorem self_mem_importRow {loro : Loro} (applied : (doc.importRow loro update).2 = .applied) :
    update ∈ (doc.importRow loro update).1.applied := by
  unfold importRow at applied ⊢
  split
  · exact has_iff.mp ‹_›
  · rename_i absent
    rw [if_neg absent] at applied
    split
    · exact mem_settle loro _ List.mem_cons_self
    · rename_i unready
      rw [if_neg unready] at applied
      cases applied

theorem mem_importCheckpoint (loro : Loro) (applied : update ∈ doc.applied) (bytes : List UInt8) :
    update ∈ (doc.importCheckpoint loro bytes).applied :=
  mem_settle loro _ (List.mem_append_right _ applied)

theorem content_mem_importCheckpoint {loro : Loro} (doc : Document) {bytes : List UInt8}
    (held : update ∈ loro.content bytes) :
    update ∈ (doc.importCheckpoint loro bytes).applied :=
  mem_settle loro _ (List.mem_append_left _ held)

/-- A contained frontier names applied updates, and some. -/
theorem containsFrontier_iff {loro : Loro} {frontier : List UInt8} :
    doc.containsFrontier loro frontier = true ↔
      ∃ named, loro.decode frontier = some named ∧ named ≠ [] ∧ named ⊆ doc.applied := by
  unfold containsFrontier
  cases loro.decode frontier with
  | none => simp
  | some named => simp [List.subset_def]

end Document

end Zeron.Chat

/-!
## The state of a chat client

What the socket session and the HTTPS cycle of a chat client share: the cursor,
the flags of repairs and reads, the document with its persister, and the replay
queue.  The functions here are what both do to it under its lock.
-/

namespace Zeron.Chat

/-- The log as a room answers it. -/
structure StateHeader where
  headSeq : Nat
  checkpointSeq : Nat
  /-- Zero without a checkpoint. -/
  checkpointSize : Nat
  /-- How often the log was wiped before the answer.  It is not sent. -/
  wipes : Nat
  deriving DecidableEq

/-- Where the amnesty puts a cursor. -/
def StateHeader.clampTo (state : StateHeader) : Nat :=
  if 0 < state.checkpointSize then state.checkpointSeq else 0

inductive CatchUpPlan where
  /-- The document has the checkpoint, or there is none. -/
  | rowsOnly (after : Nat)
  | checkpointThenRows (after : Nat)

def CatchUpPlan.after : CatchUpPlan → Nat
  | .rowsOnly after | .checkpointThenRows after => after

/-- `plan_catch_up`. -/
def planCatchUp (cursor : Nat) (state : StateHeader) (frontierContained : Bool) : CatchUpPlan :=
  -- A cursor ahead of the room means that the room lost its log.
  let cursor := if state.headSeq < cursor then 0 else cursor
  if state.checkpointSize = 0 then .rowsOnly cursor
  else if frontierContained then .rowsOnly (max cursor state.checkpointSeq)
  else .checkpointThenRows state.checkpointSeq

inductive ChatEvent where
  | caughtUp (headSeq : Nat)
  /-- With the wipe that it is about, which the event does not carry. -/
  | serverReset (wipes : Nat)

/-- The wipe that an event signals. -/
def ChatEvent.signalled : ChatEvent → Option Nat
  | .serverReset wipes => some wipes
  | .caughtUp _ => none

/-- `Shared` without the queue and without what only the presentation of rows reads. -/
structure Shared where
  cursor : Nat
  caughtUp : Bool
  refreshRequested : Nat
  refreshCompleted : Nat
  gapRepair : Bool
  rowsReqOutstanding : Bool
  rowGapGeneration : Nat
  httpReplayEpoch : Nat
  needsCheckpoint : Bool
  causalGapGeneration : Nat

/-- A chat client, with its sink. -/
structure ChatClient where
  shared : Shared
  doc : Document
  /-- The cursor of the persister: that of the next snapshot. -/
  applied : Nat
  /-- The snapshot that the client started from was saved by this persister. -/
  cursorVerified : Bool
  amnestyDone : Bool
  /-- A backfill of this client has completed. -/
  resumed : Bool
  queue : ReplayQueue
  /-- `retry_at` is set. -/
  retrying : Bool
  events : List ChatEvent
  serverResets : Nat
  /-- The head of the room when each ticket was issued, for the statements only. -/
  issued : List Nat
  /-- The latest head of the room at the start of a completed read. -/
  completedRead : Nat

/-- A read of the room: the ticket that it serves, and the head of the room when it
was started, for the statements only. -/
structure RoomRead where
  ticket : Nat
  started : Nat

inductive ServerFrame where
  | state (header : StateHeader) (frontier : List UInt8)
  | row (seq : Nat) (bytes : Update)
  | rowsDone (headSeq : Nat)
  | ack (batchId : String) (seq : Nat)
  | error (code : ErrorCode) (batchId : String)
  deriving DecidableEq

inductive ClientFrame where
  | hello
  | rowsReq (after : Nat) (excludeOwn : Bool)
  | push (batchId : String) (bytes : Update)

/-- What a pull remembers of its start. -/
structure Pull where
  cursor : Nat
  replayEpoch : Nat
  gapGeneration : Nat
  read : RoomRead

namespace ChatClient

/-- A client that was just constructed on a document. -/
def opened (doc : Document) (cursor : Nat) (verified : Bool) (queue : ReplayQueue) :
    ChatClient where
  shared :=
    { cursor, caughtUp := false, refreshRequested := 0, refreshCompleted := 0,
      gapRepair := false, rowsReqOutstanding := false, rowGapGeneration := 0,
      httpReplayEpoch := 0, needsCheckpoint := false, causalGapGeneration := 0 }
  doc := doc
  -- A cursor that an older client wrote is not certified.
  applied := if verified then cursor else 0
  cursorVerified := verified
  amnestyDone := false
  resumed := false
  queue := queue
  retrying := false
  events := []
  serverResets := 0
  issued := []
  completedRead := 0

/-! ## Reads the host asks for -/

/-- `request_catch_up`. -/
def requestCatchUp (client : ChatClient) (head : Nat) : ChatClient :=
  { client with
    shared := { client.shared with refreshRequested := client.shared.refreshRequested + 1 }
    issued := client.issued ++ [head] }

/-! ## Cursors -/

/-- `persist_with_cursor` and `applied` of the persister. -/
def persistCursor (client : ChatClient) (cursor : Nat) : ChatClient :=
  { client with applied := max client.applied cursor }

/-- `reset_cursor`, which is only called with zero. -/
def resetCursor (client : ChatClient) : ChatClient :=
  { client with applied := 0 }

def withCursor (client : ChatClient) (cursor : Nat) : ChatClient :=
  { client with shared := { client.shared with cursor } }

def flagGap (client : ChatClient) : ChatClient :=
  { client with shared := { client.shared with
    gapRepair := true
    rowGapGeneration := client.shared.rowGapGeneration + 1 } }

/-- `apply_cursor_amnesty`. -/
def applyCursorAmnesty (client : ChatClient) (state : StateHeader) : ChatClient :=
  let asked := { client with amnestyDone := true }
  if client.amnestyDone || client.cursorVerified then asked
  else if state.clampTo < client.shared.cursor then asked.resetCursor.withCursor state.clampTo
  else asked

/-- `apply_remote_row`.  A row behind a gap is imported, but the cursor stays. -/
def applyRemoteRow (loro : Loro) (client : ChatClient) (bytes : Update) (seq : Nat) :
    ChatClient :=
  let gap := client.shared.cursor + 1 < seq
  let cursor := if gap then client.shared.cursor else max client.shared.cursor seq
  let client := if gap then client.flagGap else client
  match client.doc.importRow loro bytes with
  | (doc, .applied) =>
      ({ client with doc }.persistCursor cursor).withCursor (max client.shared.cursor cursor)
  | (doc, .pendingDependencies) =>
      { client with
        doc
        shared := { client.shared with
          needsCheckpoint := true
          causalGapGeneration := client.shared.causalGapGeneration + 1 } }

/-- `apply_checkpoint`. -/
def applyCheckpoint (loro : Loro) (client : ChatClient) (bytes : List UInt8) (cursor : Nat) :
    ChatClient :=
  { client with doc := client.doc.importCheckpoint loro bytes }.persistCursor cursor

/-- A full catch-up may have brought what was missing, unless more is since. -/
def clearNeedsCheckpoint (client : ChatClient) (generation : Nat) : ChatClient :=
  if client.shared.causalGapGeneration = generation then
    { client with shared := { client.shared with needsCheckpoint := false } }
  else client

/-- The frontier verdict of a catch-up: a document in repair has no frontier. -/
def contained (loro : Loro) (client : ChatClient) (state : StateHeader) (frontier : List UInt8) :
    Bool :=
  decide (state.checkpointSize = 0) ||
    (!client.shared.needsCheckpoint && client.doc.containsFrontier loro frontier)

/-! ## Frames -/

/-- `ACK`. -/
def onAck (client : ChatClient) (batchId : String) (seq : Nat) (deletes : Bool) : ChatClient :=
  let queue := (client.queue.acknowledge batchId deletes).drain
  let client := { client with
    queue
    retrying := client.retrying || !deletes || queue.quotaBlocked }
  let client :=
    if client.shared.cursor + 1 < seq then client.flagGap
    else client.withCursor (max client.shared.cursor seq)
  client.persistCursor client.shared.cursor

/-- `ERROR`; a verdict that cannot be written ends the session. -/
def onError (client : ChatClient) (code : ErrorCode) (batchId : String) (marks : Bool) :
    Option ChatClient :=
  if code.permanent && batchId != "" then
    (client.queue.reject batchId marks).map fun queue => { client with queue }
  else if code = .quota then
    some { client with queue := { client.queue with quotaBlocked := true }, retrying := true }
  else some client

/-- `handle_frame`; `none` ends the session.  A second state only refreshes the
view of the room that the statistics show. -/
def handleFrame (loro : Loro) (client : ChatClient) (disk : Bool) :
    ServerFrame → Option ChatClient
  | .row seq bytes => some (client.applyRemoteRow loro bytes seq)
  | .ack batchId seq => some (client.onAck batchId seq disk)
  | .rowsDone _ =>
      some { client with shared := { client.shared with rowsReqOutstanding := false } }
  | .state _ _ => some client
  | .error code batchId => client.onError code batchId disk

/-! ## The socket session -/

/-- `run_session` from the state on, up to the rows request: the client, the plan,
and whether the request leaves out the own rows. -/
def joinRoom (loro : Loro) (client : ChatClient) (state : StateHeader)
    (frontier : List UInt8) : ChatClient × CatchUpPlan × Bool :=
  let client := { client with shared := { client.shared with rowsReqOutstanding := false } }
  let client :=
    if state.headSeq < client.shared.cursor then
      { client.resetCursor with
        serverResets := client.serverResets + 1
        events := client.events ++ [.serverReset state.wipes] }
    else client
  let client := client.applyCursorAmnesty state
  let repairs := client.shared.needsCheckpoint
  let plan := planCatchUp client.shared.cursor state (client.contained loro state frontier)
  (client.withCursor plan.after, plan, client.resumed && !repairs)

/-- The end of the backfill. -/
def finishCatchUp (client : ChatClient) (read : RoomRead) (headSeq : Nat) : ChatClient :=
  let client := { client with resumed := true }
  if client.shared.needsCheckpoint then client
  else
    let caught := { client with
      shared := { client.shared with caughtUp := true }
      events := client.events ++ [.caughtUp headSeq]
      completedRead := max client.completedRead read.started }
    if !client.shared.gapRepair && decide (headSeq ≤ client.shared.cursor) then
      { caught with shared := { caught.shared with
        refreshCompleted := max caught.shared.refreshCompleted read.ticket } }
    else caught

/-- `MAX_GAP_REPAIRS_PER_SESSION`. -/
def maxGapRepairs : Nat := 3

/-- `maybe_repair_gap`: the repairs of the session so far and the request; `none`
ends the session. -/
def maybeRepairGap (client : ChatClient) (repairs : Nat) :
    ChatClient × Option (Nat × List ClientFrame) :=
  if client.shared.needsCheckpoint then (client, none)
  else if client.shared.rowsReqOutstanding || !client.shared.gapRepair then
    (client, some (repairs, []))
  else
    let client := { client with shared := { client.shared with
      gapRepair := false
      rowsReqOutstanding := true } }
    if maxGapRepairs < repairs + 1 then (client, none)
    else (client, some (repairs + 1, [.rowsReq client.shared.cursor false]))

/-- The top of the steady loop: a wake starts a read once no other is under way. -/
def startRefresh (client : ChatClient) (refresh : Option RoomRead) (head : Nat) :
    ChatClient × Option RoomRead × List ClientFrame :=
  if refresh.isNone && decide (client.shared.refreshCompleted < client.shared.refreshRequested) &&
      !client.shared.rowsReqOutstanding then
    ({ client with shared := { client.shared with rowsReqOutstanding := true } },
      some { ticket := client.shared.refreshRequested, started := head },
      [.rowsReq client.shared.cursor false])
  else (client, refresh, [])

/-- The answer to the read of a wake. -/
def finishRefresh (client : ChatClient) (read : RoomRead) (headSeq : Nat) : ChatClient :=
  if decide (headSeq ≤ client.shared.cursor) && !client.shared.needsCheckpoint &&
      !client.shared.gapRepair then
    { client with
      shared := { client.shared with
        refreshCompleted := max client.shared.refreshCompleted read.ticket }
      completedRead := max client.completedRead read.started }
  else if client.shared.cursor < headSeq then client.flagGap
  else client

/-! ## The HTTPS cycle -/

/-- The answer to a post. -/
def onPosted (client : ChatClient) (batchId : String) (seq : Nat) (deletes : Bool) :
    ChatClient :=
  let client := { client with queue := client.queue.acknowledge batchId deletes }
  let client :=
    if seq ≤ client.shared.cursor + 1 then client.withCursor (max client.shared.cursor seq)
    else client
  client.persistCursor client.shared.cursor

def startPull (client : ChatClient) (head : Nat) : Pull where
  cursor := client.shared.cursor
  replayEpoch := client.shared.httpReplayEpoch
  gapGeneration := client.shared.rowGapGeneration
  read := { ticket := client.shared.refreshRequested, started := head }

/-- A frame of the answer behind its state. -/
def pullFrame (loro : Loro) (pull : Pull) (client : ChatClient) : ServerFrame → ChatClient
  | .row seq bytes => client.applyRemoteRow loro bytes seq
  | .rowsDone headSeq =>
      if client.shared.httpReplayEpoch = pull.replayEpoch ∧ headSeq ≤ client.shared.cursor ∧
          client.shared.needsCheckpoint = false then
        let gapRepair := client.shared.gapRepair &&
          decide (client.shared.rowGapGeneration ≠ pull.gapGeneration)
        { client with
          shared := { client.shared with
            caughtUp := true
            gapRepair
            refreshCompleted :=
              if gapRepair then client.shared.refreshCompleted
              else max client.shared.refreshCompleted pull.read.ticket }
          completedRead := max client.completedRead pull.read.started }
      else client
  | _ => client

def pullFrames (loro : Loro) (pull : Pull) (client : ChatClient) (frames : List ServerFrame) :
    ChatClient :=
  frames.foldl (pullFrame loro pull) client

/-- The cursor that a pull leaves, and its frames. -/
def finishPull (loro : Loro) (pull : Pull) (client : ChatClient) (state : StateHeader)
    (repairGeneration after : Nat) (frames : List ServerFrame) : ChatClient :=
  let cursor :=
    if state.headSeq < client.shared.cursor then after else max client.shared.cursor after
  ((client.withCursor cursor).clearNeedsCheckpoint repairGeneration).pullFrames loro pull frames

end ChatClient

end Zeron.Chat
