import Zeron.Chat.Replay
import Zeron.Chat.SyncClient

/-!
# A chat client and its room

The whole of one room and one client of it: a socket with its frames in both
directions, an HTTPS cycle with its request under way, the snapshot on disk, and
the other devices, which append rows and commit checkpoints at any time.  A step
is what one party does between two waits.
-/

namespace Zeron.Chat

open Transition

/-- Where `run_session` is. -/
inductive SessionPhase where
  /-- Before the state. -/
  | hello
  /-- The rows request is out, and pending pushes go out. -/
  | joining (state : StateHeader) (plan : CatchUpPlan) (repairGeneration : Nat) (read : RoomRead)
  /-- The checkpoint is fetched; frames wait for it. -/
  | fetching (state : StateHeader) (repairGeneration : Nat) (read : RoomRead)
      (blob : Option (List UInt8)) (buffered : List ServerFrame)
  /-- The waiting frames are handled; `head` is that of the end of the rows, once met. -/
  | draining (read : RoomRead) (head : Option Nat) (buffered : List ServerFrame)
  | backfill (read : RoomRead)
  | steady (gapRepairs : Nat) (refresh : Option RoomRead)

structure Socket where
  outbound : List ClientFrame
  inbound : List ServerFrame
  /-- The room has not closed the socket. -/
  isOpen : Bool
  /-- The room has answered the hello. -/
  ready : Bool
  phase : SessionPhase
  pushes : PushSession

/-- Where `spawn_offline_sync` is. -/
inductive HttpPhase where
  | pushing (batches : List PendingPush) (posted : Option PendingPush)
      (answer : Option (String × Nat))
  | pulling (pull : Pull) (answer : Option (List ServerFrame))
  | fetching (pull : Pull) (state : StateHeader) (repairGeneration after : Nat)
      (frames : List ServerFrame) (blob : Option (List UInt8))

/-- What the store has of the document. -/
structure SavedSnapshot where
  updates : List Update
  cursor : Nat
  verified : Bool

structure SyncRoom where
  room : ChatRoom
  /-- All rows since the last wipe, for the statements only. -/
  accepted : List LogRow
  wipes : Nat
  client : ChatClient
  snapshot : SavedSnapshot
  /-- The cursor that a flush under way has read. -/
  sampled : Option Nat
  socket : Option Socket
  http : Option HttpPhase

inductive SyncEvent where
  /-- A push by another device, or over another connection. -/
  | append (device batchId : String) (bytes : Update)
  | commit (seqCovered : Nat) (frontier bytes : List UInt8)
  | reset
  | edit (batchId : String) (bytes : Update) (persists marks : Bool)
  | requestCatchUp
  | probe
  | dial
  /-- The room takes the next frame of the socket. -/
  | serve (admitted : Bool)
  | receive (disk : Bool)
  | send (persists : Bool)
  | proceed
  | download
  | fetched
  | drain (disk : Bool)
  | nudge
  | retry (persists : Bool)
  | turn
  | disconnect
  | sync
  | post (persists : Bool)
  | servePost
  | posted (disk : Bool)
  | pull
  | servePull
  /-- The first frames of the answer arrive. -/
  | pulled (count : Nat)
  | httpDownload
  | httpFetched
  | httpFailed
  | sample
  | flush (saves : Bool)
  | restart

namespace ChatRoom

/-- The header of a state answer. -/
def stateHeader (room : ChatRoom) (wipes : Nat) : StateHeader where
  headSeq := room.headSeq
  checkpointSeq := room.checkpointSeq
  checkpointSize := (room.checkpoint.map fun checkpoint => checkpoint.bytes.length).getD 0
  wipes := wipes

def frontier (room : ChatRoom) : List UInt8 :=
  (room.checkpoint.map Checkpoint.frontier).getD []

def stateFrame (room : ChatRoom) (wipes : Nat) : ServerFrame :=
  .state (room.stateHeader wipes) room.frontier

/-- The answer to a rows request. -/
def rowFrames (room : ChatRoom) (after : Nat) (excluded : Option String) :
    List ServerFrame :=
  ((room.rowsAfter after).filter fun row => some row.device != excluded).map fun row =>
    .row row.seq row.bytes

end ChatRoom

/-- The answer of the room to a push. -/
inductive PushAnswer where
  | ack (seq : Nat)
  | error (code : ErrorCode)

namespace SyncRoom

def start : SyncRoom where
  room := .initial
  accepted := []
  wipes := 0
  client := .opened .empty 0 false .empty
  snapshot := { updates := [], cursor := 0, verified := false }
  sampled := none
  socket := none
  http := none

/-! ## The room -/

/-- The row goes to the socket of the client, if the room has answered its hello. -/
def relay (socket : Option Socket) (seq : Nat) (bytes : Update) : Option Socket :=
  socket.map fun socket =>
    if socket.isOpen && socket.ready then
      { socket with inbound := socket.inbound ++ [.row seq bytes] }
    else socket

/-- A push that the quota has admitted.  `own` if it came over the client's socket,
which then gets no copy. -/
def pushRow (state : SyncRoom) (own : Bool) (device batchId : String) (bytes : Update) :
    SyncRoom × PushAnswer :=
  if batchId = "" ∨ 128 < (Wire.utf16 batchId).length then (state, .error .badPush)
  else
    match state.room.appendRow device batchId bytes with
    | (room, .appended seq) =>
        ({ state with
            room
            accepted := state.accepted ++ [{ seq, device, batchId, bytes }]
            socket := if own then state.socket else relay state.socket seq bytes }, .ack seq)
    | (_, .dup seq) => (state, .ack seq)
    | (_, .rejected error) =>
        (state, .error (if error = "empty" then .empty else .tooLarge))

/-- The room handles a frame of the client's socket. -/
def serveFrame (device : String) (state : SyncRoom) (socket : Socket) (admitted : Bool) :
    ClientFrame → SyncRoom
  | .hello =>
      { state with socket := some { socket with
        ready := true
        inbound := socket.inbound ++ [state.room.stateFrame state.wipes] } }
  | .rowsReq after excludeOwn =>
      let rows := state.room.rowFrames after (if excludeOwn then some device else none)
      { state with socket := some { socket with
        inbound := socket.inbound ++ rows ++ [.rowsDone state.room.headSeq] } }
  | .push batchId bytes =>
      if admitted then
        let pushed := { state with socket := some socket }.pushRow true device batchId bytes
        let answer := match pushed.2 with
          | .ack seq => .ack batchId seq
          | .error code => .error code batchId
        { pushed.1 with socket := some { socket with inbound := socket.inbound ++ [answer] } }
      else
        { state with socket := some { socket with
          inbound := socket.inbound ++ [.error .quota batchId] } }

/-! ## The session -/

/-- The session has joined. -/
def joined : SessionPhase → Bool
  | .hello => false
  | _ => true

/-- The end of a session, from inside or outside. -/
def leave (state : SyncRoom) (client : ChatClient) (phase : SessionPhase) : SyncRoom :=
  let epoch := client.shared.httpReplayEpoch + if joined phase then 1 else 0
  { state with
    client := { client with shared := { client.shared with httpReplayEpoch := epoch } }
    socket := none }

/-- `maybe_repair_gap` and the top of the steady loop. -/
def steadyTurn (state : SyncRoom) (client : ChatClient) (socket : Socket) (repairs : Nat)
    (refresh : Option RoomRead) : SyncRoom :=
  match client.maybeRepairGap repairs with
  | (client, none) => state.leave client (.steady repairs refresh)
  | (client, some (repairs, requests)) =>
      let (client, refresh, reads) := client.startRefresh refresh state.room.headSeq
      { state with
        client
        socket := some { socket with
          outbound := socket.outbound ++ requests ++ reads
          phase := .steady repairs refresh } }

/-- The session meets the end of the rows. -/
def endBackfill (state : SyncRoom) (client : ChatClient) (socket : Socket) (read : RoomRead)
    (headSeq : Nat) : SyncRoom :=
  state.steadyTurn (client.finishCatchUp read headSeq) socket 0 none

/-- One push of the session. -/
def transmit (state : SyncRoom) (socket : Socket) (push : PendingPush) (persists : Bool)
    (pushes : PushSession) : SyncRoom :=
  let secured := state.client.queue.ensureDurable push persists
  let client := { state.client with queue := secured.1 }
  if secured.2 then
    { state with
      client
      socket := some { socket with
        outbound := socket.outbound ++ [.push push.batchId push.bytes]
        pushes } }
  else state.leave client socket.phase

/-- `push_pending` starts. -/
def startPushes (queue : ReplayQueue) (inFlight : List String) : PushSession :=
  let inFlight := inFlight.filter queue.queued
  { inFlight, sending := queue.unsent inFlight }

/-- `run_session` on the state of the room. -/
def join (loro : Loro) (state : SyncRoom) (socket : Socket) (header : StateHeader)
    (frontier : List UInt8) : SyncRoom :=
  let (client, plan, excludeOwn) := state.client.joinRoom loro header frontier
  let read : RoomRead :=
    { ticket := client.shared.refreshRequested, started := state.room.headSeq }
  { state with
    client
    socket := some { socket with
      outbound := socket.outbound ++ [.rowsReq plan.after excludeOwn]
      phase := .joining header plan client.shared.causalGapGeneration read
      pushes := startPushes client.queue [] } }

/-- A frame in the steady state. -/
def receiveSteady (loro : Loro) (state : SyncRoom) (socket : Socket) (repairs : Nat)
    (refresh : Option RoomRead) (disk : Bool) (frame : ServerFrame) : SyncRoom :=
  match state.client.handleFrame loro disk frame with
  | none => state.leave state.client socket.phase
  | some client =>
      match frame, refresh with
      | .rowsDone headSeq, some read =>
          state.steadyTurn (client.finishRefresh read headSeq) socket repairs none
      | _, _ => state.steadyTurn client socket repairs refresh

/-- The session takes a frame. -/
def receiveFrame (loro : Loro) (state : SyncRoom) (socket : Socket) (disk : Bool)
    (frame : ServerFrame) : Option SyncRoom :=
  match socket.phase, frame with
  | .hello, .state header frontier => some (state.join loro socket header frontier)
  -- A broadcast before the state is skipped.
  | .hello, _ => some { state with socket := some socket }
  | .fetching header generation read blob buffered, frame =>
      some { state with socket := some { socket with
        phase := .fetching header generation read blob (buffered ++ [frame]) } }
  | .backfill read, .rowsDone headSeq =>
      some (state.endBackfill state.client socket read headSeq)
  | .backfill _, frame =>
      match state.client.handleFrame loro disk frame with
      | none => some (state.leave state.client socket.phase)
      | some client => some { state with client, socket := some socket }
  | .steady repairs refresh, frame =>
      some (state.receiveSteady loro socket repairs refresh disk frame)
  | .joining _ _ _ _, _ | .draining _ _ _, _ => none

/-- The checkpoint is there. -/
def importFetched (loro : Loro) (state : SyncRoom) (socket : Socket) (header : StateHeader)
    (generation : Nat) (read : RoomRead) (blob : List UInt8) (buffered : List ServerFrame) :
    SyncRoom :=
  let client := state.client.applyCheckpoint loro blob header.checkpointSeq
  let client := client.withCursor (max client.shared.cursor header.checkpointSeq)
  { state with
    client := client.clearNeedsCheckpoint generation
    socket := some { socket with phase := .draining read none buffered } }

/-- The next frame that waited for the checkpoint. -/
def drainFrame (loro : Loro) (state : SyncRoom) (socket : Socket) (read : RoomRead)
    (head : Option Nat) (disk : Bool) : List ServerFrame → SyncRoom
  | [] =>
      match head with
      | some headSeq => state.endBackfill state.client socket read headSeq
      | none => { state with socket := some { socket with phase := .backfill read } }
  | .rowsDone headSeq :: buffered =>
      match head with
      | none =>
          { state with socket := some { socket with
            phase := .draining read (some headSeq) buffered } }
      | some _ =>
          { state with
            client := { state.client with shared :=
              { state.client.shared with rowsReqOutstanding := false } }
            socket := some { socket with phase := .draining read head buffered } }
  | frame :: buffered =>
      match state.client.handleFrame loro disk frame with
      | none => state.leave state.client socket.phase
      | some client =>
          { state with
            client
            socket := some { socket with phase := .draining read head buffered } }

/-! ## The HTTPS cycle -/

/-- The state of a pull and, unless a checkpoint is to be fetched, its rows. -/
def pullState (loro : Loro) (state : SyncRoom) (pull : Pull) (header : StateHeader)
    (frontier : List UInt8) (frames : List ServerFrame) : SyncRoom :=
  let client := state.client.applyCursorAmnesty header
  if client.shared.cursor < pull.cursor ∧ pull.cursor ≤ header.headSeq then
    -- Asked above the repaired cursor: the next pull asks again.
    { state with client, http := none }
  else
    let generation := client.shared.causalGapGeneration
    let plan := planCatchUp pull.cursor header (client.contained loro header frontier)
    let client := if header.headSeq < pull.cursor then client.resetCursor else client
    match plan with
    | .rowsOnly after =>
        { state with
          client := client.finishPull loro pull header generation after frames
          http := none }
    | .checkpointThenRows after =>
        { state with
          client
          http := some (.fetching pull header generation after frames none) }

/-- The frames of a pull that arrived. -/
def pullAnswer (loro : Loro) (state : SyncRoom) (pull : Pull) : List ServerFrame → SyncRoom
  | [] => { state with http := none }
  | .state header frontier :: frames => state.pullState loro pull header frontier frames
  | _ :: frames =>
      { state with client := state.client.pullFrames loro pull frames, http := none }

/-- A new process on what the disk has. -/
def restart (loro : Loro) (state : SyncRoom) : SyncRoom :=
  let saved : Document := { applied := state.snapshot.updates, parked := [] }
  let doc := state.client.queue.outbox.rows.foldl
    (fun doc row => (doc.importRow loro row.bytes).1) saved
  { state with
    client := .opened doc state.snapshot.cursor state.snapshot.verified
      (.reload state.client.queue.outbox)
    sampled := none
    socket := none
    http := none }

def step (loro : Loro) (device : String) : Step SyncRoom SyncEvent
  | state, .append other batchId bytes => some (state.pushRow false other batchId bytes).1
  | state, .commit seqCovered frontier bytes =>
      some { state with room := state.room.write (.checkpoint seqCovered frontier bytes) }
  | state, .reset =>
      some { state with
        room := state.room.reset
        accepted := []
        wipes := state.wipes + 1
        socket := state.socket.map fun socket =>
          { socket with isOpen := false, outbound := [] } }
  | state, .edit batchId bytes persists marks =>
      -- A local commit builds on what the document has.
      if state.client.doc.ready loro bytes then
        some { state with client := { state.client with
          doc := (state.client.doc.importRow loro bytes).1
          queue := state.client.queue.enqueueBatch batchId bytes persists marks } }
      else none
  | state, .requestCatchUp =>
      some { state with client := state.client.requestCatchUp state.room.headSeq }
  | state, .probe =>
      some { state with client := { state.client with shared := { state.client.shared with
        httpReplayEpoch := state.client.shared.httpReplayEpoch + 1 } } }
  | state, .dial =>
      match state.socket with
      | some _ => none
      | none =>
          some { state with
            client := { state.client with shared :=
              { state.client.shared with rowsReqOutstanding := false } }
            socket := some {
              outbound := [.hello], inbound := [], isOpen := true, ready := false
              phase := .hello, pushes := { inFlight := [], sending := [] } } }
  | state, .serve admitted =>
      match state.socket with
      | some socket =>
          match socket.isOpen, socket.outbound with
          | true, frame :: outbound =>
              some (serveFrame device state { socket with outbound } admitted frame)
          | _, _ => none
      | none => none
  | state, .receive disk =>
      match state.socket with
      | some socket =>
          match socket.pushes.sending, socket.inbound with
          | [], frame :: inbound => state.receiveFrame loro { socket with inbound } disk frame
          | _, _ => none
      | none => none
  | state, .send persists =>
      match state.socket with
      | some socket =>
          match socket.pushes.sending with
          | push :: sending =>
              some (state.transmit socket push persists
                { inFlight := push.batchId :: socket.pushes.inFlight, sending })
          | [] => none
      | none => none
  | state, .proceed =>
      match state.socket with
      | some socket =>
          match socket.pushes.sending, socket.phase with
          | [], .joining header (.checkpointThenRows _) generation read =>
              some { state with socket := some { socket with
                phase := .fetching header generation read none [] } }
          | [], .joining _ (.rowsOnly _) generation read =>
              some { state with
                client := state.client.clearNeedsCheckpoint generation
                socket := some { socket with phase := .backfill read } }
          | _, _ => none
      | none => none
  | state, .download =>
      match state.socket, state.room.checkpoint with
      | some socket, some checkpoint =>
          match socket.phase with
          | .fetching header generation read _ buffered =>
              some { state with socket := some { socket with
                phase := .fetching header generation read (some checkpoint.bytes) buffered } }
          | _ => none
      | _, _ => none
  | state, .fetched =>
      match state.socket with
      | some socket =>
          match socket.phase with
          | .fetching header generation read (some blob) buffered =>
              some (state.importFetched loro socket header generation read blob buffered)
          | _ => none
      | none => none
  | state, .drain disk =>
      match state.socket with
      | some socket =>
          match socket.phase with
          | .draining read head buffered =>
              some (state.drainFrame loro socket read head disk buffered)
          | _ => none
      | none => none
  | state, .nudge =>
      match state.socket with
      | some socket =>
          match socket.phase, socket.pushes.sending with
          | .steady _ _, [] =>
              some { state with socket := some { socket with
                pushes := startPushes state.client.queue socket.pushes.inFlight } }
          | _, _ => none
      | none => none
  | state, .retry persists =>
      match state.socket with
      | some socket =>
          match socket.phase, socket.pushes.sending, state.client.retrying with
          | .steady _ _, [], true =>
              let state := { state with client := { state.client with retrying := false } }
              match state.client.queue.pending with
              | [] => some state
              | push :: _ => some (state.transmit socket push persists socket.pushes)
          | _, _, _ => none
      | none => none
  | state, .turn =>
      match state.socket with
      | some socket =>
          match socket.phase, socket.pushes.sending with
          | .steady repairs refresh, [] =>
              let (client, refresh, reads) :=
                state.client.startRefresh refresh state.room.headSeq
              some { state with
                client
                socket := some { socket with
                  outbound := socket.outbound ++ reads
                  phase := .steady repairs refresh } }
          | _, _ => none
      | none => none
  | state, .disconnect =>
      state.socket.map fun socket => state.leave state.client socket.phase
  | state, .sync =>
      match state.socket, state.http with
      | none, none => some { state with http := some (.pushing state.client.queue.pending none none) }
      | _, _ => none
  | state, .post persists =>
      match state.http with
      | some (.pushing (push :: batches) none none) =>
          let secured := state.client.queue.ensureDurable push persists
          some { state with
            client := { state.client with queue := secured.1 }
            http := some
              (if secured.2 then .pushing batches (some push) none else .pushing [] none none) }
      | _ => none
  | state, .servePost =>
      match state.http with
      | some (.pushing batches (some push) none) =>
          let pushed := state.pushRow false device push.batchId push.bytes
          some { pushed.1 with http := some (match pushed.2 with
            | .ack seq => .pushing batches (some push) (some (push.batchId, seq))
            | .error _ => .pushing [] none none) }
      | _ => none
  | state, .posted disk =>
      match state.http with
      | some (.pushing batches (some _) (some (batchId, seq))) =>
          some { state with
            client := state.client.onPosted batchId seq disk
            http := some (.pushing batches none none) }
      | _ => none
  | state, .pull =>
      match state.http with
      | some (.pushing [] none none) =>
          some { state with
            http := some (.pulling (state.client.startPull state.room.headSeq) none) }
      | _ => none
  | state, .servePull =>
      match state.http with
      | some (.pulling pull none) =>
          let frames := state.room.stateFrame state.wipes ::
            (state.room.rowFrames pull.cursor none ++ [.rowsDone state.room.headSeq])
          some { state with http := some (.pulling pull (some frames)) }
      | _ => none
  | state, .pulled count =>
      match state.http with
      | some (.pulling pull (some frames)) => some (state.pullAnswer loro pull (frames.take count))
      | _ => none
  | state, .httpDownload =>
      match state.http, state.room.checkpoint with
      | some (.fetching pull header generation after frames _), some checkpoint =>
          some { state with
            http := some (.fetching pull header generation after frames (some checkpoint.bytes)) }
      | _, _ => none
  | state, .httpFetched =>
      match state.http with
      | some (.fetching pull header generation after frames (some blob)) =>
          let client := state.client.applyCheckpoint loro blob header.checkpointSeq
          some { state with
            client := client.finishPull loro pull header generation after frames
            http := none }
      | _ => none
  | state, .httpFailed =>
      match state.http with
      | some (.pushing _ (some _) _) => some { state with http := some (.pushing [] none none) }
      | some (.pulling _ _) =>
          some { state with
            client := { state.client with shared := { state.client.shared with
              httpReplayEpoch := state.client.shared.httpReplayEpoch + 1 } }
            http := none }
      | some (.fetching _ _ _ _ _ _) => some { state with http := none }
      | _ => none
  | state, .sample => some { state with sampled := some state.client.applied }
  | state, .flush saves =>
      state.sampled.map fun cursor =>
        { state with
          snapshot :=
            if saves then { updates := state.client.doc.applied, cursor, verified := true }
            else state.snapshot
          sampled := none }
  | state, .restart => some (state.restart loro)

end SyncRoom

end Zeron.Chat
