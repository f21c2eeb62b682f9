import Zeron.Chat.Cursors

/-!
# Honest cursors

Every row up to the cursor of a saved snapshot is in the snapshot, or a checkpoint
that the snapshot lacks is to bring it.  That holds in every run in which each
acknowledgement that moves the cursor is for a row that the document has.
-/

namespace Zeron.Chat

open Transition

/-- What the session still owes to the checkpoint that it has put its cursor behind. -/
def SessionPhase.debt : SessionPhase → Nat
  | .joining header (.checkpointThenRows _) _ _ => header.checkpointSeq
  | .fetching header _ _ _ _ => header.checkpointSeq
  | _ => 0

/-- The events at which the room, the snapshot and the sample stay as they are. -/
def SyncEvent.ofClient : SyncEvent → Bool
  | .append _ _ _ | .commit _ _ _ | .reset | .serve _ | .servePost | .sample | .flush _
  | .restart => false
  | _ => true

namespace SyncRoom

/-- The acknowledgement that a step has the client handle. -/
def acked (state : SyncRoom) : SyncEvent → Option Nat
  | .receive _ =>
      match state.socket with
      | some { phase := .backfill _, inbound := frame :: _, .. }
      | some { phase := .steady _ _, inbound := frame :: _, .. } => frame.ackSeq
      | _ => none
  | .drain _ =>
      match state.socket with
      | some { phase := .draining _ _ (frame :: _), .. } => frame.ackSeq
      | _ => none
  | .posted _ =>
      match state.http with
      | some (.pushing _ (some _) (some (_, seq))) => some seq
      | _ => none
  | _ => none

instance (loro : Loro) (state : SyncRoom) (event : SyncEvent) :
    Decidable (state.KeepsLog loro event) := by
  cases event <;> unfold KeepsLog <;> infer_instance

/-- An acknowledgement that moves the cursor is for a row that the document has, or
that a checkpoint up to `debt` covers. -/
def AcksHeld (debt : Nat) (state : SyncRoom) (event : SyncEvent) : Prop :=
  ∀ seq ∈ state.acked event, state.client.shared.cursor + 1 = seq →
    ∀ row ∈ state.accepted, row.seq = seq →
      row.bytes ∈ state.client.doc.applied ∨ seq ≤ debt

instance (debt : Nat) (state : SyncRoom) (event : SyncEvent) :
    Decidable (state.AcksHeld debt event) := by
  unfold AcksHeld
  infer_instance

/-- Log and traffic are in order. -/
structure Faithful (loro : Loro) (state : SyncRoom) : Prop where
  recorded : state.room.Recorded loro state.accepted
  socket : ∀ socket ∈ state.socket, socket.Faithful loro state.log
  http : ∀ http ∈ state.http, http.Faithful loro state.log state.client.doc.applied

/-- The room, the snapshot and the sample stay, and the client goes on honestly. -/
structure ClientStep (loro : Loro) (debt : Nat) (state next : SyncRoom) : Prop where
  room : next.room = state.room
  accepted : next.accepted = state.accepted
  snapshot : next.snapshot = state.snapshot
  sampled : next.sampled = state.sampled
  client : state.client.Advances state.log debt next.client
  socket : ∀ socket ∈ next.socket, socket.Faithful loro state.log
  http : ∀ http ∈ next.http, http.Faithful loro state.log next.client.doc.applied

variable {loro : Loro} {device : String} {debt : Nat} {state : SyncRoom}

variable {updates : List Update}

/-! ## The session -/

theorem Faithful.http_subset (faithful : state.Faithful loro)
    (docs : state.client.doc.applied ⊆ updates) :
    ∀ http ∈ state.http, http.Faithful loro state.log updates :=
  fun http running => (faithful.http http running).grow (RoomLog.Grows.refl _) docs

variable {client : ChatClient}

/-- A step that only moves client and socket. -/
theorem Faithful.moved (faithful : state.Faithful loro)
    (advances : state.client.Advances state.log debt client) {socket : Option Socket}
    (connected : ∀ other ∈ socket, other.Faithful loro state.log) :
    ClientStep loro debt state { state with client, socket } where
  room := rfl
  accepted := rfl
  snapshot := rfl
  sampled := rfl
  client := advances
  socket := connected
  http := faithful.http_subset advances.docs

theorem Faithful.leave (faithful : state.Faithful loro)
    (advances : state.client.Advances state.log debt client) (phase : SessionPhase) :
    ClientStep loro debt state (state.leave client phase) := by
  apply faithful.moved
  · exact ⟨advances.docs, fun old => ⟨(advances.honest old).cursor, (advances.honest old).applied⟩⟩
  · exact nofun

/-- The frames that wait on a socket, with what the session does next. -/
theorem faithful_socket {socket : Socket} {log : RoomLog}
    (inbound : ∀ frame ∈ socket.inbound, frame.Faithful loro log)
    (phase : socket.phase.Faithful loro log) :
    ∀ other ∈ some socket, other.Faithful loro log := by
  intro other held
  cases held
  exact ⟨inbound, phase⟩

variable {header : StateHeader} {frontier : List UInt8}

section

variable (faithful : state.Faithful loro)
include faithful

theorem Faithful.steadyTurn (advances : state.client.Advances state.log debt client)
    {socket : Socket} (inbound : ∀ frame ∈ socket.inbound, frame.Faithful loro state.log)
    (repairs : Nat) (refresh : Option RoomRead) :
    ClientStep loro debt state (state.steadyTurn client socket repairs refresh) := by
  have repaired := (client.unmoved_maybeRepairGap repairs).advances state.log debt
  unfold SyncRoom.steadyTurn
  split
  · rename_i left same
    rw [same] at repaired
    exact faithful.leave (advances.trans repaired) _
  · rename_i left repairs requests same
    rw [same] at repaired
    have started := (left.unmoved_startRefresh refresh state.room.headSeq).advances state.log debt
    exact faithful.moved (advances.trans (repaired.trans started))
      (faithful_socket inbound trivial)

theorem Faithful.endBackfill (advances : state.client.Advances state.log debt client)
    {socket : Socket} (inbound : ∀ frame ∈ socket.inbound, frame.Faithful loro state.log)
    (read : RoomRead) (headSeq : Nat) :
    ClientStep loro debt state (state.endBackfill client socket read headSeq) :=
  faithful.steadyTurn
    (advances.trans ((client.unmoved_finishCatchUp read headSeq).advances state.log debt))
    inbound 0 none

theorem Faithful.transmit {socket : Socket} (sound : socket.Faithful loro state.log)
    (push : PendingPush) (persists : Bool) (pushes : PushSession) :
    ClientStep loro debt state (state.transmit socket push persists pushes) := by
  have queued (queue : ReplayQueue) :
      state.client.Advances state.log debt { state.client with queue } :=
    ⟨List.Subset.refl _, fun old => ⟨old.cursor, old.applied⟩⟩
  unfold SyncRoom.transmit
  simp only
  split
  · exact faithful.moved (queued _) (faithful_socket sound.inbound sound.phase)
  · exact faithful.leave (queued _) _

theorem Faithful.join {socket : Socket}
    (told : ServerFrame.Faithful loro state.log (.state header frontier))
    (inbound : ∀ frame ∈ socket.inbound, frame.Faithful loro state.log)
    (owed : ∀ other ∈ (state.join loro socket header frontier).socket,
      other.phase.debt ≤ state.log.covered → other.phase.debt ≤ debt) :
    ClientStep loro debt state (state.join loro socket header frontier) := by
  have plan_owed : ∀ after, (state.client.joinRoom loro header frontier).2.1 =
      .checkpointThenRows after → header.checkpointSeq ≤ debt := by
    intro after plan_eq
    have bounded : (SessionPhase.joining header (state.client.joinRoom loro header frontier).2.1
        _ _).debt ≤ state.log.covered →
          (SessionPhase.joining header (state.client.joinRoom loro header frontier).2.1
            _ _).debt ≤ debt := owed _ rfl
    rw [plan_eq] at bounded
    exact bounded told.1.covered
  exact faithful.moved (ChatClient.advances_joinRoom told plan_owed)
    (faithful_socket inbound told.1)

theorem Faithful.receiveSteady (owed : debt ≤ state.log.covered) {socket : Socket}
    (inbound : ∀ frame ∈ socket.inbound, frame.Faithful loro state.log) {frame : ServerFrame}
    (told : frame.Faithful loro state.log)
    (held : ∀ seq ∈ frame.ackSeq, state.client.shared.cursor + 1 = seq →
      ∀ row ∈ state.accepted, row.seq = seq → row.bytes ∈ state.client.doc.applied ∨ seq ≤ debt)
    (repairs : Nat) (refresh : Option RoomRead) (disk : Bool) :
    ClientStep loro debt state
      (state.receiveSteady loro socket repairs refresh disk frame) := by
  unfold SyncRoom.receiveSteady
  split
  · exact faithful.leave (ChatClient.Advances.refl _ _ _) _
  · rename_i client handled
    have advances := ChatClient.advances_handleFrame owed told held handled
    split
    · exact faithful.steadyTurn
        (advances.trans ((client.unmoved_finishRefresh _ _).advances state.log debt))
        inbound _ _
    · exact faithful.steadyTurn advances inbound _ _

theorem Faithful.importFetched {socket : Socket} {blob : List UInt8} {buffered : List ServerFrame}
    (inbound : ∀ frame ∈ socket.inbound, frame.Faithful loro state.log)
    (told : header.Faithful state.log)
    (downloaded : state.log.Holds (loro.content blob) 0 header.checkpointSeq)
    (waiting : ∀ frame ∈ buffered, frame.Faithful loro state.log) (generation : Nat)
    (read : RoomRead) :
    ClientStep loro debt state
      (state.importFetched loro socket header generation read blob buffered) := by
  have imported : state.client.Advances state.log debt
      (state.client.applyCheckpoint loro blob header.checkpointSeq) :=
    ChatClient.advances_applyCheckpoint loro state.client blob told
  have content : state.log.Holds
      (state.client.applyCheckpoint loro blob header.checkpointSeq).doc.applied 0
        header.checkpointSeq :=
    ChatClient.holds_applyCheckpoint _ downloaded
  have raised := ChatClient.advances_raise (told.honest content debt)
  refine faithful.moved (imported.trans (raised.clear generation))
    (faithful_socket inbound ⟨?_, waiting⟩)
  · intro headSeq held
    exact absurd held (Option.not_mem_none _)

theorem Faithful.drainFrame (owed : debt ≤ state.log.covered) {socket : Socket}
    (inbound : ∀ frame ∈ socket.inbound, frame.Faithful loro state.log) {head : Option Nat}
    (met : ∀ headSeq ∈ head, headSeq ≤ state.log.head) {buffered : List ServerFrame}
    (waiting : ∀ frame ∈ buffered, frame.Faithful loro state.log)
    (held : ∀ frame ∈ buffered.head?, ∀ seq ∈ frame.ackSeq,
      state.client.shared.cursor + 1 = seq → ∀ row ∈ state.accepted, row.seq = seq →
        row.bytes ∈ state.client.doc.applied ∨ seq ≤ debt) (read : RoomRead) (disk : Bool) :
    ClientStep loro debt state (state.drainFrame loro socket read head disk buffered) := by
  unfold SyncRoom.drainFrame
  split
  · split
    · exact faithful.endBackfill (ChatClient.Advances.refl _ _ _) inbound _ _
    · exact faithful.moved (ChatClient.Advances.refl _ _ _) (faithful_socket inbound trivial)
  · rename_i headSeq rest
    have later : ∀ frame ∈ rest, frame.Faithful loro state.log :=
      fun frame listed => waiting frame (List.mem_cons_of_mem _ listed)
    split
    · refine faithful.moved (ChatClient.Advances.refl _ _ _)
        (faithful_socket inbound ⟨?_, later⟩)
      intro other other_held
      cases other_held
      exact waiting (.rowsDone headSeq) List.mem_cons_self
    · apply faithful.moved
      · exact ⟨List.Subset.refl _, fun old => ⟨old.cursor, old.applied⟩⟩
      · exact faithful_socket inbound ⟨met, later⟩
  · rename_i frame rest _
    split
    · exact faithful.leave (ChatClient.Advances.refl _ _ _) _
    · rename_i client handled
      have advances := ChatClient.advances_handleFrame owed
        (waiting frame List.mem_cons_self) (held frame rfl) handled
      refine faithful.moved advances ?_
      exact faithful_socket inbound
        ⟨met, fun other listed => waiting other (List.mem_cons_of_mem _ listed)⟩

/-! ## The cycle -/

/-- A step that only moves client and cycle. -/
theorem Faithful.cycled (advances : state.client.Advances state.log debt client)
    {http : Option HttpPhase}
    (running : ∀ other ∈ http, other.Faithful loro state.log client.doc.applied) :
    ClientStep loro debt state { state with client, http } where
  room := rfl
  accepted := rfl
  snapshot := rfl
  sampled := rfl
  client := advances
  socket := faithful.socket
  http := running

end

theorem faithful_none {log : RoomLog} :
    ∀ other ∈ (none : Option HttpPhase), other.Faithful loro log updates :=
  nofun

variable {frames : List ServerFrame} {pull : Pull} {next : SyncRoom}

section

variable (faithful : state.Faithful loro) (owed : debt ≤ state.log.covered)
include faithful owed

theorem Faithful.pullState (told : ServerFrame.Faithful loro state.log (.state header frontier))
    (asked : state.log.Honest state.client.doc.applied header.checkpointSeq pull.cursor)
    (answered : pull.Answered loro state.log header frames) :
    ClientStep loro debt state (state.pullState loro pull header frontier frames) := by
  have amnesty :=
    ChatClient.advances_applyCursorAmnesty state.log debt state.client header
  unfold SyncRoom.pullState
  simp only
  split
  · exact faithful.cycled amnesty faithful_none
  · have reset : (state.client.applyCursorAmnesty header).Advances state.log debt
        (if header.headSeq < pull.cursor then
          (state.client.applyCursorAmnesty header).resetCursor
        else state.client.applyCursorAmnesty header) := by
      split
      · exact ChatClient.advances_resetCursor _ _ _
      · exact ChatClient.Advances.refl _ _ _
    split
    · rename_i after plan_eq
      obtain ⟨holds, le⟩ := ChatClient.holds_of_rowsOnly told plan_eq
      have paid := ((asked.subset amnesty.docs).pay holds debt).max (told.1.honest holds debt)
      exact faithful.cycled
        (amnesty.trans (reset.trans (ChatClient.advances_finishPull owed pull header _
          answered.faithful ((paid.lower le).subset reset.docs)))) faithful_none
    · rename_i after plan_eq
      have after_eq : after = header.checkpointSeq := by
        obtain ⟨_, rows_eq, _⟩ | ⟨checkpoint_eq, _⟩ := planCatchUp_cases pull.cursor header
          ((state.client.applyCursorAmnesty header).contained loro header frontier)
        · cases plan_eq.symm.trans rows_eq
        · cases plan_eq.symm.trans checkpoint_eq
          rfl
      have advances := amnesty.trans reset
      refine faithful.cycled advances fun other held => ?_
      cases held
      exact ⟨after_eq, asked.subset advances.docs, answered,
        nofun⟩

theorem Faithful.pulled
    (pulling : HttpPhase.Faithful loro state.log state.client.doc.applied
      (.pulling pull (some frames))) (count : Nat) :
    ClientStep loro debt state (state.pullAnswer loro pull (frames.take count)) := by
  obtain ⟨header, frontier, rest, rfl, told, asked, answered⟩ := pulling
  cases count with
  | zero => exact faithful.cycled (ChatClient.Advances.refl _ _ _) faithful_none
  | succ count => exact faithful.pullState owed told asked (answered.take count)

theorem Faithful.httpFetched {generation after : Nat} {blob : List UInt8}
    (fetching : HttpPhase.Faithful loro state.log state.client.doc.applied
      (.fetching pull header generation after frames (some blob))) :
    ClientStep loro debt state { state with
      client := (state.client.applyCheckpoint loro blob header.checkpointSeq).finishPull loro pull
        header generation after frames
      http := none } := by
  obtain ⟨rfl, _, answered, downloaded⟩ := fetching
  have imported : state.client.Advances state.log debt
      (state.client.applyCheckpoint loro blob header.checkpointSeq) :=
    ChatClient.advances_applyCheckpoint loro state.client blob answered.told
  have content : state.log.Holds
      (state.client.applyCheckpoint loro blob header.checkpointSeq).doc.applied 0
        header.checkpointSeq :=
    ChatClient.holds_applyCheckpoint _ (downloaded blob rfl)
  exact faithful.cycled (imported.trans (ChatClient.advances_finishPull owed pull header _
    answered.faithful (answered.told.honest content debt))) faithful_none

/-! ## Steps of the client -/

theorem Faithful.receive {disk : Bool} (held : state.AcksHeld debt (.receive disk))
    (join : ∀ socket ∈ next.socket, socket.phase.debt ≤ state.log.covered →
      socket.phase.debt ≤ debt) (stepped : step loro device state (.receive disk) = some next) :
    ClientStep loro debt state next := by
  simp only [step] at stepped
  split at stepped
  · rename_i socket connected
    have sound := faithful.socket socket connected
    split at stepped
    · rename_i frame inbound idle arrived
      have told : frame.Faithful loro state.log := by
        apply sound.inbound
        rw [arrived]
        exact List.mem_cons_self
      have later : ∀ other ∈ inbound, other.Faithful loro state.log := by
        intro other listed
        apply sound.inbound
        rw [arrived]
        exact List.mem_cons_of_mem _ listed
      have ack_held (handles : (∃ read, socket.phase = .backfill read) ∨
          ∃ repairs refresh, socket.phase = .steady repairs refresh) :
          ∀ seq ∈ frame.ackSeq, state.client.shared.cursor + 1 = seq →
            ∀ row ∈ state.accepted, row.seq = seq →
              row.bytes ∈ state.client.doc.applied ∨ seq ≤ debt := by
        intro seq acked
        apply held seq
        obtain ⟨outbound, _, open_, ready, phase, pushes⟩ := socket
        subst arrived
        unfold SyncRoom.acked
        rw [connected]
        obtain ⟨read, rfl⟩ | ⟨repairs, refresh, rfl⟩ := handles
        · exact acked
        · exact acked
      unfold receiveFrame at stepped
      split at stepped
      · cases stepped
        exact faithful.join told later join
      · cases stepped
        exact faithful.moved (ChatClient.Advances.refl _ _ _) (faithful_socket later sound.phase)
      · rename_i header generation read blob buffered _ fetching
        cases stepped
        have phase := sound.phase
        rw [fetching] at phase
        obtain ⟨header_told, downloaded, waiting⟩ := phase
        refine faithful.moved (ChatClient.Advances.refl _ _ _) (faithful_socket later
          ⟨header_told, downloaded, ?_⟩)
        intro other listed
        obtain old | new := List.mem_append.mp listed
        · exact waiting other old
        · rw [List.mem_singleton.mp new]
          exact told
      · cases stepped
        exact faithful.endBackfill (ChatClient.Advances.refl _ _ _) later _ _
      · rename_i read backfill _
        split at stepped
        · cases stepped
          exact faithful.leave (ChatClient.Advances.refl _ _ _) _
        · rename_i client handled
          cases stepped
          exact faithful.moved
            (ChatClient.advances_handleFrame owed told (ack_held (.inl ⟨read, backfill⟩)) handled)
            (faithful_socket later sound.phase)
      · rename_i repairs refresh steady
        cases stepped
        exact faithful.receiveSteady owed later told (ack_held (.inr ⟨repairs, refresh, steady⟩))
          _ _ _
      · cases stepped
      · cases stepped
    · cases stepped
  · cases stepped

/-- A step of the client, with the debt that its session has after it. -/
theorem Faithful.clientStep
    (honest : state.log.Honest state.client.doc.applied state.log.covered
      state.client.shared.cursor) {event : SyncEvent} (held : state.AcksHeld debt event)
    (join : ∀ socket ∈ next.socket, socket.phase.debt ≤ state.log.covered →
      socket.phase.debt ≤ debt) (ofClient : event.ofClient = true)
    (stepped : step loro device state event = some next) :
    ClientStep loro debt state next := by
  have unmoved {client : ChatClient} (same : state.client.Unmoved client) :
      state.client.Advances state.log debt client := same.advances _ _
  cases event with
  | append other batchId bytes => cases ofClient
  | commit seqCovered frontier bytes => cases ofClient
  | reset => cases ofClient
  | serve admitted => cases ofClient
  | servePost => cases ofClient
  | sample => cases ofClient
  | flush saves => cases ofClient
  | restart => cases ofClient
  | receive disk => exact faithful.receive owed held join stepped
  | edit batchId bytes persists marks =>
      simp only [step] at stepped
      split at stepped
      · cases stepped
        have docs : state.client.doc.applied ⊆
            (state.client.doc.importRow loro bytes).1.applied :=
          fun _ applied => Document.mem_importRow loro applied bytes
        apply faithful.moved
        · exact ⟨docs, fun old => ⟨old.cursor.subset docs, old.applied.subset docs⟩⟩
        · exact faithful.socket
      · cases stepped
  | requestCatchUp =>
      cases stepped
      apply faithful.moved
      · exact unmoved ⟨rfl, rfl, rfl⟩
      · exact faithful.socket
  | probe =>
      cases stepped
      apply faithful.moved
      · exact unmoved ⟨rfl, rfl, rfl⟩
      · exact faithful.socket
  | dial =>
      simp only [step] at stepped
      split at stepped
      · cases stepped
      · cases stepped
        apply faithful.moved
        · exact unmoved ⟨rfl, rfl, rfl⟩
        · exact faithful_socket (nofun) trivial
  | send persists =>
      simp only [step] at stepped
      split at stepped
      · rename_i socket connected
        split at stepped
        · cases stepped
          exact faithful.transmit (faithful.socket socket connected) _ _ _
        · cases stepped
      · cases stepped
  | proceed =>
      simp only [step] at stepped
      split at stepped
      · rename_i socket connected
        have sound := faithful.socket socket connected
        split at stepped
        · rename_i header _ _ _ _ joining
          cases stepped
          have phase := sound.phase
          rw [joining] at phase
          exact faithful.moved (unmoved (.refl _)) (faithful_socket sound.inbound
            ⟨phase, nofun,
              nofun⟩)
        · cases stepped
          exact faithful.moved (unmoved (state.client.unmoved_clearNeedsCheckpoint _))
            (faithful_socket sound.inbound trivial)
        · cases stepped
      · cases stepped
  | download =>
      simp only [step] at stepped
      split at stepped
      · rename_i socket checkpoint connected stored
        have sound := faithful.socket socket connected
        split at stepped
        · rename_i header generation read old buffered fetching
          cases stepped
          have phase := sound.phase
          rw [fetching] at phase
          obtain ⟨told, _, waiting⟩ := phase
          refine faithful.moved (unmoved (.refl _)) (faithful_socket sound.inbound
            ⟨told, ?_, waiting⟩)
          intro bytes downloaded
          cases downloaded
          have covers : header.checkpointSeq ≤ checkpoint.seqCovered := by
            rw [ChatRoom.seqCovered_eq stored]
            exact told.covered
          exact (faithful.recorded.stands checkpoint stored).content.narrow le_rfl covers
        · cases stepped
      · cases stepped
  | fetched =>
      simp only [step] at stepped
      split at stepped
      · rename_i socket connected
        have sound := faithful.socket socket connected
        split at stepped
        · rename_i header generation read blob buffered fetching
          cases stepped
          have phase := sound.phase
          rw [fetching] at phase
          obtain ⟨told, downloaded, waiting⟩ := phase
          exact faithful.importFetched sound.inbound told (downloaded blob rfl) waiting _ _
        · cases stepped
      · cases stepped
  | drain disk =>
      simp only [step] at stepped
      split at stepped
      · rename_i socket connected
        have sound := faithful.socket socket connected
        split at stepped
        · rename_i read head buffered draining
          cases stepped
          have phase := sound.phase
          rw [draining] at phase
          obtain ⟨met, waiting⟩ := phase
          refine faithful.drainFrame owed sound.inbound met waiting ?_ read disk
          intro frame first seq acked
          apply held seq
          unfold SyncRoom.acked
          obtain ⟨outbound, inbound, open_, ready, phase, pushes⟩ := socket
          subst draining
          rw [connected]
          cases buffered with
          | nil => cases first
          | cons other rest =>
              cases first
              exact acked
        · cases stepped
      · cases stepped
  | nudge =>
      simp only [step] at stepped
      split at stepped
      · rename_i socket connected
        have sound := faithful.socket socket connected
        split at stepped
        · cases stepped
          exact faithful.moved (unmoved (.refl _)) (faithful_socket sound.inbound sound.phase)
        · cases stepped
      · cases stepped
  | retry persists =>
      simp only [step] at stepped
      split at stepped
      · rename_i socket connected
        have sound := faithful.socket socket connected
        split at stepped
        · have calmed : state.client.Unmoved { state.client with retrying := false } :=
            ⟨rfl, rfl, rfl⟩
          split at stepped
          · cases stepped
            exact faithful.moved (unmoved calmed) faithful.socket
          · rename_i push _ _
            cases stepped
            have resumed : Faithful loro
                { state with client := { state.client with retrying := false } } :=
              ⟨faithful.recorded, faithful.socket, faithful.http⟩
            have sent := @Faithful.transmit loro debt _ resumed socket sound push persists
              socket.pushes
            exact ⟨sent.room, sent.accepted, sent.snapshot, sent.sampled,
              (unmoved calmed).trans sent.client, sent.socket, sent.http⟩
        · cases stepped
      · cases stepped
  | turn =>
      simp only [step] at stepped
      split at stepped
      · rename_i socket connected
        have sound := faithful.socket socket connected
        split at stepped
        · cases stepped
          exact faithful.moved (unmoved (state.client.unmoved_startRefresh _ _))
            (faithful_socket sound.inbound trivial)
        · cases stepped
      · cases stepped
  | disconnect =>
      obtain ⟨socket, connected, rfl⟩ := Option.map_eq_some_iff.mp stepped
      exact faithful.leave (unmoved (.refl _)) _
  | sync =>
      simp only [step] at stepped
      split at stepped
      · cases stepped
        refine faithful.cycled (unmoved (.refl _)) ?_
        intro other running
        cases running
        exact nofun
      · cases stepped
  | post persists =>
      simp only [step] at stepped
      split at stepped
      · cases stepped
        apply faithful.cycled
        · exact unmoved ⟨rfl, rfl, rfl⟩
        · intro other running
          split at running
          · cases running
            exact nofun
          · cases running
            exact nofun
      · cases stepped
  | posted disk =>
      simp only [step] at stepped
      split at stepped
      · rename_i batches push batchId seq running
        cases stepped
        have answer := faithful.http _ running
        have acked : state.acked (.posted disk) = some seq := by
          unfold SyncRoom.acked
          rw [running]
        refine faithful.cycled (ChatClient.advances_onPosted owed batchId disk
          (answer (batchId, seq) rfl) (held seq acked)) ?_
        intro other going
        cases going
        exact nofun
      · cases stepped
  | pull =>
      simp only [step] at stepped
      split at stepped
      · cases stepped
        refine faithful.cycled (unmoved (.refl _)) ?_
        intro other running
        cases running
        exact ⟨le_rfl, honest⟩
      · cases stepped
  | servePull =>
      simp only [step] at stepped
      split at stepped
      · rename_i pull running
        cases stepped
        obtain ⟨started, honest⟩ := faithful.http _ running
        refine faithful.cycled (unmoved (.refl _)) ?_
        intro other going
        cases going
        refine ⟨_, _, _, rfl, faithful.recorded.faithful_stateFrame _, honest,
          faithful.recorded.faithful_stateHeader _, ?_,
          faithful.recorded.answers_rowFrames _, ?_⟩
        · intro frame listed
          obtain row | done := List.mem_append.mp listed
          · exact faithful.recorded.faithful_rowFrames _ _ frame row
          · rw [List.mem_singleton.mp done]
            exact le_rfl
        · intro headSeq listed
          obtain row | done := List.mem_append.mp listed
          · obtain ⟨_, _, row_eq⟩ := List.mem_map.mp row
            cases row_eq
          · cases List.mem_singleton.mp done
            exact started
      · cases stepped
  | pulled count =>
      simp only [step] at stepped
      split at stepped
      · rename_i pull frames running
        cases stepped
        exact faithful.pulled owed (faithful.http _ running) count
      · cases stepped
  | httpDownload =>
      simp only [step] at stepped
      split at stepped
      · rename_i pull header generation after frames old checkpoint running stored
        cases stepped
        obtain ⟨after_eq, honest, answered, _⟩ := faithful.http _ running
        refine faithful.cycled (unmoved (.refl _)) ?_
        intro other going
        cases going
        refine ⟨after_eq, honest, answered, ?_⟩
        intro bytes downloaded
        cases downloaded
        have covers : header.checkpointSeq ≤ checkpoint.seqCovered := by
          rw [ChatRoom.seqCovered_eq stored]
          exact answered.told.covered
        exact (faithful.recorded.stands checkpoint stored).content.narrow le_rfl covers
      · cases stepped
  | httpFetched =>
      simp only [step] at stepped
      split at stepped
      · rename_i pull header generation after frames blob running
        cases stepped
        exact faithful.httpFetched owed (faithful.http _ running)
      · cases stepped
  | httpFailed =>
      simp only [step] at stepped
      split at stepped
      · cases stepped
        refine faithful.cycled (unmoved (.refl _)) ?_
        intro other going
        cases going
        exact nofun
      · cases stepped
        apply faithful.cycled
        · exact unmoved ⟨rfl, rfl, rfl⟩
        · exact faithful_none
      · cases stepped
        exact faithful.cycled (unmoved (.refl _)) faithful_none
      · cases stepped

end

/-! ## Steps of the room -/

/-- The room moves its log forward; client and disk stay. -/
structure RoomStep (loro : Loro) (state next : SyncRoom) : Prop where
  grows : state.log.Grows next.log
  recorded : next.room.Recorded loro next.accepted
  client : next.client = state.client
  snapshot : next.snapshot = state.snapshot
  sampled : next.sampled = state.sampled
  socket : ∀ socket ∈ next.socket, socket.Faithful loro next.log
  http : ∀ http ∈ next.http, http.Faithful loro next.log next.client.doc.applied

theorem Faithful.roomStep_refl (faithful : state.Faithful loro) :
    RoomStep loro state state where
  grows := RoomLog.Grows.refl _
  recorded := faithful.recorded
  client := rfl
  snapshot := rfl
  sampled := rfl
  socket := faithful.socket
  http := faithful.http

theorem relay_eq_some {socket : Option Socket} {seq : Nat} {bytes : Update} {other : Socket}
    (relayed : relay socket seq bytes = some other) : ∃ before, socket = some before ∧
      other.phase = before.phase ∧ other.outbound = before.outbound ∧
      ∀ frame ∈ other.inbound, frame ∈ before.inbound ∨ frame = .row seq bytes := by
  obtain ⟨before, connected, rfl⟩ := Option.map_eq_some_iff.mp relayed
  refine ⟨before, connected, ?_⟩
  split
  · refine ⟨rfl, rfl, fun frame listed => ?_⟩
    exact (List.mem_append.mp listed).imp_right List.mem_singleton.mp
  · exact ⟨rfl, rfl, fun frame listed => .inl listed⟩

/-- A push, with what the room answers. -/
theorem Faithful.pushRow (faithful : state.Faithful loro) (own : Bool)
    (device batchId : String) (bytes : Update) :
    RoomStep loro state (state.pushRow own device batchId bytes).1 ∧
      ∀ seq, (state.pushRow own device batchId bytes).2 = .ack seq →
        seq ≤ (state.pushRow own device batchId bytes).1.room.headSeq := by
  obtain ⟨code, result⟩ | ⟨row, stored, result⟩ | ⟨_, result, appended⟩ :=
    state.pushRow_cases own device batchId bytes
  · rw [result]
    exact ⟨faithful.roomStep_refl, fun seq other => by cases other⟩
  · rw [result]
    refine ⟨faithful.roomStep_refl, fun seq same => ?_⟩
    cases same
    exact faithful.recorded.shape.mem_le_headSeq stored
  · have shape := faithful.recorded.shape.appendRow device batchId bytes
    rw [result]
    rw [appended] at shape ⊢
    have grows := state.room.grows_append state.accepted
      { seq := state.room.headSeq + 1, device, batchId, bytes } rfl
    have recorded := faithful.recorded.append
      { seq := state.room.headSeq + 1, device, batchId, bytes } rfl shape
    refine ⟨⟨grows, recorded, rfl, rfl, rfl, ?_, ?_⟩, fun seq same => ?_⟩
    · intro socket connected
      cases own with
      | true => exact (faithful.socket socket connected).grow grows
      | false =>
          obtain ⟨before, held, phase_eq, _, inbound⟩ := relay_eq_some connected
          have sound := (faithful.socket before held).grow grows
          refine ⟨fun frame listed => ?_, phase_eq ▸ sound.phase⟩
          obtain old | rfl := inbound frame listed
          · exact sound.inbound frame old
          · exact recorded.faithful_row List.mem_concat_self
    · intro http running
      exact (faithful.http http running).grow grows (List.Subset.refl _)
    · cases same
      exact le_rfl

theorem Faithful.commit (faithful : state.Faithful loro) {seqCovered : Nat} {bytes : List UInt8}
    (keeps : state.KeepsLog loro (.commit seqCovered frontier bytes)) :
    RoomStep loro state
      { state with room := state.room.write (.checkpoint seqCovered frontier bytes) } where
  grows := faithful.recorded.grows_commit seqCovered frontier bytes
  recorded := faithful.recorded.commit keeps.1 keeps.2
  client := rfl
  snapshot := rfl
  sampled := rfl
  socket socket connected :=
    (faithful.socket socket connected).grow (faithful.recorded.grows_commit _ _ _)
  http http running :=
    (faithful.http http running).grow (faithful.recorded.grows_commit _ _ _)
      (List.Subset.refl _)

/-- A room step that ends with another socket. -/
theorem RoomStep.answer (stepped : RoomStep loro state next) {socket : Option Socket}
    (connected : ∀ other ∈ socket, other.Faithful loro next.log) :
    RoomStep loro state { next with socket } where
  grows := stepped.grows
  recorded := stepped.recorded
  client := stepped.client
  snapshot := stepped.snapshot
  sampled := stepped.sampled
  socket := connected
  http := stepped.http

theorem Faithful.serveFrame (faithful : state.Faithful loro) (device : String) {socket : Socket}
    (sound : socket.Faithful loro state.log) (admitted : Bool) (frame : ClientFrame) :
    RoomStep loro state (serveFrame device state socket admitted frame) := by
  have answered {answers : List ServerFrame} {log : RoomLog} (grows : state.log.Grows log)
      (told : ∀ frame ∈ answers, frame.Faithful loro log) :
      ∀ frame ∈ socket.inbound ++ answers, frame.Faithful loro log := by
    intro frame listed
    obtain old | new := List.mem_append.mp listed
    · exact (sound.inbound frame old).grow grows
    · exact told frame new
  unfold SyncRoom.serveFrame
  split
  · refine faithful.roomStep_refl.answer (faithful_socket (answered (RoomLog.Grows.refl _) ?_)
      sound.phase)
    intro frame listed
    rw [List.mem_singleton.mp listed]
    exact faithful.recorded.faithful_stateFrame _
  · simp only [List.append_assoc]
    refine faithful.roomStep_refl.answer (faithful_socket (answered (RoomLog.Grows.refl _) ?_)
      sound.phase)
    intro frame listed
    obtain row | done := List.mem_append.mp listed
    · exact faithful.recorded.faithful_rowFrames _ _ frame row
    · rw [List.mem_singleton.mp done]
      exact le_rfl
  · split
    · have connected : Faithful loro { state with socket := some socket } :=
        ⟨faithful.recorded, faithful_socket sound.inbound sound.phase, faithful.http⟩
      rename_i batchId bytes _
      obtain ⟨pushed, acks⟩ := connected.pushRow true device batchId bytes
      have stepped : RoomStep loro state
          ({ state with socket := some socket }.pushRow true device batchId bytes).1 :=
        ⟨pushed.grows, pushed.recorded, pushed.client, pushed.snapshot, pushed.sampled,
          pushed.socket, pushed.http⟩
      refine stepped.answer (faithful_socket (answered stepped.grows ?_)
        (sound.phase.grow stepped.grows))
      intro frame listed
      rw [List.mem_singleton.mp listed]
      split
      · exact acks _ ‹_›
      · trivial
    · refine faithful.roomStep_refl.answer (faithful_socket (answered (RoomLog.Grows.refl _) ?_)
        sound.phase)
      intro frame listed
      rw [List.mem_singleton.mp listed]
      trivial

/-! ## Runs -/

/-- All cursors are honest: the shared one, that of the persister, the one that a flush
under way has read, and the one on disk. -/
structure HonestCursors (loro : Loro) (state : SyncRoom) : Prop extends Faithful loro state where
  client : state.client.Honest state.log state.log.covered
  sampled : ∀ cursor ∈ state.sampled,
    state.log.Honest state.client.doc.applied state.log.covered cursor
  snapshot : state.log.Honest state.snapshot.updates state.log.covered state.snapshot.cursor

theorem HonestCursors.clientStep (honest : state.HonestCursors loro)
    (stepped : ClientStep loro state.log.covered state next) : next.HonestCursors loro := by
  obtain ⟨room_eq, accepted_eq, snapshot_eq, sampled_eq, advances, socket, http⟩ := stepped
  have log_eq : next.log = state.log := by
    unfold SyncRoom.log
    rw [room_eq, accepted_eq]
  constructor
  · constructor
    · rw [room_eq, accepted_eq]
      exact honest.recorded
    · rw [log_eq]
      exact socket
    · rw [log_eq]
      exact http
  · rw [log_eq]
    exact advances.honest honest.client
  · rw [log_eq, sampled_eq]
    exact fun cursor held => (honest.sampled cursor held).subset advances.docs
  · rw [log_eq, snapshot_eq]
    exact honest.snapshot

theorem HonestCursors.roomStep (honest : state.HonestCursors loro)
    (stepped : RoomStep loro state next) : next.HonestCursors loro := by
  obtain ⟨grows, recorded, client_eq, snapshot_eq, sampled_eq, socket, http⟩ := stepped
  refine ⟨⟨recorded, socket, http⟩, ?_, ?_, ?_⟩
  · rw [client_eq]
    exact ⟨(honest.client.cursor.grow grows).owe grows.covered,
      (honest.client.applied.grow grows).owe grows.covered⟩
  · rw [client_eq, sampled_eq]
    exact fun cursor held => ((honest.sampled cursor held).grow grows).owe grows.covered
  · rw [snapshot_eq]
    exact (honest.snapshot.grow grows).owe grows.covered

/-- A new process starts from the snapshot and the outbox. -/
theorem HonestCursors.restart (honest : state.HonestCursors loro) :
    (state.restart loro).HonestCursors loro := by
  have docs : ∀ (rows : List OutboxRow) (doc : Document), doc.applied ⊆
      (rows.foldl (fun doc row => (doc.importRow loro row.bytes).1) doc).applied := by
    intro rows
    induction rows with
    | nil => exact fun doc => List.Subset.refl _
    | cons row rows ih =>
        exact fun doc update held => ih _ (Document.mem_importRow loro held row.bytes)
  have reloaded := honest.snapshot.subset
    (docs state.client.queue.outbox.rows { applied := state.snapshot.updates, parked := [] })
  constructor
  · exact ⟨honest.recorded, nofun, faithful_none⟩
  · refine ⟨reloaded, ?_⟩
    simp only [SyncRoom.restart, ChatClient.opened]
    split
    · exact reloaded
    · exact RoomLog.honest_zero _ _ _
  · exact nofun
  · exact honest.snapshot

/-- The conditions on a run. -/
structure HonestStep (loro : Loro) (state : SyncRoom) (event : SyncEvent) : Prop where
  keeps : state.KeepsLog loro event
  held : state.AcksHeld state.room.checkpointSeq event

instance (loro : Loro) (state : SyncRoom) (event : SyncEvent) :
    Decidable (state.HonestStep loro event) :=
  decidable_of_iff (state.KeepsLog loro event ∧ state.AcksHeld state.room.checkpointSeq event)
    ⟨fun both => ⟨both.1, both.2⟩, fun honest => ⟨honest.keeps, honest.held⟩⟩

theorem HonestCursors.step (honest : state.HonestCursors loro) {event : SyncEvent}
    (allowed : state.HonestStep loro event) (stepped : step loro device state event = some next) :
    next.HonestCursors loro := by
  by_cases ofClient : event.ofClient = true
  · exact honest.clientStep (honest.toFaithful.clientStep le_rfl honest.client.cursor allowed.held
      (fun _ _ => id) ofClient stepped)
  · cases event with
    | append other batchId bytes =>
        cases stepped
        exact honest.roomStep (honest.toFaithful.pushRow false other batchId bytes).1
    | commit seqCovered frontier bytes =>
        cases stepped
        exact honest.roomStep (honest.toFaithful.commit allowed.keeps)
    | reset => exact absurd allowed.keeps id
    | serve admitted =>
        simp only [SyncRoom.step] at stepped
        split at stepped
        · rename_i socket connected
          split at stepped
          · rename_i frame outbound _ _
            cases stepped
            have sound : Socket.Faithful loro state.log { socket with outbound } :=
              ⟨(honest.socket socket connected).inbound, (honest.socket socket connected).phase⟩
            exact honest.roomStep (honest.toFaithful.serveFrame device sound admitted frame)
          · cases stepped
        · cases stepped
    | servePost =>
        simp only [SyncRoom.step] at stepped
        split at stepped
        · rename_i batches push running
          cases stepped
          obtain ⟨pushed, acks⟩ :=
            honest.toFaithful.pushRow false device push.batchId push.bytes
          refine honest.roomStep ⟨pushed.grows, pushed.recorded, pushed.client, pushed.snapshot,
            pushed.sampled, pushed.socket, ?_⟩
          intro other going
          cases going
          split
          · rename_i seq acked
            intro ack held
            cases held
            exact acks seq acked
          · exact nofun
        · cases stepped
    | sample =>
        cases stepped
        refine ⟨⟨honest.recorded, honest.socket, honest.http⟩, honest.client, ?_, honest.snapshot⟩
        intro cursor held
        cases held
        exact honest.client.applied
    | flush saves =>
        obtain ⟨cursor, sampled, rfl⟩ := Option.map_eq_some_iff.mp stepped
        refine ⟨⟨honest.recorded, honest.socket, honest.http⟩, honest.client,
          nofun, ?_⟩
        cases saves with
        | true => exact honest.sampled cursor sampled
        | false => exact honest.snapshot
    | restart =>
        cases stepped
        exact honest.restart
    | _ => exact absurd rfl ofClient

theorem honestCursors_start : start.HonestCursors loro where
  recorded := ChatRoom.recorded_initial
  socket _ held := absurd held (Option.not_mem_none _)
  http := faithful_none
  client := ⟨RoomLog.honest_zero _ _ _, RoomLog.honest_zero _ _ _⟩
  sampled _ held := absurd held (Option.not_mem_none _)
  snapshot := RoomLog.honest_zero _ _ _

/-- The row is among the updates, or a checkpoint that they lack is to bring it. -/
def Reachable (loro : Loro) (state : SyncRoom) (updates : List Update) (row : LogRow) : Prop :=
  row.bytes ∈ updates ∨ ∃ checkpoint, state.room.checkpoint = some checkpoint ∧
    row.seq ≤ checkpoint.seqCovered ∧
    Document.containsFrontier loro { applied := updates, parked := [] } checkpoint.frontier = false

theorem Faithful.reachable (faithful : state.Faithful loro) {cursor : Nat}
    (honest : state.log.Honest updates state.log.covered cursor) {row : LogRow}
    (listed : row ∈ state.accepted) (below : row.seq ≤ cursor) :
    state.Reachable loro updates row := by
  by_cases held : row.bytes ∈ updates
  · exact .inl held
  · have low : row.seq ≤ state.room.checkpointSeq :=
      not_lt.mp fun above => held (honest.holds row listed above below)
    have positive := faithful.recorded.positive row listed
    cases stored : state.room.checkpoint with
    | none =>
        have zero : state.room.checkpointSeq = 0 :=
          congrArg (fun stored => (stored.map Checkpoint.seqCovered).getD 0) stored
        omega
    | some checkpoint =>
        rw [← ChatRoom.seqCovered_eq stored] at low
        refine .inr ⟨checkpoint, stored, low, Bool.eq_false_iff.mpr fun contained => held ?_⟩
        obtain ⟨named, decoded, some_named, subset⟩ :=
          Document.containsFrontier_iff.mp contained
        have names := (faithful.recorded.stands checkpoint stored).named named decoded some_named
        exact subset (names row listed positive low)

/-- In every run without a reset whose checkpoints are honest and whose
acknowledgements, where they move the cursor, are for rows that the document has or the
checkpoint covers: all rows up to the cursor on disk are in the snapshot or yet to come
with the checkpoint, as are those up to the cursor of the persister, and a row that is
parked moves no cursor. -/
theorem cursors_are_honest (loro : Loro) (device : String) (events : List SyncEvent)
    (allowed : EveryStep (step loro device) (HonestStep loro) start events) :
    EveryState (step loro device) (fun state =>
      (∀ row ∈ state.accepted, row.seq ≤ state.snapshot.cursor →
        state.Reachable loro state.snapshot.updates row) ∧
      (∀ row ∈ state.accepted, row.seq ≤ state.client.applied →
        state.Reachable loro state.client.doc.applied row) ∧
      ∀ bytes seq, (state.client.doc.importRow loro bytes).2 = .pendingDependencies →
        (state.client.applyRemoteRow loro bytes seq).shared.cursor =
            state.client.shared.cursor ∧
          (state.client.applyRemoteRow loro bytes seq).applied = state.client.applied)
      start events := by
  apply everyState_of_everyStep (fun honest allowed stepped => honest.step allowed stepped) _
    honestCursors_start allowed
  intro state honest
  refine ⟨?_, ?_, fun bytes seq parked => ChatClient.unmoved_of_parked parked seq⟩
  · exact fun row listed below => honest.toFaithful.reachable honest.snapshot listed below
  · exact fun row listed below => honest.toFaithful.reachable honest.client.applied listed below

/-- A run that meets the conditions: a row arrives, the device pushes one, and the
snapshot is saved. -/
theorem cursors_are_honest_over_push :
    EveryState (step .bytewise "device") (fun state =>
      (∀ row ∈ state.accepted, row.seq ≤ state.snapshot.cursor →
        state.Reachable .bytewise state.snapshot.updates row) ∧
      (∀ row ∈ state.accepted, row.seq ≤ state.client.applied →
        state.Reachable .bytewise state.client.doc.applied row) ∧
      ∀ bytes seq, (state.client.doc.importRow .bytewise bytes).2 = .pendingDependencies →
        (state.client.applyRemoteRow .bytewise bytes seq).shared.cursor =
            state.client.shared.cursor ∧
          (state.client.applyRemoteRow .bytewise bytes seq).applied = state.client.applied)
      start [.append "other" "a" [4], .dial, .serve true, .receive true, .proceed, .serve true,
        .receive true, .receive true, .edit "b" [5, 4] true true, .nudge, .send true, .serve true,
        .receive true, .commit 1 [4] [4], .sample, .flush true] := by
  apply cursors_are_honest
  apply everyStep_of_checkSteps (fun state event => decide (HonestStep .bytewise state event))
  · exact fun state event => of_decide_eq_true
  · rfl

/-- A restart parks the update of a batch whose basis has moved into a checkpoint; the
acknowledgement of the batch then moves the cursor past its row, and the next
snapshot is saved without it. -/
theorem acknowledgement_hides_row :
    ∃ final row, run (step .bytewise "device") start
        [.append "other" "a" [4], .dial, .serve true, .receive true, .proceed, .serve true,
          .receive true, .receive true, .edit "b" [5, 4] true true, .restart, .commit 1 [4] [4],
          .dial, .serve true, .receive true, .disconnect, .sync, .post true, .servePost,
          .posted true, .sample, .flush true] = some final ∧
      EveryStep (step .bytewise "device") (KeepsLog .bytewise) start
        [.append "other" "a" [4], .dial, .serve true, .receive true, .proceed, .serve true,
          .receive true, .receive true, .edit "b" [5, 4] true true, .restart, .commit 1 [4] [4],
          .dial, .serve true, .receive true, .disconnect, .sync, .post true, .servePost,
          .posted true, .sample, .flush true] ∧
      row ∈ final.accepted ∧ row.seq ≤ final.snapshot.cursor ∧
      ¬ final.Reachable .bytewise final.snapshot.updates row := by
  refine ⟨_, { seq := 2, device := "device", batchId := "b", bytes := [5, 4] }, rfl, ?_, ?_, ?_, ?_⟩
  · apply everyStep_of_checkSteps (fun state event => decide (KeepsLog .bytewise state event))
    · exact fun state event => of_decide_eq_true
    · rfl
  · exact List.mem_cons_of_mem _ List.mem_cons_self
  · exact le_rfl
  · rintro (held | ⟨checkpoint, same, covered, _⟩)
    · cases held
    · cases same
      exact absurd covered (by decide)

end SyncRoom

end Zeron.Chat
