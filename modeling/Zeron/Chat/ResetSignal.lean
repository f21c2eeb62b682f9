import Zeron.Chat.SyncRoom

/-!
# The signal of a wiped room

A client whose cursor is ahead of the room's head has met a wipe.  Its host learns
of that by an event, on which it seeds the room again; the cursor that gave the
wipe away is gone afterwards.
-/

namespace Zeron.Chat

open Transition

namespace ChatClient

/-- The wipes that the client has signalled. -/
def signals (client : ChatClient) : List Nat :=
  client.events.filterMap ChatEvent.signalled

/-- Neither event nor counter has changed. -/
structure Silent (before after : ChatClient) : Prop where
  signals : after.signals = before.signals
  serverResets : after.serverResets = before.serverResets

variable {loro : Loro}

theorem Silent.refl (client : ChatClient) : Silent client client :=
  ⟨rfl, rfl⟩

theorem Silent.trans {first second third : ChatClient} (former : Silent first second)
    (latter : Silent second third) : Silent first third :=
  ⟨latter.signals.trans former.signals, latter.serverResets.trans former.serverResets⟩

theorem silent_applyCursorAmnesty (client : ChatClient) (state : StateHeader) :
    Silent client (client.applyCursorAmnesty state) := by
  unfold applyCursorAmnesty
  split
  · exact ⟨rfl, rfl⟩
  · split <;> exact ⟨rfl, rfl⟩

theorem silent_applyRemoteRow (client : ChatClient) (bytes : Update) (seq : Nat) :
    Silent client (client.applyRemoteRow loro bytes seq) := by
  unfold applyRemoteRow
  simp only
  split
  all_goals
    split <;> exact ⟨rfl, rfl⟩

theorem silent_clearNeedsCheckpoint (client : ChatClient) (generation : Nat) :
    Silent client (client.clearNeedsCheckpoint generation) := by
  unfold clearNeedsCheckpoint
  split <;> exact ⟨rfl, rfl⟩

theorem silent_onAck (client : ChatClient) (batchId : String) (seq : Nat) (deletes : Bool) :
    Silent client (client.onAck batchId seq deletes) := by
  unfold onAck
  simp only
  split <;> exact ⟨rfl, rfl⟩

theorem silent_onError {client next : ChatClient} {code : ErrorCode} {batchId : String}
    {marks : Bool} (handled : client.onError code batchId marks = some next) :
    Silent client next := by
  unfold onError at handled
  split at handled
  · obtain ⟨queue, _, rfl⟩ := Option.map_eq_some_iff.mp handled
    exact ⟨rfl, rfl⟩
  · split at handled
    · cases handled
      exact ⟨rfl, rfl⟩
    · cases handled
      exact ⟨rfl, rfl⟩

theorem silent_handleFrame {client next : ChatClient} {disk : Bool} {frame : ServerFrame}
    (handled : client.handleFrame loro disk frame = some next) : Silent client next := by
  cases frame with
  | state header frontier =>
      cases handled
      exact ⟨rfl, rfl⟩
  | row seq bytes =>
      cases handled
      exact silent_applyRemoteRow client bytes seq
  | rowsDone headSeq =>
      cases handled
      exact ⟨rfl, rfl⟩
  | ack batchId seq =>
      cases handled
      exact silent_onAck client batchId seq disk
  | error code batchId => exact silent_onError handled

theorem silent_finishCatchUp (client : ChatClient) (read : RoomRead) (headSeq : Nat) :
    Silent client (client.finishCatchUp read headSeq) := by
  have signals_eq : (client.events ++ [ChatEvent.caughtUp headSeq]).filterMap ChatEvent.signalled =
      client.signals := by
    rw [List.filterMap_append]
    exact List.append_nil _
  unfold finishCatchUp
  simp only
  split
  · exact ⟨rfl, rfl⟩
  · split <;> exact ⟨signals_eq, rfl⟩

theorem silent_maybeRepairGap (client : ChatClient) (repairs : Nat) :
    Silent client (client.maybeRepairGap repairs).1 := by
  unfold maybeRepairGap
  split
  · exact ⟨rfl, rfl⟩
  · split
    · exact ⟨rfl, rfl⟩
    · split <;> exact ⟨rfl, rfl⟩

theorem silent_startRefresh (client : ChatClient) (refresh : Option RoomRead) (head : Nat) :
    Silent client (client.startRefresh refresh head).1 := by
  unfold startRefresh
  split <;> exact ⟨rfl, rfl⟩

theorem silent_finishRefresh (client : ChatClient) (read : RoomRead) (headSeq : Nat) :
    Silent client (client.finishRefresh read headSeq) := by
  unfold finishRefresh
  split
  · exact ⟨rfl, rfl⟩
  · split <;> exact ⟨rfl, rfl⟩

theorem silent_onPosted (client : ChatClient) (batchId : String) (seq : Nat) (deletes : Bool) :
    Silent client (client.onPosted batchId seq deletes) := by
  unfold onPosted
  simp only
  split <;> exact ⟨rfl, rfl⟩

theorem silent_pullFrames (pull : Pull) (client : ChatClient) (frames : List ServerFrame) :
    Silent client (client.pullFrames loro pull frames) := by
  induction frames generalizing client with
  | nil => exact Silent.refl client
  | cons frame frames ih =>
      have first : Silent client (client.pullFrame loro pull frame) := by
        cases frame with
        | row seq bytes => exact silent_applyRemoteRow client bytes seq
        | rowsDone headSeq =>
            unfold pullFrame
            simp only
            split <;> exact ⟨rfl, rfl⟩
        | state _ _ => exact Silent.refl client
        | ack _ _ => exact Silent.refl client
        | error _ _ => exact Silent.refl client
      exact first.trans (ih _)

theorem silent_finishPull (pull : Pull) (client : ChatClient) (state : StateHeader)
    (repairGeneration after : Nat) (frames : List ServerFrame) :
    Silent client (client.finishPull loro pull state repairGeneration after frames) := by
  unfold finishPull
  generalize (if state.headSeq < client.shared.cursor then after
    else max client.shared.cursor after) = cursor
  have moved : Silent client (client.withCursor cursor) := ⟨rfl, rfl⟩
  exact moved.trans
    ((silent_clearNeedsCheckpoint _ repairGeneration).trans (silent_pullFrames pull _ frames))

/-- A hello that meets a wipe signals it. -/
theorem signals_joinRoom (client : ChatClient) (state : StateHeader) (frontier : List UInt8) :
    (client.joinRoom loro state frontier).1.signals = client.signals ++
        (if state.headSeq < client.shared.cursor then [state.wipes] else []) ∧
      (client.joinRoom loro state frontier).1.serverResets = client.serverResets +
        if state.headSeq < client.shared.cursor then 1 else 0 := by
  unfold joinRoom
  simp only
  by_cases wiped : state.headSeq < client.shared.cursor
  · rw [if_pos wiped, if_pos wiped, if_pos wiped]
    have silent := silent_applyCursorAmnesty (ChatClient.mk { client.shared with
      rowsReqOutstanding := false } client.doc 0 client.cursorVerified client.amnestyDone
      client.resumed client.queue client.retrying (client.events ++ [.serverReset state.wipes])
      (client.serverResets + 1) client.issued client.completedRead) state
    have signals_eq : (client.events ++ [ChatEvent.serverReset state.wipes]).filterMap
        ChatEvent.signalled = client.signals ++ [state.wipes] := by
      rw [List.filterMap_append]
      rfl
    exact ⟨silent.signals.trans signals_eq, silent.serverResets⟩
  · rw [if_neg wiped, if_neg wiped, if_neg wiped, List.append_nil]
    have silent := silent_applyCursorAmnesty
      { client with shared := { client.shared with rowsReqOutstanding := false } } state
    exact ⟨silent.signals, silent.serverResets⟩

end ChatClient

namespace SyncRoom

/-- The wipe that an HTTPS answer shows to the client, if the client restarts its
cursor for it. -/
def pullRestarts (loro : Loro) (state : SyncRoom) (pull : Pull) : List ServerFrame → Option Nat
  | .state header frontier :: _ =>
      let client := state.client.applyCursorAmnesty header
      if header.headSeq < pull.cursor then some header.wipes
      else if client.shared.cursor < pull.cursor then none
      else
        match planCatchUp pull.cursor header (client.contained loro header frontier) with
        | .rowsOnly _ => if header.headSeq < client.shared.cursor then some header.wipes else none
        | .checkpointThenRows _ => none
  | _ => none

/-- The wipe for which a step of the HTTPS cycle restarts the cursor. -/
def httpRestarts (loro : Loro) (state : SyncRoom) : SyncEvent → Option Nat
  | .pulled count =>
      match state.http with
      | some (.pulling pull (some frames)) => state.pullRestarts loro pull (frames.take count)
      | _ => none
  | .httpFetched =>
      match state.http with
      | some (.fetching _ header _ _ _ (some _)) =>
          if header.headSeq < state.client.shared.cursor then some header.wipes else none
      | _ => none
  | _ => none

/-- The wipe for which a hello restarts the cursor. -/
def helloRestarts (state : SyncRoom) : SyncEvent → Option Nat
  | .receive _ =>
      match state.socket with
      | some { phase := .hello, inbound := .state header _ :: _, .. } =>
          if header.headSeq < state.client.shared.cursor then some header.wipes else none
      | _ => none
  | _ => none

/-- The wipe for which a step restarts the cursor. -/
def restarts (loro : Loro) (state : SyncRoom) (event : SyncEvent) : Option Nat :=
  state.helloRestarts event <|> state.httpRestarts loro event

/-- After a step that restarts the cursor the wipe has been signalled. -/
def Signals (loro : Loro) (device : String) (state : SyncRoom) (event : SyncEvent) : Prop :=
  ∀ next wipe, step loro device state event = some next →
    state.restarts loro event = some wipe → 0 < wipe → wipe ∈ next.client.signals

variable {loro : Loro} {device : String}

/-! ## Steps -/

section

variable (state : SyncRoom)
include state

theorem silent_steadyTurn (client : ChatClient) (socket : Socket) (repairs : Nat)
    (refresh : Option RoomRead) :
    client.Silent (state.steadyTurn client socket repairs refresh).client := by
  have repaired := client.silent_maybeRepairGap repairs
  unfold steadyTurn
  split
  · rename_i left same
    rw [same] at repaired
    exact repaired.trans ⟨rfl, rfl⟩
  · rename_i left repairs requests same
    rw [same] at repaired
    exact repaired.trans (left.silent_startRefresh refresh state.room.headSeq)

theorem silent_endBackfill (client : ChatClient) (socket : Socket) (read : RoomRead)
    (headSeq : Nat) :
    client.Silent (state.endBackfill client socket read headSeq).client :=
  (client.silent_finishCatchUp read headSeq).trans (silent_steadyTurn _ _ _ _ _)

theorem silent_transmit (socket : Socket) (push : PendingPush) (persists : Bool)
    (pushes : PushSession) :
    state.client.Silent (state.transmit socket push persists pushes).client := by
  unfold transmit
  simp only
  split <;> exact ⟨rfl, rfl⟩

theorem silent_receiveSteady (socket : Socket) (repairs : Nat) (refresh : Option RoomRead)
    (disk : Bool) (frame : ServerFrame) :
    state.client.Silent (state.receiveSteady loro socket repairs refresh disk frame).client := by
  unfold receiveSteady
  split
  · exact ⟨rfl, rfl⟩
  · rename_i client handled
    have quiet := ChatClient.silent_handleFrame handled
    split
    · exact quiet.trans
        ((client.silent_finishRefresh _ _).trans (silent_steadyTurn _ _ _ _ _))
    · exact quiet.trans (silent_steadyTurn _ _ _ _ _)

theorem silent_drainFrame (socket : Socket) (read : RoomRead) (head : Option Nat) (disk : Bool)
    (buffered : List ServerFrame) :
    state.client.Silent (state.drainFrame loro socket read head disk buffered).client := by
  unfold drainFrame
  split
  · split
    · exact silent_endBackfill _ _ _ _ _
    · exact ChatClient.Silent.refl _
  · split <;> exact ⟨rfl, rfl⟩
  · split
    · exact ⟨rfl, rfl⟩
    · exact ChatClient.silent_handleFrame ‹_›

theorem silent_pullAnswer (pull : Pull) (frames : List ServerFrame) :
    state.client.Silent (state.pullAnswer loro pull frames).client := by
  unfold pullAnswer
  split
  · exact ChatClient.Silent.refl _
  · rename_i header frontier frames
    have asked := state.client.silent_applyCursorAmnesty header
    unfold pullState
    simp only
    split
    · exact asked
    · have fresh : (state.client.applyCursorAmnesty header).Silent
          (if header.headSeq < pull.cursor then
            (state.client.applyCursorAmnesty header).resetCursor
          else state.client.applyCursorAmnesty header) := by
        split <;> exact ⟨rfl, rfl⟩
      split
      · exact asked.trans (fresh.trans (ChatClient.silent_finishPull _ _ _ _ _ _))
      · exact asked.trans fresh
  · exact state.client.silent_pullFrames pull _

/-- A hello signals the wipe that it meets, whatever follows. -/
theorem signals_join (socket : Socket) (header : StateHeader) (frontier : List UInt8) :
    (state.join loro socket header frontier).client.signals = state.client.signals ++
        (if header.headSeq < state.client.shared.cursor then [header.wipes] else []) ∧
      (state.join loro socket header frontier).client.serverResets = state.client.serverResets +
        if header.headSeq < state.client.shared.cursor then 1 else 0 :=
  state.client.signals_joinRoom header frontier

end

variable {state next : SyncRoom}

/-- A frame is the state that a hello waits for, or it signals nothing. -/
theorem receiveFrame_cases {socket : Socket} {disk : Bool} {frame : ServerFrame}
    (received : state.receiveFrame loro socket disk frame = some next) :
    (∃ header frontier, socket.phase = .hello ∧ frame = .state header frontier ∧
      next = state.join loro socket header frontier) ∨ state.client.Silent next.client := by
  unfold receiveFrame at received
  split at received
  · rename_i hello
    cases received
    exact .inl ⟨_, _, hello, rfl, rfl⟩
  · cases received
    exact .inr (ChatClient.Silent.refl _)
  · cases received
    exact .inr (ChatClient.Silent.refl _)
  · cases received
    exact .inr (silent_endBackfill _ _ _ _ _)
  · split at received
    · cases received
      exact .inr ⟨rfl, rfl⟩
    · rename_i handled
      cases received
      exact .inr (ChatClient.silent_handleFrame handled)
  · cases received
    exact .inr (silent_receiveSteady _ _ _ _ _ _)
  · cases received
  · cases received

variable {event : SyncEvent}

/-- What a step does to the signals. -/
theorem signals_step (stepped : step loro device state event = some next) :
    (∃ disk socket header frontier inbound, event = .receive disk ∧
        state.socket = some socket ∧ socket.phase = .hello ∧
        socket.inbound = .state header frontier :: inbound ∧
        next = state.join loro { socket with inbound } header frontier) ∨
      state.client.Silent next.client ∨ (event = .restart ∧ next = state.restart loro) := by
  cases event with
  | receive disk =>
      simp only [step] at stepped
      split at stepped
      · rename_i socket connected
        split at stepped
        · rename_i frame inbound _ inbound_eq
          obtain ⟨header, frontier, hello, rfl, rfl⟩ | silent := receiveFrame_cases stepped
          · exact .inl ⟨disk, socket, header, frontier, inbound, rfl, connected, hello,
              inbound_eq, rfl⟩
          · exact .inr (.inl silent)
        · cases stepped
      · cases stepped
  | restart =>
      cases stepped
      exact .inr (.inr ⟨rfl, rfl⟩)
  | append other batchId bytes =>
      cases stepped
      right
      left
      unfold pushRow
      split
      · exact ChatClient.Silent.refl _
      · split <;> exact ChatClient.Silent.refl _
  | commit seqCovered frontier bytes =>
      cases stepped
      exact .inr (.inl (.refl _))
  | reset =>
      cases stepped
      exact .inr (.inl (.refl _))
  | edit batchId bytes persists marks =>
      simp only [step] at stepped
      split at stepped
      · cases stepped
        exact .inr (.inl ⟨rfl, rfl⟩)
      · cases stepped
  | requestCatchUp =>
      cases stepped
      exact .inr (.inl ⟨rfl, rfl⟩)
  | probe =>
      cases stepped
      exact .inr (.inl ⟨rfl, rfl⟩)
  | dial =>
      simp only [step] at stepped
      split at stepped
      · cases stepped
      · cases stepped
        exact .inr (.inl ⟨rfl, rfl⟩)
  | serve admitted =>
      simp only [step] at stepped
      split at stepped
      · split at stepped
        · cases stepped
          right
          left
          unfold serveFrame
          split
          · exact ChatClient.Silent.refl _
          · exact ChatClient.Silent.refl _
          · split
            · unfold pushRow
              split
              · exact ChatClient.Silent.refl _
              · split <;> exact ChatClient.Silent.refl _
            · exact ChatClient.Silent.refl _
        · cases stepped
      · cases stepped
  | send persists =>
      simp only [step] at stepped
      split at stepped
      · split at stepped
        · cases stepped
          exact .inr (.inl (silent_transmit _ _ _ _ _))
        · cases stepped
      · cases stepped
  | proceed =>
      simp only [step] at stepped
      split at stepped
      · split at stepped
        · cases stepped
          exact .inr (.inl (.refl _))
        · cases stepped
          exact .inr (.inl (ChatClient.silent_clearNeedsCheckpoint _ _))
        · cases stepped
      · cases stepped
  | download =>
      simp only [step] at stepped
      split at stepped
      · split at stepped
        · cases stepped
          exact .inr (.inl (.refl _))
        · cases stepped
      · cases stepped
  | fetched =>
      simp only [step] at stepped
      split at stepped
      · split at stepped
        · cases stepped
          right
          left
          exact ⟨(ChatClient.silent_clearNeedsCheckpoint _ _).signals,
            (ChatClient.silent_clearNeedsCheckpoint _ _).serverResets⟩
        · cases stepped
      · cases stepped
  | drain disk =>
      simp only [step] at stepped
      split at stepped
      · split at stepped
        · cases stepped
          exact .inr (.inl (silent_drainFrame _ _ _ _ _ _))
        · cases stepped
      · cases stepped
  | nudge =>
      simp only [step] at stepped
      split at stepped
      · split at stepped
        · cases stepped
          exact .inr (.inl (.refl _))
        · cases stepped
      · cases stepped
  | retry persists =>
      simp only [step] at stepped
      split at stepped
      · split at stepped
        · split at stepped
          · cases stepped
            exact .inr (.inl ⟨rfl, rfl⟩)
          · cases stepped
            right
            left
            exact ⟨(silent_transmit _ _ _ _ _).signals, (silent_transmit _ _ _ _ _).serverResets⟩
        · cases stepped
      · cases stepped
  | turn =>
      simp only [step] at stepped
      split at stepped
      · split at stepped
        · cases stepped
          exact .inr (.inl (ChatClient.silent_startRefresh _ _ _))
        · cases stepped
      · cases stepped
  | disconnect =>
      obtain ⟨socket, _, rfl⟩ := Option.map_eq_some_iff.mp stepped
      exact .inr (.inl ⟨rfl, rfl⟩)
  | sync =>
      simp only [step] at stepped
      split at stepped
      · cases stepped
        exact .inr (.inl (.refl _))
      · cases stepped
  | post persists =>
      simp only [step] at stepped
      split at stepped
      · cases stepped
        exact .inr (.inl ⟨rfl, rfl⟩)
      · cases stepped
  | servePost =>
      simp only [step] at stepped
      split at stepped
      · cases stepped
        right
        left
        unfold pushRow
        split
        · exact ChatClient.Silent.refl _
        · split <;> exact ChatClient.Silent.refl _
      · cases stepped
  | posted disk =>
      simp only [step] at stepped
      split at stepped
      · cases stepped
        exact .inr (.inl (ChatClient.silent_onPosted _ _ _ _))
      · cases stepped
  | pull =>
      simp only [step] at stepped
      split at stepped
      · cases stepped
        exact .inr (.inl (.refl _))
      · cases stepped
  | servePull =>
      simp only [step] at stepped
      split at stepped
      · cases stepped
        exact .inr (.inl (.refl _))
      · cases stepped
  | pulled count =>
      simp only [step] at stepped
      split at stepped
      · cases stepped
        exact .inr (.inl (silent_pullAnswer _ _ _))
      · cases stepped
  | httpDownload =>
      simp only [step] at stepped
      split at stepped
      · cases stepped
        exact .inr (.inl (.refl _))
      · cases stepped
  | httpFetched =>
      simp only [step] at stepped
      split at stepped
      · cases stepped
        right
        left
        exact ⟨(ChatClient.silent_finishPull _ _ _ _ _ _).signals,
          (ChatClient.silent_finishPull _ _ _ _ _ _).serverResets⟩
      · cases stepped
  | httpFailed =>
      simp only [step] at stepped
      split at stepped
      · cases stepped
        exact .inr (.inl (.refl _))
      · cases stepped
        exact .inr (.inl ⟨rfl, rfl⟩)
      · cases stepped
        exact .inr (.inl (.refl _))
      · cases stepped
  | sample =>
      cases stepped
      exact .inr (.inl (.refl _))
  | flush saves =>
      obtain ⟨cursor, _, rfl⟩ := Option.map_eq_some_iff.mp stepped
      exact .inr (.inl (.refl _))

/-- The counter counts the signals. -/
theorem counted_step (counted : state.client.serverResets = state.client.signals.length)
    (stepped : step loro device state event = some next) :
    next.client.serverResets = next.client.signals.length := by
  obtain ⟨_, socket, header, frontier, inbound, _, _, _, _, rfl⟩ | silent | ⟨_, rfl⟩ :=
    signals_step stepped
  · obtain ⟨signals_eq, resets_eq⟩ :=
      @signals_join loro state { socket with inbound } header frontier
    rw [signals_eq, resets_eq, counted, List.length_append]
    split <;> rfl
  · rw [silent.signals, silent.serverResets]
    exact counted
  · rfl

variable {wipe : Nat}

/-- A hello always signals the wipe for which it restarts the cursor. -/
theorem signals_of_hello (stepped : step loro device state event = some next)
    (restarts : state.helloRestarts event = some wipe) : wipe ∈ next.client.signals := by
  unfold helloRestarts at restarts
  split at restarts
  · rename_i disk
    split at restarts
    · rename_i header frontier inbound connected
      split at restarts
      · rename_i wiped
        cases restarts
        simp only [step, connected] at stepped
        split at stepped
        · rename_i frame rest _ same
          cases same
          cases stepped
          rw [(signals_join _ _ _ _).1, if_pos wiped]
          exact List.mem_concat_self
        · cases stepped
      · cases restarts
    · cases restarts
  · cases restarts

/-- An HTTPS step that restarts the cursor goes on without a signal. -/
theorem silent_of_http (device : String) {state : SyncRoom}
    (restarts : state.httpRestarts loro event = some wipe) :
    ∃ next, step loro device state event = some next ∧ state.client.Silent next.client := by
  unfold httpRestarts at restarts
  split at restarts
  · rename_i count
    split at restarts
    · rename_i pull frames pulling
      have stepped : step loro device state (.pulled count) =
          some (state.pullAnswer loro pull (frames.take count)) := by
        simp only [step, pulling]
      exact ⟨_, stepped, silent_pullAnswer _ _ _⟩
    · cases restarts
  · split at restarts
    · rename_i pull header generation after frames blob fetching
      have silent : (state.client.applyCheckpoint loro blob header.checkpointSeq).Silent
          ((state.client.applyCheckpoint loro blob header.checkpointSeq).finishPull loro pull
            header generation after frames) :=
        ChatClient.silent_finishPull _ _ _ _ _ _
      have stepped : step loro device state .httpFetched = some { state with
          client := (state.client.applyCheckpoint loro blob header.checkpointSeq).finishPull loro
            pull header generation after frames
          http := none } := by
        simp only [step, fetching]
      exact ⟨_, stepped, silent.signals, silent.serverResets⟩
    · cases restarts
  · cases restarts

theorem helloRestarts_of_http {state : SyncRoom}
    (restarts : state.httpRestarts loro event = some wipe) : state.helloRestarts event = none := by
  unfold httpRestarts at restarts
  split at restarts
  · rfl
  · rfl
  · cases restarts

/-- One step signals what it restarts the cursor for, unless it is an HTTPS step that
meets a wipe first. -/
theorem signals_iff (state : SyncRoom) (event : SyncEvent) :
    state.Signals loro device event ↔ ∀ wipe, state.httpRestarts loro event = some wipe →
      0 < wipe → wipe ∈ state.client.signals := by
  constructor
  · intro signals wipe restarts met
    obtain ⟨next, stepped, silent⟩ := silent_of_http device restarts
    have signalled := signals next wipe stepped (by
      unfold SyncRoom.restarts
      rw [helloRestarts_of_http restarts]
      exact restarts) met
    rw [silent.signals] at signalled
    exact signalled
  · intro known next wipe stepped restarts met
    unfold SyncRoom.restarts at restarts
    cases hello : state.helloRestarts event with
    | some other =>
        rw [hello] at restarts
        cases restarts
        exact signals_of_hello stepped hello
    | none =>
        rw [hello] at restarts
        have http : state.httpRestarts loro event = some wipe := restarts
        obtain ⟨other, other_stepped, silent⟩ := silent_of_http device http
        obtain rfl : other = next := Option.some.inj (other_stepped.symm.trans stepped)
        rw [silent.signals]
        exact known wipe http met

/-- Along every run the wipe behind each restart of the cursor is signalled and
counted, exactly when the run's HTTPS steps restart it only for wipes that a hello has
signalled before. -/
theorem resets_are_signalled_iff (loro : Loro) (device : String) (events : List SyncEvent) :
    (EveryStep (step loro device) (Signals loro device) start events ↔
      EveryStep (step loro device) (fun state event =>
        ∀ wipe, state.httpRestarts loro event = some wipe → 0 < wipe →
          wipe ∈ state.client.signals) start events) ∧
    EveryState (step loro device) (fun state =>
      state.client.serverResets = state.client.signals.length) start events := by
  constructor
  · exact @everyStep_congr _ _ (step loro device) (fun _ => True) _ _ (fun _ _ => trivial)
      (fun _ => signals_iff _ _) _ events trivial
  · have counted : start.client.serverResets = start.client.signals.length := rfl
    exact everyState_of_invariant counted_step id counted events

/-- A client that has one row polls over HTTPS after a wipe: its cursor restarts and
nothing tells, then or at the next hello. -/
theorem pull_hides_wipe :
    ∃ met hidden joined, run (step .bytewise "device") start
        [.append "other" "batch" [4], .dial, .serve true, .receive true, .proceed, .serve true,
          .receive true, .receive true, .disconnect, .reset, .sync, .pull, .servePull] =
          some met ∧
      met.client.shared.cursor = 1 ∧ met.restarts .bytewise (.pulled 2) = some 1 ∧
      step .bytewise "device" met (.pulled 2) = some hidden ∧
      hidden.client.shared.cursor = 0 ∧ hidden.client.signals = [] ∧
      hidden.client.serverResets = 0 ∧
      run (step .bytewise "device") hidden [.dial, .serve true, .receive true] = some joined ∧
      joined.client.signals = [] := by
  refine ⟨_, _, _, rfl, ?_, ?_, rfl, ?_, ?_, ?_, rfl, ?_⟩
  all_goals rfl

end SyncRoom

end Zeron.Chat
