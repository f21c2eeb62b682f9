import Zeron.Chat.SyncRoom

/-!
# What travels between a room and its client

The rows of a log do not change, and checkpoints only cover more of them.  So what a
frame, a header or a downloaded checkpoint said when it was sent stays true on its
way, whatever the room takes meanwhile.
-/

namespace Zeron.Chat

open Transition

/-- A log as the statements see it: all rows since the last wipe, the last number,
and the number up to which the checkpoint covers. -/
structure RoomLog where
  accepted : List LogRow
  head : Nat
  covered : Nat

variable {after : RoomLog} {more : List Update}

namespace RoomLog

/-- The updates of the rows above `low`, up to `high`, are there. -/
def Holds (log : RoomLog) (updates : List Update) (low high : Nat) : Prop :=
  ∀ row ∈ log.accepted, low < row.seq → row.seq ≤ high → row.bytes ∈ updates

/-- The cursor stands for rows that are there, but those up to `debt`, which a
checkpoint is to bring. -/
structure Honest (log : RoomLog) (updates : List Update) (debt cursor : Nat) : Prop where
  within : cursor ≤ log.head
  holds : log.Holds updates debt cursor

/-- New rows have new numbers. -/
structure Grows (before after : RoomLog) : Prop where
  head : before.head ≤ after.head
  covered : before.covered ≤ after.covered
  accepted : ∀ row ∈ after.accepted, row ∈ before.accepted ∨ before.head < row.seq

variable {log : RoomLog} {updates : List Update} {low high : Nat}

theorem Grows.refl (log : RoomLog) : Grows log log :=
  ⟨le_rfl, le_rfl, fun _ listed => .inl listed⟩

theorem Holds.subset (holds : log.Holds updates low high) (subset : updates ⊆ more) :
    log.Holds more low high :=
  fun row listed above below => subset (holds row listed above below)

theorem Holds.narrow {low' high' : Nat} (holds : log.Holds updates low high)
    (above : low ≤ low') (below : high' ≤ high) : log.Holds updates low' high' :=
  fun row listed low_lt le_high =>
    holds row listed (above.trans_lt low_lt) (le_high.trans below)

theorem holds_of_le (log : RoomLog) (updates : List Update) (le : high ≤ low) :
    log.Holds updates low high := by
  intro row _ above below
  omega

theorem Holds.trans {middle : Nat} (former : log.Holds updates low middle)
    (latter : log.Holds updates middle high) : log.Holds updates low high := by
  intro row listed above below
  by_cases reached : row.seq ≤ middle
  · exact former row listed above reached
  · exact latter row listed (by omega) below

variable {other : Nat}

theorem Holds.max (first : log.Holds updates low high) (second : log.Holds updates low other) :
    log.Holds updates low (Max.max high other) := by
  intro row listed above below
  obtain reached | reached := le_max_iff.mp below
  · exact first row listed above reached
  · exact second row listed above reached

/-- Rows that were not there yet do not count. -/
theorem Holds.grow (holds : log.Holds updates low high) (grows : Grows log after)
    (within : high ≤ log.head) : after.Holds updates low high := by
  intro row listed above below
  obtain old | new := grows.accepted row listed
  · exact holds row old above below
  · omega

variable {debt cursor : Nat}

theorem honest_zero (log : RoomLog) (updates : List Update) (debt : Nat) :
    log.Honest updates debt 0 :=
  ⟨Nat.zero_le _, log.holds_of_le updates (Nat.zero_le _)⟩

theorem Honest.subset (honest : log.Honest updates debt cursor) (subset : updates ⊆ more) :
    log.Honest more debt cursor :=
  ⟨honest.within, honest.holds.subset subset⟩

theorem Honest.lower (honest : log.Honest updates debt cursor) (below : other ≤ cursor) :
    log.Honest updates debt other :=
  ⟨below.trans honest.within, honest.holds.narrow le_rfl below⟩

theorem Honest.owe (honest : log.Honest updates debt cursor) (le : debt ≤ other) :
    log.Honest updates other cursor :=
  ⟨honest.within, honest.holds.narrow le le_rfl⟩

theorem Honest.max (first : log.Honest updates debt cursor)
    (second : log.Honest updates debt other) :
    log.Honest updates debt (Max.max cursor other) :=
  ⟨max_le first.within second.within, first.holds.max second.holds⟩

/-- A debt is paid by a document that has what the checkpoint covers. -/
theorem Honest.pay (honest : log.Honest updates debt cursor) (holds : log.Holds updates 0 debt)
    (other : Nat) : log.Honest updates other cursor :=
  ⟨honest.within, (holds.trans honest.holds).narrow (Nat.zero_le _) le_rfl⟩

/-- The next row may be passed if it is there, or a checkpoint is to bring it. -/
theorem Honest.next {seq : Nat} (honest : log.Honest updates debt cursor)
    (within : seq ≤ log.head) (near : seq ≤ cursor + 1)
    (held : cursor + 1 = seq → ∀ row ∈ log.accepted, row.seq = seq →
      row.bytes ∈ updates ∨ seq ≤ debt) :
    log.Honest updates debt (Max.max cursor seq) := by
  refine ⟨max_le honest.within within, ?_⟩
  intro row listed above below
  by_cases old : row.seq ≤ cursor
  · exact honest.holds row listed above old
  · obtain here | owed := held (by omega) row listed (by omega)
    · exact here
    · omega

theorem Honest.grow (honest : log.Honest updates debt cursor) (grows : Grows log after) :
    after.Honest updates debt cursor :=
  ⟨honest.within.trans grows.head, honest.holds.grow grows honest.within⟩

end RoomLog

/-! ## Checkpoints and headers -/

/-- A checkpoint has the rows that it covers, and its frontier names them. -/
structure Checkpoint.Stands (loro : Loro) (log : RoomLog) (checkpoint : Checkpoint) : Prop where
  not_empty : checkpoint.bytes.length ≠ 0
  content : log.Holds (loro.content checkpoint.bytes) 0 checkpoint.seqCovered
  named : ∀ named ∈ loro.decode checkpoint.frontier, named ≠ [] →
    log.Holds named 0 checkpoint.seqCovered

theorem Checkpoint.Stands.grow {loro : Loro} {log : RoomLog} {checkpoint : Checkpoint}
    (stands : checkpoint.Stands loro log) (grows : log.Grows after)
    (within : checkpoint.seqCovered ≤ log.head) : checkpoint.Stands loro after where
  not_empty := stands.not_empty
  content := stands.content.grow grows within
  named named decoded some_named := (stands.named named decoded some_named).grow grows within

/-- The header tells of a checkpoint that the log had. -/
structure StateHeader.Faithful (log : RoomLog) (header : StateHeader) : Prop where
  covered : header.checkpointSeq ≤ log.covered
  within : header.checkpointSeq ≤ log.head
  absent : header.checkpointSize = 0 → header.checkpointSeq = 0

variable {header : StateHeader}

theorem StateHeader.Faithful.grow {log : RoomLog} (faithful : header.Faithful log)
    (grows : log.Grows after) : header.Faithful after where
  covered := faithful.covered.trans grows.covered
  within := faithful.within.trans grows.head
  absent := faithful.absent

/-- A checkpoint that a header told of is no debt to a document that has its content. -/
theorem StateHeader.Faithful.honest {log : RoomLog} {updates : List Update}
    (faithful : header.Faithful log) (holds : log.Holds updates 0 header.checkpointSeq)
    (debt : Nat) :
    log.Honest updates debt header.checkpointSeq :=
  ⟨faithful.within, holds.narrow (Nat.zero_le _) le_rfl⟩

/-! ## Frames -/

/-- What a frame says is true of the log. -/
def ServerFrame.Faithful (loro : Loro) (log : RoomLog) : ServerFrame → Prop
  | .state header frontier =>
      header.Faithful log ∧ ∀ named ∈ loro.decode frontier, named ≠ [] →
        log.Holds named 0 header.checkpointSeq
  | .row seq bytes => seq ≤ log.head ∧ ∀ row ∈ log.accepted, row.seq = seq → row.bytes = bytes
  | .rowsDone headSeq => headSeq ≤ log.head
  | .ack _ seq => seq ≤ log.head
  | .error _ _ => True

variable {loro : Loro}

theorem ServerFrame.Faithful.grow {log : RoomLog} {frame : ServerFrame}
    (faithful : frame.Faithful loro log) (grows : log.Grows after) :
    frame.Faithful loro after := by
  cases frame with
  | state header frontier =>
      obtain ⟨told, names⟩ := faithful
      exact ⟨told.grow grows, fun named decoded some_named =>
        (names named decoded some_named).grow grows told.within⟩
  | row seq bytes =>
      obtain ⟨within, same⟩ := faithful
      refine ⟨within.trans grows.head, fun row listed seq_eq => ?_⟩
      obtain old | new := grows.accepted row listed
      · exact same row old seq_eq
      · omega
  | rowsDone headSeq => exact le_trans faithful grows.head
  | ack batchId seq => exact le_trans faithful grows.head
  | error code batchId => trivial

/-- Before the end of the rows come all rows above `base`. -/
def Answers (log : RoomLog) (base : Nat) (frames : List ServerFrame) : Prop :=
  ∀ earlier headSeq later, frames = earlier ++ .rowsDone headSeq :: later →
    ∀ row ∈ log.accepted, base < row.seq → row.seq ≤ headSeq → .row row.seq row.bytes ∈ earlier

variable {frames : List ServerFrame}

theorem Answers.grow {log : RoomLog} {base : Nat} (answers : Answers log base frames)
    (faithful : ∀ frame ∈ frames, frame.Faithful loro log) (grows : log.Grows after) :
    Answers after base frames := by
  intro earlier headSeq later parts row listed above below
  have within : headSeq ≤ log.head := by
    apply faithful (.rowsDone headSeq)
    rw [parts]
    exact List.mem_append_right _ List.mem_cons_self
  obtain old | new := grows.accepted row listed
  · exact answers earlier headSeq later parts row old above below
  · omega

/-- What arrives of an answer is an answer. -/
theorem Answers.take {log : RoomLog} {base : Nat} (answers : Answers log base frames)
    (count : Nat) : Answers log base (frames.take count) := by
  intro earlier headSeq later parts
  apply answers earlier headSeq (later ++ frames.drop count)
  rw [← List.cons_append, ← List.append_assoc, ← parts, List.take_append_drop]

/-! ## Sockets and cycles -/

def SessionPhase.Faithful (loro : Loro) (log : RoomLog) : SessionPhase → Prop
  | .joining header _ _ _ => header.Faithful log
  | .fetching header _ _ blob buffered =>
      header.Faithful log ∧
        (∀ bytes ∈ blob, log.Holds (loro.content bytes) 0 header.checkpointSeq) ∧
        ∀ frame ∈ buffered, frame.Faithful loro log
  | .draining _ head buffered =>
      (∀ headSeq ∈ head, headSeq ≤ log.head) ∧ ∀ frame ∈ buffered, frame.Faithful loro log
  | .hello | .backfill _ | .steady _ _ => True

theorem SessionPhase.Faithful.grow {log : RoomLog} {phase : SessionPhase}
    (faithful : phase.Faithful loro log) (grows : log.Grows after) :
    phase.Faithful loro after := by
  cases phase with
  | hello => trivial
  | joining header plan generation read => exact StateHeader.Faithful.grow faithful grows
  | fetching header generation read blob buffered =>
      obtain ⟨told, downloaded, frames⟩ := faithful
      exact ⟨told.grow grows,
        fun bytes held => (downloaded bytes held).grow grows told.within,
        fun frame listed => (frames frame listed).grow grows⟩
  | draining read head buffered =>
      obtain ⟨met, frames⟩ := faithful
      exact ⟨fun headSeq held => (met headSeq held).trans grows.head,
        fun frame listed => (frames frame listed).grow grows⟩
  | backfill read => trivial
  | steady repairs refresh => trivial

structure Socket.Faithful (loro : Loro) (log : RoomLog) (socket : Socket) : Prop where
  inbound : ∀ frame ∈ socket.inbound, frame.Faithful loro log
  phase : socket.phase.Faithful loro log

theorem Socket.Faithful.grow {log : RoomLog} {socket : Socket}
    (faithful : socket.Faithful loro log) (grows : log.Grows after) :
    socket.Faithful loro after where
  inbound frame listed := (faithful.inbound frame listed).grow grows
  phase := faithful.phase.grow grows

/-- The answer to a pull behind its state. -/
structure Pull.Answered (loro : Loro) (log : RoomLog) (pull : Pull) (header : StateHeader)
    (frames : List ServerFrame) : Prop where
  told : header.Faithful log
  faithful : ∀ frame ∈ frames, frame.Faithful loro log
  complete : Answers log (max pull.cursor header.checkpointSeq) frames
  /-- The rows end at least where the room was when the pull started. -/
  started : ∀ headSeq, ServerFrame.rowsDone headSeq ∈ frames → pull.read.started ≤ headSeq

theorem Pull.Answered.grow {log : RoomLog} {pull : Pull}
    (answered : pull.Answered loro log header frames) (grows : log.Grows after) :
    pull.Answered loro after header frames where
  told := answered.told.grow grows
  faithful frame listed := (answered.faithful frame listed).grow grows
  complete := answered.complete.grow answered.faithful grows
  started := answered.started

theorem Pull.Answered.take {log : RoomLog} {pull : Pull}
    (answered : pull.Answered loro log header frames) (count : Nat) :
    pull.Answered loro log header (frames.take count) where
  told := answered.told
  faithful frame listed := answered.faithful frame (List.mem_of_mem_take listed)
  complete := answered.complete.take count
  started headSeq listed := answered.started headSeq (List.mem_of_mem_take listed)

/-- What a cycle holds.  The cursor that a pull asked from was honest when it asked. -/
def HttpPhase.Faithful (loro : Loro) (log : RoomLog) (updates : List Update) :
    HttpPhase → Prop
  | .pushing _ _ answer => ∀ ack ∈ answer, ack.2 ≤ log.head
  | .pulling pull none =>
      pull.read.started ≤ log.head ∧ log.Honest updates log.covered pull.cursor
  | .pulling pull (some frames) => ∃ header frontier rest,
      frames = .state header frontier :: rest ∧
        ServerFrame.Faithful loro log (.state header frontier) ∧
        log.Honest updates header.checkpointSeq pull.cursor ∧ pull.Answered loro log header rest
  | .fetching pull header _ after frames blob =>
      after = header.checkpointSeq ∧ log.Honest updates header.checkpointSeq pull.cursor ∧
        pull.Answered loro log header frames ∧
        ∀ bytes ∈ blob, log.Holds (loro.content bytes) 0 header.checkpointSeq

theorem HttpPhase.Faithful.grow {log : RoomLog} {updates : List Update} {http : HttpPhase}
    (faithful : http.Faithful loro log updates) (grows : log.Grows after)
    (subset : updates ⊆ more) : http.Faithful loro after more := by
  cases http with
  | pushing batches posted answer =>
      exact fun ack held => (faithful ack held).trans grows.head
  | pulling pull answer =>
      cases answer with
      | none =>
          obtain ⟨started, honest⟩ := faithful
          exact ⟨started.trans grows.head,
            ((honest.subset subset).grow grows).owe grows.covered⟩
      | some frames =>
          obtain ⟨header, frontier, rest, parts, told, honest, answered⟩ := faithful
          exact ⟨header, frontier, rest, parts, told.grow grows,
            (honest.subset subset).grow grows, answered.grow grows⟩
  | fetching pull header generation from_seq frames blob =>
      obtain ⟨from_eq, honest, answered, downloaded⟩ := faithful
      exact ⟨from_eq, (honest.subset subset).grow grows, answered.grow grows,
        fun bytes held => (downloaded bytes held).grow grows answered.told.within⟩

/-! ## The log of a room -/

namespace ChatRoom

/-- The log of a room, with the rows that it has accepted. -/
def log (room : ChatRoom) (accepted : List LogRow) : RoomLog where
  accepted := accepted
  head := room.headSeq
  covered := room.checkpointSeq

/-- The room has all rows above its checkpoint, which stands for the others. -/
structure Recorded (loro : Loro) (room : ChatRoom) (accepted : List LogRow) : Prop where
  shape : room.Shape
  positive : ∀ row ∈ accepted, 0 < row.seq
  numbered : ∀ row ∈ accepted, row.seq ≤ room.headSeq
  unique : ∀ first ∈ accepted, ∀ second ∈ accepted, first.seq = second.seq → first = second
  stored : ∀ row ∈ room.rows, row ∈ accepted
  kept : ∀ row ∈ accepted, room.seqFloor < row.seq → row ∈ room.rows
  stands : ∀ checkpoint ∈ room.checkpoint, checkpoint.Stands loro (room.log accepted)

variable {loro : Loro} {room : ChatRoom} {accepted : List LogRow}

theorem recorded_initial : Recorded loro initial [] where
  shape := shape_initial
  positive _ listed := absurd listed List.not_mem_nil
  numbered _ listed := absurd listed List.not_mem_nil
  unique _ listed := absurd listed List.not_mem_nil
  stored _ listed := absurd listed List.not_mem_nil
  kept _ listed := absurd listed List.not_mem_nil
  stands _ held := absurd held (Option.not_mem_none _)

theorem Recorded.covered_le (recorded : room.Recorded loro accepted) :
    room.checkpointSeq ≤ room.headSeq :=
  recorded.shape.checkpoint.trans_le recorded.shape.floor_le_head

theorem seqCovered_eq {checkpoint : Checkpoint} (held : room.checkpoint = some checkpoint) :
    checkpoint.seqCovered = room.checkpointSeq := by
  unfold checkpointSeq
  rw [held]
  rfl

section

variable (recorded : room.Recorded loro accepted)
include recorded

/-- A header of the room is faithful. -/
theorem Recorded.faithful_stateHeader (wipes : Nat) :
    (room.stateHeader wipes).Faithful (room.log accepted) where
  covered := le_rfl
  within := recorded.covered_le
  absent := by
    intro size
    cases held : room.checkpoint with
    | none => exact congrArg (fun stored => (stored.map Checkpoint.seqCovered).getD 0) held
    | some checkpoint =>
        have not_empty := (recorded.stands checkpoint held).not_empty
        rw [show (room.stateHeader wipes).checkpointSize =
          (room.checkpoint.map fun checkpoint => checkpoint.bytes.length).getD 0 from rfl,
          held] at size
        exact absurd size not_empty

theorem Recorded.faithful_stateFrame (wipes : Nat) :
    (room.stateFrame wipes).Faithful loro (room.log accepted) := by
  refine ⟨recorded.faithful_stateHeader wipes, ?_⟩
  intro named decoded some_named
  cases held : room.checkpoint with
  | none =>
      have zero : (room.stateHeader wipes).checkpointSeq = 0 :=
        congrArg (fun stored => (stored.map Checkpoint.seqCovered).getD 0) held
      rw [zero]
      exact RoomLog.holds_of_le _ _ le_rfl
  | some checkpoint =>
      have frontier_eq : room.frontier = checkpoint.frontier := by
        unfold frontier
        rw [held]
        rfl
      rw [frontier_eq] at decoded
      have names := (recorded.stands checkpoint held).named named decoded some_named
      rw [seqCovered_eq held] at names
      exact names

theorem Recorded.faithful_row {row : LogRow} (listed : row ∈ accepted) :
    ServerFrame.Faithful loro (room.log accepted) (.row row.seq row.bytes) := by
  refine ⟨recorded.numbered row listed, ?_⟩
  intro other other_listed same
  rw [recorded.unique other other_listed row listed same]

theorem Recorded.faithful_rowFrames (after : Nat) (excluded : Option String) :
    ∀ frame ∈ room.rowFrames after excluded, frame.Faithful loro (room.log accepted) := by
  intro frame listed
  obtain ⟨row, selected, rfl⟩ := List.mem_map.mp listed
  have stored := List.mem_of_mem_filter (List.mem_of_mem_filter selected)
  exact recorded.faithful_row (recorded.stored row stored)

/-- Rows without their end answer nothing; with it, they are all there. -/
theorem Recorded.answers_rowFrames (after : Nat) :
    Answers (room.log accepted) (max after room.checkpointSeq)
      (room.rowFrames after none ++ [.rowsDone room.headSeq]) := by
  intro earlier headSeq later parts row listed above below
  have stored : row ∈ room.rows := by
    apply recorded.kept row listed
    rw [← recorded.shape.checkpoint]
    exact (le_max_right _ _).trans_lt above
  have selected : row ∈ (room.rowsAfter after).filter fun row => some row.device != none := by
    refine List.mem_filter.mpr ⟨List.mem_filter.mpr ⟨stored, ?_⟩, rfl⟩
    exact decide_eq_true ((le_max_left _ _).trans_lt above)
  have sent : ServerFrame.row row.seq row.bytes ∈ room.rowFrames after none :=
    List.mem_map.mpr ⟨row, selected, rfl⟩
  obtain ⟨rest, earlier_eq, _⟩ | ⟨rest, rows_eq, rest_eq⟩ := List.append_eq_append_iff.mp parts
  · rw [earlier_eq]
    exact List.mem_append_left _ sent
  · cases rest with
    | nil =>
        rw [rows_eq, List.append_nil] at sent
        exact sent
    | cons frame rest =>
        -- No row is an end of the rows.
        have frame_eq := (List.cons.inj rest_eq).1
        have row_listed : frame ∈ room.rowFrames after none := by
          rw [rows_eq]
          exact List.mem_append_right _ List.mem_cons_self
        obtain ⟨_, _, row_eq⟩ := List.mem_map.mp row_listed
        rw [← frame_eq] at row_eq
        cases row_eq

end

/-! ## What the room does to its log -/

theorem grows_append (room : ChatRoom) (accepted : List LogRow) (row : LogRow)
    (numbered : row.seq = room.headSeq + 1) :
    (room.log accepted).Grows
      (log { room with rows := room.rows ++ [row], headSeq := room.headSeq + 1 }
        (accepted ++ [row])) where
  head := Nat.le_succ _
  covered := le_rfl
  accepted other listed := by
    obtain old | new := List.mem_append.mp listed
    · exact .inl old
    · rw [List.mem_singleton.mp new, numbered]
      exact .inr (Nat.lt_succ_self _)

theorem Recorded.append (recorded : room.Recorded loro accepted) (row : LogRow)
    (numbered : row.seq = room.headSeq + 1)
    (shape : Shape { room with rows := room.rows ++ [row], headSeq := room.headSeq + 1 }) :
    Recorded loro { room with rows := room.rows ++ [row], headSeq := room.headSeq + 1 }
      (accepted ++ [row]) where
  shape := shape
  positive other listed := by
    obtain old | new := List.mem_append.mp listed
    · exact recorded.positive other old
    · rw [List.mem_singleton.mp new, numbered]
      exact Nat.succ_pos _
  numbered other listed := by
    obtain old | new := List.mem_append.mp listed
    · exact Nat.le_succ_of_le (recorded.numbered other old)
    · rw [List.mem_singleton.mp new, numbered]
  unique first first_listed second second_listed same := by
    obtain first_old | first_new := List.mem_append.mp first_listed
    · obtain second_old | second_new := List.mem_append.mp second_listed
      · exact recorded.unique first first_old second second_old same
      · have within := recorded.numbered first first_old
        rw [List.mem_singleton.mp second_new] at same
        omega
    · obtain second_old | second_new := List.mem_append.mp second_listed
      · have within := recorded.numbered second second_old
        rw [List.mem_singleton.mp first_new] at same
        omega
      · rw [List.mem_singleton.mp first_new, List.mem_singleton.mp second_new]
  stored other listed := by
    obtain old | new := List.mem_append.mp listed
    · exact List.mem_append_left _ (recorded.stored other old)
    · exact List.mem_append_right _ new
  kept other listed above := by
    obtain old | new := List.mem_append.mp listed
    · exact List.mem_append_left _ (recorded.kept other old above)
    · exact List.mem_append_right _ new
  stands checkpoint held := by
    have within : checkpoint.seqCovered ≤ room.headSeq := by
      rw [seqCovered_eq held]
      exact recorded.covered_le
    exact (recorded.stands checkpoint held).grow (grows_append room accepted row numbered) within

/-- A checkpoint write is refused, or the checkpoint takes the place of what it covers. -/
theorem write_checkpoint_cases (room : ChatRoom) (seqCovered : Nat)
    (frontier bytes : List UInt8) :
    room.write (.checkpoint seqCovered frontier bytes) = room ∨
    (bytes.length ≠ 0 ∧ room.seqFloor ≤ seqCovered ∧
      room.write (.checkpoint seqCovered frontier bytes) =
        { (room.commitCheckpoint seqCovered frontier bytes).1 with backupDirty := true } ∧
      (room.commitCheckpoint seqCovered frontier bytes).1 =
        { room with
          rows := room.rows.filter fun row => seqCovered < row.seq
          seqFloor := seqCovered
          checkpoint := some { seqCovered, frontier, bytes } }) := by
  simp only [write, commitCheckpoint]
  by_cases unnamed : frontier.length = 0 ∧ 0 < seqCovered
  · rw [if_pos unnamed]
    exact .inl rfl
  · rw [if_neg unnamed]
    by_cases no_bytes : bytes.length = 0
    · rw [if_pos no_bytes]
      exact .inl rfl
    · rw [if_neg no_bytes]
      by_cases regresses : seqCovered < room.seqFloor
      · rw [if_pos regresses]
        exact .inl rfl
      · rw [if_neg regresses]
        by_cases ahead : room.headSeq < seqCovered
        · rw [if_pos ahead]
          exact .inl rfl
        · rw [if_neg ahead]
          exact .inr ⟨no_bytes, not_lt.mp regresses, rfl, rfl⟩

theorem Recorded.commit (recorded : room.Recorded loro accepted) {seqCovered : Nat}
    {frontier bytes : List UInt8}
    (holds : ∀ row ∈ accepted, row.seq ≤ seqCovered → row.bytes ∈ loro.content bytes)
    (names : ∀ named ∈ loro.decode frontier, ∀ update ∈ loro.content bytes, update ∈ named) :
    Recorded loro (room.write (.checkpoint seqCovered frontier bytes)) accepted := by
  have shape := recorded.shape.commitCheckpoint seqCovered frontier bytes
  obtain refused | ⟨not_empty, above, written, committed⟩ :=
    room.write_checkpoint_cases seqCovered frontier bytes
  · rw [refused]
    exact recorded
  · rw [written]
    rw [committed] at shape ⊢
    constructor
    · exact { shape with }
    · exact recorded.positive
    · exact recorded.numbered
    · exact recorded.unique
    · exact fun row listed => recorded.stored row (List.mem_of_mem_filter listed)
    · intro row listed low
      refine List.mem_filter.mpr ⟨recorded.kept row listed (above.trans_lt low), ?_⟩
      exact decide_eq_true low
    · intro checkpoint held
      cases held
      exact ⟨not_empty, fun row listed _ below => holds row listed below,
        fun named decoded _ row listed _ below =>
          names named decoded row.bytes (holds row listed below)⟩

theorem Recorded.grows_commit (recorded : room.Recorded loro accepted) (seqCovered : Nat)
    (frontier bytes : List UInt8) :
    (room.log accepted).Grows
      ((room.write (.checkpoint seqCovered frontier bytes)).log accepted) := by
  obtain refused | ⟨_, above, written, committed⟩ :=
    room.write_checkpoint_cases seqCovered frontier bytes
  · rw [refused]
    exact RoomLog.Grows.refl _
  · rw [written, committed]
    have covered : room.checkpointSeq ≤ seqCovered := recorded.shape.checkpoint.trans_le above
    exact ⟨le_rfl, covered, fun _ listed => .inl listed⟩

end ChatRoom

namespace SyncRoom

def log (state : SyncRoom) : RoomLog :=
  state.room.log state.accepted

/-- The room is not reset, and a checkpoint has the rows that it covers and names
what it has. -/
def KeepsLog (loro : Loro) (state : SyncRoom) : SyncEvent → Prop
  | .commit seqCovered frontier bytes =>
      (∀ row ∈ state.accepted, row.seq ≤ seqCovered → row.bytes ∈ loro.content bytes) ∧
        ∀ named ∈ loro.decode frontier, ∀ update ∈ loro.content bytes, update ∈ named
  | .reset => False
  | _ => True

variable {loro : Loro} {state : SyncRoom}

/-- All that a push does. -/
theorem pushRow_cases (state : SyncRoom) (own : Bool) (device batchId : String)
    (bytes : Update) :
    (∃ code, state.pushRow own device batchId bytes = (state, .error code)) ∨
    (∃ row ∈ state.room.rows, state.pushRow own device batchId bytes = (state, .ack row.seq)) ∨
    ((∀ row ∈ state.room.rows, row.batchId ≠ batchId) ∧
      state.pushRow own device batchId bytes =
        ({ state with
            room := (state.room.appendRow device batchId bytes).1
            accepted := state.accepted ++
              [{ seq := state.room.headSeq + 1, device, batchId, bytes }]
            socket :=
              if own then state.socket
              else relay state.socket (state.room.headSeq + 1) bytes },
          .ack (state.room.headSeq + 1)) ∧
      (state.room.appendRow device batchId bytes).1 =
        { state.room with
          rows := state.room.rows ++ [{ seq := state.room.headSeq + 1, device, batchId, bytes }]
          headSeq := state.room.headSeq + 1 }) := by
  unfold pushRow
  split
  · exact .inl ⟨_, rfl⟩
  · obtain ⟨_, _, result⟩ | ⟨_, row, stored, _, result⟩ | ⟨_, absent, result⟩ :=
      state.room.appendRow_cases device batchId bytes
    · rw [result]
      exact .inl ⟨_, rfl⟩
    · rw [result]
      exact .inr (.inl ⟨row, stored, rfl⟩)
    · rw [result]
      exact .inr (.inr ⟨absent, rfl, rfl⟩)

end SyncRoom

end Zeron.Chat
