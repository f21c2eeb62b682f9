import Zeron.Wire.Json

/-!
# The chat log

The log behind a chat room: rows of opaque bytes with consecutive numbers, and
one checkpoint written by a client that stands for all rows up to the floor.
-/

namespace Zeron.Chat

structure LogRow where
  seq : Nat
  device : String
  batchId : String
  bytes : List UInt8
  deriving DecidableEq

structure Checkpoint where
  seqCovered : Nat
  frontier : List UInt8
  bytes : List UInt8

/-- The tables of a chat room; owner, sidecars and push statistics left out. -/
structure ChatRoom where
  rows : List LogRow
  headSeq : Nat
  seqFloor : Nat
  checkpoint : Option Checkpoint
  backupSeq : Nat
  backupDirty : Bool

/-- What a client sends that changes the log. -/
inductive ChatWrite where
  | push (device batchId : String) (bytes : List UInt8)
  | checkpoint (seqCovered : Nat) (frontier bytes : List UInt8)

inductive AppendOutcome where
  | appended (seq : Nat)
  /-- A replay of a batch that is in the log. -/
  | dup (seq : Nat)
  | rejected (error : String)
  deriving DecidableEq

inductive CheckpointOutcome where
  | committed (seqFloor pruned : Nat)
  | rejected (error : String)

namespace ChatRoom

/-- Per-row byte cap. -/
def maxRowBytes : Nat := 1024 * 1024

/-- A room without any stored table, also what a reset leaves. -/
def initial : ChatRoom :=
  { rows := [], headSeq := 0, seqFloor := 0, checkpoint := none, backupSeq := 0,
    backupDirty := false }

/-- `appendRow`. -/
def appendRow (room : ChatRoom) (device batchId : String) (bytes : List UInt8) :
    ChatRoom × AppendOutcome :=
  if bytes.length = 0 then (room, .rejected "empty")
  else if maxRowBytes < bytes.length then (room, .rejected "too_large")
  else
    match room.rows.find? fun row => row.batchId == batchId with
    | some existing => (room, .dup existing.seq)
    | none =>
        let seq := room.headSeq + 1
        ({ room with rows := room.rows ++ [{ seq, device, batchId, bytes }], headSeq := seq },
          .appended seq)

/-- `rowsAfter`, without an excluded device.  Rows are appended in the order of
their numbers. -/
def rowsAfter (room : ChatRoom) (after : Nat) : List LogRow :=
  room.rows.filter fun row => after < row.seq

/-- `commitCheckpoint`: the floor only moves forward, and not past the head. -/
def commitCheckpoint (room : ChatRoom) (seqCovered : Nat) (frontier bytes : List UInt8) :
    ChatRoom × CheckpointOutcome :=
  if bytes.length = 0 then (room, .rejected "empty")
  else if seqCovered < room.seqFloor then (room, .rejected "floor_regression")
  else if room.headSeq < seqCovered then (room, .rejected "ahead_of_head")
  else
    let kept := room.rows.filter fun row => seqCovered < row.seq
    ({ room with
        rows := kept
        seqFloor := seqCovered
        checkpoint := some { seqCovered, frontier, bytes } },
      .committed seqCovered (room.rows.length - kept.length))

/-- The handlers of a push and of `POST /checkpoint`, each after its checks of
the request. -/
def write (room : ChatRoom) : ChatWrite → ChatRoom
  | .push device batchId bytes =>
      if batchId = "" ∨ 128 < (Wire.utf16 batchId).length then room
      else
        match room.appendRow device batchId bytes with
        | (next, .appended _) => { next with backupDirty := true }
        | (next, _) => next
  | .checkpoint seqCovered frontier bytes =>
      -- A checkpoint that covers rows must name its state.
      if frontier.length = 0 ∧ 0 < seqCovered then room
      else
        match room.commitCheckpoint seqCovered frontier bytes with
        | (next, .committed _ _) => { next with backupDirty := true }
        | (next, .rejected _) => next

/-- `POST /reset`: rows, marks and the checkpoint go. -/
def reset (_ : ChatRoom) : ChatRoom :=
  initial

/-- The backup that the alarm writes, if the log has grown since the last one. -/
def backupDue (room : ChatRoom) : Option (Nat × List LogRow × Option Checkpoint) :=
  if room.backupSeq < room.headSeq then
    some (room.headSeq, room.rowsAfter 0, room.checkpoint)
  else none

/-- `alarm` up to its upload.  An idle room does nothing. -/
def alarm (room : ChatRoom) :
    ChatRoom × Option (Nat × List LogRow × Option Checkpoint) :=
  if room.backupDirty then
    match room.backupDue with
    | some backup => (room, some backup)
    | none => ({ room with backupDirty := false }, none)
  else
    (room, none)

/-- `alarm` after its upload. -/
def alarmDone (room : ChatRoom) (head : Nat) : ChatRoom :=
  { room with backupSeq := head, backupDirty := false }

end ChatRoom

end Zeron.Chat
