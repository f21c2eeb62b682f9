import Mathlib.Data.List.Sort
import Zeron.Registry.Edge.Agreement

/-!
# The registry room

The Durable Object that holds the server's rows.  It stamps the rows that a
batch changes with one new `seq`, answers a cursor with the rows stamped since,
and in its daily alarm purges old tombstones and raises `gcFloor` to the newest
purged stamp.
-/

namespace Zeron.Registry

open Zeron.Data
open Zeron.Wire

/-- The tables of the room, push statistics and presence left out. -/
structure RegistryRoom where
  rows : Table
  seq : Nat
  gcFloor : Nat
  backupDirty : Bool
  backupSeq : Nat

/-- A `state` frame, which is also the body of `GET /rows`. -/
structure StateFrame where
  seq : Nat
  full : Bool
  gcFloor : Nat
  rows : List RegistryRow
  deriving DecidableEq

structure PushError where
  code : String
  message : String
  deriving DecidableEq

/-- An accepted batch: the fields of the ack, and the rows to broadcast before it. -/
structure PushOutcome where
  batch : String
  seq : Nat
  applied : Nat
  rows : List RegistryRow

namespace RegistryRoom

/-- A room without any stored table, also what a reset leaves. -/
def initial : RegistryRoom :=
  { rows := ∅, seq := 0, gcFloor := 0, backupDirty := false, backupSeq := 0 }

/-- `rowsSince`: the rows stamped after `cursor`, in the order of their stamps. -/
def rowsSince (room : RegistryRoom) (cursor : Nat) : List RegistryRow :=
  ((values room.rows).filter fun row => cursor < row.seq).insertionSort fun a b => a.seq ≤ b.seq

/-- The answer to a hello or a pull with this cursor. -/
def answer (room : RegistryRoom) (cursor : Option Nat) : StateFrame :=
  -- A cursor below `gcFloor` may have missed purged deletes; one ahead of the
  -- server means that the server lost state.
  let full := cursor.all fun cursor => cursor < room.gcFloor || room.seq < cursor
  { seq := room.seq
    full
    gcFloor := room.gcFloor
    rows := if full then room.rowsSince 0 else room.rowsSince (cursor.getD 0) }

/-! ## Pushes -/

/-- Operations per push batch. -/
def maxBatchOps : Nat := 500

/-- The checks of `applyPushBatch` on a frame: its batch id and operations. -/
def readBatch (frame : Json) : Except PushError (String × List RowOp) :=
  let batch := readString (frame.member "batch")
  match frame.member "ops" with
  | some (.arr ops) =>
      if batch = "" then .error ⟨"bad_push", "malformed push"⟩
      else if ops.length = 0 ∨ maxBatchOps < ops.length then
        .error ⟨"bad_push", "batch of " ++ toString ops.length ++ " ops"⟩
      else
        match ops.findSome? Edge.validateOp with
        -- One bad operation rejects the whole batch.
        | some invalid => .error ⟨"invalid_op", "Invalid registry operation: " ++ invalid⟩
        | none => .ok (batch, ops.map readOp)
  | _ => .error ⟨"bad_push", "malformed push"⟩

/-- The rows a batch has touched so far, and how many of its operations applied.
No kind contains a blank, so the code's text key is the row key. -/
structure Touched where
  rows : Std.ExtTreeMap RowKey Edge.Row compare
  applied : Nat

/-- One turn of the loop over the operations of a batch. -/
def applyNext (stored : Table) (nextSeq : Nat) (touched : Touched) (op : RowOp) : Touched :=
  let before := touched.rows[op.key]?.or (stored[op.key]?.map Edge.loadRow)
  match Edge.applyOp before op with
  | (some row, true) =>
      { rows := touched.rows.insert op.key { row with seq := nextSeq }
        applied := touched.applied + 1 }
  | _ => touched

/-- The commit of a validated batch: the room after it, the number of applied
operations and the rows to broadcast. -/
def commitOps (room : RegistryRoom) (ops : List RowOp) :
    RegistryRoom × Nat × List RegistryRow :=
  let nextSeq := room.seq + 1
  let touched := ops.foldl (applyNext room.rows nextSeq) ⟨∅, 0⟩
  let rows := (values touched.rows).map Edge.saveRow
  if 0 < touched.applied then
    ({ room with
        rows := insertAll RegistryRow.key room.rows rows
        seq := nextSeq
        backupDirty := true }, touched.applied, rows)
  else
    (room, 0, [])

/-- `applyPushBatch`: validate a frame and apply it, all or nothing. -/
def applyPushBatch (room : RegistryRoom) (frame : Json) :
    RegistryRoom × Except PushError PushOutcome :=
  match readBatch frame with
  | .error error => (room, .error error)
  | .ok (batch, ops) =>
      let (next, applied, rows) := room.commitOps ops
      (next, .ok { batch, seq := next.seq, applied, rows })

/-! ## The alarm and the reset -/

def tombstoneRetainMs : Nat := 30 * (24 * 60 * 60 * 1000)

/-- Tombstone clocks below this text are out of retention. -/
def horizonHlc (now : Nat) : String :=
  String.ofList (padded 13 (now - tombstoneRetainMs) ++ ['-'])

/-- `deleted = 1 AND del_hlc < horizon`. -/
def isPurged (horizon : String) (row : RegistryRow) : Bool :=
  row.deleted && row.delHlc.any (· < horizon)

/-- The tombstone GC of `alarm`. -/
def collectTombstones (room : RegistryRoom) (now : Nat) : RegistryRoom :=
  let horizon := horizonHlc now
  let purged := (values room.rows).filter (isPurged horizon)
  let purgedMaxSeq := purged.foldl (fun newest row => max newest row.seq) 0
  if 0 < purgedMaxSeq then
    { room with
        rows := room.rows.filter fun _ row => !isPurged horizon row
        gcFloor := max room.gcFloor purgedMaxSeq }
  else
    room

/-- `alarm` up to its backup.  An idle room does nothing. -/
def alarm (room : RegistryRoom) (now : Nat) : RegistryRoom :=
  if room.backupDirty then room.collectTombstones now else room

/-- The backup that the alarm writes next, if the state is newer than the last one. -/
def backupDue (room : RegistryRoom) : Option (Nat × List RegistryRow) :=
  if room.backupSeq < room.seq then some (room.seq, room.rowsSince 0) else none

/-- `alarm` after its backup: the marks it leaves. -/
def alarmDone (room : RegistryRoom) (written : Option Nat) : RegistryRoom :=
  { room with backupSeq := written.getD room.backupSeq, backupDirty := false }

/-- `POST /reset`: every table goes, the marks included. -/
def reset (_ : RegistryRoom) : RegistryRoom :=
  initial

end RegistryRoom

end Zeron.Registry
