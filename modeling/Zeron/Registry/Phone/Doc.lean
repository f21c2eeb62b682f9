import Zeron.Registry.Phone.Core
import Zeron.Registry.Doc

/-!
# The phone's replica

`RegistryDoc` of the phone: the rows of the server, the cursor, and the batches that are
not acknowledged.  Rows are held in dictionaries, which have no order of their own; where
a loop over them leaves a trace, the rows come in a list `walk`.
-/

namespace Zeron.Registry.Phone

open Zeron.Data
open Zeron.Wire

/-- A replica on the phone. -/
structure RegistryDoc where
  deviceId : String
  /-- Server truth. -/
  authoritative : Table
  serverSeq : Nat
  gcFloor : Nat
  clock : HlcClock
  pending : List PendingBatch
  generation : Nat

/-- What is saved of a replica; a batch is saved without its flag. -/
structure Persisted where
  v : Nat
  resyncEpoch : Option Nat
  deviceId : String
  serverSeq : Nat
  gcFloor : Nat
  clock : HlcClock
  rows : List RegistryRow
  pending : List (String × List RowOp)

namespace RegistryDoc

/-- `init`. -/
def new (deviceId : String) : RegistryDoc :=
  { deviceId, authoritative := ∅, serverSeq := 0, gcFloor := 0, clock := ⟨0, 0⟩, pending := []
    generation := 0 }

def cursor (doc : RegistryDoc) : Nat :=
  doc.serverSeq

/-- `seedChunkOps`. -/
def seedChunkOps : Nat := 400

/-- `currentResyncEpoch`. -/
def currentResyncEpoch : Nat := 1

/-! ## Local writes -/

/-- `nextHlc`. -/
def nextHlc (doc : RegistryDoc) (now : Nat) : RegistryDoc × Hlc :=
  let (clock, hlc) := next doc.clock now doc.deviceId
  ({ doc with clock }, hlc)

/-- `enqueue`: one batch, however many operations it has. -/
def enqueue (doc : RegistryDoc) (now : Nat → Nat) (ops : List RowOp) : RegistryDoc :=
  if ops.isEmpty then doc
  else
    let (ticked, hlc) := { doc with generation := doc.generation + 1 }.nextHlc (now 0)
    { ticked with pending := ticked.pending ++ [{ batch := "b-" ++ hlc, ops, inFlight := false }] }

/-- The chunks of `enqueueSeed` from `start` on; `fuel` bounds their number. -/
def seedChunks (ops : List RowOp) : Nat → Nat → List (List RowOp)
  | 0, _ => []
  | fuel + 1, start =>
      if start < ops.length then
        (ops.take (min (start + seedChunkOps) ops.length)).drop start ::
          seedChunks ops fuel (start + seedChunkOps)
      else []

def enqueueChunks (now : Nat → Nat) : RegistryDoc → List (List RowOp) → RegistryDoc
  | doc, [] => doc
  | doc, chunk :: rest =>
      enqueueChunks (fun reading => now (reading + 1)) (doc.enqueue now chunk) rest

/-- `enqueueSeed`. -/
def enqueueSeed (doc : RegistryDoc) (now : Nat → Nat) (ops : List RowOp) : RegistryDoc :=
  if ops.isEmpty then doc else doc.enqueueChunks now (seedChunks ops ops.length 0)

/-- `write`. -/
def write (doc : RegistryDoc) (now : Nat → Nat) (kind id : String) (op : OpKind)
    (set : FieldMap Json) : RegistryDoc :=
  let (ticked, hlc) := doc.nextHlc (now 0)
  ticked.enqueue (fun reading => now (reading + 1))
    [{ kind, id, op, set := some set, hlc, clocks := none }]

/-- `deleteRows`: tombstones in one batch. -/
def deleteRows (doc : RegistryDoc) (now : Nat → Nat) (keys : List RowKey) : RegistryDoc :=
  let (ticked, hlc) := doc.nextHlc (now 0)
  ticked.enqueue (fun reading => now (reading + 1))
    (keys.map fun key =>
      { kind := key.kind, id := key.id, op := .delete, set := none, hlc, clocks := none })

section Frames

variable (unicode : Unicode)

/-! ## Server frames -/

/-- The key that a row is put under. -/
def rowKey (row : RegistryRow) : RowKey :=
  unicode.key row.kind row.id

/-- `putAuthoritative`, for each row of a frame. -/
def putRows (rows : List RegistryRow) (authoritative : Table) : Table :=
  insertAll (rowKey unicode) authoritative rows

/-- The rows that a full state leaves for a seed: all of them when the server is behind,
else those that it does not list. -/
def reseeded (doc : RegistryDoc) (walk : List RegistryRow) (frame : StateFrame) :
    List RegistryRow :=
  if frame.seq < doc.serverSeq then walk
  else
    let incoming := putRows unicode (frame.rows.map unicode.decodeRow) ∅
    walk.filter fun row => !incoming.contains (rowKey unicode row)

/-- `applyState`; `walk` is what the loop over `authoritative` meets. -/
def applyState (doc : RegistryDoc) (now : Nat → Nat) (walk : List RegistryRow)
    (frame : StateFrame) : RegistryDoc × StateOutcome :=
  let rows := frame.rows.map unicode.decodeRow
  let marked := { doc with
    serverSeq := frame.seq, gcFloor := frame.gcFloor, generation := doc.generation + 1 }
  if !frame.full then
    ({ marked with authoritative := putRows unicode rows doc.authoritative }, .delta)
  else
    let seed := (doc.reseeded unicode walk frame).map (rowToSeedOp unicode)
    if frame.seq < doc.serverSeq then
      -- The server lost state: the local rows are the only copy.
      ({ marked with authoritative := putRows unicode rows doc.authoritative }.enqueueSeed now seed,
        .reseeded)
    else
      -- Full replace, but rows that the server never saw re-seed too.
      let replaced := { marked with authoritative := putRows unicode rows ∅ }
      if seed.isEmpty then (replaced, .replaced) else (replaced.enqueueSeed now seed, .reseeded)

/-- `applyRows`: the flag is false on a seq gap. -/
def applyRows (doc : RegistryDoc) (seq : Nat) (rows : List RegistryRow) : RegistryDoc × Bool :=
  let put := { doc with
    authoritative := putRows unicode (rows.map unicode.decodeRow) doc.authoritative
    generation := doc.generation + 1 }
  if doc.serverSeq + 1 < seq then (put, false)
  else if doc.serverSeq < seq then ({ put with serverSeq := seq }, true)
  else (put, true)

/-- `ackBatch`.  The cursor does not move. -/
def ackBatch (doc : RegistryDoc) (batch : String) : RegistryDoc :=
  let kept := doc.pending.filter fun pending => !unicode.same pending.batch batch
  if kept.length != doc.pending.length then
    { doc with pending := kept, generation := doc.generation + 1 }
  else { doc with pending := kept }

/-- `takePushable`. -/
def takePushable (doc : RegistryDoc) : RegistryDoc × List PendingBatch :=
  ({ doc with pending := doc.pending.map fun batch => { batch with inFlight := true } },
    (doc.pending.filter fun batch => !batch.inFlight).map
      fun batch => { batch with inFlight := true })

/-- `markDisconnected`. -/
def markDisconnected (doc : RegistryDoc) : RegistryDoc :=
  { doc with pending := doc.pending.map fun batch => { batch with inFlight := false } }

/-! ## Persistence -/

/-- `toData`. -/
def toData (doc : RegistryDoc) : Persisted where
  v := 1
  resyncEpoch := some currentResyncEpoch
  deviceId := doc.deviceId
  serverSeq := doc.serverSeq
  gcFloor := doc.gcFloor
  clock := doc.clock
  rows := values doc.authoritative
  pending := doc.pending.map fun batch => (batch.batch, batch.ops)

/-- `from`. -/
def ofData (state : Persisted) (deviceId : String) : Except String RegistryDoc :=
  if state.v ≠ 1 then .error ("unknown registry snapshot version " ++ toString state.v)
  else
    .ok
      { deviceId
        authoritative := putRows unicode state.rows ∅
        -- Snapshots from before the epoch may hide a cursor that jumped.
        serverSeq := if state.resyncEpoch.getD 0 < currentResyncEpoch then 0 else state.serverSeq
        gcFloor := state.gcFloor
        clock := state.clock
        pending := state.pending.map fun (batch, ops) => { batch, ops, inFlight := false }
        generation := 0 }

/-! ## Overlay reads -/

/-- One turn of the loop over the pending operations. -/
def overlayOp (row : Option RegistryRow) (op : RowOp) : Option RegistryRow :=
  match (applyOp unicode row op).1 with
  | some next => some next
  | none => row

/-- `overlayRow`. -/
def overlayRow (doc : RegistryDoc) (kind id : String) : Option RegistryRow :=
  let ops := (doc.pending.flatMap PendingBatch.ops).filter fun op =>
    unicode.same op.kind kind && unicode.same op.id id
  (ops.foldl (overlayOp unicode) doc.authoritative[unicode.key kind id]?).filter
    fun row => !row.deleted

/-- The ids of `overlayRows`, the rows of the server in the order of their keys. -/
def overlayIds (doc : RegistryDoc) (kind : String) : List String :=
  (doc.pending.flatMap PendingBatch.ops).foldl
    (fun ids op =>
      if unicode.same op.kind kind && !(ids.any fun id => unicode.same id op.id) then ids ++ [op.id]
      else ids)
    ((doc.authoritative.keys.filter fun key => key.kind = unicode.canonical kind).map RowKey.id)

/-- `overlayRows`: all live rows of a kind. -/
def overlayRows (doc : RegistryDoc) (kind : String) : List RegistryRow :=
  (doc.overlayIds unicode kind).filterMap fun id => doc.overlayRow unicode kind id

end Frames

end RegistryDoc

end Zeron.Registry.Phone
