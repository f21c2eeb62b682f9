import Zeron.Data.Table

/-!
# The outbox and the replay queue

A chat client keeps the batches that the room has not acknowledged twice: in a
replay queue in memory, and in an outbox on disk.  Every statement on the disk
may fail; whether it does is an argument of the function that makes it.
-/

namespace Zeron.Chat

open Zeron.Data

/-- A row of `chat_outbox`, for one chat. -/
structure OutboxRow where
  batchId : String
  bytes : List UInt8
  /-- Set when the room has rejected the batch for good. -/
  needsCheckpoint : Bool

/-- Batch ids are unique; the ordinals of the rows are their places. -/
abbrev Outbox := Table OutboxRow.batchId

namespace Outbox

/-- `enqueue_chat_update`. -/
def enqueue (outbox : Outbox) (batchId : String) (bytes : List UInt8) : Outbox :=
  outbox.insertOrIgnore { batchId, bytes, needsCheckpoint := false }

/-- `reject_chat_update`. -/
def reject (outbox : Outbox) (batchId : String) : Outbox :=
  outbox.update (fun row => row.batchId == batchId)
    (fun row => { row with needsCheckpoint := true }) fun _ => rfl

/-- `acknowledge_chat_update`. -/
def acknowledge (outbox : Outbox) (batchId : String) : Outbox :=
  outbox.remove fun row => row.batchId == batchId

/-- The batch is stored, and marked for the next checkpoint. -/
def Obliges (outbox : Outbox) (batchId : String) : Prop :=
  ∃ row ∈ outbox.rows, row.batchId = batchId ∧ row.needsCheckpoint = true

variable {batchId : String} {outbox : Outbox}

theorem mem_acknowledge_iff {row : OutboxRow} :
    row ∈ (outbox.acknowledge batchId).rows ↔ row ∈ outbox.rows ∧ row.batchId ≠ batchId := by
  simp [acknowledge, Table.remove]

theorem isSome_get_reject (outbox : Outbox) (batchId other : String) :
    ((outbox.reject batchId).get other).isSome = (outbox.get other).isSome := by
  unfold reject
  rw [Table.get_update, Option.isSome_map]

theorem isSome_get_iff :
    (outbox.get batchId).isSome ↔ ∃ row ∈ outbox.rows, row.batchId = batchId := by
  rw [Option.isSome_iff_exists]
  simp only [Table.get_eq_some_iff]

theorem mem_enqueue {bytes : List UInt8} {row : OutboxRow}
    (stored : row ∈ (outbox.enqueue batchId bytes).rows) :
    row ∈ outbox.rows ∨ row = { batchId, bytes, needsCheckpoint := false } :=
  Table.mem_of_mem_insertOrIgnore stored

/-- A new row goes behind the others. -/
theorem ids_enqueue (outbox : Outbox) (batchId : String) (bytes : List UInt8) :
    ((outbox.enqueue batchId bytes).rows.map OutboxRow.batchId).Sublist
      (outbox.rows.map OutboxRow.batchId ++ [batchId]) := by
  unfold enqueue Table.insertOrIgnore
  cases inserted : outbox.insert { batchId, bytes, needsCheckpoint := false } with
  | none => exact List.sublist_append_left _ _
  | some next =>
      rw [Option.getD_some, Table.rows_insert inserted, List.map_append]
      exact List.Sublist.refl _

theorem ids_update (outbox : Outbox) (which : OutboxRow → Bool) :
    (outbox.update which (fun row => { row with needsCheckpoint := true })
      fun _ => rfl).rows.map OutboxRow.batchId = outbox.rows.map OutboxRow.batchId := by
  unfold Table.update
  rw [List.map_map]
  apply List.map_congr_left
  intro row _
  rw [Function.comp_apply]
  split <;> rfl

theorem isSome_get_enqueue (outbox : Outbox) (batchId : String) (bytes : List UInt8)
    (other : String) :
    ((outbox.enqueue batchId bytes).get other).isSome ↔
      (outbox.get other).isSome ∨ batchId = other :=
  Table.isSome_get_insertOrIgnore _ _ _

theorem Obliges.reject (obliges : outbox.Obliges batchId) (other : String) :
    (outbox.reject other).Obliges batchId := by
  obtain ⟨row, stored, rfl, marked⟩ := obliges
  refine ⟨_, List.mem_map_of_mem stored, ?_, ?_⟩
  · split <;> rfl
  · split
    · rfl
    · exact marked

/-- A stored batch that is rejected waits for a checkpoint. -/
theorem obliges_reject (stored : (outbox.get batchId).isSome) :
    (outbox.reject batchId).Obliges batchId := by
  obtain ⟨row, row_stored, rfl⟩ := isSome_get_iff.mp stored
  refine ⟨_, List.mem_map_of_mem row_stored, ?_, ?_⟩
  · rw [if_pos (beq_self_eq_true _)]
  · rw [if_pos (beq_self_eq_true _)]

theorem Obliges.acknowledge {other : String} (obliges : outbox.Obliges batchId)
    (apart : batchId ≠ other) :
    (outbox.acknowledge other).Obliges batchId := by
  obtain ⟨row, stored, rfl, marked⟩ := obliges
  exact ⟨row, mem_acknowledge_iff.mpr ⟨stored, apart⟩, rfl, marked⟩

theorem Obliges.enqueue (obliges : outbox.Obliges batchId) (other : String) (bytes : List UInt8) :
    (outbox.enqueue other bytes).Obliges batchId := by
  obtain ⟨row, stored, same, marked⟩ := obliges
  exact ⟨row, Table.mem_insertOrIgnore stored, same, marked⟩

end Outbox

/-- Client-side cap of a push: the room's cap of a row, less what a frame adds. -/
def maxPushBytes : Nat := 1024 * 1024 - 4096

structure PendingPush where
  batchId : String
  bytes : List UInt8
  /-- The outbox has the batch. -/
  durable : Bool

/-- The unacknowledged batches of a client, in memory and on disk. -/
structure ReplayQueue where
  pending : List PendingPush
  /-- While a queue that hit the room's quota drains, only its head is sent. -/
  quotaBlocked : Bool
  outbox : Outbox

namespace ReplayQueue

/-- The batch is queued. -/
def queued (queue : ReplayQueue) (batchId : String) : Bool :=
  queue.pending.any fun push => push.batchId == batchId

/-- `persist_update`. -/
def persistUpdate (queue : ReplayQueue) (batchId : String) (bytes : List UInt8)
    (persists : Bool) : ReplayQueue :=
  { queue with outbox := if persists then queue.outbox.enqueue batchId bytes else queue.outbox }

/-- `enqueue_batch`: a batch over the cap goes to the outbox only. -/
def enqueueBatch (queue : ReplayQueue) (batchId : String) (bytes : List UInt8)
    (persists marks : Bool) : ReplayQueue :=
  let stored := queue.persistUpdate batchId bytes persists
  if maxPushBytes < bytes.length then
    if marks then { stored with outbox := stored.outbox.reject batchId } else stored
  else if stored.queued batchId then stored
  else { stored with pending := stored.pending ++ [{ batchId, bytes, durable := persists }] }

/-- The queued batch that is to be written before a copy of it goes out, unless
it has been written or retired since the copy was made. -/
def unwritten (queue : ReplayQueue) (push : PendingPush) : Option PendingPush :=
  if push.durable then none
  else
    (queue.pending.find? fun pending => pending.batchId == push.batchId).filter fun pending =>
      !pending.durable

/-- `ensure_durable`, and whether the batch may be sent.  The queue has a batch
once. -/
def ensureDurable (queue : ReplayQueue) (push : PendingPush) (persists : Bool) :
    ReplayQueue × Bool :=
  match queue.unwritten push with
  | none => (queue, true)
  | some pending =>
      if persists then
        ({ queue with
            pending := queue.pending.map fun other =>
              if other.batchId == push.batchId then { other with durable := true } else other
            outbox := queue.outbox.enqueue pending.batchId pending.bytes }, true)
      else (queue, false)

/-- What `push_pending` is to send: nothing while the quota blocks, and nothing
that the session has sent before. -/
def unsent (queue : ReplayQueue) (inFlight : List String) : List PendingPush :=
  if queue.quotaBlocked then []
  else queue.pending.filter fun push => !inFlight.contains push.batchId

/-- An acknowledgement over either transport: the queue lets go of the batch
once the outbox has. -/
def acknowledge (queue : ReplayQueue) (batchId : String) (deletes : Bool) : ReplayQueue :=
  if deletes then
    { queue with
      pending := queue.pending.filter fun push => push.batchId != batchId
      outbox := queue.outbox.acknowledge batchId }
  else queue

/-- The quota part of `ACK`: an empty queue is no longer blocked. -/
def drain (queue : ReplayQueue) : ReplayQueue :=
  { queue with quotaBlocked := queue.quotaBlocked && !queue.pending.isEmpty }

/-- A permanent verdict of `ERROR`.  Without its mark on disk the session ends. -/
def reject (queue : ReplayQueue) (batchId : String) (marks : Bool) : Option ReplayQueue :=
  if marks then
    some { queue with
      pending := queue.pending.filter fun push => push.batchId != batchId
      outbox := queue.outbox.reject batchId }
  else none

/-- `pending_updates`: what a new client reads from the outbox.  A batch over the
cap is marked, a marked one is left out. -/
def reload (outbox : Outbox) : ReplayQueue where
  pending := (outbox.rows.filter fun row =>
      decide (row.bytes.length ≤ maxPushBytes) && !row.needsCheckpoint).map fun row =>
    { batchId := row.batchId, bytes := row.bytes, durable := true }
  quotaBlocked := false
  outbox := outbox.update (fun row => decide (maxPushBytes < row.bytes.length))
    (fun row => { row with needsCheckpoint := true }) fun _ => rfl

def empty : ReplayQueue :=
  { pending := [], quotaBlocked := false, outbox := Table.empty }

end ReplayQueue

end Zeron.Chat
