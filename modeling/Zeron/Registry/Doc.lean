import Zeron.Registry.Room

/-!
# The local replica

`RegistryDoc` is a device's replica of the room: the rows the server sent last,
the cursor they stand at, and the batches of local writes that the server has
not acknowledged yet.  Reads show the pending writes over the server's rows.

Server frames are taken as they come: the server has merged already, so a row
in a frame replaces the one held, whatever its stamp.
-/

namespace Zeron.Registry

open Zeron.Data
open Zeron.Wire

/-- A batch of operations that is not acknowledged yet. -/
structure PendingBatch where
  batch : String
  ops : List RowOp
  /-- The batch is in flight on the current connection. -/
  inFlight : Bool

/-- What `applyState` decided about a `state` frame. -/
inductive StateOutcome where
  | delta
  | replaced
  | reseeded

structure RegistryDoc where
  deviceId : String
  /-- The server's rows. -/
  authoritative : Table
  serverSeq : Nat
  gcFloor : Nat
  clock : HlcClock
  pending : List PendingBatch
  generation : Nat

namespace RegistryDoc

/-- `RegistryDoc::new`. -/
def new (deviceId : String) : RegistryDoc :=
  { deviceId, authoritative := ∅, serverSeq := 0, gcFloor := 0, clock := .initial, pending := []
    generation := 0 }

/-- The last server seq this replica has applied. -/
def cursor (doc : RegistryDoc) : Nat :=
  doc.serverSeq

/-! ## Local writes

A call reads the wall clock once for each clock text it prints; `now k` is what
its reading number `k` shows. -/

/-- `MAX_OPS_PER_BATCH`. -/
def maxOpsPerBatch : Nat := 400

/-- Cut the operations into batches; `fuel` bounds their number. -/
def splitOps : Nat → List RowOp → List (List RowOp)
  | 0, _ => []
  | fuel + 1, ops =>
      if ops.isEmpty then []
      else ops.take maxOpsPerBatch :: splitOps fuel (ops.drop maxOpsPerBatch)

/-- `next_hlc`. -/
def nextHlc (doc : RegistryDoc) (now : Nat) : RegistryDoc × Hlc :=
  let (clock, hlc) := doc.clock.next now doc.deviceId
  ({ doc with clock }, hlc)

/-- Queue one batch under the clock text of a fresh tick. -/
def enqueueBatch (doc : RegistryDoc) (now : Nat) (ops : List RowOp) : RegistryDoc :=
  let (ticked, hlc) := doc.nextHlc now
  { ticked with
    pending := ticked.pending ++ [{ batch := "b-" ++ hlc, ops, inFlight := false }] }

def enqueueBatches (now : Nat → Nat) : RegistryDoc → List (List RowOp) → RegistryDoc
  | doc, [] => doc
  | doc, ops :: rest =>
      enqueueBatches (fun reading => now (reading + 1)) (doc.enqueueBatch (now 0) ops) rest

/-- `enqueue_ops`: no batch exceeds what the room accepts. -/
def enqueueOps (doc : RegistryDoc) (now : Nat → Nat) (ops : List RowOp) : RegistryDoc :=
  if ops.isEmpty then doc
  else
    enqueueBatches now { doc with generation := doc.generation + 1 } (splitOps ops.length ops)

/-- `write`: fields of one row, under one clock. -/
def write (doc : RegistryDoc) (now : Nat → Nat) (kind id : String) (op : OpKind)
    (set : FieldMap Json) : RegistryDoc :=
  let (ticked, hlc) := doc.nextHlc (now 0)
  ticked.enqueueOps (fun reading => now (reading + 1)) [.fieldWrite kind id op set hlc]

/-- `delete_row_ops`: deletes of several rows, under one clock. -/
def deleteRowOps (doc : RegistryDoc) (now : Nat → Nat) (keys : List RowKey) : RegistryDoc :=
  let (ticked, hlc) := doc.nextHlc (now 0)
  ticked.enqueueOps (fun reading => now (reading + 1))
    (keys.map fun key => .rowDelete key.kind key.id hlc)

/-! ## Server frames -/

/-- `apply_state`.  The code walks a hash map for its seeds; their order carries
no meaning, and here it is the order of the keys. -/
def applyState (doc : RegistryDoc) (now : Nat → Nat) (frame : StateFrame) :
    RegistryDoc × StateOutcome :=
  let seen := { doc with
    serverSeq := frame.seq, gcFloor := frame.gcFloor, generation := doc.generation + 1 }
  let put := insertAll RegistryRow.key doc.authoritative frame.rows
  if !frame.full then
    ({ seen with authoritative := put }, .delta)
  else if frame.seq < doc.serverSeq then
    -- The server lost state: the local rows may be the only copy.
    let seed := (values doc.authoritative).map rowToSeedOp
    (enqueueOps { seen with authoritative := put } now seed, .reseeded)
  else
    -- Full replace, but rows that the server never saw re-seed too.
    let incoming := insertAll RegistryRow.key ∅ frame.rows
    let seed :=
      ((values doc.authoritative).filter fun row => !incoming.contains row.key).map rowToSeedOp
    let replaced := { seen with authoritative := incoming }
    if seed.isEmpty then (replaced, .replaced)
    else (replaced.enqueueOps now seed, .reseeded)

/-- `apply_rows`: one broadcast batch.  The flag is false on a seq gap; the rows
still apply, but the cursor holds. -/
def applyRows (doc : RegistryDoc) (seq : Nat) (rows : List RegistryRow) : RegistryDoc × Bool :=
  let put := { doc with
    authoritative := insertAll RegistryRow.key doc.authoritative rows
    generation := doc.generation + 1 }
  if doc.serverSeq + 1 < seq then (put, false)
  else ({ put with serverSeq := if doc.serverSeq < seq then seq else doc.serverSeq }, true)

/-- `ack_batch`: retire an acknowledged batch.  The cursor does not move. -/
def ackBatch (doc : RegistryDoc) (batch : String) : RegistryDoc :=
  let kept := doc.pending.filter fun pending => pending.batch != batch
  if kept.length != doc.pending.length then
    { doc with pending := kept, generation := doc.generation + 1 }
  else doc

/-- `take_pushable`: the batches to push, all of them in flight from here on. -/
def takePushable (doc : RegistryDoc) : RegistryDoc × List PendingBatch :=
  ({ doc with pending := doc.pending.map fun batch => { batch with inFlight := true } },
    (doc.pending.filter fun batch => !batch.inFlight).map
      fun batch => { batch with inFlight := true })

/-- `mark_disconnected`: everything unacknowledged becomes pushable again. -/
def markDisconnected (doc : RegistryDoc) : RegistryDoc :=
  { doc with pending := doc.pending.map fun batch => { batch with inFlight := false } }

/-! ## Reads -/

/-- The pending operations on a row, in the order in which they are replayed. -/
def pendingOps (doc : RegistryDoc) (key : RowKey) : List RowOp :=
  (doc.pending.flatMap PendingBatch.ops).filter fun op => op.key = key

/-- One turn of the loop over the pending operations. -/
def overlayOp (row : Option RegistryRow) (op : RowOp) : Option RegistryRow :=
  (applyOp row op).1.or row

/-- `overlay_row`: the row as this device should display it. -/
def overlayRow (doc : RegistryDoc) (key : RowKey) : Option RegistryRow :=
  ((doc.pendingOps key).foldl overlayOp doc.authoritative[key]?).filter fun row => !row.deleted

/-! ## What each operation leaves alone -/

/-- Two replicas hold the same rows at the same cursor. -/
structure SameView (doc next : RegistryDoc) : Prop where
  authoritative_eq : next.authoritative = doc.authoritative
  serverSeq_eq : next.serverSeq = doc.serverSeq

variable {doc : RegistryDoc}

theorem SameView.rfl : SameView doc doc :=
  ⟨Eq.refl _, Eq.refl _⟩

theorem SameView.trans {first second third : RegistryDoc} (left : SameView first second)
    (right : SameView second third) : SameView first third :=
  ⟨right.authoritative_eq.trans left.authoritative_eq,
    right.serverSeq_eq.trans left.serverSeq_eq⟩

theorem sameView_enqueueBatches (batches : List (List RowOp)) (now : Nat → Nat)
    (doc : RegistryDoc) : SameView doc (enqueueBatches now doc batches) := by
  induction batches generalizing doc now with
  | nil => exact .rfl
  | cons ops rest ih =>
      have queued : SameView doc (doc.enqueueBatch (now 0) ops) := ⟨rfl, rfl⟩
      exact queued.trans (ih _ _)

theorem sameView_enqueueOps (doc : RegistryDoc) (now : Nat → Nat) (ops : List RowOp) :
    SameView doc (doc.enqueueOps now ops) := by
  unfold enqueueOps
  split
  · exact .rfl
  · have counted : SameView doc { doc with generation := doc.generation + 1 } := ⟨rfl, rfl⟩
    exact counted.trans (sameView_enqueueBatches _ now _)

theorem sameView_nextHlc (doc : RegistryDoc) (now : Nat) : SameView doc (doc.nextHlc now).1 :=
  ⟨rfl, rfl⟩

theorem sameView_write (doc : RegistryDoc) (now : Nat → Nat) (kind id : String) (op : OpKind)
    (set : FieldMap Json) : SameView doc (doc.write now kind id op set) :=
  (doc.sameView_nextHlc (now 0)).trans (sameView_enqueueOps _ _ _)

theorem sameView_deleteRowOps (doc : RegistryDoc) (now : Nat → Nat) (keys : List RowKey) :
    SameView doc (doc.deleteRowOps now keys) :=
  (doc.sameView_nextHlc (now 0)).trans (sameView_enqueueOps _ _ _)

theorem sameView_ackBatch (doc : RegistryDoc) (batch : String) :
    SameView doc (doc.ackBatch batch) := by
  unfold ackBatch
  simp only
  split
  · exact ⟨rfl, rfl⟩
  · exact .rfl

theorem sameView_takePushable (doc : RegistryDoc) : SameView doc doc.takePushable.1 :=
  ⟨rfl, rfl⟩

theorem sameView_markDisconnected (doc : RegistryDoc) : SameView doc doc.markDisconnected :=
  ⟨rfl, rfl⟩

/-! ## What is queued -/

/-- A batch id that the replica's clock has printed already. -/
def Issued (doc : RegistryDoc) (batch : String) : Prop :=
  ∃ clock, ¬doc.clock.Precedes clock ∧ batch = "b-" ++ clock.print doc.deviceId

/-- The later replica has queued these batches, each under an id of its own. -/
structure Queues (doc next : RegistryDoc) (added : List PendingBatch) : Prop where
  pending_eq : next.pending = doc.pending ++ added
  issues : ∀ batch, doc.Issued batch → next.Issued batch
  issued : ∀ pending ∈ added, next.Issued pending.batch
  fresh : ∀ pending ∈ added, ¬doc.Issued pending.batch
  distinct : (added.map PendingBatch.batch).Nodup

theorem Queues.trans {first second third : RegistryDoc} {added more : List PendingBatch}
    (left : Queues first second added) (right : Queues second third more) :
    Queues first third (added ++ more) where
  pending_eq := by rw [right.pending_eq, left.pending_eq, List.append_assoc]
  issues batch issued := right.issues batch (left.issues batch issued)
  issued := by
    intro pending member
    rcases List.mem_append.mp member with before | later
    · exact right.issues _ (left.issued pending before)
    · exact right.issued pending later
  fresh := by
    intro pending member issued
    rcases List.mem_append.mp member with before | later
    · exact left.fresh pending before issued
    · exact right.fresh pending later (left.issues _ issued)
  distinct := by
    rw [List.map_append, List.nodup_append]
    refine ⟨left.distinct, right.distinct, ?_⟩
    rintro _ before _ later rfl
    obtain ⟨old, oldMem, rfl⟩ := List.mem_map.mp before
    obtain ⟨new, newMem, same⟩ := List.mem_map.mp later
    exact right.fresh new newMem (same ▸ left.issued old oldMem)

theorem Queues.rfl : Queues doc doc [] where
  pending_eq := (List.append_nil _).symm
  issues _ issued := issued
  issued := by simp
  fresh := by simp
  distinct := List.nodup_nil

/-- What was printed before a tick counts as printed after it. -/
theorem Issued.tick {next : RegistryDoc} (now : Nat) {batch : String} (issued : doc.Issued batch)
    (clock_eq : next.clock = doc.clock.tick now) (deviceId_eq : next.deviceId = doc.deviceId) :
    next.Issued batch := by
  obtain ⟨clock, past, rfl⟩ := issued
  refine ⟨clock, fun later => past ?_, by rw [deviceId_eq]⟩
  rw [clock_eq] at later
  exact (HlcClock.precedes_tick doc.clock now).trans later

theorem queues_nextHlc (doc : RegistryDoc) (now : Nat) : Queues doc (doc.nextHlc now).1 [] where
  pending_eq := (List.append_nil _).symm
  issues _ issued := issued.tick now (Eq.refl _) (Eq.refl _)
  issued := by simp
  fresh := by simp
  distinct := List.nodup_nil

theorem queues_enqueueBatch (doc : RegistryDoc) (now : Nat) (ops : List RowOp) :
    Queues doc (doc.enqueueBatch now ops)
      [{ batch := "b-" ++ (doc.clock.tick now).print doc.deviceId, ops, inFlight := false }] where
  pending_eq := Eq.refl _
  issues _ issued := issued.tick now (Eq.refl _) (Eq.refl _)
  issued := by
    intro pending member
    obtain rfl := List.mem_singleton.mp member
    exact ⟨doc.clock.tick now, fun self => self.ne (Eq.refl _), Eq.refl _⟩
  fresh := by
    intro pending member issued
    obtain rfl := List.mem_singleton.mp member
    obtain ⟨clock, past, printed⟩ := issued
    obtain rfl := HlcClock.print_injective ((String.append_right_inj "b-").mp printed)
    exact past (HlcClock.precedes_tick doc.clock now)
  distinct := List.nodup_singleton _

theorem queues_enqueueBatches (batches : List (List RowOp)) (now : Nat → Nat)
    (doc : RegistryDoc) : ∃ added, Queues doc (enqueueBatches now doc batches) added ∧
      added.map PendingBatch.ops = batches := by
  induction batches generalizing doc now with
  | nil => exact ⟨[], .rfl, Eq.refl _⟩
  | cons ops rest ih =>
      obtain ⟨added, queues, batches_eq⟩ :=
        ih (fun reading => now (reading + 1)) (doc.enqueueBatch (now 0) ops)
      exact ⟨_, (queues_enqueueBatch doc (now 0) ops).trans queues, by simp [batches_eq]⟩

/-- No operation is lost in the cuts. -/
theorem flatten_splitOps {fuel : Nat} {ops : List RowOp} (enough : ops.length ≤ fuel) :
    (splitOps fuel ops).flatten = ops := by
  induction fuel generalizing ops with
  | zero => simp [splitOps, List.length_eq_zero_iff.mp (Nat.le_zero.mp enough)]
  | succ fuel ih =>
      unfold splitOps
      split
      · simp [List.isEmpty_iff.mp ‹_›]
      · have nonempty : ops ≠ [] := fun same => by simp [same] at *
        have shorter : (ops.drop maxOpsPerBatch).length ≤ fuel := by
          have pos := List.length_pos_iff.mpr nonempty
          simp only [List.length_drop, maxOpsPerBatch]
          omega
        rw [List.flatten_cons, ih shorter, List.take_append_drop]

/-- Queued operations stand in new batches, in their order. -/
theorem queues_enqueueOps (doc : RegistryDoc) (now : Nat → Nat) (ops : List RowOp) :
    ∃ added, Queues doc (doc.enqueueOps now ops) added ∧
      added.flatMap PendingBatch.ops = ops := by
  unfold enqueueOps
  split
  · exact ⟨[], .rfl, (List.isEmpty_iff.mp ‹_›).symm⟩
  · obtain ⟨added, queues, batches_eq⟩ :=
      queues_enqueueBatches (splitOps ops.length ops) now
        { doc with generation := doc.generation + 1 }
    refine ⟨added, ⟨queues.pending_eq, queues.issues, queues.issued, queues.fresh,
      queues.distinct⟩, ?_⟩
    rw [List.flatMap_def, batches_eq, flatten_splitOps le_rfl]

/-- A field write queues one operation, under a clock text not printed before. -/
theorem queues_write (doc : RegistryDoc) (now : Nat → Nat) (kind id : String) (op : OpKind)
    (set : FieldMap Json) :
    ∃ added, Queues doc (doc.write now kind id op set) added ∧
      added.flatMap PendingBatch.ops =
        [.fieldWrite kind id op set ((doc.clock.tick (now 0)).print doc.deviceId)] := by
  obtain ⟨added, queues, ops_eq⟩ := queues_enqueueOps (doc.nextHlc (now 0)).1
    (fun reading => now (reading + 1))
    [.fieldWrite kind id op set ((doc.clock.tick (now 0)).print doc.deviceId)]
  exact ⟨added, (queues_nextHlc doc (now 0)).trans queues, ops_eq⟩

theorem queues_deleteRowOps (doc : RegistryDoc) (now : Nat → Nat) (keys : List RowKey) :
    ∃ added, Queues doc (doc.deleteRowOps now keys) added ∧
      added.flatMap PendingBatch.ops = keys.map fun key =>
        .rowDelete key.kind key.id ((doc.clock.tick (now 0)).print doc.deviceId) := by
  obtain ⟨added, queues, ops_eq⟩ := queues_enqueueOps (doc.nextHlc (now 0)).1
    (fun reading => now (reading + 1)) (keys.map fun key =>
      .rowDelete key.kind key.id ((doc.clock.tick (now 0)).print doc.deviceId))
  exact ⟨added, (queues_nextHlc doc (now 0)).trans queues, ops_eq⟩

/-! ## What a frame does to the rows held -/

/-- The replica that has taken over the marks of a state frame. -/
def seen (doc : RegistryDoc) (frame : StateFrame) (authoritative : Table) : RegistryDoc :=
  { doc with
    authoritative
    serverSeq := frame.seq
    gcFloor := frame.gcFloor
    generation := doc.generation + 1 }

/-- The rows held that a full answer does not list. -/
def localOnly (doc : RegistryDoc) (frame : StateFrame) : List RegistryRow :=
  (values doc.authoritative).filter fun row =>
    !(insertAll RegistryRow.key (∅ : Table) frame.rows).contains row.key

/-- The seeds that a state frame is answered with: everything held when the
server is behind, else what a full answer does not list. -/
def seeds (doc : RegistryDoc) (frame : StateFrame) : List RowOp :=
  if !frame.full then []
  else if frame.seq < doc.serverSeq then (values doc.authoritative).map rowToSeedOp
  else (doc.localOnly frame).map rowToSeedOp

/-- Seeds are rows of the replica, for a full answer only: all of them when it is
behind, else those that it does not list. -/
theorem mem_seeds {frame : StateFrame} {op : RowOp} (member : op ∈ doc.seeds frame) :
    frame.full = true ∧ ∃ (key : RowKey) (row : RegistryRow),
      doc.authoritative[key]? = some row ∧ rowToSeedOp row = op ∧
        (frame.seq < doc.serverSeq ∨ ∀ listed ∈ frame.rows, listed.key ≠ row.key) := by
  unfold seeds at member
  cases full : frame.full with
  | false => simp [full] at member
  | true =>
      simp only [full, Bool.not_true, Bool.false_eq_true, if_false] at member
      refine ⟨rfl, ?_⟩
      split at member
      · rename_i behind
        obtain ⟨row, value, same⟩ := List.mem_map.mp member
        obtain ⟨key, found⟩ := mem_values_iff.mp value
        exact ⟨key, row, found, same, Or.inl behind⟩
      · obtain ⟨row, localRow, same⟩ := List.mem_map.mp member
        obtain ⟨value, unlisted⟩ := List.mem_filter.mp localRow
        obtain ⟨key, found⟩ := mem_values_iff.mp value
        refine ⟨key, row, found, same, Or.inr ?_⟩
        intro listed inFrame sameKey
        have absent : (insertAll RegistryRow.key (∅ : Table) frame.rows)[row.key]? = none :=
          Std.ExtTreeMap.getElem?_eq_none_of_contains_eq_false
            (by simpa using unlisted)
        exact getElem?_insertAll_ne_none inFrame ∅ (sameKey ▸ absent)

/-- The rows that a state frame is written over: none where it replaces all. -/
def kept (doc : RegistryDoc) (frame : StateFrame) : Table :=
  if frame.full = true ∧ doc.serverSeq ≤ frame.seq then ∅ else doc.authoritative

section ApplyState

variable {doc : RegistryDoc} {now : Nat → Nat} {frame : StateFrame}

/-- A state frame is written over the rows kept, and the seeds are queued. -/
theorem applyState_eq :
    (doc.applyState now frame).1 =
      (doc.seen frame (insertAll RegistryRow.key (doc.kept frame) frame.rows)).enqueueOps now
        (doc.seeds frame) := by
  cases full : frame.full with
  | false => simp [applyState, seeds, kept, full, seen, enqueueOps]
  | true =>
      by_cases behind : frame.seq < doc.serverSeq
      · have notAhead : ¬doc.serverSeq ≤ frame.seq := Nat.not_le_of_lt behind
        simp [applyState, seeds, kept, full, seen, behind, notAhead]
      · have ahead : doc.serverSeq ≤ frame.seq := Nat.le_of_not_lt behind
        have isKept : doc.kept frame = ∅ := if_pos ⟨full, ahead⟩
        have isSeeds : doc.seeds frame = (doc.localOnly frame).map rowToSeedOp := by
          simp [seeds, full, behind]
        simp only [applyState, full, behind, Bool.not_true, Bool.false_eq_true, if_false]
        rw [isKept, isSeeds, ← localOnly.eq_1]
        split
        · simp only [seen, enqueueOps, if_pos ‹_›]
        · rfl

/-- Whatever is decided about a state frame, the cursor moves to its seq. -/
@[simp]
theorem applyState_serverSeq : (doc.applyState now frame).1.serverSeq = frame.seq := by
  rw [applyState_eq]
  exact (sameView_enqueueOps _ _ _).serverSeq_eq

theorem applyState_authoritative :
    (doc.applyState now frame).1.authoritative =
      insertAll RegistryRow.key (doc.kept frame) frame.rows := by
  rw [applyState_eq]
  exact (sameView_enqueueOps _ _ _).authoritative_eq

theorem queues_applyState :
    ∃ added, Queues doc (doc.applyState now frame).1 added ∧
      added.flatMap PendingBatch.ops = doc.seeds frame := by
  obtain ⟨added, queues, ops_eq⟩ := queues_enqueueOps
    (doc.seen frame (insertAll RegistryRow.key (doc.kept frame) frame.rows)) now (doc.seeds frame)
  rw [← applyState_eq] at queues
  exact ⟨added, ⟨queues.pending_eq, queues.issues, queues.issued, queues.fresh, queues.distinct⟩,
    ops_eq⟩

end ApplyState

@[simp]
theorem applyRows_authoritative (doc : RegistryDoc) (seq : Nat) (rows : List RegistryRow) :
    (doc.applyRows seq rows).1.authoritative =
      insertAll RegistryRow.key doc.authoritative rows := by
  unfold applyRows
  split <;> rfl

/-- A broadcast moves the cursor by one seq or not at all. -/
theorem applyRows_serverSeq (doc : RegistryDoc) (seq : Nat) (rows : List RegistryRow) :
    (doc.applyRows seq rows).1.serverSeq =
      if seq = doc.serverSeq + 1 then seq else doc.serverSeq := by
  unfold applyRows
  grind

end RegistryDoc

end Zeron.Registry
