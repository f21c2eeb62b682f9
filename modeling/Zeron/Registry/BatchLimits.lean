import Mathlib.Algebra.Order.BigOperators.Group.List
import Zeron.Registry.Replica

/-!
# Batches that the room takes

The queue of a replica moves on only if the room takes its batches.  The room
bounds a batch twice, by its operations and by the bytes of its frame; the
replica cuts its batches by the number of operations alone.
-/

namespace Zeron.Registry

open Zeron.Data
open Zeron.Wire
open Zeron.Transition

/-! ## What the room takes -/

namespace RegistryRoom

/-- `MAX_FRAME_BYTES`. -/
def maxFrameBytes : Nat := 1000000

/-- A batch passes `webSocketMessage` and the checks of `applyPushBatch`. -/
def takes (batch : PendingBatch) : Bool :=
  let frame := pushFrame batch.batch batch.ops
  decide (frame.byteLength ≤ maxFrameBytes) && (readBatch frame).toBool

theorem readBatch_toBool_iff (batch : String) (ops : List RowOp) :
    (readBatch (pushFrame batch ops)).toBool = true ↔
      batch ≠ "" ∧ ops ≠ [] ∧ ops.length ≤ maxBatchOps ∧
        ∀ op ∈ ops, Edge.validateOp (encodeOp op) = none := by
  have name : readString ((pushFrame batch ops).member "batch") = batch := rfl
  have list : (pushFrame batch ops).member "ops" = some (.arr (ops.map encodeOp)) := rfl
  simp only [readBatch, list, List.length_map]
  split
  · simp_all [Except.toBool]
  · split
    · rename_i bad
      obtain none_there | many := bad
      · simp [Except.toBool, List.length_eq_zero_iff.mp none_there]
      · simp [Except.toBool, Nat.not_le.mpr many]
    · rename_i named sized
      obtain ⟨some_there, few⟩ := not_or.mp sized
      have some_op : ops ≠ [] := fun same => some_there (by simp [same])
      cases invalid : (ops.map encodeOp).findSome? Edge.validateOp with
      | none =>
          simp only [List.findSome?_eq_none_iff, List.mem_map, forall_exists_index, and_imp,
            forall_apply_eq_imp_iff₂] at invalid
          simp only [Except.toBool, true_iff]
          exact ⟨named, some_op, Nat.not_lt.mp few, invalid⟩
      | some message =>
          refine iff_of_false (by simp [Except.toBool]) fun ⟨_, _, _, valid⟩ => ?_
          obtain ⟨_, listed, refused⟩ := List.exists_of_findSome?_eq_some invalid
          obtain ⟨op, mine, rfl⟩ := List.mem_map.mp listed
          rw [valid op mine] at refused
          cases refused

end RegistryRoom

/-! ## The size of a batch -/

/-- The bytes of the operations, with a comma after each. -/
def opsBytes (ops : List RowOp) : Nat :=
  (ops.map fun op => (encodeOp op).byteLength + 1).sum

/-- The operations leave room for the frame around them and for a batch id. -/
def FitsFrame (batch : String) (ops : List RowOp) : Prop :=
  opsBytes ops + bytes (Json.quote batch) + 29 ≤ RegistryRoom.maxFrameBytes

instance (batch : String) (ops : List RowOp) : Decidable (FitsFrame batch ops) :=
  inferInstanceAs (Decidable (_ ≤ _))

theorem byteLength_pushFrame (batch : String) {ops : List RowOp} (some_op : ops ≠ []) :
    (pushFrame batch ops).byteLength = opsBytes ops + bytes (Json.quote batch) + 29 := by
  have items : (Json.arr (ops.map encodeOp)).byteLength = opsBytes ops + 1 := by
    rw [Json.byteLength_arr (by simpa using some_op), List.map_map]
    rfl
  have tag : bytes (Json.quote "t") = 3 := by decide
  have push : bytes (Json.quote "push") = 6 := by decide
  have name : bytes (Json.quote "batch") = 7 := by decide
  have list : bytes (Json.quote "ops") = 5 := by decide
  rw [pushFrame, Json.byteLength_obj (List.cons_ne_nil _ _)]
  simp only [List.map_cons, List.map_nil, List.sum_cons, List.sum_nil, Json.byteLength_str, items,
    tag, push, name, list]
  ring

/-- Valid operations of one group are taken exactly when they fit in a frame. -/
theorem takes_iff {batch : PendingBatch} (named : batch.batch ≠ "") (some_op : batch.ops ≠ [])
    (few : batch.ops.length ≤ RegistryDoc.maxOpsPerBatch)
    (valid : ∀ op ∈ batch.ops, Edge.validateOp (encodeOp op) = none) :
    RegistryRoom.takes batch = true ↔ FitsFrame batch.batch batch.ops := by
  have counted : batch.ops.length ≤ RegistryRoom.maxBatchOps := few.trans (by decide)
  have read := (RegistryRoom.readBatch_toBool_iff batch.batch batch.ops).mpr
    ⟨named, some_op, counted, valid⟩
  rw [RegistryRoom.takes, read, Bool.and_true, decide_eq_true_iff, FitsFrame,
    byteLength_pushFrame _ some_op]

namespace RegistryDoc

/-! ## What is queued, batch by batch -/

theorem splitOps_group {fuel : Nat} {ops group : List RowOp} (listed : group ∈ splitOps fuel ops) :
    group ≠ [] ∧ group.length ≤ maxOpsPerBatch := by
  induction fuel generalizing ops with
  | zero => cases listed
  | succ fuel ih =>
      unfold splitOps at listed
      split at listed
      · cases listed
      · rename_i some_op
        obtain rfl | later := List.mem_cons.mp listed
        · refine ⟨fun empty => some_op ?_, List.length_take_le _ _⟩
          rw [List.take_eq_nil_iff] at empty
          simp [empty.resolve_left (by decide)]
        · exact ih later

/-- A group of operations is not cut again. -/
theorem splitOps_of_group {group : List RowOp} (some_op : group ≠ [])
    (few : group.length ≤ maxOpsPerBatch) : splitOps group.length group = [group] := by
  obtain ⟨fuel, length_eq⟩ := Nat.exists_eq_succ_of_ne_zero
    (List.length_eq_zero_iff.not.mpr some_op)
  have rest : splitOps fuel (group.drop maxOpsPerBatch) = [] := by
    rw [List.drop_eq_nil_of_le few]
    cases fuel <;> rfl
  rw [length_eq, splitOps, if_neg (by simp [some_op]), List.take_of_length_le few, rest]

/-- The batches that groups of operations go into, each under a tick of its own. -/
def batchesOf (device : String) : HlcClock → (Nat → Nat) → List (List RowOp) → List PendingBatch
  | _, _, [] => []
  | clock, now, ops :: rest =>
      { batch := "b-" ++ (clock.tick (now 0)).print device, ops, inFlight := false } ::
        batchesOf device (clock.tick (now 0)) (fun reading => now (reading + 1)) rest

/-- Each group fits in a frame with the batch id that it gets. -/
def GroupsFit (device : String) : HlcClock → (Nat → Nat) → List (List RowOp) → Prop
  | _, _, [] => True
  | clock, now, ops :: rest =>
      FitsFrame ("b-" ++ (clock.tick (now 0)).print device) ops ∧
        GroupsFit device (clock.tick (now 0)) (fun reading => now (reading + 1)) rest

instance (device : String) : (clock : HlcClock) → (now : Nat → Nat) →
    (groups : List (List RowOp)) → Decidable (GroupsFit device clock now groups)
  | _, _, [] => inferInstanceAs (Decidable True)
  | clock, now, ops :: rest =>
      have := instDecidableGroupsFit device (clock.tick (now 0)) (fun reading => now (reading + 1))
        rest
      inferInstanceAs (Decidable (FitsFrame _ ops ∧ _))

theorem forall_batchesOf_iff {device : String} (groups : List (List RowOp)) (clock : HlcClock)
    (now : Nat → Nat) :
    (∀ batch ∈ batchesOf device clock now groups, FitsFrame batch.batch batch.ops) ↔
      GroupsFit device clock now groups := by
  induction groups generalizing clock now with
  | nil => simp [batchesOf, GroupsFit]
  | cons ops rest ih => simp only [batchesOf, GroupsFit, List.forall_mem_cons, ih]

theorem batchesOf_spec {device : String} {groups : List (List RowOp)} {clock : HlcClock}
    {now : Nat → Nat} {batch : PendingBatch}
    (listed : batch ∈ batchesOf device clock now groups) :
    batch.batch ≠ "" ∧ batch.ops ∈ groups := by
  induction groups generalizing clock now with
  | nil => cases listed
  | cons ops rest ih =>
      obtain rfl | later := List.mem_cons.mp listed
      · refine ⟨fun empty => ?_, List.mem_cons_self⟩
        have chars := congrArg String.toList empty
        simp at chars
      · exact (ih later).imp_right (List.mem_cons_of_mem ops)

theorem flatMap_batchesOf {device : String} (groups : List (List RowOp)) (clock : HlcClock)
    (now : Nat → Nat) :
    (batchesOf device clock now groups).flatMap PendingBatch.ops = groups.flatten := by
  induction groups generalizing clock now with
  | nil => rfl
  | cons ops rest ih => rw [batchesOf, List.flatMap_cons, ih, List.flatten_cons]

theorem enqueueBatches_pending (groups : List (List RowOp)) (now : Nat → Nat)
    (doc : RegistryDoc) :
    (enqueueBatches now doc groups).pending =
      doc.pending ++ batchesOf doc.deviceId doc.clock now groups := by
  induction groups generalizing doc now with
  | nil => simp [enqueueBatches, batchesOf]
  | cons ops rest ih =>
      rw [enqueueBatches, ih]
      exact List.append_assoc doc.pending [_] _

/-! ## The groups of an event -/

/-- The operations of an intent. -/
def intentOps (doc : RegistryDoc) (now : Nat → Nat) : Intent → List RowOp
  | .update kind id set =>
      if doc.rowExists ⟨kind, id⟩ then
        [.fieldWrite kind id .update set ((doc.clock.tick (now 0)).print doc.deviceId)]
      else []
  | .upsert kind id set =>
      [.fieldWrite kind id .upsert set ((doc.clock.tick (now 0)).print doc.deviceId)]
  | .delete keys =>
      keys.map fun key =>
        .rowDelete key.kind key.id ((doc.clock.tick (now 0)).print doc.deviceId)
  | .rest _ _ => []

/-- The operations that an event is to queue. -/
def requested (times : TimeTexts) (doc : RegistryDoc) : Event → List RowOp
  | .mutate now mutation => doc.intentOps now (doc.intent times mutation)
  | .seed _ state => seedOps state
  | .state _ frame => doc.seeds frame
  | _ => []

/-- The clock source when the first group is queued: the clock of a typed call's own
operations has been printed by then. -/
def sourceAt (doc : RegistryDoc) : Event → HlcClock
  | .mutate now _ => doc.clock.tick (now 0)
  | _ => doc.clock

/-- The readings of the wall clock from then on. -/
def readingsAt : Event → Nat → Nat
  | .mutate now _ => fun reading => now (reading + 1)
  | .seed now _ | .state now _ => now
  | _ => fun _ => 0

/-- The groups of up to 400 that the operations of an event are cut into. -/
def groups (times : TimeTexts) (doc : RegistryDoc) (event : Event) : List (List RowOp) :=
  splitOps (doc.requested times event).length (doc.requested times event)

/-- Each group of an event fits in a frame. -/
def Fits (times : TimeTexts) (doc : RegistryDoc) (event : Event) : Prop :=
  GroupsFit doc.deviceId (doc.sourceAt event) (readingsAt event) (doc.groups times event)

instance (times : TimeTexts) (doc : RegistryDoc) (event : Event) : Decidable (doc.Fits times event) :=
  inferInstanceAs (Decidable (GroupsFit _ _ _ _))

/-- The batches that an event adds. -/
def newBatches (times : TimeTexts) (doc : RegistryDoc) (event : Event) : List PendingBatch :=
  batchesOf doc.deviceId (doc.sourceAt event) (readingsAt event) (doc.groups times event)

variable {times : TimeTexts} {doc next : RegistryDoc} {now : Nat → Nat}

theorem enqueueOps_pending (doc : RegistryDoc) (now : Nat → Nat) (ops : List RowOp) :
    (doc.enqueueOps now ops).pending =
      doc.pending ++ batchesOf doc.deviceId doc.clock now (splitOps ops.length ops) := by
  unfold enqueueOps
  split
  · rename_i empty
    simp [List.isEmpty_iff.mp empty, splitOps, batchesOf]
  · exact enqueueBatches_pending _ now _

/-- What is queued are the batches that stand behind the old ones. -/
theorem Queues.of_pending {added expected : List PendingBatch} (queues : Queues doc next added)
    (pending_eq : next.pending = doc.pending ++ expected) : Queues doc next expected := by
  have same : added = expected := List.append_cancel_left (queues.pending_eq.symm.trans pending_eq)
  exact same ▸ queues

theorem queues_enqueueChunks {chunks : List (List RowOp)}
    (group : ∀ chunk ∈ chunks, chunk ≠ [] ∧ chunk.length ≤ maxOpsPerBatch) (now : Nat → Nat)
    (doc : RegistryDoc) :
    Queues doc (doc.enqueueChunks now chunks) (batchesOf doc.deviceId doc.clock now chunks) := by
  induction chunks generalizing doc now with
  | nil => exact .rfl
  | cons chunk rest ih =>
      obtain ⟨some_op, few⟩ := group chunk List.mem_cons_self
      have shape : doc.enqueueOps now chunk =
          ({ doc with generation := doc.generation + 1 } : RegistryDoc).enqueueBatch (now 0)
            chunk := by
        unfold enqueueOps
        rw [if_neg (by simp [some_op]), splitOps_of_group some_op few]
        rfl
      obtain ⟨added, queues, _⟩ := queues_enqueueOps doc now chunk
      have first : Queues doc (doc.enqueueOps now chunk)
          [{ batch := "b-" ++ (doc.clock.tick (now 0)).print doc.deviceId, ops := chunk,
             inFlight := false }] :=
        queues.of_pending (by rw [shape]; rfl)
      have later := ih (fun other listed => group other (List.mem_cons_of_mem chunk listed))
        (fun reading => now (reading + 1)) (doc.enqueueOps now chunk)
      rw [shape] at first later
      rw [enqueueChunks, shape]
      exact first.trans later

theorem queues_perform (intent : Intent) :
    Queues doc (doc.perform now intent)
      (batchesOf doc.deviceId (doc.clock.tick (now 0)) (fun reading => now (reading + 1))
        (splitOps (doc.intentOps now intent).length (doc.intentOps now intent))) := by
  cases intent with
  | update kind id set =>
      simp only [perform, intentOps]
      cases there : doc.rowExists ⟨kind, id⟩ with
      | true =>
          obtain ⟨added, queues, _⟩ := doc.queues_write now kind id .update set
          rw [updateRow_of_exists there]
          exact queues.of_pending (enqueueOps_pending _ _ _)
      | false =>
          rw [updateRow_of_missing there]
          exact .rfl
  | upsert kind id set =>
      obtain ⟨added, queues, _⟩ := doc.queues_write now kind id .upsert set
      exact queues.of_pending (enqueueOps_pending _ _ _)
  | delete keys =>
      obtain ⟨added, queues, _⟩ := doc.queues_deleteRowOps now keys
      exact queues.of_pending (enqueueOps_pending _ _ _)
  | rest kind id => exact .rfl

/-- An event that may queue operations, and what it has queued. -/
theorem queues_after {event : Event}
    (queuing : (∃ now mutation, event = .mutate now mutation) ∨
      (∃ now state, event = .seed now state) ∨ ∃ now frame, event = .state now frame) :
    Queues doc (doc.after times event) (doc.newBatches times event) := by
  obtain ⟨now, mutation, rfl⟩ | ⟨now, state, rfl⟩ | ⟨now, frame, rfl⟩ := queuing
  · rw [after, mutate_eq_perform]
    exact queues_perform (doc.intent times mutation)
  · exact queues_enqueueChunks (fun chunk listed => splitOps_group listed) now doc
  · have applied : ∃ added, Queues doc (doc.applyState now frame).1 added ∧
        added.flatMap PendingBatch.ops = doc.seeds frame := queues_applyState
    obtain ⟨added, queues, _⟩ := applied
    refine queues.of_pending ?_
    rw [applyState_eq]
    exact enqueueOps_pending _ _ _

/-- What an event leaves of the batch ids: new ones have not been printed before. -/
structure Prints (doc next : RegistryDoc) (added : List PendingBatch) : Prop where
  produced : next.pending.drop doc.pending.length = added
  issues : ∀ batch, doc.Issued batch → next.Issued batch
  issued : ∀ pending ∈ added, next.Issued pending.batch
  fresh : ∀ pending ∈ added, ¬doc.Issued pending.batch
  distinct : (added.map PendingBatch.batch).Nodup

theorem Queues.prints {added : List PendingBatch} (queues : Queues doc next added) :
    Prints doc next added where
  produced := by rw [queues.pending_eq, List.drop_left]
  issues := queues.issues
  issued := queues.issued
  fresh := queues.fresh
  distinct := queues.distinct

theorem prints_nothing (shorter : next.pending.length ≤ doc.pending.length)
    (clock_eq : next.clock = doc.clock) (device_eq : next.deviceId = doc.deviceId) :
    Prints doc next [] where
  produced := List.drop_eq_nil_of_le shorter
  issues batch := by
    rintro ⟨clock, past, rfl⟩
    exact ⟨clock, by rw [clock_eq]; exact past, by rw [device_eq]⟩
  issued := nofun
  fresh := nofun
  distinct := List.nodup_nil

theorem prints_after (event : Event) :
    Prints doc (doc.after times event) (doc.newBatches times event) := by
  cases event with
  | mutate now mutation => exact (queues_after (Or.inl ⟨now, mutation, rfl⟩)).prints
  | seed now state => exact (queues_after (Or.inr (Or.inl ⟨now, state, rfl⟩))).prints
  | state now frame => exact (queues_after (Or.inr (Or.inr ⟨now, frame, rfl⟩))).prints
  | rows seq rows =>
      have kept : (doc.applyRows seq rows).1.pending = doc.pending ∧
          (doc.applyRows seq rows).1.clock = doc.clock ∧
          (doc.applyRows seq rows).1.deviceId = doc.deviceId := by
        unfold applyRows
        split <;> exact ⟨rfl, rfl, rfl⟩
      exact prints_nothing (le_of_eq (congrArg List.length kept.1)) kept.2.1 kept.2.2
  | ack batch =>
      have kept : (doc.ackBatch batch).pending.length ≤ doc.pending.length ∧
          (doc.ackBatch batch).clock = doc.clock ∧
          (doc.ackBatch batch).deviceId = doc.deviceId := by
        unfold ackBatch
        simp only
        split
        · exact ⟨List.length_filter_le _ _, rfl, rfl⟩
        · exact ⟨le_rfl, rfl, rfl⟩
      exact prints_nothing kept.1 kept.2.1 kept.2.2
  | takePushable | markDisconnected | reload outdated =>
      exact prints_nothing (le_of_eq (List.length_map _)) rfl rfl

end RegistryDoc

/-! ## Spaces under long names -/

def namedSpace (id name : String) : Space where
  id := id
  deviceId := "d"
  path := "/"
  name := some name
  gitDetected := false
  gitCheckedAt := none
  checkoutId := none
  createdAt := 1

def namedSpaceOp (id name : String) : RowOp :=
  seedOp kindSpaces id 1 (RegistryDoc.spaceFields (namedSpace id name))

theorem encodeOp_namedSpaceOp (id name : String) :
    encodeOp (namedSpaceOp id name) =
      .obj [("kind", .str "spaces"), ("id", .str id), ("op", .str "upsert"),
        ("set", .obj [("checkoutId", .null), ("createdAt", number 1), ("deviceId", .str "d"),
          ("gitCheckedAt", .null), ("gitDetected", .bool false), ("id", .str id),
          ("name", .str name), ("path", .str "/")]),
        ("hlc", .str (encodeHlc 1 0 "migration"))] :=
  rfl

theorem byteLength_namedSpaceOp (id name : String) :
    (encodeOp (namedSpaceOp id name)).byteLength + 6 =
      (encodeOp (namedSpaceOp "" "")).byteLength + 2 * bytes (Json.quote id) +
        bytes (Json.quote name) := by
  have empty : bytes (Json.quote "") = 2 := by decide
  simp only [encodeOp_namedSpaceOp, Json.byteLength_obj (List.cons_ne_nil _ _), List.map_cons,
    List.sum_cons, Json.byteLength_str]
  omega

/-- The checks of `set` do not look at the values. -/
theorem validateSet_namedSpaceOp (id name : String) :
    Edge.validateSet (encodeOp (namedSpaceOp id name)) = none := by
  have op : (encodeOp (namedSpaceOp id name)).member "op" = some (.str "upsert") := rfl
  have set : (encodeOp (namedSpaceOp id name)).member "set" =
      some (.obj (RegistryDoc.spaceFields (namedSpace id name)).toList) := rfl
  have checked : ∀ key ∈ ["checkoutId", "createdAt", "deviceId", "gitCheckedAt", "gitDetected",
      "id", "name", "path"], Edge.fieldRe key = true := by decide
  rw [Edge.validateSet, op, if_neg (by decide), set]
  simp only [Option.map_eq_none_iff, List.find?_eq_none, Bool.not_eq_true', Bool.not_eq_false]
  exact checked

theorem validateOp_namedSpaceOp {id name : String} (named : Edge.idRe id = true)
    (short : 2 * bytes (Json.quote id) + bytes (Json.quote name) ≤ 16100) :
    Edge.validateOp (encodeOp (namedSpaceOp id name)) = none := by
  have kind : Edge.isText Edge.kindRe (some (.str "spaces")) = true := by decide
  have op : Edge.isText ["upsert", "update", "delete"].contains (some (.str "upsert")) = true := by
    decide
  have hlc : Edge.isText hlcRe (some (.str (encodeHlc 1 0 "migration"))) = true := by
    decide +kernel
  have around : (encodeOp (namedSpaceOp "" "")).byteLength ≤ 280 := by decide +kernel
  have size := byteLength_namedSpaceOp id name
  refine (Edge.validateOp_eq_none_iff _).mpr
    ⟨rfl, kind, named, op, hlc, validateSet_namedSpaceOp id name, rfl, ?_⟩
  rw [Edge.maxOpBytes]
  omega

/-- Seventy spaces under names of 16000 letters. -/
def longNames : WorkspaceState where
  devices := []
  spaces := (List.range 70).map fun index =>
    namedSpace ("s" ++ toString index) (String.ofList (List.replicate 16000 'a'))
  chats := []
  sessions := []

theorem seedOps_longNames :
    seedOps longNames = (List.range 70).map fun index =>
      namedSpaceOp ("s" ++ toString index) (String.ofList (List.replicate 16000 'a')) := by
  have at_one : newest [none, some 1] = 1 := by decide
  simp only [seedOps, longNames, List.map_nil, List.append_nil, List.map_map]
  refine List.map_congr_left fun index _ => ?_
  rfl

theorem bytes_longName : bytes (Json.quote (String.ofList (List.replicate 16000 'a'))) = 16002 := by
  rw [Json.bytes_quote_replicate (by decide)]
  decide

theorem valid_longNames : ∀ op ∈ seedOps longNames, Edge.validateOp (encodeOp op) = none := by
  rw [seedOps_longNames, List.forall_mem_map]
  intro index listed
  have ids : ∀ other ∈ List.range 70, Edge.idRe ("s" ++ toString other) = true ∧
      bytes (Json.quote ("s" ++ toString other)) ≤ 5 := by decide +kernel
  have size := bytes_longName
  obtain ⟨named, short⟩ := ids index listed
  exact validateOp_namedSpaceOp named (by omega)

theorem opsBytes_longNames : RegistryRoom.maxFrameBytes < opsBytes (seedOps longNames) := by
  have around : 6 ≤ (encodeOp (namedSpaceOp "" "")).byteLength := by decide +kernel
  have each : ∀ size ∈ (seedOps longNames).map fun op => (encodeOp op).byteLength + 1,
      16000 ≤ size := by
    rw [seedOps_longNames, List.map_map, List.forall_mem_map]
    intro index listed
    have size := byteLength_namedSpaceOp ("s" ++ toString index)
      (String.ofList (List.replicate 16000 'a'))
    rw [bytes_longName] at size
    simp only [Function.comp_apply]
    omega
  have count : (seedOps longNames).length = 70 := by
    rw [seedOps_longNames, List.length_map, List.length_range]
  calc
    RegistryRoom.maxFrameBytes < 70 • 16000 := by decide
    _ ≤ opsBytes (seedOps longNames) := by
      exact List.card_nsmul_le_sum _ _ each

theorem not_fits_longNames (times : TimeTexts) (doc : RegistryDoc) (now : Nat → Nat) :
    ¬ doc.Fits times (.seed now longNames) := by
  have count : (seedOps longNames).length = 70 := by
    rw [seedOps_longNames, List.length_map, List.length_range]
  have one_group : doc.groups times (.seed now longNames) = [seedOps longNames] :=
    RegistryDoc.splitOps_of_group (List.ne_nil_of_length_pos (count ▸ by decide))
      (count.trans_le (by decide))
  intro fits
  have small : FitsFrame _ (seedOps longNames) := fits.1
  have large := opsBytes_longNames
  rw [FitsFrame] at small
  omega

/-! ## Runs -/

/-- A replica with everything that it has been asked to queue, and has queued, so far. -/
structure QueueRecord where
  doc : RegistryDoc
  enqueued : List RowOp
  produced : List PendingBatch

namespace QueueRecord

def start (deviceId : String) : QueueRecord :=
  { doc := .new deviceId, enqueued := [], produced := [] }

/-- One event, if each of its operations passes the room's checks by itself. -/
def step (times : TimeTexts) : Step QueueRecord RegistryDoc.Event := fun record event =>
  if (record.doc.requested times event).all fun op => (Edge.validateOp (encodeOp op)).isNone then
    let next := record.doc.after times event
    some
      { doc := next
        enqueued := record.enqueued ++ record.doc.requested times event
        produced := record.produced ++ next.pending.drop record.doc.pending.length }
  else none

/-- The queued batches are the operations asked for, cut but otherwise as they were, and no
two have one id. -/
structure Whole (record : QueueRecord) : Prop where
  ops : record.produced.flatMap PendingBatch.ops = record.enqueued
  distinct : (record.produced.map PendingBatch.batch).Nodup

/-- The room takes every batch. -/
def Taken (record : QueueRecord) : Prop :=
  ∀ batch ∈ record.produced, RegistryRoom.takes batch = true

structure Sound (record : QueueRecord) : Prop extends Whole record where
  issued : ∀ batch ∈ record.produced, record.doc.Issued batch.batch

variable {times : TimeTexts} {record next : QueueRecord} {event : RegistryDoc.Event}

theorem sound_start (deviceId : String) : (start deviceId).Sound :=
  ⟨⟨rfl, List.nodup_nil⟩, nofun⟩

theorem step_eq_some_iff :
    step times record event = some next ↔
      (∀ op ∈ record.doc.requested times event, Edge.validateOp (encodeOp op) = none) ∧
        next =
          { doc := record.doc.after times event
            enqueued := record.enqueued ++ record.doc.requested times event
            produced := record.produced ++ record.doc.newBatches times event } := by
  rw [← (RegistryDoc.prints_after event).produced]
  simp only [step, List.all_eq_true, Option.isNone_iff_eq_none, Option.ite_none_right_eq_some,
    Option.some.injEq]
  exact and_congr_right fun _ => eq_comm

theorem flatten_groups (doc : RegistryDoc) :
    (doc.newBatches times event).flatMap PendingBatch.ops = doc.requested times event := by
  rw [RegistryDoc.newBatches, RegistryDoc.flatMap_batchesOf, RegistryDoc.groups,
    RegistryDoc.flatten_splitOps le_rfl]

theorem Sound.step (sound : record.Sound) (stepped : step times record event = some next) :
    next.Sound := by
  obtain ⟨_, rfl⟩ := step_eq_some_iff.mp stepped
  have prints : record.doc.Prints (record.doc.after times event)
      (record.doc.newBatches times event) := record.doc.prints_after event
  refine ⟨⟨?_, ?_⟩, ?_⟩
  · rw [List.flatMap_append, sound.ops, flatten_groups]
  · rw [List.map_append, List.nodup_append]
    refine ⟨sound.distinct, prints.distinct, ?_⟩
    rintro _ before _ later rfl
    obtain ⟨old, oldMem, rfl⟩ := List.mem_map.mp before
    obtain ⟨new, newMem, same⟩ := List.mem_map.mp later
    exact prints.fresh new newMem (same ▸ sound.issued old oldMem)
  · intro batch listed
    obtain old | new := List.mem_append.mp listed
    · exact prints.issues _ (sound.issued batch old)
    · exact prints.issued batch new

/-- An event keeps the queue moving exactly when its groups fit. -/
theorem taken_step_iff (taken : record.Taken)
    (stepped : QueueRecord.step times record event = some next) :
    next.Taken ↔ record.doc.Fits times event := by
  obtain ⟨valid, rfl⟩ := step_eq_some_iff.mp stepped
  have fits_iff : ∀ batch ∈ record.doc.newBatches times event,
      (RegistryRoom.takes batch = true ↔ FitsFrame batch.batch batch.ops) := by
    intro batch listed
    obtain ⟨named, grouped⟩ := RegistryDoc.batchesOf_spec listed
    obtain ⟨some_op, few⟩ := RegistryDoc.splitOps_group grouped
    refine takes_iff named some_op few fun op mine => valid op ?_
    rw [← flatten_groups record.doc]
    exact List.mem_flatMap.mpr ⟨batch, listed, mine⟩
  calc
    Taken _ ↔ ∀ batch ∈ record.doc.newBatches times event, RegistryRoom.takes batch = true := by
      simp only [Taken, List.forall_mem_append, and_iff_right_iff_imp]
      exact fun _ => taken
    _ ↔ ∀ batch ∈ record.doc.newBatches times event, FitsFrame batch.batch batch.ops :=
      forall₂_congr fits_iff
    _ ↔ record.doc.Fits times event := RegistryDoc.forall_batchesOf_iff _ _ _

/-- In every run whose operations each pass the room's checks, the batches are the
operations asked for, whole and in order, under ids of their own; and the room takes all of
them exactly when each group of operations fits in a frame. -/
theorem batches_are_taken_iff (times : TimeTexts) (deviceId : String)
    {events : List RegistryDoc.Event} {final : QueueRecord}
    (ran : run (step times) (start deviceId) events = some final) :
    EveryState (step times) Whole (start deviceId) events ∧
      (EveryState (step times) Taken (start deviceId) events ↔
        EveryStep (step times) (fun record event => record.doc.Fits times event) (start deviceId)
          events) :=
  ⟨everyState_of_invariant Sound.step Sound.toWhole (sound_start deviceId) events,
    everyState_iff_everyStep Sound.step (fun _ taken stepped => taken_step_iff taken stepped)
      (sound_start deviceId) nofun ran⟩

/-- A space is added and renamed. -/
theorem batches_are_taken_after_rename :
    let times : TimeTexts := ⟨fun _ => none, fun _ => none⟩
    EveryState (step times) Taken (start "a")
      [.mutate (fun _ => 1000) (.upsertSpace (namedSpace "s1" "plan")),
        .mutate (fun _ => 1001) (.renameSpace "s1" (some "draft"))] := by
  intro times
  have ran : (run (step times) (start "a")
      [.mutate (fun _ => 1000) (.upsertSpace (namedSpace "s1" "plan")),
        .mutate (fun _ => 1001) (.renameSpace "s1" (some "draft"))]).isSome = true := by
    decide +kernel
  obtain ⟨final, ran⟩ := Option.isSome_iff_exists.mp ran
  refine (batches_are_taken_iff times "a" ran).2.mpr ?_
  exact everyStep_of_checkSteps (fun record event => decide (record.doc.Fits times event))
    (fun _ _ fits => of_decide_eq_true fits) (by decide +kernel)

/-- A legacy workspace with seventy spaces under long names is migrated: every operation is
valid, and the room does not take their one batch. -/
theorem batch_of_long_names_is_not_taken :
    let times : TimeTexts := ⟨fun _ => none, fun _ => none⟩
    let now : Nat → Nat := fun _ => 1000
    ∃ final, run (step times) (start "a") [.seed now longNames] = some final ∧
      ¬ EveryState (step times) Taken (start "a") [.seed now longNames] := by
  intro times now
  have stepped : step times (start "a") (.seed now longNames) = some _ :=
    step_eq_some_iff.mpr ⟨valid_longNames, rfl⟩
  have nothing : Taken (start "a") := fun batch listed => nomatch listed
  refine ⟨_, run_cons_eq_some_iff.mpr ⟨_, stepped, rfl⟩, fun always => ?_⟩
  exact not_fits_longNames times _ now ((taken_step_iff nothing stepped).mp (always.2 _ stepped))

end QueueRecord

end Zeron.Registry
