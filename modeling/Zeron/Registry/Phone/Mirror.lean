import Zeron.Registry.BatchLimits
import Zeron.Registry.Phone.Agreement
import Zeron.Registry.Phone.Doc

/-!
# A replica and its mirror

The phone's replica mirrors the engine's when both hold the same rows, marks and clock,
and the same batches; the seeds of one batch may come in another order, since each row has
one seed and both sides walk an unordered map for them.  Each operation keeps the mirror,
as long as names and clocks are ASCII and no more rows are deleted at once than a batch
holds.
-/

namespace Zeron.Registry

open Zeron.Data
open Zeron.Wire

namespace RegistryDoc

/-! ## The order in which a map is walked -/

/-- The rows that a state frame leaves for a seed, where the rows held are walked in this
order. -/
def reseeded (doc : RegistryDoc) (walk : List RegistryRow) (frame : StateFrame) :
    List RegistryRow :=
  if !frame.full then []
  else if frame.seq < doc.serverSeq then walk
  else walk.filter fun row => !(insertAll RegistryRow.key (∅ : Table) frame.rows).contains row.key

/-- `apply_state`, where the hash map is walked in this order. -/
def applyStateAlong (doc : RegistryDoc) (now : Nat → Nat) (walk : List RegistryRow)
    (frame : StateFrame) : RegistryDoc :=
  (doc.seen frame (insertAll RegistryRow.key (doc.kept frame) frame.rows)).enqueueOps now
    ((doc.reseeded walk frame).map rowToSeedOp)

theorem reseeded_sublist (doc : RegistryDoc) (walk : List RegistryRow) (frame : StateFrame) :
    (doc.reseeded walk frame).Sublist walk := by
  unfold reseeded
  split
  · exact List.nil_sublist walk
  · split
    · exact List.Sublist.refl walk
    · exact List.filter_sublist

end RegistryDoc

namespace Phone

/-! ## Batches -/

/-- The same operations in the same order; or one operation for each row, in any order. -/
def SameOps (mine theirs : List RowOp) : Prop :=
  mine = theirs ∨ (mine.Perm theirs ∧ (theirs.map RowOp.key).Nodup)

theorem SameOps.perm {mine theirs : List RowOp} (same : SameOps mine theirs) :
    mine.Perm theirs := by
  rcases same with rfl | ⟨perm, -⟩
  · exact .refl _
  · exact perm

/-- On one row the operations are the same, in the same order. -/
theorem SameOps.filter_eq {mine theirs : List RowOp} (same : SameOps mine theirs)
    (key : RowKey) :
    mine.filter (fun op => op.key = key) = theirs.filter (fun op => op.key = key) := by
  rcases same with rfl | ⟨perm, distinct⟩
  · rfl
  · have filtered := perm.filter fun op => decide (op.key = key)
    have nodup : ((theirs.filter fun op => op.key = key).map RowOp.key).Nodup :=
      (List.filter_sublist.map RowOp.key).nodup distinct
    have on_key : ∀ op ∈ theirs.filter (fun op => op.key = key), op.key = key :=
      fun op member => of_decide_eq_true (List.mem_filter.mp member).2
    cases found : theirs.filter fun op => op.key = key with
    | nil =>
        rw [found] at filtered
        exact filtered.eq_nil
    | cons op rest =>
        rw [found] at filtered nodup on_key
        cases rest with
        | nil => exact List.perm_singleton.mp filtered
        | cons other rest =>
            have clash : op.key = other.key :=
              (on_key op List.mem_cons_self).trans
                (on_key other (List.mem_cons_of_mem _ List.mem_cons_self)).symm
            simp [clash] at nodup

structure SameBatch (mine theirs : PendingBatch) : Prop where
  batch : mine.batch = theirs.batch
  inFlight : mine.inFlight = theirs.inFlight
  ops : SameOps mine.ops theirs.ops

variable {mine theirs : List PendingBatch}

/-- The batches queued on one row hold the same operations. -/
theorem filter_flatMap_eq (same : List.Forall₂ SameBatch mine theirs) (key : RowKey) :
    (mine.flatMap PendingBatch.ops).filter (fun op => op.key = key) =
      (theirs.flatMap PendingBatch.ops).filter (fun op => op.key = key) := by
  induction same with
  | nil => rfl
  | cons head _ ih =>
      rw [List.flatMap_cons, List.flatMap_cons, List.filter_append, List.filter_append, ih,
        head.ops.filter_eq]

theorem perm_flatMap (same : List.Forall₂ SameBatch mine theirs) :
    (mine.flatMap PendingBatch.ops).Perm (theirs.flatMap PendingBatch.ops) := by
  induction same with
  | nil => exact .refl _
  | cons head _ ih =>
      exact head.ops.perm.append ih

theorem exists_sameBatch (same : List.Forall₂ SameBatch mine theirs) {batch : PendingBatch}
    (listed : batch ∈ mine) :
    ∃ other ∈ theirs, SameBatch batch other := by
  induction same with
  | nil => cases listed
  | cons head _ ih =>
      rcases List.mem_cons.mp listed with rfl | later
      · exact ⟨_, List.mem_cons_self, head⟩
      · rcases ih later with ⟨other, member, matched⟩
        exact ⟨other, List.mem_cons_of_mem _ member, matched⟩

/-! ## The mirror -/

/-- The phone's replica shows what the engine's shows. -/
structure Mirrors (phone : RegistryDoc) (doc : Registry.RegistryDoc) : Prop where
  deviceId : phone.deviceId = doc.deviceId
  authoritative : phone.authoritative = doc.authoritative
  serverSeq : phone.serverSeq = doc.serverSeq
  gcFloor : phone.gcFloor = doc.gcFloor
  clock : phone.clock = doc.clock
  pending : List.Forall₂ SameBatch phone.pending doc.pending

/-- Rows stand under their own keys, names and clocks are ASCII, and batches are small. -/
structure Regular (doc : Registry.RegistryDoc) : Prop where
  deviceId : IsAscii doc.deviceId
  rows : ∀ (key : RowKey) (row : RegistryRow), doc.authoritative[key]? = some row →
    row.key = key ∧ RowAscii row
  batches : ∀ batch ∈ doc.pending, IsAscii batch.batch ∧ (∀ op ∈ batch.ops, OpAscii op) ∧
    batch.ops.length ≤ Registry.RegistryDoc.maxOpsPerBatch

/-- The two replicas in step with each other. -/
structure Joined (phone : RegistryDoc) (doc : Registry.RegistryDoc) : Prop where
  mirrors : Mirrors phone doc
  regular : Regular doc

section Queue

variable {phone : RegistryDoc} {doc : Registry.RegistryDoc}

/-- The counts of changes are not compared. -/
theorem Joined.counted (joined : Joined phone doc) (mine theirs : Nat) :
    Joined { phone with generation := mine } { doc with generation := theirs } :=
  ⟨⟨joined.mirrors.deviceId, joined.mirrors.authoritative, joined.mirrors.serverSeq,
      joined.mirrors.gcFloor, joined.mirrors.clock, joined.mirrors.pending⟩,
    ⟨joined.regular.deviceId, joined.regular.rows, joined.regular.batches⟩⟩

theorem Joined.nextHlc (joined : Joined phone doc) (now : Nat) :
    Joined (phone.nextHlc now).1 (doc.nextHlc now).1 ∧
      (phone.nextHlc now).2 = (doc.nextHlc now).2 := by
  have ticked : next phone.clock now phone.deviceId = doc.clock.next now doc.deviceId := by
    rw [next_eq, joined.mirrors.clock, joined.mirrors.deviceId]
  exact ⟨⟨⟨joined.mirrors.deviceId, joined.mirrors.authoritative, joined.mirrors.serverSeq,
      joined.mirrors.gcFloor, congrArg Prod.fst ticked, joined.mirrors.pending⟩,
    ⟨joined.regular.deviceId, joined.regular.rows, joined.regular.batches⟩⟩,
    congrArg Prod.snd ticked⟩

theorem isAscii_append {first second : String} (left : IsAscii first) (right : IsAscii second) :
    IsAscii (first ++ second) := by
  intro char member
  rw [String.toList_append, List.mem_append] at member
  rcases member with member | member
  · exact left char member
  · exact right char member

/-- The clocks of a device with an ASCII name are ASCII. -/
theorem print_ascii (clock : HlcClock) {device : String} (ascii : IsAscii device) :
    IsAscii (clock.print device) := by
  have digits : ∀ n width, ∀ char ∈ padded width n, char.toNat < 128 := by
    intro n width char member
    rcases List.mem_append.mp member with zero | digit
    · rw [List.eq_of_mem_replicate zero]
      decide
    · have isDigit := Nat.isDigit_of_mem_toDigits (by decide) (by decide) digit
      simp only [Char.isDigit, Bool.and_eq_true, decide_eq_true_eq] at isDigit
      exact lt_of_le_of_lt (UInt32.le_iff_toNat_le.mp isDigit.2) (by decide)
  intro char member
  simp only [HlcClock.print, Registry.encodeHlc, String.toList_ofList, List.mem_append,
    List.mem_singleton] at member
  rcases member with (((ms | rfl) | counter) | rfl) | device
  · exact digits _ _ char ms
  · decide
  · exact digits _ _ char counter
  · decide
  · exact ascii char device

variable {mine theirs : List RowOp}

/-- One batch is queued on both sides. -/
theorem Joined.enqueue (joined : Joined phone doc) (now : Nat → Nat) (same : SameOps mine theirs)
    (some_op : theirs ≠ []) (ascii : ∀ op ∈ theirs, OpAscii op)
    (few : theirs.length ≤ Registry.RegistryDoc.maxOpsPerBatch) :
    Joined (phone.enqueue now mine) (doc.enqueueBatch (now 0) theirs) := by
  have some_mine : mine.isEmpty = false := by
    rw [List.isEmpty_eq_false_iff]
    rintro rfl
    exact some_op same.perm.symm.eq_nil
  rcases (joined.counted (phone.generation + 1) doc.generation).nextHlc (now 0) with
    ⟨ticked, hlc_eq⟩
  have hlc_ascii : IsAscii ("b-" ++ (doc.nextHlc (now 0)).2) :=
    isAscii_append (by decide) (print_ascii _ joined.regular.deviceId)
  rw [RegistryDoc.enqueue, some_mine]
  refine ⟨⟨ticked.mirrors.deviceId, ticked.mirrors.authoritative, ticked.mirrors.serverSeq,
    ticked.mirrors.gcFloor, ticked.mirrors.clock, ?_⟩,
    ⟨ticked.regular.deviceId, ticked.regular.rows, ?_⟩⟩
  · exact List.rel_append ticked.mirrors.pending
      (.cons ⟨congrArg ("b-" ++ ·) hlc_eq, rfl, same⟩ .nil)
  · intro batch member
    rcases List.mem_append.mp member with before | here
    · exact joined.regular.batches batch before
    · obtain rfl := List.mem_singleton.mp here
      exact ⟨hlc_ascii, ascii, few⟩

/-- Chunks are queued batch by batch. -/
theorem Joined.enqueueChunks {mine theirs : List (List RowOp)}
    (same : List.Forall₂ SameOps mine theirs)
    (groups : ∀ group ∈ theirs, group ≠ [] ∧ (∀ op ∈ group, OpAscii op) ∧
      group.length ≤ Registry.RegistryDoc.maxOpsPerBatch) :
    ∀ {phone : RegistryDoc} {doc : Registry.RegistryDoc} (now : Nat → Nat), Joined phone doc →
      Joined (phone.enqueueChunks now mine) (Registry.RegistryDoc.enqueueBatches now doc theirs) := by
  induction same with
  | nil => exact fun _ joined => joined
  | cons head _ ih =>
      rcases List.forall_mem_cons.mp groups with ⟨⟨some_op, ascii, few⟩, rest⟩
      intro phone doc now joined
      exact ih rest _ (joined.enqueue now head some_op ascii few)

/-- The phone cuts as the engine does. -/
theorem seedChunks_eq (ops : List RowOp) (fuel start : Nat) :
    RegistryDoc.seedChunks ops fuel start =
      Registry.RegistryDoc.splitOps fuel (ops.drop start) := by
  induction fuel generalizing start with
  | zero => rfl
  | succ fuel ih =>
      rw [RegistryDoc.seedChunks, Registry.RegistryDoc.splitOps]
      by_cases inside : start < ops.length
      · have some_op : (ops.drop start).isEmpty = false := by
          rw [List.isEmpty_eq_false_iff, ne_eq, List.drop_eq_nil_iff]
          omega
        rw [if_pos inside, some_op, ih, List.drop_drop]
        congr 1
        rw [List.drop_take, RegistryDoc.seedChunkOps, Registry.RegistryDoc.maxOpsPerBatch]
        rcases Nat.le_total (start + 400) ops.length with many | few
        · rw [Nat.min_eq_left many, Nat.add_sub_cancel_left]
        · rw [Nat.min_eq_right few, List.take_of_length_le (by simp),
            List.take_of_length_le (by rw [List.length_drop]; omega)]
      · have none_left : (ops.drop start).isEmpty = true := by
          rw [List.isEmpty_iff, List.drop_eq_nil_iff]
          omega
        rw [if_neg inside, none_left, if_pos rfl]

/-- Cut into batches, both lists have the same operations in each. -/
def SameCuts (mine theirs : List RowOp) : Prop :=
  List.Forall₂ List.Perm (Registry.RegistryDoc.splitOps mine.length mine)
    (Registry.RegistryDoc.splitOps theirs.length theirs)

/-- What fits into one batch is cut the same in any order. -/
theorem sameCuts_of_perm (perm : mine.Perm theirs)
    (few : theirs.length ≤ Registry.RegistryDoc.maxOpsPerBatch) : SameCuts mine theirs := by
  by_cases some_op : theirs = []
  · subst some_op
    rw [perm.eq_nil]
    exact .nil
  · have some_mine : mine ≠ [] := by
      rintro rfl
      exact some_op perm.symm.eq_nil
    rw [SameCuts, Registry.RegistryDoc.splitOps_of_group some_op few,
      Registry.RegistryDoc.splitOps_of_group some_mine (perm.length_eq.le.trans few)]
    exact .cons perm .nil

theorem forall₂_sameOps {mine theirs : List (List RowOp)} (cuts : List.Forall₂ List.Perm mine theirs)
    (distinct : ∀ group ∈ theirs, (group.map RowOp.key).Nodup) :
    List.Forall₂ SameOps mine theirs := by
  induction cuts with
  | nil => exact .nil
  | cons perm _ ih =>
      rcases List.forall_mem_cons.mp distinct with ⟨head, rest⟩
      exact .cons (.inr ⟨perm, head⟩) (ih rest)

theorem sublist_of_mem_splitOps {fuel : Nat} {ops group : List RowOp}
    (listed : group ∈ Registry.RegistryDoc.splitOps fuel ops) : group.Sublist ops := by
  induction fuel generalizing ops with
  | zero => cases listed
  | succ fuel ih =>
      unfold Registry.RegistryDoc.splitOps at listed
      split at listed
      · cases listed
      · rcases List.mem_cons.mp listed with rfl | later
        · exact List.take_sublist _ _
        · exact (ih later).trans (List.drop_sublist _ _)

/-- Seeds are queued on both sides, if both sides cut them into the same batches. -/
theorem Joined.enqueueSeed (joined : Joined phone doc) (now : Nat → Nat)
    (cuts : SameCuts mine theirs) (empty : mine.isEmpty = theirs.isEmpty)
    (distinct : (theirs.map RowOp.key).Nodup) (ascii : ∀ op ∈ theirs, OpAscii op) :
    Joined (phone.enqueueSeed now mine) (doc.enqueueOps now theirs) := by
  rw [RegistryDoc.enqueueSeed, Registry.RegistryDoc.enqueueOps, empty]
  split
  · exact joined
  · have groups : ∀ group ∈ Registry.RegistryDoc.splitOps theirs.length theirs,
        group ≠ [] ∧ (∀ op ∈ group, OpAscii op) ∧
          group.length ≤ Registry.RegistryDoc.maxOpsPerBatch := by
      intro group listed
      rcases Registry.RegistryDoc.splitOps_group listed with ⟨some_op, few⟩
      exact ⟨some_op, fun op member => ascii op ((sublist_of_mem_splitOps listed).subset member),
        few⟩
    have same : List.Forall₂ SameOps (Registry.RegistryDoc.splitOps mine.length mine)
        (Registry.RegistryDoc.splitOps theirs.length theirs) :=
      forall₂_sameOps cuts fun group listed =>
        ((sublist_of_mem_splitOps listed).map RowOp.key).nodup distinct
    rw [seedChunks_eq]
    exact Joined.enqueueChunks same groups now (joined.counted phone.generation (doc.generation + 1))

end Queue

/-! ## Frames -/

section Frames

variable (unicode : Unicode) {phone : RegistryDoc} {doc : Registry.RegistryDoc}

variable {rows : List RegistryRow}

theorem putRows_of_ascii (ascii : ∀ row ∈ rows, RowAscii row) (table : Table) :
    RegistryDoc.putRows unicode (rows.map unicode.decodeRow) table =
      insertAll RegistryRow.key table rows := by
  have decoded : rows.map unicode.decodeRow = rows := by
    rw [List.map_congr_left fun row member => decodeRow_of_ascii unicode (ascii row member)]
    exact List.map_id' rows
  rw [decoded]
  apply List.foldl_ext
  intro written row member
  rcases rowAscii_iff.mp (ascii row member) with ⟨kind, id, -⟩
  rw [RegistryDoc.rowKey, key_of_ascii unicode kind id]
  rfl

/-- Rows of a frame leave a regular table. -/
theorem regular_insertAll {table : Table}
    (regular : ∀ (key : RowKey) (row : RegistryRow), table[key]? = some row →
      row.key = key ∧ RowAscii row)
    (ascii : ∀ row ∈ rows, RowAscii row) (key : RowKey) (row : RegistryRow)
    (found : (insertAll RegistryRow.key table rows)[key]? = some row) :
    row.key = key ∧ RowAscii row := by
  rcases getElem?_insertAll_eq_some found with ⟨listed, same⟩ | ⟨before, -⟩
  · exact ⟨same, ascii row listed⟩
  · exact regular key row before

theorem Joined.applyRows (joined : Joined phone doc) (seq : Nat)
    (ascii : ∀ row ∈ rows, RowAscii row) :
    Joined (phone.applyRows unicode seq rows).1 (doc.applyRows seq rows).1 := by
  rcases joined with ⟨⟨deviceId, authoritative, serverSeq, gcFloor, clock, pending⟩,
    ⟨device_ascii, regular, batches⟩⟩
  have put := regular_insertAll regular ascii
  have same : RegistryDoc.putRows unicode (rows.map unicode.decodeRow) phone.authoritative =
      insertAll RegistryRow.key doc.authoritative rows := by
    rw [putRows_of_ascii unicode ascii, authoritative]
  rw [RegistryDoc.applyRows, Registry.RegistryDoc.applyRows, same, serverSeq]
  split
  · exact ⟨⟨deviceId, rfl, rfl, gcFloor, clock, pending⟩, ⟨device_ascii, put, batches⟩⟩
  · by_cases ahead : doc.serverSeq < seq
    · rw [if_pos ahead, if_pos ahead]
      exact ⟨⟨deviceId, rfl, rfl, gcFloor, clock, pending⟩, ⟨device_ascii, put, batches⟩⟩
    · rw [if_neg ahead, if_neg ahead]
      exact ⟨⟨deviceId, rfl, rfl, gcFloor, clock, pending⟩, ⟨device_ascii, put, batches⟩⟩

/-- The seeds of the phone, `applyState`'s answer to a frame. -/
def RegistryDoc.seeds (phone : RegistryDoc) (walk : List RegistryRow) (frame : StateFrame) :
    List RowOp :=
  if !frame.full then [] else (phone.reseeded unicode walk frame).map (rowToSeedOp unicode)

/-- A state frame is written over the rows kept, and the seeds are queued. -/
theorem applyState_eq (phone : RegistryDoc) (now : Nat → Nat) (walk : List RegistryRow)
    (frame : StateFrame) :
    (phone.applyState unicode now walk frame).1 =
      { phone with
        authoritative := RegistryDoc.putRows unicode (frame.rows.map unicode.decodeRow)
          (if frame.full = true ∧ phone.serverSeq ≤ frame.seq then ∅ else phone.authoritative)
        serverSeq := frame.seq
        gcFloor := frame.gcFloor
        generation := phone.generation + 1 : RegistryDoc }.enqueueSeed now
          (phone.seeds unicode walk frame) := by
  unfold RegistryDoc.applyState RegistryDoc.seeds
  cases frame.full with
  | false => simp [RegistryDoc.enqueueSeed]
  | true =>
      by_cases behind : frame.seq < phone.serverSeq
      · simp [behind, Nat.not_le_of_lt behind]
      · simp only [Bool.not_true, Bool.false_eq_true, if_false, behind,
          Nat.le_of_not_lt behind, and_self, if_true]
        split
        · rename_i nothing
          rw [RegistryDoc.enqueueSeed, if_pos nothing]
        · rfl

/-- Both sides seed the same rows. -/
theorem Joined.perm_seeds (joined : Joined phone doc) {phoneWalk walk : List RegistryRow}
    {frame : StateFrame} (ascii : ∀ row ∈ frame.rows, RowAscii row)
    (phone_walks : phoneWalk.Perm (values phone.authoritative))
    (walks : walk.Perm (values doc.authoritative)) :
    (phone.seeds unicode phoneWalk frame).Perm
      ((doc.reseeded walk frame).map Registry.rowToSeedOp) := by
  have walk_ascii : ∀ row ∈ phoneWalk, RowAscii row := by
    intro row member
    rcases mem_values_iff.mp (phone_walks.subset member) with ⟨key, found⟩
    rw [joined.mirrors.authoritative] at found
    exact (joined.regular.rows key row found).2
  have same_walk : phoneWalk.Perm walk := by
    rw [joined.mirrors.authoritative] at phone_walks
    exact phone_walks.trans walks.symm
  rw [RegistryDoc.seeds, Registry.RegistryDoc.reseeded]
  cases frame.full with
  | false => exact .refl _
  | true =>
      simp only [Bool.not_true, Bool.false_eq_true, if_false]
      have seeded : ∀ rows : List RegistryRow, (∀ row ∈ rows, RowAscii row) →
          rows.map (rowToSeedOp unicode) = rows.map Registry.rowToSeedOp := fun rows listed =>
        List.map_congr_left fun row member => rowToSeedOp_eq unicode (listed row member)
      rw [RegistryDoc.reseeded, joined.mirrors.serverSeq]
      split
      · rw [seeded phoneWalk walk_ascii]
        exact same_walk.map _
      · rw [putRows_of_ascii unicode ascii,
          List.filter_congr (q := fun row =>
            !(insertAll RegistryRow.key (∅ : Table) frame.rows).contains row.key)
            fun row member => ?_, seeded _ fun row member => walk_ascii row (List.mem_of_mem_filter member)]
        · exact (same_walk.filter _).map _
        · rcases rowAscii_iff.mp (walk_ascii row member) with ⟨kind, id, -⟩
          rw [RegistryDoc.rowKey, key_of_ascii unicode kind id]
          rfl

/-- No row is seeded twice. -/
theorem nodup_seeds (regular : Regular doc) {walk : List RegistryRow}
    (walks : walk.Perm (values doc.authoritative)) (frame : StateFrame) :
    (((doc.reseeded walk frame).map Registry.rowToSeedOp).map RowOp.key).Nodup := by
  have keys : ((values doc.authoritative).map RegistryRow.key).Nodup := by
    rw [List.Nodup, List.pairwise_map]
    exact values_pairwise_ne fun key row found => (regular.rows key row found).1
  have walked : (walk.map RegistryRow.key).Nodup := (walks.map RegistryRow.key).nodup_iff.mpr keys
  have seed_key : RowOp.key ∘ Registry.rowToSeedOp = RegistryRow.key :=
    funext rowToSeedOp_key
  rw [List.map_map, seed_key]
  exact ((doc.reseeded_sublist walk frame).map RegistryRow.key).nodup walked

theorem Joined.applyState (joined : Joined phone doc) (now : Nat → Nat)
    {phoneWalk walk : List RegistryRow} {frame : StateFrame}
    (ascii : ∀ row ∈ frame.rows, RowAscii row)
    (phone_walks : phoneWalk.Perm (values phone.authoritative))
    (walks : walk.Perm (values doc.authoritative))
    (cuts : (doc.reseeded walk frame).length ≤ Registry.RegistryDoc.maxOpsPerBatch ∨
      SameCuts (phone.seeds unicode phoneWalk frame)
        ((doc.reseeded walk frame).map Registry.rowToSeedOp)) :
    Joined (phone.applyState unicode now phoneWalk frame).1
      (doc.applyStateAlong now walk frame) := by
  have perm := joined.perm_seeds unicode ascii phone_walks walks
  have distinct := nodup_seeds joined.regular walks frame
  have seeds_ascii : ∀ op ∈ (doc.reseeded walk frame).map Registry.rowToSeedOp, OpAscii op := by
    intro op member
    rcases List.mem_map.mp member with ⟨row, seeded, rfl⟩
    have held := walks.subset ((doc.reseeded_sublist walk frame).subset seeded)
    rcases mem_values_iff.mp held with ⟨key, found⟩
    exact rowToSeedOp_ascii (joined.regular.rows key row found).2
  have same_cuts : SameCuts (phone.seeds unicode phoneWalk frame)
      ((doc.reseeded walk frame).map Registry.rowToSeedOp) := by
    rcases cuts with few | same
    · exact sameCuts_of_perm perm (by rwa [List.length_map])
    · exact same
  rcases joined with ⟨⟨deviceId, authoritative, serverSeq, gcFloor, clock, pending⟩,
    ⟨device_ascii, regular, batches⟩⟩
  have kept_regular : ∀ (key : RowKey) (row : RegistryRow), (doc.kept frame)[key]? = some row →
      row.key = key ∧ RowAscii row := by
    intro key row found
    unfold Registry.RegistryDoc.kept at found
    split at found
    · simp at found
    · exact regular key row found
  have kept_eq : (if frame.full = true ∧ phone.serverSeq ≤ frame.seq then ∅
      else phone.authoritative) = doc.kept frame := by
    rw [Registry.RegistryDoc.kept, serverSeq, authoritative]
  have written : Joined
      { phone with
        authoritative := insertAll RegistryRow.key (doc.kept frame) frame.rows
        serverSeq := frame.seq
        gcFloor := frame.gcFloor
        generation := phone.generation + 1 }
      (doc.seen frame (insertAll RegistryRow.key (doc.kept frame) frame.rows)) :=
    ⟨⟨deviceId, rfl, rfl, rfl, clock, pending⟩,
      ⟨device_ascii, regular_insertAll kept_regular ascii, batches⟩⟩
  rw [applyState_eq, putRows_of_ascii unicode ascii, kept_eq]
  refine written.enqueueSeed now same_cuts ?_ distinct seeds_ascii
  rw [Bool.eq_iff_iff, List.isEmpty_iff, List.isEmpty_iff]
  exact ⟨fun none => (none ▸ perm).symm.eq_nil, fun none => (none ▸ perm).eq_nil⟩

theorem Joined.ackBatch (joined : Joined phone doc) {batch : String} (ascii : IsAscii batch) :
    Joined (phone.ackBatch unicode batch) (doc.ackBatch batch) := by
  have kept : List.Forall₂ SameBatch
      (phone.pending.filter fun pending => !unicode.same pending.batch batch)
      (doc.pending.filter fun pending => pending.batch != batch) := by
    have ids := fun pending member => (joined.regular.batches pending member).1
    have both := joined.mirrors.pending
    generalize phone.pending = mine, doc.pending = theirs at both ids
    induction both with
    | nil => exact .nil
    | @cons mine theirs _ _ head _ ih =>
        rcases List.forall_mem_cons.mp ids with ⟨id, rest⟩
        rw [List.filter_cons, List.filter_cons, head.batch, same_of_ascii unicode id ascii, bne]
        cases theirs.batch == batch with
        | true => exact ih rest
        | false => exact .cons head (ih rest)
  have small : ∀ pending ∈ doc.pending.filter (fun pending => pending.batch != batch),
      IsAscii pending.batch ∧ (∀ op ∈ pending.ops, OpAscii op) ∧
        pending.ops.length ≤ Registry.RegistryDoc.maxOpsPerBatch :=
    fun pending member => joined.regular.batches pending (List.mem_of_mem_filter member)
  have both : Joined
      { phone with pending := phone.pending.filter fun pending => !unicode.same pending.batch batch }
      { doc with pending := doc.pending.filter fun pending => pending.batch != batch } :=
    ⟨⟨joined.mirrors.deviceId, joined.mirrors.authoritative, joined.mirrors.serverSeq,
      joined.mirrors.gcFloor, joined.mirrors.clock, kept⟩,
      ⟨joined.regular.deviceId, joined.regular.rows, small⟩⟩
  have lengths := joined.mirrors.pending.length_eq
  have unchanged : (doc.pending.filter fun pending => pending.batch != batch).length =
      doc.pending.length → { doc with
        pending := doc.pending.filter fun pending => pending.batch != batch } = doc := by
    intro same
    rw [List.filter_sublist.eq_of_length same]
  rw [RegistryDoc.ackBatch, Registry.RegistryDoc.ackBatch]
  rw [kept.length_eq, lengths]
  by_cases some_gone : ((doc.pending.filter fun pending => pending.batch != batch).length !=
      doc.pending.length) = true
  · rw [if_pos some_gone, if_pos some_gone]
    exact both.counted _ _
  · rw [if_neg some_gone, if_neg some_gone]
    have same := unchanged (by simpa using some_gone)
    rw [same] at both
    exact both

/-- The flags of all batches are set alike. -/
theorem Joined.flagged (joined : Joined phone doc) (flag : Bool) :
    Joined { phone with pending := phone.pending.map fun batch => { batch with inFlight := flag } }
      { doc with pending := doc.pending.map fun batch => { batch with inFlight := flag } } := by
  refine ⟨⟨joined.mirrors.deviceId, joined.mirrors.authoritative, joined.mirrors.serverSeq,
    joined.mirrors.gcFloor, joined.mirrors.clock, ?_⟩,
    ⟨joined.regular.deviceId, joined.regular.rows, ?_⟩⟩
  · rw [List.forall₂_map_left_iff, List.forall₂_map_right_iff]
    exact joined.mirrors.pending.imp fun mine theirs same => ⟨same.batch, rfl, same.ops⟩
  · intro batch member
    rcases List.mem_map.mp member with ⟨flagless, listed, rfl⟩
    exact joined.regular.batches flagless listed

/-- A table is made of its own rows. -/
theorem insertAll_values {table : Table}
    (keyed : ∀ (key : RowKey) (row : RegistryRow), table[key]? = some row → row.key = key) :
    insertAll RegistryRow.key ∅ (values table) = table := by
  apply Std.ExtTreeMap.ext_getElem?
  intro key
  cases found : table[key]? with
  | some row =>
      have same := keyed key row found
      subst same
      exact getElem?_insertAll_of_mem (values_pairwise_ne keyed) (mem_values_iff.mpr ⟨_, found⟩) ∅
  | none =>
      rw [getElem?_insertAll_of_forall_ne, Std.ExtTreeMap.getElem?_empty]
      rintro row member rfl
      rcases mem_values_iff.mp member with ⟨other, stored⟩
      rw [keyed other row stored, stored] at found
      cases found

/-- Saved and loaded, both replicas hold what they held, with nothing in flight. -/
theorem Joined.reload (joined : Joined phone doc) (outdated : Bool) :
    ∃ loaded, RegistryDoc.ofData unicode
        { phone.toData with resyncEpoch := if outdated then none else phone.toData.resyncEpoch }
        phone.deviceId = .ok loaded ∧ Joined loaded (doc.reload outdated) := by
  refine ⟨_, rfl, ?_⟩
  have rows : RegistryDoc.putRows unicode (values phone.authoritative) ∅ = doc.authoritative := by
    have ascii : ∀ row ∈ values doc.authoritative, RowAscii row := by
      intro row member
      rcases mem_values_iff.mp member with ⟨key, found⟩
      exact (joined.regular.rows key row found).2
    have decoded : (values doc.authoritative).map unicode.decodeRow = values doc.authoritative := by
      rw [List.map_congr_left fun row member => decodeRow_of_ascii unicode (ascii row member)]
      exact List.map_id' _
    rw [joined.mirrors.authoritative, ← decoded, putRows_of_ascii unicode ascii]
    exact insertAll_values fun key row found => (joined.regular.rows key row found).1
  have flags := (joined.flagged false).mirrors.pending
  refine ⟨⟨joined.mirrors.deviceId, rows, ?_, joined.mirrors.gcFloor, joined.mirrors.clock, ?_⟩,
    ⟨joined.regular.deviceId, joined.regular.rows, (joined.flagged false).regular.batches⟩⟩
  · rw [Registry.RegistryDoc.reload, ← joined.mirrors.serverSeq]
    cases outdated <;> rfl
  · rw [RegistryDoc.toData, List.map_map]
    exact flags

end Frames

/-! ## Local writes -/

section Writes

variable {phone : RegistryDoc} {doc : Registry.RegistryDoc}

/-- A list of operations that one batch holds is queued as one batch. -/
theorem Joined.enqueueOps (joined : Joined phone doc) (now : Nat → Nat) {ops : List RowOp}
    (ascii : ∀ op ∈ ops, OpAscii op) (few : ops.length ≤ Registry.RegistryDoc.maxOpsPerBatch) :
    Joined (phone.enqueue now ops) (doc.enqueueOps now ops) := by
  by_cases some_op : ops = []
  · subst some_op
    exact joined
  · have not_empty : ops.isEmpty = false := List.isEmpty_eq_false_iff.mpr some_op
    rw [Registry.RegistryDoc.enqueueOps, not_empty, Registry.RegistryDoc.splitOps_of_group some_op few]
    exact (joined.counted phone.generation (doc.generation + 1)).enqueue now (.inl rfl) some_op
      ascii few

theorem Joined.write (joined : Joined phone doc) (now : Nat → Nat) {kind id : String}
    (op : OpKind) {set : FieldMap Json} (kind_ascii : IsAscii kind) (id_ascii : IsAscii id)
    (names : NamesAscii set) :
    Joined (phone.write now kind id op set) (doc.write now kind id op set) := by
  rcases joined.nextHlc (now 0) with ⟨ticked, hlc_eq⟩
  have hlc_ascii : IsAscii (doc.nextHlc (now 0)).2 := print_ascii _ joined.regular.deviceId
  rw [RegistryDoc.write]
  dsimp only
  rw [hlc_eq]
  refine ticked.enqueueOps _ ?_ (by rw [List.length_singleton]; decide)
  intro write member
  obtain rfl := List.mem_singleton.mp member
  exact opAscii_iff.mpr
    ⟨kind_ascii, id_ascii, hlc_ascii, names, namesAscii_empty, clocksAscii_empty⟩

theorem Joined.deleteRows (joined : Joined phone doc) (now : Nat → Nat) {keys : List RowKey}
    (ascii : ∀ key ∈ keys, IsAscii key.kind ∧ IsAscii key.id)
    (few : keys.length ≤ Registry.RegistryDoc.maxOpsPerBatch) :
    Joined (phone.deleteRows now keys) (doc.deleteRowOps now keys) := by
  rcases joined.nextHlc (now 0) with ⟨ticked, hlc_eq⟩
  have hlc_ascii : IsAscii (doc.nextHlc (now 0)).2 := print_ascii _ joined.regular.deviceId
  rw [RegistryDoc.deleteRows]
  dsimp only
  rw [hlc_eq]
  refine ticked.enqueueOps _ ?_ (by rwa [List.length_map])
  intro delete member
  rcases List.mem_map.mp member with ⟨key, listed, rfl⟩
  rcases ascii key listed with ⟨kind, id⟩
  exact opAscii_iff.mpr ⟨kind, id, hlc_ascii, namesAscii_empty, namesAscii_empty, clocksAscii_empty⟩

end Writes

/-! ## Reads -/

section Reads

variable (unicode : Unicode) {phone : RegistryDoc} {doc : Registry.RegistryDoc}

theorem overlayOp_eq {row : Option RegistryRow} {op : RowOp}
    (row_ascii : ∀ held ∈ row, RowAscii held) (op_ascii : OpAscii op) :
    RegistryDoc.overlayOp unicode row op = Registry.RegistryDoc.overlayOp row op ∧
      ∀ held ∈ Registry.RegistryDoc.overlayOp row op, RowAscii held := by
  rcases applyOp_eq unicode row_ascii op_ascii with ⟨same, next_ascii⟩
  rw [RegistryDoc.overlayOp, Registry.RegistryDoc.overlayOp, same]
  cases applied : (Registry.applyOp row op).1 with
  | none => exact ⟨rfl, row_ascii⟩
  | some next =>
      rw [applied] at next_ascii
      exact ⟨rfl, next_ascii⟩

variable {ops : List RowOp}

theorem foldl_overlayOp_eq (ops_ascii : ∀ op ∈ ops, OpAscii op) {row : Option RegistryRow}
    (row_ascii : ∀ held ∈ row, RowAscii held) :
    ops.foldl (RegistryDoc.overlayOp unicode) row =
      ops.foldl Registry.RegistryDoc.overlayOp row := by
  induction ops generalizing row with
  | nil => rw [List.foldl_nil, List.foldl_nil]
  | cons op rest ih =>
      rcases List.forall_mem_cons.mp ops_ascii with ⟨op_ascii, rest_ascii⟩
      rcases overlayOp_eq unicode row_ascii op_ascii with ⟨same, next_ascii⟩
      rw [List.foldl_cons, same]
      exact ih rest_ascii next_ascii

theorem Joined.op_ascii (joined : Joined phone doc) :
    ∀ op ∈ doc.pending.flatMap PendingBatch.ops, OpAscii op := by
  intro op member
  rcases List.mem_flatMap.mp member with ⟨batch, listed, mine⟩
  exact (joined.regular.batches batch listed).2.1 op mine

theorem Joined.phone_op_ascii (joined : Joined phone doc) :
    ∀ op ∈ phone.pending.flatMap PendingBatch.ops, OpAscii op := fun op member =>
  joined.op_ascii op ((perm_flatMap joined.mirrors.pending).subset member)

/-- Both replicas show the same row. -/
theorem Joined.overlayRow_eq (joined : Joined phone doc) {kind id : String}
    (kind_ascii : IsAscii kind) (id_ascii : IsAscii id) :
    phone.overlayRow unicode kind id = doc.overlayRow ⟨kind, id⟩ := by
  have mine : (phone.pending.flatMap PendingBatch.ops).filter (fun op =>
        unicode.same op.kind kind && unicode.same op.id id) =
      (phone.pending.flatMap PendingBatch.ops).filter fun op => op.key = ⟨kind, id⟩ := by
    apply List.filter_congr
    intro op member
    rcases opAscii_iff.mp (joined.phone_op_ascii op member) with ⟨op_kind, op_id, -⟩
    rw [same_of_ascii unicode op_kind kind_ascii, same_of_ascii unicode op_id id_ascii, RowOp.key,
      Bool.eq_iff_iff, Bool.and_eq_true, beq_iff_eq, beq_iff_eq, decide_eq_true_eq, RowKey.mk.injEq]
  rw [RegistryDoc.overlayRow, mine, filter_flatMap_eq joined.mirrors.pending,
    key_of_ascii unicode kind_ascii id_ascii, joined.mirrors.authoritative,
    foldl_overlayOp_eq unicode
      (fun op member => joined.op_ascii op (List.mem_of_mem_filter member))
      (fun row found => (joined.regular.rows _ row found).2)]
  rfl

/-- One turn of the loop over the pending operations in `overlay_rows`. -/
def collectId (kind : String) (ids : List String) (op : RowOp) : List String :=
  if op.kind = kind ∧ op.id ∉ ids then ids ++ [op.id] else ids

variable {kind : String} {ids : List String}

theorem mem_foldl_collectId {id : String} :
    id ∈ ops.foldl (collectId kind) ids ↔ id ∈ ids ∨ ∃ op ∈ ops, op.kind = kind ∧ op.id = id := by
  induction ops generalizing ids with
  | nil => simp
  | cons op rest ih =>
      rw [List.foldl_cons, ih, List.exists_mem_cons_iff, ← or_assoc]
      apply or_congr_left
      unfold collectId
      split
      · rename_i collected
        rw [List.mem_append, List.mem_singleton]
        exact or_congr_right
          ⟨fun same => ⟨collected.1, same.symm⟩, fun ⟨_, same⟩ => same.symm⟩
      · rename_i known
        refine ⟨.inl, ?_⟩
        rintro (listed | ⟨same_kind, rfl⟩)
        · exact listed
        · by_contra missing
          exact known ⟨same_kind, missing⟩

theorem nodup_foldl_collectId (distinct : ids.Nodup) : (ops.foldl (collectId kind) ids).Nodup := by
  induction ops generalizing ids with
  | nil => exact distinct
  | cons op rest ih =>
      apply ih
      unfold collectId
      split
      · rename_i collected
        rw [← List.concat_eq_append]
        exact distinct.concat collected.2
      · exact distinct

/-- Among ASCII names the phone collects the same ids. -/
theorem foldl_phone_collectId (kind_ascii : IsAscii kind) (ops_ascii : ∀ op ∈ ops, OpAscii op)
    (ids_ascii : ∀ id ∈ ids, IsAscii id) :
    ops.foldl (fun ids op =>
      if unicode.same op.kind kind && !(ids.any fun id => unicode.same id op.id) then ids ++ [op.id]
      else ids) ids = ops.foldl (collectId kind) ids := by
  induction ops generalizing ids with
  | nil => rfl
  | cons op rest ih =>
      rcases List.forall_mem_cons.mp ops_ascii with ⟨op_ascii, rest_ascii⟩
      rcases opAscii_iff.mp op_ascii with ⟨op_kind, op_id, -⟩
      have listed : (ids.any fun id => unicode.same id op.id) = decide (op.id ∈ ids) := by
        rw [Bool.eq_iff_iff, List.any_eq_true, decide_eq_true_eq]
        constructor
        · rintro ⟨id, member, same⟩
          rw [same_of_ascii unicode (ids_ascii id member) op_id, beq_iff_eq] at same
          exact same ▸ member
        · intro member
          exact ⟨op.id, member, by rw [same_of_ascii unicode op_id op_id, beq_self_eq_true]⟩
      have turn : (if unicode.same op.kind kind && !(ids.any fun id => unicode.same id op.id) then
          ids ++ [op.id] else ids) = collectId kind ids op := by
        rw [listed, same_of_ascii unicode op_kind kind_ascii, collectId]
        simp
      rw [List.foldl_cons, turn]
      apply ih rest_ascii
      intro id member
      unfold collectId at member
      split at member
      · rcases List.mem_append.mp member with known | here
        · exact ids_ascii id known
        · rw [List.mem_singleton.mp here]
          exact op_id
      · exact ids_ascii id member

/-- The ids of one kind among the keys of a table. -/
theorem nodup_idsOfKind (table : Table) (kind : String) :
    ((table.keys.filter fun key => key.kind = kind).map RowKey.id).Nodup := by
  have keys : (table.keys.filter fun key => key.kind = kind).Nodup :=
    Std.ExtTreeMap.nodup_keys.filter _
  apply keys.map_on
  intro first first_mem second second_mem same
  have first_kind := of_decide_eq_true (List.mem_filter.mp first_mem).2
  have second_kind := of_decide_eq_true (List.mem_filter.mp second_mem).2
  rcases first with ⟨_, _⟩
  rcases second with ⟨_, _⟩
  exact congrArg₂ RowKey.mk (first_kind.trans second_kind.symm) same

/-- Both replicas show the same rows of a kind. -/
theorem Joined.perm_overlayRows (joined : Joined phone doc) (kind_ascii : IsAscii kind) :
    (phone.overlayRows unicode kind).Perm (doc.overlayRows kind) := by
  let start := (doc.authoritative.keys.filter fun key => key.kind = kind).map RowKey.id
  have start_ascii : ∀ id ∈ start, IsAscii id := by
    intro id member
    rcases List.mem_map.mp member with ⟨key, listed, rfl⟩
    rcases mem_iff_exists.mp (Std.ExtTreeMap.mem_keys.mp (List.mem_of_mem_filter listed)) with
      ⟨row, found⟩
    rcases joined.regular.rows key row found with ⟨rfl, ascii⟩
    exact (rowAscii_iff.mp ascii).2.1
  have mine : phone.overlayIds unicode kind =
      (phone.pending.flatMap PendingBatch.ops).foldl (collectId kind) start := by
    rw [RegistryDoc.overlayIds, joined.mirrors.authoritative, unicode.canonical_of_ascii kind kind_ascii]
    exact foldl_phone_collectId unicode kind_ascii joined.phone_op_ascii start_ascii
  have theirs : doc.overlayIds kind =
      (doc.pending.flatMap PendingBatch.ops).foldl (collectId kind) start := rfl
  have distinct := nodup_idsOfKind doc.authoritative kind
  have same_ids : (phone.overlayIds unicode kind).Perm (doc.overlayIds kind) := by
    rw [mine, theirs, List.perm_ext_iff_of_nodup (nodup_foldl_collectId distinct)
      (nodup_foldl_collectId distinct)]
    intro id
    rw [mem_foldl_collectId, mem_foldl_collectId]
    exact or_congr_right (exists_congr fun op =>
      and_congr_left' (perm_flatMap joined.mirrors.pending).mem_iff)
  have ids_ascii : ∀ id ∈ phone.overlayIds unicode kind, IsAscii id := by
    intro id member
    rw [mine, mem_foldl_collectId] at member
    rcases member with known | ⟨op, listed, -, rfl⟩
    · exact start_ascii id known
    · exact (opAscii_iff.mp (joined.phone_op_ascii op listed)).2.1
  have shown : phone.overlayRows unicode kind =
      (phone.overlayIds unicode kind).filterMap fun id => doc.overlayRow ⟨kind, id⟩ := by
    exact List.filterMap_congr fun id member =>
      joined.overlayRow_eq unicode kind_ascii (ids_ascii id member)
  rw [shown]
  exact same_ids.filterMap _

end Reads

end Phone

end Zeron.Registry
