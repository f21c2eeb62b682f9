import Zeron.Registry.Room

/-!
# The table after a batch

The room keeps the rows that a batch has touched apart and saves them at the
end.  What that amounts to is `mergeAll`: one operation after the other merged
into the table, each changed row stamped with the batch's `seq`.
-/

namespace Zeron.Registry

open Zeron.Data
open Zeron.Wire

/-- One operation merged into a table, its row stamped when it changed. -/
def mergeInto (seq : Nat) (rows : Table) (op : RowOp) : Table :=
  match applyOp rows[op.key]? (Edge.dropInherited op) with
  | (some row, true) => rows.insert op.key { row with seq }
  | _ => rows

def mergeAll (seq : Nat) (rows : Table) (ops : List RowOp) : Table :=
  ops.foldl (mergeInto seq) rows

/-- What holds of every stored row of a room at `seq`. -/
structure Stored (seq : Nat) (key : RowKey) (row : RegistryRow) : Prop where
  key_eq : row.key = key
  formed : row.WellFormed
  plain : Edge.Plain row
  seq_pos : 0 < row.seq
  seq_le : row.seq ≤ seq

/-- The table holds stored rows only. -/
def StoredTable (seq : Nat) (rows : Table) : Prop :=
  ∀ (key : RowKey) (row : RegistryRow), rows[key]? = some row → Stored seq key row

variable {row : RegistryRow}

/-! ## One operation -/

theorem RegistryRow.WellFormed.stamp (formed : row.WellFormed) (seq : Nat) :
    { row with seq }.WellFormed :=
  ⟨formed.clocked, formed.not_null, formed.tombstone_fields, formed.tombstone_clocks,
    formed.tombstone_delHlc⟩

theorem Edge.Plain.stamp (plain : Edge.Plain row) (seq : Nat) :
    Edge.Plain { row with seq } :=
  ⟨plain.delHlc, plain.clocks⟩

variable {key : RowKey} {seq : Nat}

theorem Stored.mono {next : Nat} (stored : Stored seq key row) (le : seq ≤ next) :
    Stored next key row :=
  ⟨stored.key_eq, stored.formed, stored.plain, stored.seq_pos, stored.seq_le.trans le⟩

variable {rows : Table}

theorem StoredTable.mono {next : Nat} (stored : StoredTable seq rows) (le : seq ≤ next) :
    StoredTable next rows :=
  fun key row found => (stored key row found).mono le

/-- An operation that changes something leaves a row. -/
theorem exists_row_of_changed {op : RowOp} {row : Option RegistryRow}
    (formed : ∀ stored ∈ row, stored.WellFormed) (changed : (applyOp row op).2 = true) :
    ∃ next, applyOp row op = (some next, true) := by
  have outcome := applyOp_outcome op row formed
  generalize applyOp row op = result at outcome changed
  cases outcome with
  | ignored => cases changed
  | _ => exact ⟨_, rfl⟩

section MergeInto

variable {seq : Nat} {rows : Table} {op : RowOp}

theorem mergeInto_of_unchanged
    (unchanged : (applyOp rows[op.key]? (Edge.dropInherited op)).2 = false) :
    mergeInto seq rows op = rows := by
  unfold mergeInto
  split
  · rename_i row result
    rw [result] at unchanged
    cases unchanged
  · rfl

theorem mergeInto_of_changed {row : RegistryRow}
    (result : applyOp rows[op.key]? (Edge.dropInherited op) = (some row, true)) :
    mergeInto seq rows op = rows.insert op.key { row with seq } := by
  simp only [mergeInto, result]

/-- A merge leaves the other keys alone. -/
theorem getElem?_mergeInto_ne {key : RowKey} (other : op.key ≠ key) :
    (mergeInto seq rows op)[key]? = rows[key]? := by
  unfold mergeInto
  split
  · exact getElem?_insert_ne rows other _
  · rfl

variable (stored : StoredTable seq rows) (accepted : Edge.Accepted op)
include stored

theorem StoredTable.formed (key : RowKey) : ∀ row ∈ rows[key]?, row.WellFormed :=
  fun row found => (stored key row found).formed

theorem StoredTable.plain (key : RowKey) : ∀ row ∈ rows[key]?, Edge.Plain row :=
  fun row found => (stored key row found).plain

/-- A row after a merge is the one before it, or stamped with the batch. -/
theorem getElem?_mergeInto_eq_some {key : RowKey} {row : RegistryRow}
    (found : (mergeInto seq rows op)[key]? = some row) : rows[key]? = some row ∨ row.seq = seq := by
  by_cases same : op.key = key
  · subst same
    cases changed : (applyOp rows[op.key]? (Edge.dropInherited op)).2 with
    | false =>
        rw [mergeInto_of_unchanged changed] at found
        exact Or.inl found
    | true =>
        obtain ⟨next, result⟩ := exists_row_of_changed (stored.formed op.key) changed
        rw [mergeInto_of_changed result, getElem?_insert_self] at found
        cases found
        exact Or.inr rfl
  · rw [getElem?_mergeInto_ne same] at found
    exact Or.inl found

include accepted

/-- A merge keeps the table a stored one. -/
theorem StoredTable.mergeInto (pos : 0 < seq) : StoredTable seq (mergeInto seq rows op) := by
  cases changed : (applyOp rows[op.key]? (Edge.dropInherited op)).2 with
  | false => rwa [mergeInto_of_unchanged changed]
  | true =>
      obtain ⟨next, result⟩ := exists_row_of_changed (stored.formed op.key) changed
      rw [mergeInto_of_changed result]
      intro key row found
      rw [getElem?_insert_eq] at found
      split at found
      · cases found
        subst key
        have reached : (applyOp rows[op.key]? (Edge.dropInherited op)).1 = some next := by
          rw [result]
        have keyed : ∀ row ∈ rows[op.key]?, row.key = (Edge.dropInherited op).key :=
          fun row found => (stored op.key row found).key_eq
        have nextKey := applyOp_key (stored.formed op.key) keyed reached
        exact ⟨nextKey, (applyOp_wellFormed _ (stored.formed op.key) next reached).stamp seq,
          ((Edge.mergeStored_eq accepted (stored.plain op.key)).2 next reached).stamp seq,
          pos, le_rfl⟩
      · exact stored key row found

end MergeInto

variable {ops : List RowOp}

/-! ## A whole batch -/

theorem StoredTable.mergeAll (stored : StoredTable seq rows)
    (accepted : ∀ op ∈ ops, Edge.Accepted op) (pos : 0 < seq) :
    StoredTable seq (mergeAll seq rows ops) := by
  induction ops generalizing rows with
  | nil => exact stored
  | cons op rest ih =>
      obtain ⟨opAccepted, restAccepted⟩ := List.forall_mem_cons.mp accepted
      exact ih (stored.mergeInto opAccepted pos) restAccepted

/-- A row after a batch is the one before it, or stamped with the batch. -/
theorem getElem?_mergeAll_eq_some (stored : StoredTable seq rows)
    (accepted : ∀ op ∈ ops, Edge.Accepted op) (pos : 0 < seq)
    (found : (mergeAll seq rows ops)[key]? = some row) :
    rows[key]? = some row ∨ row.seq = seq := by
  induction ops generalizing rows with
  | nil => exact Or.inl found
  | cons op rest ih =>
      obtain ⟨opAccepted, restAccepted⟩ := List.forall_mem_cons.mp accepted
      rcases ih (stored.mergeInto opAccepted pos) restAccepted found with before | stamped
      · exact getElem?_mergeInto_eq_some stored before
      · exact Or.inr stamped

/-- A batch removes no row. -/
theorem getElem?_of_mergeAll_eq_none (missing : (mergeAll seq rows ops)[key]? = none) :
    rows[key]? = none := by
  induction ops generalizing rows with
  | nil => exact missing
  | cons op rest ih =>
      have after := ih missing
      unfold mergeInto at after
      split at after
      · rw [getElem?_insert_eq] at after
        split at after
        · cases after
        · exact after
      · exact after

/-- What every changing operation on a key keeps, a batch keeps. -/
theorem mergeAll_induction (good : Option RegistryRow → Prop) (start : good rows[key]?)
    (kept : ∀ op ∈ ops, op.key = key → ∀ row next, good row →
      applyOp row (Edge.dropInherited op) = (some next, true) → good (some { next with seq })) :
    good (mergeAll seq rows ops)[key]? := by
  induction ops generalizing rows with
  | nil => exact start
  | cons op rest ih =>
      obtain ⟨opKept, restKept⟩ := List.forall_mem_cons.mp kept
      refine ih ?_ restKept
      unfold mergeInto
      split
      · rename_i next result
        rw [getElem?_insert_eq]
        split
        · rename_i same
          rw [same] at result
          exact opKept same _ next start result
        · exact start
      · exact start

/-- The stamp of a row, as a test. -/
def isStamped (seq : Nat) (row : RegistryRow) : Bool :=
  row.seq = seq

/-- The rows kept apart by the code are the stamped rows of the merged table. -/
structure Tracks (seq : Nat) (rows : Table) (touched : RegistryRoom.Touched) (merged : Table) :
    Prop where
  touched_eq : ∀ key : RowKey,
    touched.rows[key]? = (merged[key]?.filter (isStamped seq)).map Edge.loadRow
  untouched : ∀ key : RowKey, merged[key]?.filter (isStamped seq) = none →
    merged[key]? = rows[key]?
  applied : touched.applied = 0 ↔ merged = rows

variable {touched : RegistryRoom.Touched} {merged : Table}

/-- Reading a row through the touched ones finds it as merged so far. -/
theorem Tracks.before_eq (tracks : Tracks seq rows touched merged) (key : RowKey) :
    touched.rows[key]?.or (rows[key]?.map Edge.loadRow) = merged[key]?.map Edge.loadRow := by
  rw [tracks.touched_eq]
  cases stamped : merged[key]?.filter (isStamped seq) with
  | none => rw [tracks.untouched key stamped]; rfl
  | some row =>
      obtain ⟨found, _⟩ := Option.filter_eq_some_iff.mp stamped
      rw [found]
      rfl

section Commit

variable {seq : Nat} {rows : Table} (older : StoredTable seq rows)

theorem StoredTable.not_stamped (older : StoredTable seq rows) (key : RowKey) :
    rows[key]?.filter (isStamped (seq + 1)) = none := by
  cases found : rows[key]? with
  | none => rfl
  | some row =>
      have le := (older key row found).seq_le
      have different : row.seq ≠ seq + 1 := by omega
      simp [isStamped, different]

include older

theorem tracks_start : Tracks (seq + 1) rows ⟨∅, 0⟩ rows where
  touched_eq key := by
    rw [older.not_stamped]
    simp
  untouched _ _ := rfl
  applied := iff_of_true rfl rfl

theorem Tracks.applyNext {op : RowOp} (tracks : Tracks (seq + 1) rows touched merged)
    (stored : StoredTable (seq + 1) merged) (accepted : Edge.Accepted op) :
    Tracks (seq + 1) rows (RegistryRoom.applyNext rows (seq + 1) touched op)
      (mergeInto (seq + 1) merged op) := by
  obtain ⟨edgeEq, _⟩ := Edge.applyOp_loadRow accepted (stored.plain op.key)
  simp only [RegistryRoom.applyNext, tracks.before_eq, edgeEq]
  cases changed : (applyOp merged[op.key]? (Edge.dropInherited op)).2 with
  | false =>
      rw [mergeInto_of_unchanged changed]
      split
      · rename_i same
        cases (Prod.mk.inj same).2
      · exact tracks
  | true =>
      obtain ⟨next, result⟩ := exists_row_of_changed (stored.formed op.key) changed
      rw [mergeInto_of_changed result, result]
      simp only [Option.map_some]
      refine ⟨fun key => ?_, fun key => ?_, ?_⟩
      · rw [getElem?_insert_eq, getElem?_insert_eq]
        split
        · simp [isStamped, Edge.loadRow]
        · exact tracks.touched_eq key
      · rw [getElem?_insert_eq]
        split
        · simp [isStamped]
        · exact tracks.untouched key
      · refine iff_of_false (Nat.succ_ne_zero _) fun same => ?_
        have lookup := congrArg (fun table : Table => table[op.key]?.filter (isStamped (seq + 1))) same
        simp only [older.not_stamped] at lookup
        simp [isStamped] at lookup

theorem tracks_mergeAll {ops : List RowOp} (accepted : ∀ op ∈ ops, Edge.Accepted op)
    (tracks : Tracks (seq + 1) rows touched merged) (stored : StoredTable (seq + 1) merged) :
    Tracks (seq + 1) rows (ops.foldl (RegistryRoom.applyNext rows (seq + 1)) touched)
      (mergeAll (seq + 1) merged ops) := by
  induction ops generalizing touched merged with
  | nil => exact tracks
  | cons op rest ih =>
      obtain ⟨opAccepted, restAccepted⟩ := List.forall_mem_cons.mp accepted
      exact ih restAccepted (tracks.applyNext older stored opAccepted)
        (stored.mergeInto opAccepted (Nat.succ_pos seq))

end Commit

/-! ## What a commit does -/

/-- The rows hold exactly the rows of the table that pass the test, each key once. -/
structure Lists (table : Table) (test : RegistryRow → Bool) (rows : List RegistryRow) : Prop where
  mem_iff : ∀ row, row ∈ rows ↔ table[row.key]? = some row ∧ test row = true
  distinct : rows.Pairwise fun first second => first.key ≠ second.key

/-- Writing listed rows over a table brings in exactly them. -/
theorem Lists.getElem?_insertAll {table old : Table} {test : RegistryRow → Bool}
    {rows : List RegistryRow} (lists : Lists table test rows)
    (keyed : ∀ (key : RowKey) (row : RegistryRow), table[key]? = some row → row.key = key)
    (key : RowKey) :
    (insertAll RegistryRow.key old rows)[key]? = (table[key]?.filter test).or old[key]? := by
  cases found : table[key]?.filter test with
  | some row =>
      obtain ⟨stored, passes⟩ := Option.filter_eq_some_iff.mp found
      obtain rfl := keyed key row stored
      rw [getElem?_insertAll_of_mem lists.distinct ((lists.mem_iff row).mpr ⟨stored, passes⟩)]
      rfl
  | none =>
      apply getElem?_insertAll_of_forall_ne
      rintro row member rfl
      obtain ⟨stored, passes⟩ := (lists.mem_iff row).mp member
      simp [stored, passes] at found

theorem Tracks.lists (tracks : Tracks seq rows touched merged) (stored : StoredTable seq merged) :
    Lists merged (isStamped seq) ((values touched.rows).map Edge.saveRow) := by
  have loaded : ∀ (key : RowKey) (row : Edge.Row), touched.rows[key]? = some row →
      ∃ saved, merged[key]? = some saved ∧ isStamped seq saved = true ∧
        row = Edge.loadRow saved ∧ Edge.saveRow row = saved := by
    intro key row found
    rw [tracks.touched_eq] at found
    obtain ⟨saved, passes, rfl⟩ := Option.map_eq_some_iff.mp found
    obtain ⟨inTable, stamped⟩ := Option.filter_eq_some_iff.mp passes
    exact ⟨saved, inTable, stamped, rfl, (stored key saved inTable).plain.saveRow_loadRow⟩
  constructor
  · intro row
    simp only [List.mem_map, mem_values_iff]
    constructor
    · rintro ⟨kept, ⟨key, found⟩, rfl⟩
      obtain ⟨saved, inTable, stamped, _, savedEq⟩ := loaded key kept found
      rw [savedEq, (stored key saved inTable).key_eq]
      exact ⟨inTable, stamped⟩
    · rintro ⟨inTable, stamped⟩
      refine ⟨Edge.loadRow row, ⟨row.key, ?_⟩, (stored _ row inTable).plain.saveRow_loadRow⟩
      rw [tracks.touched_eq, Option.filter_eq_some_iff.mpr ⟨inTable, stamped⟩]
      rfl
  · rw [List.pairwise_map]
    apply values_pairwise_ne
    intro key row found
    obtain ⟨saved, inTable, _, _, savedEq⟩ := loaded key row found
    rw [savedEq, (stored key saved inTable).key_eq]

/-- A commit either changes nothing, or moves the room to the merged table and
the next `seq`, and hands out exactly the rows it stamped. -/
theorem commitOps_spec {room : RegistryRoom} (stored : StoredTable room.seq room.rows)
    (accepted : ∀ op ∈ ops, Edge.Accepted op) :
    let merged := mergeAll (room.seq + 1) room.rows ops
    (merged = room.rows ∧ room.commitOps ops = (room, 0, [])) ∨
      (merged ≠ room.rows ∧ ∃ applied rows, 0 < applied ∧
        room.commitOps ops =
          ({ room with rows := merged, seq := room.seq + 1, backupDirty := true },
            applied, rows) ∧
        Lists merged (isStamped (room.seq + 1)) rows) := by
  intro merged
  have mergedStored : StoredTable (room.seq + 1) merged :=
    (stored.mono (Nat.le_succ _)).mergeAll accepted (Nat.succ_pos _)
  have tracks : Tracks (room.seq + 1) room.rows
      (ops.foldl (RegistryRoom.applyNext room.rows (room.seq + 1)) ⟨∅, 0⟩) merged :=
    tracks_mergeAll stored accepted (tracks_start stored) (stored.mono (Nat.le_succ _))
  have lists := tracks.lists mergedStored
  simp only [RegistryRoom.commitOps]
  generalize ops.foldl (RegistryRoom.applyNext room.rows (room.seq + 1)) ⟨∅, 0⟩ = touched
    at tracks lists
  by_cases none : touched.applied = 0
  · left
    refine ⟨tracks.applied.mp none, ?_⟩
    simp [none]
  · right
    refine ⟨fun same => none (tracks.applied.mpr same), touched.applied, _,
      Nat.pos_of_ne_zero none, ?_, lists⟩
    have saved : insertAll RegistryRow.key room.rows ((values touched.rows).map Edge.saveRow) =
        merged := by
      apply Std.ExtTreeMap.ext_getElem?
      intro key
      rw [lists.getElem?_insertAll (fun key row found => (mergedStored key row found).key_eq)]
      cases stamped : merged[key]?.filter (isStamped (room.seq + 1)) with
      | none => rw [tracks.untouched key stamped, Option.none_or]
      | some row => rw [(Option.filter_eq_some_iff.mp stamped).1]; rfl
    simp only [if_pos (Nat.pos_of_ne_zero none), saved]

/-- The rows since a cursor are the rows stamped after it. -/
theorem lists_rowsSince {room : RegistryRoom} (stored : StoredTable room.seq room.rows)
    (cursor : Nat) : Lists room.rows (fun row => cursor < row.seq) (room.rowsSince cursor) := by
  have sorted := List.perm_insertionSort (fun a b : RegistryRow => a.seq ≤ b.seq)
    ((values room.rows).filter fun row => cursor < row.seq)
  constructor
  · intro row
    rw [RegistryRoom.rowsSince, sorted.mem_iff, List.mem_filter, mem_values_iff]
    apply and_congr_left'
    constructor
    · rintro ⟨key, found⟩
      rwa [(stored key row found).key_eq]
    · intro found
      exact ⟨row.key, found⟩
  · have distinct : (values room.rows).Pairwise fun first second => first.key ≠ second.key :=
      values_pairwise_ne fun key row found => (stored key row found).key_eq
    exact (sorted.pairwise_iff fun different => different.symm).mpr (distinct.filter _)

/-! ## What every room keeps -/

namespace RegistryRoom

/-- What holds of a room at all times. -/
structure Invariant (room : RegistryRoom) : Prop where
  stored : StoredTable room.seq room.rows
  gcFloor_le : room.gcFloor ≤ room.seq

theorem invariant_initial : initial.Invariant where
  stored key row found := by simp [initial] at found
  gcFloor_le := le_rfl

end RegistryRoom

/-- The operations of a frame that passes the checks are accepted ones. -/
theorem accepted_of_readBatch {frame : Json} {batch : String}
    (read : RegistryRoom.readBatch frame = .ok (batch, ops)) :
    ∀ op ∈ ops, Edge.Accepted op := by
  unfold RegistryRoom.readBatch at read
  simp only at read
  split at read
  · split at read
    · cases read
    · split at read
      · cases read
      · split at read
        · cases read
        · rename_i noInvalid
          cases read
          intro op member
          obtain ⟨json, jsonMem, rfl⟩ := List.mem_map.mp member
          exact Edge.accepted_readOp (List.findSome?_eq_none_iff.mp noInvalid json jsonMem)
  · cases read

namespace RegistryRoom

/-- What an accepted or rejected frame does to the room's tables. -/
theorem applyPushBatch_cases (room : RegistryRoom) (frame : Json) (invariant : room.Invariant) :
    (∃ error, readBatch frame = .error error ∧
      room.applyPushBatch frame = (room, .error error)) ∨
    ∃ batch ops, readBatch frame = .ok (batch, ops) ∧
      ((mergeAll (room.seq + 1) room.rows ops = room.rows ∧
          room.applyPushBatch frame =
            (room, .ok { batch, seq := room.seq, applied := 0, rows := [] })) ∨
        (mergeAll (room.seq + 1) room.rows ops ≠ room.rows ∧ ∃ applied rows, 0 < applied ∧
          Lists (mergeAll (room.seq + 1) room.rows ops) (isStamped (room.seq + 1)) rows ∧
          room.applyPushBatch frame =
            ({ room with
                rows := mergeAll (room.seq + 1) room.rows ops
                seq := room.seq + 1
                backupDirty := true },
              .ok { batch, seq := room.seq + 1, applied, rows }))) := by
  unfold applyPushBatch
  cases read : readBatch frame with
  | error error => exact Or.inl ⟨error, rfl, rfl⟩
  | ok checked =>
      obtain ⟨batch, ops⟩ := checked
      refine Or.inr ⟨batch, ops, rfl, ?_⟩
      rcases commitOps_spec invariant.stored (accepted_of_readBatch read) with
        ⟨same, committed⟩ | ⟨different, applied, rows, pos, committed, lists⟩
      · left
        simp only [committed]
        exact ⟨same, trivial⟩
      · right
        simp only [committed]
        exact ⟨different, applied, rows, pos, lists, rfl⟩

variable {room : RegistryRoom}

theorem Invariant.applyPushBatch (invariant : room.Invariant) (frame : Json) :
    (room.applyPushBatch frame).1.Invariant := by
  rcases room.applyPushBatch_cases frame invariant with
    ⟨error, _, result⟩ | ⟨batch, ops, read, ⟨_, result⟩ | ⟨_, applied, rows, _, _, result⟩⟩
  · rwa [result]
  · rwa [result]
  · rw [result]
    exact ⟨(invariant.stored.mono (Nat.le_succ _)).mergeAll (accepted_of_readBatch read)
      (Nat.succ_pos _), invariant.gcFloor_le.trans (Nat.le_succ _)⟩

private theorem foldl_max_seq_le (rows : List RegistryRow) (start bound : Nat) :
    rows.foldl (fun newest row => max newest row.seq) start ≤ bound ↔
      start ≤ bound ∧ ∀ row ∈ rows, row.seq ≤ bound := by
  induction rows generalizing start with
  | nil => simp
  | cons row rest ih => rw [List.foldl_cons, ih, max_le_iff, List.forall_mem_cons, and_assoc]

/-- The newest stamp among the tombstones that a collection purges. -/
def purgedMaxSeq (room : RegistryRoom) (now : Nat) : Nat :=
  ((values room.rows).filter (isPurged (horizonHlc now))).foldl
    (fun newest row => max newest row.seq) 0

theorem purgedMaxSeq_le_iff {now bound : Nat} :
    room.purgedMaxSeq now ≤ bound ↔ ∀ (key : RowKey) (row : RegistryRow),
      room.rows[key]? = some row → isPurged (horizonHlc now) row = true → row.seq ≤ bound := by
  rw [purgedMaxSeq, foldl_max_seq_le]
  simp only [Nat.zero_le, true_and, List.mem_filter, mem_values_iff]
  constructor
  · intro all key row found purged
    exact all row ⟨⟨key, found⟩, purged⟩
  · rintro all row ⟨⟨key, found⟩, purged⟩
    exact all key row found purged

section

variable (invariant : room.Invariant) (now : Nat)
include invariant now

/-- A collection purges the old tombstones and raises the floor to their newest
stamp, whether or not there are any. -/
theorem collectTombstones_eq :
    room.collectTombstones now =
      { room with
        rows := room.rows.filter fun _ row => !isPurged (horizonHlc now) row
        gcFloor := max room.gcFloor (room.purgedMaxSeq now) } := by
  unfold collectTombstones
  simp only
  split
  · rfl
  · have zero : room.purgedMaxSeq now = 0 := Nat.eq_zero_of_not_pos ‹_›
    have kept : room.rows.filter (fun _ row => !isPurged (horizonHlc now) row) = room.rows := by
      apply Std.ExtTreeMap.ext_getElem?
      intro key
      rw [Std.ExtTreeMap.getElem?_filter']
      cases found : room.rows[key]? with
      | none => rfl
      | some row =>
          have stays : isPurged (horizonHlc now) row = false := by
            by_contra purged
            have le := purgedMaxSeq_le_iff.mp zero.le key row found (Bool.not_eq_false _ ▸ purged)
            exact absurd (invariant.stored key row found).seq_pos (by omega)
          simp [stays]
    rw [zero, kept, Nat.max_zero]

/-- What a collection leaves under a key. -/
theorem getElem?_collectTombstones (key : RowKey) :
    (room.collectTombstones now).rows[key]? =
      room.rows[key]?.filter fun row => !isPurged (horizonHlc now) row := by
  rw [collectTombstones_eq invariant, Std.ExtTreeMap.getElem?_filter']

theorem Invariant.collectTombstones : (room.collectTombstones now).Invariant := by
  rw [collectTombstones_eq invariant]
  constructor
  · intro key row found
    rw [Std.ExtTreeMap.getElem?_filter'] at found
    exact invariant.stored key row (Option.filter_eq_some_iff.mp found).1
  · exact max_le invariant.gcFloor_le (purgedMaxSeq_le_iff.mpr fun key row found _ =>
      (invariant.stored key row found).seq_le)

theorem Invariant.alarm : (room.alarm now).Invariant := by
  unfold RegistryRoom.alarm
  split
  · exact invariant.collectTombstones now
  · exact invariant

end

theorem Invariant.alarmDone (invariant : room.Invariant) (written : Option Nat) :
    (room.alarmDone written).Invariant :=
  ⟨invariant.stored, invariant.gcFloor_le⟩

end RegistryRoom

end Zeron.Registry
