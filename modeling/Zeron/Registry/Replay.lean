import Zeron.Registry.Edge.Agreement
import Zeron.Registry.Merge
import Mathlib.Data.List.Induction
import Mathlib.Data.List.Nodup

/-!
# Convergence of the writes to a live row

Once a row is alive, upserts and updates merge into it field by field, and each
field is a last-writer-wins cell.  So the order in which they arrive does not
matter, as long as no clock names two different writes of one field.
-/

namespace Zeron.Registry

open Zeron.Data
open Zeron.Wire

/-- The writes of several operations to one field, in order. -/
def fieldWrites (field : String) (ops : List RowOp) : List (Lww.Write Hlc Json) :=
  ops.flatMap fun op => (op.writeTo field).toList

theorem fieldWrites_cons (field : String) (op : RowOp) (ops : List RowOp) :
    fieldWrites field (op :: ops) = (op.writeTo field).toList ++ fieldWrites field ops :=
  List.flatMap_cons

variable {ops : List RowOp}

theorem fieldWrites_perm {field : String} {others : List RowOp} (perm : ops.Perm others) :
    (fieldWrites field ops).Perm (fieldWrites field others) :=
  perm.flatMap_right _

theorem mem_fieldWrites_iff {field : String} {write : Lww.Write Hlc Json} :
    write ∈ fieldWrites field ops ↔ ∃ op ∈ ops, op.writeTo field = some write := by
  simp only [fieldWrites, List.mem_flatMap, Option.mem_toList]

/-- Operations without clock overrides and with clocks of their own never give
one clock to two different writes. -/
theorem consistent_of_distinct_clocks (plain : ∀ op ∈ ops, op.clocks = none)
    (distinct : (ops.map RowOp.hlc).Nodup) (field : String) :
    Lww.Consistent (fieldWrites field ops) := by
  have ownClock : ∀ op ∈ ops, ∀ write, op.writeTo field = some write → write.clock = op.hlc := by
    intro op member write wrote
    obtain ⟨value, _, rfl⟩ := Option.map_eq_some_iff.mp wrote
    simp [RowOp.clockFor, plain op member]
  intro first firstMem second secondMem clockEq
  obtain ⟨op, opMem, opWrote⟩ := mem_fieldWrites_iff.mp firstMem
  obtain ⟨other, otherMem, otherWrote⟩ := mem_fieldWrites_iff.mp secondMem
  have hlcEq : op.hlc = other.hlc := by
    rw [← ownClock op opMem first opWrote, clockEq, ownClock other otherMem second otherWrote]
  have sameOp : op = other := List.inj_on_of_nodup_map distinct opMem otherMem hlcEq
  rw [sameOp] at opWrote
  exact Option.some.inj (opWrote.symm.trans otherWrote)

/-- Two rows agree outside fields and clocks. -/
structure RegistryRow.SameFrame (first second : RegistryRow) : Prop where
  kind : first.kind = second.kind
  id : first.id = second.id
  seq : first.seq = second.seq
  deleted : first.deleted = second.deleted
  delHlc : first.delHlc = second.delHlc

theorem RegistryRow.SameFrame.symm {first second : RegistryRow}
    (same : first.SameFrame second) : second.SameFrame first :=
  ⟨same.kind.symm, same.id.symm, same.seq.symm, same.deleted.symm, same.delHlc.symm⟩

theorem RegistryRow.SameFrame.trans {first second third : RegistryRow}
    (left : first.SameFrame second) (right : second.SameFrame third) : first.SameFrame third :=
  ⟨left.kind.trans right.kind, left.id.trans right.id, left.seq.trans right.seq,
    left.deleted.trans right.deleted, left.delHlc.trans right.delHlc⟩

theorem sameFrame_writeFields (op : RowOp) (base : RegistryRow) (created : Bool) :
    (writeFields op base created).1.SameFrame base :=
  ⟨by simp, by simp, by simp, by simp, by simp⟩

/-- A well-formed row is its frame and its cells. -/
theorem RegistryRow.eq_of_cells {first second : RegistryRow} (same : first.SameFrame second)
    (firstFormed : first.WellFormed) (secondFormed : second.WellFormed)
    (cells : ∀ field, first.cell field = second.cell field) : first = second := by
  have lookups : ∀ field : String, first.clocks[field]? = second.clocks[field]? ∧
      first.fields[field]? = second.fields[field]? := by
    intro field
    have cellEq := cells field
    unfold RegistryRow.cell at cellEq
    cases firstClock : first.clocks[field]? with
    | none =>
        cases secondClock : second.clocks[field]? with
        | none =>
            exact ⟨rfl, (firstFormed.clocked field firstClock).trans
              (secondFormed.clocked field secondClock).symm⟩
        | some clock => simp [firstClock, secondClock] at cellEq
    | some clock =>
        cases secondClock : second.clocks[field]? with
        | none => simp [firstClock, secondClock] at cellEq
        | some other => simpa [firstClock, secondClock] using cellEq
  have clocksEq : first.clocks = second.clocks :=
    Std.ExtTreeMap.ext_getElem? fun field => (lookups field).1
  have fieldsEq : first.fields = second.fields :=
    Std.ExtTreeMap.ext_getElem? fun field => (lookups field).2
  obtain ⟨kind, id, seq, deleted, delHlc⟩ := same
  cases first
  cases second
  simp_all

/-- One upsert or update keeps a live row alive and puts its writes into the
cells. -/
theorem applyOp_live_cells {op : RowOp} {row : RegistryRow} (notDelete : op.op ≠ .delete)
    (live : row.deleted = false) :
    ∃ next, (applyOp (some row) op).1 = some next ∧ next.SameFrame row ∧
      ∀ field, next.cell field = Lww.putAll (row.cell field) (op.writeTo field).toList := by
  rw [applyOp_live notDelete live]
  exact ⟨_, rfl, sameFrame_writeFields op row false, cell_writeFields op row false⟩

/-- So do several of them. -/
theorem applyOps_live_cells {row : RegistryRow} (noDeletes : ∀ op ∈ ops, op.op ≠ .delete)
    (live : row.deleted = false) :
    ∃ final, applyOps (some row) ops = some final ∧ final.SameFrame row ∧
      ∀ field, final.cell field = Lww.putAll (row.cell field) (fieldWrites field ops) := by
  induction ops generalizing row with
  | nil => exact ⟨row, rfl, ⟨rfl, rfl, rfl, rfl, rfl⟩, fun _ => rfl⟩
  | cons op rest ih =>
      obtain ⟨opKind, restKinds⟩ := List.forall_mem_cons.mp noDeletes
      obtain ⟨next, stepped, nextFrame, nextCells⟩ := applyOp_live_cells opKind live
      obtain ⟨final, reached, finalFrame, finalCells⟩ :=
        ih restKinds (nextFrame.deleted.trans live)
      refine ⟨final, ?_, finalFrame.trans nextFrame, fun field => ?_⟩
      · rw [applyOps_cons, stepped, reached]
      · rw [finalCells, nextCells, fieldWrites_cons, Lww.putAll_append]

/-- The row an upsert creates is alive and holds exactly the upsert's writes. -/
theorem applyOps_created_cells {create : RowOp} (isUpsert : create.op = .upsert)
    (noDeletes : ∀ op ∈ ops, op.op ≠ .delete) :
    ∃ final, applyOps none (create :: ops) = some final ∧
      final.SameFrame (.blank create.kind create.id) ∧
      ∀ field, final.cell field = Lww.putAll none (fieldWrites field (create :: ops)) := by
  rw [applyOps_cons, applyOp_upsert_none isUpsert]
  have frame := sameFrame_writeFields create (.blank create.kind create.id) true
  obtain ⟨final, reached, finalFrame, finalCells⟩ :=
    applyOps_live_cells noDeletes (frame.deleted.trans rfl)
  refine ⟨final, reached, finalFrame.trans frame, fun field => ?_⟩
  have blankCell : (RegistryRow.blank create.kind create.id).cell field = none := by
    simp [RegistryRow.cell, RegistryRow.blank]
  rw [finalCells, cell_writeFields, blankCell, fieldWrites_cons, Lww.putAll_append]

/-- Upserts and updates on a row created by an upsert converge: every order of
them gives the same row, and each field holds a write with the greatest clock
written to it. -/
theorem live_writes_converge (create : RowOp) (ops others : List RowOp)
    (isUpsert : create.op = .upsert) (noDeletes : ∀ op ∈ ops, op.op ≠ .delete)
    (consistent : ∀ field, Lww.Consistent (fieldWrites field (create :: ops)))
    (perm : ops.Perm others) :
    ∃ row, applyOps none (create :: ops) = some row ∧
      applyOps none (create :: others) = some row ∧
      ∀ field : String,
        Lww.IsNewest (row.cell field) (fieldWrites field (create :: ops)) ∧
          (row.clocks[field]? = none → row.fields[field]? = none) := by
  have noDeletes' : ∀ op ∈ others, op.op ≠ .delete := fun op member =>
    noDeletes op (perm.mem_iff.mpr member)
  obtain ⟨row, reached, frame, cells⟩ := applyOps_created_cells isUpsert noDeletes
  obtain ⟨other, reached', frame', cells'⟩ := applyOps_created_cells isUpsert noDeletes'
  have rowFormed : row.WellFormed :=
    applyOps_none_wellFormed (create :: ops) row reached
  have otherFormed : other.WellFormed :=
    applyOps_none_wellFormed (create :: others) other reached'
  have same : row = other := by
    apply RegistryRow.eq_of_cells (frame.trans frame'.symm) rowFormed otherFormed
    intro field
    rw [cells, cells']
    exact Lww.putAll_none_perm (consistent field) (fieldWrites_perm (perm.cons create))
  refine ⟨row, reached, same ▸ reached', fun field => ⟨?_, rowFormed.clocked field⟩⟩
  rw [cells]
  exact Lww.isNewest_putAll_none _

/-- A chat row created by one device, renamed by a second and cleared by a third. -/
theorem live_writes_converge_chat :
    let write op fields hlc := RowOp.fieldWrite "chats" "c1" op (.ofList fields compare) hlc
    let create := write .upsert [("title", Json.str "new"), ("pinned", .bool true)] (encodeHlc 1 0 "a")
    let rename := write .update [("title", Json.str "renamed")] (encodeHlc 3 0 "b")
    let clear := write .upsert [("title", Json.null), ("pinned", .null)] (encodeHlc 2 0 "c")
    ∃ row, applyOps none [create, rename, clear] = some row ∧
      applyOps none [create, clear, rename] = some row ∧
      ∀ field : String,
        Lww.IsNewest (row.cell field) (fieldWrites field [create, rename, clear]) ∧
          (row.clocks[field]? = none → row.fields[field]? = none) :=
  live_writes_converge _ _ _ rfl (by decide)
    (consistent_of_distinct_clocks (by decide) (by decide)) (.swap _ _ _)

end Zeron.Registry

/-!
## Delayed replays

An operation that is delivered again right away changes nothing.  Delivered
later it may: a delete clears the field clocks that had turned the operation
away, and a revival starts from no clocks at all.  What still protects a row
are the writes of its present life, that is, those since it was last created
or revived.
-/

namespace Zeron.Registry

open Zeron.Data
open Zeron.Wire

variable {next : RegistryRow}

/-- The row is stored and not a tombstone. -/
def isLive (row : Option RegistryRow) : Bool :=
  row.any fun stored => !stored.deleted

@[simp]
theorem isLive_none : isLive none = false :=
  rfl

@[simp]
theorem isLive_some (row : RegistryRow) : isLive (some row) = !row.deleted :=
  rfl

/-- Track the upserts and updates of a row's present life. -/
def lifeStep (state : Option RegistryRow × List RowOp) (op : RowOp) :
    Option RegistryRow × List RowOp :=
  let next := (applyOp state.1 op).1
  if isLive next then
    if op.op = .delete then (next, state.2)
    else if isLive state.1 then (next, state.2 ++ [op])
    else (next, [op])
  else
    (next, [])

/-- The upserts and updates since the row was last created or revived, the one
that did so included. -/
def presentLife (ops : List RowOp) : List RowOp :=
  (ops.foldl lifeStep (none, [])).2

theorem foldl_lifeStep_row (ops : List RowOp) (state : Option RegistryRow × List RowOp) :
    (ops.foldl lifeStep state).1 = applyOps state.1 ops := by
  induction ops generalizing state with
  | nil => rfl
  | cons op rest ih =>
      have stepRow : (lifeStep state op).1 = (applyOp state.1 op).1 := by
        unfold lifeStep
        simp only
        split
        · split
          · rfl
          · split <;> rfl
        · rfl
      rw [List.foldl_cons, ih, stepRow, applyOps_cons]

theorem presentLife_append_singleton (ops : List RowOp) (op : RowOp) :
    presentLife (ops ++ [op]) = (lifeStep (applyOps none ops, presentLife ops) op).2 := by
  have row := foldl_lifeStep_row ops (none, [])
  unfold presentLife
  rw [List.foldl_append, List.foldl_cons, List.foldl_nil]
  generalize ops.foldl lifeStep (none, []) = state at row ⊢
  rw [← row]

theorem applyOps_append_singleton (row : Option RegistryRow) (ops : List RowOp) (op : RowOp) :
    applyOps row (ops ++ [op]) = (applyOp (applyOps row ops) op).1 := by
  rw [applyOps_append, applyOps_cons, applyOps_nil]

/-- Some write of the operations to `field` is at least as new as `clock`. -/
def WritesSince (ops : List RowOp) (field : String) (clock : Hlc) : Prop :=
  ∃ op ∈ ops, op.writes[field]?.isSome = true ∧ clock ≤ op.clockFor field

/-- One more upsert or update adds its own clocks to those of a row. -/
theorem not_newer_writeFields_iff (op : RowOp) (base : RegistryRow) (created : Bool)
    (field : String) (clock : Hlc) :
    hlcNewer clock (writeFields op base created).1.clocks[field]? = false ↔
      hlcNewer clock base.clocks[field]? = false ∨ WritesSince [op] field clock := by
  rw [writeFields_clocks]
  simp only [WritesSince, List.mem_singleton, exists_eq_left]
  by_cases wins : (op.writes[field]?.isSome && hlcNewer (op.clockFor field) base.clocks[field]?) =
      true
  · rw [if_pos wins, hlcNewer_some_eq_false_iff]
    obtain ⟨isWritten, newer⟩ := Bool.and_eq_true_iff.mp wins
    constructor
    · intro le
      exact Or.inr ⟨isWritten, le⟩
    · rintro (older | ⟨_, le⟩)
      · obtain ⟨stored, found, le⟩ := hlcNewer_eq_false_iff.mp older
        exact le_trans le (hlcNewer_iff.mp newer stored found).le
      · exact le
  · rw [if_neg wins]
    constructor
    · exact Or.inl
    · rintro (older | ⟨isWritten, le⟩)
      · exact older
      · have notNewer : hlcNewer (op.clockFor field) base.clocks[field]? = false := by
          simpa [isWritten] using wins
        obtain ⟨stored, found, opLe⟩ := hlcNewer_eq_false_iff.mp notNewer
        exact hlcNewer_eq_false_iff.mpr ⟨stored, found, le_trans le opLe⟩

theorem writesSince_append_iff {first second : List RowOp} {field : String} {clock : Hlc} :
    WritesSince (first ++ second) field clock ↔
      WritesSince first field clock ∨ WritesSince second field clock := by
  simp only [WritesSince, List.mem_append, or_and_right, exists_or]

variable {op : RowOp} {row : Option RegistryRow}

/-- A delete that leaves a live row has left it alone. -/
theorem eq_of_applyOp_delete_live (isDelete : op.op = .delete)
    (before : ∀ stored ∈ row, stored.WellFormed) (reached : (applyOp row op).1 = some next)
    (live : next.deleted = false) :
    row = some next := by
  cases row with
  | none =>
      rw [applyOp_delete_none isDelete] at reached
      cases reached
      cases live
  | some stored =>
      rw [applyOp_delete_some isDelete (before stored rfl)] at reached
      split at reached
      · cases reached
        cases live
      · exact reached

/-- An upsert or update that leaves a live row has written its fields into the
row, if that was live, and otherwise into an empty one. -/
theorem exists_base_of_applyOp_live (notDelete : op.op ≠ .delete)
    (reached : (applyOp row op).1 = some next) (live : next.deleted = false) :
    ∃ base created, next = (writeFields op base created).1 ∧ base.deleted = false ∧
      (isLive row = true → row = some base) ∧
      (isLive row = false → base.clocks = ∅ ∧ base.fields = ∅) := by
  cases row with
  | none =>
      cases kind : op.op with
      | delete => exact absurd kind notDelete
      | update => rw [applyOp_update_none kind] at reached; cases reached
      | upsert =>
          rw [applyOp_upsert_none kind] at reached
          cases reached
          exact ⟨_, true, rfl, rfl, by simp, fun _ => ⟨rfl, rfl⟩⟩
  | some row =>
      cases dead : row.deleted with
      | false =>
          rw [applyOp_live notDelete dead] at reached
          cases reached
          exact ⟨row, false, rfl, dead, fun _ => rfl, by simp [dead]⟩
      | true =>
          cases kind : op.op with
          | delete => exact absurd kind notDelete
          | update =>
              rw [applyOp_update_tombstone kind dead] at reached
              cases reached
              exact absurd (live.symm.trans dead) (by decide)
          | upsert =>
              rw [applyOp_upsert_tombstone kind dead] at reached
              split at reached
              · cases reached
                exact ⟨row.revive, true, rfl, rfl, by simp [dead], fun _ => ⟨rfl, rfl⟩⟩
              · cases reached
                exact absurd (live.symm.trans dead) (by decide)

variable {ops : List RowOp}

/-- The present life after one more operation that leaves the row alive. -/
theorem presentLife_of_live (live : isLive (applyOps none (ops ++ [op])) = true) :
    presentLife (ops ++ [op]) =
      if op.op = .delete then presentLife ops
      else if isLive (applyOps none ops) then presentLife ops ++ [op] else [op] := by
  rw [applyOps_append_singleton] at live
  rw [presentLife_append_singleton]
  unfold lifeStep
  simp only [if_pos live]
  split
  · rfl
  · split <;> rfl

/-- The clocks of a live row are those written in its present life. -/
theorem live_clocks_iff_presentLife {row : RegistryRow} (reached : applyOps none ops = some row)
    (live : row.deleted = false) (field : String) (clock : Hlc) :
    hlcNewer clock row.clocks[field]? = false ↔ WritesSince (presentLife ops) field clock := by
  induction ops using List.reverseRecOn generalizing row with
  | nil => cases reached
  | append_singleton ops op ih =>
      have formed : ∀ stored ∈ applyOps none ops, stored.WellFormed :=
        applyOps_none_wellFormed ops
      rw [presentLife_of_live (by simp [reached, live])]
      rw [applyOps_append_singleton] at reached
      by_cases isDelete : op.op = .delete
      · rw [if_pos isDelete]
        exact ih (eq_of_applyOp_delete_live isDelete formed reached live) live
      · rw [if_neg isDelete]
        obtain ⟨base, created, rfl, baseLive, wasLive, wasDead⟩ :=
          exists_base_of_applyOp_live isDelete reached live
        rw [not_newer_writeFields_iff]
        cases alive : isLive (applyOps none ops) with
        | true => rw [if_pos rfl, ih (wasLive alive) baseLive, writesSince_append_iff]
        | false =>
            rw [(wasDead alive).1]
            simp

/-- What turns a late replay of `op` away: a delete always is; an update is on
a row that does not exist or is deleted; an upsert is on a tombstone at least
as new; and on a live row every field the operation sets has been written,
since the row last came to life, with a clock at least as new. -/
def ReplayTurnedAway (ops : List RowOp) (op : RowOp) : Prop :=
  op.op = .delete ∨
    match applyOps none ops with
    | none => True
    | some row =>
        if row.deleted then
          op.op = .update ∨ ∃ tombstone ∈ row.delHlc, op.hlc ≤ tombstone
        else
          ∀ field : String, op.writes[field]?.isSome = true →
            WritesSince (presentLife ops) field (op.clockFor field)

/-- A row that an upsert or delete has been applied to is stored. -/
theorem applyOp_isSome (row : Option RegistryRow) (notUpdate : op.op ≠ .update)
    (before : ∀ stored ∈ row, stored.WellFormed) : (applyOp row op).1.isSome = true := by
  cases row with
  | none =>
      cases kind : op.op with
      | update => exact absurd kind notUpdate
      | delete => rw [applyOp_delete_none kind]; rfl
      | upsert => rw [applyOp_upsert_none kind]; rfl
  | some row => exact (applyOp_outcome op (some row) before).isSome rfl

theorem applyOps_isSome (ops : List RowOp) (before : ∀ stored ∈ row, stored.WellFormed)
    (stored : row.isSome = true) :
    (applyOps row ops).isSome = true := by
  induction ops generalizing row with
  | nil => exact stored
  | cons op rest ih =>
      exact ih (applyOp_wellFormed op before) ((applyOp_outcome op row before).isSome stored)

/-- Of a row that is still missing only updates have been applied. -/
theorem update_of_applyOps_eq_none (occurs : op ∈ ops) (missing : applyOps none ops = none) :
    op.op = .update := by
  obtain ⟨before, after, rfl⟩ := List.append_of_mem occurs
  by_contra notUpdate
  have formed : ∀ stored ∈ applyOps none before, stored.WellFormed :=
    applyOps_none_wellFormed before
  have stored := applyOps_isSome after (applyOp_wellFormed op formed)
    (applyOp_isSome _ notUpdate formed)
  rw [← applyOps_cons, ← applyOps_append, missing] at stored
  cases stored

/-- A delete that has been delivered stays covered. -/
theorem coversAt_of_delete_mem (occurs : op ∈ ops) (isDelete : op.op = .delete) :
    CoversAt (applyOps none ops) op.hlc := by
  obtain ⟨before, after, rfl⟩ := List.append_of_mem occurs
  have formed : ∀ stored ∈ applyOps none before, stored.WellFormed :=
    applyOps_none_wellFormed before
  rw [applyOps_append]
  exact applyOps_coversAt after (applyOp_wellFormed op formed)
    (applyOp_delete_coversAt isDelete formed)

/-- An operation that has been delivered changes nothing when it is delivered
once more at the end exactly when it is turned away there. -/
theorem applyOp_replayed_iff (ops : List RowOp) (op : RowOp) (occurs : op ∈ ops) :
    applyOp (applyOps none ops) op = (applyOps none ops, false) ↔ ReplayTurnedAway ops op := by
  have formed : ∀ stored ∈ applyOps none ops, stored.WellFormed :=
    applyOps_none_wellFormed ops
  unfold ReplayTurnedAway
  by_cases isDelete : op.op = .delete
  · obtain ⟨row, reached, older⟩ := coversAt_of_delete_mem occurs isDelete
    rw [reached]
    have notNewer : hlcNewer op.hlc row.maxClock ≠ true := Bool.eq_false_iff.mp older
    rw [applyOp_delete_some isDelete (formed row reached), if_neg notNewer]
    exact iff_of_true rfl (Or.inl isDelete)
  · simp only [isDelete, false_or]
    cases reached : applyOps none ops with
    | none =>
        rw [applyOp_update_none (update_of_applyOps_eq_none occurs reached)]
        exact iff_of_true rfl trivial
    | some row =>
        cases dead : row.deleted with
        | true =>
            simp only [dead]
            cases kind : op.op with
            | delete => exact absurd kind isDelete
            | update => simp [applyOp_update_tombstone kind dead]
            | upsert =>
                rw [applyOp_upsert_tombstone kind dead, ← hlcNewer_eq_false_iff]
                cases hlcNewer op.hlc row.delHlc <;> simp
        | false =>
            simp only [dead]
            have turnedAway : (writeFields op row false).2 = false ↔
                ∀ field : String, op.writes[field]?.isSome = true →
                  WritesSince (presentLife ops) field (op.clockFor field) := by
              rw [writeFields_changed_eq_false_iff]
              simp only [true_and, Option.isSome_iff_exists, forall_exists_index]
              exact forall₃_congr fun field value _ =>
                live_clocks_iff_presentLife reached dead field (op.clockFor field)
            rw [applyOp_live isDelete dead, ← turnedAway]
            constructor
            · exact congrArg Prod.snd
            · intro unchanged
              rw [writeFields_of_unchanged op row false unchanged, unchanged]

/-! ## Replays at the edge -/

/-- Each operation is merged into what the one before has left in the columns. -/
def mergeAllStored (row : Option RegistryRow) (ops : List RowOp) : Option RegistryRow :=
  ops.foldl (fun row op => (Edge.mergeStored row op).1) row

/-- The edge merges what is left of the operations without the inherited names. -/
theorem mergeAllStored_eq (accepted : ∀ op ∈ ops, Edge.Accepted op)
    (plain : ∀ stored ∈ row, Edge.Plain stored) :
    mergeAllStored row ops = applyOps row (ops.map Edge.dropInherited) ∧
      ∀ stored ∈ mergeAllStored row ops, Edge.Plain stored := by
  induction ops generalizing row with
  | nil => exact ⟨rfl, plain⟩
  | cons op rest ih =>
      obtain ⟨opAccepted, restAccepted⟩ := List.forall_mem_cons.mp accepted
      obtain ⟨merged, mergedPlain⟩ := Edge.mergeStored_eq opAccepted plain
      rw [mergeAllStored, List.foldl_cons, merged]
      exact ih restAccepted mergedPlain

/-- An operation that has been delivered changes nothing when it is delivered once more at the
end exactly when it is turned away there.  At the edge the fields with inherited names do not
count, since they are never written. -/
theorem replay_unchanged_iff (ops : List RowOp) (op : RowOp) (occurs : op ∈ ops)
    (accepted : ∀ other ∈ ops, Edge.Accepted other) :
    (applyOp (applyOps none ops) op = (applyOps none ops, false) ↔ ReplayTurnedAway ops op) ∧
      (Edge.mergeStored (mergeAllStored none ops) op = (mergeAllStored none ops, false) ↔
        ReplayTurnedAway (ops.map Edge.dropInherited) (Edge.dropInherited op)) := by
  refine ⟨applyOp_replayed_iff ops op occurs, ?_⟩
  have fresh : ∀ stored ∈ (none : Option RegistryRow), Edge.Plain stored := nofun
  obtain ⟨merged, plain⟩ := mergeAllStored_eq accepted fresh
  rw [(Edge.mergeStored_eq (accepted op occurs) plain).1, merged]
  exact applyOp_replayed_iff _ _ (List.mem_map_of_mem occurs)

theorem accepted_titled {op : OpKind} {title : Json} {hlc : Hlc} (notDelete : op ≠ .delete)
    (valid : hlcRe hlc = true) :
    Edge.Accepted (.fieldWrite "chats" "c1" op (.ofList [("title", title)] compare) hlc) where
  kind := show Edge.kindRe "chats" = true by decide
  id := show Edge.idRe "c1" = true by decide
  hlc := valid
  delete_set isDelete := absurd isDelete notDelete
  fields field value found := by
    by_cases named : field = "title"
    · subst named
      decide
    · have absent : (Std.ExtTreeMap.ofList [("title", title)] compare)[field]? = none :=
        Std.ExtTreeMap.getElem?_ofList_of_contains_eq_false (by simpa using named)
      exact absurd (absent.symm.trans found) (by simp)
  clocks field clock found := by simp [RowOp.fieldWrite] at found

/-- Within one life a replay of the creation is turned away, in either merge. -/
theorem replay_unchanged_rename :
    let create := RowOp.fieldWrite "chats" "c1" .upsert
      (.ofList [("title", Json.str "draft")] compare) (encodeHlc 1 0 "a")
    let rename := RowOp.fieldWrite "chats" "c1" .update
      (.ofList [("title", Json.str "final")] compare) (encodeHlc 2 0 "b")
    ReplayTurnedAway [create, rename] create ∧
      ReplayTurnedAway ([create, rename].map Edge.dropInherited) (Edge.dropInherited create) := by
  intro create rename
  have accepted : ∀ other ∈ [create, rename], Edge.Accepted other :=
    List.forall_mem_cons.mpr ⟨accepted_titled (by decide) (by decide), fun other listed =>
      List.mem_singleton.mp listed ▸ accepted_titled (by decide) (by decide)⟩
  obtain ⟨engine, edge⟩ := replay_unchanged_iff [create, rename] create List.mem_cons_self accepted
  exact ⟨engine.mp (by decide +kernel), edge.mp (by decide +kernel)⟩

/-- A chat is created with a title, deleted, and created again without one.
The first creation, delivered once more, writes the old title into the row, in either merge. -/
theorem replay_writes_old_title :
    let create := RowOp.fieldWrite "chats" "c1" .upsert
      (.ofList [("title", Json.str "draft")] compare) (encodeHlc 1 0 "a")
    let remove := RowOp.rowDelete "chats" "c1" (encodeHlc 2 0 "b")
    let recreate := RowOp.fieldWrite "chats" "c1" .upsert
      (.ofList [("pinned", Json.bool true)] compare) (encodeHlc 3 0 "c")
    let ops := [create, remove, recreate]
    create ∈ ops ∧ (ops.map RowOp.hlc).Nodup ∧ (∀ op ∈ ops, hlcRe op.hlc = true) ∧
      (applyOps none ops).map (·.fields[("title" : String)]?) = some none ∧
      (applyOp (applyOps none ops) create).2 = true ∧
      (applyOp (applyOps none ops) create).1.map (·.fields[("title" : String)]?) =
        some (some (.str "draft")) ∧
      (mergeAllStored none ops).map (·.fields[("title" : String)]?) = some none ∧
      (Edge.mergeStored (mergeAllStored none ops) create).1.map
        (·.fields[("title" : String)]?) = some (some (.str "draft")) := by
  decide +kernel

end Zeron.Registry

/-!
## Versions of a row

The versions a row went through under a sequence of operations, and what the
last one keeps of the others: no clock on an earlier version is newer than the
newest clock of the last, and tombstone clocks are never lost.
-/

namespace Zeron.Registry

/-- The row is a version that the operations went through. -/
def InHistory (ops : List RowOp) (row : RegistryRow) : Prop :=
  ∃ before, before <+: ops ∧ applyOps none before = some row

variable {ops : List RowOp} {row : RegistryRow}

theorem inHistory_final (reached : applyOps none ops = some row) : InHistory ops row :=
  ⟨ops, List.prefix_rfl, reached⟩

theorem inHistory_append_singleton_iff {op : RowOp} :
    InHistory (ops ++ [op]) row ↔
      InHistory ops row ∨ (applyOp (applyOps none ops) op).1 = some row := by
  unfold InHistory
  simp only [List.prefix_concat_iff, or_and_right, exists_or, exists_eq_left,
    applyOps_append_singleton, or_comm]

theorem InHistory.wellFormed (version : InHistory ops row) : row.WellFormed := by
  obtain ⟨before, _, reached⟩ := version
  exact applyOps_none_wellFormed before row reached

variable {clock : Hlc}

/-- The final version carries a clock at least as new as any on an earlier one. -/
theorem InHistory.covers {version row : RegistryRow} (inHistory : InHistory ops version)
    (reached : applyOps none ops = some row) (covered : version.Covers clock) :
    row.Covers clock := by
  obtain ⟨before, ⟨after, rfl⟩, versionReached⟩ := inHistory
  rw [applyOps_append, versionReached] at reached
  have formed : ∀ stored ∈ some version, stored.WellFormed := by
    rintro _ ⟨⟩
    exact applyOps_none_wellFormed before version versionReached
  obtain ⟨stored, found, covers⟩ := applyOps_coversAt after formed ⟨version, rfl, covered⟩
  rw [reached] at found
  cases found
  exact covers

/-- A tombstone clock is never lost or set back. -/
theorem applyOp_delHlc {op : RowOp} {row : Option RegistryRow} {next : RegistryRow}
    (before : ∀ stored ∈ row, stored.WellFormed) (reached : (applyOp row op).1 = some next)
    {stored : RegistryRow} (found : row = some stored)
    (covered : hlcNewer clock stored.delHlc = false) : hlcNewer clock next.delHlc = false := by
  have outcome := applyOp_outcome op row before
  generalize applyOp row op = result at outcome reached
  cases outcome with
  | ignored => cases found; cases reached; exact covered
  | planted => cases found
  | created => cases found
  | buried _ newer =>
      cases found
      cases reached
      have older := RegistryRow.covers_of_delHlc covered
      obtain ⟨newest, foundNewest, le⟩ := hlcNewer_eq_false_iff.mp older
      have lt : newest < op.hlc := hlcNewer_iff.mp newer newest foundNewest
      exact hlcNewer_some_eq_false_iff.mpr (le_trans le lt.le)
  | revived => cases found; cases reached; rwa [writeFields_delHlc]
  | merged => cases found; cases reached; rwa [writeFields_delHlc]

/-- The tombstone clock of an earlier version is covered by the final one's. -/
theorem InHistory.delHlc_covered {version row : RegistryRow} (inHistory : InHistory ops version)
    (reached : applyOps none ops = some row) (covered : hlcNewer clock version.delHlc = false) :
    hlcNewer clock row.delHlc = false := by
  induction ops using List.reverseRecOn generalizing row with
  | nil => cases reached
  | append_singleton ops op ih =>
      rw [applyOps_append_singleton] at reached
      rcases inHistory_append_singleton_iff.mp inHistory with earlier | final
      · have stored : (applyOps none ops).isSome = true := by
          obtain ⟨before, ⟨after, rfl⟩, versionReached⟩ := earlier
          rw [applyOps_append]
          have formed : ∀ stored ∈ applyOps none before, stored.WellFormed :=
            applyOps_none_wellFormed before
          exact applyOps_isSome after formed (by rw [versionReached]; rfl)
        obtain ⟨previous, found⟩ := Option.isSome_iff_exists.mp stored
        exact applyOp_delHlc (applyOps_none_wellFormed ops) reached found
          (ih earlier found)
      · rw [reached] at final
        cases final
        exact covered

/-- The tombstone clock of a row is that of a tombstone in its history. -/
theorem exists_tombstone_of_delHlc (reached : applyOps none ops = some row)
    (delHlc : row.delHlc = some clock) :
    ∃ tombstone, InHistory ops tombstone ∧ tombstone.deleted = true ∧
      tombstone.delHlc = some clock := by
  induction ops using List.reverseRecOn generalizing row with
  | nil => cases reached
  | append_singleton ops op ih =>
      have earlier : ∀ {previous : RegistryRow}, applyOps none ops = some previous →
          previous.delHlc = some clock → ∃ tombstone, InHistory (ops ++ [op]) tombstone ∧
            tombstone.deleted = true ∧ tombstone.delHlc = some clock := by
        intro previous found same
        obtain ⟨tombstone, version, dead, clockEq⟩ := ih found same
        exact ⟨tombstone, inHistory_append_singleton_iff.mpr (Or.inl version), dead, clockEq⟩
      by_cases dead : row.deleted = true
      · exact ⟨row, inHistory_final reached, dead, delHlc⟩
      · rw [applyOps_append_singleton] at reached
        have outcome := applyOp_outcome op _ (applyOps_none_wellFormed ops)
        generalize before : applyOps none ops = stored at outcome reached earlier
        generalize applyOp stored op = result at outcome reached
        cases outcome with
        | ignored => exact earlier reached delHlc
        | planted => cases reached; exact absurd rfl dead
        | buried => cases reached; exact absurd rfl dead
        | created => cases reached; rw [writeFields_delHlc] at delHlc; cases delHlc
        | revived => cases reached; rw [writeFields_delHlc] at delHlc; exact earlier rfl delHlc
        | merged => cases reached; rw [writeFields_delHlc] at delHlc; exact earlier rfl delHlc

/-- A tombstone beats every version that was live before it. -/
theorem tombstone_newer_than_live {row version : RegistryRow}
    (reached : applyOps none ops = some row) (dead : row.deleted = true)
    (delHlc : row.delHlc = some clock) (inHistory : InHistory ops version)
    (live : version.deleted = false) : hlcNewer clock version.maxClock = true := by
  induction ops using List.reverseRecOn generalizing row with
  | nil => cases reached
  | append_singleton ops op ih =>
      have notFinal : applyOps none (ops ++ [op]) ≠ some version := by
        intro final
        rw [reached] at final
        cases final
        exact absurd (dead.symm.trans live) (by decide)
      rw [applyOps_append_singleton] at reached notFinal
      have earlier : InHistory ops version :=
        (inHistory_append_singleton_iff.mp inHistory).resolve_right notFinal
      have outcome := applyOp_outcome op _ (applyOps_none_wellFormed ops)
      generalize before : applyOps none ops = stored at outcome reached
      generalize applyOp stored op = result at outcome reached
      cases outcome with
      | ignored => exact ih (before.trans reached) dead delHlc earlier
      | planted =>
          obtain ⟨prior, ⟨after, rfl⟩, versionReached⟩ := earlier
          have stored := applyOps_isSome after
            (applyOps_none_wellFormed prior) (by rw [versionReached]; rfl)
          rw [← applyOps_append, before] at stored
          cases stored
      | created => cases reached; rw [writeFields_deleted] at dead; cases dead
      | revived => cases reached; rw [writeFields_deleted] at dead; cases dead
      | merged _ wasLive =>
          cases reached
          rw [writeFields_deleted] at dead
          exact absurd (dead.symm.trans wasLive) (by decide)
      | buried _ newer =>
          cases reached
          cases delHlc
          refine hlcNewer_iff.mpr fun newest found => ?_
          have covered : version.Covers newest := by
            unfold RegistryRow.Covers
            rw [found]
            exact hlcNewer_some_eq_false_iff.mpr le_rfl
          obtain ⟨other, otherFound, le⟩ :=
            hlcNewer_eq_false_iff.mp (earlier.covers before covered)
          exact lt_of_le_of_lt le (hlcNewer_iff.mp newer other otherFound)

end Zeron.Registry
