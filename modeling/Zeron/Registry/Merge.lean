import Zeron.Lww.Cell
import Zeron.Registry.Row

/-!
# What a merge can do

One operation applied to a row has four outcomes: the row stays as it was, it
is tombstoned, it comes to life with only the operation's own fields, or it
stays alive and its fields merge.  The lemmas here describe each outcome once;
everything proved about sequences of operations goes through them.

A live row refines a family of last-writer-wins cells, one for each field.
-/

namespace Zeron.Registry

open Zeron.Data
open Zeron.Wire

namespace RegistryRow

/-! ## The newest clock of a row -/

private theorem foldl_newest (clocks : List Hlc) (start : Option Hlc) (clock : Hlc) :
    hlcNewer clock (clocks.foldl
        (fun max clock => if hlcNewer clock max then some clock else max) start) = false ↔
      hlcNewer clock start = false ∨ ∃ other ∈ clocks, clock ≤ other := by
  induction clocks generalizing start with
  | nil => simp
  | cons head rest ih =>
      rw [List.foldl_cons, ih]
      have step : hlcNewer clock (if hlcNewer head start then some head else start) = false ↔
          hlcNewer clock start = false ∨ clock ≤ head := by
        by_cases newer : hlcNewer head start = true
        · rw [if_pos newer]
          simp only [hlcNewer_eq_false_iff, Option.mem_def, Option.some.injEq, exists_eq_left']
          constructor
          · exact Or.inr
          · rintro (⟨stored, rfl, le⟩ | le)
            · exact le_trans le (hlcNewer_iff.mp newer stored rfl).le
            · exact le
        · have notNewer := Bool.eq_false_iff.mpr newer
          rw [if_neg newer]
          constructor
          · exact Or.inl
          · rintro (covered | le)
            · exact covered
            · obtain ⟨stored, rfl, headLe⟩ := hlcNewer_eq_false_iff.mp notNewer
              exact hlcNewer_eq_false_iff.mpr ⟨stored, rfl, le_trans le headLe⟩
      rw [step, or_assoc, List.exists_mem_cons_iff]

/-- A clock fails to beat the whole row exactly when it fails to beat the
tombstone clock or the clock of some field. -/
theorem not_newer_maxClock_iff (row : RegistryRow) (clock : Hlc) :
    hlcNewer clock row.maxClock = false ↔
      hlcNewer clock row.delHlc = false ∨
        ∃ field : String, hlcNewer clock row.clocks[field]? = false := by
  rw [maxClock, foldl_newest]
  apply or_congr_right
  constructor
  · rintro ⟨other, member, le⟩
    obtain ⟨field, lookup⟩ := mem_values_iff.mp member
    exact ⟨field, hlcNewer_eq_false_iff.mpr ⟨other, lookup, le⟩⟩
  · rintro ⟨field, covered⟩
    obtain ⟨other, lookup, le⟩ := hlcNewer_eq_false_iff.mp covered
    exact ⟨other, mem_values_iff.mpr ⟨field, lookup⟩, le⟩

/-- A clock beats the whole row exactly when it beats every clock on it. -/
theorem newer_maxClock_iff (row : RegistryRow) (clock : Hlc) :
    hlcNewer clock row.maxClock = true ↔
      hlcNewer clock row.delHlc = true ∧
        ∀ field : String, hlcNewer clock row.clocks[field]? = true := by
  have negated := not_congr (row.not_newer_maxClock_iff clock)
  simpa using negated

/-- The newest clock is one of the row's clocks. -/
theorem maxClock_mem {row : RegistryRow} {newest : Hlc} (found : row.maxClock = some newest) :
    row.delHlc = some newest ∨ ∃ field : String, row.clocks[field]? = some newest := by
  have covered : hlcNewer newest row.maxClock = false := by
    rw [found]
    simp
  have bound : ∀ other, (row.delHlc = some other ∨
      ∃ field : String, row.clocks[field]? = some other) → other ≤ newest := by
    intro other source
    have otherCovered : hlcNewer other row.maxClock = false := by
      apply (row.not_newer_maxClock_iff other).mpr
      rcases source with tombstone | ⟨field, lookup⟩
      · exact Or.inl (hlcNewer_eq_false_iff.mpr ⟨other, tombstone, le_rfl⟩)
      · exact Or.inr ⟨field, hlcNewer_eq_false_iff.mpr ⟨other, lookup, le_rfl⟩⟩
    rwa [found, hlcNewer_some_eq_false_iff] at otherCovered
  rcases (row.not_newer_maxClock_iff newest).mp covered with tombstone | ⟨field, lookup⟩
  · obtain ⟨other, found, le⟩ := hlcNewer_eq_false_iff.mp tombstone
    rw [le_antisymm le (bound other (Or.inl found))]
    exact Or.inl found
  · obtain ⟨other, found, le⟩ := hlcNewer_eq_false_iff.mp lookup
    rw [le_antisymm le (bound other (Or.inr ⟨field, found⟩))]
    exact Or.inr ⟨field, found⟩

end RegistryRow

/-! ## Field writes -/

section WriteFields

variable (op : RowOp) (base : RegistryRow) (created : Bool)

/-- The writes of an operation, as a map. -/
def RowOp.writes (op : RowOp) : FieldMap Json :=
  op.set.getD ∅

theorem writeField_of_newer {state : RegistryRow × Bool} {field : String} (value : Json)
    (newer : hlcNewer (op.clockFor field) state.1.clocks[field]? = true) :
    writeField op state field value =
      ({ state.1 with
          fields := if value.isNull then state.1.fields.erase field
            else state.1.fields.insert field value
          clocks := state.1.clocks.insert field (op.clockFor field) }, true) :=
  if_pos newer

theorem writeField_of_not_newer {state : RegistryRow × Bool} {field : String} (value : Json)
    (older : hlcNewer (op.clockFor field) state.1.clocks[field]? = false) :
    writeField op state field value = state :=
  if_neg (Bool.eq_false_iff.mp older)

private theorem writeField_frame (state : RegistryRow × Bool) (field : String) (value : Json) :
    let next := writeField op state field value
    (next.1.kind, next.1.id, next.1.seq, next.1.deleted, next.1.delHlc) =
      (state.1.kind, state.1.id, state.1.seq, state.1.deleted, state.1.delHlc) := by
  cases newer : hlcNewer (op.clockFor field) state.1.clocks[field]? with
  | true => rw [writeField_of_newer op value newer]
  | false => rw [writeField_of_not_newer op value newer]

private theorem foldl_writeField_frame (entries : List (String × Json))
    (state : RegistryRow × Bool) :
    let final := entries.foldl (fun state entry => writeField op state entry.1 entry.2) state
    (final.1.kind, final.1.id, final.1.seq, final.1.deleted, final.1.delHlc) =
      (state.1.kind, state.1.id, state.1.seq, state.1.deleted, state.1.delHlc) := by
  induction entries generalizing state with
  | nil => rfl
  | cons entry rest ih =>
      exact (ih _).trans (writeField_frame op state entry.1 entry.2)

/-- Field writes touch only fields and clocks. -/
theorem writeFields_frame :
    let written := (writeFields op base created).1
    written.kind = base.kind ∧ written.id = base.id ∧ written.seq = base.seq ∧
      written.deleted = base.deleted ∧ written.delHlc = base.delHlc := by
  have frame := foldl_writeField_frame op op.writes.toList (base, created)
  simp only [Prod.mk.injEq] at frame
  simp only [writeFields, Std.ExtTreeMap.foldl_eq_foldl_toList]
  exact frame

@[simp]
theorem writeFields_kind : (writeFields op base created).1.kind = base.kind :=
  (writeFields_frame op base created).1

@[simp]
theorem writeFields_id : (writeFields op base created).1.id = base.id :=
  (writeFields_frame op base created).2.1

@[simp]
theorem writeFields_seq : (writeFields op base created).1.seq = base.seq :=
  (writeFields_frame op base created).2.2.1

@[simp]
theorem writeFields_deleted : (writeFields op base created).1.deleted = base.deleted :=
  (writeFields_frame op base created).2.2.2.1

@[simp]
theorem writeFields_delHlc : (writeFields op base created).1.delHlc = base.delHlc :=
  (writeFields_frame op base created).2.2.2.2

/-- After the writes each field the operation sets has kept its clock or taken
the operation's, whichever is newer; the other fields are untouched. -/
theorem writeFields_view (field : String) :
    ((writeFields op base created).1.clocks[field]?,
        (writeFields op base created).1.fields[field]?) =
      match op.writes[field]? with
      | some value =>
          if hlcNewer (op.clockFor field) base.clocks[field]? then
            (some (op.clockFor field), if value.isNull then none else some value)
          else (base.clocks[field]?, base.fields[field]?)
      | none => (base.clocks[field]?, base.fields[field]?) := by
  have view := foldl_view (fun state : RegistryRow × Bool => fun field : String =>
      (state.1.clocks[field]?, state.1.fields[field]?)) (writeField op)
    (fun field value cell =>
      if hlcNewer (op.clockFor field) cell.1 then
        (some (op.clockFor field), if value.isNull then none else some value)
      else cell) ?written ?frame op.writes (base, created) field
  · change ((op.writes.foldl (writeField op) (base, created)).1.clocks[field]?,
      (op.writes.foldl (writeField op) (base, created)).1.fields[field]?) = _
    rw [view]
    cases op.writes[field]? <;> rfl
  case written =>
    intro state field value
    cases newer : hlcNewer (op.clockFor field) state.1.clocks[field]? with
    | true =>
        rw [writeField_of_newer op value newer]
        by_cases isNull : value.isNull = true <;> simp [isNull]
    | false =>
        rw [writeField_of_not_newer op value newer]
        simp
  case frame =>
    intro state field value other different
    cases newer : hlcNewer (op.clockFor field) state.1.clocks[field]? with
    | true =>
        rw [writeField_of_newer op value newer]
        by_cases isNull : value.isNull = true <;>
          simp [isNull, getElem?_erase_eq, getElem?_insert_ne _ different, different]
    | false => rw [writeField_of_not_newer op value newer]

theorem writeFields_clocks (field : String) :
    (writeFields op base created).1.clocks[field]? =
      if op.writes[field]?.isSome && hlcNewer (op.clockFor field) base.clocks[field]? then
        some (op.clockFor field)
      else base.clocks[field]? := by
  have view := congrArg Prod.fst (writeFields_view op base created field)
  simp only at view
  rw [view]
  cases op.writes[field]? with
  | none => rfl
  | some value => by_cases newer : hlcNewer (op.clockFor field) base.clocks[field]? <;> simp [newer]

private theorem foldl_writeField_changed (entries : List (String × Json))
    (distinct : entries.Pairwise fun first second => first.1 ≠ second.1)
    (state : RegistryRow × Bool) :
    (entries.foldl (fun state entry => writeField op state entry.1 entry.2) state).2 = false ↔
      state.2 = false ∧ ∀ entry ∈ entries,
        hlcNewer (op.clockFor entry.1) state.1.clocks[entry.1]? = false := by
  induction entries generalizing state with
  | nil => simp
  | cons entry rest ih =>
      obtain ⟨headDistinct, restDistinct⟩ := List.pairwise_cons.mp distinct
      rw [List.foldl_cons, ih restDistinct, List.forall_mem_cons]
      have restClocks : ∀ other ∈ rest,
          (writeField op state entry.1 entry.2).1.clocks[other.1]? =
            state.1.clocks[other.1]? := by
        intro other member
        cases newer : hlcNewer (op.clockFor entry.1) state.1.clocks[entry.1]? with
        | true =>
            rw [writeField_of_newer op _ newer]
            exact getElem?_insert_ne _ (headDistinct other member) _
        | false => rw [writeField_of_not_newer op _ newer]
      have restIff : (∀ other ∈ rest, hlcNewer (op.clockFor other.1)
            (writeField op state entry.1 entry.2).1.clocks[other.1]? = false) ↔
          ∀ other ∈ rest, hlcNewer (op.clockFor other.1) state.1.clocks[other.1]? = false :=
        forall₂_congr fun other member => by rw [restClocks other member]
      rw [restIff, ← and_assoc]
      apply and_congr_left'
      cases newer : hlcNewer (op.clockFor entry.1) state.1.clocks[entry.1]? with
      | true => simp [writeField_of_newer op entry.2 newer]
      | false => simp [writeField_of_not_newer op entry.2 newer]

/-- Nothing was written exactly when no write beats the clock stored for its
field. -/
theorem writeFields_changed_eq_false_iff :
    (writeFields op base created).2 = false ↔
      created = false ∧ ∀ (field : String) (value : Json), op.writes[field]? = some value →
        hlcNewer (op.clockFor field) base.clocks[field]? = false := by
  simp only [writeFields, Std.ExtTreeMap.foldl_eq_foldl_toList]
  rw [show op.set.getD ∅ = op.writes from rfl,
    foldl_writeField_changed op _ (toList_pairwise_ne op.writes)]
  simp only [Prod.forall, Std.ExtTreeMap.mem_toList_iff_getElem?_eq_some]

/-- When nothing was written the row is the base. -/
theorem writeFields_of_unchanged (unchanged : (writeFields op base created).2 = false) :
    (writeFields op base created).1 = base := by
  have quiet := ((writeFields_changed_eq_false_iff op base created).mp unchanged).2
  have view : ∀ field : String,
      ((writeFields op base created).1.clocks[field]?,
        (writeFields op base created).1.fields[field]?) =
      (base.clocks[field]?, base.fields[field]?) := by
    intro field
    rw [writeFields_view]
    cases lookup : op.writes[field]? with
    | none => rfl
    | some value => simp [quiet field value lookup]
  have clocksEq : (writeFields op base created).1.clocks = base.clocks :=
    Std.ExtTreeMap.ext_getElem? fun field => congrArg Prod.fst (view field)
  have fieldsEq : (writeFields op base created).1.fields = base.fields :=
    Std.ExtTreeMap.ext_getElem? fun field => congrArg Prod.snd (view field)
  obtain ⟨kind, id, seq, deleted, delHlc⟩ := writeFields_frame op base created
  generalize (writeFields op base created).1 = written at *
  cases written
  cases base
  simp_all

/-- Creating or reviving a row is a change even without a field write. -/
theorem writeFields_created : (writeFields op base true).2 = true := by
  by_contra unchanged
  have quiet := (writeFields_changed_eq_false_iff op base true).mp
    (Bool.eq_false_iff.mpr unchanged)
  exact absurd quiet.1 (by decide)

end WriteFields

/-! ## The outcomes -/

variable {clock : Hlc}

namespace RegistryRow

/-- The tombstone a delete leaves behind. -/
def bury (row : RegistryRow) (hlc : Hlc) : RegistryRow :=
  { row with deleted := true, delHlc := some hlc, fields := ∅, clocks := ∅ }

/-- The empty live row a revival starts from. -/
def revive (row : RegistryRow) : RegistryRow :=
  { row with deleted := false, fields := ∅, clocks := ∅ }

/-- Every field has a clock and a value other than `null`, and a tombstone has
its own clock and no fields. -/
structure WellFormed (row : RegistryRow) : Prop where
  clocked : ∀ field : String, row.clocks[field]? = none → row.fields[field]? = none
  not_null : ∀ (field : String) (value : Json), row.fields[field]? = some value →
    value.isNull = false
  tombstone_fields : row.deleted = true → row.fields = ∅
  tombstone_clocks : row.deleted = true → row.clocks = ∅
  tombstone_delHlc : row.deleted = true → row.delHlc.isSome = true

/-- The row carries a clock at least as new as `clock`. -/
def Covers (row : RegistryRow) (clock : Hlc) : Prop :=
  hlcNewer clock row.maxClock = false

theorem WellFormed.blank (kind id : String) : (RegistryRow.blank kind id).WellFormed where
  clocked _ _ := Std.ExtTreeMap.getElem?_empty
  not_null field value found := absurd found (by simp [RegistryRow.blank])
  tombstone_fields _ := rfl
  tombstone_clocks _ := rfl
  tombstone_delHlc dead := absurd dead (by simp [RegistryRow.blank])

theorem WellFormed.tombstone (kind id : String) (hlc : Hlc) :
    (RegistryRow.tombstone kind id hlc).WellFormed where
  clocked _ _ := Std.ExtTreeMap.getElem?_empty
  not_null field value found := absurd found (by simp [RegistryRow.tombstone])
  tombstone_fields _ := rfl
  tombstone_clocks _ := rfl
  tombstone_delHlc _ := rfl

theorem WellFormed.bury (row : RegistryRow) (hlc : Hlc) : (row.bury hlc).WellFormed where
  clocked _ _ := Std.ExtTreeMap.getElem?_empty
  not_null field value found := absurd found (by simp [RegistryRow.bury])
  tombstone_fields _ := rfl
  tombstone_clocks _ := rfl
  tombstone_delHlc _ := rfl

theorem WellFormed.revive (row : RegistryRow) : row.revive.WellFormed where
  clocked _ _ := Std.ExtTreeMap.getElem?_empty
  not_null field value found := absurd found (by simp [RegistryRow.revive])
  tombstone_fields _ := rfl
  tombstone_clocks _ := rfl
  tombstone_delHlc dead := absurd dead (by simp [RegistryRow.revive])

/-- Field writes keep a live row well formed. -/
theorem WellFormed.writeFields {base : RegistryRow} (wellFormed : base.WellFormed)
    (live : base.deleted = false) (op : RowOp) (created : Bool) :
    (Registry.writeFields op base created).1.WellFormed := by
  have stillLive : (Registry.writeFields op base created).1.deleted ≠ true := by
    rw [writeFields_deleted, live]
    decide
  refine ⟨fun field noClock => ?_, fun field value found => ?_,
    fun dead => absurd dead stillLive, fun dead => absurd dead stillLive,
    fun dead => absurd dead stillLive⟩
  · have view := writeFields_view op base created field
    rw [noClock] at view
    cases lookup : op.writes[field]? with
    | none =>
        rw [lookup] at view
        obtain ⟨clockEq, fieldEq⟩ := Prod.mk.inj view
        rw [fieldEq]
        exact wellFormed.clocked field clockEq.symm
    | some value =>
        rw [lookup] at view
        simp only at view
        split at view
        · simp at view
        · obtain ⟨clockEq, fieldEq⟩ := Prod.mk.inj view
          rw [fieldEq]
          exact wellFormed.clocked field clockEq.symm
  · have view := congrArg Prod.snd (writeFields_view op base created field)
    simp only [found] at view
    cases lookup : op.writes[field]? with
    | none =>
        rw [lookup] at view
        exact wellFormed.not_null field value view.symm
    | some written =>
        simp only [lookup] at view
        split at view
        · split at view
          · cases view
          · obtain rfl : value = written := Option.some.inj view
            exact Bool.eq_false_iff.mpr ‹_›
        · exact wellFormed.not_null field value view.symm

variable {row : RegistryRow}

/-- A tombstone's newest clock is its tombstone clock. -/
theorem WellFormed.not_newer_tombstone_iff (wellFormed : row.WellFormed)
    (dead : row.deleted = true) (clock : Hlc) :
    hlcNewer clock row.maxClock = false ↔ hlcNewer clock row.delHlc = false := by
  rw [not_newer_maxClock_iff, wellFormed.tombstone_clocks dead]
  simp

theorem covers_of_delHlc (older : hlcNewer clock row.delHlc = false) : row.Covers clock :=
  (row.not_newer_maxClock_iff clock).mpr (Or.inl older)

theorem covers_of_clock {field : String} (older : hlcNewer clock row.clocks[field]? = false) :
    row.Covers clock :=
  (row.not_newer_maxClock_iff clock).mpr (Or.inr ⟨field, older⟩)

end RegistryRow

/-- What an operation can do to a row: the result and the `changed` flag. -/
inductive Outcome (op : RowOp) : Option RegistryRow → Option RegistryRow × Bool → Prop
  | ignored (row : Option RegistryRow) : Outcome op row (row, false)
  | planted (isDelete : op.op = .delete) :
      Outcome op none (some (.tombstone op.kind op.id op.hlc), true)
  | buried {row : RegistryRow} (isDelete : op.op = .delete)
      (newer : hlcNewer op.hlc row.maxClock = true) :
      Outcome op (some row) (some (row.bury op.hlc), true)
  | created (isUpsert : op.op = .upsert) :
      Outcome op none (some (writeFields op (.blank op.kind op.id) true).1, true)
  | revived {row : RegistryRow} (isUpsert : op.op = .upsert) (dead : row.deleted = true)
      (newer : hlcNewer op.hlc row.delHlc = true) :
      Outcome op (some row) (some (writeFields op row.revive true).1, true)
  | merged {row : RegistryRow} (notDelete : op.op ≠ .delete) (live : row.deleted = false)
      (wrote : (writeFields op row false).2 = true) :
      Outcome op (some row) (some (writeFields op row false).1, true)

section ApplyOp

variable {op : RowOp} {row : RegistryRow}

theorem applyOp_delete_none (isDelete : op.op = .delete) :
    applyOp none op = (some (.tombstone op.kind op.id op.hlc), true) := by
  simp [applyOp, applyDelete, isDelete]

theorem applyOp_delete_some (isDelete : op.op = .delete) (wellFormed : row.WellFormed) :
    applyOp (some row) op =
      if hlcNewer op.hlc row.maxClock then (some (row.bury op.hlc), true)
      else (some row, false) := by
  have beats : (if row.deleted = true then hlcNewer op.hlc row.delHlc
      else hlcNewer op.hlc row.maxClock) = hlcNewer op.hlc row.maxClock := by
    split
    · have same := wellFormed.not_newer_tombstone_iff ‹_› op.hlc
      cases newest : hlcNewer op.hlc row.maxClock with
      | false => exact same.mp newest
      | true =>
          cases tombstone : hlcNewer op.hlc row.delHlc with
          | true => rfl
          | false => rw [same.mpr tombstone] at newest; cases newest
    · rfl
  simp only [applyOp, applyDelete, if_pos isDelete, beats]
  rfl

theorem applyOp_update_none (isUpdate : op.op = .update) : applyOp none op = (none, false) := by
  simp [applyOp, writeBase, isUpdate]

/-- Where the fields are reached, the result is the field writes. -/
theorem applyOp_of_writeBase {stored : Option RegistryRow} {base : RegistryRow} {created : Bool}
    (notDelete : op.op ≠ .delete) (reached : writeBase stored op = .ok base)
    (createdEq : (stored.isNone || (stored.any (·.deleted) && !base.deleted)) = created)
    (live : base.deleted = false) :
    applyOp stored op =
      (some (writeFields op base created).1, (writeFields op base created).2) := by
  have stillLive : { (writeFields op base created).1 with deleted := false } =
      (writeFields op base created).1 := by
    have same : (writeFields op base created).1.deleted = false :=
      (writeFields_deleted op base created).trans live
    rw [← same]
  simp only [applyOp, if_neg notDelete, reached, createdEq, stillLive]
  split
  · exact congrArg _ (Eq.symm ‹_›)
  · exact congrArg _ (Bool.eq_false_iff.mpr ‹_›).symm

theorem applyOp_upsert_none (isUpsert : op.op = .upsert) :
    applyOp none op = (some (writeFields op (.blank op.kind op.id) true).1, true) := by
  have reached : writeBase none op = .ok (.blank op.kind op.id) := by
    simp [writeBase, isUpsert]
  rw [applyOp_of_writeBase (by simp [isUpsert]) reached rfl rfl]
  exact congrArg _ (writeFields_created op _)

theorem applyOp_update_tombstone (isUpdate : op.op = .update) (dead : row.deleted = true) :
    applyOp (some row) op = (some row, false) := by
  simp [applyOp, writeBase, isUpdate, dead]

theorem applyOp_upsert_tombstone (isUpsert : op.op = .upsert) (dead : row.deleted = true) :
    applyOp (some row) op =
      if hlcNewer op.hlc row.delHlc then (some (writeFields op row.revive true).1, true)
      else (some row, false) := by
  cases newer : hlcNewer op.hlc row.delHlc with
  | false => simp [applyOp, writeBase, isUpsert, dead, newer]
  | true =>
      have reached : writeBase (some row) op = .ok row.revive := by
        simp [writeBase, isUpsert, dead, newer, RegistryRow.revive]
      have created : ((some row).isNone || ((some row).any (·.deleted) && !row.revive.deleted)) =
          true := by
        simp [dead, RegistryRow.revive]
      rw [applyOp_of_writeBase (by simp [isUpsert]) reached created rfl]
      exact congrArg _ (writeFields_created op _)

theorem applyOp_live (notDelete : op.op ≠ .delete) (live : row.deleted = false) :
    applyOp (some row) op =
      (some (writeFields op row false).1, (writeFields op row false).2) := by
  have reached : writeBase (some row) op = .ok row := by
    simp [writeBase, live]
  have created : ((some row).isNone || ((some row).any (·.deleted) && !row.deleted)) = false := by
    simp [live]
  exact applyOp_of_writeBase notDelete reached created live

theorem outcome_live (notDelete : op.op ≠ .delete) (live : row.deleted = false) :
    Outcome op (some row) (applyOp (some row) op) := by
  rw [applyOp_live notDelete live]
  cases wrote : (writeFields op row false).2 with
  | true => exact .merged notDelete live wrote
  | false =>
      rw [writeFields_of_unchanged op row false wrote]
      exact .ignored _

/-- Every application of an operation to a well-formed row is one of the
outcomes. -/
theorem applyOp_outcome (op : RowOp) (row : Option RegistryRow)
    (wellFormed : ∀ stored ∈ row, stored.WellFormed) : Outcome op row (applyOp row op) := by
  cases kind : op.op with
  | delete =>
      cases row with
      | none => rw [applyOp_delete_none kind]; exact .planted kind
      | some row =>
          rw [applyOp_delete_some kind (wellFormed row rfl)]
          split
          · exact .buried kind ‹_›
          · exact .ignored _
  | update =>
      cases row with
      | none => rw [applyOp_update_none kind]; exact .ignored _
      | some row =>
          cases dead : row.deleted with
          | true => rw [applyOp_update_tombstone kind dead]; exact .ignored _
          | false => exact outcome_live (by simp [kind]) dead
  | upsert =>
      cases row with
      | none => rw [applyOp_upsert_none kind]; exact .created kind
      | some row =>
          cases dead : row.deleted with
          | true =>
              rw [applyOp_upsert_tombstone kind dead]
              split
              · exact .revived kind dead ‹_›
              · exact .ignored _
          | false => exact outcome_live (by simp [kind]) dead

end ApplyOp

/-! ## What every merge keeps -/

/-- Some row is stored, and it carries a clock at least as new as `clock`. -/
def CoversAt (row : Option RegistryRow) (clock : Hlc) : Prop :=
  ∃ stored ∈ row, stored.Covers clock

namespace Outcome

variable {op : RowOp} {row : Option RegistryRow} {result : Option RegistryRow × Bool}

theorem wellFormed (outcome : Outcome op row result)
    (before : ∀ stored ∈ row, stored.WellFormed) : ∀ stored ∈ result.1, stored.WellFormed := by
  cases outcome with
  | ignored => exact before
  | planted => rintro _ ⟨⟩; exact .tombstone _ _ _
  | buried => rintro _ ⟨⟩; exact .bury _ _
  | created => rintro _ ⟨⟩; exact (RegistryRow.WellFormed.blank _ _).writeFields rfl _ _
  | revived => rintro _ ⟨⟩; exact (RegistryRow.WellFormed.revive _).writeFields rfl _ _
  | merged _ live => rintro _ ⟨⟩; exact (before _ rfl).writeFields live _ _

/-- A stored row stays stored. -/
theorem isSome (outcome : Outcome op row result) (stored : row.isSome = true) :
    result.1.isSome = true := by
  cases outcome with
  | ignored => exact stored
  | _ => rfl

/-- The newest clock of a row never goes back. -/
theorem coversAt (outcome : Outcome op row result) (before : ∀ stored ∈ row, stored.WellFormed)
    (covered : CoversAt row clock) :
    CoversAt result.1 clock := by
  cases outcome with
  | ignored => exact covered
  | planted => obtain ⟨_, ⟨⟩, _⟩ := covered
  | created => obtain ⟨_, ⟨⟩, _⟩ := covered
  | @buried row _ newer =>
      obtain ⟨_, ⟨⟩, older⟩ := covered
      refine ⟨_, rfl, RegistryRow.covers_of_delHlc ?_⟩
      obtain ⟨newest, found, le⟩ := hlcNewer_eq_false_iff.mp older
      have lt : newest < op.hlc := hlcNewer_iff.mp newer newest found
      exact hlcNewer_some_eq_false_iff.mpr (le_trans le lt.le)
  | @revived row _ dead _ =>
      obtain ⟨_, ⟨⟩, older⟩ := covered
      refine ⟨_, rfl, RegistryRow.covers_of_delHlc ?_⟩
      rw [writeFields_delHlc]
      exact ((before row rfl).not_newer_tombstone_iff dead clock).mp older
  | @merged row _ live _ =>
      obtain ⟨_, ⟨⟩, older⟩ := covered
      refine ⟨_, rfl, ?_⟩
      rcases (row.not_newer_maxClock_iff clock).mp older with tombstone | ⟨field, lookup⟩
      · apply RegistryRow.covers_of_delHlc
        rwa [writeFields_delHlc]
      · apply RegistryRow.covers_of_clock
        rw [writeFields_clocks _ _ _ field]
        split
        · rename_i wins
          obtain ⟨stored, found, le⟩ := hlcNewer_eq_false_iff.mp lookup
          have lt := hlcNewer_iff.mp (Bool.and_eq_true_iff.mp wins).2 stored found
          exact hlcNewer_some_eq_false_iff.mpr (le_trans le lt.le)
        · exact lookup

end Outcome

variable {row : Option RegistryRow}

/-- A merged row keeps its key. -/
theorem applyOp_key {op : RowOp} {next : RegistryRow} (formed : ∀ stored ∈ row, stored.WellFormed)
    (keyed : ∀ stored ∈ row, stored.key = op.key) (reached : (applyOp row op).1 = some next) :
    next.key = op.key := by
  have outcome := applyOp_outcome op row formed
  generalize applyOp row op = result at outcome reached
  cases outcome with
  | ignored => exact keyed next reached
  | planted => cases reached; rfl
  | @buried row =>
      cases reached
      have same := keyed row rfl
      simpa [RegistryRow.key, RegistryRow.bury] using same
  | created => cases reached; simp [RegistryRow.key, RowOp.key, RegistryRow.blank]
  | @revived row =>
      cases reached
      have same := keyed row rfl
      simpa [RegistryRow.key, RegistryRow.revive] using same
  | @merged row =>
      cases reached
      have same := keyed row rfl
      simpa [RegistryRow.key] using same

/-! ## Sequences of operations -/

@[simp]
theorem applyOps_nil (row : Option RegistryRow) : applyOps row [] = row :=
  rfl

@[simp]
theorem applyOps_cons (row : Option RegistryRow) (op : RowOp) (ops : List RowOp) :
    applyOps row (op :: ops) = applyOps (applyOp row op).1 ops :=
  rfl

theorem applyOps_append (row : Option RegistryRow) (first second : List RowOp) :
    applyOps row (first ++ second) = applyOps (applyOps row first) second :=
  List.foldl_append

theorem applyOp_wellFormed (op : RowOp) (before : ∀ stored ∈ row, stored.WellFormed) :
    ∀ stored ∈ (applyOp row op).1, stored.WellFormed :=
  (applyOp_outcome op row before).wellFormed before

theorem applyOps_wellFormed (ops : List RowOp) (before : ∀ stored ∈ row, stored.WellFormed) :
    ∀ stored ∈ applyOps row ops, stored.WellFormed := by
  induction ops generalizing row with
  | nil => exact before
  | cons op ops ih => exact ih (applyOp_wellFormed op before)

theorem applyOps_none_wellFormed (ops : List RowOp) :
    ∀ stored ∈ applyOps none ops, stored.WellFormed :=
  applyOps_wellFormed ops (by simp)

theorem applyOp_coversAt (op : RowOp) (before : ∀ stored ∈ row, stored.WellFormed)
    (covered : CoversAt row clock) :
    CoversAt (applyOp row op).1 clock :=
  (applyOp_outcome op row before).coversAt before covered

theorem applyOps_coversAt (ops : List RowOp) (before : ∀ stored ∈ row, stored.WellFormed)
    (covered : CoversAt row clock) :
    CoversAt (applyOps row ops) clock := by
  induction ops generalizing row with
  | nil => exact covered
  | cons op ops ih =>
      exact ih (applyOp_wellFormed op before) (applyOp_coversAt op before covered)

/-- A delete leaves its clock covered, whatever it found. -/
theorem applyOp_delete_coversAt {op : RowOp} (isDelete : op.op = .delete)
    (before : ∀ stored ∈ row, stored.WellFormed) :
    CoversAt (applyOp row op).1 op.hlc := by
  have ownClock : hlcNewer op.hlc (some op.hlc) = false :=
    hlcNewer_some_eq_false_iff.mpr le_rfl
  cases row with
  | none =>
      rw [applyOp_delete_none isDelete]
      exact ⟨_, rfl, RegistryRow.covers_of_delHlc ownClock⟩
  | some row =>
      rw [applyOp_delete_some isDelete (before row rfl)]
      split
      · exact ⟨_, rfl, RegistryRow.covers_of_delHlc ownClock⟩
      · exact ⟨row, rfl, Bool.eq_false_iff.mpr ‹_›⟩

/-! ## Refinement of last-writer-wins cells -/

/-- The cell of one field: its clock and its value, a cleared field having a
clock and no value. -/
def RegistryRow.cell (row : RegistryRow) (field : String) : Lww.Cell Hlc Json :=
  row.clocks[field]?.map fun clock => ⟨clock, row.fields[field]?⟩

/-- The operation's write to one field, if it has one. -/
def RowOp.writeTo (op : RowOp) (field : String) : Option (Lww.Write Hlc Json) :=
  op.writes[field]?.map fun value =>
    ⟨op.clockFor field, if value.isNull then none else some value⟩

/-- Writing fields puts the operation's write into each cell. -/
theorem cell_writeFields (op : RowOp) (base : RegistryRow) (created : Bool) (field : String) :
    (writeFields op base created).1.cell field =
      Lww.putAll (base.cell field) (op.writeTo field).toList := by
  have view := writeFields_view op base created field
  unfold RegistryRow.cell RowOp.writeTo
  cases lookup : op.writes[field]? with
  | none =>
      rw [lookup] at view
      obtain ⟨clockEq, fieldEq⟩ := Prod.mk.inj view
      rw [clockEq, fieldEq]
      rfl
  | some value =>
      rw [lookup] at view
      simp only at view
      simp only [Option.map_some, Option.toList_some, Lww.putAll_cons, Lww.putAll_nil]
      cases stored : base.clocks[field]? with
      | none =>
          rw [stored] at view
          obtain ⟨clockEq, fieldEq⟩ := Prod.mk.inj view
          rw [clockEq, fieldEq]
          rfl
      | some clock =>
          rw [stored] at view
          by_cases newer : clock < op.clockFor field
          · rw [if_pos (hlcNewer_some_iff.mpr newer)] at view
            obtain ⟨clockEq, fieldEq⟩ := Prod.mk.inj view
            rw [clockEq, fieldEq, Option.map_some, Option.map_some, Lww.put_of_lt newer]
          · have older : op.clockFor field ≤ clock := not_lt.mp newer
            rw [if_neg (Bool.eq_false_iff.mp (hlcNewer_some_eq_false_iff.mpr older))] at view
            obtain ⟨clockEq, fieldEq⟩ := Prod.mk.inj view
            rw [clockEq, fieldEq, Option.map_some, Lww.put_of_le older]

end Zeron.Registry
