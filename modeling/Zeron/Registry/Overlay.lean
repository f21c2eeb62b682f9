import Mathlib.Data.List.Induction
import Zeron.Registry.Doc

/-!
# Reads without a batch

A read replays the pending operations over the row held.  An operation may be
taken out of the replay without a trace in two cases: the row held carries it
already, so that replaying it changes nothing, or the operations that are
replayed after it hide everything it did.
-/

namespace Zeron.Registry

open Zeron.Data
open Zeron.Wire

/-! ## Replays keep what every operation keeps -/

variable {row : Option RegistryRow}

theorem applyOps_invariant (good : Option RegistryRow → Prop) {ops : List RowOp}
    (kept : ∀ op ∈ ops, ∀ row, good row → good (applyOp row op).1) (start : good row) :
    good (applyOps row ops) := by
  induction ops generalizing row with
  | nil => exact start
  | cons op rest ih =>
      obtain ⟨first, others⟩ := List.forall_mem_cons.mp kept
      exact ih others (first row start)

variable {op : RowOp}

/-- Without an upsert a row that is gone stays gone. -/
theorem applyOp_gone (notUpsert : op.op ≠ .upsert) (gone : ∀ stored ∈ row, stored.deleted = true) :
    ∀ next ∈ (applyOp row op).1, next.deleted = true := by
  cases kind : op.op with
  | upsert => exact absurd kind notUpsert
  | update =>
      cases row with
      | none => simp [applyOp_update_none kind]
      | some row =>
          rw [applyOp_update_tombstone kind (gone row rfl)]
          exact gone
  | delete =>
      cases row with
      | none =>
          rw [applyOp_delete_none kind]
          rintro _ ⟨⟩
          rfl
      | some row =>
          simp only [applyOp, kind, if_true, applyDelete]
          split <;> split <;> rintro _ ⟨⟩
          · rfl
          · exact gone row rfl
          · rfl
          · exact gone row rfl

theorem applyOps_gone {ops : List RowOp} (noUpsert : ∀ op ∈ ops, op.op ≠ .upsert)
    (gone : ∀ stored ∈ row, stored.deleted = true) :
    ∀ next ∈ applyOps row ops, next.deleted = true :=
  applyOps_invariant (fun row => ∀ stored ∈ row, stored.deleted = true)
    (fun op member _ => applyOp_gone (noUpsert op member)) gone

/-! ## Reads as replays -/

namespace RegistryDoc

/-- An operation leaves nothing only where there was nothing. -/
theorem overlayOp_eq (row : Option RegistryRow) (op : RowOp) :
    overlayOp row op = (applyOp row op).1 := by
  cases row with
  | none => exact Option.or_none
  | some row =>
      have stays : (applyOp (some row) op).1.isSome = true := by
        simp only [applyOp, applyDelete, writeBase]
        repeat' split
        all_goals first | rfl | grind
      obtain ⟨next, applied⟩ := Option.isSome_iff_exists.mp stays
      rw [overlayOp, applied]
      rfl

/-- A read is the replay of the pending operations, tombstones left out. -/
theorem overlayRow_eq (doc : RegistryDoc) (key : RowKey) :
    doc.overlayRow key =
      (applyOps doc.authoritative[key]? (doc.pendingOps key)).filter fun row => !row.deleted := by
  have same : overlayOp = fun row op => (applyOp row op).1 :=
    funext fun row => funext fun op => overlayOp_eq row op
  rw [overlayRow, same]
  rfl

end RegistryDoc

/-! ## Operations that the row carries -/

/-- Every field that the operation sets has a clock on the row at least as new. -/
def RowOp.WrittenOn (op : RowOp) (row : RegistryRow) : Prop :=
  ∀ (field : String) (value : Json), op.writes[field]? = some value →
    hlcNewer (op.clockFor field) row.clocks[field]? = false

/-- The row held carries the operation already, and no operation replayed
before it makes the row forget that. -/
inductive Carried (op : RowOp) (older : List RowOp) : Option RegistryRow → Prop
  | missing (isUpdate : op.op = .update) (uncreated : ∀ old ∈ older, old.op ≠ .upsert) :
      Carried op older none
  | deleted {row : RegistryRow} (isDelete : op.op = .delete) (covers : row.Covers op.hlc) :
      Carried op older (some row)
  | buried {row : RegistryRow} (dead : row.deleted = true) (notDelete : op.op ≠ .delete)
      (refused : op.op = .update ∨ hlcNewer op.hlc row.delHlc = false)
      (unrevived : ∀ old ∈ older, old.op = .upsert → hlcNewer old.hlc row.delHlc = false) :
      Carried op older (some row)
  | written {row : RegistryRow} (live : row.deleted = false) (notDelete : op.op ≠ .delete)
      (written : op.WrittenOn row)
      (undeleted : ∀ old ∈ older, old.op = .delete → row.Covers old.hlc) :
      Carried op older (some row)

/-- A tombstone at least as new as that of `row`. -/
structure StaysBuried (row next : RegistryRow) : Prop where
  formed : next.WellFormed
  dead : next.deleted = true
  delHlc : ∀ clock, hlcNewer clock row.delHlc = false → hlcNewer clock next.delHlc = false

theorem StaysBuried.applyOp {row : RegistryRow}
    (unrevived : op.op = .upsert → hlcNewer op.hlc row.delHlc = false)
    {stored : Option RegistryRow} (buried : ∃ next ∈ stored, StaysBuried row next) :
    ∃ next ∈ (applyOp stored op).1, StaysBuried row next := by
  obtain ⟨next, rfl, buried⟩ := buried
  have formed : ∀ other ∈ (some next), other.WellFormed := by rintro _ ⟨⟩; exact buried.formed
  have outcome := applyOp_outcome op (some next) formed
  have after := outcome.wellFormed formed
  generalize Registry.applyOp (some next) op = result at outcome after ⊢
  cases outcome with
  | ignored => exact ⟨next, rfl, buried⟩
  | buried _ newer =>
      refine ⟨_, rfl, after _ rfl, rfl, fun clock old => ?_⟩
      obtain ⟨other, found, le⟩ := hlcNewer_eq_false_iff.mp (buried.delHlc clock old)
      have lt := hlcNewer_iff.mp ((next.newer_maxClock_iff op.hlc).mp newer).1 other found
      exact hlcNewer_some_eq_false_iff.mpr (le_trans le lt.le)
  | revived isUpsert _ newer =>
      rw [buried.delHlc op.hlc (unrevived isUpsert)] at newer
      cases newer
  | merged _ live _ => rw [buried.dead] at live; cases live

/-- A live row whose clocks have only grown since `row`. -/
structure StaysLive (row next : RegistryRow) : Prop where
  formed : next.WellFormed
  live : next.deleted = false
  clocks : ∀ (field : String) (clock : Hlc), hlcNewer clock row.clocks[field]? = false →
    hlcNewer clock next.clocks[field]? = false
  covers : ∀ clock, row.Covers clock → next.Covers clock

theorem StaysLive.applyOp {row : RegistryRow} (undeleted : op.op = .delete → row.Covers op.hlc)
    {stored : Option RegistryRow} (lives : ∃ next ∈ stored, StaysLive row next) :
    ∃ next ∈ (applyOp stored op).1, StaysLive row next := by
  obtain ⟨next, rfl, lives⟩ := lives
  have formed : ∀ other ∈ (some next), other.WellFormed := by rintro _ ⟨⟩; exact lives.formed
  have outcome := applyOp_outcome op (some next) formed
  have after := outcome.wellFormed formed
  have grown : ∀ clock, CoversAt (some next) clock →
      CoversAt (Registry.applyOp (some next) op).1 clock :=
    fun _ => outcome.coversAt formed
  generalize Registry.applyOp (some next) op = result at outcome after grown ⊢
  cases outcome with
  | ignored => exact ⟨next, rfl, lives⟩
  | buried isDelete newer =>
      have covered : hlcNewer op.hlc next.maxClock = false := lives.covers _ (undeleted isDelete)
      rw [covered] at newer
      cases newer
  | revived _ dead _ => rw [lives.live] at dead; cases dead
  | merged _ live _ =>
      refine ⟨_, rfl, after _ rfl, (writeFields_deleted _ _ _).trans live, ?_, ?_⟩
      · intro field clock old
        have before := lives.clocks field clock old
        rw [writeFields_clocks]
        split
        · rename_i wins
          obtain ⟨stored, found, le⟩ := hlcNewer_eq_false_iff.mp before
          have lt := hlcNewer_iff.mp (Bool.and_eq_true_iff.mp wins).2 stored found
          exact hlcNewer_some_eq_false_iff.mpr (le_trans le lt.le)
        · exact before
      · intro clock old
        obtain ⟨_, ⟨⟩, covered⟩ := grown clock ⟨next, rfl, lives.covers clock old⟩
        exact covered

/-- Replayed after the older operations, a carried operation changes nothing. -/
theorem Carried.applyOp_eq {older : List RowOp} {held : Option RegistryRow}
    (carried : Carried op older held) (formed : ∀ stored ∈ held, stored.WellFormed) :
    (applyOp (applyOps held older) op).1 = applyOps held older := by
  cases carried with
  | missing isUpdate uncreated =>
      have gone : ∀ next ∈ applyOps none older, next.deleted = true :=
        applyOps_gone uncreated (by simp)
      cases stored : applyOps none older with
      | none => rw [applyOp_update_none isUpdate]
      | some next => rw [applyOp_update_tombstone isUpdate (gone next stored)]
  | @deleted row isDelete covers =>
      obtain ⟨next, found, covered⟩ := applyOps_coversAt older formed ⟨row, rfl, covers⟩
      have nextFormed := applyOps_wellFormed older formed next found
      rw [Option.mem_def.mp found, applyOp_delete_some isDelete nextFormed,
        if_neg (Bool.eq_false_iff.mp covered)]
  | @buried row dead notDelete refused unrevived =>
      have start : ∃ next ∈ some row, StaysBuried row next :=
        ⟨row, rfl, formed row rfl, dead, fun _ => id⟩
      obtain ⟨next, found, buried⟩ :=
        applyOps_invariant (fun stored => ∃ next ∈ stored, StaysBuried row next)
          (fun old member _ => StaysBuried.applyOp (unrevived old member)) start
      rw [Option.mem_def.mp found]
      cases kind : op.op with
      | delete => exact absurd kind notDelete
      | update => rw [applyOp_update_tombstone kind buried.dead]
      | upsert =>
          have notNewer := buried.delHlc op.hlc (refused.resolve_left (by simp [kind]))
          rw [applyOp_upsert_tombstone kind buried.dead, if_neg (Bool.eq_false_iff.mp notNewer)]
  | @written row live notDelete written undeleted =>
      have start : ∃ next ∈ some row, StaysLive row next :=
        ⟨row, rfl, formed row rfl, live, fun _ _ => id, fun _ => id⟩
      obtain ⟨next, found, lives⟩ :=
        applyOps_invariant (fun stored => ∃ next ∈ stored, StaysLive row next)
          (fun old member _ => StaysLive.applyOp (undeleted old member)) start
      have unchanged : (writeFields op next false).2 = false :=
        (writeFields_changed_eq_false_iff op next false).mpr
          ⟨rfl, fun field value sets => lives.clocks field _ (written field value sets)⟩
      rw [Option.mem_def.mp found, applyOp_live notDelete lives.live,
        writeFields_of_unchanged op next false unchanged]

/-! ## Operations that are written over later -/

/-- The later operation writes the field with a newer clock. -/
structure RowOp.Overwrites (later op : RowOp) (field : String) : Prop where
  notDelete : later.op ≠ .delete
  sets : ∃ value, later.writes[field]? = some value
  newer : op.clockFor field < later.clockFor field

/-- The rows differ in fields and clocks at most. -/
structure SameHead (row other : RegistryRow) : Prop where
  kind : other.kind = row.kind
  id : other.id = row.id
  seq : other.seq = row.seq
  deleted : other.deleted = row.deleted
  delHlc : other.delHlc = row.delHlc

namespace SameHead

variable {row other : RegistryRow} (head : SameHead row other)
include head

theorem ext (fields : other.fields = row.fields) (clocks : other.clocks = row.clocks) :
    other = row := by
  obtain ⟨kind, id, seq, deleted, delHlc⟩ := head
  cases row
  cases other
  simp_all

theorem bury (hlc : Hlc) : other.bury hlc = row.bury hlc := by
  obtain ⟨kind, id, seq, _, _⟩ := head
  simp only [RegistryRow.bury, RegistryRow.mk.injEq]
  exact ⟨kind, id, seq, trivial, trivial, trivial, trivial⟩

theorem writeFields (op : RowOp) :
    SameHead (writeFields op row false).1 (writeFields op other false).1 := by
  constructor <;> simp [head.kind, head.id, head.seq, head.deleted, head.delHlc]

end SameHead

/-- `other` is ahead of `row`, which descends from `held`, by writes of `op` to
the `ahead` fields. -/
structure AheadBy (op : RowOp) (held : RegistryRow) (ahead : String → Prop)
    (row other : RegistryRow) : Prop where
  lives : StaysLive held row
  formed : other.WellFormed
  head : SameHead row other
  sets : ∀ field, ahead field → ∃ value, op.writes[field]? = some value
  view : ∀ field : String,
    (other.clocks[field]?, other.fields[field]?) = (row.clocks[field]?, row.fields[field]?) ∨
      (ahead field ∧ other.clocks[field]? = some (op.clockFor field) ∧
        ∀ clock ∈ row.clocks[field]?, clock ≤ op.clockFor field)

section AheadBy

variable {op next : RowOp} {held row other : RegistryRow} {ahead : String → Prop}
  (aheadBy : AheadBy op held ahead row other)
include aheadBy

/-- What covers a clock on the row covers it on the one ahead. -/
theorem AheadBy.covers {clock : Hlc} (covers : row.Covers clock) : other.Covers clock := by
  rcases (row.not_newer_maxClock_iff clock).mp covers with tombstone | ⟨field, written⟩
  · exact RegistryRow.covers_of_delHlc (aheadBy.head.delHlc ▸ tombstone)
  · have writtenToo : hlcNewer clock other.clocks[field]? = false := by
      rcases aheadBy.view field with same | ⟨_, own, behind⟩
      · rw [(Prod.mk.inj same).1]
        exact written
      · obtain ⟨stored, found, le⟩ := hlcNewer_eq_false_iff.mp written
        rw [own]
        exact hlcNewer_some_eq_false_iff.mpr (le_trans le (behind stored found))
    exact RegistryRow.covers_of_clock writtenToo

/-- A delete newer than the row and than what the other is ahead by beats both. -/
theorem AheadBy.newer {clock : Hlc} (newer : hlcNewer clock row.maxClock = true)
    (above : ∀ (field : String) (value : Json), op.writes[field]? = some value →
      op.clockFor field < clock) : hlcNewer clock other.maxClock = true := by
  obtain ⟨tombstone, clocks⟩ := (row.newer_maxClock_iff clock).mp newer
  refine (other.newer_maxClock_iff clock).mpr ⟨aheadBy.head.delHlc ▸ tombstone, fun field => ?_⟩
  rcases aheadBy.view field with same | ⟨isAhead, own, _⟩
  · rw [(Prod.mk.inj same).1]
    exact clocks field
  · obtain ⟨value, sets⟩ := aheadBy.sets field isAhead
    rw [own]
    exact hlcNewer_some_iff.mpr (above field value sets)

theorem AheadBy.write (notDelete : next.op ≠ .delete) :
    AheadBy op held (fun field => ahead field ∧ ¬next.Overwrites op field)
      (writeFields next row false).1 (writeFields next other false).1 where
  lives := by
    have undeleted : next.op = .delete → held.Covers next.hlc := fun isDelete =>
      absurd isDelete notDelete
    obtain ⟨_, found, lives⟩ := StaysLive.applyOp undeleted ⟨row, rfl, aheadBy.lives⟩
    rw [applyOp_live notDelete aheadBy.lives.live] at found
    cases found
    exact lives
  formed := aheadBy.formed.writeFields (aheadBy.head.deleted.trans aheadBy.lives.live) next false
  head := aheadBy.head.writeFields next
  sets field still := aheadBy.sets field still.1
  view field := by
    rcases aheadBy.view field with same | ⟨isAhead, own, behind⟩
    · left
      obtain ⟨clocks, fields⟩ := Prod.mk.inj same
      rw [writeFields_view, writeFields_view, clocks, fields]
    · by_cases ended : next.Overwrites op field
      · left
        obtain ⟨value, sets⟩ := ended.sets
        have beatsRow : hlcNewer (next.clockFor field) row.clocks[field]? = true :=
          hlcNewer_iff.mpr fun clock found => lt_of_le_of_lt (behind clock found) ended.newer
        rw [writeFields_view, writeFields_view]
        simp only [sets, own, hlcNewer_some_iff.mpr ended.newer, beatsRow, if_true]
      · right
        refine ⟨⟨isAhead, ended⟩, ?_, ?_⟩
        · rw [writeFields_clocks, own, if_neg]
          intro wins
          obtain ⟨sets, newer⟩ := Bool.and_eq_true_iff.mp wins
          exact ended ⟨notDelete, Option.isSome_iff_exists.mp sets, hlcNewer_some_iff.mp newer⟩
        · rw [writeFields_clocks]
          split
          · rename_i wins
            rintro _ ⟨⟩
            obtain ⟨sets, _⟩ := Bool.and_eq_true_iff.mp wins
            exact not_lt.mp fun newer => ended ⟨notDelete, Option.isSome_iff_exists.mp sets, newer⟩
          · exact behind

end AheadBy

/-- A write puts its row ahead by what it has written. -/
theorem StaysLive.aheadBy_writeFields {held row : RegistryRow} (lives : StaysLive held row)
    (op : RowOp) :
    AheadBy op held (fun field => ∃ value, op.writes[field]? = some value ∧
        hlcNewer (op.clockFor field) row.clocks[field]? = true)
      row (writeFields op row false).1 where
  lives := lives
  formed := lives.formed.writeFields lives.live op false
  head := ⟨writeFields_kind .., writeFields_id .., writeFields_seq .., writeFields_deleted ..,
    writeFields_delHlc ..⟩
  sets _ isAhead := isAhead.imp fun _ => And.left
  view field := by
    have view := writeFields_view op row false field
    cases sets : op.writes[field]? with
    | none =>
        rw [sets] at view
        exact Or.inl view
    | some value =>
        cases newer : hlcNewer (op.clockFor field) row.clocks[field]? with
        | false =>
            left
            rw [view, sets]
            simp [newer]
        | true =>
            right
            refine ⟨⟨value, rfl, rfl⟩, ?_, fun clock found => ?_⟩
            · simpa [sets, newer] using congrArg Prod.fst view
            · exact (hlcNewer_iff.mp newer clock found).le

/-- Where every field that is ahead is written over, the difference is gone. -/
theorem AheadBy.applyOps_eq {held : RegistryRow} {later : List RowOp}
    (kept : ∀ next ∈ later, next.op = .delete → held.Covers next.hlc ∨
      ∀ (field : String) (value : Json), op.writes[field]? = some value →
        op.clockFor field < next.hlc) {ahead : String → Prop}
    (hidden : ∀ field, ahead field → ∃ next ∈ later, next.Overwrites op field)
    {row other : RegistryRow} (aheadBy : AheadBy op held ahead row other) :
    applyOps (some other) later = applyOps (some row) later := by
  induction later generalizing ahead row other with
  | nil =>
      have same : ∀ field : String, (other.clocks[field]?, other.fields[field]?) =
          (row.clocks[field]?, row.fields[field]?) := by
        intro field
        rcases aheadBy.view field with same | ⟨isAhead, _⟩
        · exact same
        · obtain ⟨_, member, _⟩ := hidden field isAhead
          cases member
      have clocks : other.clocks = row.clocks :=
        Std.ExtTreeMap.ext_getElem? fun field => (Prod.mk.inj (same field)).1
      have fields : other.fields = row.fields :=
        Std.ExtTreeMap.ext_getElem? fun field => (Prod.mk.inj (same field)).2
      rw [aheadBy.head.ext fields clocks]
  | cons next rest ih =>
      obtain ⟨keptFirst, keptRest⟩ := List.forall_mem_cons.mp kept
      have stillHidden : ∀ field, ahead field ∧ ¬next.Overwrites op field →
          ∃ next ∈ rest, next.Overwrites op field := by
        rintro field ⟨isAhead, notNow⟩
        obtain ⟨ended, member, overwrites⟩ := hidden field isAhead
        rcases List.mem_cons.mp member with rfl | inRest
        · exact absurd overwrites notNow
        · exact ⟨ended, inRest, overwrites⟩
      rw [applyOps_cons, applyOps_cons]
      by_cases isDelete : next.op = .delete
      · rw [applyOp_delete_some isDelete aheadBy.formed,
          applyOp_delete_some isDelete aheadBy.lives.formed]
        cases beats : hlcNewer next.hlc row.maxClock with
        | true =>
            have above := (keptFirst isDelete).resolve_left fun covers => by
              have covered : hlcNewer next.hlc row.maxClock = false := aheadBy.lives.covers _ covers
              rw [covered] at beats
              cases beats
            rw [aheadBy.newer beats above]
            simp only [if_true, aheadBy.head.bury]
        | false =>
            have covered : hlcNewer next.hlc other.maxClock = false := aheadBy.covers beats
            rw [covered]
            exact ih keptRest (fun field isAhead => stillHidden field
              ⟨isAhead, fun ended => ended.notDelete isDelete⟩) aheadBy
      · rw [applyOp_live isDelete aheadBy.lives.live,
          applyOp_live isDelete (aheadBy.head.deleted.trans aheadBy.lives.live)]
        exact ih keptRest stillHidden (aheadBy.write isDelete)

/-! ## Operations that are deleted over later -/

/-- All clocks of the operation are older than `clock`. -/
structure RowOp.Before (op : RowOp) (clock : Hlc) : Prop where
  hlc : op.hlc < clock
  writes : ∀ (field : String) (value : Json), op.writes[field]? = some value →
    op.clockFor field < clock

/-- A row under `key` and its `seq`, with no clock as new as `clock`. -/
structure Beneath (key : RowKey) (seq : Nat) (clock : Hlc) (row : RegistryRow) : Prop where
  formed : row.WellFormed
  key_eq : row.key = key
  seq_eq : row.seq = seq
  newer : hlcNewer clock row.maxClock = true

/-- The row as it stands before the last delete: beneath its clock, or missing. -/
def AllBeneath (key : RowKey) (seq : Nat) (clock : Hlc) : Option RegistryRow → Prop
  | some row => Beneath key seq clock row
  | none => seq = 0

section Beneath

variable {key : RowKey} {seq : Nat} {clock : Hlc} {op : RowOp}

theorem newer_writeFields {base : RegistryRow} (before : op.Before clock) (created : Bool)
    (newer : hlcNewer clock base.maxClock = true) :
    hlcNewer clock (writeFields op base created).1.maxClock = true := by
  obtain ⟨tombstone, clocks⟩ := (base.newer_maxClock_iff clock).mp newer
  refine (RegistryRow.newer_maxClock_iff _ clock).mpr ⟨?_, fun field => ?_⟩
  · rwa [writeFields_delHlc]
  · rw [writeFields_clocks]
    split
    · rename_i wins
      obtain ⟨value, sets⟩ := Option.isSome_iff_exists.mp (Bool.and_eq_true_iff.mp wins).1
      exact hlcNewer_some_iff.mpr (before.writes field value sets)
    · exact clocks field

theorem AllBeneath.applyOp (keyEq : op.key = key) (before : op.Before clock)
    (beneath : AllBeneath key seq clock row) :
    AllBeneath key seq clock (applyOp row op).1 := by
  have formed : ∀ stored ∈ row, stored.WellFormed := by
    rintro stored rfl
    exact beneath.formed
  have outcome := applyOp_outcome op row formed
  have after := outcome.wellFormed formed
  have keyAfter : ∀ next ∈ (Registry.applyOp row op).1, next.key = key := by
    intro next found
    refine (applyOp_key formed ?_ found).trans keyEq
    rintro stored rfl
    exact beneath.key_eq.trans keyEq.symm
  generalize Registry.applyOp row op = result at outcome after keyAfter ⊢
  have ownNewer : hlcNewer clock (some op.hlc) = true := hlcNewer_some_iff.mpr before.hlc
  cases outcome with
  | ignored => exact beneath
  | planted =>
      refine ⟨after _ rfl, keyAfter _ rfl, Eq.symm beneath, ?_⟩
      exact (RegistryRow.newer_maxClock_iff _ clock).mpr ⟨ownNewer, fun field => by
        simp [RegistryRow.tombstone]⟩
  | buried =>
      refine ⟨after _ rfl, keyAfter _ rfl, beneath.seq_eq, ?_⟩
      exact (RegistryRow.newer_maxClock_iff _ clock).mpr ⟨ownNewer, fun field => by
        simp [RegistryRow.bury]⟩
  | created =>
      refine ⟨after _ rfl, keyAfter _ rfl, ?_, newer_writeFields before true ?_⟩
      · rw [writeFields_seq]
        exact Eq.symm beneath
      · exact (RegistryRow.newer_maxClock_iff _ clock).mpr
          ⟨rfl, fun field => by simp [RegistryRow.blank]⟩
  | @revived row _ _ _ =>
      have old := ((row.newer_maxClock_iff clock).mp beneath.newer).1
      refine ⟨after _ rfl, keyAfter _ rfl, ?_, newer_writeFields before true ?_⟩
      · rw [writeFields_seq]
        exact beneath.seq_eq
      · exact (RegistryRow.newer_maxClock_iff _ clock).mpr
          ⟨old, fun field => by simp [RegistryRow.revive]⟩
  | merged =>
      refine ⟨after _ rfl, keyAfter _ rfl, ?_, newer_writeFields before false beneath.newer⟩
      rw [writeFields_seq]
      exact beneath.seq_eq

/-- A delete above everything leaves the same tombstone wherever it lands. -/
theorem AllBeneath.applyOp_delete (keyEq : op.key = key) (isDelete : op.op = .delete)
    (beneath : AllBeneath key seq op.hlc row) :
    (Registry.applyOp row op).1 =
      some { RegistryRow.tombstone key.kind key.id op.hlc with seq } := by
  subst keyEq
  cases row with
  | none =>
      rw [applyOp_delete_none isDelete, show seq = 0 from beneath]
      rfl
  | some row =>
      rw [applyOp_delete_some isDelete beneath.formed, beneath.newer]
      have kind : row.kind = op.kind := congrArg RowKey.kind beneath.key_eq
      have id : row.id = op.id := congrArg RowKey.id beneath.key_eq
      simp [RegistryRow.bury, RegistryRow.tombstone, RowOp.key, kind, id, beneath.seq_eq]

end Beneath

/-! ## Batches taken out of a replay -/

/-- The operations replayed after `op` hide everything it did. -/
inductive Hidden (op : RowOp) (older later : List RowOp) : Option RegistryRow → Prop
  | overwritten {row : RegistryRow} (live : row.deleted = false) (notDelete : op.op ≠ .delete)
      (undeleted : ∀ old ∈ older, old.op = .delete → row.Covers old.hlc)
      (kept : ∀ next ∈ later, next.op = .delete → row.Covers next.hlc ∨
        ∀ (field : String) (value : Json), op.writes[field]? = some value →
          op.clockFor field < next.hlc)
      (hidden : ∀ (field : String) (value : Json), op.writes[field]? = some value →
        hlcNewer (op.clockFor field) row.clocks[field]? = false ∨
          ∃ next ∈ later, next.Overwrites op field) : Hidden op older later (some row)
  | deleted {held : Option RegistryRow} (between rest : List RowOp) (last : RowOp)
      (later_eq : later = between ++ last :: rest) (isDelete : last.op = .delete)
      (newer : ∀ row ∈ held, hlcNewer last.hlc row.maxClock = true)
      (before : ∀ other ∈ older ++ op :: between, other.Before last.hlc) :
      Hidden op older later held

/-- Nothing of the operation shows, with or without it. -/
def Settled (op : RowOp) (older later : List RowOp) (held : Option RegistryRow) : Prop :=
  Carried op older held ∨ Hidden op older later held

section Settled

variable {op : RowOp} {older later : List RowOp} {held : Option RegistryRow}

/-- A settled operation may be left out of the replay. -/
theorem Settled.applyOps_eq (settled : Settled op older later held) {key : RowKey}
    (formed : ∀ row ∈ held, row.WellFormed) (keyed : ∀ row ∈ held, row.key = key)
    (keys : ∀ other ∈ older ++ op :: later, other.key = key) :
    applyOps held (older ++ op :: later) = applyOps held (older ++ later) := by
  rw [applyOps_append, applyOps_append, applyOps_cons]
  rcases settled with carried | hidden
  · rw [carried.applyOp_eq formed]
  · cases hidden with
    | @overwritten row live notDelete undeleted kept hidden =>
        have start : ∃ next ∈ some row, StaysLive row next :=
          ⟨row, rfl, formed row rfl, live, fun _ _ => id, fun _ => id⟩
        obtain ⟨next, found, lives⟩ :=
          applyOps_invariant (fun stored => ∃ next ∈ stored, StaysLive row next)
            (fun old member _ => StaysLive.applyOp (undeleted old member)) start
        rw [Option.mem_def.mp found, applyOp_live notDelete lives.live]
        refine AheadBy.applyOps_eq kept ?_ (lives.aheadBy_writeFields op)
        rintro field ⟨value, sets, newer⟩
        refine (hidden field value sets).resolve_left fun older => ?_
        rw [lives.clocks field _ older] at newer
        cases newer
    | deleted between rest last later_eq isDelete newer before =>
        subst later_eq
        have keyOf : ∀ other ∈ older ++ op :: between, other.key = key := fun other member =>
          keys other (by simp only [List.mem_append, List.mem_cons] at member ⊢; tauto)
        have lastKey : last.key = key := keys last (by simp)
        -- Everything up to the last delete stays beneath it, with `op` and without.
        have start : AllBeneath key ((held.map RegistryRow.seq).getD 0) last.hlc held := by
          cases held with
          | none => rfl
          | some row => exact ⟨formed row rfl, keyed row rfl, rfl, newer row rfl⟩
        have upTo : ∀ ops ⊆ older ++ op :: between,
            AllBeneath key ((held.map RegistryRow.seq).getD 0) last.hlc (applyOps held ops) :=
          fun ops inside => applyOps_invariant (AllBeneath key _ last.hlc)
            (fun other member _ => AllBeneath.applyOp (keyOf other (inside member))
              (before other (inside member))) start
        have withOp := (upTo _ (List.Subset.refl _)).applyOp_delete lastKey isDelete
        have without := (upTo (older ++ between) (by
          intro other member
          simp only [List.mem_append] at member ⊢
          tauto)).applyOp_delete lastKey isDelete
        rw [applyOps_append, applyOps_cons] at withOp
        rw [applyOps_append] at without
        rw [applyOps_append, applyOps_append, applyOps_cons, applyOps_cons, withOp, without]

/-- So a list of operations may be, the last one first. -/
theorem applyOps_without {mine : List RowOp} {key : RowKey}
    (settled : ∀ first op second, mine = first ++ op :: second →
      Settled op (older ++ first) later held)
    (formed : ∀ row ∈ held, row.WellFormed) (keyed : ∀ row ∈ held, row.key = key)
    (keys : ∀ other ∈ older ++ (mine ++ later), other.key = key) :
    applyOps held (older ++ (mine ++ later)) = applyOps held (older ++ later) := by
  induction mine using List.reverseRecOn with
  | nil => rfl
  | append_singleton first op ih =>
      have lastSettled := settled first op [] rfl
      have lastKeys : ∀ other ∈ (older ++ first) ++ op :: later, other.key = key := by
        intro other member
        apply keys other
        simpa only [List.append_assoc, List.singleton_append] using member
      have drop := lastSettled.applyOps_eq formed keyed lastKeys
      have rest := ih
        (fun start other second split => settled start other (second ++ [op]) (by
          rw [split, List.append_assoc, List.cons_append]))
        (fun other member => keys other (by
          simp only [List.mem_append] at member ⊢
          tauto))
      calc
        applyOps held (older ++ ((first ++ [op]) ++ later))
            = applyOps held ((older ++ first) ++ op :: later) := by
              simp only [List.append_assoc, List.singleton_append]
        _ = applyOps held ((older ++ first) ++ later) := drop
        _ = applyOps held (older ++ later) := by rw [List.append_assoc, rest]

end Settled

namespace RegistryDoc

/-- The operations of some batches on a row. -/
def opsOn (key : RowKey) (batches : List PendingBatch) : List RowOp :=
  (batches.flatMap PendingBatch.ops).filter fun op => op.key = key

/-- Every operation of the batch is settled: the row held carries it, or what is
pending after the batch hides it. -/
def Settles (doc : RegistryDoc) (batch : String) : Prop :=
  ∀ before acked after, doc.pending = before ++ acked :: after → acked.batch = batch →
    ∀ first op second, acked.ops = first ++ op :: second →
      Settled op (opsOn op.key before ++ first.filter fun old => old.key = op.key)
        (opsOn op.key after) doc.authoritative[op.key]?

theorem opsOn_append (key : RowKey) (before after : List PendingBatch) :
    opsOn key (before ++ after) = opsOn key before ++ opsOn key after := by
  simp [opsOn]

theorem key_of_mem_opsOn {key : RowKey} {batches : List PendingBatch}
    (member : op ∈ opsOn key batches) : op.key = key :=
  of_decide_eq_true (List.mem_filter.mp member).2

/-- Retiring a settled batch changes no read. -/
theorem overlayRow_ackBatch {doc : RegistryDoc} {batch : String}
    (ids : (doc.pending.map PendingBatch.batch).Nodup)
    (formed : ∀ (key : RowKey) (row : RegistryRow), doc.authoritative[key]? = some row →
      row.WellFormed ∧ row.key = key)
    (settles : doc.Settles batch) (key : RowKey) :
    (doc.ackBatch batch).overlayRow key = doc.overlayRow key := by
  have pending_eq : (doc.ackBatch batch).pending =
      doc.pending.filter fun pending => pending.batch != batch := by
    unfold ackBatch
    simp only
    split
    · rfl
    · rename_i sameLength
      simp only [bne_iff_ne, not_not] at sameLength
      exact (List.filter_eq_self.mpr (List.length_filter_eq_length_iff.mp sameLength)).symm
  have ops_eq : (doc.ackBatch batch).pendingOps key =
      opsOn key (doc.pending.filter fun pending => pending.batch != batch) := by
    rw [← pending_eq]
    rfl
  rw [overlayRow_eq, overlayRow_eq, (doc.sameView_ackBatch batch).authoritative_eq, ops_eq]
  by_cases present : ∃ acked ∈ doc.pending, acked.batch = batch
  · obtain ⟨acked, member, rfl⟩ := present
    obtain ⟨before, after, split⟩ := List.append_of_mem member
    rw [split, List.map_append, List.map_cons, List.nodup_middle, List.nodup_cons] at ids
    have others : ∀ other ∈ before ++ after, (other.batch != acked.batch) = true := by
      intro other otherMem
      have ne : other.batch ≠ acked.batch := fun same =>
        ids.1 (List.map_append ▸ List.mem_map.mpr ⟨other, otherMem, same⟩)
      simpa using ne
    have kept : (doc.pending.filter fun pending => pending.batch != acked.batch) =
        before ++ after := by
      rw [split, List.filter_append, List.filter_cons_of_neg (by simp), ← List.filter_append]
      exact List.filter_eq_self.mpr others
    have mine : doc.pendingOps key =
        opsOn key before ++ ((acked.ops.filter fun op => op.key = key) ++ opsOn key after) := by
      have all : doc.pendingOps key = opsOn key doc.pending := rfl
      rw [all, split]
      simp [opsOn]
    rw [kept, mine, opsOn_append]
    have settled : ∀ first op second,
        (acked.ops.filter fun op => op.key = key) = first ++ op :: second →
          Settled op (opsOn key before ++ first) (opsOn key after) doc.authoritative[key]? := by
      intro first op second cut
      obtain ⟨start, rest, whole, startEq, restEq⟩ := List.filter_eq_append_iff.mp cut
      obtain ⟨skipped, last, restSplit, none, isMine, _⟩ := List.filter_eq_cons_iff.mp restEq
      have keyEq : op.key = key := of_decide_eq_true isMine
      subst keyEq
      have settled := settles before acked after split rfl (start ++ skipped) op last (by
        rw [whole, restSplit, List.append_assoc])
      rw [List.filter_append, startEq, List.filter_eq_nil_iff.mpr none, List.append_nil] at settled
      exact settled
    have keyed : ∀ row ∈ doc.authoritative[key]?, row.key = key := fun row found =>
      (formed key row found).2
    have keys : ∀ other ∈ opsOn key before ++
        ((acked.ops.filter fun op => op.key = key) ++ opsOn key after), other.key = key := by
      intro other otherMem
      rcases List.mem_append.mp otherMem with inBefore | later
      · exact key_of_mem_opsOn inBefore
      · rcases List.mem_append.mp later with inAcked | inAfter
        · exact of_decide_eq_true (List.mem_filter.mp inAcked).2
        · exact key_of_mem_opsOn inAfter
    rw [applyOps_without settled (fun row found => (formed key row found).1) keyed keys]
  · have all : (doc.pending.filter fun pending => pending.batch != batch) = doc.pending := by
      refine List.filter_eq_self.mpr fun other otherMem => ?_
      have ne : other.batch ≠ batch := fun same => present ⟨other, otherMem, same⟩
      simpa using ne
    rw [all]
    rfl

end RegistryDoc

end Zeron.Registry
