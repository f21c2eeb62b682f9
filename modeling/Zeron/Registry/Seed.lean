import Zeron.Registry.Replay

/-!
# Seeds

After a wipe the replicas that clients still hold are turned into operations by
`rowToSeedOp` and merged into an empty table.  A seed carries the visible
fields with their clocks.  It carries neither the clock of a field that a
`null` write has cleared nor the tombstone clock of a revived row, so a row is
restored as long as it rests on neither.
-/

namespace Zeron.Registry

open Zeron.Data
open Zeron.Wire

/-- The row that results from a wipe and the seeds of the replicas, in order. -/
def reseed (replicas : List RegistryRow) : Option RegistryRow :=
  applyOps none (replicas.map rowToSeedOp)

/-- The restored row shows what the lost one showed and still ignores every
operation that the lost one would have ignored. -/
structure Restores (row restored : RegistryRow) : Prop where
  deleted : restored.deleted = row.deleted
  fields : restored.fields = row.fields
  ignores : ∀ op, (applyOp (some row) op).2 = false → (applyOp (some restored) op).2 = false

variable {row : RegistryRow}

/-! ## Seeds -/

variable {clock : Hlc}

theorem rowToSeedOp_of_tombstone (dead : row.deleted = true) (delHlc : row.delHlc = some clock) :
    (rowToSeedOp row).op = .delete ∧ (rowToSeedOp row).hlc = clock := by
  simp [rowToSeedOp, dead, delHlc]

section LiveSeed

variable {row : RegistryRow} (live : row.deleted = false)
include live

theorem rowToSeedOp_op : (rowToSeedOp row).op = .upsert := by
  simp [rowToSeedOp, live]

theorem rowToSeedOp_hlc : (rowToSeedOp row).hlc = row.maxClock.getD (encodeHlc 0 0 "seed") := by
  simp [rowToSeedOp, live]

theorem rowToSeedOp_writes : (rowToSeedOp row).writes = row.fields := by
  simp [rowToSeedOp, live, RowOp.writes]

theorem rowToSeedOp_clockFor {field : String} (found : row.clocks[field]? = some clock) :
    (rowToSeedOp row).clockFor field = clock := by
  simp [rowToSeedOp, live, RowOp.clockFor, found]

end LiveSeed

/-- The visible fields of a well-formed row have clocks. -/
theorem RegistryRow.WellFormed.exists_clock (formed : row.WellFormed) {field : String}
    {value : Json} (visible : row.fields[field]? = some value) :
    ∃ clock, row.clocks[field]? = some clock := by
  cases found : row.clocks[field]? with
  | some clock => exact ⟨clock, rfl⟩
  | none =>
      rw [formed.clocked field found] at visible
      cases visible

/-- Visible fields belong to live rows. -/
theorem RegistryRow.WellFormed.live_of_visible (formed : row.WellFormed) {field : String}
    {value : Json} (visible : row.fields[field]? = some value) :
    row.deleted = false := by
  by_contra dead
  rw [formed.tombstone_fields (Bool.not_eq_false _ ▸ dead)] at visible
  simp at visible

/-- What a partly seeded row holds comes from versions of the history: each of
its cells from a version that shows the field, its tombstone clock from a
tombstone. -/
structure Seeded (ops : List RowOp) (row : RegistryRow) : Prop where
  cells : ∀ (field : String) (clock : Hlc), row.clocks[field]? = some clock →
    ∃ version value, InHistory ops version ∧ version.clocks[field]? = some clock ∧
      version.fields[field]? = some value ∧ row.fields[field]? = some value
  delHlc : ∀ clock, row.delHlc = some clock →
    ∃ version, InHistory ops version ∧ version.deleted = true ∧ version.delHlc = some clock

variable {ops : List RowOp}

theorem Seeded.of_empty (noClocks : row.clocks = ∅)
    (delHlc : ∀ clock, row.delHlc = some clock → ∃ version, InHistory ops version ∧
      version.deleted = true ∧ version.delHlc = some clock) :
    Seeded ops row where
  cells field clock found := by simp [noClocks] at found
  delHlc := delHlc

variable {version : RegistryRow} {base : RegistryRow}

theorem Seeded.writeFields (seeded : Seeded ops base) (inHistory : InHistory ops version)
    (live : version.deleted = false) (created : Bool) :
    Seeded ops (Registry.writeFields (rowToSeedOp version) base created).1 where
  delHlc clock found := seeded.delHlc clock (by rwa [writeFields_delHlc] at found)
  cells field clock found := by
    have view := writeFields_view (rowToSeedOp version) base created field
    rw [rowToSeedOp_writes live] at view
    cases visible : version.fields[field]? with
    | none =>
        rw [visible] at view
        obtain ⟨clockEq, fieldEq⟩ := Prod.mk.inj view
        rw [fieldEq]
        exact seeded.cells field clock (clockEq.symm.trans found)
    | some value =>
        obtain ⟨own, ownFound⟩ := inHistory.wellFormed.exists_clock visible
        simp only [visible, rowToSeedOp_clockFor live ownFound] at view
        split at view
        · obtain ⟨clockEq, fieldEq⟩ := Prod.mk.inj view
          rw [inHistory.wellFormed.not_null field value visible] at fieldEq
          obtain rfl : own = clock := Option.some.inj (clockEq.symm.trans found)
          exact ⟨version, value, inHistory, ownFound, visible, fieldEq⟩
        · obtain ⟨clockEq, fieldEq⟩ := Prod.mk.inj view
          rw [fieldEq]
          exact seeded.cells field clock (clockEq.symm.trans found)

/-- Seeding by versions of the history keeps the row seeded from it. -/
theorem seeded_applyOp {row : Option RegistryRow} (seeded : ∀ stored ∈ row, Seeded ops stored)
    (formed : ∀ stored ∈ row, stored.WellFormed) (inHistory : InHistory ops version) :
    ∀ next ∈ (applyOp row (rowToSeedOp version)).1, Seeded ops next := by
  have outcome := applyOp_outcome (rowToSeedOp version) row formed
  cases dead : version.deleted with
  | true =>
      obtain ⟨clock, delHlc⟩ :=
        Option.isSome_iff_exists.mp (inHistory.wellFormed.tombstone_delHlc dead)
      obtain ⟨isDelete, hlcEq⟩ := rowToSeedOp_of_tombstone dead delHlc
      have buried : ∀ other, some (rowToSeedOp version).hlc = some other →
          ∃ version, InHistory ops version ∧ version.deleted = true ∧
            version.delHlc = some other := by
        rintro _ ⟨⟩
        exact ⟨version, inHistory, dead, hlcEq ▸ delHlc⟩
      generalize applyOp row (rowToSeedOp version) = result at outcome
      cases outcome with
      | ignored => exact seeded
      | planted => rintro _ ⟨⟩; exact .of_empty rfl buried
      | buried => rintro _ ⟨⟩; exact .of_empty rfl buried
      | created isUpsert => exact absurd (isUpsert.symm.trans isDelete) (by decide)
      | revived isUpsert => exact absurd (isUpsert.symm.trans isDelete) (by decide)
      | merged notDelete => exact absurd isDelete notDelete
  | false =>
      have isUpsert := rowToSeedOp_op dead
      generalize applyOp row (rowToSeedOp version) = result at outcome
      cases outcome with
      | ignored => exact seeded
      | planted isDelete => exact absurd (isUpsert.symm.trans isDelete) (by decide)
      | buried isDelete => exact absurd (isUpsert.symm.trans isDelete) (by decide)
      | created =>
          rintro _ ⟨⟩
          have blank : Seeded ops (.blank (rowToSeedOp version).kind (rowToSeedOp version).id) :=
            .of_empty rfl (by simp [RegistryRow.blank])
          exact blank.writeFields inHistory dead true
      | @revived row =>
          rintro _ ⟨⟩
          have empty : Seeded ops row.revive := .of_empty rfl (seeded row rfl).delHlc
          exact empty.writeFields inHistory dead true
      | merged => rintro _ ⟨⟩; exact (seeded _ rfl).writeFields inHistory dead false

/-! ## When seeds are enough -/

/-- Nothing that a live row rests on is missing from its seed, and no older
version shows a field that the row has lost without a trace. -/
structure LiveSeedable (ops : List RowOp) (row : RegistryRow) : Prop where
  /-- No field has been cleared. -/
  cleared : ∀ field : String, row.fields[field]? = none → row.clocks[field]? = none
  /-- A revived row shows a field newer than its tombstone. -/
  revived : ∀ tombstone, row.delHlc = some tombstone →
    ∃ (field : String) (clock : Hlc), row.clocks[field]? = some clock ∧ tombstone < clock
  /-- What a version showed is still shown, or has an older clock. -/
  shown : ∀ version, InHistory ops version → ∀ (field : String) (value : Json),
    version.fields[field]? = some value →
      row.fields[field]? = some value ∨ ∃ older newer, version.clocks[field]? = some older ∧
        row.clocks[field]? = some newer ∧ older < newer

/-- A tombstone is at least as new as the clock that stands in for the missing
clocks of a live version without any. -/
def TombstoneSeedable (ops : List RowOp) (row : RegistryRow) : Prop :=
  ∀ version, InHistory ops version → version.deleted = false → version.maxClock = none →
    hlcNewer (encodeHlc 0 0 "seed") row.delHlc = false

def Seedable (ops : List RowOp) (row : RegistryRow) : Prop :=
  if row.deleted then TombstoneSeedable ops row else LiveSeedable ops row

/-! ## Seeding a live row -/

/-- The partly seeded row is alive with clocks at least as new as the lost one's. -/
structure Regained (row restored : RegistryRow) : Prop where
  live : restored.deleted = false
  clocks : ∀ (field : String) (clock : Hlc), row.clocks[field]? = some clock →
    hlcNewer clock restored.clocks[field]? = false

theorem Regained.writeFields {row : RegistryRow} (regained : Regained row base) (op : RowOp)
    (created : Bool) :
    Regained row (Registry.writeFields op base created).1 where
  live := by rw [writeFields_deleted, regained.live]
  clocks field clock found :=
    (not_newer_writeFields_iff op base created field clock).mpr
      (Or.inl (regained.clocks field clock found))

variable {stored : Option RegistryRow} {restored : RegistryRow}

section Live

variable {ops : List RowOp} {row : RegistryRow}
variable (reached : applyOps none ops = some row) (live : row.deleted = false)
variable (seedable : LiveSeedable ops row)

include seedable in
/-- A tombstone clock covered by the row's is older than one of its fields. -/
theorem LiveSeedable.exists_newer (covered : hlcNewer clock row.delHlc = false) :
    ∃ (field : String) (newer : Hlc), row.clocks[field]? = some newer ∧ clock < newer := by
  obtain ⟨tombstone, found, le⟩ := hlcNewer_eq_false_iff.mp covered
  obtain ⟨field, newer, fieldFound, lt⟩ := seedable.revived tombstone found
  exact ⟨field, newer, fieldFound, lt_of_le_of_lt le lt⟩

include reached in
/-- Tombstone clocks of versions are covered by the row's. -/
theorem delHlc_covered_of_inHistory (inHistory : InHistory ops version)
    (delHlc : version.delHlc = some clock) :
    hlcNewer clock row.delHlc = false := by
  apply inHistory.delHlc_covered reached
  rw [delHlc]
  exact hlcNewer_some_eq_false_iff.mpr le_rfl

include reached live seedable in
/-- The row's own seed regains it from whatever was seeded before. -/
theorem regained_of_seed (seeded : ∀ other ∈ stored, Seeded ops other)
    (formed : ∀ other ∈ stored, other.WellFormed) :
    ∃ restored, (applyOp stored (rowToSeedOp row)).1 = some restored ∧
      Regained row restored := by
  have inHistory := inHistory_final reached
  have isUpsert := rowToSeedOp_op live
  have written : ∀ base created, base.deleted = false →
      Regained row (writeFields (rowToSeedOp row) base created).1 := by
    intro base created baseLive
    refine ⟨by rw [writeFields_deleted, baseLive], fun field clock found => ?_⟩
    refine (not_newer_writeFields_iff _ _ _ _ _).mpr (Or.inr ⟨_, List.mem_singleton.mpr rfl, ?_⟩)
    rw [rowToSeedOp_writes live, rowToSeedOp_clockFor live found]
    refine ⟨?_, le_rfl⟩
    cases visible : row.fields[field]? with
    | some value => rfl
    | none =>
        rw [seedable.cleared field visible] at found
        cases found
  cases stored with
  | none =>
      rw [applyOp_upsert_none isUpsert]
      exact ⟨_, rfl, written _ _ rfl⟩
  | some other =>
      cases dead : other.deleted with
      | false =>
          rw [applyOp_live (by simp [isUpsert]) dead]
          exact ⟨_, rfl, written _ _ dead⟩
      | true =>
          have newer : hlcNewer (rowToSeedOp row).hlc other.delHlc = true := by
            refine hlcNewer_iff.mpr fun tombstone found => ?_
            obtain ⟨version, versionIn, _, versionClock⟩ :=
              (seeded other rfl).delHlc tombstone found
            obtain ⟨field, clock, fieldFound, lt⟩ :=
              seedable.exists_newer (delHlc_covered_of_inHistory reached versionIn versionClock)
            have covered : row.Covers clock := by
              apply RegistryRow.covers_of_clock
              rw [fieldFound]
              exact hlcNewer_some_eq_false_iff.mpr le_rfl
            obtain ⟨newest, newestFound, le⟩ := hlcNewer_eq_false_iff.mp covered
            rw [rowToSeedOp_hlc live, newestFound]
            exact lt_of_lt_of_le lt le
          rw [applyOp_upsert_tombstone isUpsert dead, if_pos newer]
          exact ⟨_, rfl, written _ _ rfl⟩

include reached seedable in
/-- Further seeds leave the row regained. -/
theorem regained_applyOp (regained : Regained row restored) (formed : restored.WellFormed)
    (inHistory : InHistory ops version) :
    ∃ next, (applyOp (some restored) (rowToSeedOp version)).1 = some next ∧
      Regained row next := by
  cases dead : version.deleted with
  | false =>
      rw [applyOp_live (by simp [rowToSeedOp_op dead]) regained.live]
      exact ⟨_, rfl, regained.writeFields _ _⟩
  | true =>
      obtain ⟨clock, delHlc⟩ :=
        Option.isSome_iff_exists.mp (inHistory.wellFormed.tombstone_delHlc dead)
      obtain ⟨isDelete, hlcEq⟩ := rowToSeedOp_of_tombstone dead delHlc
      obtain ⟨field, newer, found, lt⟩ :=
        seedable.exists_newer (delHlc_covered_of_inHistory reached inHistory delHlc)
      obtain ⟨stored, storedFound, le⟩ :=
        hlcNewer_eq_false_iff.mp (regained.clocks field newer found)
      have covered : restored.Covers clock := by
        apply RegistryRow.covers_of_clock
        rw [storedFound]
        exact hlcNewer_some_eq_false_iff.mpr (le_trans lt.le le)
      have notNewer : hlcNewer (rowToSeedOp version).hlc restored.maxClock ≠ true := by
        rw [hlcEq]
        exact Bool.eq_false_iff.mp covered
      rw [applyOp_delete_some isDelete formed, if_neg notNewer]
      exact ⟨restored, rfl, regained⟩

include seedable in
/-- A row that is seeded from the history and regained is restored. -/
theorem restores_of_regained (live : row.deleted = false) (rowFormed : row.WellFormed)
    (formed : restored.WellFormed) (seeded : Seeded ops restored)
    (regained : Regained row restored) :
    Restores row restored where
  deleted := by rw [regained.live, live]
  fields := by
    apply Std.ExtTreeMap.ext_getElem?
    intro field
    cases clockFound : restored.clocks[field]? with
    | none =>
        have noClock : row.clocks[field]? = none := by
          by_contra clocked
          obtain ⟨clock, found⟩ := Option.ne_none_iff_exists'.mp clocked
          have covered := regained.clocks field clock found
          rw [clockFound] at covered
          cases covered
        rw [formed.clocked field clockFound, rowFormed.clocked field noClock]
    | some clock =>
        obtain ⟨version, value, inHistory, versionClock, versionValue, restoredValue⟩ :=
          seeded.cells field clock clockFound
        rcases seedable.shown version inHistory field value versionValue with
          same | ⟨older, newer, olderFound, newerFound, lt⟩
        · rw [restoredValue, same]
        · obtain rfl : clock = older := Option.some.inj (versionClock.symm.trans olderFound)
          have le := regained.clocks field newer newerFound
          rw [clockFound, hlcNewer_some_eq_false_iff] at le
          exact absurd lt (not_lt.mpr le)
  ignores op ignored := by
    have covers : ∀ {field : String} {clock : Hlc}, hlcNewer clock row.clocks[field]? = false →
        hlcNewer clock restored.clocks[field]? = false := by
      intro field clock older
      obtain ⟨stored, found, le⟩ := hlcNewer_eq_false_iff.mp older
      obtain ⟨other, otherFound, otherLe⟩ :=
        hlcNewer_eq_false_iff.mp (regained.clocks field stored found)
      exact hlcNewer_eq_false_iff.mpr ⟨other, otherFound, le_trans le otherLe⟩
    by_cases isDelete : op.op = .delete
    · have rowCovers : row.Covers op.hlc := by
        rw [applyOp_delete_some isDelete rowFormed] at ignored
        split at ignored
        · cases ignored
        · exact Bool.eq_false_iff.mpr ‹_›
      have restoredCovers : restored.Covers op.hlc := by
        rcases (row.not_newer_maxClock_iff op.hlc).mp rowCovers with tombstone | ⟨field, older⟩
        · obtain ⟨field, newer, found, lt⟩ := seedable.exists_newer tombstone
          have older : hlcNewer op.hlc row.clocks[field]? = false := by
            rw [found]
            exact hlcNewer_some_eq_false_iff.mpr lt.le
          exact RegistryRow.covers_of_clock (covers older)
        · exact RegistryRow.covers_of_clock (covers older)
      rw [applyOp_delete_some isDelete formed, if_neg (Bool.eq_false_iff.mp restoredCovers)]
    · rw [applyOp_live isDelete live] at ignored
      rw [applyOp_live isDelete regained.live]
      obtain ⟨_, older⟩ := (writeFields_changed_eq_false_iff op row false).mp ignored
      exact (writeFields_changed_eq_false_iff op restored false).mpr
        ⟨rfl, fun field value found => covers (older field value found)⟩

end Live

/-! ## Seeding a tombstone -/

/-- Nothing on the row is newer than `limit`, and a live row is older. -/
def Below (limit : Hlc) (row : RegistryRow) : Prop :=
  if row.deleted then hlcNewer limit row.delHlc = true ∨ row.delHlc = some limit
  else hlcNewer limit row.maxClock = true

/-- A seed brings only the clocks of its version. -/
theorem newer_maxClock_writeFields {limit : Hlc} (formed : version.WellFormed)
    (live : version.deleted = false) (versionOlder : hlcNewer limit version.maxClock = true)
    (baseOlder : hlcNewer limit base.maxClock = true) (created : Bool) :
    hlcNewer limit (writeFields (rowToSeedOp version) base created).1.maxClock = true := by
  obtain ⟨baseTombstone, baseClocks⟩ := (base.newer_maxClock_iff limit).mp baseOlder
  obtain ⟨_, versionClocks⟩ := (version.newer_maxClock_iff limit).mp versionOlder
  refine (RegistryRow.newer_maxClock_iff _ limit).mpr ⟨by rwa [writeFields_delHlc], fun field => ?_⟩
  rw [writeFields_clocks, rowToSeedOp_writes live]
  split
  · rename_i wins
    obtain ⟨value, visible⟩ := Option.isSome_iff_exists.mp (Bool.and_eq_true_iff.mp wins).1
    obtain ⟨clock, found⟩ := formed.exists_clock visible
    rw [rowToSeedOp_clockFor live found, ← found]
    exact versionClocks field
  · exact baseClocks field

section Dead

variable {ops : List RowOp} {row : RegistryRow} {limit : Hlc}
variable (reached : applyOps none ops = some row) (dead : row.deleted = true)
variable (delHlc : row.delHlc = some limit) (seedable : TombstoneSeedable ops row)
include reached dead delHlc seedable

/-- The clock of a version's seed does not beat the tombstone. -/
theorem seed_hlc_le (inHistory : InHistory ops version) : (rowToSeedOp version).hlc ≤ limit := by
  cases versionDead : version.deleted with
  | true =>
      obtain ⟨clock, versionClock⟩ :=
        Option.isSome_iff_exists.mp (inHistory.wellFormed.tombstone_delHlc versionDead)
      have covered := delHlc_covered_of_inHistory reached inHistory versionClock
      rw [delHlc, hlcNewer_some_eq_false_iff] at covered
      rwa [(rowToSeedOp_of_tombstone versionDead versionClock).2]
  | false =>
      rw [rowToSeedOp_hlc versionDead]
      cases newest : version.maxClock with
      | some clock =>
          have newer := tombstone_newer_than_live reached dead delHlc inHistory versionDead
          rw [newest, hlcNewer_some_iff] at newer
          exact newer.le
      | none =>
          have covered := seedable version inHistory versionDead newest
          rwa [delHlc, hlcNewer_some_eq_false_iff] at covered

theorem below_applyOp (below : ∀ other ∈ stored, Below limit other)
    (formed : ∀ other ∈ stored, other.WellFormed) (inHistory : InHistory ops version) :
    ∀ next ∈ (applyOp stored (rowToSeedOp version)).1, Below limit next := by
  have hlcLe := seed_hlc_le reached dead delHlc seedable inHistory
  have outcome := applyOp_outcome (rowToSeedOp version) stored formed
  have tombstoneBelow : ∀ other : RegistryRow, other.deleted = true →
      other.delHlc = some (rowToSeedOp version).hlc → Below limit other := by
    intro other otherDead otherClock
    unfold Below
    rw [if_pos otherDead, otherClock]
    rcases lt_or_eq_of_le hlcLe with lt | equal
    · exact Or.inl (hlcNewer_some_iff.mpr lt)
    · exact Or.inr (congrArg some equal)
  have liveBelow : ∀ base created, base.deleted = false → hlcNewer limit base.maxClock = true →
      (rowToSeedOp version).op = .upsert →
      Below limit (writeFields (rowToSeedOp version) base created).1 := by
    intro base created baseLive older isUpsert
    have versionLive : version.deleted = false := by
      by_contra versionDead
      have isDelete : (rowToSeedOp version).op = .delete := by
        simp [rowToSeedOp, Bool.not_eq_false _ ▸ versionDead]
      exact absurd (isUpsert.symm.trans isDelete) (by decide)
    have newer := tombstone_newer_than_live reached dead delHlc inHistory versionLive
    unfold Below
    rw [if_neg (by simp [baseLive])]
    exact newer_maxClock_writeFields inHistory.wellFormed versionLive newer older created
  generalize applyOp stored (rowToSeedOp version) = result at outcome
  cases outcome with
  | ignored => exact below
  | planted => rintro _ ⟨⟩; exact tombstoneBelow _ rfl rfl
  | buried => rintro _ ⟨⟩; exact tombstoneBelow _ rfl rfl
  | created isUpsert =>
      rintro _ ⟨⟩
      exact liveBelow _ _ rfl (by simp [RegistryRow.newer_maxClock_iff, RegistryRow.blank]) isUpsert
  | @revived other isUpsert otherDead newer =>
      rintro _ ⟨⟩
      refine liveBelow _ _ rfl ?_ isUpsert
      refine (RegistryRow.newer_maxClock_iff _ limit).mpr ⟨?_, by simp [RegistryRow.revive]⟩
      refine hlcNewer_iff.mpr fun tombstone found => ?_
      exact lt_of_lt_of_le (hlcNewer_iff.mp newer tombstone found) hlcLe
  | @merged other notDelete otherLive =>
      rintro _ ⟨⟩
      have older := below other rfl
      unfold Below at older
      rw [if_neg (by simp [otherLive])] at older
      refine liveBelow _ _ otherLive older ?_
      cases versionDead : version.deleted with
      | false => exact rowToSeedOp_op versionDead
      | true => exact absurd (by simp [rowToSeedOp, versionDead]) notDelete

omit reached dead delHlc seedable in
/-- The tombstone's own seed buries whatever was seeded before. -/
theorem buried_of_seed (dead : row.deleted = true) (delHlc : row.delHlc = some limit)
    (below : ∀ other ∈ stored, Below limit other) (formed : ∀ other ∈ stored, other.WellFormed) :
    ∃ restored, (applyOp stored (rowToSeedOp row)).1 = some restored ∧
      restored.deleted = true ∧ restored.delHlc = some limit := by
  obtain ⟨isDelete, hlcEq⟩ := rowToSeedOp_of_tombstone dead delHlc
  cases stored with
  | none =>
      rw [applyOp_delete_none isDelete, hlcEq]
      exact ⟨_, rfl, rfl, rfl⟩
  | some other =>
      have otherBelow := below other rfl
      unfold Below at otherBelow
      rw [applyOp_delete_some isDelete (formed other rfl), hlcEq]
      cases newer : hlcNewer limit other.maxClock with
      | true => exact ⟨_, rfl, rfl, rfl⟩
      | false =>
          cases otherDead : other.deleted with
          | false => simp [otherDead, newer] at otherBelow
          | true =>
              have older := ((formed other rfl).not_newer_tombstone_iff otherDead limit).mp newer
              simp only [otherDead, older, Bool.false_eq_true, false_or] at otherBelow
              exact ⟨other, rfl, otherDead, otherBelow⟩

/-- Further seeds leave the tombstone alone. -/
theorem tombstone_applyOp (restoredDead : restored.deleted = true)
    (restoredClock : restored.delHlc = some limit) (formed : restored.WellFormed)
    (inHistory : InHistory ops version) :
    (applyOp (some restored) (rowToSeedOp version)).1 = some restored := by
  have notNewer : hlcNewer (rowToSeedOp version).hlc restored.delHlc = false := by
    rw [restoredClock]
    exact hlcNewer_some_eq_false_iff.mpr (seed_hlc_le reached dead delHlc seedable inHistory)
  cases versionDead : version.deleted with
  | true =>
      have isDelete : (rowToSeedOp version).op = .delete := by simp [rowToSeedOp, versionDead]
      have covered := (formed.not_newer_tombstone_iff restoredDead _).mpr notNewer
      rw [applyOp_delete_some isDelete formed, if_neg (Bool.eq_false_iff.mp covered)]
  | false =>
      rw [applyOp_upsert_tombstone (rowToSeedOp_op versionDead) restoredDead,
        if_neg (Bool.eq_false_iff.mp notNewer)]

end Dead

/-- What a tombstone does with an operation depends on its clock alone. -/
theorem applyOp_tombstone_changed (dead : row.deleted = true) (formed : row.WellFormed)
    (op : RowOp) :
    (applyOp (some row) op).2 = (decide (op.op ≠ .update) && hlcNewer op.hlc row.delHlc) := by
  cases kind : op.op with
  | update => rw [applyOp_update_tombstone kind dead]; rfl
  | upsert =>
      rw [applyOp_upsert_tombstone kind dead]
      cases hlcNewer op.hlc row.delHlc <;> rfl
  | delete =>
      have sameClock := formed.not_newer_tombstone_iff dead op.hlc
      rw [applyOp_delete_some kind formed]
      cases newer : hlcNewer op.hlc row.delHlc with
      | true =>
          have newest : hlcNewer op.hlc row.maxClock ≠ false := fun older => by
            rw [sameClock.mp older] at newer
            cases newer
          rw [if_pos (Bool.not_eq_false _ ▸ newest)]
          rfl
      | false =>
          rw [if_neg (Bool.eq_false_iff.mp (sameClock.mpr newer))]
          rfl

theorem restores_of_tombstone {row : RegistryRow} {limit : Hlc} (dead : row.deleted = true)
    (delHlc : row.delHlc = some limit) (formed : row.WellFormed)
    (restoredDead : restored.deleted = true) (restoredClock : restored.delHlc = some limit)
    (restoredFormed : restored.WellFormed) : Restores row restored where
  deleted := restoredDead.trans dead.symm
  fields := (restoredFormed.tombstone_fields restoredDead).trans (formed.tombstone_fields dead).symm
  ignores op ignored := by
    rw [applyOp_tombstone_changed dead formed, delHlc] at ignored
    rwa [applyOp_tombstone_changed restoredDead restoredFormed, restoredClock]

/-! ## Seeding by many replicas -/

/-- A property that every seed of a version keeps holds after all of them. -/
theorem applyOps_seeds (property : Option RegistryRow → Prop)
    (kept : ∀ stored, property stored → ∀ version, InHistory ops version →
      property (applyOp stored (rowToSeedOp version)).1) {replicas : List RegistryRow}
    (versions : ∀ replica ∈ replicas, InHistory ops replica) (start : property stored) :
    property (applyOps stored (replicas.map rowToSeedOp)) := by
  induction replicas generalizing stored with
  | nil => exact start
  | cons replica rest ih =>
      obtain ⟨first, others⟩ := List.forall_mem_cons.mp versions
      exact ih others (kept stored start replica first)

section Replicas

variable {ops : List RowOp} {row : RegistryRow} (reached : applyOps none ops = some row)
variable {replicas : List RegistryRow} (member : row ∈ replicas)
variable (versions : ∀ replica ∈ replicas, InHistory ops replica)
include reached member versions

theorem reseed_restores_live (live : row.deleted = false) (seedable : LiveSeedable ops row) :
    ∃ restored, reseed replicas = some restored ∧ Restores row restored := by
  obtain ⟨before, after, rfl⟩ := List.append_of_mem member
  obtain ⟨beforeVersions, _, afterVersions⟩ := by
    simpa only [List.forall_mem_append, List.forall_mem_cons] using versions
  let Partly (stored : Option RegistryRow) : Prop :=
    (∀ other ∈ stored, Seeded ops other) ∧ ∀ other ∈ stored, other.WellFormed
  have partlyKept : ∀ stored, Partly stored → ∀ version, InHistory ops version →
      Partly (applyOp stored (rowToSeedOp version)).1 :=
    fun stored partly version inHistory =>
      ⟨seeded_applyOp partly.1 partly.2 inHistory, applyOp_wellFormed _ partly.2⟩
  have first : Partly (applyOps none (before.map rowToSeedOp)) :=
    applyOps_seeds Partly partlyKept beforeVersions ⟨by simp, by simp⟩
  obtain ⟨restored, seededRow, regained⟩ := regained_of_seed reached live seedable first.1 first.2
  have second : Partly (some restored) :=
    seededRow ▸ partlyKept _ first row (inHistory_final reached)
  obtain ⟨final, finalReached, finalRegained, finalPartly⟩ :=
    applyOps_seeds
      (fun stored => ∃ final, stored = some final ∧ Regained row final ∧ Partly stored)
      (by
        rintro _ ⟨final, rfl, regained, partly⟩ version inHistory
        obtain ⟨next, reachedNext, regainedNext⟩ :=
          regained_applyOp reached seedable regained (partly.2 final rfl) inHistory
        exact ⟨next, reachedNext, regainedNext, partlyKept _ partly version inHistory⟩)
      afterVersions ⟨restored, rfl, regained, second⟩
  refine ⟨final, ?_, restores_of_regained seedable live (inHistory_final reached).wellFormed
    (finalPartly.2 final finalReached) (finalPartly.1 final finalReached) finalRegained⟩
  rw [reseed, List.map_append, List.map_cons, applyOps_append, applyOps_cons, seededRow,
    finalReached]

theorem reseed_restores_tombstone (dead : row.deleted = true)
    (seedable : TombstoneSeedable ops row) :
    ∃ restored, reseed replicas = some restored ∧ Restores row restored := by
  have rowFormed := (inHistory_final reached).wellFormed
  obtain ⟨limit, delHlc⟩ := Option.isSome_iff_exists.mp (rowFormed.tombstone_delHlc dead)
  obtain ⟨before, after, rfl⟩ := List.append_of_mem member
  obtain ⟨beforeVersions, _, afterVersions⟩ := by
    simpa only [List.forall_mem_append, List.forall_mem_cons] using versions
  have first : (∀ other ∈ applyOps none (before.map rowToSeedOp), Below limit other) ∧
      ∀ other ∈ applyOps none (before.map rowToSeedOp), other.WellFormed :=
    applyOps_seeds
      (fun stored => (∀ other ∈ stored, Below limit other) ∧ ∀ other ∈ stored, other.WellFormed)
      (fun stored state version inHistory =>
        ⟨below_applyOp reached dead delHlc seedable state.1 state.2 inHistory,
          applyOp_wellFormed _ state.2⟩)
      beforeVersions ⟨by simp, by simp⟩
  obtain ⟨restored, seededRow, restoredDead, restoredClock⟩ :=
    buried_of_seed dead delHlc first.1 first.2
  have restoredFormed : restored.WellFormed :=
    applyOp_wellFormed (rowToSeedOp row) first.2 restored seededRow
  have final : applyOps (some restored) (after.map rowToSeedOp) = some restored :=
    applyOps_seeds (· = some restored)
      (by
        rintro _ rfl version inHistory
        exact tombstone_applyOp reached dead delHlc seedable restoredDead restoredClock
          restoredFormed inHistory)
      afterVersions rfl
  refine ⟨restored, ?_, restores_of_tombstone dead delHlc rowFormed restoredDead restoredClock
    restoredFormed⟩
  rw [reseed, List.map_append, List.map_cons, applyOps_append, applyOps_cons, seededRow, final]

end Replicas

end Zeron.Registry
