import Zeron.Registry.Seed

/-!
# What re-seeding restores

The seeds of every choice of replicas, in every order, restore a row exactly
when no field of it has been cleared, no tombstone clock on it is newer than
its fields, and no older version shows a field that it has lost.
-/

namespace Zeron.Registry

open Zeron.Data
open Zeron.Wire

/-! ## When seeds are not enough -/

/-- The row that a live version's seed creates. -/
theorem reseed_singleton {row : RegistryRow} (live : row.deleted = false) :
    reseed [row] = some (writeFields (rowToSeedOp row) (.blank row.kind row.id) true).1 := by
  have sameRow : (rowToSeedOp row).kind = row.kind ∧ (rowToSeedOp row).id = row.id := by
    simp [rowToSeedOp, live]
  rw [reseed, List.map_singleton, applyOps_cons, applyOps_nil,
    applyOp_upsert_none (rowToSeedOp_op live), sameRow.1, sameRow.2]

/-- The cells that a live version's seed creates are the visible ones. -/
theorem reseed_singleton_view {row restored : RegistryRow} (live : row.deleted = false)
    (formed : row.WellFormed) (seeded : reseed [row] = some restored) (field : String) :
    (restored.clocks[field]?, restored.fields[field]?) =
      if row.fields[field]?.isSome then (row.clocks[field]?, row.fields[field]?)
      else (none, none) := by
  rw [reseed_singleton live] at seeded
  cases seeded
  rw [writeFields_view, rowToSeedOp_writes live]
  cases visible : row.fields[field]? with
  | none => simp [RegistryRow.blank]
  | some value =>
      obtain ⟨clock, found⟩ := formed.exists_clock visible
      simp [RegistryRow.blank, rowToSeedOp_clockFor live found, found,
        formed.not_null field value visible]

/-- Every choice of replicas that includes the row restores it. -/
def SeedsRestore (ops : List RowOp) (row : RegistryRow) : Prop :=
  ∀ replicas, row ∈ replicas → (∀ replica ∈ replicas, InHistory ops replica) →
    ∃ restored, reseed replicas = some restored ∧ Restores row restored

section Necessity

variable {ops : List RowOp} {row : RegistryRow} (reached : applyOps none ops = some row)
variable (restore : SeedsRestore ops row)
include reached restore

theorem SeedsRestore.pair {version : RegistryRow} (inHistory : InHistory ops version) :
    ∃ restored, applyOps (reseed [version]) [rowToSeedOp row] = some restored ∧
      Restores row restored := by
  refine restore [version, row] (by simp) ?_
  simpa using ⟨inHistory, inHistory_final reached⟩

/-- A cleared field's clock is in no seed, so an old write gets through. -/
theorem SeedsRestore.cleared (live : row.deleted = false) (field : String)
    (hidden : row.fields[field]? = none) : row.clocks[field]? = none := by
  by_contra clocked
  obtain ⟨clock, found⟩ := Option.ne_none_iff_exists'.mp clocked
  obtain ⟨restored, seeded, restores⟩ := restore [row] (by simp)
    (by simpa using inHistory_final reached)
  have view := reseed_singleton_view live (inHistory_final reached).wellFormed seeded field
  rw [hidden] at view
  let stale := RowOp.fieldWrite row.kind row.id .update (.ofList [(field, Json.null)] compare) clock
  have staleClock : stale.clockFor field = clock := by
    simp [stale, RowOp.clockFor, RowOp.fieldWrite]
  have staleWrites : ∀ other : String, stale.writes[other]? =
      if other = field then some Json.null else none := by
    intro other
    by_cases same : other = field
    · subst same
      simp [stale, RowOp.writes, RowOp.fieldWrite]
    · simp [stale, RowOp.writes, RowOp.fieldWrite, same, Ne.symm same]
  have ignored : (applyOp (some row) stale).2 = false := by
    rw [applyOp_live (by simp [stale, RowOp.fieldWrite]) live]
    refine (writeFields_changed_eq_false_iff stale row false).mpr ⟨rfl, ?_⟩
    intro other value written
    rw [staleWrites] at written
    split at written
    · rename_i same
      rw [same, found]
      exact hlcNewer_some_eq_false_iff.mpr le_rfl
    · cases written
  have stillIgnored := restores.ignores stale ignored
  rw [applyOp_live (by simp [stale, RowOp.fieldWrite]) (restores.deleted.trans live)] at stillIgnored
  have older := ((writeFields_changed_eq_false_iff stale restored false).mp stillIgnored).2
    field .null (by rw [staleWrites, if_pos rfl])
  have noClock : restored.clocks[field]? = none := (Prod.mk.inj view).1
  rw [noClock] at older
  cases older

/-- A row that shows nothing newer than its tombstone stays dead when the
tombstone is seeded first. -/
theorem SeedsRestore.revived (live : row.deleted = false) (tombstone : Hlc)
    (delHlc : row.delHlc = some tombstone) :
    ∃ (field : String) (clock : Hlc), row.clocks[field]? = some clock ∧ tombstone < clock := by
  by_contra noneNewer
  obtain ⟨version, inHistory, versionDead, versionClock⟩ :=
    exists_tombstone_of_delHlc reached delHlc
  obtain ⟨restored, seeded, restores⟩ := restore.pair reached inHistory
  have newest : row.maxClock = some tombstone := by
    have covered : row.Covers tombstone := by
      apply RegistryRow.covers_of_delHlc
      rw [delHlc]
      exact hlcNewer_some_eq_false_iff.mpr le_rfl
    obtain ⟨other, found, le⟩ := hlcNewer_eq_false_iff.mp covered
    rcases RegistryRow.maxClock_mem found with same | ⟨field, fieldClock⟩
    · exact found.trans (same.symm.trans delHlc)
    · rcases lt_or_eq_of_le le with lt | rfl
      · exact absurd ⟨field, other, fieldClock, lt⟩ noneNewer
      · exact found
  obtain ⟨isDelete, hlcEq⟩ := rowToSeedOp_of_tombstone versionDead versionClock
  have planted : reseed [version] = some (.tombstone (rowToSeedOp version).kind
      (rowToSeedOp version).id tombstone) := by
    rw [reseed, List.map_singleton, applyOps_cons, applyOps_nil, applyOp_delete_none isDelete,
      hlcEq]
  have notNewer : ¬ hlcNewer (rowToSeedOp row).hlc (some tombstone) = true := by
    rw [rowToSeedOp_hlc live, newest]
    exact Bool.eq_false_iff.mp (hlcNewer_some_eq_false_iff.mpr le_rfl)
  rw [planted, applyOps_cons, applyOp_upsert_tombstone (rowToSeedOp_op live) rfl, RegistryRow.tombstone_delHlc,
    if_neg notNewer] at seeded
  cases seeded
  cases restores.deleted.trans live

/-- A field shown by an older version and not beaten since comes back. -/
theorem SeedsRestore.shown (live : row.deleted = false) (version : RegistryRow)
    (inHistory : InHistory ops version) (field : String) (value : Json)
    (visible : version.fields[field]? = some value) :
    row.fields[field]? = some value ∨ ∃ older newer, version.clocks[field]? = some older ∧
      row.clocks[field]? = some newer ∧ older < newer := by
  have versionFormed := inHistory.wellFormed
  have versionLive := versionFormed.live_of_visible visible
  obtain ⟨older, olderFound⟩ := versionFormed.exists_clock visible
  obtain ⟨restored, seeded, restores⟩ := restore.pair reached inHistory
  rw [reseed_singleton versionLive] at seeded
  obtain ⟨first, firstSeeded⟩ : ∃ first, reseed [version] = some first :=
    ⟨_, reseed_singleton versionLive⟩
  have firstView := reseed_singleton_view versionLive versionFormed firstSeeded field
  rw [visible, olderFound] at firstView
  rw [reseed_singleton versionLive] at firstSeeded
  obtain ⟨firstClock, firstField⟩ := Prod.mk.inj firstView
  rw [firstSeeded, applyOps_cons] at seeded
  have firstLive : first.deleted = false := by
    cases firstSeeded
    rw [writeFields_deleted]
    rfl
  rw [applyOp_live (by simp [rowToSeedOp_op live]) firstLive] at seeded
  cases seeded
  have view := writeFields_view (rowToSeedOp row) first false field
  rw [rowToSeedOp_writes live, firstClock, firstField, restores.fields] at view
  cases shown : row.fields[field]? with
  | none =>
      rw [shown] at view
      cases (Prod.mk.inj view).2
  | some current =>
      obtain ⟨newer, newerFound⟩ := (inHistory_final reached).wellFormed.exists_clock shown
      simp only [shown, rowToSeedOp_clockFor live newerFound] at view
      split at view
      · rename_i wins
        exact Or.inr ⟨older, newer, olderFound, newerFound, hlcNewer_some_iff.mp wins⟩
      · exact Or.inl (Prod.mk.inj view).2

/-- A version without clocks is seeded with the fallback clock. -/
theorem SeedsRestore.fallback (dead : row.deleted = true) : TombstoneSeedable ops row := by
  intro version inHistory live noClock
  by_contra covered
  have newer := Bool.not_eq_false _ ▸ covered
  obtain ⟨limit, delHlc⟩ := Option.isSome_iff_exists.mp
    ((inHistory_final reached).wellFormed.tombstone_delHlc dead)
  obtain ⟨isDelete, hlcEq⟩ := rowToSeedOp_of_tombstone dead delHlc
  obtain ⟨restored, seeded, restores⟩ := restore [row, version] (by simp)
    (by simpa using ⟨inHistory_final reached, inHistory⟩)
  have revives : hlcNewer (rowToSeedOp version).hlc (some limit) = true := by
    rw [rowToSeedOp_hlc live, noClock, ← delHlc]
    exact newer
  rw [reseed, List.map_cons, List.map_singleton, applyOps_cons, applyOps_cons, applyOp_delete_none isDelete, hlcEq,
    applyOp_upsert_tombstone (rowToSeedOp_op live) rfl, RegistryRow.tombstone_delHlc,
    if_pos revives] at seeded
  cases seeded
  have alive := restores.deleted.trans dead
  rw [writeFields_deleted] at alive
  cases alive

end Necessity

/-- The seeds of every choice of replicas, in every order, restore a row
exactly when its seed leaves nothing out. -/
theorem seeds_restore_iff_seedable (ops : List RowOp) (row : RegistryRow)
    (reached : applyOps none ops = some row) : SeedsRestore ops row ↔ Seedable ops row := by
  unfold Seedable
  cases dead : row.deleted with
  | true =>
      constructor
      · intro restore
        exact restore.fallback reached dead
      · intro seedable replicas member versions
        exact reseed_restores_tombstone reached member versions dead seedable
  | false =>
      constructor
      · intro restore
        exact ⟨restore.cleared reached dead, restore.revived reached dead,
          restore.shown reached dead⟩
      · intro seedable replicas member versions
        exact reseed_restores_live reached member versions dead seedable

/-- A chat's title is set, then cleared.  A client that still shows the title
brings it back, although the client with the final row seeds first. -/
theorem reseed_brings_back_title :
    let create := RowOp.fieldWrite "chats" "c1" .upsert
      (.ofList [("title", Json.str "draft")] compare) (encodeHlc 1 0 "a")
    let clear := RowOp.fieldWrite "chats" "c1" .update
      (.ofList [("title", Json.null)] compare) (encodeHlc 2 0 "b")
    ∃ stale row restored,
      applyOps none [create] = some stale ∧ applyOps none [create, clear] = some row ∧
        reseed [row, stale] = some restored ∧ row.fields[("title" : String)]? = none ∧
        restored.fields[("title" : String)]? = some (.str "draft") :=
  ⟨_, _, _, rfl, rfl, rfl, by decide, by decide⟩

/-- A renamed chat is restored from any replicas. -/
theorem seeds_restore_renamed_chat :
    let create := RowOp.fieldWrite "chats" "c1" .upsert
      (.ofList [("title", Json.str "draft")] compare) (encodeHlc 1 0 "a")
    let rename := RowOp.fieldWrite "chats" "c1" .update
      (.ofList [("title", Json.str "final")] compare) (encodeHlc 2 0 "b")
    ∃ row, applyOps none [create, rename] = some row ∧
      (SeedsRestore [create, rename] row ↔ Seedable [create, rename] row) :=
  ⟨_, rfl, seeds_restore_iff_seedable _ _ rfl⟩

end Zeron.Registry
