import Zeron.Registry.Batch
import Zeron.Transition.Run
import Mathlib.Data.List.Induction

/-!
# Exactness of delta sync

Over runs of pushes and alarms the rows since a cursor are just what has
changed since the room stood at it.  Tombstones purged in the meantime are the
one exception, and a cursor from before such a tombstone lies below `gcFloor`,
so it is answered in full instead.
-/

namespace Zeron.Registry

open Zeron.Data
open Zeron.Transition
open Zeron.Wire

/-- What happens to a room. -/
inductive RoomEvent where
  | push (frame : Json)
  | alarm (now : Nat)
  | alarmDone (written : Option Nat)
  | reset

namespace RegistryRoom

def step : Step RegistryRoom RoomEvent
  | room, .push frame => some (room.applyPushBatch frame).1
  | room, .alarm now => some (room.alarm now)
  | room, .alarmDone written => some (room.alarmDone written)
  | room, .reset => some room.reset

theorem Invariant.step {room next : RegistryRoom} {event : RoomEvent}
    (invariant : room.Invariant) (stepped : step room event = some next) : next.Invariant := by
  cases event <;> cases stepped
  · exact invariant.applyPushBatch _
  · exact invariant.alarm _
  · exact invariant.alarmDone _
  · exact invariant_initial

variable {events : List RoomEvent}

theorem Invariant.run {room final : RegistryRoom} (invariant : room.Invariant)
    (ran : run RegistryRoom.step room events = some final) :
    final.Invariant :=
  run_invariant Invariant.step invariant ran

/-! ## How `seq` moves -/

/-- Between resets the `seq` of a room moves in steps of one. -/
theorem step_seq {room next : RegistryRoom} {event : RoomEvent} (invariant : room.Invariant)
    (notReset : event ≠ .reset) (stepped : step room event = some next) :
    next.seq = room.seq ∨ next.seq = room.seq + 1 := by
  cases event with
  | push frame =>
      obtain rfl : (room.applyPushBatch frame).1 = next := Option.some.inj stepped
      rcases room.applyPushBatch_cases frame invariant with
        ⟨_, _, result⟩ | ⟨_, _, _, ⟨_, result⟩ | ⟨_, _, _, _, _, result⟩⟩ <;> rw [result] <;> simp
  | alarm now =>
      obtain rfl : room.alarm now = next := Option.some.inj stepped
      left
      unfold RegistryRoom.alarm
      split
      · rw [collectTombstones_eq invariant]
      · rfl
  | alarmDone written => cases stepped; exact Or.inl rfl
  | reset => exact absurd rfl notReset

/-- So a run stands at every `seq` up to its last. -/
theorem exists_split_at_seq {room final : RegistryRoom} (invariant : room.Invariant)
    (noReset : RoomEvent.reset ∉ events) (ran : run step room events = some final) {cursor : Nat}
    (low : room.seq ≤ cursor) (high : cursor ≤ final.seq) :
    ∃ earlier later old, events = earlier ++ later ∧ run step room earlier = some old ∧
      old.seq = cursor := by
  induction events generalizing room with
  | nil =>
      cases ran
      exact ⟨[], [], final, rfl, rfl, le_antisymm low high⟩
  | cons event rest ih =>
      obtain ⟨next, stepped, rest_ran⟩ := run_cons_eq_some_iff.mp ran
      rcases Nat.eq_or_lt_of_le low with same | lt
      · exact ⟨[], event :: rest, room, rfl, rfl, same⟩
      · have nextLow : next.seq ≤ cursor := by
          have notReset : event ≠ .reset := fun same => noReset (by simp [same])
          rcases step_seq invariant notReset stepped with same | succ <;> omega
        have restNoReset : RoomEvent.reset ∉ rest := fun member =>
          noReset (List.mem_cons_of_mem _ member)
        obtain ⟨earlier, later, old, split, oldRan, oldSeq⟩ :=
          ih (invariant.step stepped) restNoReset rest_ran nextLow
        refine ⟨event :: earlier, later, old, by rw [split]; rfl, ?_, oldSeq⟩
        rw [run_cons_eq_some_iff]
        exact ⟨next, stepped, oldRan⟩

/-! ## What has changed since -/

/-- A tombstone that one of the alarms has purged. -/
def PurgedBy (events : List RoomEvent) (row : RegistryRow) : Prop :=
  ∃ now, RoomEvent.alarm now ∈ events ∧ isPurged (horizonHlc now) row = true

/-- How a later room differs from an old one: a key whose row is not stamped
since holds what it held, or nothing in place of a purged tombstone. -/
structure Since (old : RegistryRoom) (events : List RoomEvent) (room : RegistryRoom) : Prop where
  gcFloor_le : old.gcFloor ≤ room.gcFloor
  rows : room.gcFloor ≤ old.seq → ∀ key : RowKey,
    (∃ row, room.rows[key]? = some row ∧ old.seq < row.seq) ∨
    room.rows[key]? = old.rows[key]? ∨
    (room.rows[key]? = none ∧ ∃ tombstone, old.rows[key]? = some tombstone ∧
      PurgedBy events tombstone)

theorem PurgedBy.append {row : RegistryRow} (purged : PurgedBy events row) (event : RoomEvent) :
    PurgedBy (events ++ [event]) row := by
  obtain ⟨now, member, isPurged⟩ := purged
  exact ⟨now, List.mem_append_left _ member, isPurged⟩

variable {old room : RegistryRoom}

theorem Since.weaken (since : Since old events room) (event : RoomEvent) :
    Since old (events ++ [event]) room where
  gcFloor_le := since.gcFloor_le
  rows floor key := by
    rcases since.rows floor key with stamped | same | ⟨gone, tombstone, found, purged⟩
    · exact Or.inl stamped
    · exact Or.inr (Or.inl same)
    · exact Or.inr (Or.inr ⟨gone, tombstone, found, purged.append event⟩)

theorem Since.push (since : Since old events room) (invariant : room.Invariant)
    (le : old.seq ≤ room.seq) (frame : Json) :
    Since old (events ++ [.push frame]) (room.applyPushBatch frame).1 := by
  rcases room.applyPushBatch_cases frame invariant with
    ⟨_, _, result⟩ | ⟨_, ops, read, ⟨_, result⟩ | ⟨_, _, _, _, _, result⟩⟩
  · rw [result]
    exact since.weaken _
  · rw [result]
    exact since.weaken _
  · rw [result]
    refine ⟨since.gcFloor_le, fun floor key => ?_⟩
    have stored := invariant.stored.mono (Nat.le_succ room.seq)
    cases found : (mergeAll (room.seq + 1) room.rows ops)[key]? with
    | none =>
        have before := (since.weaken (.push frame)).rows floor key
        rwa [getElem?_of_mergeAll_eq_none found] at before
    | some row =>
        rcases getElem?_mergeAll_eq_some stored (accepted_of_readBatch read) (Nat.succ_pos _)
          found with before | stamped
        · rw [← before]
          exact (since.weaken (.push frame)).rows floor key
        · exact Or.inl ⟨row, rfl, by omega⟩

theorem Since.alarm (since : Since old events room) (invariant : room.Invariant) (now : Nat) :
    Since old (events ++ [.alarm now]) (room.alarm now) := by
  unfold RegistryRoom.alarm
  split
  · rw [collectTombstones_eq invariant]
    refine ⟨since.gcFloor_le.trans (le_max_left _ _), fun floor key => ?_⟩
    obtain ⟨oldFloor, purgedLe⟩ := max_le_iff.mp floor
    simp only [Std.ExtTreeMap.getElem?_filter']
    cases found : room.rows[key]? with
    | none =>
        have before := since.rows oldFloor key
        rw [found] at before
        rcases before with ⟨_, absurdRow, _⟩ | same | ⟨_, tombstone, oldFound, purged⟩
        · cases absurdRow
        · exact Or.inr (Or.inl same)
        · exact Or.inr (Or.inr ⟨rfl, tombstone, oldFound, purged.append _⟩)
    | some row =>
        cases purges : isPurged (horizonHlc now) row with
        | false =>
            have before := since.rows oldFloor key
            rw [found] at before
            have stays : (some row).filter (fun row => !isPurged (horizonHlc now) row) =
                some row := by simp [purges]
            rw [stays]
            rcases before with stamped | same | ⟨gone, _⟩
            · exact Or.inl stamped
            · exact Or.inr (Or.inl same)
            · cases gone
        | true =>
            -- The floor keeps cursors from before a purged stamp out.
            have stampLe : row.seq ≤ old.seq :=
              purgedMaxSeq_le_iff.mp purgedLe key row found purges
            have oldFound : old.rows[key]? = some row := by
              rcases since.rows oldFloor key with ⟨other, otherFound, lt⟩ | same | ⟨gone, _⟩
              · rw [found] at otherFound
                cases otherFound
                omega
              · rw [← same, found]
              · rw [found] at gone
                cases gone
            refine Or.inr (Or.inr ⟨by simp [purges], row, oldFound, now, ?_, purges⟩)
            exact List.mem_append_right _ (List.mem_singleton.mpr rfl)
  · exact since.weaken _

theorem since_run (invariant : old.Invariant) (noReset : RoomEvent.reset ∉ events)
    (ran : run step old events = some room) :
    Since old events room ∧ old.seq ≤ room.seq := by
  induction events using List.reverseRecOn generalizing room with
  | nil =>
      cases ran
      exact ⟨⟨le_rfl, fun _ _ => Or.inr (Or.inl rfl)⟩, le_rfl⟩
  | append_singleton events event ih =>
      obtain ⟨middle, middleRan, last⟩ := run_append_eq_some_iff.mp ran
      obtain ⟨next, stepped, done⟩ := run_cons_eq_some_iff.mp last
      cases done
      have notReset : event ≠ .reset := fun same => noReset (by simp [same])
      obtain ⟨since, le⟩ := ih (fun member => noReset (List.mem_append_left _ member)) middleRan
      have middleInvariant := invariant.run middleRan
      refine ⟨?_, ?_⟩
      · cases event with
        | push frame => cases stepped; exact since.push middleInvariant le frame
        | alarm now => cases stepped; exact since.alarm middleInvariant now
        | alarmDone written =>
            cases stepped
            have weak := since.weaken (.alarmDone written)
            exact ⟨weak.gcFloor_le, weak.rows⟩
        | reset => exact absurd rfl notReset
      · rcases step_seq middleInvariant notReset stepped with same | succ <;> omega

/-! ## The rows since a cursor -/

/-- Writing the rows since the old `seq` over the old rows gives the present
row, or a tombstone in place of one that has been purged. -/
def CatchesUp (old : RegistryRoom) (events : List RoomEvent) (room : RegistryRoom) : Prop :=
  ∀ key : RowKey,
    let written := (insertAll RegistryRow.key old.rows (room.rowsSince old.seq))[key]?
    written = room.rows[key]? ∨
      (room.rows[key]? = none ∧ ∃ tombstone, written = some tombstone ∧
        tombstone.deleted = true ∧ PurgedBy events tombstone)

theorem Since.catchesUp (since : Since old events room) (oldInvariant : old.Invariant)
    (invariant : room.Invariant) (floor : room.gcFloor ≤ old.seq) : CatchesUp old events room := by
  intro key written
  have writtenEq : written =
      (room.rows[key]?.filter fun row => decide (old.seq < row.seq)).or old.rows[key]? :=
    (lists_rowsSince invariant.stored old.seq).getElem?_insertAll
      (fun key row found => (invariant.stored key row found).key_eq) key
  rcases since.rows floor key with ⟨row, found, lt⟩ | same | ⟨gone, tombstone, found, purged⟩
  · left
    rw [writtenEq, found]
    simp [lt]
  · left
    rw [writtenEq, same]
    cases found : old.rows[key]? with
    | none => rfl
    | some row =>
        have stampLe := (oldInvariant.stored key row found).seq_le
        have unstamped : (some row).filter (fun row => decide (old.seq < row.seq)) = none := by
          simpa using stampLe
        rw [unstamped, Option.none_or]
  · right
    refine ⟨gone, tombstone, by rw [writtenEq, gone, found]; rfl, ?_, purged⟩
    obtain ⟨_, _, isPurged⟩ := purged
    exact (Bool.and_eq_true_iff.mp isPurged).1

/-- A frame that fails validation changes nothing; another one either changes
some row and takes one `seq`, or changes nothing and takes none. -/
def PushIsExact (room : RegistryRoom) (frame : Json) : Prop :=
  match room.applyPushBatch frame with
  | (next, .error _) => next = room
  | (next, .ok outcome) =>
      (next.rows ≠ room.rows ∧ 0 < outcome.applied ∧ next.seq = room.seq + 1 ∧
        next.gcFloor = room.gcFloor) ∨
      (next = room ∧ outcome.applied = 0)

theorem Invariant.pushIsExact {room : RegistryRoom} (invariant : room.Invariant) (frame : Json) :
    room.PushIsExact frame := by
  unfold PushIsExact
  rcases room.applyPushBatch_cases frame invariant with
    ⟨_, _, result⟩ | ⟨_, _, _, ⟨_, result⟩ | ⟨different, applied, _, pos, _, result⟩⟩ <;> rw [result]
  · exact Or.inr ⟨rfl, rfl⟩
  · exact Or.inl ⟨different, pos, rfl, rfl⟩

/-- Delta sync is exact after every run without a reset: each cursor between
the floor and `seq` is one the room has stood at, and the rows since it turn
the table of that time into the present one, purged tombstones aside. -/
theorem delta_sync_exact (events : List RoomEvent) (room : RegistryRoom)
    (noReset : RoomEvent.reset ∉ events) (ran : run step initial events = some room) :
    (∀ cursor, room.gcFloor ≤ cursor → cursor ≤ room.seq →
      (∃ earlier later old, events = earlier ++ later ∧ run step initial earlier = some old ∧
        old.seq = cursor) ∧
      ∀ earlier later old, events = earlier ++ later → run step initial earlier = some old →
        old.seq = cursor → CatchesUp old later room) ∧
    (∀ (key : RowKey) (row : RegistryRow), room.rows[key]? = some row → row.seq ≤ room.seq) ∧
    ∀ frame, room.PushIsExact frame := by
  have invariant := invariant_initial.run ran
  refine ⟨fun cursor floor high => ⟨?_, ?_⟩, ?_, invariant.pushIsExact⟩
  · exact exists_split_at_seq invariant_initial noReset ran (Nat.zero_le _) high
  · rintro earlier later old rfl oldRan rfl
    obtain ⟨middle, middleRan, laterRan⟩ := run_append_eq_some_iff.mp ran
    cases middleRan.symm.trans oldRan
    have oldInvariant := invariant_initial.run oldRan
    have laterNoReset : RoomEvent.reset ∉ later := fun member =>
      noReset (List.mem_append_right _ member)
    exact (since_run oldInvariant laterNoReset laterRan).1.catchesUp oldInvariant invariant floor
  · intro key row found
    exact (invariant.stored key row found).seq_le

/-- A chat is pushed and the alarm passes over it. -/
theorem delta_sync_exact_chat :
    let create := RowOp.fieldWrite "chats" "c1" .upsert
      (.ofList [("title", Json.str "draft")] compare) (encodeHlc 1 0 "a")
    let events := [.push (pushFrame "b1" [create]), .alarm 2, .alarmDone (some 1)]
    ∃ room, run step initial events = some room ∧
      ∀ cursor, room.gcFloor ≤ cursor → cursor ≤ room.seq →
        ∀ earlier later old, events = earlier ++ later → run step initial earlier = some old →
          old.seq = cursor → CatchesUp old later room :=
  ⟨_, rfl, fun cursor floor high =>
    ((delta_sync_exact _ _ (by simp) rfl).1 cursor floor high).2⟩

end RegistryRoom

end Zeron.Registry

/-!
## Parity of the two merges

Every row that a room stores has validated clocks, so the edge and the engine
make the same of every accepted operation, except of one that reaches a field
with an inherited name.
-/

namespace Zeron.Registry.Edge

open Zeron.Transition
open Zeron.Wire

/-- On the rows of any room and the operations its validation accepts, the
merges and the seeds agree exactly when the operation sets no field with an
inherited name or never comes to its fields. -/
theorem merges_agree_iff (events : List RoomEvent) (room : RegistryRoom) (key : RowKey)
    (row : RegistryRow) (json : Json)
    (ran : run RegistryRoom.step RegistryRoom.initial events = some room)
    (stored : room.rows[key]? = some row) (valid : validateOp json = none) :
    (mergeStored (some row) (readOp json) = Registry.applyOp (some row) (readOp json) ∧
        rowToSeedOp (loadRow row) = Registry.rowToSeedOp row) ↔
      (readOp json).op = .delete ∨ SetsNoInherited (readOp json) ∨
        StopsEarly (some row) (readOp json) := by
  have plain : Plain row :=
    ((RegistryRoom.invariant_initial.run ran).stored key row stored).plain
  have rowPlain : ∀ stored ∈ some row, Plain stored := by
    rintro _ ⟨⟩
    exact plain
  rw [agree_iff (accepted_readOp valid) rowPlain]
  exact and_iff_left (rowToSeedOp_loadRow plain)

/-- A room's run that stores a chat, and its row. -/
theorem chat_stored :
    ∃ room, run RegistryRoom.step RegistryRoom.initial
        [.push (pushFrame "b1" [.fieldWrite "chats" "c1" .upsert
          (.ofList [("title", Json.str "draft")] compare) (encodeHlc 1 0 "a")])] = some room ∧
      room.rows[(⟨"chats", "c1"⟩ : RowKey)]? = some
        { kind := "chats", id := "c1", seq := 1, deleted := false, delHlc := none
          fields := .ofList [("title", .str "draft")] compare
          clocks := .ofList [("title", encodeHlc 1 0 "a")] compare } := by
  refine Option.bind_eq_some_iff.mp ?_
  decide +kernel

/-- A chat's field `constructor` is written by the engine and never at the edge. -/
theorem merges_disagree_constructor :
    ∃ events room key row json,
      run RegistryRoom.step RegistryRoom.initial events = some room ∧
      room.rows[(key : RowKey)]? = some row ∧ validateOp json = none ∧
      mergeStored (some row) (readOp json) = (some row, false) ∧
      (Registry.applyOp (some row) (readOp json)).2 = true := by
  obtain ⟨room, ran, stored⟩ := chat_stored
  refine ⟨_, room, _, _, encodeOp (.fieldWrite "chats" "c1" .update
    (.ofList [("constructor", Json.str "x")] compare) (encodeHlc 2 0 "a")), ran, stored, ?_, ?_, ?_⟩
  · decide +kernel
  · decide +kernel
  · decide +kernel

/-- An update of the title is the same on both sides. -/
theorem merges_agree_title :
    ∃ row json, validateOp json = none ∧
      ((mergeStored (some row) (readOp json) = Registry.applyOp (some row) (readOp json) ∧
          rowToSeedOp (loadRow row) = Registry.rowToSeedOp row) ↔
        (readOp json).op = .delete ∨ SetsNoInherited (readOp json) ∨
          StopsEarly (some row) (readOp json)) := by
  obtain ⟨room, ran, stored⟩ := chat_stored
  have valid : validateOp (encodeOp (.fieldWrite "chats" "c1" .update
      (.ofList [("title", Json.str "final")] compare) (encodeHlc 2 0 "a"))) = none := by decide
  exact ⟨_, _, valid, merges_agree_iff _ room _ _ _ ran stored valid⟩

end Zeron.Registry.Edge
