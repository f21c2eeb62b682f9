import Zeron.Chat.Log
import Zeron.Registry.Room
import Zeron.Transition.Run

/-!
# Backups of a resettable store

A store is written and reset, and an alarm backs it up.  The alarm takes a backup,
uploads it and then leaves a mark; while the upload is under way the store goes on, and
the upload may fail after the object has been replaced, or before.

The marks that tell whether a backup is due belong to the store, and a reset takes them
too.
-/

namespace Zeron.Backup

open Zeron.Transition

universe u v w

/-- A store with an alarm that takes backups. -/
structure BackedUp (σ : Type u) (ε : Type v) (β : Type w) where
  initial : σ
  write : σ → ε → σ
  reset : σ → σ
  /-- The alarm up to its upload, and the backup to upload, if one is due. -/
  alarm : σ → Nat → σ × Option β
  /-- The mark left after an upload. -/
  done : σ → β → σ

/-- A backup, with the state that it was taken of, the writes since the last reset and the
resets before. -/
structure Copy (σ : Type u) (ε : Type v) (β : Type w) where
  backup : β
  state : σ
  writes : List ε
  life : Nat

/-- A backup on its way to the object store. -/
structure Upload (σ : Type u) (ε : Type v) (β : Type w) where
  copy : Copy σ ε β
  landed : Bool

/-- The store, the object holding its last backup, and the upload of a running
alarm. -/
structure Vault (σ : Type u) (ε : Type v) (β : Type w) where
  store : σ
  writes : List ε
  life : Nat
  object : Option (Copy σ ε β)
  upload : Option (Upload σ ε β)

inductive VaultEvent (ε : Type v) where
  | write (change : ε)
  | reset
  | alarm (now : Nat)
  /-- The upload replaces the object. -/
  | land
  /-- The upload's answer arrives; the alarm goes on if it is a success. -/
  | finish (ok : Bool)

namespace BackedUp

variable {σ : Type u} {ε : Type v} {β : Type w} (room : BackedUp σ ε β)

/-- One event.  A second alarm does not start while one is running, and a
success is only reported once the object is replaced. -/
def step : Step (Vault σ ε β) (VaultEvent ε)
  | vault, .write change =>
      some
        { vault with
          store := room.write vault.store change
          writes := vault.writes ++ [change] }
  | vault, .reset =>
      some { vault with store := room.reset vault.store, writes := [], life := vault.life + 1 }
  | vault, .alarm now =>
      if vault.upload.isSome then none
      else
        let (store, due) := room.alarm vault.store now
        some
          { vault with
            store
            upload := due.map fun backup =>
              { copy := { backup, state := store, writes := vault.writes, life := vault.life }
                landed := false } }
  | vault, .land =>
      vault.upload.bind fun upload =>
        if upload.landed then none
        else some { vault with object := some upload.copy, upload := some { upload with landed := true } }
  | vault, .finish ok =>
      vault.upload.bind fun upload =>
        if ok then
          if upload.landed then
            some { vault with store := room.done vault.store upload.copy.backup, upload := none }
          else none
        else
          some { vault with upload := none }

/-- A state comes out of another one by some writes, with alarms in between. -/
inductive Follows : σ → List ε → σ → Prop where
  | refl (store : σ) : Follows store [] store
  | write {first last : σ} {writes : List ε} (change : ε) : Follows first writes last →
      Follows first (writes ++ [change]) (room.write last change)
  | alarm {first last : σ} {writes : List ε} (now : Nat) : Follows first writes last →
      Follows first writes (room.alarm last now).1
  | done {first last : σ} {writes : List ε} (backup : β) : Follows first writes last →
      Follows first writes (room.done last backup)

/-- Everything that is in the copy is also behind a later state, which the store came to by
further writes. -/
def LeadsTo (copy : Copy σ ε β) (writes : List ε) (store : σ) : Prop :=
  ∃ more, writes = copy.writes ++ more ∧ room.Follows copy.state more store

/-- An event that replaces the object does so with the backup of a state that is at least as
advanced as the one it holds. -/
def Advances (vault : Vault σ ε β) (event : VaultEvent ε) : Prop :=
  event = .land → ∀ upload ∈ vault.upload, ∀ stored ∈ vault.object,
    room.LeadsTo stored upload.copy.writes upload.copy.state

/-- Copies of the present life lead to the store, and the object to an upload of its life. -/
structure Linked (vault : Vault σ ε β) : Prop where
  object : ∀ stored ∈ vault.object, stored.life ≤ vault.life ∧
    (stored.life = vault.life → room.LeadsTo stored vault.writes vault.store)
  upload : ∀ upload ∈ vault.upload, upload.copy.life ≤ vault.life ∧
    (upload.copy.life = vault.life → room.LeadsTo upload.copy vault.writes vault.store)
  forward : ∀ upload ∈ vault.upload, ∀ stored ∈ vault.object, stored.life = upload.copy.life →
    room.LeadsTo stored upload.copy.writes upload.copy.state

variable {room}

theorem LeadsTo.refl (copy : Copy σ ε β) : room.LeadsTo copy copy.writes copy.state :=
  ⟨[], (List.append_nil _).symm, .refl _⟩

section LeadsTo

variable {copy : Copy σ ε β} {writes : List ε} {store : σ}

section

variable (leads : room.LeadsTo copy writes store)
include leads

theorem LeadsTo.write (change : ε) :
    room.LeadsTo copy (writes ++ [change]) (room.write store change) := by
  obtain ⟨more, rfl, follows⟩ := leads
  exact ⟨more ++ [change], List.append_assoc _ _ _, follows.write change⟩

theorem LeadsTo.alarm (now : Nat) : room.LeadsTo copy writes (room.alarm store now).1 := by
  obtain ⟨more, split, follows⟩ := leads
  exact ⟨more, split, follows.alarm now⟩

theorem LeadsTo.done (backup : β) : room.LeadsTo copy writes (room.done store backup) := by
  obtain ⟨more, split, follows⟩ := leads
  exact ⟨more, split, follows.done backup⟩

/-- Nothing leads to fewer writes. -/
theorem LeadsTo.length_le : copy.writes.length ≤ writes.length := by
  obtain ⟨more, rfl, -⟩ := leads
  rw [List.length_append]
  exact Nat.le_add_right _ _

end

end LeadsTo

theorem Linked.step {vault next : Vault σ ε β} {event : VaultEvent ε} (linked : room.Linked vault)
    (stepped : room.step vault event = some next) : room.Linked next := by
  cases event with
  | write change =>
      cases stepped
      exact ⟨fun stored found => (linked.object stored found).imp_right fun leads same =>
          (leads same).write change,
        fun upload found => (linked.upload upload found).imp_right fun leads same =>
          (leads same).write change,
        linked.forward⟩
  | reset =>
      cases stepped
      have past {life : Nat} (le : life ≤ vault.life) : life ≤ vault.life + 1 ∧
          life ≠ vault.life + 1 := by
        omega
      exact ⟨fun stored found =>
          (past (linked.object stored found).1).imp_right fun apart same => absurd same apart,
        fun upload found =>
          (past (linked.upload upload found).1).imp_right fun apart same => absurd same apart,
        linked.forward⟩
  | alarm now =>
      simp only [BackedUp.step] at stepped
      split at stepped
      · cases stepped
      · cases stepped
        refine ⟨fun stored found => (linked.object stored found).imp_right fun leads same =>
          (leads same).alarm now, fun upload found => ?_, fun upload found stored held same => ?_⟩
        · obtain ⟨backup, -, rfl⟩ := Option.map_eq_some_iff.mp found
          exact ⟨le_refl _, fun _ => LeadsTo.refl _⟩
        · obtain ⟨backup, -, rfl⟩ := Option.map_eq_some_iff.mp found
          exact ((linked.object stored held).2 same).alarm now
  | land =>
      obtain ⟨upload, found, lands⟩ := Option.bind_eq_some_iff.mp stepped
      split at lands
      · cases lands
      · cases lands
        have own := linked.upload upload found
        refine ⟨?_, ?_, ?_⟩
        · rintro _ ⟨⟩
          exact own
        · rintro _ ⟨⟩
          exact own
        · rintro _ ⟨⟩ _ ⟨⟩ _
          exact LeadsTo.refl _
  | finish ok =>
      obtain ⟨upload, found, ends⟩ := Option.bind_eq_some_iff.mp stepped
      split at ends
      · split at ends
        · cases ends
          exact ⟨fun stored held => (linked.object stored held).imp_right fun leads same =>
            (leads same).done upload.copy.backup, nofun, nofun⟩
        · cases ends
      · cases ends
        exact ⟨linked.object, nofun, nofun⟩

/-- How many writes are behind the object and the upload, and how many rows are in them. -/
def counts (rows : β → Nat) (vault : Vault σ ε β) : Option (Nat × Nat) × Option (Nat × Nat) :=
  (vault.object.map fun stored => (stored.writes.length, rows stored.backup),
    vault.upload.map fun upload => (upload.copy.writes.length, rows upload.copy.backup))

end BackedUp

end Zeron.Backup

/-!
## The backups of the two rooms

Both rooms keep the mark of their last backup in the table that a reset empties.
Their nightly objects therefore move forward only as long as no reset lies
between one object and the next.
-/

namespace Zeron.Backup

open Zeron.Chat
open Zeron.Registry
open Zeron.Transition
open Zeron.Wire

/-- The chat room, written by pushes and checkpoints. -/
def chatRoom : BackedUp ChatRoom ChatWrite (Nat × List LogRow × Option Checkpoint) where
  initial := .initial
  write := ChatRoom.write
  reset := ChatRoom.reset
  alarm room _ := room.alarm
  done room backup := room.alarmDone backup.1

end Zeron.Backup
