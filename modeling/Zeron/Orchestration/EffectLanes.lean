import Zeron.Orchestration.Effects

/-!
# Serial lanes and fenced claims

No operation but a claim makes an effect active, and a claim picks an effect
whose lane is free.  A worker's finish or abandon reaches a row only under the
claim that the row is held under.
-/

namespace Zeron.Orchestration

open Data Transition

namespace EffectRow

/-- The row is running under the worker and the claim generation of an effect. -/
structure Held (row : EffectRow) (effect : Effect) : Prop where
  id : row.id = effect.id
  running : row.status = .running
  owner : ∃ worker, row.leaseOwner = some worker ∧ effect.leaseOwner = some worker
  generation : row.attemptCount = effect.attemptCount

theorem held_iff (row : EffectRow) (effect : Effect) :
    row.heldUnder effect = true ↔ row.Held effect := by
  simp only [heldUnder, ownedBy, Bool.and_eq_true, beq_iff_eq]
  constructor
  · rintro ⟨⟨⟨same, running⟩, owned, owner⟩, generation⟩
    obtain ⟨worker, named⟩ := Option.isSome_iff_exists.mp owned
    exact ⟨same, running, ⟨worker, named, owner ▸ named⟩, generation⟩
  · rintro ⟨same, running, ⟨worker, named, owner⟩, generation⟩
    refine ⟨⟨⟨same, running⟩, ?_, ?_⟩, generation⟩
    · rw [named]
      rfl
    · rw [named, owner]

theorem active_iff (row : EffectRow) :
    row.active = true ↔ row.status = .running ∨ row.status = .uncertain := by
  simp only [active, Bool.or_eq_true, beq_iff_eq]

theorem sameLane_iff (first second : EffectRow) :
    first.sameLane second = true ↔
      first.threadId = second.threadId ∧ first.request.lane = second.request.lane := by
  simp only [sameLane, Bool.and_eq_true, beq_iff_eq]

end EffectRow

namespace Outbox

/-- A statement that moves no row to another lane and makes no row active. -/
structure Calm (which : EffectRow → Bool) (set : EffectRow → EffectRow) : Prop where
  thread : ∀ row, (set row).threadId = row.threadId
  request : ∀ row, (set row).request = row.request
  active : ∀ row, which row = true → (set row).active = true → row.active = true

/-- At most one effect of a lane is running or uncertain. -/
def Serial (outbox : Outbox) : Prop :=
  ∀ first ∈ outbox.rows.rows, ∀ second ∈ outbox.rows.rows,
    first.active = true → second.active = true → first.sameLane second = true → first = second

variable {outbox : Outbox} {set : EffectRow → EffectRow} {which : EffectRow → Bool}

theorem mem_update {keeps : ∀ row, (set row).id = row.id} {row : EffectRow} :
    row ∈ (outbox.update which set keeps).rows.rows ↔
      ∃ old ∈ outbox.rows.rows, (if which old = true then set old else old) = row :=
  List.mem_map

theorem get_update (outbox : Outbox) (which : EffectRow → Bool) (set : EffectRow → EffectRow)
    (keeps : ∀ row, (set row).id = row.id) (id : String) :
    (outbox.update which set keeps).rows.get id =
      (outbox.rows.get id).map fun row => if which row then set row else row :=
  outbox.rows.get_update which set keeps id

theorem Calm.row (calm : Calm which set) (row : EffectRow) :
    (if which row = true then set row else row).threadId = row.threadId ∧
    (if which row = true then set row else row).request = row.request ∧
    ((if which row = true then set row else row).active = true → row.active = true) := by
  split
  · exact ⟨calm.thread row, calm.request row, calm.active row ‹_›⟩
  · exact ⟨rfl, rfl, fun active => active⟩

theorem Serial.update (serial : Serial outbox) {keeps : ∀ row, (set row).id = row.id}
    (calm : Calm which set) :
    Serial (outbox.update which set keeps) := by
  intro first first_stored second second_stored first_active second_active same
  obtain ⟨old, old_stored, rfl⟩ := mem_update.mp first_stored
  obtain ⟨other, other_stored, rfl⟩ := mem_update.mp second_stored
  obtain ⟨old_thread, old_request, old_active⟩ := calm.row old
  obtain ⟨other_thread, other_request, other_active⟩ := calm.row other
  rw [EffectRow.sameLane_iff, old_thread, old_request, other_thread, other_request,
    ← EffectRow.sameLane_iff] at same
  rw [serial old old_stored other other_stored (old_active first_active)
    (other_active second_active) same]

/-- A statement keeps lanes serial when it sets only statuses that are not
active, except on rows that were. -/
theorem Serial.update_of_status (serial : Serial outbox) {keeps : ∀ row, (set row).id = row.id}
    (thread : ∀ row, (set row).threadId = row.threadId)
    (request : ∀ row, (set row).request = row.request)
    (status : ∀ row, which row = true → row.active = true ∨
      (set row).status = .pending ∨ (set row).status = .cancelled) :
    Serial (outbox.update which set keeps) := by
  apply serial.update
  constructor
  · exact thread
  · exact request
  · intro row picked active
    obtain before | idle := status row picked
    · exact before
    · rw [EffectRow.active_iff] at active
      obtain idle | idle := idle
      all_goals
        rw [idle] at active
        obtain wrong | wrong := active <;> cases wrong

/-- What a claim does after it has expired leases. -/
theorem claimEffect_cases (outbox : Outbox) (worker : String) (now leaseMs : Int) :
    outbox.claimEffect worker now leaseMs = (outbox.expireLeases now, none) ∨
    ∃ row ∈ (outbox.expireLeases now).rows.rows,
      (outbox.expireLeases now).claimable row = true ∧ row.availableAt ≤ now ∧
      outbox.claimEffect worker now leaseMs =
        ((outbox.expireLeases now).lease row.id worker now leaseMs,
          (((outbox.expireLeases now).lease row.id worker now leaseMs).rows.get row.id).map
            EffectRow.toEffect) := by
  cases next : (outbox.expireLeases now).due now with
  | none =>
      refine .inl ?_
      simp only [claimEffect, next]
  | some row =>
      refine .inr ⟨row, ?_⟩
      obtain ⟨found, due⟩ := Option.filter_eq_some_iff.mp next
      obtain ⟨stored, claimable⟩ := List.mem_filter.mp (EffectRow.earliest_mem found)
      refine ⟨stored, claimable, of_decide_eq_true due, ?_⟩
      simp only [claimEffect, next]

theorem claimable_iff (outbox : Outbox) (candidate : EffectRow) :
    outbox.claimable candidate = true ↔ candidate.status = .pending ∧
      (∀ row ∈ outbox.rows.rows, row.sameLane candidate = true → row.active = false) ∧
      (∀ row ∈ outbox.rows.rows, row.sameLane candidate = true →
        row.ordinal < candidate.ordinal → row.status ≠ .pending) := by
  simp only [claimable, Bool.and_eq_true, beq_iff_eq, Bool.not_eq_true', List.any_eq_false,
    decide_eq_true_eq, not_and, and_assoc, Bool.not_eq_true]
  constructor
  · rintro ⟨pending, free, first⟩
    exact ⟨pending, free, fun row stored same earlier waiting =>
      first row stored same waiting earlier⟩
  · rintro ⟨pending, free, first⟩
    exact ⟨pending, free, fun row stored same waiting earlier =>
      first row stored same earlier waiting⟩

section

variable (serial : Serial outbox)
include serial

theorem Serial.retireForStart (thread : String) (stopped : List String) (now : Int) :
    Serial (outbox.retireForStart thread stopped now) := by
  apply serial.update_of_status
  · intro row
    rfl
  · intro row
    rfl
  · intro row _
    exact .inr (.inr rfl)

theorem Serial.cancelProcess (thread : String) (now : Int) :
    Serial (outbox.cancelProcess thread now) := by
  apply serial.update_of_status
  · intro row
    rfl
  · intro row
    rfl
  · intro row _
    exact .inr (.inr rfl)

theorem Serial.expireLeases (now : Int) : Serial (outbox.expireLeases now) := by
  apply serial.update_of_status
  · intro row
    rfl
  · intro row
    rfl
  · intro row picked
    rw [Bool.and_eq_true, beq_iff_eq] at picked
    exact .inl ((EffectRow.active_iff row).mpr (.inl picked.1))

/-- A claim takes an effect of a lane in which none is active. -/
theorem Serial.lease {row : EffectRow} (claimable : outbox.claimable row = true)
    (stored : row ∈ outbox.rows.rows) (worker : String) (now leaseMs : Int) :
    Serial (outbox.lease row.id worker now leaseMs) := by
  obtain ⟨_, free, _⟩ := (outbox.claimable_iff row).mp claimable
  -- Another active row of the lane would have barred the claim.
  have alone : ∀ other ∈ outbox.rows.rows, other.active = true →
      ¬ other.sameLane row = true := by
    intro other other_stored other_active same
    rw [free other other_stored same] at other_active
    cases other_active
  intro first first_stored second second_stored first_active second_active same
  obtain ⟨old, old_stored, rfl⟩ := mem_update.mp first_stored
  obtain ⟨other, other_stored, rfl⟩ := mem_update.mp second_stored
  by_cases old_leased : old.id = row.id
  · have old_eq : old = row := Table.eq_of_mem old_stored stored old_leased
    by_cases other_leased : other.id = row.id
    · rw [Table.eq_of_mem other_stored stored other_leased, old_eq]
    · have missed : (other.id == row.id) = false := beq_eq_false_iff_ne.mpr other_leased
      have picked : (old.id == row.id) = true := beq_iff_eq.mpr old_leased
      simp only [missed, picked] at second_active same
      refine absurd ?_ (alone other other_stored second_active)
      rw [EffectRow.sameLane_iff] at same ⊢
      rw [← old_eq]
      exact ⟨same.1.symm, same.2.symm⟩
  · have missed : (old.id == row.id) = false := beq_eq_false_iff_ne.mpr old_leased
    by_cases other_leased : other.id = row.id
    · have other_eq : other = row := Table.eq_of_mem other_stored stored other_leased
      have picked : (other.id == row.id) = true := beq_iff_eq.mpr other_leased
      simp only [missed, picked] at first_active same
      refine absurd ?_ (alone old old_stored first_active)
      rw [← other_eq]
      exact same
    · have other_missed : (other.id == row.id) = false := beq_eq_false_iff_ne.mpr other_leased
      simp only [missed, other_missed]
        at first_active second_active same ⊢
      exact serial old old_stored other other_stored first_active second_active same

theorem Serial.claimEffect (worker : String) (now leaseMs : Int) :
    Serial (outbox.claimEffect worker now leaseMs).1 := by
  have expired := serial.expireLeases now
  obtain result | ⟨row, stored, claimable, _, result⟩ :=
    outbox.claimEffect_cases worker now leaseMs
  · rw [result]
    exact expired
  · rw [result]
    exact expired.lease claimable stored worker now leaseMs

/-- A statement on rows held under an effect. -/
theorem Serial.update_held {effect : Effect} {keeps : ∀ row, (set row).id = row.id}
    (thread : ∀ row, (set row).threadId = row.threadId)
    (request : ∀ row, (set row).request = row.request)
    (held : ∀ row, which row = true → row.heldUnder effect = true) :
    Serial (outbox.update which set keeps) := by
  apply serial.update_of_status thread request
  intro row picked
  have running := ((EffectRow.held_iff row effect).mp (held row picked)).running
  exact .inl ((EffectRow.active_iff row).mpr (.inl running))

theorem Serial.beginEffect (effect : Effect) (now : Int) :
    Serial (outbox.beginEffect effect now).1 := by
  apply serial.update_held
  · intro row
    rfl
  · intro row
    rfl
  · intro row picked
    simp only [Bool.and_eq_true] at picked
    exact picked.1.1

theorem Serial.finishEffect (effect : Effect) (outcome : EffectOutcome) (now : Int)
    (maxAttempts : Nat) :
    Serial (outbox.finishEffect effect outcome now maxAttempts).1 := by
  apply serial.update_held
  · intro row
    rfl
  · intro row
    rfl
  · intro row picked
    rw [Bool.and_eq_true] at picked
    exact picked.1

theorem Serial.abandonEffect (effect : Effect) (now : Int) :
    Serial (outbox.abandonEffect effect now).1 := by
  unfold Outbox.abandonEffect
  split
  all_goals
    apply serial.update_held
    · intro row
      rfl
    · intro row
      rfl
    · intro row picked
      exact picked

theorem Serial.cancelEffect (id : String) (now : Int) : Serial (outbox.cancelEffect id now).1 := by
  apply serial.update_of_status
  · intro row
    rfl
  · intro row
    rfl
  · intro row _
    exact .inr (.inr rfl)

/-- A statement on uncertain rows. -/
theorem Serial.update_uncertain {keeps : ∀ row, (set row).id = row.id}
    (thread : ∀ row, (set row).threadId = row.threadId)
    (request : ∀ row, (set row).request = row.request)
    (uncertain : ∀ row, which row = true → row.status = .uncertain) :
    Serial (outbox.update which set keeps) := by
  apply serial.update_of_status thread request
  intro row picked
  exact .inl ((EffectRow.active_iff row).mpr (.inr (uncertain row picked)))

theorem Serial.resolveUncertain (id : String) (accepted : Bool) (now : Int) :
    Serial (outbox.resolveUncertain id accepted now).1 := by
  apply serial.update_uncertain
  · intro row
    rfl
  · intro row
    rfl
  · intro row picked
    rw [Bool.and_eq_true, beq_iff_eq, beq_iff_eq] at picked
    exact picked.2

theorem Serial.confirm (effect : Effect) (exact : Bool) (now : Int) :
    Serial (outbox.confirm effect exact now).1 := by
  unfold Outbox.confirm
  split
  · apply Serial.update_uncertain
    · split
      all_goals exact serial
    · intro row
      rfl
    · intro row
      rfl
    · intro row picked
      rw [Bool.and_eq_true, beq_iff_eq, beq_iff_eq] at picked
      exact picked.2
  · exact serial

theorem Serial.recover (now : Int) : Serial (outbox.recover now) := by
  apply Serial.update_of_status
  · apply Serial.update_of_status
    · apply Serial.update_of_status
      · apply Serial.update_of_status
        · apply serial.update_of_status
          · intro row
            rfl
          · intro row
            rfl
          · intro row picked
            simp only [Bool.and_eq_true] at picked
            exact .inl picked.1.2
        · intro row
          rfl
        · intro row
          rfl
        · intro row picked
          simp only [Bool.and_eq_true, beq_iff_eq] at picked
          exact .inl ((EffectRow.active_iff row).mpr (.inl picked.1.1))
      · intro row
        rfl
      · intro row
        rfl
      · intro row _
        exact .inr (.inr rfl)
    · intro row
      rfl
    · intro row
      rfl
    · intro row _
      exact .inr (.inr rfl)
  · intro row
    rfl
  · intro row
    rfl
  · intro row _
    exact .inr (.inl rfl)

end

/-- What an enqueue that succeeds does. -/
theorem enqueue_cases {next : Outbox} {id command thread : String} {request : EffectRequest}
    {stopped : List String} {now : Int}
    (enqueued : outbox.enqueue id command thread request stopped now = some next) :
    ∃ retired row,
      (retired = outbox ∨ retired = outbox.retireForStart thread stopped now) ∧
      row.id = id ∧ row.status = .pending ∧ row.attemptCount = 0 ∧
      retired.rows.insert row = some next.rows := by
  obtain ⟨rows, inserted, rfl⟩ := Option.map_eq_some_iff.mp enqueued
  refine ⟨_, _, ?_, ?_, ?_, ?_, inserted⟩
  · cases request
    case providerTurnStart => exact .inr rfl
    all_goals exact .inl rfl
  · rfl
  · rfl
  · rfl

theorem Serial.enqueue {next : Outbox} (serial : Serial outbox) {id command thread : String}
    {request : EffectRequest} {stopped : List String} {now : Int}
    (enqueued : outbox.enqueue id command thread request stopped now = some next) :
    Serial next := by
  obtain ⟨retired, row, before, _, pending, _, inserted⟩ := enqueue_cases enqueued
  have retired_serial : Serial retired := by
    obtain rfl | rfl := before
    · exact serial
    · exact serial.retireForStart thread stopped now
  have idle : ¬ row.active = true := by
    rw [EffectRow.active_iff, pending]
    rintro (wrong | wrong) <;> cases wrong
  intro first first_stored second second_stored first_active second_active same
  rw [Table.rows_insert inserted, List.mem_append, List.mem_singleton] at first_stored
  rw [Table.rows_insert inserted, List.mem_append, List.mem_singleton] at second_stored
  obtain first_stored | rfl := first_stored
  · obtain second_stored | rfl := second_stored
    · exact retired_serial first first_stored second second_stored first_active second_active same
    · exact absurd second_active idle
  · exact absurd first_active idle

theorem Serial.apply (serial : Serial outbox) (event : OutboxEvent) :
    Serial (outbox.apply event) := by
  cases event with
  | enqueue id command thread request stopped now =>
      simp only [Outbox.apply]
      cases enqueued : outbox.enqueue id command thread request stopped now with
      | none => exact serial
      | some next => exact serial.enqueue enqueued
  | claim worker now leaseMs => exact serial.claimEffect worker now leaseMs
  | begin effect now => exact serial.beginEffect effect now
  | finish effect outcome now maxAttempts =>
      exact serial.finishEffect effect outcome now maxAttempts
  | abandon effect now => exact serial.abandonEffect effect now
  | cancelEffect id now => exact serial.cancelEffect id now
  | cancelProcess thread now => exact serial.cancelProcess thread now
  | resolveUncertain id accepted now => exact serial.resolveUncertain id accepted now
  | confirm effect exact now => exact serial.confirm effect exact now
  | recover now => exact serial.recover now

/-- A claim takes an effect before which no effect of its lane is open. -/
def ClaimedInOrder (outbox : Outbox) : OutboxEvent → Prop
  | .claim worker now leaseMs => ∀ effect,
      (outbox.claimEffect worker now leaseMs).2 = some effect →
      ∃ claimed ∈ outbox.rows.rows, claimed.id = effect.id ∧
        ∀ row ∈ outbox.rows.rows, row.sameLane claimed = true →
          row.ordinal < claimed.ordinal →
          row.status ≠ .pending ∧ row.status ≠ .running ∧ row.status ≠ .uncertain
  | _ => True

/-- A worker changes a row only under the claim that the row is held under. -/
def Fenced (outbox : Outbox) (event : OutboxEvent) : Prop :=
  ∀ effect, (∃ outcome now maxAttempts, event = .finish effect outcome now maxAttempts) ∨
      (∃ now, event = .abandon effect now) →
    ∀ id, (outbox.apply event).rows.get id ≠ outbox.rows.get id →
      ∃ row, outbox.rows.get id = some row ∧ row.Held effect

/-- Leases that expire leave their rows open. -/
theorem open_expireLeases (now : Int) {row : EffectRow} (stored : row ∈ outbox.rows.rows)
    (is_open : row.status = .pending ∨ row.active = true) :
    ∃ later ∈ (outbox.expireLeases now).rows.rows, later.id = row.id ∧
      later.threadId = row.threadId ∧ later.request = row.request ∧
      later.ordinal = row.ordinal ∧ (later.status = .pending ∨ later.active = true) := by
  refine ⟨_, mem_update.mpr ⟨row, stored, rfl⟩, ?_⟩
  split
  · refine ⟨rfl, rfl, rfl, rfl, ?_⟩
    rw [EffectRow.active_iff]
    split
    · exact .inr (.inr rfl)
    · exact .inl rfl
  · exact ⟨rfl, rfl, rfl, rfl, is_open⟩

/-- Leases that expire move no row. -/
theorem of_mem_expireLeases {now : Int} {row : EffectRow}
    (stored : row ∈ (outbox.expireLeases now).rows.rows) :
    ∃ old ∈ outbox.rows.rows, old.id = row.id ∧ old.threadId = row.threadId ∧
      old.request = row.request ∧ old.ordinal = row.ordinal := by
  obtain ⟨old, old_stored, rfl⟩ := mem_update.mp stored
  refine ⟨old, old_stored, ?_⟩
  split <;> exact ⟨rfl, rfl, rfl, rfl⟩

theorem claimedInOrder (outbox : Outbox) (event : OutboxEvent) :
    outbox.ClaimedInOrder event := by
  cases event
  case claim worker now leaseMs =>
      intro effect claimed_effect
      obtain result | ⟨row, stored, claimable, _, result⟩ :=
        outbox.claimEffect_cases worker now leaseMs
      · rw [result] at claimed_effect
        cases claimed_effect
      · rw [result] at claimed_effect
        obtain ⟨leased, found, rfl⟩ := Option.map_eq_some_iff.mp claimed_effect
        obtain ⟨claimed, claimed_stored, same_id, same_thread, same_request, same_ordinal⟩ :=
          of_mem_expireLeases stored
        obtain ⟨_, free, first⟩ := ((outbox.expireLeases now).claimable_iff row).mp claimable
        refine ⟨claimed, claimed_stored, same_id.trans (Table.key_of_get found).symm, ?_⟩
        intro other other_stored same earlier
        -- An open row ahead of it would still be open after the leases have expired.
        have shut : ¬ (other.status = .pending ∨ other.active = true) := by
          intro is_open
          obtain ⟨later, later_stored, _, thread, request, ordinal, still_open⟩ :=
            open_expireLeases now other_stored is_open
          have later_same : later.sameLane row = true := by
            rw [EffectRow.sameLane_iff] at same ⊢
            rw [thread, request, ← same_thread, ← same_request]
            exact same
          obtain pending | active := still_open
          · refine first later later_stored later_same ?_ pending
            rw [ordinal, ← same_ordinal]
            exact earlier
          · rw [free later later_stored later_same] at active
            cases active
        rw [EffectRow.active_iff, not_or, not_or] at shut
        exact shut
  all_goals exact trivial

/-- A row that a statement changes was picked by it. -/
theorem picked_of_get_ne {keeps : ∀ row, (set row).id = row.id} {id : String}
    (changed : (outbox.update which set keeps).rows.get id ≠ outbox.rows.get id) :
    ∃ row, outbox.rows.get id = some row ∧ which row = true := by
  rw [get_update] at changed
  cases found : outbox.rows.get id with
  | none =>
      rw [found] at changed
      exact absurd rfl changed
  | some row =>
      rw [found, Option.map_some] at changed
      by_cases picked : which row = true
      · exact ⟨row, rfl, picked⟩
      · rw [if_neg picked] at changed
        exact absurd rfl changed

theorem fenced (outbox : Outbox) (event : OutboxEvent) : outbox.Fenced event := by
  rintro effect (⟨outcome, now, maxAttempts, rfl⟩ | ⟨now, rfl⟩) id changed
  · obtain ⟨row, found, picked⟩ := picked_of_get_ne changed
    rw [Bool.and_eq_true] at picked
    exact ⟨row, found, (EffectRow.held_iff row effect).mp picked.1⟩
  · simp only [apply, abandonEffect] at changed
    split at changed
    all_goals
      obtain ⟨row, found, picked⟩ := picked_of_get_ne changed
      exact ⟨row, found, (EffectRow.held_iff row effect).mp picked⟩

end Outbox

end Zeron.Orchestration
