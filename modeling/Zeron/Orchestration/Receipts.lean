import Zeron.Data.Once
import Zeron.Orchestration.Store

/-!
# Receipts

Only the two writes of a receipt touch the receipts, so a dispatch that gets
through has answered its command under the command's id and no other.
-/

namespace Zeron.Orchestration

open Zeron.Data

variable {content rows other operation : Type}
  {kernel : Kernel content rows other operation}

/-- The tables that effects and the queue do not touch. -/
structure Tables.Core (content rows : Type) where
  hostId : String
  epoch : Int
  events : Table (@Envelope.eventId content)
  projections : rows
  publications : Publications content
  receipts : Table CommandReceipt.commandId

def Tables.core (tables : Tables content rows other) : Tables.Core content rows :=
  { hostId := tables.hostId, epoch := tables.epoch, events := tables.events,
    projections := tables.projections, publications := tables.publications,
    receipts := tables.receipts }

theorem keeps_core_cancelThreads (now : Int) (threads : List String) :
    (cancelThreads now threads : Program content rows other PUnit).Keeps Tables.core := by
  induction threads with
  | nil => exact Tx.keeps_give _
  | cons thread threads ih =>
      refine (Tx.keeps_change (by intro; rfl)).bind fun _ => ?_
      refine (Tx.keeps_boundary _).bind fun _ => ?_
      exact ih

theorem keeps_core_enqueueEffect (id commandId thread : String) (request : EffectRequest)
    (now : Int) :
    (enqueueEffect kernel id commandId thread request now).Keeps Tables.core := by
  refine Tx.keeps_look.bind fun tables => ?_
  refine (Tx.keeps_orRaise _ _).bind fun outbox => ?_
  refine (Tx.keeps_ofExcept _).bind fun admitted => ?_
  exact Tx.keeps_change (by intro; rfl)

theorem keeps_core_enqueueEffects (command : Command operation) (now : Int) (index : Nat)
    (effects : List (String × EffectRequest)) :
    (enqueueEffects kernel command now index effects).Keeps Tables.core := by
  induction effects generalizing index with
  | nil => exact Tx.keeps_give _
  | cons effect effects ih =>
      refine (Tx.keeps_require _ _).bind fun _ => ?_
      refine (keeps_core_enqueueEffect _ _ _ _ _).bind fun _ => ?_
      refine (Tx.keeps_boundary _).bind fun _ => ?_
      exact ih _

theorem keeps_core_recordAdoption (command : Command operation) (sequence : Nat)
    (legacy : Option String) :
    (recordAdoption command sequence legacy : Program content rows other PUnit).Keeps
      Tables.core := by
  cases legacy with
  | none => exact Tx.keeps_give _
  | some legacy =>
      refine Tx.keeps_look.bind fun tables => ?_
      refine (Tx.keeps_require _ _).bind fun _ => ?_
      refine (Tx.keeps_change (by intro; rfl)).bind fun _ => ?_
      exact Tx.keeps_boundary _

theorem keeps_core_performPlan (command : Command operation) (now : Int) (plan : Plan content)
    (sequence : Nat) : (performPlan kernel command now plan sequence).Keeps Tables.core := by
  refine (keeps_core_cancelThreads _ _).bind fun _ => ?_
  refine (keeps_core_enqueueEffects _ _ _ _).bind fun _ => ?_
  refine (keeps_core_recordAdoption _ _ _).bind fun _ => ?_
  refine (Tx.keeps_change (by intro; rfl)).bind fun _ => ?_
  exact Tx.keeps_change (by intro; rfl)

theorem keeps_receipts_performPlan (command : Command operation) (now : Int)
    (plan : Plan content) (sequence : Nat) :
    (performPlan kernel command now plan sequence).Keeps Tables.receipts :=
  (keeps_core_performPlan _ _ _ _).part Tables.Core.receipts

theorem keeps_receipts_appendEvent (commandId : Option String) (event : DomainEvent content) :
    (appendEvent kernel commandId event).Keeps Tables.receipts := by
  refine Tx.keeps_look.bind fun tables => ?_
  refine (Tx.keeps_orRaise _ _).bind fun events => ?_
  refine (Tx.keeps_change (by intro; rfl)).bind fun _ => ?_
  refine (Tx.keeps_boundary _).bind fun _ => ?_
  refine (Tx.keeps_within (by intros; rfl) _).bind fun _ => ?_
  refine (Tx.keeps_boundary _).bind fun _ => ?_
  exact Tx.keeps_give _

theorem keeps_receipts_appendPlanned (command : Command operation)
    (events : List (DomainEvent content)) (receipt : CommandReceipt) (changed : List String) :
    (appendPlanned kernel command events receipt changed).Keeps Tables.receipts := by
  induction events generalizing receipt changed with
  | nil => exact Tx.keeps_give _
  | cons event events ih =>
      refine (Tx.keeps_require _ _).bind fun _ => ?_
      refine (keeps_receipts_appendEvent _ _).bind fun stored => ?_
      exact ih _ _

theorem keeps_receipts_enqueuePublication (identity : String) (sequence : Nat)
    (threads : List String) :
    (enqueuePublication kernel identity sequence threads).Keeps Tables.receipts := by
  refine Tx.keeps_look.bind fun tables => ?_
  refine (Tx.keeps_orRaise _ _).bind fun documents => ?_
  refine (Tx.keeps_orRaise _ _).bind fun publications => ?_
  exact Tx.keeps_change (by intro; rfl)

/-- The loop over the events changes nothing of the receipt but its sequence. -/
theorem appendPlanned_receipt (command : Command operation) (events : List (DomainEvent content))
    (receipt : CommandReceipt) (changed : List String) :
    (appendPlanned kernel command events receipt changed).Ensures fun _ result _ =>
      result.1 = { receipt with resultSequence := result.1.resultSequence } := by
  induction events generalizing receipt changed with
  | nil =>
      refine (Tx.ensures_give _).imp ?_
      rintro _ result _ ⟨rfl, _⟩
      rfl
  | cons event events ih =>
      refine ((Tx.ensures_require _ _).bind fun _ =>
        Tx.Ensures.bind (keeps_receipts_appendEvent _ _) fun stored => ih _ _).imp ?_
      rintro _ result _ ⟨_, _, _, _, _, _, same⟩
      exact same

/-- The second write of a receipt finds the first. -/
theorem get_putReceipt (receipt : CommandReceipt) :
    (putReceipt receipt : Program content rows other PUnit).Ensures fun before _ final =>
      ∀ k, final.receipts.get k =
        if receipt.commandId = k then
          some (match before.receipts.get receipt.commandId with
            | some old => { old with resultSequence := receipt.resultSequence }
            | none => receipt)
        else before.receipts.get k := by
  refine (Tx.ensures_change _).imp ?_
  rintro before _ _ rfl k
  rw [Table.get_put]
  cases found : before.receipts.get receipt.commandId with
  | none => rfl
  | some old =>
      have same := Table.key_of_get found
      simp only [same]

theorem keeps_receipts_publishChanges (identity : String) (sequence : Nat)
    (changed : List String) :
    (publishChanges kernel identity sequence changed).Keeps Tables.receipts := by
  unfold publishChanges
  split
  · exact Tx.keeps_give _
  · exact (keeps_receipts_enqueuePublication _ _ _).bind fun _ => Tx.keeps_boundary _

/-- An executed plan has answered its command and touched no other receipt. -/
theorem executePlan_receipts (command : Command operation) (now : Int) (plan : Plan content)
    (reserved : CommandReceipt) :
    (executePlan kernel command now plan reserved).Ensures fun before receipt final =>
      before.receipts.get reserved.commandId = none →
        receipt.status = reserved.status ∧ ∀ k, final.receipts.get k =
          if reserved.commandId = k then some receipt else before.receipts.get k := by
  intro before final fault left receipt ran absent
  obtain ⟨_, _, _, first, ran⟩ := Tx.of_bind ran
  obtain ⟨_, reserving, _, passed, ran⟩ := Tx.of_bind ran
  obtain ⟨appended, _, _, appending, ran⟩ := Tx.of_bind ran
  obtain ⟨_, _, _, performing, ran⟩ := Tx.of_bind ran
  obtain ⟨_, finishing, _, publishing, ran⟩ := Tx.of_bind ran
  obtain ⟨_, written, _, last, ran⟩ := Tx.of_bind ran
  obtain ⟨_, _, _, finished, ran⟩ := Tx.of_bind ran
  obtain ⟨rfl, rfl⟩ := (Tx.ensures_give _).of_run ran
  obtain rfl := (Tx.ensures_boundary _).of_run passed
  obtain rfl := (Tx.ensures_boundary _).of_run finished
  have kept : finishing.receipts = reserving.receipts := by
    rw [(keeps_receipts_publishChanges _ _ _).of_run publishing,
      (keeps_receipts_performPlan _ _ _ _).of_run performing,
      (keeps_receipts_appendPlanned _ _ _ _).of_run appending]
  have same := (appendPlanned_receipt _ _ _ _).of_run appending
  have reservation := (get_putReceipt _).of_run first
  have final_write := (get_putReceipt _).of_run last
  rw [absent] at reservation
  have id_same : appended.1.commandId = reserved.commandId := by
    rw [same]
  have status_same : appended.1.status = reserved.status := by
    rw [same]
  refine ⟨status_same, ?_⟩
  intro k
  rw [final_write, kept, id_same, reservation, reservation, if_pos rfl]
  split
  · exact congrArg some same.symm
  · rfl

/-- Events, read model, effects and publications are as they were. -/
def Untouched (before after : Tables content rows other) : Prop :=
  after.events = before.events ∧ after.projections = before.projections ∧
    after.outbox = before.outbox ∧ after.publications = before.publications

theorem untouched_putReceipt (receipt : CommandReceipt) :
    (putReceipt receipt : Program content rows other PUnit).Ensures fun before _ final =>
      Untouched before final := by
  refine (Tx.ensures_change _).imp ?_
  rintro before _ _ rfl
  exact ⟨rfl, rfl, rfl, rfl⟩

/-- A command without a receipt gets one; a refused one leaves nothing else. -/
theorem execute_receipts (command : Command operation) (now : Int) :
    (execute kernel command now).Ensures fun before receipt final =>
      before.receipts.get command.id = none →
        (receipt.status = .rejected → Untouched before final) ∧ ∀ k, final.receipts.get k =
          if command.id = k then some receipt else before.receipts.get k := by
  intro before final fault left receipt ran absent
  obtain ⟨_, _, _, passed, ran⟩ := Tx.of_bind ran
  obtain ⟨commandType, _, _, typed, ran⟩ := Tx.of_bind ran
  obtain ⟨acceptedAt, _, _, dated, ran⟩ := Tx.of_bind ran
  obtain ⟨tables, _, _, looked, ran⟩ := Tx.of_bind ran
  obtain ⟨_, planning, _, planned, ran⟩ := Tx.of_bind ran
  obtain rfl := (Tx.ensures_boundary _).of_run passed
  obtain ⟨_, rfl⟩ := (Tx.ensures_ofExcept _).of_run typed
  obtain ⟨_, rfl⟩ := (Tx.ensures_ofExcept _).of_run dated
  obtain ⟨rfl, rfl⟩ := Tx.ensures_look.of_run looked
  obtain rfl := (Tx.ensures_change _).of_run planned
  split at ran
  · cases ran
  · obtain ⟨_, written, _, put, ran⟩ := Tx.of_bind ran
    obtain ⟨_, _, _, finished, ran⟩ := Tx.of_bind ran
    obtain ⟨rfl, rfl⟩ := (Tx.ensures_give _).of_run ran
    obtain rfl := (Tx.ensures_boundary _).of_run finished
    have reservation := (get_putReceipt _).of_run put
    simp only [absent] at reservation
    have untouched := (untouched_putReceipt _).of_run put
    exact ⟨fun _ => untouched, reservation⟩
  · obtain ⟨_, _, _, required, ran⟩ := Tx.of_bind ran
    obtain ⟨_, rfl⟩ := (Tx.ensures_require _ _).of_run required
    obtain ⟨accepted, answered⟩ := (executePlan_receipts _ _ _ _).of_run ran absent
    refine ⟨?_, answered⟩
    intro rejected
    rw [accepted] at rejected
    cases rejected

/-- A dispatch answers a recorded command with its receipt and records every
other. -/
theorem dispatch_receipts (command : Command operation) (now : Int) :
    (dispatch kernel command now).Ensures fun before receipt final =>
      (before.receipts.get command.id = some receipt ∧ final = before) ∨
        (before.receipts.get command.id = none ∧
          (receipt.status = .rejected → Untouched before final) ∧ ∀ k, final.receipts.get k =
            if command.id = k then some receipt else before.receipts.get k) := by
  intro before final fault left receipt ran
  obtain ⟨_, _, _, looked, checking⟩ := Tx.of_bind ran
  obtain ⟨_, _, _, required, reading⟩ := Tx.of_bind checking
  obtain ⟨tables, _, _, looked_again, deciding⟩ := Tx.of_bind reading
  obtain ⟨rfl, rfl⟩ := Tx.ensures_look.of_run looked
  obtain ⟨_, rfl⟩ := (Tx.ensures_require _ _).of_run required
  obtain ⟨rfl, rfl⟩ := Tx.ensures_look.of_run looked_again
  split at deciding
  · rename_i stored found
    obtain ⟨rfl, rfl⟩ := (Tx.ensures_give _).of_run deciding
    exact .inl ⟨found, rfl⟩
  · rename_i absent
    exact .inr ⟨absent, (execute_receipts _ _).of_run deciding absent⟩

end Zeron.Orchestration
