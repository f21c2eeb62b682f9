import Zeron.Data.Replicated

/-!
# The queue in the chat document

Messages that wait for the agent are rows of a movable list in the chat document, and
every device has a replica of it.  A row has an id of its own, which it keeps when it
is put back, and the row is the container that a replica finds under its id first.
What a replica shows of the list is up to the document library.

Blank texts are `none`: no row has one, since they are neither pushed nor read.
-/

namespace Zeron.Queue

open Zeron.Data
open Zeron.Data.Replicated

/-- A row under a gate is not delivered.  A text stands for its hash. -/
inductive QueueDeliveryGate (τ : Type) where
  | editing (leaseId expiresAtMs : Nat) (baseText : τ)
  | reviewRequired (previousLeaseId : Nat) (baseText : τ)
  deriving DecidableEq

structure QueuedMessage (τ : Type) where
  id : Nat
  text : τ
  attachments : List Nat
  deliveryGate : Option (QueueDeliveryGate τ)
  deriving DecidableEq

/-- The keys of a row that a commit writes. -/
structure RowEdit (τ : Type) where
  text : Option τ
  attachments : Option (List Nat)
  deliveryGate : Option (Option (QueueDeliveryGate τ))

def RowEdit.write {τ : Type} (edit : RowEdit τ) (item : QueuedMessage τ) : QueuedMessage τ :=
  { item with
    text := edit.text.getD item.text
    attachments := edit.attachments.getD item.attachments
    deliveryGate := edit.deliveryGate.getD item.deliveryGate }

@[simp]
theorem RowEdit.id_write {τ : Type} (edit : RowEdit τ) (item : QueuedMessage τ) :
    (edit.write item).id = item.id :=
  rfl

abbrev QueueOp (τ : Type) := Op (QueuedMessage τ) (RowEdit τ)

abbrev QueueCommit (τ : Type) := Commit (QueuedMessage τ) (RowEdit τ)

abbrev QueueList (τ : Type) := SharedList (QueuedMessage τ) (RowEdit τ)

/-- The queue as a replica shows it. -/
abbrev SessionDoc (τ : Type) := List (Container (QueuedMessage τ))

/-- How long an edit lease lasts. -/
def queueEditLeaseMs : Nat := 60000

/-- How an edit under a lease ends. -/
inductive FinishQueueEditAction (τ : Type) where
  | commit (text : Option τ) (expectedText : τ) (attachments : Option (List Nat))
  | cancel
  | releaseUnchanged
  | discard

namespace SessionDoc

variable {τ : Type}

/-- The row of an id, `index_of`. -/
def find (doc : SessionDoc τ) (id : Nat) : Option (Container (QueuedMessage τ)) :=
  doc.find? fun row => decide (row.value.id = id)

/-- `take_queued`: the row and the commit that deletes it, unless it has a gate. -/
def takeQueued (doc : SessionDoc τ) (id : Nat) : Option (QueuedMessage τ × QueueOp τ) :=
  (doc.find id).bind fun row =>
    if row.value.deliveryGate.isSome then none else some (row.value, .delete row.name)

def removeQueued (doc : SessionDoc τ) (id : Nat) : Option (QueueOp τ) :=
  (doc.find id).map fun row => .delete row.name

/-- `set_queued_text`: a blank text drops the row. -/
def setQueuedText [DecidableEq τ] (doc : SessionDoc τ) (id : Nat) : Option τ → Option (QueueOp τ)
  | none => doc.removeQueued id
  | some text =>
      (doc.find id).bind fun row =>
        if row.value.text = text then none
        else some (.write row.name { text := some text, attachments := none, deliveryGate := none })

def setQueuedDeliveryGate (doc : SessionDoc τ) (id : Nat) (gate : Option (QueueDeliveryGate τ)) :
    Option (QueueOp τ) :=
  (doc.find id).map fun row =>
    .write row.name { text := none, attachments := none, deliveryGate := some gate }

/-- `finish_queued_edit_with_attachments`: the gate goes with the edit. -/
def finishQueuedEdit (doc : SessionDoc τ) (id : Nat) (replacement : Option (Option τ))
    (attachments : Option (List Nat)) : Option (QueueOp τ) :=
  match replacement with
  | some none => doc.removeQueued id
  | some (some text) =>
      (doc.find id).map fun row =>
        .write row.name { text := some text, attachments, deliveryGate := some none }
  | none =>
      (doc.find id).map fun row =>
        .write row.name { text := none, attachments, deliveryGate := some none }

/-- `move_queued`; the index is that of the row afterwards. -/
def moveQueued (doc : SessionDoc τ) (id toIndex : Nat) : Option (QueueOp τ) :=
  (doc.find id).bind fun row =>
    if doc.findIdx? (fun row => decide (row.value.id = id)) =
        some (min toIndex (doc.length - 1)) then none
    else some (.move row.name (min toIndex (doc.length - 1)))

/-! ## Edit leases -/

/-- `begin_queued_message_edit`: a lease that has not run out is left alone. -/
def beginEdit (doc : SessionDoc τ) (now id leaseId : Nat) : Option (QueueOp τ) :=
  (doc.find id).bind fun row =>
    let acquired := doc.setQueuedDeliveryGate id
      (some (.editing leaseId (now + queueEditLeaseMs) row.value.text))
    match row.value.deliveryGate with
    | some (.editing _ expiresAtMs _) => if now < expiresAtMs then none else acquired
    | some (.reviewRequired _ _) => acquired
    | none => acquired

/-- `renew_queued_message_edit`: a lease that has run out is due for review. -/
def renewEdit (doc : SessionDoc τ) (now id leaseId : Nat) : Option (QueueOp τ) :=
  (doc.find id).bind fun row =>
    match row.value.deliveryGate with
    | some (.editing current expiresAtMs baseText) =>
        if current ≠ leaseId then none
        else if expiresAtMs ≤ now then
          doc.setQueuedDeliveryGate id (some (.reviewRequired current baseText))
        else
          doc.setQueuedDeliveryGate id (some (.editing current (now + queueEditLeaseMs) baseText))
    | some (.reviewRequired _ _) => none
    | none => none

/-- `expire_queued_message_edit`: for the very lease that it was scheduled for. -/
def expireEdit (doc : SessionDoc τ) (now id leaseId scheduledMs : Nat) : Option (QueueOp τ) :=
  (doc.find id).bind fun row =>
    match row.value.deliveryGate with
    | some (.editing current expiresAtMs baseText) =>
        if current ≠ leaseId ∨ expiresAtMs ≠ scheduledMs ∨ now < expiresAtMs then none
        else doc.setQueuedDeliveryGate id (some (.reviewRequired current baseText))
    | some (.reviewRequired _ _) => none
    | none => none

/-- The lease that a gate was made for, with the text that was there. -/
def leaseOf : QueueDeliveryGate τ → Nat × τ
  | .editing leaseId _ baseText => (leaseId, baseText)
  | .reviewRequired previousLeaseId baseText => (previousLeaseId, baseText)

/-- `finish_queued_message_edit_with_attachments`: by the holder of the lease, and a
commit only if the text is still the one it was based on. -/
def finishEdit [DecidableEq τ] (doc : SessionDoc τ) (id leaseId : Nat) :
    FinishQueueEditAction τ → Option (QueueOp τ)
  | .commit text expectedText attachments =>
      (doc.find id).bind fun row =>
        row.value.deliveryGate.bind fun gate =>
          if (leaseOf gate).1 ≠ leaseId ∨ expectedText ≠ (leaseOf gate).2 ∨
              row.value.text ≠ (leaseOf gate).2 then none
          else doc.finishQueuedEdit id (some text) attachments
  | .cancel | .releaseUnchanged =>
      (doc.find id).bind fun row =>
        row.value.deliveryGate.bind fun gate =>
          if (leaseOf gate).1 ≠ leaseId then none else doc.finishQueuedEdit id none none
  | .discard =>
      (doc.find id).bind fun row =>
        row.value.deliveryGate.bind fun gate =>
          if (leaseOf gate).1 ≠ leaseId then none else doc.finishQueuedEdit id (some none) none

/-! ## Commits are about rows that the replica holds -/

theorem find_some {doc : SessionDoc τ} {id : Nat} {row : Container (QueuedMessage τ)}
    (found : doc.find id = some row) : row ∈ doc ∧ row.value.id = id := by
  exact ⟨List.mem_of_find?_eq_some found, by simpa using List.find?_some found⟩

/-- A commit that deletes or changes the row of this id. -/
def Touches (doc : SessionDoc τ) (id : Nat) (op : QueueOp τ) : Prop :=
  ∃ row, doc.find id = some row ∧
    (op = .delete row.name ∨ ∃ edit, op = .write row.name edit)

variable {doc : SessionDoc τ} {id : Nat} {op : QueueOp τ}

theorem touches_of_removeQueued (made : doc.removeQueued id = some op) : doc.Touches id op := by
  obtain ⟨row, found, rfl⟩ := Option.map_eq_some_iff.mp made
  exact ⟨row, found, Or.inl rfl⟩

theorem touches_of_setQueuedDeliveryGate {gate : Option (QueueDeliveryGate τ)}
    (made : doc.setQueuedDeliveryGate id gate = some op) : doc.Touches id op := by
  obtain ⟨row, found, rfl⟩ := Option.map_eq_some_iff.mp made
  exact ⟨row, found, Or.inr ⟨_, rfl⟩⟩

theorem touches_of_finishQueuedEdit {replacement : Option (Option τ)}
    {attachments : Option (List Nat)}
    (made : doc.finishQueuedEdit id replacement attachments = some op) : doc.Touches id op := by
  match replacement, made with
  | some none, made => exact touches_of_removeQueued made
  | some (some text), made =>
      obtain ⟨row, found, rfl⟩ := Option.map_eq_some_iff.mp made
      exact ⟨row, found, Or.inr ⟨_, rfl⟩⟩
  | none, made =>
      obtain ⟨row, found, rfl⟩ := Option.map_eq_some_iff.mp made
      exact ⟨row, found, Or.inr ⟨_, rfl⟩⟩

theorem moveQueued_some {toIndex : Nat} (made : doc.moveQueued id toIndex = some op) :
    ∃ row index, doc.find id = some row ∧ op = .move row.name index := by
  obtain ⟨row, found, made⟩ := Option.bind_eq_some_iff.mp made
  split at made
  · cases made
  · cases made
    exact ⟨row, _, found, rfl⟩

theorem touches_of_setQueuedText [DecidableEq τ] {text : Option τ}
    (made : doc.setQueuedText id text = some op) : doc.Touches id op := by
  cases text with
  | none => exact touches_of_removeQueued made
  | some text =>
      obtain ⟨row, found, made⟩ := Option.bind_eq_some_iff.mp made
      split at made
      · cases made
      · cases made
        exact ⟨row, found, Or.inr ⟨_, rfl⟩⟩

theorem touches_of_beginEdit {now leaseId : Nat} (made : doc.beginEdit now id leaseId = some op) :
    doc.Touches id op := by
  obtain ⟨row, found, made⟩ := Option.bind_eq_some_iff.mp made
  split at made
  · split at made
    · cases made
    · exact touches_of_setQueuedDeliveryGate made
  · exact touches_of_setQueuedDeliveryGate made
  · exact touches_of_setQueuedDeliveryGate made

theorem touches_of_renewEdit {now leaseId : Nat} (made : doc.renewEdit now id leaseId = some op) :
    doc.Touches id op := by
  obtain ⟨row, found, made⟩ := Option.bind_eq_some_iff.mp made
  split at made
  · split at made
    · cases made
    · split at made
      · exact touches_of_setQueuedDeliveryGate made
      · exact touches_of_setQueuedDeliveryGate made
  · cases made
  · cases made

theorem touches_of_expireEdit {now leaseId scheduledMs : Nat}
    (made : doc.expireEdit now id leaseId scheduledMs = some op) : doc.Touches id op := by
  obtain ⟨row, found, made⟩ := Option.bind_eq_some_iff.mp made
  split at made
  · split at made
    · cases made
    · exact touches_of_setQueuedDeliveryGate made
  · cases made
  · cases made

theorem touches_of_finishEdit [DecidableEq τ] {leaseId : Nat} {action : FinishQueueEditAction τ}
    (made : doc.finishEdit id leaseId action = some op) : doc.Touches id op := by
  cases action <;>
  · obtain ⟨row, found, made⟩ := Option.bind_eq_some_iff.mp made
    obtain ⟨gate, gated, made⟩ := Option.bind_eq_some_iff.mp made
    split at made
    · cases made
    · exact touches_of_finishQueuedEdit made

theorem takeQueued_some {item : QueuedMessage τ} (taken : doc.takeQueued id = some (item, op)) :
    ∃ row, doc.find id = some row ∧ item = row.value ∧ op = .delete row.name := by
  obtain ⟨row, found, taken⟩ := Option.bind_eq_some_iff.mp taken
  split at taken
  · cases taken
  · obtain ⟨rfl, rfl⟩ := Prod.mk.inj (Option.some.inj taken)
    exact ⟨row, found, rfl, rfl⟩

end SessionDoc

end Zeron.Queue
