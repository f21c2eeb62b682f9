import Zeron.Data.Transaction
import Zeron.Orchestration.Effects
import Zeron.Orchestration.ProviderBatch
import Zeron.Orchestration.Publication

/-!
# The store of the kernel

One transaction takes a command from its receipt through planning, events, read
model, effects and queue tables to its publication.  The planners, the reducer
and what is read out for a publication are parameters: the store calls them
under its lock, and nothing here depends on what they compute.
-/

namespace Zeron.Orchestration

open Zeron.Data

/-- The boundaries that these transactions pass. -/
inductive WriteBoundary where
  | beforeReceipt
  | receiptReserved
  | eventAppended
  | projectionApplied
  | projectionRow
  | bindingActivated
  | activityUpdated
  | frontierUpdated
  | effectEnqueued
  | effectsRetired
  | adoptionRecorded
  | publicationEnqueued
  | receiptFinalized
  | publicationAck
  | publicationBatchAck
  | recoveryEffects
  | projectionRebuilt
  | projectionCleared
  | epochAdvanced
  | beforeCommit
  | afterCommit
  deriving DecidableEq

inductive StoreError where
  | notOwner
  | invariant (message : String)
  /-- A codec or a constraint of the database. -/
  | failed (reason : String)

inductive ReceiptStatus where
  | accepted
  | rejected

structure CommandReceipt where
  commandId : String
  threadId : String
  commandType : String
  acceptedAt : String
  resultSequence : Nat
  status : ReceiptStatus
  error : Option String

structure Command (operation : Type) where
  id : String
  threadId : String
  operation : operation

/-- What a planner asks for. -/
structure Plan (content : Type) where
  events : List (DomainEvent content)
  effects : List EffectRequest
  cancelProcessEffects : Bool
  adoption : Option String
  routedEffects : List (String × EffectRequest)
  cancelThreads : List String
  queueLifecycle : Option content
  queueIntents : Option (List (String × List String) × content)
  queuePatch : Option content
  queueAttachments : List (String × List String)

structure Adoption where
  legacyChatId : String
  threadId : String
  adoptedSequence : Nat

structure QueueAttachments where
  threadId : String
  messageId : String
  paths : List String

def QueueAttachments.key (row : QueueAttachments) : String × String :=
  (row.threadId, row.messageId)

/-- A row of the lifecycle or of the intents of a thread. -/
structure QueueEntry (content : Type) where
  threadId : String
  payload : content

structure QueuePatch (content : Type) where
  commandId : String
  threadId : String
  sequence : Nat
  payload : content

/-- The column `event_id`. -/
abbrev Envelope.eventId {content : Type} (envelope : Envelope content) : String :=
  envelope.event.id

/-- The tables.  `rows` are those of the read model; `other` are the tables that
only planners and effects write. -/
structure Tables (content rows other : Type) where
  hostId : String
  epoch : Int
  events : Table (@Envelope.eventId content)
  projections : rows
  outbox : Outbox
  publications : Publications content
  receipts : Table CommandReceipt.commandId
  adoptions : List Adoption
  queueAttachments : Table QueueAttachments.key
  queueLifecycle : Table (@QueueEntry.threadId content)
  queueIntents : Table (@QueueEntry.threadId content)
  queuePatches : Table (@QueuePatch.commandId content)
  other : other

namespace Tables

variable {content rows other : Type}

/-- `SELECT COALESCE(MAX(sequence),0)`. -/
def latestSequence (tables : Tables content rows other) : Nat :=
  (tables.events.rows.map Envelope.sequence).foldr max 0

def stream (tables : Tables content rows other) (threadId : String) : List (Envelope content) :=
  tables.events.rows.filter fun envelope => envelope.event.threadId == threadId

/-- `SELECT COALESCE(MAX(stream_version)+1,0)`. -/
def nextStreamVersion (tables : Tables content rows other) (threadId : String) : Nat :=
  ((tables.stream threadId).map fun envelope => envelope.streamVersion + 1).foldr max 0

/-- `through_sequence` of the thread's read model. -/
def throughSequence (tables : Tables content rows other) (threadId : String) : Nat :=
  ((tables.stream threadId).map Envelope.sequence).foldr max 0

end Tables

/-- What `command::plan` returns: a plan, an `Error::Invariant` or another error. -/
inductive Planned (content : Type) where
  | accepted (plan : Plan content)
  | refused (message : String)
  | failed (error : StoreError)

abbrev Program (content rows other α : Type) :=
  Tx (Tables content rows other) WriteBoundary StoreError α

/-- What the store calls.  A planner may write its own tables; the reducer
writes the read model. -/
structure Kernel (content rows other operation : Type) where
  hostId : String
  plan : Tables content rows other → Command operation → Int → Planned content × other
  commandType : Command operation → Except StoreError String
  iso : Int → Except StoreError String
  isQueue : operation → Bool
  /-- `lock_threads`, less the thread of the command itself. -/
  participants : Command operation → List String
  project : Envelope content → Tx rows WriteBoundary StoreError PUnit
  readThread : rows → String → Option (ThreadProjection content)
  /-- A thread is stored under its own id. -/
  readThread_id : ∀ {stored id projection}, readThread stored id = some projection →
    projection.thread.id = id
  nodeOwner : rows → String → Option String
  cancelledMessages : rows → String → List String
  /-- Messages of earlier, terminal runs, for a request that starts a turn. -/
  stopped : rows → String → EffectRequest → List String
  /-- The steering input or control target recorded with an effect. -/
  admitControl : rows → other → String → String → EffectRequest → Except StoreError other
  /-- The deletion of all runtime targets. -/
  forgetRuntimes : other → other
  /-- `rebuild_checked`. -/
  rebuild : List (Envelope content) → Tx rows WriteBoundary StoreError PUnit
  threadPayload : Tables content rows other → String → content
  registryPayload : Tables content rows other → List String → content

/-- `encode_component`, of one byte. -/
def encodeByte (byte : UInt8) : List Char :=
  let char := Char.ofNat byte.toNat
  if char.isAlphanum || "-_.!~*'()".toList.contains char then [char]
  else ['%', (byte.toNat / 16).digitChar.toUpper, (byte.toNat % 16).digitChar.toUpper]

def encodeComponent (value : String) : String :=
  String.ofList (value.toUTF8.toList.flatMap encodeByte)

section Programs

variable {content rows other operation : Type}

/-- `Store::write`: only the host that owns the store may change it. -/
def write {α : Type} (kernel : Kernel content rows other operation)
    (program : Program content rows other α) : Program content rows other α := do
  let tables ← Tx.look
  Tx.require (tables.hostId == kernel.hostId) .notOwner
  program

/-- A conflict updates the sequence only. -/
def putReceipt (receipt : CommandReceipt) : Program content rows other PUnit :=
  Tx.change fun tables =>
    let stored :=
      match tables.receipts.get receipt.commandId with
      | some old => { old with resultSequence := receipt.resultSequence }
      | none => receipt
    { tables with receipts := tables.receipts.put stored }

def appendEvent (kernel : Kernel content rows other operation) (commandId : Option String)
    (event : DomainEvent content) : Program content rows other (Envelope content) := do
  let tables ← Tx.look
  let stored : Envelope content := {
    sequence := tables.latestSequence + 1
    streamVersion := tables.nextStreamVersion event.threadId
    commandId
    event }
  let events ← Tx.orRaise (.failed "event identity") (tables.events.insert stored)
  Tx.change fun tables => { tables with events }
  Tx.boundary .eventAppended
  Tx.within Tables.projections (fun tables projections => { tables with projections })
    (kernel.project stored)
  Tx.boundary .projectionApplied
  return stored

/-- The events of a plan, and the threads that they change. -/
def appendPlanned (kernel : Kernel content rows other operation) (command : Command operation) :
    List (DomainEvent content) → CommandReceipt → List String →
      Program content rows other (CommandReceipt × List String)
  | [], receipt, changed => return (receipt, changed)
  | event :: events, receipt, changed => do
      Tx.require (decide (event.threadId ∈ command.threadId :: kernel.participants command))
        (.invariant "kernel command crosses lock participants")
      let stored ← appendEvent kernel (some command.id) event
      appendPlanned kernel command events { receipt with resultSequence := stored.sequence }
        (changed ++ [event.threadId])

/-- `effects::cancel_process` for each thread. -/
def cancelThreads (now : Int) : List String → Program content rows other PUnit
  | [] => return
  | thread :: threads => do
      Tx.change fun tables => { tables with outbox := tables.outbox.cancelProcess thread now }
      Tx.boundary .effectsRetired
      cancelThreads now threads

/-- `effects::enqueue`. -/
def enqueueEffect (kernel : Kernel content rows other operation) (id commandId thread : String)
    (request : EffectRequest) (now : Int) : Program content rows other PUnit := do
  let tables ← Tx.look
  let stopped := kernel.stopped tables.projections thread request
  let outbox ← Tx.orRaise (.failed "effect identity")
    (tables.outbox.enqueue id commandId thread request stopped now)
  let admitted ← Tx.ofExcept (kernel.admitControl tables.projections tables.other id thread request)
  Tx.change fun tables => { tables with outbox, other := admitted }

def effectId (commandId : String) (index : Nat) : String :=
  s!"effect:{encodeComponent commandId}:{index}"

/-- The effects of a plan from an index on; routed ones must stay among the
participants. -/
def enqueueEffects (kernel : Kernel content rows other operation) (command : Command operation)
    (now : Int) : Nat → List (String × EffectRequest) → Program content rows other PUnit
  | _, [] => return
  | index, (thread, request) :: effects => do
      Tx.require (decide (thread ∈ command.threadId :: kernel.participants command))
        (.invariant "effect crosses lock participants")
      enqueueEffect kernel (effectId command.id index) command.id thread request now
      Tx.boundary .effectEnqueued
      enqueueEffects kernel command now (index + 1) effects

/-- `legacy_chat_id` and `thread_id` are unique. -/
def recordAdoption (command : Command operation) (sequence : Nat) :
    Option String → Program content rows other PUnit
  | none => return
  | some legacy => do
      let tables ← Tx.look
      let taken := tables.adoptions.any fun adoption =>
        adoption.legacyChatId == legacy || adoption.threadId == command.threadId
      Tx.require (!taken) (.failed "adoption identity")
      Tx.change fun tables => { tables with
        adoptions := tables.adoptions ++
          [{ legacyChatId := legacy, threadId := command.threadId, adoptedSequence := sequence }] }
      Tx.boundary .adoptionRecorded

end Programs

/-- A row without files owns no record. -/
def setAttachments (threadId : String) (table : Table QueueAttachments.key)
    (messageId : String) (paths : List String) : Table QueueAttachments.key :=
  if paths.isEmpty then
    table.remove fun row => row.threadId == threadId && row.messageId == messageId
  else table.put { threadId, messageId, paths }

namespace Tables

variable {content rows other operation : Type}

/-- `ui_queue::persist`. -/
def persistQueue (kernel : Kernel content rows other operation) (threadId : String)
    (plan : Plan content) (tables : Tables content rows other) : Tables content rows other :=
  let cancelled := kernel.cancelledMessages tables.projections threadId
  { tables with
    queueAttachments :=
      match plan.queueIntents with
      | none => tables.queueAttachments
      | some (intents, _) =>
          intents.foldl (fun table intent =>
            if decide (intent.1 ∈ cancelled) then table
            else setAttachments threadId table intent.1 intent.2) tables.queueAttachments
    queueLifecycle :=
      match plan.queueLifecycle with
      | none => tables.queueLifecycle
      | some payload => tables.queueLifecycle.put { threadId, payload }
    queueIntents :=
      match plan.queueIntents with
      | none => tables.queueIntents
      | some (_, payload) => tables.queueIntents.put { threadId, payload } }

/-- The attachments and the patch of a plan. -/
def recordQueue (commandId threadId : String) (sequence : Nat) (plan : Plan content)
    (tables : Tables content rows other) : Tables content rows other :=
  { tables with
    queueAttachments :=
      plan.queueAttachments.foldl (fun table row => setAttachments threadId table row.1 row.2)
        tables.queueAttachments
    queuePatches :=
      match plan.queuePatch with
      | none => tables.queuePatches
      | some payload =>
          tables.queuePatches.insertOrIgnore { commandId, threadId, sequence, payload } }

/-- The documents of a batch, the registry last; none if a thread has no read model. -/
def documents (kernel : Kernel content rows other operation)
    (tables : Tables content rows other) (sequence : Nat) (threads : List String) :
    Option (List (PublicationDocument content)) :=
  if threads.all fun id => (kernel.readThread tables.projections id).isSome then
    some (threads.map (fun id => {
        docId := "orchestration/thread/" ++ id
        version := tables.throughSequence id
        payload := kernel.threadPayload tables id }) ++
      [{ docId := "orchestration/registry"
         version := sequence
         payload := kernel.registryPayload tables threads }])
  else none

end Tables

section Dispatch

variable {content rows other operation : Type}

/-- `sync_publish::enqueue`. -/
def enqueuePublication (kernel : Kernel content rows other operation) (identity : String)
    (sequence : Nat) (threads : List String) : Program content rows other PUnit := do
  let tables ← Tx.look
  let documents ← Tx.orRaise (.invariant "publication without projection")
    (tables.documents kernel sequence (threadOrder threads))
  let publications ← Tx.orRaise (.failed "batch identity")
    (tables.publications.enqueue {
      schemaVersion
      batchId := "publication:" ++ encodeComponent identity
      hostId := kernel.hostId
      hostEpoch := tables.epoch
      throughSequence := sequence
      documents })
  Tx.change fun tables => { tables with publications }

/-- Effects, adoption and queue tables of an accepted plan. -/
def performPlan (kernel : Kernel content rows other operation) (command : Command operation)
    (now : Int) (plan : Plan content) (sequence : Nat) : Program content rows other PUnit := do
  cancelThreads now
    ((if plan.cancelProcessEffects then [command.threadId] else []) ++ plan.cancelThreads)
  enqueueEffects kernel command now 0
    (plan.effects.map (fun request => (command.threadId, request)) ++ plan.routedEffects)
  recordAdoption command sequence plan.adoption
  Tx.change (Tables.persistQueue kernel command.threadId plan)
  Tx.change (Tables.recordQueue command.id command.threadId sequence plan)

def publishChanges (kernel : Kernel content rows other operation) (identity : String)
    (sequence : Nat) (changed : List String) : Program content rows other PUnit :=
  if changed.isEmpty then Tx.give ⟨⟩
  else do
    enqueuePublication kernel identity sequence changed
    Tx.boundary .publicationEnqueued

/-- An accepted plan, from the reservation of the receipt to its final write. -/
def executePlan (kernel : Kernel content rows other operation) (command : Command operation)
    (now : Int) (plan : Plan content) (reserved : CommandReceipt) :
    Program content rows other CommandReceipt := do
  putReceipt reserved
  Tx.boundary .receiptReserved
  let appended ← appendPlanned kernel command plan.events reserved []
  let receipt := appended.1
  performPlan kernel command now plan receipt.resultSequence
  publishChanges kernel receipt.commandId receipt.resultSequence appended.2
  putReceipt receipt
  Tx.boundary .receiptFinalized
  return receipt

/-- What `Store::dispatch` does for a command without a receipt. -/
def execute (kernel : Kernel content rows other operation) (command : Command operation)
    (now : Int) : Program content rows other CommandReceipt := do
  Tx.boundary .beforeReceipt
  let commandType ← Tx.ofExcept (kernel.commandType command)
  let acceptedAt ← Tx.ofExcept (kernel.iso now)
  let tables ← Tx.look
  let receipt : CommandReceipt := {
    commandId := command.id
    threadId := command.threadId
    commandType
    acceptedAt
    resultSequence := tables.latestSequence
    status := .accepted
    error := none }
  let planned := kernel.plan tables command now
  Tx.change fun tables => { tables with other := planned.2 }
  match planned.1 with
  | .failed error => Tx.raise error
  | .refused message => do
      let rejected := { receipt with status := .rejected, error := some message }
      putReceipt rejected
      Tx.boundary .receiptFinalized
      return rejected
  | .accepted plan => do
      Tx.require (!plan.events.isEmpty || kernel.isQueue command.operation)
        (.invariant "accepted command produced no events")
      executePlan kernel command now plan receipt

/-- The transaction of `Store::dispatch`.  The signals to the holders of
cancelled effects, sent after the commit, are left out. -/
def dispatch (kernel : Kernel content rows other operation) (command : Command operation)
    (now : Int) : Program content rows other CommandReceipt :=
  write kernel do
    let tables ← Tx.look
    match tables.receipts.get command.id with
    | some receipt => return receipt
    | none => execute kernel command now

end Dispatch

section Host

variable {content rows other operation : Type}

/-- `Store::rebuild`. -/
def rebuildProjections (kernel : Kernel content rows other operation) :
    Program content rows other PUnit :=
  write kernel do
    let tables ← Tx.look
    Tx.within Tables.projections (fun tables projections => { tables with projections })
      (kernel.rebuild tables.events.rows)
    Tx.boundary .projectionRebuilt

/-- The transaction of `Kernel::recover`. -/
def recoverHost (kernel : Kernel content rows other operation) (now : Int) :
    Program content rows other PUnit :=
  write kernel do
    Tx.change fun tables => { tables with outbox := tables.outbox.recover now }
    Tx.boundary .recoveryEffects
    Tx.change fun tables => { tables with
      other := kernel.forgetRuntimes tables.other, epoch := tables.epoch + 1 }
    Tx.boundary .epochAdvanced

/-- `acknowledge_publication`. -/
def acknowledgePublication (kernel : Kernel content rows other operation)
    (batchId docId : String) (version : Nat) : Program content rows other PUnit :=
  write kernel do
    let tables ← Tx.look
    let row ← Tx.orRaise (.invariant "unknown publication")
      (tables.publications.batches.get batchId)
    Tx.require (row.batch.hostId == kernel.hostId && row.batch.documents.any fun document =>
        document.docId == docId && document.version == version)
      (.invariant "publication ack does not match its barrier")
    Tx.change fun tables => { tables with
      publications := tables.publications.ack batchId docId version }
    Tx.boundary .publicationAck
    let tables ← Tx.look
    if tables.publications.ackCount batchId = row.batch.documents.length then do
      Tx.change fun tables => { tables with
        publications := tables.publications.markPublished batchId }
      Tx.boundary .publicationBatchAck
    else return

end Host

section ProviderEvents

variable {content rows other operation : Type} [DecidableEq content]

/-- `command::plan` for the events of a provider. -/
def planProviderEvents (kernel : Kernel content rows other operation) (projections : rows)
    (threadId : String) (projection : ThreadProjection content) (guard : ProviderGuard)
    (events : List (DomainEvent content)) : Except String Unit := do
  if projection.thread.deletedAt.isSome then
    throw s!"Thread {threadId} is deleted."
  checkGuard projection guard
  let foreign := events.any fun event =>
    match event.payload with
    | .nodeUpdated node => (kernel.nodeOwner projections node.id).any fun owner => owner != threadId
    | _ => false
  if foreign then throw "Node identity belongs to another app thread."
  providerBatch projection guard events

/-- How many of the events are stored already, each with the same content. -/
def Tables.duplicates (tables : Tables content rows other) :
    List (DomainEvent content) → Except String Nat
  | [] => .ok 0
  | event :: events =>
      match tables.events.get event.id with
      | none => tables.duplicates events
      | some existing =>
          if existing.event = event then (tables.duplicates events).map (· + 1)
          else .error "event identity reused with different content"

/-- Append the events in order; the last sequence is returned. -/
def appendExternal (kernel : Kernel content rows other operation) :
    List (DomainEvent content) → Nat → Program content rows other Nat
  | [], sequence => return sequence
  | event :: events, _ => do
      let stored ← appendEvent kernel none event
      appendExternal kernel events stored.sequence

/-- What `append_provider_events` does for an owner that is not stale. -/
def appendOwned (kernel : Kernel content rows other operation) (threadId : String)
    (projection : ThreadProjection content) (guard : ProviderGuard)
    (events : List (DomainEvent content)) : Program content rows other Bool := do
  let tables ← Tx.look
  Tx.ofExcept ((planProviderEvents kernel tables.projections threadId projection guard
    events).mapError .invariant)
  let duplicates ← Tx.ofExcept ((tables.duplicates events).mapError .invariant)
  if duplicates = events.length then return false
  else do
    Tx.require (duplicates == 0) (.invariant "partially duplicated provider batch")
    let sequence ← appendExternal kernel events 0
    let lastId := (events.getLast?.map DomainEvent.id).getD ""
    enqueuePublication kernel ("external:" ++ lastId) sequence [threadId]
    Tx.boundary .publicationEnqueued
    return true

/-- The transaction of `append_provider_events`; a stale owner commits nothing. -/
def appendProviderEvents (kernel : Kernel content rows other operation) (threadId : String)
    (guard : ProviderGuard) (events : List (DomainEvent content)) :
    Program content rows other Bool :=
  write kernel do
    let tables ← Tx.look
    match kernel.readThread tables.projections threadId with
    | none => return false
    | some projection =>
        match checkGuard projection guard with
        | .error _ => return false
        | .ok _ => appendOwned kernel threadId projection guard events

end ProviderEvents

end Zeron.Orchestration

/-!
## Names with encoded parts

Ids are put together from parts that `encode_component` has escaped.  Different parts
give different names.
-/

namespace Zeron.Orchestration

/-- The value of a digit of `{byte:02X}`. -/
def hexValue (digit : Char) : Nat :=
  if digit.isDigit then digit.toNat - '0'.toNat else digit.toNat - 'A'.toNat + 10

/-- The bytes that an encoded part stands for. -/
def decodeBytes : List Char → List UInt8
  | '%' :: high :: low :: rest =>
      UInt8.ofNat (hexValue high * 16 + hexValue low) :: decodeBytes rest
  | char :: rest => UInt8.ofNat char.toNat :: decodeBytes rest
  | [] => []

theorem hexValue_digit : ∀ digit < 16, hexValue (digit.digitChar.toUpper) = digit := by
  decide

theorem decodeBytes_plain {char : Char} (plain : char ≠ '%') (rest : List Char) :
    decodeBytes (char :: rest) = UInt8.ofNat char.toNat :: decodeBytes rest := by
  rw [decodeBytes]
  rintro _ _ _ rfl
  exact absurd rfl plain

theorem decodeBytes_encodeByte (byte : UInt8) (rest : List Char) :
    decodeBytes (encodeByte byte ++ rest) = byte :: decodeBytes rest := by
  have small : byte.toNat < 256 := byte.toNat_lt
  have char_eq : (Char.ofNat byte.toNat).toNat = byte.toNat := by
    rw [Char.ofNat, dif_pos (Or.inl (by omega))]
    rfl
  rw [encodeByte]
  split_ifs with unreserved
  · have plain : Char.ofNat byte.toNat ≠ '%' := by
      intro percent
      rw [percent] at unreserved
      exact absurd unreserved (by decide)
    rw [List.singleton_append, decodeBytes_plain plain, char_eq, UInt8.ofNat_toNat]
  · rw [List.cons_append, List.cons_append, List.singleton_append, decodeBytes,
      hexValue_digit _ (by omega), hexValue_digit _ (by omega), Nat.div_add_mod', UInt8.ofNat_toNat]

theorem decodeBytes_flatMap (bytes : List UInt8) :
    decodeBytes (bytes.flatMap encodeByte) = bytes := by
  induction bytes with
  | nil => rfl
  | cons byte bytes ih => rw [List.flatMap_cons, decodeBytes_encodeByte, ih]

theorem toList_loop_eq (bytes : ByteArray) (index : Nat) (read : List UInt8) :
    ByteArray.toList.loop bytes index read = read.reverse ++ bytes.data.toList.drop index := by
  fun_induction ByteArray.toList.loop bytes index read with
  | case1 index read inside ih =>
      have listed : index < bytes.data.toList.length := inside
      rw [ih, List.reverse_cons, List.append_assoc, List.singleton_append,
        List.drop_eq_getElem_cons listed]
      congr 2
      exact getElem!_pos bytes.data index inside
  | case2 index read outside =>
      have past : bytes.data.toList.length ≤ index := not_lt.mp outside
      rw [List.drop_eq_nil_of_le past, List.append_nil]

theorem toUTF8_toList (value : String) : value.toUTF8.toList = value.toByteArray.data.toList := by
  rw [ByteArray.toList, toList_loop_eq]
  rfl

theorem encodeComponent_injective : Function.Injective encodeComponent := by
  intro first second same
  have bytes := congrArg decodeBytes (String.ofList_injective same)
  rw [decodeBytes_flatMap, decodeBytes_flatMap] at bytes
  apply String.toByteArray_inj.mp
  apply ByteArray.ext
  apply Array.toList_inj.mp
  rw [toUTF8_toList, toUTF8_toList] at bytes
  exact bytes

/-- Names that begin differently are different. -/
theorem append_ne_append {first second : String} (count : Nat)
    (first_long : count ≤ first.toList.length) (second_long : count ≤ second.toList.length)
    (differ : first.toList.take count ≠ second.toList.take count) (rest other : String) :
    first ++ rest ≠ second ++ other := by
  intro same
  apply differ
  have letters := congrArg (fun name => name.toList.take count) same
  simpa only [String.toList_append, List.take_append_of_le_length first_long,
    List.take_append_of_le_length second_long] using letters

end Zeron.Orchestration
