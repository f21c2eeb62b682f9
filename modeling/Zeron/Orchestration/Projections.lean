import Zeron.Orchestration.Store
import Zeron.Wire.Json

/-!
# The tables of the read model

Every event of the log is folded into tables of JSON rows, at its commit as at a rebuild, and
the frontier names the last event that was.  At startup the tables are looked over: their
frontier, the threads against the log, and that each row can be decoded.
-/

namespace Zeron.Wire.Json

/-- `value[key] = value` on an object. -/
def set (payload : Json) (key : String) (value : Json) : Json :=
  match payload with
  | .obj members =>
      if members.any fun member => member.1 == key then
        .obj (members.map fun member => if member.1 == key then (key, value) else member)
      else .obj (members ++ [(key, value)])
  | other => other

example : set (.obj [("a", .null), ("b", .null)]) "a" (.str "1") =
    .obj [("a", .str "1"), ("b", .null)] := by decide

/-- `string`, of the reducer. -/
def text (payload : Json) (key : String) : Option String :=
  (payload.member key).bind Json.asString

/-- `Value::as_i64`. -/
def asInt : Json → Option Int
  | .num literal => literal.toInt?
  | _ => none

/-- `payload[key].is_null()`: a missing member reads as null. -/
def nullAt (payload : Json) (key : String) : Bool :=
  ((payload.member key).getD .null).isNull

end Zeron.Wire.Json

namespace Zeron.Orchestration

open Zeron.Data Zeron.Wire

/-- The tables with one row for each id. -/
inductive EntityTable where
  | threads
  | runs
  | attempts
  | nodes
  deriving DecidableEq

/-- The column `kind` of `orchestration_projection_records`. -/
inductive RecordKind where
  | subagent
  | message
  | turnItem
  | contextTransfer
  | contextHandoff
  | providerThread
  | providerSession
  | providerTurn
  | runtimeRequest
  | checkpoint
  | checkpointScope
  deriving DecidableEq

/-- Where an event is filed. -/
inductive Target where
  | entity (table : EntityTable)
  | record (kind : RecordKind)
  deriving DecidableEq

/-- The types that a payload may be decoded as. -/
inductive Shape where
  | filed (target : Target)
  | cancelledWork
  | detachment
  deriving DecidableEq

/-- A row: its columns, read from the payload, and the payload. -/
structure ProjectionRow where
  id : String
  threadId : String
  runId : Option String
  status : Option String
  providerInstanceId : Option String
  providerThreadId : Option String
  providerSessionId : Option String
  activeAttemptId : Option String
  ordinal : Option Int
  lastSequence : Nat
  payload : Json

structure RecordRow where
  kind : RecordKind
  row : ProjectionRow

/-- The primary key of the records. -/
def RecordRow.key (record : RecordRow) : RecordKind × String × String :=
  (record.kind, record.row.id, record.row.threadId)

/-- The projection tables and `orchestration_projection_metadata`. -/
structure Projections where
  entities : EntityTable → Table ProjectionRow.id
  records : Table RecordRow.key
  schemaVersion : Nat
  lastSequence : Nat

def EventPayload.eventType {content : Type} : EventPayload content → String
  | .runUpdated _ => "run.updated"
  | .runAttemptUpdated _ => "run-attempt.updated"
  | .nodeUpdated _ => "node.updated"
  | .other eventType _ => eventType

/-- `event_type.starts_with("thread.")`. -/
def ofThread (eventType : String) : Bool :=
  "thread.".toList.isPrefixOf eventType.toList

/-- The event types that are filed as records. -/
def recordKinds : List (String × RecordKind) :=
  [("provider-thread.updated", .providerThread), ("provider-session.attached", .providerSession),
    ("provider-session.updated", .providerSession), ("provider-turn.updated", .providerTurn),
    ("runtime-request.updated", .runtimeRequest), ("message.updated", .message),
    ("subagent.updated", .subagent), ("turn-item.updated", .turnItem),
    ("context-transfer.created", .contextTransfer), ("context-transfer.updated", .contextTransfer),
    ("context-handoff.updated", .contextHandoff), ("checkpoint.captured", .checkpoint),
    ("checkpoint-scope.created", .checkpointScope)]

/-- The table of an event type. -/
def targetOf (eventType : String) : Option Target :=
  if ofThread eventType then some (.entity .threads)
  else if ["run.created", "run.updated", "run.background-work-cancelled"].contains eventType then
    some (.entity .runs)
  else if ["run-attempt.created", "run-attempt.updated"].contains eventType then
    some (.entity .attempts)
  else if eventType = "node.updated" then some (.entity .nodes)
  else (recordKinds.lookup eventType).map .record

/-- The type of an event's payload. -/
def shapeOf (eventType : String) : Option Shape :=
  if eventType = "run.background-work-cancelled" then some .cancelledWork
  else if eventType = "provider-session.detached" then some .detachment
  else (targetOf eventType).map .filed

/-- T3's `preserveRunRecordedFields`. -/
def preserveRecorded (payload current : Json) : Json :=
  ["delegatedCompletion", "restartCancelledBackgroundWork"].foldl (fun payload key =>
    match payload.member key, current.member key with
    | none, some value => payload.set key value
    | _, _ => payload) payload

/-- The roster of a run after the cancellation of its work. -/
def cancelWork (run payload : Json) : Json :=
  run.set "restartCancelledBackgroundWork"
    ((payload.member "restartCancelledBackgroundWork").getD .null)

/-- How the wire contracts print a payload, and which JSON each of their types reads back.
The decoders are derived: they go through a payload field by field. -/
structure Contracts (content : Type) where
  value : EventPayload content → Json
  decodes : Shape → Json → Bool
  decodes_run : ∀ run, decodes (.filed (.entity .runs)) (value (.runUpdated run)) = true
  decodes_attempt : ∀ attempt,
    decodes (.filed (.entity .attempts)) (value (.runAttemptUpdated attempt)) = true
  decodes_node : ∀ node, decodes (.filed (.entity .nodes)) (value (.nodeUpdated node)) = true
  /-- Two fields of a thread hold any text. -/
  decodes_set : ∀ key text thread, key = "updatedAt" ∨ key = "activeProviderThreadId" →
    decodes (.filed (.entity .threads)) thread = true →
      decodes (.filed (.entity .threads)) (thread.set key (.str text)) = true
  /-- A field of one run fits into another, -/
  decodes_preserveRecorded : ∀ payload current,
    decodes (.filed (.entity .runs)) payload = true →
      decodes (.filed (.entity .runs)) current = true →
        decodes (.filed (.entity .runs)) (preserveRecorded payload current) = true
  /-- and the roster of a cancellation into its run. -/
  decodes_cancelWork : ∀ run payload, decodes (.filed (.entity .runs)) run = true →
    decodes .cancelledWork payload = true →
      decodes (.filed (.entity .runs)) (cancelWork run payload) = true

namespace EntityTable

/-- The columns that are not null. -/
def admits : EntityTable → ProjectionRow → Bool
  | threads, _ => true
  | runs, row => row.status.isSome && row.providerInstanceId.isSome && row.ordinal.isSome
  | attempts, row =>
      row.runId.isSome && row.status.isSome && row.providerInstanceId.isSome &&
        row.providerThreadId.isSome && row.ordinal.isSome
  | nodes, row => row.status.isSome

/-- The columns that are unique beside the id. -/
def clashes : EntityTable → ProjectionRow → ProjectionRow → Bool
  | runs, row, other => row.threadId == other.threadId && row.ordinal == other.ordinal
  | attempts, row, other => row.runId == other.runId && row.ordinal == other.ordinal
  | _, _, _ => false

end EntityTable

/-- `read_entity`, up to its decoder. -/
def readEntity (table : Table ProjectionRow.id) (id threadId : String) : Option Json :=
  ((table.get id).filter fun row => row.threadId == threadId).map ProjectionRow.payload

namespace Projections

/-- The tables as they are created. -/
def empty : Projections where
  entities _ := Table.empty
  records := Table.empty
  schemaVersion := Orchestration.schemaVersion
  lastSequence := 0

def withEntities (projections : Projections) (table : EntityTable)
    (rows : Table ProjectionRow.id) : Projections :=
  { projections with
    entities := fun other => if other = table then rows else projections.entities other }

/-- The payload that is stored for an event. -/
def completed (projections : Projections) (eventType threadId : String) (payload : Json) :
    Except StoreError Json :=
  if eventType = "run.background-work-cancelled" then
    match readEntity (projections.entities .runs) ((payload.text "runId").getD "") threadId with
    | none => .error (.invariant "background roster run missing")
    | some run => .ok (cancelWork run payload)
  else if eventType = "run.created" ∨ eventType = "run.updated" then
    match readEntity (projections.entities .runs) ((payload.text "id").getD "") threadId with
    | some current => .ok (preserveRecorded payload current)
    | none => .ok payload
  else .ok payload

/-- The thread that holds an entity; a provider session may be attached to several. -/
def owner (projections : Projections) (id : String) : Target → Option String
  | .entity table => ((projections.entities table).get id).map ProjectionRow.threadId
  | .record kind =>
      (projections.records.rows.find? fun record =>
        record.kind == kind && record.row.id == id).map fun record => record.row.threadId

/-- `INSERT … ON CONFLICT DO UPDATE`, for an owner that stays. -/
def put (projections : Projections) (target : Target) (row : ProjectionRow) :
    Except StoreError Projections :=
  if (projections.owner row.id target).any (fun owner => owner != row.threadId) ∧
      target ≠ .record .providerSession then
    .error (.invariant "entity cannot move between threads")
  else
    match target with
    | .entity table =>
        if table.admits row && !((projections.entities table).rows.any fun other =>
            other.id != row.id && table.clashes row other) then
          .ok (projections.withEntities table ((projections.entities table).put row))
        else .error (.failed "constraint")
    | .record kind => .ok { projections with records := projections.records.put { kind, row } }

/-- `DELETE` of a session that is detached from a thread. -/
def detach (projections : Projections) (session : Option String) (threadId : String) :
    Projections :=
  { projections with
    records := projections.records.remove fun record =>
      record.kind == .providerSession && some record.row.id == session &&
        record.row.threadId == threadId }

end Projections

/-- The columns of a payload. -/
def rowOf (target : Target) (id threadId : String) (sequence : Nat) (payload : Json) :
    ProjectionRow where
  id
  threadId
  runId := if target = .entity .runs then some id else payload.text "runId"
  status := payload.text "status"
  providerInstanceId := payload.text "providerInstanceId"
  providerThreadId := payload.text "providerThreadId"
  providerSessionId := payload.text "providerSessionId"
  activeAttemptId := payload.text "activeAttemptId"
  ordinal := ((payload.member "ordinal").or (payload.member "attemptOrdinal")).bind Json.asInt
  lastSequence := sequence
  payload

section Reducer

variable {content : Type}

/-- The row of an event. -/
def fileEvent (contracts : Contracts content) (stored : Envelope content)
    (projections : Projections) : Except StoreError Projections :=
  let eventType := stored.event.payload.eventType
  match projections.completed eventType stored.event.threadId
      (contracts.value stored.event.payload) with
  | .error error => .error error
  | .ok payload =>
      if eventType = "provider-session.detached" then
        .ok (projections.detach (payload.text "providerSessionId") stored.event.threadId)
      else
        match targetOf eventType with
        | none => .error (.invariant ("event outside kernel slice: " ++ eventType))
        | some target =>
            match payload.text "id" with
            | none => .error (.invariant "projection payload missing id")
            | some id =>
                projections.put target
                  (rowOf target id stored.event.threadId stored.sequence payload)

/-- A thread is read, gets one field and is written again. -/
def amendThread (contracts : Contracts content) (threadId missing key value : String)
    (sequence : Nat) (projections : Projections) : Except StoreError Projections :=
  match readEntity (projections.entities .threads) threadId threadId with
  | none => .error (.invariant missing)
  | some thread =>
      if contracts.decodes (.filed (.entity .threads)) thread then
        .ok (projections.withEntities .threads
          ((projections.entities .threads).update (fun row => row.id == threadId)
            (fun row => { row with
              payload := thread.set key (.str value), lastSequence := sequence })
            fun _ => rfl))
      else .error (.failed "thread payload")

/-- A provider thread that is more than a queued placeholder becomes the active one. -/
def bindsThread (contracts : Contracts content) (event : DomainEvent content) : Bool :=
  let payload := contracts.value event.payload
  event.payload.eventType == "provider-thread.updated" &&
    payload.text "appThreadId" == some event.threadId &&
      !(payload.text "status" == some "not_loaded" && payload.nullAt "firstRunOrdinal" &&
        payload.nullAt "nativeThreadRef" && payload.nullAt "providerSessionId")

def activateBinding (contracts : Contracts content) (stored : Envelope content) :
    Projections → Except StoreError Projections :=
  amendThread contracts stored.event.threadId "binding before thread" "activeProviderThreadId"
    (((contracts.value stored.event.payload).text "id").getD "") stored.sequence

/-- Execution events advance the activity of their thread. -/
def touchThread (contracts : Contracts content) (stored : Envelope content) :
    Projections → Except StoreError Projections :=
  amendThread contracts stored.event.threadId "execution event before thread" "updatedAt"
    stored.event.occurredAt stored.sequence

/-- The frontier after an event. -/
def Projections.advance (projections : Projections) (sequence : Nat) : Projections :=
  { projections with schemaVersion := Orchestration.schemaVersion, lastSequence := sequence }

/-- A statement that may fail, and the boundary behind it. -/
def statement (rewrite : Projections → Except StoreError Projections) (point : WriteBoundary) :
    Tx Projections WriteBoundary StoreError PUnit := do
  let projections ← Tx.look
  let next ← Tx.ofExcept (rewrite projections)
  Tx.change fun _ => next
  Tx.boundary point

/-- A statement for some events only. -/
def statementIf (condition : Bool) (rewrite : Projections → Except StoreError Projections)
    (point : WriteBoundary) : Tx Projections WriteBoundary StoreError PUnit :=
  if condition then statement rewrite point else Tx.give ⟨⟩

/-- `apply_checked`. -/
def applyChecked (contracts : Contracts content) (stored : Envelope content) :
    Tx Projections WriteBoundary StoreError PUnit := do
  statement (fileEvent contracts stored) .projectionRow
  statementIf (bindsThread contracts stored.event) (activateBinding contracts stored)
    .bindingActivated
  statementIf (!ofThread stored.event.payload.eventType) (touchThread contracts stored)
    .activityUpdated
  statement (fun projections => .ok (projections.advance stored.sequence)) .frontierUpdated

/-- The loop of `rebuild_checked`.  No event of another application version can be stored. -/
def replay (contracts : Contracts content) :
    List (Envelope content) → Tx Projections WriteBoundary StoreError PUnit
  | [] => Tx.give ⟨⟩
  | event :: events => do
      applyChecked contracts event
      replay contracts events

/-- `DELETE FROM` each of the tables. -/
def clearEntities : List EntityTable → Tx Projections WriteBoundary StoreError PUnit
  | [] => Tx.give ⟨⟩
  | table :: tables => do
      statement (fun projections => .ok (projections.withEntities table Table.empty))
        .projectionCleared
      clearEntities tables

/-- `rebuild_checked`. -/
def rebuildChecked (contracts : Contracts content) (events : List (Envelope content)) :
    Tx Projections WriteBoundary StoreError PUnit := do
  clearEntities [.threads, .runs, .attempts, .nodes]
  statement (fun projections => .ok { projections with records := Table.empty }) .projectionCleared
  statement (fun projections => .ok (projections.advance 0)) .projectionCleared
  replay contracts events

/-- The kernel with this reducer. -/
def Kernel.projecting {other operation : Type} (kernel : Kernel content Projections other operation)
    (contracts : Contracts content) : Kernel content Projections other operation :=
  { kernel with project := applyChecked contracts, rebuild := rebuildChecked contracts }

/-! ## The startup check -/

/-- `latest_sequence`. -/
def latestSequence (log : List (Envelope content)) : Nat :=
  (log.map Envelope.sequence).foldr max 0

def Envelope.creates (stored : Envelope content) : Bool :=
  stored.event.payload.eventType == "thread.created"

/-- The streams with a creation in the log. -/
def createdStreams (log : List (Envelope content)) : List String :=
  (log.filter Envelope.creates).map fun stored => stored.event.threadId

namespace Projections

/-- `read_thread` does not fail: its rows are decoded, and its records are any JSON. -/
def readsThread (projections : Projections) (contracts : Contracts content) (id : String) : Bool :=
  match readEntity (projections.entities .threads) id id with
  | none => true
  | some thread =>
      contracts.decodes (.filed (.entity .threads)) thread &&
        [EntityTable.runs, .attempts, .nodes].all fun table =>
          ((projections.entities table).rows.filter fun row => row.threadId == id).all fun row =>
            contracts.decodes (.filed (.entity table)) row.payload

/-- The kinds of records that `verify_projections` knows. -/
def verifiedKinds : List RecordKind :=
  [.providerThread, .providerSession, .providerTurn, .runtimeRequest, .message, .subagent,
    .turnItem, .contextTransfer, .contextHandoff]

/-- `verify_projections`. -/
def verify (projections : Projections) (contracts : Contracts content)
    (log : List (Envelope content)) : Bool :=
  let ids := (projections.entities .threads).rows.map ProjectionRow.id
  projections.schemaVersion == Orchestration.schemaVersion &&
    projections.lastSequence == Orchestration.latestSequence log &&
    (createdStreams log).all (fun id => ids.contains id) &&
    ids.all (fun id => (createdStreams log).contains id) &&
    ids.all (fun id => projections.readsThread contracts id) &&
    projections.records.rows.all fun record =>
      verifiedKinds.contains record.kind &&
        contracts.decodes (.filed (.record record.kind)) record.row.payload

end Projections

end Reducer

end Zeron.Orchestration
