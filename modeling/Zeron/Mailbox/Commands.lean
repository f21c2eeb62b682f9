import Zeron.Mailbox.Planner

/-!
# The commands on a thread

What the thread's commands plan, and runs of accepted commands.
-/

namespace Zeron.Mailbox

open Data Transition
open Orchestration (RunStatus EffectRequest)

inductive Command where
  | delegate (taskId childThreadId parentRunId : String) (alwaysWake : Bool)
  /-- The child has a result available. -/
  | finalize (childThreadId : String) (status : RunStatus) (result : String)
  | observe (taskId : String) (observedBy : Option String) (dispose : Bool)
  | wakePolicy (taskId : String)
  /-- The parent's part of `Cancel`; the child's run can be interrupted. -/
  | cancelTask (taskId childThreadId : String)
  | reconcile
  | delivery (input : DeliveryCommand)
  | drainQueue
  | stopCohort (runId : String)
  | queueCancel (runId : String)
  | queueEdit (runId text : String) (expectedText : Option String)
  | queueReorder (runId : String) (beforeRunId : Option String)
  /-- `Send` without a target: it starts a run, or queues one. -/
  | send (messageId text : String)
  /-- The document's queue, as the host reads it. -/
  | syncLoro (rows : List QueuedMessage)
  /-- The provider moves or ends the run that is active. -/
  | runMoved (runId : String) (status : RunStatus)
  | archive
  | unarchive
  deriving DecidableEq

/-- `js_whitespace`. -/
def jsWhitespace (char : Char) : Bool :=
  decide (0x09 ≤ char.toNat ∧ char.toNat ≤ 0x0D) ||
    decide (0x2000 ≤ char.toNat ∧ char.toNat ≤ 0x200A) ||
    decide (char.toNat ∈ [0x20, 0xA0, 0x1680, 0x2028, 0x2029, 0x202F, 0x205F, 0x3000, 0xFEFF])

/-- `automatic`. -/
def Message.automatic (message : Message) : Bool :=
  message.delegatedCompletion.isSome || message.notification

namespace Projection

/-- `find_task`. -/
def findTask (p : Projection) (id : String) : Option Task :=
  (p.tasks.get id).filter fun task => task.appOwned && task.childThreadId.isSome

/-- `Delegate`; child and task have their names from one command. -/
def delegate (p : Projection) (taskId childThreadId parentRunId : String) (alwaysWake : Bool) :
    Option Plan := do
  let run ← p.runs.get parentRunId
  guard (!run.status.terminal && run.status != .queued)
  guard (!p.archived && !p.deleted)
  guard (p.tasks.get taskId).isNone
  return {
    events := [.subagentUpdated {
      id := taskId, runId := run.id, appOwned := true, childThreadId := some childThreadId
      status := .running, result := none, alwaysWake, completionDelivery := none }] }

/-- `Finalize`. -/
def finalize (p : Projection) (childThreadId : String) (status : RunStatus) (result : String) :
    Plan :=
  match p.tasks.rows.find? fun task =>
      decide (task.childThreadId = some childThreadId) && task.appOwned && task.result.isNone with
  | none => {}
  | some task =>
      p.reserve [{ task with
        status
        result := some result
        completionDelivery :=
          match task.completionDelivery with
          | some (.acknowledged, observer) => some (.acknowledged, observer)
          | some (.disposed, observer) => some (.disposed, observer)
          | some (.delivered, observer) => some (.delivered, observer)
          | _ => some (.pending, none) }]

/-- `Observe`. -/
def observe (p : Projection) (taskId : String) (observedBy : Option String) (dispose : Bool) :
    Option Plan := do
  let task ← p.findTask taskId
  if dispose || task.status.terminal then
    let old := task.completionDelivery.map Prod.fst
    let state : DeliveryState := if dispose then .disposed else .acknowledged
    let observed :=
      if old ≠ some .disposed ∧ (dispose = true ∨ old ≠ some .acknowledged) then
        { task with completionDelivery := some (state, observedBy) }
      else task
    return { events := .subagentUpdated observed :: p.removeMember taskId }
  else return {}

/-- `WakePolicy`. -/
def wakePolicy (p : Projection) (taskId : String) : Option Plan := do
  let task ← p.findTask taskId
  return p.reserve [{ task with alwaysWake := true }]

/-- `Cancel`. -/
def cancelTask (p : Projection) (taskId childThreadId : String) : Option Plan := do
  let task ← p.findTask taskId
  guard (decide (task.childThreadId = some childThreadId) && task.result.isNone)
  return { events := .subagentUpdated (task.settle .disposed) :: p.removeMember taskId }

/-- The queued run that a queue command names. -/
def queuedRun (p : Projection) (id : String) : Option Run :=
  p.queued.find? fun run => run.id == id

/-- `t3_queue_edit`. -/
def queueEdit (p : Projection) (id text : String) (expectedText : Option String) : Option Plan := do
  let run ← p.queuedRun id
  guard (!text.toList.all jsWhitespace)
  let message ← p.messages.get run.userMessageId
  guard (!message.automatic)
  guard (expectedText.all (· == message.text))
  return {
    events := [.messageUpdated { message with text }]
    queuePatch := some (.edit run.userMessageId text) }

/-- The order that `t3_queue_reorder` gives the queue. -/
def reordered (p : Projection) (id : String) (before : Option String) : Option (List Run) := do
  let run ← p.queuedRun id
  guard (!(p.messages.get run.userMessageId).any Message.automatic)
  let mail := p.queued.filter p.delegated
  let ordinary := p.queued.filter fun other => !p.delegated other && other.id != id
  guard (!before.any fun target => mail.any fun other => other.id == target)
  let index ←
    match before with
    | none => some ordinary.length
    | some target => ordinary.findIdx? fun other => other.id == target
  return mail ++ ordinary.insertIdx index run

/-- The rows whose position has changed, from a position on. -/
def positionEvents : Int → List Run → List Event
  | _, [] => []
  | position, run :: runs =>
      (if run.queuePosition = some position then []
        else [.runUpdated { run with queuePosition := some position }]) ++
        positionEvents (position + 1) runs

/-- `t3_queue_reorder`. -/
def queueReorder (p : Projection) (id : String) (before : Option String) : Option Plan := do
  let runs ← p.reordered id before
  let run ← p.queuedRun id
  return {
    events := positionEvents 1 runs
    queuePatch := some (.reorder run.userMessageId (runs.map Run.userMessageId)) }

/-- The run of `Send`: it waits behind the queue while another run is active. -/
def sentRun (p : Projection) (messageId : String) : Run :=
  let waiting := p.runs.rows.filter fun run => run.status == .queued
  let busy := p.activeRun.isSome
  { id := runId p.threadId p.nextOrdinal
    ordinal := p.nextOrdinal
    status := if busy then .queued else .starting
    userMessageId := messageId
    queuePosition :=
      if busy then
        some (((waiting.map fun run => run.queuePosition.getD run.ordinal).max?).getD 0 + 1)
      else none
    queueHeld := busy && waiting.any Run.queueHeld
    delegatedCompletion := none }

/-- `Send`. -/
def send (p : Projection) (messageId text : String) : Option Plan := do
  guard (!p.archived && !p.deleted)
  let run := p.sentRun messageId
  return {
    events := [.runUpdated run, .messageUpdated {
      id := messageId, runId := some run.id, text, streaming := false
      delegatedCompletion := none, notification := false }]
    effects := if run.status = .starting then [.providerTurnStart run.id] else [] }

/-- An event of the active run's provider. -/
def runMoved (p : Projection) (id : String) (status : RunStatus) : Option Plan := do
  let run ← p.runs.get id
  guard (!run.status.terminal && run.status != .queued)
  guard (status != .queued && status != .preparing && status != .starting)
  return { events := [.runUpdated { run with status }] }

/-- `organize` with `archive`: queued runs are cancelled after the thread. -/
def archive (p : Projection) : Option Plan := do
  guard (!p.archived)
  return {
    events := .threadUpdated true ::
      (p.orderedRuns.filter fun run => run.status == .queued).flatMap p.cancel
    effects := (p.orderedRuns.filter fun run =>
      !run.status.terminal && run.status != .queued).map fun run => .managedRunInterrupt run.id
    queuePatch := some (.cancelMany (p.queued.map Run.userMessageId)) }

/-- `t3_queue_cancel`. -/
def queueCancel (p : Projection) (id : String) : Option Plan := do
  let run ← p.queuedRun id
  return { events := p.cancel run, queuePatch := some (.cancel run.userMessageId) }

/-- What `sync_loro` emits for the rows of the document from a position on, where
`ordinal` is the last one in use. -/
def syncRows (p : Projection) : Int → Int → List QueuedMessage → List Event
  | _, _, [] => []
  | position, ordinal, row :: rows =>
      match p.runOf row.id with
      | some run =>
          if run.status = .queued then
            ((p.messages.get row.id).filter fun message => message.text != row.text).toList.map
                (fun message => .messageUpdated { message with text := row.text }) ++
              (if run.queuePosition = some position then []
                else [.runUpdated { run with queuePosition := some position }]) ++
              p.syncRows (position + 1) ordinal rows
          else p.syncRows (position + 1) ordinal rows
      | none =>
          let id := runId p.threadId (ordinal + 1)
          [.runUpdated {
              id, ordinal := ordinal + 1, status := .queued, userMessageId := row.id
              queuePosition := some position, queueHeld := false, delegatedCompletion := none },
            .messageUpdated {
              id := row.id, runId := some id, text := row.text, streaming := false
              delegatedCompletion := none, notification := false }] ++
            p.syncRows (position + 1) (ordinal + 1) rows

/-- `sync_loro`: a row that has left the document takes its run along. -/
def syncLoro (p : Projection) (previous rows : List QueuedMessage) : Plan :=
  let gone := p.queued.filter fun run =>
    (previous.any fun row => row.id == run.userMessageId) &&
      !rows.any fun row => row.id == run.userMessageId
  { events := gone.map cancelGraph ++ p.syncRows 1 (p.nextOrdinal - 1) rows
    queueIntents := some rows }

/-- The plan of a command; `none` if it is refused. -/
def plan (p : Projection) (intents : List QueuedMessage) : Command → Option Plan
  | .delegate taskId child parent wake => p.delegate taskId child parent wake
  | .finalize child status result => some (p.finalize child status result)
  | .observe taskId observer dispose => p.observe taskId observer dispose
  | .wakePolicy taskId => p.wakePolicy taskId
  | .cancelTask taskId child => p.cancelTask taskId child
  | .reconcile => some (p.reserve [])
  | .delivery input => some (p.planDelivery input)
  | .drainQueue => some (p.drainQueue (intents.map QueuedMessage.id))
  | .stopCohort id => some { events := p.stop id }
  | .queueCancel id => p.queueCancel id
  | .queueEdit id text expected => p.queueEdit id text expected
  | .queueReorder id before => p.queueReorder id before
  | .send messageId text => p.send messageId text
  | .syncLoro rows => some (p.syncLoro intents rows)
  | .runMoved id status => p.runMoved id status
  | .archive => p.archive
  | .unarchive =>
      if p.archived then some { events := [.threadUpdated false] } else none

end Projection

/-- A thread whose commands have been accepted so far. -/
structure Thread where
  projection : Projection
  /-- The rows of the document's queue that were taken over last. -/
  intents : List QueuedMessage
  /-- What the document's queue has not taken over yet. -/
  patches : List QueuePatch
  /-- The effects that were enqueued. -/
  effects : List EffectRequest
  deriving DecidableEq

namespace Thread

/-- A thread without runs. -/
def created (threadId : String) : Thread where
  projection := {
    threadId, archived := false, deleted := false
    runs := .empty, messages := .empty, tasks := .empty }
  intents := []
  patches := []
  effects := []

def step (thread : Thread) (command : Command) : Option Thread :=
  (thread.projection.plan thread.intents command).map fun plan =>
    { thread with
      projection := thread.projection.applyAll plan.events
      intents := plan.queueIntents.getD thread.intents
      patches := thread.patches ++ plan.queuePatch.toList
      effects := thread.effects ++ plan.effects }

/-- An accepted command has a plan, whose records are taken over together. -/
theorem step_eq_some_iff {thread next : Thread} {command : Command} :
    thread.step command = some next ↔
      ∃ plan, thread.projection.plan thread.intents command = some plan ∧
        next = { thread with
          projection := thread.projection.applyAll plan.events
          intents := plan.queueIntents.getD thread.intents
          patches := thread.patches ++ plan.queuePatch.toList
          effects := thread.effects ++ plan.effects } := by
  unfold step
  rw [Option.map_eq_some_iff]
  constructor
  · rintro ⟨plan, planned, rfl⟩
    exact ⟨plan, planned, rfl⟩
  · rintro ⟨plan, planned, rfl⟩
    exact ⟨plan, planned, rfl⟩

end Thread

end Zeron.Mailbox
