import Zeron.Data.SortBy
import Zeron.Orchestration.Store

/-!
# The mailbox of a thread

Runs delegate tasks to child threads, and the results come back as mail: a run's
cohort reserves one delivery at a time, whose message a later run carries to the
provider.  The planners see one snapshot of the rows and write whole rows.
-/

namespace Zeron.Mailbox

open Data
open Orchestration (RunStatus EffectRequest encodeComponent)

/-- `completionDelivery.state`; a task without one is pending. -/
inductive DeliveryState where
  | pending
  | claimed
  | delivered
  | acknowledged
  | disposed
  deriving DecidableEq

/-- The batch of results that a cohort has reserved. -/
structure Delivery where
  generation : Int
  messageId : String
  taskIds : List String
  deriving DecidableEq

inductive Disposition where
  | opened
  | stopped
  | disposed
  deriving DecidableEq

/-- `delegatedCompletion` of a run. -/
structure Cohort where
  disposition : Disposition
  nextGeneration : Int
  delivery : Option Delivery
  deriving DecidableEq

/-- What a run without a recorded cohort has. -/
def Cohort.initial : Cohort :=
  { disposition := .opened, nextGeneration := 1, delivery := none }

structure Run where
  id : String
  ordinal : Int
  status : RunStatus
  userMessageId : String
  queuePosition : Option Int
  queueHeld : Bool
  delegatedCompletion : Option Cohort
  deriving DecidableEq

/-- `delegatedCompletion` of a message. -/
structure Ownership where
  parentRunId : String
  generation : Int
  taskIds : List String
  deriving DecidableEq

structure Message where
  id : String
  runId : Option String
  text : String
  streaming : Bool
  delegatedCompletion : Option Ownership
  notification : Bool
  deriving DecidableEq

/-- A record of kind `subagent`. -/
structure Task where
  id : String
  runId : String
  appOwned : Bool
  childThreadId : Option String
  status : RunStatus
  result : Option String
  /-- `completionWake` is `always`. -/
  alwaysWake : Bool
  /-- The state, and the run that has observed the result. -/
  completionDelivery : Option (DeliveryState × Option String)
  deriving DecidableEq

/-- The read model of the thread, as far as mail and the queue go. -/
structure Projection where
  threadId : String
  archived : Bool
  deleted : Bool
  runs : Table Run.id
  messages : Table Message.id
  tasks : Table Task.id
  deriving DecidableEq

/-- An event brings a whole row. -/
inductive Event where
  | runUpdated (run : Run)
  | messageUpdated (message : Message)
  | subagentUpdated (task : Task)
  | threadUpdated (archived : Bool)

/-- A row of the document's queue. -/
structure QueuedMessage where
  id : String
  text : String
  deriving DecidableEq

/-- What the document's queue has to take over. -/
inductive QueuePatch where
  | edit (messageId text : String)
  | cancel (messageId : String)
  | cancelMany (messageIds : List String)
  | reorder (messageId : String) (messageIds : List String)
  deriving DecidableEq

structure Plan where
  events : List Event := []
  effects : List EffectRequest := []
  queueIntents : Option (List QueuedMessage) := none
  queuePatch : Option QueuePatch := none

/-- `cohort`, with what is left out filled in. -/
def Run.cohort (run : Run) : Cohort :=
  run.delegatedCompletion.getD .initial

namespace Task

/-- `state`. -/
def state (task : Task) : DeliveryState :=
  (task.completionDelivery.map Prod.fst).getD .pending

def settle (task : Task) (state : DeliveryState) : Task :=
  { task with completionDelivery := some (state, none) }

end Task

def Plan.append (first second : Plan) : Plan :=
  { first with
    events := first.events ++ second.events
    effects := first.effects ++ second.effects }

namespace Projection

/-- The key by which `read_thread` reads the runs. -/
def rowKey (run : Run) : Int ×ₗ String :=
  toLex (run.ordinal, run.id)

/-- `runs`, as `read_thread` reads them. -/
def orderedRuns (p : Projection) : List Run :=
  sortBy rowKey p.runs.rows

/-- `active_run`. -/
def activeRun (p : Projection) : Option Run :=
  p.orderedRuns.reverse.find? fun run => !run.status.terminal && run.status != .queued

/-- The run that carries a message. -/
def runOf (p : Projection) (messageId : String) : Option Run :=
  p.orderedRuns.find? fun run => run.userMessageId == messageId

/-- The message belongs to a delivery. -/
def delegated (p : Projection) (run : Run) : Bool :=
  (p.messages.get run.userMessageId).any fun message => message.delegatedCompletion.isSome

/-- The key by which `queued` sorts. -/
def queueKey (p : Projection) (run : Run) : Bool ×ₗ Int ×ₗ Int :=
  toLex (!p.delegated run, toLex (run.queuePosition.getD run.ordinal, run.ordinal))

/-- `queued`. -/
def queued (p : Projection) : List Run :=
  sortBy p.queueKey (p.orderedRuns.filter fun run => run.status == .queued)

/-- The ordinal of the next run. -/
def nextOrdinal (p : Projection) : Int :=
  ((p.runs.rows.map Run.ordinal).max?).getD 0 + 1

/-- The reducer: a row is replaced. -/
def apply (p : Projection) : Event → Projection
  | .runUpdated run => { p with runs := p.runs.put run }
  | .messageUpdated message => { p with messages := p.messages.put message }
  | .subagentUpdated task => { p with tasks := p.tasks.put task }
  | .threadUpdated archived => { p with archived }

def applyAll (p : Projection) (events : List Event) : Projection :=
  events.foldl apply p

theorem applyAll_append (p : Projection) (first second : List Event) :
    p.applyAll (first ++ second) = (p.applyAll first).applyAll second :=
  List.foldl_append

end Projection

/-- `execution_seed` names a run by its ordinal. -/
def runId (threadId : String) (ordinal : Int) : String :=
  s!"run:{encodeComponent threadId}:{ordinal}"

/-- The message of a delivery is named by its run and its generation. -/
def deliveryMessageId (run : String) (generation : Int) : String :=
  s!"message:delegated-completion:{encodeComponent run}:{generation}"

@[simp]
theorem guard_eq_some {holds : Prop} [Decidable holds] {done : Unit} :
    (guard holds : Option Unit) = some done ↔ holds := by
  unfold guard
  split
  · exact iff_of_true rfl ‹_›
  · exact iff_of_false nofun ‹_›

/-- `wake_detail`. -/
def wakeDetail (ids : List String) : String :=
  "Delegated task completion available. Read task_status for each task to consume its result:\n" ++
    "\n".intercalate ids

end Zeron.Mailbox

/-!
## The planners of mail and queue

Each planner looks at one snapshot and returns whole rows.  Refusals that look at
provider sessions are not modelled: a command stands for one that was accepted.
-/

namespace Zeron.Mailbox

open Data
open Orchestration (RunStatus EffectRequest)

inductive DeliveryAction where
  | beginSteer
  | queue
  | accepted
  | completed (cancelled : Bool)
  | recover
  deriving DecidableEq

structure DeliveryCommand where
  parentRunId : String
  generation : Int
  messageId : String
  action : DeliveryAction
  deriving DecidableEq

namespace Projection

/-! ## Reserving a delivery -/

/-- A result of the run's that nobody has seen yet. -/
def awaits (run : Run) (task : Task) : Bool :=
  task.appOwned && task.runId == run.id && task.result.isSome &&
    !(task.state == .acknowledged || task.state == .disposed || task.state == .delivered)

/-- The cohort takes no more mail. -/
def disabled (p : Projection) (run : Run) : Bool :=
  p.archived || p.deleted || run.cohort.disposition != .opened

/-- A pending result that wakes the thread. -/
def candidate (p : Projection) (run : Run) (task : Task) : Bool :=
  awaits run task && (task.alwaysWake || p.activeRun.isNone) && task.state == .pending

/-- A delivery that is not under way can grow. -/
def joinable (p : Projection) (delivery : Delivery) : Bool :=
  ((p.runOf delivery.messageId).all fun run => run.status == .queued) &&
    ((p.messages.get delivery.messageId).all fun message => !message.streaming)

/-- Members that are new are added at the end. -/
def addMembers (ids candidates : List String) : List String :=
  candidates.foldl (fun ids id => if id ∈ ids then ids else ids ++ [id]) ids

/-- The delivery that takes the candidates, and whether it is a new one. -/
def reserved (p : Projection) (run : Run) (candidates : List String) : Option (Delivery × Bool) :=
  match run.cohort.delivery with
  | none =>
      some ({
        generation := run.cohort.nextGeneration
        messageId := deliveryMessageId run.id run.cohort.nextGeneration
        taskIds := addMembers [] candidates }, true)
  | some delivery =>
      if p.joinable delivery then
        some ({ delivery with taskIds := addMembers delivery.taskIds candidates }, false)
      else none

/-- The message that announces a delivery. -/
def announcement (p : Projection) (run : Run) (delivery : Delivery) (fresh : Bool) : Message :=
  let saved := if fresh then none else p.messages.get delivery.messageId
  { saved.getD {
      id := delivery.messageId, runId := none, text := "", streaming := false
      delegatedCompletion := none, notification := false } with
    text := wakeDetail delivery.taskIds
    delegatedCompletion := some {
      parentRunId := run.id
      generation := delivery.generation
      taskIds := delivery.taskIds } }

/-- The row of a run whose cohort has changed. -/
def cohortEvents (run : Run) (cohort : Cohort) : List Event :=
  if run.delegatedCompletion = some cohort then []
  else [.runUpdated { run with delegatedCompletion := some cohort }]

/-- What the loop in `reserve` decides for a run. -/
inductive Reservation where
  | disabled
  | idle
  | claims (candidates : List String) (delivery : Delivery) (fresh : Bool)

/-- One run of the loop in `reserve`. -/
def reservation (p : Projection) (tasks : List Task) (run : Run) : Reservation :=
  if p.disabled run then .disabled
  else
    let candidates := (tasks.filter (p.candidate run)).map Task.id
    if candidates = [] then .idle
    else
      match p.reserved run candidates with
      | none => .idle
      | some (delivery, fresh) => .claims candidates delivery fresh

namespace Reservation

/-- What becomes of a task. -/
def task (run : Run) (task : Task) : Reservation → Task
  | .disabled => if awaits run task then task.settle .disposed else task
  | .idle => task
  | .claims candidates _ _ => if task.id ∈ candidates then task.settle .claimed else task

/-- The cohort of the run afterwards. -/
def cohort (run : Run) : Reservation → Cohort
  | .disabled => { run.cohort with delivery := none }
  | .idle => run.cohort
  | .claims _ delivery fresh => { run.cohort with
      delivery := some delivery
      nextGeneration := if fresh then delivery.generation + 1 else run.cohort.nextGeneration }

/-- What is announced and enqueued. -/
def plan (p : Projection) (run : Run) (reservation : Reservation) : Plan :=
  match reservation with
  | .claims _ delivery fresh => {
      events := .messageUpdated (p.announcement run delivery fresh) ::
        cohortEvents run (reservation.cohort run)
      effects :=
        if fresh then [.delegatedCompletionContinue run.id delivery.generation delivery.messageId]
        else [] }
  | _ => { events := cohortEvents run (reservation.cohort run) }

end Reservation

/-- The loop in `reserve`. -/
def reserveRuns (p : Projection) : List Run → List Task → List Task × Plan
  | [], tasks => (tasks, {})
  | run :: runs, tasks =>
      let reservation := p.reservation tasks run
      let rest := p.reserveRuns runs (tasks.map fun task => reservation.task run task)
      (rest.1, (reservation.plan p run).append rest.2)

/-- A task that a command has changed takes the place of its record. -/
def replace (updated : List Task) (old : Task) : Task :=
  updated.foldl (fun task new => if new.id = task.id then new else task) old

/-- `reserve`. -/
def reserve (p : Projection) (updated : List Task) : Plan :=
  let reserved := p.reserveRuns p.orderedRuns (p.tasks.rows.map (replace updated))
  let changed := reserved.1.filter fun task => p.tasks.get task.id != some task
  { reserved.2 with events := reserved.2.events ++ changed.map .subagentUpdated }

/-! ## Deliveries -/

/-- `current_delivery`. -/
def currentDelivery (p : Projection) (input : DeliveryCommand) : Option Delivery := do
  let run ← p.runs.get input.parentRunId
  let delivery ← run.cohort.delivery
  guard (!p.archived && !p.deleted && run.cohort.disposition == .opened)
  guard (delivery.generation == input.generation && delivery.messageId == input.messageId)
  let claimed := delivery.taskIds.any fun id =>
    (p.tasks.get id).any fun task => task.state == .claimed
  let answered :=
    match input.action with
    | .accepted => true
    | .completed _ => true
    | _ => false
  guard (claimed || (delivery.taskIds.isEmpty && answered))
  return delivery

/-- The run that a delivery starts, or queues while another is active. -/
def deliveryRun (p : Projection) (messageId : String) : Run :=
  let busy := p.activeRun.isSome
  { id := runId p.threadId p.nextOrdinal
    ordinal := p.nextOrdinal
    status := if busy then .queued else .starting
    userMessageId := messageId
    queuePosition := if busy then some p.nextOrdinal else none
    queueHeld := false
    delegatedCompletion := none }

/-- `DeliveryAction::Queue`, and `Recover`, which releases a run that is held. -/
def planQueue (p : Projection) (input : DeliveryCommand) (message : Message) : Plan :=
  match p.runOf input.messageId with
  | some run =>
      if input.action = .recover ∧ run.status = .queued then
        { events := [.runUpdated { run with queueHeld := false }] }
      else {}
  | none =>
      let run := p.deliveryRun input.messageId
      { events := [.runUpdated run,
          .messageUpdated { message with runId := some run.id, streaming := false }]
        effects := if run.status = .starting then [.providerTurnStart run.id] else [] }

/-- The tasks that leave a delivery when it is answered. -/
def answeredTasks (p : Projection) (delivery : Delivery) (cancelled : Bool) : List Task :=
  let held := p.tasks.rows.filter fun task =>
    decide (task.id ∈ delivery.taskIds) && task.state == .claimed
  held.map fun task => task.settle (if cancelled then .pending else .delivered)

/-- `DeliveryAction::Accepted` and `Completed`. -/
def planAnswered (p : Projection) (run : Run) (delivery : Delivery) (cancelled : Bool) : Plan :=
  let events :=
    .runUpdated { run with delegatedCompletion := some { run.cohort with delivery := none } } ::
      (p.answeredTasks delivery cancelled).map .subagentUpdated
  let plan := (p.applyAll events).reserve []
  { plan with events := events ++ plan.events }

/-- `plan_delivery`. -/
def planDelivery (p : Projection) (input : DeliveryCommand) : Plan :=
  match p.currentDelivery input, p.runs.get input.parentRunId, p.messages.get input.messageId with
  | some delivery, some original, some message =>
      match input.action with
      | .beginSteer =>
          match p.activeRun.filter fun run => run.status == .running with
          | none => {}
          | some live =>
              { events := [.messageUpdated
                  { message with runId := some live.id, streaming := true }] }
      | .queue => p.planQueue input message
      | .recover => p.planQueue input message
      | .accepted => p.planAnswered original delivery false
      | .completed cancelled => p.planAnswered original delivery cancelled
  | _, _, _ => {}

/-- What `remove_member` does to one run. -/
def removeFrom (p : Projection) (taskId : String) (run : Run) : List Event :=
  match run.cohort.delivery with
  | none => []
  | some delivery =>
      if taskId ∈ delivery.taskIds then
        let remaining := delivery.taskIds.filter (· ≠ taskId)
        let carrier := p.runOf delivery.messageId
        let unstarted := carrier.all fun run => run.status == .queued
        -- An empty batch under way still bars its successor.
        let kept := if remaining = [] ∧ unstarted = true then none
          else some { delivery with taskIds := remaining }
        let cancelled :=
          if remaining = [] then
            (carrier.filter fun run => run.status == .queued).toList.map fun queued =>
              Event.runUpdated { queued with status := .cancelled, queuePosition := none }
          else []
        let announced :=
          match p.messages.get delivery.messageId with
          | some message =>
              if !message.streaming && unstarted then
                [Event.messageUpdated { message with
                  text := wakeDetail remaining
                  delegatedCompletion := message.delegatedCompletion.map fun ownership =>
                    { ownership with taskIds := remaining } }]
              else []
          | none => []
        let cohort := { run.cohort with delivery := kept }
        .runUpdated { run with delegatedCompletion := some cohort } :: cancelled ++ announced
      else []

/-- `remove_member`. -/
def removeMember (p : Projection) (taskId : String) : List Event :=
  p.orderedRuns.flatMap (p.removeFrom taskId)

/-- The results of a run that nobody has read are disposed of. -/
def disposeTasks (p : Projection) (id : String) : List Event :=
  (p.tasks.rows.filter fun task => task.runId == id &&
    !(task.state == .acknowledged || task.state == .disposed)).map fun task =>
      .subagentUpdated (task.settle .disposed)

/-- `stop`. -/
def stop (p : Projection) (id : String) : List Event :=
  match p.runs.get id with
  | none => []
  | some run =>
      [.runUpdated { run with delegatedCompletion := some {
        disposition := .stopped
        nextGeneration := run.cohort.nextGeneration
        delivery := none } }] ++
      p.disposeTasks id ++
      (p.orderedRuns.filter fun run => run.status == .queued).map fun run =>
        .runUpdated { run with queueHeld := true }

/-! ## The queue -/

/-- `cancel_graph`. -/
def cancelGraph (run : Run) : Event :=
  .runUpdated { run with status := .cancelled, queuePosition := none }

/-- `cancel`: mail is disposed of with all of its cohort. -/
def cancel (p : Projection) (run : Run) : List Event :=
  match (p.messages.get run.userMessageId).bind Message.delegatedCompletion with
  | some ownership =>
      (p.runs.get ownership.parentRunId).toList.map (fun parent =>
        .runUpdated { parent with delegatedCompletion := some { parent.cohort with
          disposition := .disposed, delivery := none } }) ++
      p.disposeTasks ownership.parentRunId ++
      (p.queued.filter fun queued =>
        ((p.messages.get queued.userMessageId).bind Message.delegatedCompletion).any fun other =>
          other.parentRunId == ownership.parentRunId).map cancelGraph
  | none => [cancelGraph run]

/-- Mail whose members were all observed or disposed of. -/
def spent (p : Projection) (run : Run) : Bool :=
  ((p.messages.get run.userMessageId).bind Message.delegatedCompletion).any fun ownership =>
    (p.currentDelivery {
      parentRunId := ownership.parentRunId
      generation := ownership.generation
      messageId := run.userMessageId
      action := .queue }).isNone

/-- The runs that `drain` goes through. -/
def startable (p : Projection) : List Run :=
  p.orderedRuns.filter fun run => run.status == .queued && !run.queueHeld

/-- The loop in `drain`: mail that is spent must not wake the thread. -/
def drainRuns (p : Projection) : List Run → Plan
  | [] => {}
  | run :: runs =>
      if p.spent run then
        let rest := p.drainRuns runs
        { rest with events := .runUpdated { run with status := .cancelled } :: rest.events }
      else
        { events := [.runUpdated { run with status := .starting, queuePosition := none }]
          effects := [.providerTurnStart run.id] }

/-- `drain`. -/
def drain (p : Projection) : Plan :=
  if p.activeRun.isSome || p.archived || p.deleted then {} else p.drainRuns p.startable

/-- Runs that the document owns are started by its own lane. -/
def authority (p : Projection) (intents : List String) : Projection :=
  { p with runs := p.runs.remove fun run =>
      decide (run.status = RunStatus.queued ∧ run.userMessageId ∈ intents) }

/-- `DrainQueue`. -/
def drainQueue (p : Projection) (intents : List String) : Plan :=
  (p.authority intents).drain

end Projection

end Zeron.Mailbox
