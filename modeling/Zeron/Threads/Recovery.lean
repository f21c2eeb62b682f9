import Mathlib.Data.List.Dedup
import Zeron.Data.Merge
import Zeron.Data.Text
import Zeron.Threads.Rows

/-!
# Startup recovery

A host that starts finds the rows that the last process left.  No provider is behind
them any more, so one plan ends what was live in them, record family by record
family, and writes down which background work was lost.
-/

namespace Zeron.Threads

open Data

/-- `compact_label`. -/
def compactLabel (text : String) : String :=
  let words := (text.toList.splitOnP isWhitespace).filter fun word => decide (word ≠ [])
  let chars := [' '].intercalate words
  if chars.length > 160 then String.ofList (chars.take 159) ++ "…" else String.ofList chars

/-- A text that is not blank. -/
def written (text : Option String) : Option String :=
  text.filter fun label => decide (trimmed label ≠ "")

namespace BackgroundKind

/-- The kind that a restart records it under. -/
def cancelledAs : BackgroundKind → WorkKind
  | command => .shell
  | subagent => .subagent
  | monitor => .monitor
  | backgroundTask => .task

end BackgroundKind

/-- What makes two entries one. -/
def CancelledWork.key (work : CancelledWork) : WorkKind × Option String :=
  (work.kind, work.id)

namespace Run

/-- The launch journal and the queue keep these runs. -/
def intent (run : Run) : Bool :=
  run.status == .queued || run.status == .preparing

def recovered (now : Int) (run : Run) : Option Run :=
  if run.status = .preparing then none
  else if run.status = .queued then
    if run.queueHeld = some true then none else some { run with queueHeld := some true }
  else if run.status.terminal then none
  else some { run with status := .cancelled, completedAt := some now, queuePosition := none }

end Run

def RuntimeRequest.recovered (now : Int) (request : RuntimeRequest) : Option RuntimeRequest :=
  if request.status = .pending ∧ request.responseCapability ≠ .message then
    some { request with status := .expired, resolvedAt := some now }
  else none

def ProviderSession.recovered (now : Int) (session : ProviderSession) : Option ProviderSession :=
  if session.status = .stopped ∨ session.status = .error then none
  else some { session with status := .stopped, updatedAt := now }

def ProviderTurn.recovered (now : Int) (turn : ProviderTurn) : Option ProviderTurn :=
  if turn.status = .pending ∨ turn.status = .running then
    some { turn with status := .cancelled, completedAt := some now }
  else none

namespace Subagent

/-- Work of the provider's own that has not ended. -/
def lost (task : Subagent) : Bool :=
  task.origin == .providerNative && !task.status.terminal

def recovered (now : Int) (task : Subagent) : Option Subagent :=
  if task.lost then
    some { task with status := .cancelled, completedAt := some now, updatedAt := now }
  else none

/-- The entry of `cancelled_work`, under its provider. -/
def cancelledWork (task : Subagent) : Option (String × CancelledWork) :=
  if task.lost then
    task.providerThreadId.map fun provider =>
      (provider,
        { kind := .subagent
          label := compactLabel ((written (task.title.or (some task.prompt))).getD "subagent")
          id := some task.id })
  else none

end Subagent

namespace ProviderThread

def recovered (now : Int) (provider : ProviderThread) : Option ProviderThread :=
  if provider.pendingBackgroundTasks ≠ [] ∨ provider.status = .active then
    some { provider with
      pendingBackgroundTasks := []
      status := if provider.status = .active then .idle else provider.status
      updatedAt := now }
  else none

def cancelledWork (provider : ProviderThread) : List (String × CancelledWork) :=
  provider.pendingBackgroundTasks.map fun task =>
    (provider.id,
      { kind := task.kind.cancelledAs
        label := compactLabel (((written task.description).map fun description =>
          s!"{description} (id {task.taskId})").getD task.taskId)
        id := some task.taskId })

end ProviderThread

variable {run : Run}

namespace Run

variable {now : Int}

end Run

variable {now : Int}

namespace ThreadProjection

variable (p : ThreadProjection) (now : Int)

/-- `attempts`, as `read_thread` reads them. -/
def orderedAttempts : List Attempt :=
  sortBy (fun attempt : Attempt => toLex (attempt.attemptOrdinal, attempt.id)) p.attempts.rows

/-- `nodes`, as `read_thread` reads them: they have no ordinal. -/
def orderedNodes : List Node :=
  sortBy Node.id p.nodes.rows

/-- `message_nodes`: what a message can still answer. -/
def messageNodes : List String :=
  (p.requests.rows.filter fun request =>
    request.status == .pending && request.responseCapability == .message).map
      RuntimeRequest.nodeId

/-- The run is there, and it is neither queued nor prepared. -/
def launched (runId : String) : Bool :=
  (p.runs.get runId).any fun run => !run.intent

def recoveredAttempt (attempt : Attempt) : Option Attempt :=
  if p.launched attempt.runId && !attempt.status.terminal then
    some { attempt with status := .cancelled, completedAt := some now }
  else none

def recoveredNode (node : Node) : Option Node :=
  if (node.runId.any p.launched || (node.runId.isNone && node.kind == .rootTurn)) &&
      !node.status.terminal && !p.messageNodes.contains node.id then
    some { node with status := .cancelled, completedAt := some now }
  else none

/-- `cancelled_work`, before it is sorted by provider. -/
def lostWork : List (String × CancelledWork) :=
  p.subagents.rows.filterMap Subagent.cancelledWork ++
    p.providerThreads.rows.flatMap ProviderThread.cancelledWork

/-- The work of one provider. -/
def lostWorkOf (provider : String) : List CancelledWork :=
  (p.lostWork.filter fun entry => entry.1 == provider).map Prod.snd

/-- The latest run that was started on a provider. -/
def latestStartedOn (provider : String) : Option Run :=
  latest (p.orderedRuns.filter fun run =>
    decide (run.providerThreadId = some provider) && run.startedAt.isSome)

/-- The rosters of lost work, in the order of the providers. -/
def lostRosters : List (String × List CancelledWork) :=
  (sortBy id (p.lostWork.map Prod.fst).dedup).filterMap fun provider =>
    (p.latestStartedOn provider).map fun run =>
      (run.id, addAllNew CancelledWork.key (run.restartCancelledBackgroundWork.getD [])
        (p.lostWorkOf provider))

/-- The events of recovery, without the receipt of one that has nothing to do. -/
def sweeps : List Event :=
  (p.orderedRuns.filterMap (Run.recovered now)).map .runUpdated ++
  ((p.orderedAttempts.filterMap (p.recoveredAttempt now)).map .attemptUpdated ++
  ((p.orderedNodes.filterMap (p.recoveredNode now)).map .nodeUpdated ++
  ((p.requests.rows.filterMap (RuntimeRequest.recovered now)).map .runtimeRequestUpdated ++
  ((p.sessions.rows.filterMap (ProviderSession.recovered now)).map .providerSessionUpdated ++
  ((p.turns.rows.filterMap (ProviderTurn.recovered now)).map .providerTurnUpdated ++
  ((p.subagents.rows.filterMap (Subagent.recovered now)).map .subagentUpdated ++
  ((p.providerThreads.rows.filterMap (ProviderThread.recovered now)).map
    .providerThreadUpdated ++
  p.lostRosters.map fun roster => .runBackgroundWorkCancelled roster.1 roster.2)))))))

variable {p now}

/-! ## What the events write -/

/-- The run with its roster. -/
def withRoster (p : ThreadProjection) (roster : String × List CancelledWork) : Option Run :=
  (p.runs.get roster.1).map fun run => { run with restartCancelledBackgroundWork := some roster.2 }

/-- The runs after their own sweep. -/
def sweptRuns (p : ThreadProjection) (now : Int) : Table Run.id :=
  p.runs.touchAll (p.orderedRuns.filterMap (Run.recovered now))

/-- The rows after recovery. -/
def recovered (p : ThreadProjection) (now : Int) (thread : AppThread) : ThreadProjection :=
  { p with
    thread
    runs := (p.sweptRuns now).touchAll
      (p.lostRosters.filterMap (withRoster { p with runs := p.sweptRuns now }))
    attempts := p.attempts.touchAll (p.orderedAttempts.filterMap (p.recoveredAttempt now))
    nodes := p.nodes.touchAll (p.orderedNodes.filterMap (p.recoveredNode now))
    requests := p.requests.touchAll (p.requests.rows.filterMap (RuntimeRequest.recovered now))
    sessions := p.sessions.touchAll (p.sessions.rows.filterMap (ProviderSession.recovered now))
    turns := p.turns.touchAll (p.turns.rows.filterMap (ProviderTurn.recovered now))
    subagents := p.subagents.touchAll (p.subagents.rows.filterMap (Subagent.recovered now))
    providerThreads :=
      p.providerThreads.touchAll (p.providerThreads.rows.filterMap (ProviderThread.recovered now)) }

/-- A pending request that a message can answer holds the node. -/
def Answerable (p : ThreadProjection) (nodeId : String) : Prop :=
  ∃ request ∈ p.requests.rows, request.status = .pending ∧
    request.responseCapability = .message ∧ request.nodeId = nodeId

/-- Nothing in the thread is live. -/
structure Quiet (p : ThreadProjection) : Prop where
  runs : ∀ run ∈ p.runs.rows, run.status.terminal = true ∨ run.status = .preparing ∨
    (run.status = .queued ∧ run.queueHeld = some true)
  attempts : ∀ attempt ∈ p.attempts.rows, ∀ run ∈ p.runs.rows, attempt.runId = run.id →
    run.status ≠ .queued → run.status ≠ .preparing → attempt.status.terminal = true
  nodes : ∀ node ∈ p.nodes.rows, ∀ run ∈ p.runs.rows, node.runId = some run.id →
    run.status ≠ .queued → run.status ≠ .preparing →
      node.status.terminal = true ∨ p.Answerable node.id
  roots : ∀ node ∈ p.nodes.rows, node.runId = none → node.kind = .rootTurn →
    node.status.terminal = true ∨ p.Answerable node.id
  requests : ∀ request ∈ p.requests.rows, request.status = .pending →
    request.responseCapability = .message
  sessions : ∀ session ∈ p.sessions.rows, session.status = .stopped ∨ session.status = .error
  turns : ∀ turn ∈ p.turns.rows, turn.status ≠ .pending ∧ turn.status ≠ .running
  subagents : ∀ task ∈ p.subagents.rows, task.origin = .providerNative →
    task.status.terminal = true
  providers : ∀ provider ∈ p.providerThreads.rows,
    provider.status ≠ .active ∧ provider.pendingBackgroundTasks = []

variable {thread : AppThread}

end ThreadProjection

end Zeron.Threads
