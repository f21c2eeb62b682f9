import Mathlib.Data.List.Induction
import Zeron.Data.Recent
import Zeron.Data.SortBy
import Zeron.Orchestration.Thread

/-!
# The read model of a thread

The thread, its runs with their attempts and nodes, and the records that belong to
it.  An event brings a whole row, and the reducer writes it; only the roster of
cancelled background work is brought alone.

Times are the milliseconds that `iso` prints.  Of each record the fields are kept
that a planner reads or writes.
-/

namespace Zeron.Threads

open Data
open Orchestration (RunStatus RunAttemptStatus RunAttemptReason NodeStatus NodeKind)

structure ModelSelection where
  instanceId : String
  model : String
  options : String
  deriving DecidableEq, Repr

inductive WorkKind where
  | subagent
  | shell
  | monitor
  | task
  deriving DecidableEq, Repr

/-- An entry of `restartCancelledBackgroundWork`. -/
structure CancelledWork where
  kind : WorkKind
  label : String
  id : Option String
  deriving DecidableEq, Repr

structure Run where
  id : String
  ordinal : Int
  providerInstanceId : String
  modelSelection : ModelSelection
  providerThreadId : Option String
  userMessageId : String
  rootNodeId : Option String
  activeAttemptId : Option String
  status : RunStatus
  queuePosition : Option Int
  queueHeld : Option Bool
  startedAt : Option Int
  completedAt : Option Int
  restartCancelledBackgroundWork : Option (List CancelledWork)
  /-- The text of the cohort. -/
  delegatedCompletion : Option String
  deriving DecidableEq

structure Attempt where
  id : String
  nativeThreadId : Option String
  runId : String
  attemptOrdinal : Int
  rootNodeId : String
  providerInstanceId : String
  providerThreadId : String
  providerTurnId : Option String
  reason : RunAttemptReason
  status : RunAttemptStatus
  startedAt : Option Int
  completedAt : Option Int

structure Node where
  id : String
  runId : Option String
  parentNodeId : Option String
  rootNodeId : String
  kind : NodeKind
  status : NodeStatus
  countsForRun : Bool
  providerThreadId : Option String
  providerTurnId : Option String
  runtimeRequestId : Option String
  startedAt : Option Int
  completedAt : Option Int

inductive RequestStatus where
  | pending
  | resolved
  | expired
  | cancelled
  deriving DecidableEq, Repr

/-- `responseCapability`. -/
inductive ResponseCapability where
  | live (providerSessionId : String)
  | message
  | notResumable (reason : String)
  deriving DecidableEq, Repr

structure RuntimeRequest where
  id : String
  nodeId : String
  kind : String
  status : RequestStatus
  responseCapability : ResponseCapability
  createdAt : Int
  resolvedAt : Option Int

inductive SessionStatus where
  | starting
  | ready
  | running
  | waiting
  | stopped
  | error
  deriving DecidableEq

structure ProviderSession where
  id : String
  driver : String
  providerInstanceId : String
  status : SessionStatus
  cwd : String
  model : Option String
  /-- `capabilities.turns.supportsQueuedMessages`. -/
  supportsQueuedMessages : Bool
  createdAt : Int
  updatedAt : Int

inductive TurnStatus where
  | pending
  | running
  | completed
  | interrupted
  | failed
  | cancelled
  deriving DecidableEq

structure ProviderTurn where
  id : String
  providerThreadId : String
  nodeId : String
  runAttemptId : Option String
  nativeTurnRef : Option String
  ordinal : Int
  status : TurnStatus
  startedAt : Option Int
  completedAt : Option Int

inductive SubagentOrigin where
  | appOwned
  | providerNative
  deriving DecidableEq

inductive SubagentStatus where
  | idle
  | pending
  | running
  | waiting
  | completed
  | failed
  | cancelled
  | interrupted
  deriving DecidableEq

structure Subagent where
  id : String
  runId : Option String
  origin : SubagentOrigin
  providerThreadId : Option String
  prompt : String
  title : Option String
  status : SubagentStatus
  completedAt : Option Int
  updatedAt : Int

inductive BackgroundKind where
  | subagent
  | command
  | monitor
  | backgroundTask
  deriving DecidableEq, Repr

/-- An entry of `pendingBackgroundTasks`. -/
structure BackgroundTask where
  kind : BackgroundKind
  taskId : String
  description : Option String

inductive ProviderThreadStatus where
  | notLoaded
  | idle
  | active
  | archived
  | closed
  | error
  deriving DecidableEq

structure ProviderThread where
  id : String
  driver : String
  providerInstanceId : String
  providerSessionId : Option String
  appThreadId : Option String
  ownerNodeId : Option String
  nativeThreadRef : Option String
  status : ProviderThreadStatus
  firstRunOrdinal : Option Int
  lastRunOrdinal : Option Int
  pendingBackgroundTasks : List BackgroundTask
  createdAt : Int
  updatedAt : Int

structure Message where
  id : String
  runId : Option String
  nodeId : Option String
  role : String
  text : String
  streaming : Bool
  createdAt : Int
  updatedAt : Int
  /-- `delegatedCompletion.parentRunId`. -/
  delegatedParent : Option String

/-- A record of kind `turn-item`. -/
structure TurnItem where
  id : String
  type : String
  runId : Option String
  ordinal : Int
  status : String
  /-- `input.persistent` of a tool. -/
  persistent : Bool
  /-- `origin` is `app_owned`. -/
  appOwned : Bool
  subagentId : Option String
  messageId : Option String

structure AppThread where
  id : String
  providerInstanceId : String
  modelSelection : ModelSelection
  activeProviderThreadId : Option String
  worktreePath : Option String
  updatedAt : Int
  archivedAt : Option Int
  deletedAt : Option Int
  settledOverride : Option String
  settledAt : Option Int
  unsettledAt : Option Int
  snoozedUntil : Option Int
  snoozedAt : Option Int

/-- The events of one thread. -/
inductive Event where
  /-- Any event whose type begins with `thread.`. -/
  | thread (thread : AppThread)
  | runCreated (run : Run)
  | runUpdated (run : Run)
  | runBackgroundWorkCancelled (runId : String) (work : List CancelledWork)
  | attemptUpdated (attempt : Attempt)
  | nodeUpdated (node : Node)
  | providerThreadUpdated (provider : ProviderThread)
  | providerSessionUpdated (session : ProviderSession)
  | providerSessionDetached (providerSessionId : String)
  | providerTurnUpdated (turn : ProviderTurn)
  | runtimeRequestUpdated (request : RuntimeRequest)
  | messageUpdated (message : Message)
  | subagentUpdated (task : Subagent)
  | turnItemUpdated (item : TurnItem)

/-- `ThreadProjection`. -/
structure ThreadProjection where
  thread : AppThread
  runs : Table Run.id
  attempts : Table Attempt.id
  nodes : Table Node.id
  requests : Table RuntimeRequest.id
  sessions : Table ProviderSession.id
  turns : Table ProviderTurn.id
  subagents : Table Subagent.id
  providerThreads : Table ProviderThread.id
  messages : Table Message.id
  items : Table TurnItem.id

namespace SubagentStatus

/-- `task::terminal` of the status's name. -/
def terminal : SubagentStatus → Bool
  | completed | failed | cancelled | interrupted => true
  | _ => false

end SubagentStatus

/-- `preserveRunRecordedFields`: what an update leaves out stays as it is recorded. -/
def Run.preserving (run : Run) (current : Option Run) : Run :=
  { run with
    delegatedCompletion :=
      run.delegatedCompletion.or (current.bind Run.delegatedCompletion)
    restartCancelledBackgroundWork :=
      run.restartCancelledBackgroundWork.or (current.bind Run.restartCancelledBackgroundWork) }

/-- A handle that no process has been behind. -/
def ProviderThread.placeholder (provider : ProviderThread) : Bool :=
  provider.status == .notLoaded && provider.firstRunOrdinal.isNone &&
    provider.nativeThreadRef.isNone && provider.providerSessionId.isNone

namespace ThreadProjection

/-- The key by which `read_thread` reads the runs. -/
def rowKey (run : Run) : Int ×ₗ String :=
  toLex (run.ordinal, run.id)

/-- `runs`, as `read_thread` reads them. -/
def orderedRuns (p : ThreadProjection) : List Run :=
  sortBy rowKey p.runs.rows

/-- The activity of an event that is not the thread's own. -/
def touchThread (p : ThreadProjection) (now : Int) : ThreadProjection :=
  { p with thread := { p.thread with updatedAt := now } }

/-- The derived patch of the thread: a real binding becomes the active one. -/
def bind (p : ThreadProjection) (provider : ProviderThread) : ThreadProjection :=
  if provider.appThreadId = some p.thread.id ∧ provider.placeholder = false then
    { p with thread := { p.thread with activeProviderThreadId := some provider.id } }
  else p

/-- `apply_checked`, on the rows of one thread. -/
def apply (p : ThreadProjection) (now : Int) : Event → Option ThreadProjection
  | .thread thread => some { p with thread }
  | .runCreated run | .runUpdated run =>
      some { p.touchThread now with runs := p.runs.touch (run.preserving (p.runs.get run.id)) }
  | .runBackgroundWorkCancelled runId work =>
      -- "background roster run missing"
      (p.runs.get runId).map fun run =>
        { p.touchThread now with
          runs := p.runs.touch { run with restartCancelledBackgroundWork := some work } }
  | .attemptUpdated attempt =>
      some { p.touchThread now with attempts := p.attempts.touch attempt }
  | .nodeUpdated node => some { p.touchThread now with nodes := p.nodes.touch node }
  | .providerThreadUpdated provider =>
      some (({ p with providerThreads := p.providerThreads.touch provider }.bind provider).touchThread
        now)
  | .providerSessionUpdated session =>
      some { p.touchThread now with sessions := p.sessions.touch session }
  | .providerSessionDetached id =>
      some { p.touchThread now with sessions := p.sessions.remove fun session => session.id == id }
  | .providerTurnUpdated turn => some { p.touchThread now with turns := p.turns.touch turn }
  | .runtimeRequestUpdated request =>
      some { p.touchThread now with requests := p.requests.touch request }
  | .messageUpdated message =>
      some { p.touchThread now with messages := p.messages.touch message }
  | .subagentUpdated task => some { p.touchThread now with subagents := p.subagents.touch task }
  | .turnItemUpdated item => some { p.touchThread now with items := p.items.touch item }

/-- The events of a plan, one after the other. -/
def applyAll (p : ThreadProjection) (now : Int) : List Event → Option ThreadProjection
  | [] => some p
  | event :: events => (p.apply now event).bind fun next => next.applyAll now events

theorem applyAll_append (p : ThreadProjection) (now : Int) (first second : List Event) :
    p.applyAll now (first ++ second) =
      (p.applyAll now first).bind fun middle => middle.applyAll now second := by
  induction first generalizing p with
  | nil => rfl
  | cons event first ih =>
      rw [List.cons_append, applyAll, applyAll, Option.bind_assoc]
      exact Option.bind_congr fun next _ => ih next

/-- `max_by_key` of the ordinal: of several with the largest one, the last. -/
def latest (runs : List Run) : Option Run :=
  runs.foldl (fun best run =>
    match best with
    | some earlier => if earlier.ordinal ≤ run.ordinal then some run else some earlier
    | none => some run) none

/-- `active_run`. -/
def activeRun (p : ThreadProjection) : Option Run :=
  p.orderedRuns.reverse.find? fun run => !run.status.terminal && run.status != .queued

/-! ## The order of the runs -/

variable {p : ThreadProjection}

theorem mem_orderedRuns {run : Run} : run ∈ p.orderedRuns ↔ run ∈ p.runs.rows :=
  mem_sortBy

theorem rowKey_injOn {first second : Run} (first_stored : first ∈ p.runs.rows)
    (second_stored : second ∈ p.runs.rows) (same : rowKey first = rowKey second) :
    first = second :=
  p.runs.eq_of_mem first_stored second_stored (Prod.ext_iff.mp (toLex_inj.mp same)).2

theorem ordinal_le_of_rowKey_le {first second : Run} (before : rowKey first ≤ rowKey second) :
    first.ordinal ≤ second.ordinal := by
  rcases Prod.Lex.le_iff.mp before with less | ⟨same, _⟩
  · exact le_of_lt less
  · exact le_of_eq same

/-- No two runs are read in one place. -/
theorem pairwise_orderedRuns (p : ThreadProjection) :
    p.orderedRuns.Pairwise fun first second => rowKey first < rowKey second := by
  apply pairwise_lt_sortBy
  have ids := p.runs.distinct
  rw [List.Nodup, List.pairwise_map] at ids ⊢
  apply ids.imp
  intro first second other same
  exact other (Prod.ext_iff.mp (toLex_inj.mp same)).2

theorem latest_concat (runs : List Run) (run : Run) :
    latest (runs ++ [run]) =
      match latest runs with
      | some earlier => if earlier.ordinal ≤ run.ordinal then some run else some earlier
      | none => some run := by
  rw [latest, List.foldl_append]
  rfl

/-- Among runs in their order, the latest is the last. -/
theorem latest_eq_getLast? {runs : List Run}
    (ordered : runs.Pairwise fun first second => rowKey first < rowKey second) :
    latest runs = runs.getLast? := by
  induction runs using List.reverseRecOn with
  | nil => rfl
  | append_singleton runs run ih =>
      rcases List.pairwise_append.mp ordered with ⟨before, _, across⟩
      rw [latest_concat, ih before, List.getLast?_concat]
      cases last : runs.getLast? with
      | none => rfl
      | some earlier =>
          have less := across earlier (List.mem_of_getLast? last) run (List.mem_singleton_self run)
          exact if_pos (ordinal_le_of_rowKey_le (le_of_lt less))

/-- The latest of the runs that meet a condition. -/
theorem latest_filter_eq_some_iff {which : Run → Bool} {run : Run} :
    latest (p.orderedRuns.filter which) = some run ↔
      run ∈ p.runs.rows ∧ which run = true ∧
        ∀ other ∈ p.runs.rows, which other = true → rowKey other ≤ rowKey run := by
  have ordered := p.pairwise_orderedRuns
  rw [latest_eq_getLast? (ordered.sublist List.filter_sublist), List.getLast?_filter]
  constructor
  · intro found
    have listed : run ∈ p.orderedRuns := List.mem_reverse.mp (List.mem_of_find?_eq_some found)
    rw [find?_eq_some_iff_of_pairwise (List.pairwise_reverse.mpr ordered)
      (List.mem_reverse.mpr listed)] at found
    refine ⟨mem_orderedRuns.mp listed, found.1, fun other stored picked => ?_⟩
    by_contra after
    have rejected := found.2 other (List.mem_reverse.mpr (mem_orderedRuns.mpr stored))
      (not_le.mp after)
    rw [rejected] at picked
    cases picked
  · rintro ⟨stored, picked, last⟩
    have listed : run ∈ p.orderedRuns := mem_orderedRuns.mpr stored
    rw [find?_eq_some_iff_of_pairwise (List.pairwise_reverse.mpr ordered)
      (List.mem_reverse.mpr listed)]
    refine ⟨picked, fun other other_listed after => ?_⟩
    have other_stored := mem_orderedRuns.mp (List.mem_reverse.mp other_listed)
    by_contra kept
    rw [Bool.not_eq_false] at kept
    exact absurd (last other other_stored kept) (not_le.mpr after)

end ThreadProjection

end Zeron.Threads
