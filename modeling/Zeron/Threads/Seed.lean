import Std.Data.String.ToInt
import Zeron.Threads.Items

/-!
# The seed of a run

A run begins with its first attempt, its root and the provider's conversation that it
is to use.  The conversation is one of an earlier run of the same instance, where the
selection allows it, and a new generation otherwise.
-/

namespace Zeron.Threads

open Data
open Orchestration (encodeComponent RunStatus)

/-- How a change of the selection reaches the provider. -/
inductive SelectionTransition where
  | applyOnNextTurn
  | createWithHandoff
  deriving DecidableEq

/-- `selection_transition`. -/
def selectionTransition (driver : String) (current target : ModelSelection) :
    SelectionTransition :=
  if current = target then .applyOnNextTurn
  else if ["claudeAgent", "codex", "cursor", "opencode", "pi"].contains driver then
    .applyOnNextTurn
  else if ["grok", "devin", "hermes"].contains driver && current.model == target.model then
    .applyOnNextTurn
  else .createWithHandoff

structure ExecutionSeed where
  run : Run
  attempt : Attempt
  root : Node
  providerThread : ProviderThread

/-- The id of a thread's run. -/
def seedRunId (threadId : String) (ordinal : Int) : String :=
  s!"run:{encodeComponent threadId}:{ordinal}"

/-- The id of a run's first attempt. -/
def seedAttemptId (runId : String) : String :=
  s!"run-attempt:{encodeComponent runId}:1"

/-- The id of a run's root. -/
def seedRootId (runId : String) : String :=
  s!"node:{encodeComponent runId}:1"

/-- The id of a generation of the provider's conversation. -/
def seedProviderThreadId (threadId instanceId : String) (ordinal : Int) : String :=
  s!"provider-thread:app:{encodeComponent threadId}:{encodeComponent instanceId}:{ordinal}"

/-- `execution_seed`. -/
def executionSeed (thread : AppThread) (ordinal : Int) (messageId : String) (status : RunStatus)
    (driver : String) (now : Int) : ExecutionSeed :=
  let run := seedRunId thread.id ordinal
  let attempt := seedAttemptId run
  let root := seedRootId run
  let provider := seedProviderThreadId thread.id thread.providerInstanceId ordinal
  { run :=
      { id := run
        ordinal
        providerInstanceId := thread.providerInstanceId
        modelSelection := thread.modelSelection
        providerThreadId := some provider
        userMessageId := messageId
        rootNodeId := some root
        activeAttemptId := some attempt
        status
        queuePosition := none
        queueHeld := none
        startedAt := none
        completedAt := none
        restartCancelledBackgroundWork := none
        delegatedCompletion := none }
    attempt :=
      { id := attempt
        nativeThreadId := none
        runId := run
        attemptOrdinal := 1
        rootNodeId := root
        providerInstanceId := thread.providerInstanceId
        providerThreadId := provider
        providerTurnId := none
        reason := .initial
        status := .pending
        startedAt := none
        completedAt := none }
    root :=
      { id := root
        runId := some run
        parentNodeId := none
        rootNodeId := root
        kind := .rootTurn
        status := .pending
        countsForRun := true
        providerThreadId := some provider
        providerTurnId := none
        runtimeRequestId := none
        startedAt := none
        completedAt := none }
    providerThread :=
      { id := provider
        driver
        providerInstanceId := thread.providerInstanceId
        providerSessionId := none
        appThreadId := some thread.id
        ownerNodeId := some root
        nativeThreadRef := none
        status := .notLoaded
        firstRunOrdinal := some ordinal
        lastRunOrdinal := some ordinal
        pendingBackgroundTasks := []
        createdAt := now
        updatedAt := now } }

/-- The seed in a conversation that exists. -/
def ExecutionSeed.reusing (seed : ExecutionSeed) (provider : ProviderThread) : ExecutionSeed :=
  { run := { seed.run with providerThreadId := some provider.id }
    attempt := { seed.attempt with providerThreadId := provider.id }
    root := { seed.root with providerThreadId := some provider.id }
    providerThread := provider }

/-- A run that starts takes its conversation over. -/
def ExecutionSeed.takingOver (seed : ExecutionSeed) (now : Int) : ExecutionSeed :=
  { seed with
    providerThread :=
      { seed.providerThread with
        ownerNodeId := some seed.root.id
        lastRunOrdinal := some seed.run.ordinal
        updatedAt := now } }

/-- A status in which a conversation is not continued. -/
def ProviderThreadStatus.gone : ProviderThreadStatus → Bool
  | closed | archived | error => true
  | _ => false

namespace ThreadProjection

variable (p : ThreadProjection)

/-- The conversation of a run, if it is one of the instance and can be continued. -/
def continued (instanceId driver : String) (run : Run) : Option ProviderThread :=
  (run.providerThreadId.bind p.providerThreads.get).filter fun provider =>
    provider.providerInstanceId == instanceId && provider.driver == driver &&
      !provider.status.gone

/-- `reusable_generation`. -/
def reusableGeneration (instanceId : String) (target : ModelSelection) (ordinal : Int)
    (driver : String) : Option (Run × ProviderThread) :=
  let earlier := p.orderedRuns.reverse.filter fun run =>
    decide (run.ordinal < ordinal) && run.providerInstanceId == instanceId &&
      run.status != .rolledBack
  (earlier.findSome? fun run => (p.continued instanceId driver run).map (Prod.mk run)).filter
    fun found => selectionTransition driver found.1.modelSelection target == .applyOnNextTurn

/-- `execution_seed_for`. -/
def executionSeedFor (thread : AppThread) (ordinal : Int) (messageId : String)
    (status : RunStatus) (driver : String) (now : Int) : ExecutionSeed :=
  let seed := executionSeed thread ordinal messageId status driver now
  match p.reusableGeneration thread.providerInstanceId thread.modelSelection ordinal driver with
  | some (_, provider) =>
      let seed := seed.reusing provider
      if status = .queued then seed else seed.takingOver now
  | none => seed

/-- The largest ordinal of the runs. -/
def lastRunOrdinal : Int :=
  (p.runs.rows.map Run.ordinal).max?.getD 0

/-- `clear_parking`. -/
def clearParking (now : Int) : List Event :=
  let unsettled :=
    { p.thread with
      unsettledAt :=
        if p.thread.settledOverride = some "active" then p.thread.unsettledAt else some now
      settledOverride := none
      settledAt := none
      updatedAt := now }
  let settled := p.thread.settledOverride.isSome || p.thread.settledAt.isSome
  let thread := if settled then unsettled else p.thread
  (if settled then [.thread unsettled] else []) ++
    if thread.snoozedUntil.isSome then
      [.thread { thread with snoozedUntil := none, snoozedAt := none, updatedAt := now }]
    else []

end ThreadProjection

/-- `emit_execution`. -/
def emitExecution (seed : ExecutionSeed) : List Event :=
  [ .providerThreadUpdated seed.providerThread, .runCreated seed.run,
    .attemptUpdated seed.attempt, .nodeUpdated seed.root ]

/-! ## The ids -/

theorem seedRunId_injective (threadId : String) : Function.Injective (seedRunId threadId) := by
  intro first second same
  exact Int.repr_inj.mp ((String.append_right_inj _).mp same)

theorem seedAttemptId_injective : Function.Injective seedAttemptId := by
  intro first second same
  apply Orchestration.encodeComponent_injective
  exact (String.append_right_inj _).mp ((String.append_left_inj _).mp same)

theorem seedRootId_injective : Function.Injective seedRootId := by
  intro first second same
  apply Orchestration.encodeComponent_injective
  exact (String.append_right_inj _).mp ((String.append_left_inj _).mp same)

namespace ThreadProjection

variable {p : ThreadProjection} {thread : AppThread} {ordinal now : Int} {messageId driver : String}

/-- The conversation that can be continued is one of the records. -/
theorem get_of_reusableGeneration {instanceId : String} {target : ModelSelection} {run : Run}
    {provider : ProviderThread}
    (found : p.reusableGeneration instanceId target ordinal driver = some (run, provider)) :
    p.providerThreads.get provider.id = some provider := by
  rcases Option.filter_eq_some_iff.mp found with ⟨first, _⟩
  rcases List.exists_of_findSome?_eq_some first with ⟨earlier, _, continues⟩
  rcases Option.map_eq_some_iff.mp continues with ⟨other, stored, same⟩
  rcases Prod.ext_iff.mp same with ⟨_, rfl⟩
  rcases Option.filter_eq_some_iff.mp stored with ⟨named, _⟩
  rcases Option.bind_eq_some_iff.mp named with ⟨id, _, read⟩
  exact Table.get_of_mem (Table.mem_of_get read)

/-- A run that waits in the queue changes nothing in the conversation that it is to use. -/
theorem providerThread_executionSeedFor (p : ThreadProjection) (thread : AppThread) (ordinal : Int)
    (messageId driver : String) (now : Int) :
    (p.executionSeedFor thread ordinal messageId .queued driver now).providerThread =
      ((p.reusableGeneration thread.providerInstanceId thread.modelSelection ordinal driver).map
        Prod.snd).getD (executionSeed thread ordinal messageId .queued driver now).providerThread := by
  unfold executionSeedFor
  cases p.reusableGeneration thread.providerInstanceId thread.modelSelection ordinal driver <;> rfl

/-- A thread that is neither deleted nor bound anew. -/
structure SameBinding (thread other : AppThread) : Prop where
  id : other.id = thread.id
  deletedAt : other.deletedAt = thread.deletedAt
  active : other.activeProviderThreadId = thread.activeProviderThreadId

/-- Unparking writes the thread, and neither deletes nor binds it. -/
theorem clearParking_eq (p : ThreadProjection) (now : Int) :
    ∃ threads : List AppThread, p.clearParking now = threads.map .thread ∧
      ∀ thread ∈ threads, SameBinding p.thread thread := by
  have cases_of : ∀ (settled snoozed : Bool) (first second : AppThread), ∃ threads : List AppThread,
      (if settled then [Event.thread first] else []) ++ (if snoozed then [Event.thread second] else []) =
        threads.map .thread ∧ ∀ thread ∈ threads, thread = first ∨ thread = second := by
    intro settled snoozed first second
    refine ⟨(if settled then [first] else []) ++ (if snoozed then [second] else []), ?_, ?_⟩
    · cases settled <;> cases snoozed <;> rfl
    · intro thread listed
      rcases List.mem_append.mp listed with early | late
      · left
        split at early
        · exact List.mem_singleton.mp early
        · cases early
      · right
        split at late
        · exact List.mem_singleton.mp late
        · cases late
  rcases cases_of (p.thread.settledOverride.isSome || p.thread.settledAt.isSome) _ _ _ with
    ⟨threads, same, which⟩
  refine ⟨threads, same, ?_⟩
  intro thread listed
  rcases which thread listed with rfl | rfl
  · exact ⟨rfl, rfl, rfl⟩
  · split <;> exact ⟨rfl, rfl, rfl⟩

end ThreadProjection

end Zeron.Threads
