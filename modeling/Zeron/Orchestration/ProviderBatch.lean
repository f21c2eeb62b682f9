import Zeron.Orchestration.Thread
import Zeron.Transition.Run

/-!
# Provider batches

A provider speaks for one run, through the run's active attempt.  Its guard is
checked against the thread, then its events one after the other against a copy
of the thread that the earlier events of the batch have changed.  Only then are
the events appended and folded into the read model.
-/

namespace Zeron.Orchestration

open Zeron.Data (Table)
open Zeron.Transition (Step)

variable {content : Type} [DecidableEq content]

omit [DecidableEq content] in
/-- `check_guard`, as the condition that it tests. -/
def ProviderGuard.owns (guard : ProviderGuard) (projection : ThreadProjection content) : Bool :=
  match projection.runs.get guard.runId, projection.attempts.get guard.activeAttemptId,
      projection.providerThreads.find? fun provider => provider.id == guard.providerThreadId with
  | some run, some attempt, some provider =>
      !run.status.terminal
        && !(run.status == .preparing || run.status == .queued)
        && !attempt.status.terminal
        && run.activeAttemptId == some guard.activeAttemptId
        && run.providerThreadId == some guard.providerThreadId
        && attempt.runId == run.id
        && attempt.providerThreadId == guard.providerThreadId
        && attempt.providerTurnId == guard.providerTurnId
        && provider.appThreadId == some projection.thread.id
        && provider.providerInstanceId == run.providerInstanceId
        && provider.lastRunOrdinal == some guard.expectedLastRunOrdinal
        && run.ordinal == guard.expectedLastRunOrdinal
        && provider.providerSessionId == guard.providerSessionId
  | _, _, _ => false

omit [DecidableEq content] in
/-- A refusal is an `Error::Invariant` with its text. -/
def checkGuard (projection : ThreadProjection content) (guard : ProviderGuard) :
    Except String Unit :=
  if guard.owns projection then .ok () else .error "Stale provider ownership."

/-- A run may only be brought forward, by the provider that owns it. -/
def Run.acceptsUpdate (old : Run content) (guard : ProviderGuard) (next : Run content) : Bool :=
  next.id == guard.runId
    && next.threadId == old.threadId
    && next.ordinal == old.ordinal
    && next.activeAttemptId == old.activeAttemptId
    && next.providerThreadId == old.providerThreadId
    && next.providerInstanceId == old.providerInstanceId
    && next.modelSelection == old.modelSelection
    && next.rootNodeId == old.rootNodeId
    && next.requestedAt == old.requestedAt
    && next.userMessageId == old.userMessageId
    && (next.delegatedCompletion.isNone || next.delegatedCompletion == old.delegatedCompletion)
    && old.status.transition next.status

omit [DecidableEq content] in
def RunAttempt.acceptsUpdate (old : RunAttempt content) (guard : ProviderGuard)
    (next : RunAttempt content) : Bool :=
  next.id == guard.activeAttemptId
    && next.runId == old.runId
    && next.attemptOrdinal == old.attemptOrdinal
    && next.rootNodeId == old.rootNodeId
    && next.providerThreadId == old.providerThreadId
    && next.providerInstanceId == old.providerInstanceId
    && (old.providerTurnId.isNone || old.providerTurnId == next.providerTurnId)
    && (!old.status.terminal || old.status == next.status)
    && !(old.status == .running && next.status == .pending)

omit [DecidableEq content] in
/-- What the node itself says about its owner. -/
def ThreadProjection.ownsNode (state : ThreadProjection content) (guard : ProviderGuard)
    (next : ExecutionNode content) : Bool :=
  next.runId == some guard.runId
    && next.threadId == state.thread.id
    && next.providerThreadId == some guard.providerThreadId
    && ((state.runs.get guard.runId).bind Run.rootNodeId) == some next.rootNodeId
    && ((state.attempts.get guard.activeAttemptId).bind RunAttempt.providerTurnId) ==
      next.providerTurnId

omit [DecidableEq content] in
/-- The run, thread and provider of the old row are not compared. -/
def ExecutionNode.acceptsUpdate (old next : ExecutionNode content) : Bool :=
  old.rootNodeId == next.rootNodeId
    && old.parentNodeId == next.parentNodeId
    && old.kind == next.kind
    && old.countsForRun == next.countsForRun
    && old.status.transition next.status

omit [DecidableEq content] in
/-- The root of the parent is not compared. -/
def ThreadProjection.rootsNode (state : ThreadProjection content) (guard : ProviderGuard)
    (next : ExecutionNode content) : Bool :=
  some next.rootNodeId == (state.runs.get guard.runId).bind Run.rootNodeId
    && next.parentNodeId.any fun parent => (state.nodes.get parent).isSome

omit [DecidableEq content] in
def DomainEvent.crossesOwner (event : DomainEvent content) (threadId : String)
    (guard : ProviderGuard) : Bool :=
  event.threadId != threadId || event.runId.any fun runId => runId != guard.runId

/-- One round of the loop of `provider_batch`. -/
def acceptEvent (guard : ProviderGuard) (state : ThreadProjection content)
    (event : DomainEvent content) : Except String (ThreadProjection content) :=
  if event.crossesOwner state.thread.id guard then .error "Provider batch crosses its owner."
  else
    match event.payload with
    | .runUpdated next =>
        match state.runs.get next.id with
        | none => .error "Provider cannot create a run."
        | some old =>
            if old.acceptsUpdate guard next then .ok { state with runs := state.runs.put next }
            else .error "Invalid run transition or ownership."
    | .runAttemptUpdated next =>
        match state.attempts.get next.id with
        | none => .error "Provider cannot create an attempt."
        | some old =>
            if old.acceptsUpdate guard next then
              .ok { state with attempts := state.attempts.put next }
            else .error "Invalid attempt transition or ownership."
    | .nodeUpdated next =>
        if state.ownsNode guard next then
          match state.nodes.get next.id with
          | some old =>
              if old.acceptsUpdate next then .ok { state with nodes := state.nodes.put next }
              else .error "Invalid node transition."
          | none =>
              if state.rootsNode guard next then .ok { state with nodes := state.nodes.put next }
              else .error "Node graph is not rooted in this attempt."
        else .error "Invalid node ownership."
    | .other _ _ => .error "Provider event outside kernel execution subset."

/-- `provider_batch`. -/
def providerBatch (projection : ThreadProjection content) (guard : ProviderGuard)
    (events : List (DomainEvent content)) : Except String Unit :=
  match events.foldlM (acceptEvent guard) projection with
  | .error refusal => .error refusal
  | .ok _ => if events.isEmpty then .error "Provider batch is empty." else .ok ()

/-- Events of another thread are refused. -/
theorem threadId_of_acceptEvent {guard : ProviderGuard} {state next : ThreadProjection content}
    {event : DomainEvent content} (accepted : acceptEvent guard state event = .ok next) :
    event.threadId = state.thread.id := by
  unfold acceptEvent at accepted
  split at accepted
  · cases accepted
  · rename_i kept
    unfold DomainEvent.crossesOwner at kept
    simp only [Bool.or_eq_true, bne_iff_ne, not_or, not_not] at kept
    exact kept.1

theorem threadId_of_providerBatch {projection : ThreadProjection content} {guard : ProviderGuard}
    {event : DomainEvent content} {events : List (DomainEvent content)}
    (accepted : providerBatch projection guard (event :: events) = .ok ()) :
    event.threadId = projection.thread.id := by
  unfold providerBatch at accepted
  rw [List.foldlM_cons] at accepted
  cases first : acceptEvent guard projection event with
  | error refusal =>
      rw [first] at accepted
      cases accepted
  | ok next => exact threadId_of_acceptEvent first

omit [DecidableEq content] in
/-- An update that leaves these two fields out keeps what is recorded. -/
def Run.preserveRecorded (next : Run content) : Option (Run content) → Run content
  | none => next
  | some current =>
      { next with
        delegatedCompletion := next.delegatedCompletion.or current.delegatedCompletion
        restartCancelledBackgroundWork :=
          next.restartCancelledBackgroundWork.or current.restartCancelledBackgroundWork }

omit [DecidableEq content] in
/-- `projection::apply_checked` on the rows of a thread.  Events of other kinds
write other tables; the step has no successor for them. -/
def ThreadProjection.apply : Step (ThreadProjection content) (DomainEvent content) :=
  fun state event =>
    let touched := { state with thread := { state.thread with updatedAt := event.occurredAt } }
    match event.payload with
    | .runUpdated next =>
        some { touched with
          runs := state.runs.put (next.preserveRecorded (state.runs.get next.id)) }
    | .runAttemptUpdated next => some { touched with attempts := state.attempts.put next }
    | .nodeUpdated next => some { touched with nodes := state.nodes.put next }
    | .other _ _ => none

end Zeron.Orchestration
