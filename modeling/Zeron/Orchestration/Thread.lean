import Zeron.Data.Table

/-!
# Threads

The rows of a thread's read model: its runs, their attempts and the nodes of
their execution, and the events that replace such rows.
-/

namespace Zeron.Orchestration

open Zeron.Data (Table)

inductive RunStatus where
  | preparing
  | queued
  | starting
  | running
  | waiting
  | completed
  | interrupted
  | failed
  | cancelled
  | rolledBack
  deriving DecidableEq

inductive RunAttemptStatus where
  | pending
  | running
  | completed
  | interrupted
  | failed
  | cancelled
  | superseded
  deriving DecidableEq

inductive NodeStatus where
  | idle
  | pending
  | running
  | waiting
  | completed
  | interrupted
  | failed
  | cancelled
  | rolledBack
  deriving DecidableEq

inductive NodeKind where
  | rootTurn
  | assistantMessage
  | reasoning
  | plan
  | todoList
  | toolCall
  | approvalRequest
  | userInputRequest
  | subagent
  | hook
  | system
  deriving DecidableEq

inductive RunAttemptReason where
  | initial
  | steeringRestart
  | retry
  | providerRecovery
  deriving DecidableEq

/-- `content` stands for values that are only compared or carried along; `rest`
holds the fields that no check reads. -/
structure Run (content : Type) where
  id : String
  threadId : String
  ordinal : Int
  providerInstanceId : String
  modelSelection : content
  providerThreadId : Option String
  userMessageId : String
  rootNodeId : Option String
  activeAttemptId : Option String
  status : RunStatus
  requestedAt : String
  restartCancelledBackgroundWork : Option content
  delegatedCompletion : Option content
  rest : content
  deriving DecidableEq

structure RunAttempt (content : Type) where
  id : String
  runId : String
  attemptOrdinal : Int
  rootNodeId : String
  providerInstanceId : String
  providerThreadId : String
  providerTurnId : Option String
  reason : RunAttemptReason
  status : RunAttemptStatus
  rest : content
  deriving DecidableEq

structure ExecutionNode (content : Type) where
  id : String
  threadId : String
  runId : Option String
  parentNodeId : Option String
  rootNodeId : String
  kind : NodeKind
  status : NodeStatus
  countsForRun : Bool
  providerThreadId : Option String
  providerTurnId : Option String
  rest : content
  deriving DecidableEq

/-- A record of kind `provider-thread`, as far as ownership goes. -/
structure ProviderThread where
  id : String
  appThreadId : Option String
  providerInstanceId : String
  lastRunOrdinal : Option Int
  providerSessionId : Option String

structure AppThread (content : Type) where
  id : String
  updatedAt : String
  deletedAt : Option String
  rest : content

/-- What an event brings: a whole row, or something of another kind. -/
inductive EventPayload (content : Type) where
  | runUpdated (run : Run content)
  | runAttemptUpdated (attempt : RunAttempt content)
  | nodeUpdated (node : ExecutionNode content)
  | other (eventType : String) (payload : content)
  deriving DecidableEq

structure DomainEvent (content : Type) where
  id : String
  threadId : String
  runId : Option String
  occurredAt : String
  payload : EventPayload content
  deriving DecidableEq

/-- An event as it is stored. -/
structure Envelope (content : Type) where
  sequence : Nat
  streamVersion : Nat
  commandId : Option String
  event : DomainEvent content

/-- The read model of one thread. -/
structure ThreadProjection (content : Type) where
  thread : AppThread content
  runs : Table (@Run.id content)
  attempts : Table (@RunAttempt.id content)
  nodes : Table (@ExecutionNode.id content)
  providerThreads : List ProviderThread

/-- What a provider's worker knows about the run it works for. -/
structure ProviderGuard where
  runId : String
  activeAttemptId : String
  providerThreadId : String
  providerSessionId : Option String
  providerTurnId : Option String
  expectedLastRunOrdinal : Int

namespace RunStatus

/-- `run_terminal`. -/
def terminal : RunStatus → Bool
  | completed => true
  | interrupted => true
  | failed => true
  | cancelled => true
  | rolledBack => true
  | _ => false

/-- `run_transition`. -/
def transition (old next : RunStatus) : Bool :=
  old == next || (!old.terminal && next.terminal) ||
    match old, next with
    | preparing, queued => true
    | preparing, starting => true
    | queued, starting => true
    | starting, running => true
    | starting, waiting => true
    | running, waiting => true
    | waiting, running => true
    | _, _ => false

end RunStatus

namespace RunAttemptStatus

/-- `attempt_terminal`. -/
def terminal : RunAttemptStatus → Bool
  | pending => false
  | running => false
  | _ => true

end RunAttemptStatus

namespace NodeStatus

/-- `node_terminal`. -/
def terminal : NodeStatus → Bool
  | completed => true
  | interrupted => true
  | failed => true
  | cancelled => true
  | rolledBack => true
  | _ => false

/-- `node_transition`. -/
def transition (old next : NodeStatus) : Bool :=
  old == next || (!old.terminal && next.terminal) ||
    match old, next with
    | idle, pending => true
    | idle, running => true
    | idle, waiting => true
    | pending, running => true
    | pending, waiting => true
    | running, waiting => true
    | waiting, running => true
    | _, _ => false

end NodeStatus

end Zeron.Orchestration
