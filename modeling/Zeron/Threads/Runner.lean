import Zeron.Threads.Items

/-!
# The events of a running turn

The runner observes the provider of a run's active attempt, and plans what each event
changes in the thread.  Requests and their nodes are kept by one function, the status of
the run and its root by another.
-/

namespace Zeron.Threads

open Orchestration (encodeComponent RunAttemptStatus NodeStatus NodeKind)

/-- `RequestState`. -/
inductive RequestState where
  | pending
  | resolved
  | expired
  deriving DecidableEq

/-- The status that a permission's update records. -/
def RequestState.status : RequestState → RequestStatus
  | pending => .pending
  | resolved => .resolved
  | expired => .expired

/-- `AgentEvent`, while a turn goes on. -/
inductive AgentEvent where
  | inputAccepted
  | inputAcceptedFor (messageId : String)
  | nativeReference (threadId : String) (turnId : Option String)
  | sessionStarted (sessionId model cwd : String)
  | textDelta (text : String)
  | reasoningDelta (text : String)
  | generatedImage
  | toolCall
  | toolResult
  | inputRequested (requestId : String)
  | inputResolved (requestId : String)
  | permissionRequested (requestId : String)
  | permissionUpdated (requestId : String) (state : RequestState)
  | steered
  | userMessage

/-- The capabilities that a live provider has advertised. -/
structure Capabilities where
  supportsQueuedMessages : Bool

/-- The rows that an event of the active attempt is about. -/
structure Binding where
  run : Run
  attempt : Attempt
  root : Node
  provider : ProviderThread

/-- What a request becomes, once it is settled. -/
def RuntimeRequest.settled (request : RuntimeRequest) (status : RequestStatus) (now : Int) :
    RuntimeRequest :=
  { request with
    status
    resolvedAt := if status = .pending then request.resolvedAt else some now }

def Node.settled (node : Node) (status : RequestStatus) (now : Int) : Node :=
  { node with
    status := if status = .resolved then .completed else .cancelled
    completedAt := some now }

/-- `SESSION_NOT_ATTACHED`. -/
def sessionNotAttached : String :=
  "The provider session has not been attached."

/-- The node of a request. -/
def requestNode (requestId : String) : String :=
  s!"node:request:{encodeComponent requestId}"

namespace Binding

/-- A request as it is recorded first. -/
def askedRequest (binding : Binding) (id kind : String) (now : Int) : RuntimeRequest :=
  { id
    nodeId := requestNode id
    kind
    status := .pending
    responseCapability :=
      match binding.provider.providerSessionId.filter fun session => decide (session ≠ "") with
      | some session => .live session
      | none => .notResumable sessionNotAttached
    createdAt := now
    resolvedAt := none }

def askedNode (binding : Binding) (id : String) (kind : NodeKind) (now : Int) : Node :=
  { id := requestNode id
    runId := some binding.run.id
    parentNodeId := some binding.root.id
    rootNodeId := binding.root.id
    kind
    status := .waiting
    countsForRun := true
    providerThreadId := binding.run.providerThreadId
    providerTurnId := none
    runtimeRequestId := some id
    startedAt := some now
    completedAt := none }

/-- The rows of an attempt, as they are emitted together. -/
def events (binding : Binding) : List Event :=
  [.runUpdated binding.run, .attemptUpdated binding.attempt, .nodeUpdated binding.root]

/-- The provider's conversation that an acceptance is told in. -/
def nativeThread (binding : Binding) : AgentEvent → Option String
  | .nativeReference threadId _ => some threadId
  | _ => binding.attempt.nativeThreadId.or binding.provider.nativeThreadRef

/-- The rows once the input is accepted. -/
def accepted (binding : Binding) (native : Option String) (turnId : String) (now : Int) : Binding :=
  { binding with
    run :=
      if binding.run.status = .starting then
        { binding.run with status := .running, startedAt := some now }
      else binding.run
    attempt :=
      { binding.attempt with
        nativeThreadId := native.or binding.attempt.nativeThreadId
        providerTurnId := some turnId }
    root := { binding.root with providerTurnId := some turnId } }

end Binding

namespace AgentEvent

/-- `accepted_input`. -/
def acceptedInput : AgentEvent → Bool
  | inputAccepted | inputAcceptedFor _ | userMessage | generatedImage | toolCall => true
  | nativeReference _ (some turnId) => decide (turnId ≠ "")
  | textDelta text | reasoningDelta text => decide (text ≠ "")
  | _ => false

/-- `accepts_root`: a receipt for another message does not accept the run's input. -/
def acceptsRoot (run : Run) : AgentEvent → Bool
  | inputAcceptedFor messageId => run.userMessageId == messageId
  | event => event.acceptedInput

/-- Whether the event brings the receipt of a steering message. -/
def namesInput : AgentEvent → Bool
  | inputAcceptedFor _ => true
  | _ => false

/-- `incoming`, of a request that is asked: its id and kind. -/
def incoming : AgentEvent → Option (String × String × NodeKind)
  | inputRequested id => some (id, "user_input", .userInputRequest)
  | permissionRequested id => some (id, "command", .approvalRequest)
  | _ => none

/-- `resolution`: what becomes of a request. -/
def resolution : AgentEvent → Option (String × RequestStatus)
  | inputResolved id => some (id, .resolved)
  | permissionUpdated id state => some (id, state.status)
  | _ => none

end AgentEvent

/-- `assistant_message_id`. -/
def assistantMessageId (runId attemptId : String) : String :=
  if attemptId = s!"run-attempt:{encodeComponent runId}:1" then
    s!"message:assistant:{encodeComponent runId}"
  else s!"message:assistant:{encodeComponent attemptId}"

namespace ThreadProjection

variable (p : ThreadProjection) (now : Int)

/-- The request's node is one of the run. -/
def belongs (runId : String) (request : RuntimeRequest) : Bool :=
  (p.nodes.get request.nodeId).any fun node => node.runId == some runId

/-- `session_attached`. -/
def sessionAttached (runId sessionId : String) : List Event :=
  (p.requests.rows.filter fun request =>
    request.status == .pending &&
      request.responseCapability == .notResumable sessionNotAttached &&
      p.belongs runId request).map fun request =>
    .runtimeRequestUpdated { request with responseCapability := .live sessionId }

/-- `observe`, of a request that is asked. -/
def requested (binding : Binding) (id kind : String) (nodeKind : NodeKind) : List Event :=
  [ .runtimeRequestUpdated (binding.askedRequest id kind now),
    .nodeUpdated (binding.askedNode id nodeKind now) ] ++
    if nodeKind = .userInputRequest then [.turnItemUpdated (questionItem p.items binding.run id)] else []

/-- `observe`, of a request that is settled. -/
def settled (runId id : String) (status : RequestStatus) : List Event :=
  (p.requests.rows.filter fun request =>
    (request.status == .pending && p.belongs runId request) && decide (request.id = id)).flatMap
      fun request =>
    .runtimeRequestUpdated (request.settled status now) ::
      (p.nodes.rows.filter fun node => decide (node.id = request.nodeId)).map fun node =>
        .nodeUpdated (node.settled status now)

/-- `observe`. -/
def observe (binding : Binding) (event : AgentEvent) : List Event :=
  (match event.incoming with
  | some (id, kind, nodeKind) => p.requested now binding id kind nodeKind
  | none => []) ++
    match event.resolution with
    | some (id, status) => p.settled now binding.run.id id status
    | none => []

/-- `attach_session`. -/
def attachSession (binding : Binding) (native model cwd : String) (capabilities : Capabilities) :
    List Event × Binding :=
  let sessionId := s!"provider-session:{encodeComponent binding.run.id}"
  let provider :=
    { binding.provider with
      providerSessionId := some sessionId
      nativeThreadRef := some native
      status := .active
      updatedAt := now }
  let run :=
    { binding.run with
      startedAt := binding.run.startedAt.or (some now)
      status := if binding.run.status = .waiting then .waiting else .running }
  let attempt :=
    { binding.attempt with
      nativeThreadId := some native
      startedAt := binding.attempt.startedAt.or (some now)
      status := RunAttemptStatus.running }
  -- late metadata is not an answer
  let root :=
    { binding.root with
      startedAt := binding.root.startedAt.or (some now)
      status := if binding.root.status = .waiting then NodeStatus.waiting else .running }
  (.providerSessionUpdated
      { id := sessionId
        driver := binding.provider.driver
        providerInstanceId := binding.run.providerInstanceId
        status := .running
        cwd
        model := some model
        supportsQueuedMessages := capabilities.supportsQueuedMessages
        createdAt := now
        updatedAt := now } ::
    (p.sessionAttached binding.run.id sessionId ++ [.providerThreadUpdated provider]),
    { run, attempt, root, provider })

/-- The turn of an attempt. -/
def turnOf (binding : Binding) : ProviderTurn :=
  let id := s!"provider-turn:{encodeComponent binding.attempt.id}"
  (p.turns.get id).getD
    { id
      providerThreadId := binding.provider.id
      nodeId := binding.root.id
      runAttemptId := some binding.attempt.id
      nativeTurnRef := none
      ordinal := binding.run.ordinal
      status := .running
      startedAt := some now
      completedAt := none }

/-- A run that starts is attached when its input is accepted. -/
def attachAtStart (binding : Binding) (event : AgentEvent) (capabilities : Option Capabilities) :
    Option (List Event × Binding) :=
  match binding.nativeThread event with
  | some thread =>
      if binding.run.status = .starting then
        -- "Live provider capabilities missing."
        capabilities.map (p.attachSession now binding thread binding.run.modelSelection.model
          (p.thread.worktreePath.getD ""))
      else some ([], binding)
  | none => some ([], binding)

/-- The part of `plan_event` at which the input is accepted. -/
def accept (binding : Binding) (event : AgentEvent) (capabilities : Option Capabilities)
    (plan : List Event) : Option (List Event × Binding) :=
  (p.attachAtStart now binding event capabilities).map fun attached =>
    let turn := p.turnOf now binding
    let next := attached.2.accepted (binding.nativeThread event) turn.id now
    let told := attached.1 ++ [.providerTurnUpdated turn]
    let item := (p.messages.get next.run.userMessageId).map (acceptedItem p.items next.run (plan ++ told))
    (told ++ ((item.map .turnItemUpdated).toList ++ next.events), next)

/-- The part of `plan_event` after the acceptance. -/
def follow (binding : Binding) (capabilities : Option Capabilities) (plan : List Event) :
    AgentEvent → Option (List Event)
  | .nativeReference threadId turnId =>
      let turn := p.turnOf now binding
      some (.providerThreadUpdated { binding.provider with nativeThreadRef := some threadId } ::
        if binding.attempt.providerTurnId.isSome then
          [.providerTurnUpdated { turn with nativeTurnRef := turnId.or turn.nativeTurnRef }]
        else [])
  | .sessionStarted sessionId model cwd =>
      capabilities.map fun capabilities =>
        let attached := p.attachSession now binding sessionId model cwd capabilities
        attached.1 ++ attached.2.events
  | .textDelta text =>
      let id := assistantMessageId binding.run.id binding.attempt.id
      let message := (p.messages.get id).getD
        (newMessage (some binding.run.id) (some binding.root.id) id "" "assistant" now)
      let message := { message with text := message.text ++ text, streaming := true, updatedAt := now }
      some [.messageUpdated message, .turnItemUpdated (assistantItem p.items plan message)]
  | .inputRequested _ | .permissionRequested _ =>
      some (Binding.events
        { binding with
          run := { binding.run with status := .waiting }
          root := { binding.root with status := .waiting } })
  | .inputResolved _ | .permissionUpdated _ _ =>
      some (Binding.events
        { binding with
          run := { binding.run with status := .running }
          root := { binding.root with status := .running } })
  | _ => some []

/-- The input is accepted once. -/
def acceptOnce (binding : Binding) (event : AgentEvent) (capabilities : Option Capabilities)
    (plan : List Event) : Option (List Event × Binding) :=
  if event.acceptsRoot binding.run && binding.attempt.providerTurnId.isNone then
    p.accept now binding event capabilities plan
  else some ([], binding)

/-- `plan_event`, once the rows are found. -/
def planBound (binding : Binding) (event : AgentEvent) (capabilities : Option Capabilities) :
    Option (List Event) :=
  let observed := p.observe now binding event
  (p.acceptOnce now binding event capabilities observed).bind fun accepted =>
    (p.follow now accepted.2 capabilities (observed ++ accepted.1) event).map fun rest =>
      observed ++ (accepted.1 ++ rest)

/-- The run of an attempt that is its active one, with the attempt. -/
def activeAttempt (runId attemptId : String) : Option (Run × Attempt) :=
  ((p.runs.get runId).filter fun run => decide (run.activeAttemptId = some attemptId)).bind
    fun run =>
      ((p.attempts.get attemptId).filter fun attempt =>
        decide (attempt.runId = run.id ∧ run.rootNodeId = some attempt.rootNodeId ∧
          run.providerThreadId = some attempt.providerThreadId)).map (Prod.mk run)

/-- `plan_event`: no plan is an error, and a plan without events changes nothing. `confirmed`
says whether a receipt of a steering message can be recorded. -/
def planEvent (runId attemptId : String) (event : AgentEvent) (capabilities : Option Capabilities)
    (confirmed : Bool) : Option (List Event) :=
  match p.activeAttempt runId attemptId with
  | none => some []
  | some (run, attempt) =>
      if event.namesInput && !confirmed then none
      else if run.status.terminal then some []
      else
        (p.nodes.get attempt.rootNodeId).bind fun root =>
          -- "Runner provider binding missing."
          (p.providerThreads.get attempt.providerThreadId).bind fun provider =>
            if provider.lastRunOrdinal = some run.ordinal then
              p.planBound now { run, attempt, root, provider } event capabilities
            else some []

end ThreadProjection

end Zeron.Threads
