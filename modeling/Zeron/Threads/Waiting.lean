import Zeron.Threads.Background
import Zeron.Threads.Runner

/-!
# Waiting runs

A run waits while one of its requests is not answered, and so do its root and the node
of the request.  The planner keeps this as long as an answer leaves no other request of
the run open.
-/

namespace Zeron.Threads

open Data
open Orchestration (encodeComponent RunStatus NodeStatus)

theorem requestNode_injective : Function.Injective requestNode := by
  intro first second same
  apply Orchestration.encodeComponent_injective
  exact String.append_right_inj "node:request:" |>.mp same

namespace Binding

/-- The run with another status, and its root with it. -/
def become (binding : Binding) (run : RunStatus) (root : NodeStatus) : Binding :=
  { binding with
    run := { binding.run with status := run }
    root := { binding.root with status := root } }

theorem root_id_become (binding : Binding) (run : RunStatus) (root : NodeStatus) :
    (binding.become run root).root.id = binding.root.id :=
  rfl

end Binding

/-- What the runner is told at one time. -/
structure Observation where
  event : AgentEvent
  capabilities : Option Capabilities
  confirmed : Bool
  now : Int

namespace ThreadProjection

variable {p q : ThreadProjection} {runId attemptId : String}

/-- A request of the run is pending. -/
def Asks (p : ThreadProjection) (runId : String) : Prop :=
  ∃ id request, p.requests.get id = some request ∧ request.status = .pending ∧
    p.belongs runId request = true

/-- The run, its root and the nodes of its requests wait for the requests. -/
structure Waits (p : ThreadProjection) (runId : String) : Prop where
  run : ∀ run, p.runs.get runId = some run → (run.status = .waiting ↔ p.Asks runId)
  root : ∀ run root, p.runs.get runId = some run → run.rootNodeId.bind p.nodes.get = some root →
    (root.status = .waiting ↔ p.Asks runId)
  node : ∀ id request node, p.requests.get id = some request →
    p.nodes.get request.nodeId = some node → node.runId = some runId →
      (node.status = .waiting ↔ request.status = .pending)

/-- The nodes of requests are named after them, and a root is none of them. -/
structure Named (p : ThreadProjection) (runId : String) : Prop where
  requests : ∀ id request, p.requests.get id = some request → request.nodeId = requestNode id
  root : ∀ run id, p.runs.get runId = some run → run.rootNodeId ≠ some (requestNode id)

/-- The event leaves no request of the run open, if it settles one. -/
def Answers (p : ThreadProjection) (runId : String) : AgentEvent → Prop
  | .inputResolved id => ∀ other request, p.requests.get other = some request →
      request.status = .pending → p.belongs runId request = true → other = id
  | .permissionUpdated id state => ∀ other request, p.requests.get other = some request →
      request.status = .pending → p.belongs runId request = true → other = id ∧ state ≠ .pending
  | _ => True

/-- A command that is refused changes nothing. -/
def observed (p : ThreadProjection) (runId attemptId : String) (seen : Observation) :
    ThreadProjection :=
  ((p.planEvent seen.now runId attemptId seen.event seen.capabilities seen.confirmed).bind
    (p.applyAll seen.now)).getD p

def observedAll (p : ThreadProjection) (runId attemptId : String) (seen : List Observation) :
    ThreadProjection :=
  seen.foldl (fun p seen => p.observed runId attemptId seen) p

/-- The event of an attempt reaches its run. -/
def Live (p : ThreadProjection) (runId attemptId : String) : Prop :=
  ∃ run attempt root provider, p.activeAttempt runId attemptId = some (run, attempt) ∧
    run.status.terminal = false ∧ p.nodes.get attempt.rootNodeId = some root ∧
    p.providerThreads.get attempt.providerThreadId = some provider ∧
    provider.lastRunOrdinal = some run.ordinal

/-- No event that reaches the run settles a request and leaves one open. -/
def Answered (runId attemptId : String) : ThreadProjection → List Observation → Prop
  | _, [] => True
  | p, first :: rest =>
      (p.Live runId attemptId → p.Answers runId first.event) ∧
        Answered runId attemptId (p.observed runId attemptId first) rest

/-! ## Events that concern no request -/

/-- What of a run matters. -/
def runView (run : Run) : Option String × Bool :=
  (run.rootNodeId, decide (run.status = .waiting))

def nodeView (node : Node) : Option String × Bool :=
  (node.runId, decide (node.status = .waiting))

def requestView (request : RuntimeRequest) : String × RequestStatus :=
  (request.nodeId, request.status)

/-- Projections that agree in what matters. -/
structure Alike (runId : String) (p q : ThreadProjection) : Prop where
  runs : (q.runs.get runId).map runView = (p.runs.get runId).map runView
  nodes : ∀ id, (q.nodes.get id).map nodeView = (p.nodes.get id).map nodeView
  requests : ∀ id, (q.requests.get id).map requestView = (p.requests.get id).map requestView

variable {id : String}

namespace Alike

theorem refl (runId : String) (p : ThreadProjection) : Alike runId p p :=
  ⟨rfl, fun _ => rfl, fun _ => rfl⟩

theorem trans {r : ThreadProjection} (first : Alike runId p q) (second : Alike runId q r) :
    Alike runId p r :=
  ⟨second.runs.trans first.runs, fun id => (second.nodes id).trans (first.nodes id),
    fun id => (second.requests id).trans (first.requests id)⟩

section

variable (alike : Alike runId p q)
include alike

theorem symm : Alike runId q p :=
  ⟨alike.runs.symm, fun id => (alike.nodes id).symm, fun id => (alike.requests id).symm⟩

theorem run_of {run : Run} (found : q.runs.get runId = some run) :
    ∃ before, p.runs.get runId = some before ∧ before.rootNodeId = run.rootNodeId ∧
      (before.status = .waiting ↔ run.status = .waiting) := by
  have view := alike.runs.symm
  rw [found] at view
  rcases Option.map_eq_some_iff.mp view with ⟨before, before_found, same⟩
  rcases Prod.ext_iff.mp same with ⟨root, status⟩
  exact ⟨before, before_found, root, decide_eq_decide.mp status⟩

theorem node_of {node : Node} (found : q.nodes.get id = some node) :
    ∃ before, p.nodes.get id = some before ∧ before.runId = node.runId ∧
      (before.status = .waiting ↔ node.status = .waiting) := by
  have view := (alike.nodes id).symm
  rw [found] at view
  rcases Option.map_eq_some_iff.mp view with ⟨before, before_found, same⟩
  rcases Prod.ext_iff.mp same with ⟨own, status⟩
  exact ⟨before, before_found, own, decide_eq_decide.mp status⟩

theorem request_of {request : RuntimeRequest} (found : q.requests.get id = some request) :
    ∃ before, p.requests.get id = some before ∧ before.nodeId = request.nodeId ∧
      before.status = request.status := by
  have view := (alike.requests id).symm
  rw [found] at view
  rcases Option.map_eq_some_iff.mp view with ⟨before, before_found, same⟩
  rcases Prod.ext_iff.mp same with ⟨node, status⟩
  exact ⟨before, before_found, node, status⟩

theorem belongs {first second : RuntimeRequest} (same : first.nodeId = second.nodeId)
    (own : q.belongs runId second = true) :
    p.belongs runId first = true := by
  rcases (Option.any_eq_true _ _).mp own with ⟨node, found, of_run⟩
  rcases alike.node_of found with ⟨before, before_found, own_same, _⟩
  apply (Option.any_eq_true _ _).mpr
  refine ⟨before, ?_, ?_⟩
  · rw [same]
    exact before_found
  · rw [own_same]
    exact of_run

theorem asks (asks : q.Asks runId) : p.Asks runId := by
  rcases asks with ⟨id, request, found, pending, own⟩
  rcases alike.request_of found with ⟨before, before_found, node, status⟩
  exact ⟨id, before, before_found, status.trans pending, alike.belongs node own⟩

theorem waits (waits : p.Waits runId) : q.Waits runId := by
  have asks_iff : p.Asks runId ↔ q.Asks runId := ⟨alike.symm.asks, alike.asks⟩
  constructor
  · intro run found
    rcases alike.run_of found with ⟨before, before_found, _, status⟩
    rw [← status, ← asks_iff]
    exact waits.run before before_found
  · intro run root found root_found
    rcases alike.run_of found with ⟨before, before_found, same, _⟩
    rcases Option.bind_eq_some_iff.mp root_found with ⟨rootId, named, stored⟩
    rcases alike.node_of stored with ⟨root_before, root_before_found, _, status⟩
    rw [← status, ← asks_iff]
    apply waits.root before root_before before_found
    rw [same, named]
    exact root_before_found
  · intro id request node found node_found own
    rcases alike.request_of found with ⟨before, before_found, same, status⟩
    rcases alike.node_of node_found with ⟨node_before, node_before_found, own_same, waiting⟩
    rw [← waiting, ← status]
    apply waits.node id before node_before before_found
    · rw [same]
      exact node_before_found
    · rw [own_same]
      exact own

theorem named (named : p.Named runId) : q.Named runId := by
  constructor
  · intro id request found
    rcases alike.request_of found with ⟨before, before_found, same, _⟩
    rw [← same]
    exact named.requests id before before_found
  · intro run id found
    rcases alike.run_of found with ⟨before, before_found, same, _⟩
    rw [← same]
    exact named.root before id before_found

end

end Alike

/-- An event that leaves what matters. -/
def Keeps (runId : String) (p : ThreadProjection) : Event → Prop
  | .runCreated run | .runUpdated run =>
      run.id = runId → (p.runs.get runId).map runView = some (runView run)
  | .runBackgroundWorkCancelled _ _ => False
  | .nodeUpdated node => (p.nodes.get node.id).map nodeView = some (nodeView node)
  | .runtimeRequestUpdated request =>
      (p.requests.get request.id).map requestView = some (requestView request)
  | _ => True

theorem Alike.keeps (alike : Alike runId p q) {event : Event} (keeps : Keeps runId p event) :
    Keeps runId q event := by
  cases event
  case runCreated run =>
    intro same
    rw [alike.runs]
    exact keeps same
  case runUpdated run =>
    intro same
    rw [alike.runs]
    exact keeps same
  case nodeUpdated node =>
    rw [Keeps, alike.nodes]
    exact keeps
  case runtimeRequestUpdated request =>
    rw [Keeps, alike.requests]
    exact keeps
  all_goals exact keeps

theorem map_get_touch {κ ρ ν : Type} [DecidableEq κ] {key : ρ → κ} {table : Table key} {row : ρ}
    (view : ρ → ν) (kept : (table.get (key row)).map view = some (view row)) (k : κ) :
    ((table.touch row).get k).map view = (table.get k).map view := by
  rw [Table.get_touch]
  split
  · rename_i same
    rw [← same, kept]
    rfl
  · rfl

/-- An event that leaves what matters is applied. -/
theorem Keeps.apply (now : Int) {event : Event} (keeps : Keeps runId p event) :
    ∃ next, p.apply now event = some next ∧ Alike runId p next := by
  have run_kept : ∀ run : Run, (run.id = runId → (p.runs.get runId).map runView =
      some (runView run)) → Alike runId p { p.touchThread now with
        runs := p.runs.touch (run.preserving (p.runs.get run.id)) } := by
    intro run kept
    refine ⟨?_, fun _ => rfl, fun _ => rfl⟩
    by_cases same : run.id = runId
    · apply map_get_touch runView
      rw [show (run.preserving (p.runs.get run.id)).id = runId from same]
      exact kept same
    · exact congrArg _ ((Table.get_touch _ _ _).trans (if_neg same))
  cases event
  case thread thread => exact ⟨_, rfl, rfl, fun _ => rfl, fun _ => rfl⟩
  case runCreated run => exact ⟨_, rfl, run_kept run keeps⟩
  case runUpdated run => exact ⟨_, rfl, run_kept run keeps⟩
  case runBackgroundWorkCancelled runId work => exact keeps.elim
  case nodeUpdated node => exact ⟨_, rfl, rfl, map_get_touch nodeView keeps, fun _ => rfl⟩
  case runtimeRequestUpdated request =>
    exact ⟨_, rfl, rfl, fun _ => rfl, map_get_touch requestView keeps⟩
  case providerThreadUpdated provider =>
    rw [ThreadProjection.apply, bind]
    split
    · exact ⟨_, rfl, rfl, fun _ => rfl, fun _ => rfl⟩
    · exact ⟨_, rfl, rfl, fun _ => rfl, fun _ => rfl⟩
  all_goals exact ⟨_, rfl, rfl, fun _ => rfl, fun _ => rfl⟩

/-- Events that leave what matters, one after the other. -/
theorem alike_of_keeps (now : Int) {events : List Event}
    (keeps : ∀ event ∈ events, Keeps runId p event) :
    ∃ next, p.applyAll now events = some next ∧ Alike runId p next := by
  induction events generalizing p with
  | nil => exact ⟨p, rfl, Alike.refl runId p⟩
  | cons event events ih =>
      rcases (keeps event List.mem_cons_self).apply now with ⟨middle, step, alike⟩
      rcases ih fun other listed => alike.keeps (keeps other (List.mem_cons_of_mem _ listed)) with
        ⟨next, rest, later⟩
      refine ⟨next, ?_, alike.trans later⟩
      rw [applyAll, step, Option.bind_some, rest]

/-- The rows of an attempt are those of the thread. -/
structure Bound (p : ThreadProjection) (runId : String) (binding : Binding) : Prop where
  run : p.runs.get runId = some binding.run
  root : p.nodes.get binding.root.id = some binding.root
  roots : binding.run.rootNodeId = some binding.root.id

/-- Rows that agree in what matters. -/
structure SameViews (binding next : Binding) : Prop where
  runId : next.run.id = binding.run.id
  run : runView next.run = runView binding.run
  rootId : next.root.id = binding.root.id
  root : nodeView next.root = nodeView binding.root

variable {binding next : Binding} {now : Int} {capabilities : Option Capabilities}
  {event : AgentEvent} {plan events : List Event}

theorem SameViews.refl (binding : Binding) : SameViews binding binding :=
  ⟨rfl, rfl, rfl, rfl⟩

theorem SameViews.trans {last : Binding} (first : SameViews binding next)
    (second : SameViews next last) : SameViews binding last :=
  ⟨second.runId.trans first.runId, second.run.trans first.run, second.rootId.trans first.rootId,
    second.root.trans first.root⟩

theorem keeps_events (bound : p.Bound runId binding) (same : SameViews binding next) :
    ∀ event ∈ next.events, Keeps runId p event := by
  intro event listed
  rw [Binding.events, List.mem_cons, List.mem_cons, List.mem_singleton] at listed
  rcases listed with rfl | rfl | rfl
  · intro _
    rw [bound.run, Option.map_some, same.run]
  · exact trivial
  · rw [Keeps, same.rootId, bound.root, Option.map_some, same.root]

theorem keeps_attachSession (native model cwd : String) (advertised : Capabilities) :
    ∀ event ∈ (p.attachSession now binding native model cwd advertised).1,
      Keeps runId p event := by
  intro event listed
  rcases List.mem_cons.mp listed with rfl | listed
  · exact trivial
  · rcases List.mem_append.mp listed with upgraded | last
    · rcases List.mem_map.mp upgraded with ⟨request, stored, rfl⟩
      rw [Keeps]
      rw [Table.get_of_mem (List.mem_filter.mp stored).1]
      rfl
    · rw [List.mem_singleton] at last
      rw [last]
      exact trivial

theorem sameViews_attachSession (p : ThreadProjection) (now : Int) (binding : Binding)
    (native model cwd : String) (advertised : Capabilities) :
    SameViews binding (p.attachSession now binding native model cwd advertised).2 := by
  have run_waits : (if binding.run.status = .waiting then RunStatus.waiting else .running) =
      .waiting ↔ binding.run.status = .waiting := by
    split_ifs with waiting
    · exact iff_of_true rfl waiting
    · refine iff_of_false ?_ waiting
      intro same
      cases same
  have root_waits : (if binding.root.status = .waiting then NodeStatus.waiting else .running) =
      .waiting ↔ binding.root.status = .waiting := by
    split_ifs with waiting
    · exact iff_of_true rfl waiting
    · refine iff_of_false ?_ waiting
      intro same
      cases same
  exact ⟨rfl, congrArg (Prod.mk binding.run.rootNodeId) (decide_eq_decide.mpr run_waits), rfl,
    congrArg (Prod.mk binding.root.runId) (decide_eq_decide.mpr root_waits)⟩

theorem sameViews_accepted (binding : Binding) (native : Option String) (turnId : String)
    (now : Int) : SameViews binding (binding.accepted native turnId now) := by
  refine ⟨?_, ?_, rfl, rfl⟩
  · rw [Binding.accepted]
    split_ifs <;> rfl
  · rw [Binding.accepted]
    split_ifs with starting
    · rw [runView, runView, starting]
      rfl
    · rfl

/-- The acceptance of the input settles no request. -/
theorem keeps_accept (bound : p.Bound runId binding)
    (accepted : p.accept now binding event capabilities plan = some (events, next)) :
    (∀ event ∈ events, Keeps runId p event) ∧ SameViews binding next := by
  rcases Option.map_eq_some_iff.mp accepted with ⟨attached, attach_eq, made⟩
  have attach : (∀ event ∈ attached.1, Keeps runId p event) ∧ SameViews binding attached.2 := by
    rw [attachAtStart] at attach_eq
    split at attach_eq
    · split at attach_eq
      · rcases Option.map_eq_some_iff.mp attach_eq with ⟨advertised, _, rfl⟩
        exact ⟨keeps_attachSession _ _ _ _, sameViews_attachSession p now binding _ _ _ _⟩
      · cases attach_eq
        exact ⟨fun _ listed => absurd listed List.not_mem_nil, SameViews.refl binding⟩
    · cases attach_eq
      exact ⟨fun _ listed => absurd listed List.not_mem_nil, SameViews.refl binding⟩
  rcases Prod.ext_iff.mp made with ⟨rfl, rfl⟩
  have same := attach.2.trans
    (sameViews_accepted attached.2 (binding.nativeThread event) (p.turnOf now binding).id now)
  refine ⟨?_, same⟩
  intro event listed
  rcases List.mem_append.mp listed with told | rest
  · rcases List.mem_append.mp told with attaching | turn
    · exact attach.1 event attaching
    · rw [List.mem_singleton] at turn
      rw [turn]
      exact trivial
  · rcases List.mem_append.mp rest with item | rows
    · rcases Option.map_eq_some_iff.mp (Option.mem_toList.mp item) with ⟨_, _, rfl⟩
      exact trivial
    · exact keeps_events bound same event rows

/-- What follows the acceptance settles no request, unless the event is about one. -/
theorem keeps_follow {first : Binding} (bound : p.Bound runId first) (same : SameViews first binding)
    (asked : event.incoming = none) (unsettled : event.resolution = none)
    (followed : p.follow now binding capabilities plan event = some events) :
    ∀ event ∈ events, Keeps runId p event := by
  cases event
  case inputRequested id => cases asked
  case permissionRequested id => cases asked
  case inputResolved id => cases unsettled
  case permissionUpdated id state => cases unsettled
  case nativeReference threadId turnId =>
    cases followed
    intro event listed
    rcases List.mem_cons.mp listed with rfl | turn
    · exact trivial
    · split at turn
      · rw [List.mem_singleton] at turn
        rw [turn]
        exact trivial
      · cases turn
  case sessionStarted sessionId model cwd =>
    rcases Option.map_eq_some_iff.mp followed with ⟨advertised, _, rfl⟩
    intro event listed
    rcases List.mem_append.mp listed with attaching | rows
    · exact keeps_attachSession _ _ _ _ event attaching
    · have attached := sameViews_attachSession p now binding sessionId model cwd advertised
      exact keeps_events bound (same.trans attached) event rows
  case textDelta text =>
    cases followed
    intro event listed
    rw [List.mem_cons, List.mem_singleton] at listed
    rcases listed with rfl | rfl
    · exact trivial
    · exact trivial
  all_goals
    cases followed
    intro event listed
    cases listed

/-! ## Requests that are asked and settled -/

/-- The plan that asks a request. -/
theorem planBound_of_incoming {kind : String} {nodeKind : Orchestration.NodeKind}
    (asked : event.incoming = some (id, kind, nodeKind)) :
    p.planBound now binding event capabilities =
      some (p.requested now binding id kind nodeKind ++
        (binding.become .waiting .waiting).events) := by
  cases event <;> cases asked
  all_goals
    exact congrArg some (congrArg (· ++ _) (List.append_nil _))

/-- The plan that settles a request. -/
theorem planBound_of_resolution {status : RequestStatus}
    (settles : event.resolution = some (id, status)) :
    p.planBound now binding event capabilities =
      some (p.settled now binding.run.id id status ++
        (binding.become .running .running).events) := by
  cases event <;> cases settles
  all_goals
    rfl

/-- Other plans settle no request. -/
theorem keeps_planBound (bound : p.Bound runId binding) (asked : event.incoming = none)
    (unsettled : event.resolution = none)
    (planned : p.planBound now binding event capabilities = some events) :
    ∀ event ∈ events, Keeps runId p event := by
  rw [planBound, observe, asked, unsettled] at planned
  rcases Option.bind_eq_some_iff.mp planned with ⟨accepted, accept_eq, rest⟩
  rcases Option.map_eq_some_iff.mp rest with ⟨followed, follow_eq, rfl⟩
  have accepting : (∀ event ∈ accepted.1, Keeps runId p event) ∧ SameViews binding accepted.2 := by
    rw [acceptOnce] at accept_eq
    split at accept_eq
    · exact keeps_accept bound accept_eq
    · cases accept_eq
      exact ⟨fun _ listed => absurd listed List.not_mem_nil, SameViews.refl binding⟩
  intro event listed
  rcases List.mem_append.mp listed with nothing | listed
  · cases nothing
  · rcases List.mem_append.mp listed with before | after
    · exact accepting.1 event before
    · exact keeps_follow bound accepting.2 asked unsettled follow_eq event after

theorem applyAll_requested (p : ThreadProjection) (now : Int) (binding : Binding) (id kind : String)
    (nodeKind : Orchestration.NodeKind) (rows : Binding) :
    ∃ after, p.applyAll now (p.requested now binding id kind nodeKind ++ rows.events) = some after ∧
      after.runs = p.runs.touch (rows.run.preserving (p.runs.get rows.run.id)) ∧
      after.nodes = (p.nodes.touch (binding.askedNode id nodeKind now)).touch rows.root ∧
      after.requests = p.requests.touch (binding.askedRequest id kind now) ∧
      after.attempts = p.attempts.touch rows.attempt ∧
      after.providerThreads = p.providerThreads := by
  rw [requested]
  split
  · exact ⟨_, rfl, rfl, rfl, rfl, rfl, rfl⟩
  · exact ⟨_, rfl, rfl, rfl, rfl, rfl, rfl⟩

/-- A request that is asked makes the run wait. -/
theorem waits_requested (now : Int) (id kind : String) (nodeKind : Orchestration.NodeKind)
    (bound : p.Bound runId binding) (named : p.Named runId) (waits : p.Waits runId) :
    ∃ after, p.applyAll now (p.requested now binding id kind nodeKind ++
        (binding.become .waiting .waiting).events) = some after ∧
      after.Waits runId ∧ after.Named runId := by
  rcases p.applyAll_requested now binding id kind nodeKind (binding.become .waiting .waiting) with
    ⟨after, applied, runs, nodes, requests, _⟩
  refine ⟨after, applied, ?_⟩
  have run_id : binding.run.id = runId := Table.key_of_get bound.run
  have apart : ∀ other, binding.root.id ≠ requestNode other := by
    intro other same
    apply named.root binding.run other bound.run
    rw [bound.roots, same]
  have run_now : ∀ run, after.runs.get runId = some run →
      run.status = .waiting ∧ run.rootNodeId = some binding.root.id := by
    intro run found
    rw [runs, Table.get_touch, if_pos] at found
    · cases found
      exact ⟨rfl, bound.roots⟩
    · exact run_id
  have node_now : ∀ other, after.nodes.get (requestNode other) =
      if id = other then some (binding.askedNode id nodeKind now)
      else p.nodes.get (requestNode other) := by
    intro other
    rw [nodes, Table.get_touch, Binding.root_id_become, if_neg (apart other), Table.get_touch]
    exact if_congr (requestNode_injective.eq_iff) rfl rfl
  have request_now : ∀ other, after.requests.get other =
      if id = other then some (binding.askedRequest id kind now) else p.requests.get other := by
    intro other
    rw [requests, Table.get_touch]
    rfl
  have asks : after.Asks runId := by
    refine ⟨id, binding.askedRequest id kind now, ?_, rfl, ?_⟩
    · rw [request_now, if_pos rfl]
    · rw [belongs]
      rw [show (binding.askedRequest id kind now).nodeId = requestNode id from rfl, node_now,
        if_pos rfl, ← run_id]
      exact beq_self_eq_true _
  constructor
  · constructor
    · intro run found
      exact iff_of_true (run_now run found).1 asks
    · intro run root found root_found
      rw [(run_now run found).2, Option.bind_some, nodes, Table.get_touch, Binding.root_id_become,
        if_pos rfl] at root_found
      cases root_found
      exact iff_of_true rfl asks
    · intro other request node found node_found own
      rw [request_now] at found
      split_ifs at found with same
      · cases found
        rw [show (binding.askedRequest id kind now).nodeId = requestNode id from rfl, node_now,
          if_pos rfl] at node_found
        cases node_found
        exact iff_of_true rfl rfl
      · have node_id := named.requests other request found
        rw [node_id, node_now, if_neg same, ← node_id] at node_found
        exact waits.node other request node found node_found own
  · constructor
    · intro other request found
      rw [request_now] at found
      split_ifs at found with same
      · cases found
        rw [← same]
        rfl
      · exact named.requests other request found
    · intro run other found
      rw [(run_now run found).2]
      intro same
      exact apart other (Option.some.inj same)

/-- At most one request is settled, and its node with it. -/
theorem settled_cases (p : ThreadProjection) (now : Int) (runId id : String)
    (status : RequestStatus) :
    (p.settled now runId id status = [] ∧
        ∀ request, p.requests.get id = some request → request.status = .pending →
          p.belongs runId request ≠ true) ∨
      ∃ request node, p.requests.get id = some request ∧ request.status = .pending ∧
        p.belongs runId request = true ∧ p.nodes.get request.nodeId = some node ∧
        p.settled now runId id status =
          [ .runtimeRequestUpdated (request.settled status now),
            .nodeUpdated (node.settled status now) ] := by
  rw [settled, Table.filter_key_eq]
  cases found : p.requests.get id with
  | none => exact .inl ⟨rfl, fun _ absent => by cases absent⟩
  | some request =>
      by_cases open_own : (request.status == .pending && p.belongs runId request) = true
      · rw [Option.filter_some, if_pos open_own]
        rw [Bool.and_eq_true, beq_iff_eq] at open_own
        rcases (Option.any_eq_true _ _).mp open_own.2 with ⟨node, node_found, _⟩
        refine .inr ⟨request, node, rfl, open_own.1, open_own.2, node_found, ?_⟩
        have nodes := p.nodes.filter_key_eq (fun _ => true) request.nodeId
        rw [node_found] at nodes
        rw [Option.toList_some, List.flatMap_singleton]
        rw [show (p.nodes.rows.filter fun node => decide (node.id = request.nodeId)) = [node] from
          nodes]
        rfl
      · rw [Option.filter_some, if_neg open_own]
        refine .inl ⟨rfl, ?_⟩
        rintro other same pending own
        cases same
        apply open_own
        rw [pending, own]
        rfl

/-- What the plan that settles a request leaves. -/
structure Settled (p : ThreadProjection) (runId id : String) (status : RequestStatus) (now : Int)
    (binding : Binding) (after : ThreadProjection) : Prop where
  run : ∀ run, after.runs.get runId = some run →
    run.status = .running ∧ run.rootNodeId = some binding.root.id
  root : ∀ root, after.nodes.get binding.root.id = some root → root.status = .running
  others : ∀ other, other ≠ id → after.requests.get other = p.requests.get other ∧
    after.nodes.get (requestNode other) = p.nodes.get (requestNode other)
  own : (after.requests.get id = p.requests.get id ∧
      after.nodes.get (requestNode id) = p.nodes.get (requestNode id) ∧
      ∀ request, p.requests.get id = some request → request.status = .pending →
        p.belongs runId request ≠ true) ∨
    ∃ request node, p.requests.get id = some request ∧ request.status = .pending ∧
      p.belongs runId request = true ∧ p.nodes.get (requestNode id) = some node ∧
      after.requests.get id = some (request.settled status now) ∧
      after.nodes.get (requestNode id) = some (node.settled status now)

theorem applyAll_events (p : ThreadProjection) (now : Int) (rows : Binding) :
    ∃ after, p.applyAll now rows.events = some after ∧
      after.runs = p.runs.touch (rows.run.preserving (p.runs.get rows.run.id)) ∧
      after.nodes = p.nodes.touch rows.root ∧ after.requests = p.requests :=
  ⟨_, rfl, rfl, rfl, rfl⟩

theorem applyAll_settling (p : ThreadProjection) (now : Int) (request : RuntimeRequest)
    (node : Node) (rows : Binding) :
    ∃ after, p.applyAll now ([.runtimeRequestUpdated request, .nodeUpdated node] ++ rows.events) =
        some after ∧
      after.runs = p.runs.touch (rows.run.preserving (p.runs.get rows.run.id)) ∧
      after.nodes = (p.nodes.touch node).touch rows.root ∧
      after.requests = p.requests.touch request :=
  ⟨_, rfl, rfl, rfl, rfl⟩

theorem exists_settled (now : Int) (id : String) (status : RequestStatus)
    (bound : p.Bound runId binding) (named : p.Named runId) :
    ∃ after, p.applyAll now (p.settled now binding.run.id id status ++
        (binding.become .running .running).events) = some after ∧
      (after.runs.get runId).isSome = true ∧ p.Settled runId id status now binding after := by
  have run_id : binding.run.id = runId := Table.key_of_get bound.run
  have apart : ∀ other, binding.root.id ≠ requestNode other := by
    intro other same
    apply named.root binding.run other bound.run
    rw [bound.roots, same]
  have stored : ∀ (table : Table Run.id) (current : Option Run),
      ((table.touch ((binding.become .running .running).run.preserving current)).get runId).isSome =
        true := by
    intro table current
    rw [Table.get_touch, if_pos]
    · rfl
    · exact run_id
  have run_now : ∀ {table : Table Run.id} (current : Option Run) (run : Run),
      (table.touch ((binding.become .running .running).run.preserving current)).get runId =
        some run → run.status = .running ∧ run.rootNodeId = some binding.root.id := by
    intro table current run found
    rw [Table.get_touch, if_pos] at found
    · cases found
      exact ⟨rfl, bound.roots⟩
    · exact run_id
  have root_now : ∀ {table : Table Node.id} (root : Node),
      (table.touch (binding.become .running .running).root).get binding.root.id = some root →
        root.status = .running := by
    intro table root found
    rw [Table.get_touch, Binding.root_id_become, if_pos rfl] at found
    cases found
    rfl
  have node_now : ∀ {table : Table Node.id} (other : String),
      (table.touch (binding.become .running .running).root).get (requestNode other) =
        table.get (requestNode other) := by
    intro table other
    rw [Table.get_touch, Binding.root_id_become, if_neg (apart other)]
  rcases p.settled_cases now binding.run.id id status with
    ⟨nothing, unasked⟩ | ⟨request, node, found, pending, own, node_found, settles⟩
  · rcases p.applyAll_events now (binding.become .running .running) with
      ⟨after, applied, runs, nodes, requests⟩
    rw [nothing]
    refine ⟨after, applied, by rw [runs]; exact stored _ _, ?_⟩
    constructor
    · rw [runs]
      exact run_now _
    · rw [nodes]
      exact root_now
    · intro other _
      exact ⟨congrArg (·.get other) requests, by rw [nodes, node_now]⟩
    · left
      rw [← run_id]
      exact ⟨congrArg (·.get id) requests, by rw [nodes, node_now], unasked⟩
  · rcases p.applyAll_settling now (request.settled status now) (node.settled status now)
      (binding.become .running .running) with ⟨after, applied, runs, nodes, requests⟩
    rw [settles]
    refine ⟨after, applied, by rw [runs]; exact stored _ _, ?_⟩
    rw [named.requests id request found] at node_found
    have request_id : (request.settled status now).id = id :=
      show request.id = id from Table.key_of_get found
    have node_id : (node.settled status now).id = requestNode id :=
      show node.id = requestNode id from Table.key_of_get node_found
    constructor
    · rw [runs]
      exact run_now _
    · rw [nodes]
      exact root_now
    · intro other different
      constructor
      · rw [requests, Table.get_touch, request_id, if_neg different.symm]
      · rw [nodes, node_now, Table.get_touch, node_id, if_neg]
        exact fun same => different (requestNode_injective same).symm
    · right
      rw [run_id] at own
      refine ⟨request, node, found, pending, own, node_found, ?_, ?_⟩
      · rw [requests, Table.get_touch, if_pos request_id]
      · rw [nodes, node_now, Table.get_touch, if_pos node_id]

namespace Settled

variable {id : String} {status : RequestStatus} {after : ThreadProjection}

/-- The requests of the run that stay open. -/
theorem asks_iff (settled : p.Settled runId id status now binding after)
    (named : p.Named runId) :
    after.Asks runId ↔ ∃ other request, p.requests.get other = some request ∧
      request.status = .pending ∧ p.belongs runId request = true ∧
        (other = id → status = .pending) := by
  have own_iff : ∀ (other : String) (first second : RuntimeRequest),
      first.nodeId = requestNode other → second.nodeId = requestNode other →
      after.nodes.get (requestNode other) = p.nodes.get (requestNode other) →
        after.belongs runId first = p.belongs runId second := by
    intro other first second first_node second_node same
    rw [belongs, belongs, first_node, second_node, same]
  constructor
  · rintro ⟨other, request, found, pending, own⟩
    by_cases same : other = id
    · subst same
      rcases settled.own with ⟨requests, nodes, unasked⟩ | ⟨before, node, before_found, was_pending,
        was_own, _, found_now, _⟩
      · rw [requests] at found
        have node_id := named.requests other request found
        rw [own_iff other request request node_id node_id nodes] at own
        exact absurd own (unasked request found pending)
      · rw [found_now] at found
        cases found
        exact ⟨other, before, before_found, was_pending, was_own, fun _ => pending⟩
    · rcases settled.others other same with ⟨requests, nodes⟩
      rw [requests] at found
      have node_id := named.requests other request found
      rw [own_iff other request request node_id node_id nodes] at own
      exact ⟨other, request, found, pending, own, fun same' => absurd same' same⟩
  · rintro ⟨other, request, found, pending, own, still⟩
    have node_id := named.requests other request found
    by_cases same : other = id
    · subst same
      rcases settled.own with ⟨_, _, unasked⟩ | ⟨before, node, before_found, _, _, node_before,
        found_now, node_found⟩
      · exact absurd own (unasked request found pending)
      · rw [found] at before_found
        cases before_found
        refine ⟨other, _, found_now, still rfl, ?_⟩
        rw [belongs, show (request.settled status now).nodeId = requestNode other from node_id,
          node_found]
        rw [belongs, node_id, node_before] at own
        exact own
    · rcases settled.others other same with ⟨requests, nodes⟩
      refine ⟨other, request, requests.trans found, pending, ?_⟩
      rw [own_iff other request request node_id node_id nodes]
      exact own

/-- The run stops waiting, so nothing may be open. -/
theorem waits_iff (settled : p.Settled runId id status now binding after) (named : p.Named runId)
    (waits : p.Waits runId) (stored : (after.runs.get runId).isSome = true) :
    after.Waits runId ↔ ¬after.Asks runId := by
  constructor
  · intro kept asks
    rcases Option.isSome_iff_exists.mp stored with ⟨run, found⟩
    have waiting := (kept.run run found).mpr asks
    rw [(settled.run run found).1] at waiting
    cases waiting
  · intro answered
    constructor
    · intro run found
      refine iff_of_false ?_ answered
      rw [(settled.run run found).1]
      intro same
      cases same
    · intro run root found root_found
      refine iff_of_false ?_ answered
      rw [(settled.run run found).2] at root_found
      rw [settled.root root root_found]
      intro same
      cases same
    · intro other request node found node_found own
      by_cases same : other = id
      · subst same
        rcases settled.own with ⟨requests, nodes, _⟩ | ⟨before, node_before, before_found, _, _,
          node_before_found, found_now, node_now⟩
        · rw [requests] at found
          have node_id := named.requests other request found
          rw [node_id, nodes, ← node_id] at node_found
          exact waits.node other request node found node_found own
        · rw [found_now] at found
          cases found
          have node_id := named.requests other before before_found
          rw [show (before.settled status now).nodeId = requestNode other from node_id, node_now]
            at node_found
          cases node_found
          refine iff_of_false ?_ ?_
          · rw [Node.settled]
            split_ifs <;> intro same <;> cases same
          · intro pending
            apply answered
            refine ⟨other, _, found_now, pending, ?_⟩
            rw [belongs, show (before.settled status now).nodeId = requestNode other from node_id,
              node_now, Option.any_some, own]
            exact beq_self_eq_true _
      · rcases settled.others other same with ⟨requests, nodes⟩
        rw [requests] at found
        have node_id := named.requests other request found
        rw [node_id, nodes, ← node_id] at node_found
        exact waits.node other request node found node_found own

theorem named (settled : p.Settled runId id status now binding after) (named : p.Named runId)
    (bound : p.Bound runId binding) : after.Named runId := by
  constructor
  · intro other request found
    by_cases same : other = id
    · subst same
      rcases settled.own with ⟨requests, _, _⟩ | ⟨before, _, before_found, _, _, _, found_now, _⟩
      · rw [requests] at found
        exact named.requests other request found
      · rw [found_now] at found
        cases found
        exact named.requests other before before_found
    · rw [(settled.others other same).1] at found
      exact named.requests other request found
  · intro run other found
    rw [(settled.run run found).2, ← bound.roots]
    exact named.root binding.run other bound.run

end Settled

/-! ## Runs of the runner -/

theorem answers_iff {status : RequestStatus} (settles : event.resolution = some (id, status)) :
    p.Answers runId event ↔ ∀ other request, p.requests.get other = some request →
      request.status = .pending → p.belongs runId request = true →
        other = id ∧ status ≠ .pending := by
  cases event <;> cases settles
  case inputResolved =>
    constructor
    · intro answers other request found pending own
      refine ⟨answers other request found pending own, ?_⟩
      intro same
      cases same
    · intro answers other request found pending own
      exact (answers other request found pending own).1
  case permissionUpdated state =>
    have status_iff : state.status ≠ .pending ↔ state ≠ .pending := by
      cases state <;> decide
    rw [status_iff]
    exact Iff.rfl

/-- The rows that an event reaches. -/
theorem Live.bound (live : p.Live runId attemptId) :
    ∃ binding, p.Bound runId binding ∧ ∀ seen : Observation,
      (seen.event.namesInput && !seen.confirmed) = false →
        p.planEvent seen.now runId attemptId seen.event seen.capabilities seen.confirmed =
          p.planBound seen.now binding seen.event seen.capabilities := by
  rcases live with ⟨run, attempt, root, provider, active, unsettled, root_found, provider_found, last⟩
  refine ⟨{ run, attempt, root, provider }, ?_, ?_⟩
  · rcases Option.bind_eq_some_iff.mp active with ⟨other, run_found, rest⟩
    rcases Option.map_eq_some_iff.mp rest with ⟨own, attempt_found, same⟩
    rcases Prod.ext_iff.mp same with ⟨rfl, rfl⟩
    rw [Option.filter_eq_some_iff, decide_eq_true_eq] at run_found attempt_found
    have root_id : root.id = own.rootNodeId := Table.key_of_get root_found
    refine ⟨run_found.1, ?_, ?_⟩
    · rw [root_id]
      exact root_found
    · rw [root_id]
      exact attempt_found.2.2.1
  · intro seen told
    rw [planEvent, active]
    simp only [told, unsettled, root_found, provider_found, Option.bind_some, if_pos last]
    rfl

/-- An event that reaches no run changes nothing. -/
theorem observed_of_not_live (seen : Observation) (ignored : ¬p.Live runId attemptId) :
    p.observed runId attemptId seen = p := by
  rw [observed, planEvent]
  cases active : p.activeAttempt runId attemptId with
  | none => rfl
  | some rows =>
      rcases rows with ⟨run, attempt⟩
      dsimp only
      split_ifs with refused settled
      · rfl
      · rfl
      · rw [Bool.not_eq_true] at settled
        cases root_found : p.nodes.get attempt.rootNodeId with
        | none => rfl
        | some root =>
            rw [Option.bind_some]
            cases provider_found : p.providerThreads.get attempt.providerThreadId with
            | none => rfl
            | some provider =>
                rw [Option.bind_some, if_neg]
                · rfl
                · intro last
                  exact ignored ⟨run, attempt, root, provider, active, settled, root_found,
                    provider_found, last⟩

/-- A receipt that cannot be recorded refuses the event. -/
theorem observed_of_refused (seen : Observation)
    (refused : (seen.event.namesInput && !seen.confirmed) = true) :
    p.observed runId attemptId seen = p := by
  rw [observed, planEvent, refused]
  cases p.activeAttempt runId attemptId <;> rfl

/-- An event that reaches the run keeps the property exactly if it leaves nothing open. -/
theorem waits_observed_iff (attemptId : String) (named : p.Named runId) (waits : p.Waits runId)
    (seen : Observation) :
    (p.observed runId attemptId seen).Named runId ∧
      ((p.observed runId attemptId seen).Waits runId ↔
        (p.Live runId attemptId → p.Answers runId seen.event)) := by
  by_cases live : p.Live runId attemptId
  · cases refused : seen.event.namesInput && !seen.confirmed with
    | true =>
        rw [observed_of_refused seen refused]
        refine ⟨named, iff_of_true waits fun _ => ?_⟩
        cases event : seen.event
        all_goals rw [event] at refused
        case inputAcceptedFor => exact trivial
        all_goals cases refused
    | false =>
        rcases live.bound with ⟨binding, bound, planned⟩
        rw [observed, planned seen refused]
        rcases settles : seen.event.resolution with _ | ⟨id, status⟩
        · have answers : p.Answers runId seen.event := by
            cases event : seen.event
            all_goals rw [event] at settles
            case inputResolved => cases settles
            case permissionUpdated => cases settles
            all_goals exact trivial
          rcases asked : seen.event.incoming with _ | ⟨id, kind, nodeKind⟩
          · rcases plan_eq : p.planBound seen.now binding seen.event seen.capabilities with _ | events
            · exact ⟨named, iff_of_true waits fun _ => answers⟩
            · rcases alike_of_keeps seen.now (keeps_planBound bound asked settles plan_eq) with
                ⟨after, applied, alike⟩
              rw [Option.bind_some, applied]
              exact ⟨alike.named named, iff_of_true (alike.waits waits) fun _ => answers⟩
          · rcases waits_requested seen.now id kind nodeKind bound named waits with
              ⟨after, applied, waits_now, named_now⟩
            rw [planBound_of_incoming asked, Option.bind_some, applied]
            exact ⟨named_now, iff_of_true waits_now fun _ => answers⟩
        · rcases exists_settled seen.now id status bound named with ⟨after, applied, stored, settled⟩
          rw [planBound_of_resolution settles, Option.bind_some, applied, Option.getD_some,
            settled.waits_iff named waits stored, settled.asks_iff named, answers_iff settles]
          refine ⟨settled.named named bound, ?_⟩
          constructor
          · intro unasked _ other request found pending own
            by_contra other_open
            apply unasked
            refine ⟨other, request, found, pending, own, fun same => ?_⟩
            by_contra ended
            exact other_open ⟨same, ended⟩
          · rintro answers ⟨other, request, found, pending, own, still⟩
            rcases answers live other request found pending own with ⟨same, ended⟩
            exact ended (still same)
  · rw [observed_of_not_live seen live]
    exact ⟨named, iff_of_true waits fun reached => absurd reached live⟩

/-- The run, its root and its requests' nodes are right after every event exactly if no
event settles a request of the run and leaves one open. -/
theorem waits_iff_answered (named : p.Named runId) (waits : p.Waits runId)
    (seen : List Observation) :
    (∀ count, (p.observedAll runId attemptId (seen.take count)).Waits runId) ↔
      Answered runId attemptId p seen := by
  induction seen generalizing p with
  | nil =>
      refine iff_of_true (fun count => ?_) trivial
      rw [List.take_nil]
      exact waits
  | cons first rest ih =>
      rcases waits_observed_iff attemptId named waits first with
        ⟨named_now, waits_now⟩
      constructor
      · intro all
        have first_waits := all 1
        refine ⟨waits_now.mp first_waits, (ih named_now first_waits).mp fun count => ?_⟩
        exact all (count + 1)
      · rintro ⟨answers, answered⟩ count
        have first_waits := waits_now.mpr answers
        cases count with
        | zero => exact waits
        | succ count => exact (ih named_now first_waits).mpr answered count

/-- A turn that is under way. -/
def underWay : ThreadProjection :=
  { afterTurn with
    runs := Table.empty.touch { ended with status := .running, completedAt := none }
    attempts := Table.empty.touch
      { id := "attempt:1"
        nativeThreadId := some "native"
        runId := "run:1"
        attemptOrdinal := 1
        rootNodeId := "node:1"
        providerInstanceId := "claude"
        providerThreadId := "provider:1"
        providerTurnId := some "provider-turn:1"
        reason := .initial
        status := .running
        startedAt := some 1
        completedAt := none }
    nodes := Table.empty.touch
      { id := "node:1"
        runId := some "run:1"
        parentNodeId := none
        rootNodeId := "node:1"
        kind := .rootTurn
        status := .running
        countsForRun := true
        providerThreadId := some "provider:1"
        providerTurnId := some "provider-turn:1"
        runtimeRequestId := none
        startedAt := some 1
        completedAt := none } }

/-- The provider says something about a permission. -/
def told (event : AgentEvent) : Observation :=
  { event, capabilities := none, confirmed := true, now := 3 }

theorem mem_rows_underWay {run : Run} (found : underWay.runs.get "run:1" = some run) :
    run.status = .running ∧ run.rootNodeId = some "node:1" := by
  have stored := Table.mem_of_get found
  rw [show underWay.runs.rows = [{ ended with status := .running, completedAt := none }] from rfl,
    List.mem_singleton] at stored
  rw [stored]
  exact ⟨rfl, rfl⟩

theorem named_underWay : underWay.Named "run:1" := by
  constructor
  · intro id request found
    cases found
  · intro run id found same
    rw [(mem_rows_underWay found).2] at same
    have apart : "node:1" ++ "" ≠ "node:request:" ++ encodeComponent id :=
      Orchestration.append_ne_append 6 (by decide) (by decide) (by decide) _ _
    exact apart (Option.some.inj same)

theorem waits_underWay : underWay.Waits "run:1" := by
  have unasked : ¬underWay.Asks "run:1" := by
    rintro ⟨id, request, found, _⟩
    cases found
  constructor
  · intro run found
    refine iff_of_false ?_ unasked
    rw [(mem_rows_underWay found).1]
    intro same
    cases same
  · intro run root found root_found
    refine iff_of_false ?_ unasked
    rw [(mem_rows_underWay found).2] at root_found
    cases root_found
    intro same
    cases same
  · intro id request node found
    cases found

theorem live_underWay : underWay.Live "run:1" "attempt:1" :=
  ⟨_, _, _, _, rfl, rfl, rfl, rfl, rfl⟩

/-- A live attempt that asks goes on, with its request open. -/
theorem live_observed_requested (seen : Observation) (named : p.Named runId)
    (live : p.Live runId attemptId) {kind : String} {nodeKind : Orchestration.NodeKind}
    (asked : seen.event.incoming = some (id, kind, nodeKind)) :
    (p.observed runId attemptId seen).Live runId attemptId ∧
      (∃ request, (p.observed runId attemptId seen).requests.get id = some request ∧
        request.status = .pending ∧
          (p.observed runId attemptId seen).belongs runId request = true) ∧
      ∀ other, other ≠ id →
        (p.observed runId attemptId seen).requests.get other = p.requests.get other := by
  have told : (seen.event.namesInput && !seen.confirmed) = false := by
    cases event : seen.event
    case inputAcceptedFor =>
      rw [event] at asked
      cases asked
    all_goals rfl
  rcases live with ⟨run, attempt, root, provider, active, unsettled, root_found, provider_found, last⟩
  rcases Option.bind_eq_some_iff.mp active with ⟨other, run_found, rest⟩
  rcases Option.map_eq_some_iff.mp rest with ⟨own, attempt_found, same⟩
  rcases Prod.ext_iff.mp same with ⟨rfl, rfl⟩
  rw [Option.filter_eq_some_iff, decide_eq_true_eq] at run_found attempt_found
  have run_id : other.id = runId := Table.key_of_get run_found.1
  have attempt_id : own.id = attemptId := Table.key_of_get attempt_found.1
  have root_id : root.id = own.rootNodeId := Table.key_of_get root_found
  let binding : Binding := { run := other, attempt := own, root, provider }
  rcases p.applyAll_requested seen.now binding id kind nodeKind (binding.become .waiting .waiting) with
    ⟨after, applied, runs, nodes, requests, attempts, providers⟩
  have planned : p.observed runId attemptId seen = after := by
    rw [observed, planEvent, active]
    simp only [told, unsettled, root_found, provider_found, Option.bind_some, if_pos last]
    rw [if_neg Bool.false_ne_true, if_neg Bool.false_ne_true, planBound_of_incoming asked,
      Option.bind_some, applied]
    rfl
  have apart : root.id ≠ requestNode id := by
    intro same
    apply named.root other id run_found.1
    rw [attempt_found.2.2.1, ← root_id, same]
  rw [planned]
  refine ⟨?_, ?_, ?_⟩
  · let rows := binding.become .waiting .waiting
    have run_now : after.runs.get runId = some (rows.run.preserving (p.runs.get rows.run.id)) := by
      rw [runs]
      exact (Table.get_touch _ _ _).trans (if_pos run_id)
    have attempt_now : after.attempts.get attemptId = some own := by
      rw [attempts]
      exact (Table.get_touch _ _ _).trans (if_pos attempt_id)
    refine ⟨rows.run.preserving (p.runs.get rows.run.id), own, rows.root, provider, ?_, rfl, ?_, ?_,
      last⟩
    · rw [activeAttempt, run_now]
      refine (congrArg₂ _ (if_pos (decide_eq_true run_found.2)) rfl).trans ?_
      rw [Option.bind_some, attempt_now]
      exact congrArg _ (if_pos (decide_eq_true attempt_found.2))
    · rw [nodes, ← root_id]
      exact (Table.get_touch _ _ _).trans (if_pos rfl)
    · rw [providers]
      exact provider_found
  · refine ⟨binding.askedRequest id kind seen.now, ?_, rfl, ?_⟩
    · rw [requests]
      exact (Table.get_touch _ _ _).trans (if_pos rfl)
    · rw [belongs, nodes]
      rw [show (binding.askedRequest id kind seen.now).nodeId = requestNode id from rfl,
        Table.get_touch, Binding.root_id_become, if_neg (show ¬binding.root.id = _ from apart),
        Table.get_touch]
      refine (congrArg _ (if_pos rfl)).trans ?_
      rw [← run_id]
      exact beq_self_eq_true _
  · intro other different
    rw [requests]
    exact (Table.get_touch _ _ _).trans (if_neg different.symm)

/-- A single permission is asked and answered. -/
theorem waits_for_one_answer :
    (underWay.observedAll "run:1" "attempt:1"
      [told (.permissionRequested "a"), told (.permissionUpdated "a" .resolved)]).Waits "run:1" := by
  have answered : Answered "run:1" "attempt:1" underWay
      [told (.permissionRequested "a"), told (.permissionUpdated "a" .resolved)] := by
    refine ⟨fun _ => trivial, fun _ => ?_, trivial⟩
    intro other request found _ _
    refine ⟨?_, by decide⟩
    by_contra different
    have others := (live_observed_requested (told (.permissionRequested "a")) named_underWay
      live_underWay rfl).2.2
    rw [others other different] at found
    cases found
  have every := (waits_iff_answered named_underWay waits_underWay _).mpr answered
  exact every 2

/-- One permission is answered while another is pending. -/
theorem answer_leaves_request_open :
    underWay.Named "run:1" ∧ underWay.Waits "run:1" ∧
      ¬(underWay.observedAll "run:1" "attempt:1"
        [told (.permissionRequested "a"), told (.permissionRequested "b"),
          told (.permissionUpdated "a" .resolved)]).Waits "run:1" := by
  refine ⟨named_underWay, waits_underWay, ?_⟩
  intro waits
  rcases waits_observed_iff "attempt:1" named_underWay waits_underWay
    (told (.permissionRequested "a")) with ⟨named_first, waits_first⟩
  have live_first := (live_observed_requested (told (.permissionRequested "a")) named_underWay
    live_underWay rfl).1
  rcases waits_observed_iff "attempt:1" named_first (waits_first.mpr fun _ => trivial)
    (told (.permissionRequested "b")) with ⟨named_second, waits_second⟩
  rcases live_observed_requested (told (.permissionRequested "b")) named_first live_first rfl with
    ⟨live_second, ⟨request, found, pending, own⟩, _⟩
  have answers := (waits_observed_iff "attempt:1" named_second (waits_second.mpr fun _ => trivial)
    (told (.permissionUpdated "a" .resolved))).2.mp waits live_second
  exact absurd (answers "b" request found pending own).1 (by decide)

end ThreadProjection

end Zeron.Threads
