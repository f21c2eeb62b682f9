import Zeron.Orchestration.Appended
import Zeron.Orchestration.History
import Zeron.Orchestration.PublicationOrder

/-!
# The startup check

Whatever the host does, its read model stays the history of its log.  So a rebuild leaves it as
it is, and the startup check passes as long as no event made a record of a kind that the check
does not know.
-/

namespace Zeron.Orchestration

open Zeron.Data Zeron.Wire

variable {content other operation : Type} {contracts : Contracts content}
  {kernel : Kernel content Projections other operation}

/-- The events are of their types, and those about a thread are filed under it: it is created
here, or it is one of the known ones. -/
def Filed (contracts : Contracts content) : List String → List (DomainEvent content) → Prop
  | _, [] => True
  | known, event :: events =>
      event.Typed contracts ∧
        (ofThread event.payload.eventType = true →
          (contracts.value event.payload).text "id" = some event.threadId ∧
            (event.payload.eventType = "thread.created" ∨ event.threadId ∈ known)) ∧
          Filed contracts
            (if event.payload.eventType = "thread.created" then event.threadId :: known else known)
            events

/-- Every planner reads the thread that it changes, or refuses; what it emits is decoded by the
contracts first. -/
def Kernel.FilesThreads (kernel : Kernel content Projections other operation)
    (contracts : Contracts content) : Prop :=
  ∀ tables events, kernel.Plans tables events →
    Filed contracts tables.projections.threadIds events

/-- The check of the tables against their log. -/
def Tables.verified (tables : Tables content Projections other) (contracts : Contracts content) :
    Bool :=
  tables.projections.verify contracts tables.events.rows

/-- How `Kernel::recover` begins: what it leaves, and whether it has rebuilt. -/
def Tables.startup (tables : Tables content Projections other)
    (kernel : Kernel content Projections other operation) (contracts : Contracts content)
    (fault : Fault WriteBoundary) : Tables content Projections other × Bool :=
  if tables.verified contracts then (tables, false)
  else (tables.after (rebuildProjections kernel) fault, true)

/-- The event makes a record that the startup check does not know. -/
def Envelope.ofCheckpoint (stored : Envelope content) : Prop :=
  stored.event.payload.eventType = "checkpoint.captured" ∨
    stored.event.payload.eventType = "checkpoint-scope.created"

/-! ## Runs -/

/-- What a provider may bring is filed in the tables of its run, and decoded there. -/
theorem shapeOf_of_ofProvider {payload : EventPayload content} (provided : payload.ofProvider = true)
    (contracts : Contracts content) :
    ∃ table, shapeOf payload.eventType = some (.filed (.entity table)) ∧
      ofThread payload.eventType = false ∧
        contracts.decodes (.filed (.entity table)) (contracts.value payload) = true := by
  cases payload with
  | runUpdated run =>
      have placed : shapeOf "run.updated" = some (.filed (.entity .runs)) := by decide
      have no_thread : ofThread "run.updated" = false := by decide
      exact ⟨.runs, placed, no_thread, contracts.decodes_run run⟩
  | runAttemptUpdated attempt =>
      have placed : shapeOf "run-attempt.updated" = some (.filed (.entity .attempts)) := by decide
      have no_thread : ofThread "run-attempt.updated" = false := by decide
      exact ⟨.attempts, placed, no_thread, contracts.decodes_attempt attempt⟩
  | nodeUpdated node =>
      have placed : shapeOf "node.updated" = some (.filed (.entity .nodes)) := by decide
      have no_thread : ofThread "node.updated" = false := by decide
      exact ⟨.nodes, placed, no_thread, contracts.decodes_node node⟩
  | other eventType payload => cases provided

theorem filed_of_ofProvider {events : List (DomainEvent content)}
    (provided : ∀ event ∈ events, event.payload.ofProvider = true) (known : List String) :
    Filed contracts known events := by
  induction events generalizing known with
  | nil => trivial
  | cons event events ih =>
      rcases shapeOf_of_ofProvider (provided event List.mem_cons_self) contracts with
        ⟨table, placed, no_thread, fits⟩
      refine ⟨?_, ?_, ih (fun other listed => provided other (List.mem_cons_of_mem _ listed)) _⟩
      · intro shape placed_again
        rw [placed] at placed_again
        cases placed_again
        exact fits
      · intro thread
        rw [no_thread] at thread
        cases thread

/-- Filed events lead from history to history. -/
theorem History.appends {log later : List (Envelope content)} {projections final : Projections}
    {events : List (DomainEvent content)} {known : List String}
    (history : History contracts log projections)
    (appends : Appends (kernel.projecting contracts) log projections events later final)
    (filed : Filed contracts known events) (created : ∀ id ∈ known, id ∈ createdStreams log) :
    History contracts later final := by
  induction appends generalizing known with
  | none => exact history
  | more numbered folded rest ih =>
      rename_i log later projections next final stored events
      rcases filed with ⟨typed, threaded, filed_rest⟩
      have founded : stored.Founded contracts log := by
        refine ⟨numbered, typed, fun thread => (threaded thread).1, ?_⟩
        intro thread
        rcases (threaded thread).2 with creates | listed
        · exact .inl (beq_iff_eq.mpr creates)
        · exact .inr (created _ listed)
      apply ih (history.append founded folded) filed_rest
      intro id listed
      rw [mem_createdStreams_append]
      split at listed
      · rename_i creates
        rcases List.mem_cons.mp listed with rfl | old
        · exact .inr ⟨beq_iff_eq.mpr creates, rfl⟩
        · exact .inl (created id old)
      · exact .inl (created id listed)

/-- The read model of a store is the history of its log. -/
def Tables.Historic (tables : Tables content Projections other) (contracts : Contracts content) :
    Prop :=
  History contracts tables.events.rows tables.projections

namespace Tables.Historic

variable {tables before final : Tables content Projections other}

theorem of_same (historic : before.Historic contracts) (events : final.events = before.events)
    (projections : final.projections = before.projections) : final.Historic contracts := by
  unfold Tables.Historic
  rw [events, projections]
  exact historic

theorem dispatch (files : kernel.FilesThreads contracts) (command : Command operation) (now : Int) :
    (Orchestration.dispatch (kernel.projecting contracts) command now).Ensures fun before _ final =>
      before.Historic contracts → final.Historic contracts := by
  refine (dispatch_appends command now).imp ?_
  rintro before _ final ⟨events, appends, planned⟩ historic
  rcases planned with rfl | planned
  · exact History.appends historic appends (show Filed contracts [] [] from trivial) (by simp)
  · apply History.appends historic appends (files before events planned)
    intro id listed
    exact (History.mem_threadIds_iff historic id).mp listed

theorem appendProviderEvents [DecidableEq content]
    (kernel : Kernel content Projections other operation) (contracts : Contracts content)
    (threadId : String) (guard : ProviderGuard) (events : List (DomainEvent content)) :
    (Orchestration.appendProviderEvents (kernel.projecting contracts) threadId guard
      events).Ensures fun before _ final =>
        before.Historic contracts → final.Historic contracts := by
  refine (appendProviderEvents_appends threadId guard events).imp ?_
  rintro before _ final ⟨appended, appends, provided⟩ historic
  apply History.appends historic appends (filed_of_ofProvider provided [])
  intro id listed
  cases listed

/-- A rebuild changes nothing. -/
theorem rebuild (kernel : Kernel content Projections other operation)
    (contracts : Contracts content) :
    (rebuildProjections (kernel.projecting contracts)).Ensures fun before _ final =>
      before.Historic contracts → final = before := by
  apply Tx.Ensures.write
  refine (Tx.ensures_look.bind fun _ => (Tx.ensures_within_run _ _ _).bind fun _ =>
    Tx.ensures_boundary _).imp ?_
  rintro _ _ _ ⟨_, before, ⟨rfl, rfl⟩, _, _, ⟨left, ran, rfl⟩, rfl⟩ historic
  have again := History.run_rebuildChecked historic before.projections
  have same : left = before.projections := by
    change (rebuildChecked contracts before.events.rows).run before.projections none = _ at ran
    rw [again] at ran
    cases ran
    rfl
  rw [same]

theorem after_rebuild (historic : tables.Historic contracts)
    (kernel : Kernel content Projections other operation) (fault : Fault WriteBoundary) :
    tables.after (rebuildProjections (kernel.projecting contracts)) fault = tables := by
  have kept := after_of_ensures (fun _ _ => rfl) (rebuild kernel contracts) tables fault
  exact kept historic

theorem recoverHost (kernel : Kernel content Projections other operation)
    (contracts : Contracts content) (now : Int) :
    (Orchestration.recoverHost (kernel.projecting contracts) now).Ensures fun before _ final =>
      before.Historic contracts → final.Historic contracts := by
  apply Tx.Ensures.write
  refine ((Tx.ensures_change _).bind fun _ => (Tx.ensures_boundary _).bind fun _ =>
    (Tx.ensures_change _).bind fun _ => Tx.ensures_boundary _).imp ?_
  rintro before _ _ ⟨_, _, rfl, _, _, rfl, _, _, rfl, rfl⟩ historic
  exact historic.of_same rfl rfl

theorem keeps_acknowledge (kernel : Kernel content Projections other operation)
    (batchId docId : String) (version : Nat) :
    (acknowledgePublication kernel batchId docId version).Keeps fun tables =>
      (tables.events, tables.projections) := by
  apply Tx.Ensures.write
  refine Tx.keeps_look.bind fun _ => ?_
  refine (Tx.keeps_orRaise _ _).bind fun _ => ?_
  refine (Tx.keeps_require _ _).bind fun _ => ?_
  refine (Tx.keeps_change (by intro; rfl)).bind fun _ => ?_
  refine (Tx.keeps_boundary _).bind fun _ => ?_
  refine Tx.keeps_look.bind fun _ => ?_
  split
  · refine (Tx.keeps_change (by intro; rfl)).bind fun _ => ?_
    exact Tx.keeps_boundary _
  · exact Tx.keeps_give _

theorem acknowledge (kernel : Kernel content Projections other operation)
    (contracts : Contracts content) (batchId docId : String) (version : Nat) :
    (acknowledgePublication kernel batchId docId version).Ensures fun before _ final =>
      before.Historic contracts → final.Historic contracts := by
  refine Tx.Ensures.imp (keeps_acknowledge kernel batchId docId version) ?_
  intro before _ final kept historic
  exact historic.of_same (congrArg Prod.fst kept) (congrArg Prod.snd kept)

end Tables.Historic

/-- Every step of the host and its worker keeps the read model a history. -/
theorem Tables.Historic.step [DecidableEq content] (files : kernel.FilesThreads contracts)
    {publisher : Publisher content Projections other}
    (historic : publisher.tables.Historic contracts) (event : PublisherStep content operation) :
    (publisher.step (kernel.projecting contracts) event).tables.Historic contracts := by
  cases event with
  | dispatch call =>
      have kept := after_of_ensures (fun _ => id)
        (Tables.Historic.dispatch files call.command call.now) publisher.tables call.fault
      exact kept historic
  | providerEvents threadId guard events fault =>
      have kept := after_of_ensures (fun _ => id)
        (Tables.Historic.appendProviderEvents kernel contracts threadId guard events)
        publisher.tables fault
      exact kept historic
  | rebuild fault =>
      change (publisher.tables.after _ fault).Historic contracts
      rw [historic.after_rebuild kernel fault]
      exact historic
  | restart now fault =>
      have kept := after_of_ensures (fun _ => id)
        (Tables.Historic.recoverHost kernel contracts now) publisher.tables fault
      exact kept historic
  | take =>
      unfold Publisher.step
      dsimp only
      split
      · exact historic
      · exact historic
  | publish outcome =>
      unfold Publisher.step
      dsimp only
      split
      · split
        · exact historic
        · split
          · exact historic
          · exact historic
          · exact historic
      · exact historic
      · exact historic
  | acknowledge fault =>
      unfold Publisher.step
      dsimp only
      split
      · rename_i batch document rest _
        have kept := after_of_ensures (fun _ => id)
          (Tables.Historic.acknowledge (kernel.projecting contracts) contracts batch.batchId
            document.docId document.version) publisher.tables fault
        exact kept historic
      · exact historic
  | die => exact historic

theorem Tables.Historic.run [DecidableEq content] (files : kernel.FilesThreads contracts)
    {publisher : Publisher content Projections other}
    (historic : publisher.tables.Historic contracts)
    (steps : List (PublisherStep content operation)) :
    (publisher.run (kernel.projecting contracts) steps).tables.Historic contracts := by
  induction steps generalizing publisher with
  | nil => exact historic
  | cons event steps ih => exact ih (historic.step files event)

/-! ## The check -/

theorem targetOf_checkpoint_iff {eventType : String} :
    (targetOf eventType = some (.record .checkpoint) ∨
        targetOf eventType = some (.record .checkpointScope)) ↔
      eventType = "checkpoint.captured" ∨ eventType = "checkpoint-scope.created" := by
  constructor
  · intro placed
    have listed {kind : RecordKind} (found : targetOf eventType = some (.record kind)) :
        (eventType, kind) ∈ recordKinds := by
      unfold targetOf at found
      split at found
      · cases found
      · split at found
        · cases found
        · split at found
          · cases found
          · split at found
            · cases found
            · rcases Option.map_eq_some_iff.mp found with ⟨other, looked_up, same⟩
              cases same
              rcases List.lookup_eq_some_iff.mp looked_up with ⟨before, after, split_eq, _⟩
              rw [split_eq]
              exact List.mem_append_right _ List.mem_cons_self
    rcases placed with captured | scope
    · have entry := listed captured
      simp [recordKinds] at entry
      exact .inl entry
    · have entry := listed scope
      simp [recordKinds] at entry
      exact .inr entry
  · rintro (rfl | rfl)
    · exact .inl (by decide)
    · exact .inr (by decide)

/-- The check passes exactly if no event of the log made a record of a checkpoint or its scope. -/
theorem History.verify_iff {log : List (Envelope content)} {projections : Projections}
    (history : History contracts log projections) :
    projections.verify contracts log = true ↔ ∀ stored ∈ log, ¬ stored.ofCheckpoint := by
  have checkpoints := history.exists_record_iff .checkpoint (by decide)
  have scopes := history.exists_record_iff .checkpointScope (by decide)
  rw [history.verify_iff_records]
  constructor
  · intro known stored listed checkpoint
    rcases targetOf_checkpoint_iff.mpr checkpoint with captured | scope
    · rcases checkpoints.mpr ⟨stored, listed, captured⟩ with ⟨record, record_listed, same⟩
      exact (known record record_listed).1 same
    · rcases scopes.mpr ⟨stored, listed, scope⟩ with ⟨record, record_listed, same⟩
      exact (known record record_listed).2 same
  · intro none_of record listed
    constructor
    · intro same
      rcases checkpoints.mp ⟨record, listed, same⟩ with ⟨stored, stored_listed, captured⟩
      exact none_of stored stored_listed (targetOf_checkpoint_iff.mp (.inl captured))
    · intro same
      rcases scopes.mp ⟨record, listed, same⟩ with ⟨stored, stored_listed, scope⟩
      exact none_of stored stored_listed (targetOf_checkpoint_iff.mp (.inr scope))

/-- Whatever the host has gone through, a rebuild leaves everything as it is, so that a recovery
only tells by its summary whether it rebuilt; and the check that it asks first passes exactly if
no checkpoint was ever recorded. -/
theorem startup_check_passes_iff [DecidableEq content] (contracts : Contracts content)
    (kernel : Kernel content Projections other operation) (files : kernel.FilesThreads contracts)
    (start : Tables content Projections other) (steps : List (PublisherStep content operation)) :
    let final := ((Publisher.start { start with projections := .empty }).run
      (kernel.projecting contracts) steps).tables
    (final.verified contracts = true ↔
        ∀ stored ∈ final.events.rows, ¬ stored.ofCheckpoint) ∧
      ∀ fault, final.after (rebuildProjections (kernel.projecting contracts)) fault = final ∧
        final.startup (kernel.projecting contracts) contracts fault =
          (final, !final.verified contracts) := by
  intro final
  have started : (Publisher.start { start with projections := .empty }).tables.Historic contracts :=
    .start
  have historic : final.Historic contracts := started.run files steps
  refine ⟨History.verify_iff historic, ?_⟩
  intro fault
  have kept := historic.after_rebuild kernel fault
  refine ⟨kept, ?_⟩
  unfold Tables.startup
  cases passes : final.verified contracts with
  | true => rfl
  | false => rw [if_neg (by decide), kept, Bool.not_false]

/-! ## A thread with a checkpoint -/

theorem isSome_member_set {payload : Json} {key : String} (name : String) (value : Json)
    (present : (payload.member key).isSome = true) :
    ((payload.set name value).member key).isSome = true := by
  have kept : ∀ {members : List (String × Json)} (write : String × Json → String × Json),
      (∀ member, (write member).1 = member.1) → (members.lookup key).isSome = true →
        ((members.map write).lookup key).isSome = true := by
    intro members write same found
    rw [List.lookup_isSome_iff] at found ⊢
    rcases found with ⟨entry, listed, matches_key⟩
    exact ⟨write entry, List.mem_map_of_mem listed, by rw [same]; exact matches_key⟩
  cases payload with
  | obj members =>
      unfold Json.set
      dsimp only
      split
      · apply kept _ _ present
        intro member
        split
        · rename_i same
          exact (beq_iff_eq.mp same).symm
        · rfl
      · rw [Json.member, List.lookup_append]
        rw [Option.isSome_or, show (members.lookup key).isSome = true from present, Bool.true_or]
  | null => cases present
  | bool value => cases present
  | num literal => cases present
  | str text => cases present
  | arr items => cases present

/-- The members that a type requires. -/
def requiredMembers : Shape → List String
  | .filed (.entity .threads) =>
      ["createdBy", "creationSource", "id", "projectId", "title", "providerInstanceId",
        "modelSelection", "runtimeMode", "interactionMode", "branch", "worktreePath",
        "activeProviderThreadId", "lineage", "forkedFrom", "createdAt", "updatedAt", "archivedAt",
        "settledOverride", "settledAt", "lastVisitedAt", "deletedAt"]
  | .filed (.record .checkpointScope) =>
      ["id", "threadId", "runId", "nodeId", "parentScopeId", "providerThreadId", "kind",
        "ordinalWithinParent", "advancesAppRunCount", "cwd", "createdAt"]
  | .filed (.record .checkpoint) =>
      ["id", "threadId", "scopeId", "runId", "nodeId", "parentCheckpointId", "ordinalWithinScope",
        "appRunOrdinal", "ref", "status", "files", "capturedAt"]
  | _ => ["id"]

/-- Contracts that go by the members, with payloads as JSON. -/
def memberContracts : Contracts Json where
  value
    | .runUpdated run => .obj [("id", .str run.id), ("ordinal", .num (toString run.ordinal))]
    | .runAttemptUpdated attempt =>
        .obj [("id", .str attempt.id), ("attemptOrdinal", .num (toString attempt.attemptOrdinal))]
    | .nodeUpdated node => .obj [("id", .str node.id)]
    | .other _ payload => payload
  decodes shape payload := (requiredMembers shape).all fun key => (payload.member key).isSome
  decodes_run _ := rfl
  decodes_attempt _ := rfl
  decodes_node _ := rfl
  decodes_set := by
    intro key text thread _ fits
    apply List.all_eq_true.mpr
    intro name listed
    exact isSome_member_set key (.str text) (List.all_eq_true.mp fits name listed)
  decodes_preserveRecorded := by
    intro payload current fits _
    apply List.all_eq_true.mpr
    intro name listed
    have present := List.all_eq_true.mp fits name listed
    unfold preserveRecorded
    rw [List.foldl_cons, List.foldl_cons, List.foldl_nil]
    have first : ((match payload.member "delegatedCompletion", current.member "delegatedCompletion"
        with
        | none, some value => payload.set "delegatedCompletion" value
        | _, _ => payload).member name).isSome = true := by
      split
      · exact isSome_member_set _ _ present
      · exact present
    split
    · exact isSome_member_set _ _ first
    · exact first
  decodes_cancelWork := by
    intro run payload fits _
    apply List.all_eq_true.mpr
    intro name listed
    exact isSome_member_set _ _ (List.all_eq_true.mp fits name listed)

def threadPayload : Json :=
  .obj [("createdBy", .str "user"), ("creationSource", .str "web"), ("id", .str "thread"),
    ("projectId", .str "project"), ("title", .str "Checkpoint"),
    ("providerInstanceId", .str "instance"), ("modelSelection", .obj []),
    ("runtimeMode", .str "full-access"), ("interactionMode", .str "default"), ("branch", .null),
    ("worktreePath", .null), ("activeProviderThreadId", .null), ("lineage", .obj []),
    ("forkedFrom", .null), ("createdAt", .str "0"), ("updatedAt", .str "0"), ("archivedAt", .null),
    ("settledOverride", .null), ("settledAt", .null), ("lastVisitedAt", .null), ("deletedAt", .null)]

def scopePayload : Json :=
  .obj [("id", .str "scope"), ("threadId", .str "thread"), ("runId", .str "run"),
    ("nodeId", .str "node"), ("parentScopeId", .null), ("providerThreadId", .null),
    ("kind", .str "root_run"), ("ordinalWithinParent", .num "0"),
    ("advancesAppRunCount", .bool true), ("cwd", .str "/project"), ("createdAt", .str "1")]

def checkpointPayload : Json :=
  .obj [("id", .str "checkpoint"), ("threadId", .str "thread"), ("scopeId", .str "scope"),
    ("runId", .str "run"), ("nodeId", .str "node"), ("parentCheckpointId", .null),
    ("ordinalWithinScope", .num "0"), ("appRunOrdinal", .num "1"), ("ref", .str "refs/zeron/1"),
    ("status", .str "ready"), ("files", .arr []), ("capturedAt", .str "1")]

/-- What is planned: the creation of the thread, or the record of a checkpoint. -/
def plannedEvents (commandId : String) : Bool → List (DomainEvent Json)
  | false =>
      [{ id := "event:" ++ commandId ++ ":0", threadId := "thread", runId := none, occurredAt := "0"
         payload := .other "thread.created" threadPayload }]
  | true =>
      [{ id := "event:" ++ commandId ++ ":0", threadId := "thread", runId := none, occurredAt := "1"
         payload := .other "checkpoint-scope.created" scopePayload },
        { id := "event:" ++ commandId ++ ":1", threadId := "thread", runId := none, occurredAt := "1"
          payload := .other "checkpoint.captured" checkpointPayload }]

def eventsPlan (events : List (DomainEvent Json)) : Plan Json where
  events := events
  effects := []
  cancelProcessEffects := false
  adoption := none
  routedEffects := []
  cancelThreads := []
  queueLifecycle := none
  queueIntents := none
  queuePatch := none
  queueAttachments := []

/-- A host whose commands create a thread and record a checkpoint of it. -/
def capturingKernel : Kernel Json Projections Unit Bool where
  hostId := "host"
  plan tables command _ :=
    if command.operation && !tables.projections.threadIds.contains "thread" then
      (.refused "Thread thread was not found.", ())
    else (.accepted (eventsPlan (plannedEvents command.id command.operation)), ())
  commandType _ := .ok "thread.create"
  iso _ := .ok "0"
  isQueue _ := false
  participants command := [command.threadId]
  project _ := Tx.give ⟨⟩
  readThread projections id :=
    (readEntity (projections.entities .threads) id id).map fun thread =>
      { thread := { id, updatedAt := (thread.text "updatedAt").getD "", deletedAt := none,
                    rest := thread }
        runs := Table.empty, attempts := Table.empty, nodes := Table.empty, providerThreads := [] }
  readThread_id := by
    intro stored id projection read
    rcases Option.map_eq_some_iff.mp read with ⟨thread, _, rfl⟩
    rfl
  nodeOwner _ _ := none
  cancelledMessages _ _ := []
  stopped _ _ _ := []
  admitControl _ _ _ _ _ := .ok ()
  forgetRuntimes other := other
  rebuild _ := Tx.give ⟨⟩
  threadPayload _ _ := .null
  registryPayload _ _ := .null

theorem capturingKernel_files : capturingKernel.FilesThreads memberContracts := by
  rintro tables events ⟨command, now, plan, accepted, rfl⟩
  unfold capturingKernel at accepted
  dsimp only at accepted
  split at accepted
  · cases accepted
  · cases accepted
    have shapes : shapeOf "thread.created" = some (.filed (.entity .threads)) ∧
        shapeOf "checkpoint-scope.created" = some (.filed (.record .checkpointScope)) ∧
          shapeOf "checkpoint.captured" = some (.filed (.record .checkpoint)) := by
      decide
    have no_thread : ofThread "checkpoint-scope.created" = false ∧
        ofThread "checkpoint.captured" = false := by
      decide
    cases command.operation with
    | false =>
        refine ⟨?_, fun _ => ⟨rfl, .inl rfl⟩, trivial⟩
        intro shape placed
        change shapeOf "thread.created" = some shape at placed
        cases placed
        rfl
    | true =>
        refine ⟨?_, ?_, ?_, ?_, trivial⟩
        · intro shape placed
          change shapeOf "checkpoint-scope.created" = some shape at placed
          cases placed
          rfl
        · intro thread
          change ofThread "checkpoint-scope.created" = true at thread
          cases thread
        · intro shape placed
          change shapeOf "checkpoint.captured" = some shape at placed
          cases placed
          rfl
        · intro thread
          change ofThread "checkpoint.captured" = true at thread
          cases thread

/-- A store of the host without any row. -/
def freshTables : Tables Json Projections Unit where
  hostId := "host"
  epoch := 1
  events := Table.empty
  projections := .empty
  outbox := .empty
  publications := .empty
  receipts := Table.empty
  adoptions := []
  queueAttachments := Table.empty
  queueLifecycle := Table.empty
  queueIntents := Table.empty
  queuePatches := Table.empty
  other := ()

/-- The thread is created, and a checkpoint of it recorded. -/
def captureSteps : List (PublisherStep Json Bool) :=
  [.dispatch ⟨⟨"create", "thread", false⟩, 0, none, false⟩,
    .dispatch ⟨⟨"capture", "thread", true⟩, 1, none, false⟩]

theorem startup_check_passes_iff_of_capture :
    let final := ((Publisher.start { freshTables with projections := .empty }).run
      (capturingKernel.projecting memberContracts) captureSteps).tables
    (final.verified memberContracts = true ↔
        ∀ stored ∈ final.events.rows, ¬ stored.ofCheckpoint) ∧
      ∀ fault, final.after (rebuildProjections (capturingKernel.projecting memberContracts))
          fault = final ∧
        final.startup (capturingKernel.projecting memberContracts) memberContracts fault =
          (final, !final.verified memberContracts) :=
  startup_check_passes_iff memberContracts capturingKernel capturingKernel_files freshTables
    captureSteps

/-- A thread whose turn recorded a checkpoint is taken for damaged at every start. -/
theorem captured_checkpoint_fails_check :
    capturingKernel.FilesThreads memberContracts ∧
      (((Publisher.start { freshTables with projections := .empty }).run
        (capturingKernel.projecting memberContracts) captureSteps).tables).verified
          memberContracts = false := by
  refine ⟨capturingKernel_files, ?_⟩
  decide +kernel

end Zeron.Orchestration
