import Zeron.Threads.Background
import Zeron.Threads.LoroQueue
import Zeron.Threads.Runner

/-!
# Queueing and the provider's binding

A run that is queued behind an active one should leave the thread's binding alone.  Mail
and the document's queue write no record of a conversation.  Send and an answer write the
one that the run is to use, and the reducer takes it for the active binding, unless it is
an untouched placeholder: a new generation is none, since it names its first run.
-/

namespace Zeron.Threads

open Data
open Orchestration (RunStatus)

/-- `Send`, to no run in particular. -/
structure SendInput where
  messageId : String
  text : String
  driver : String
  modelSelection : Option ModelSelection

/-- `DeliveryAction::Queue`, or `Recover`, of the results of a run. -/
structure DeliveryInput where
  parentRunId : String
  messageId : String
  recover : Bool
  /-- Whether the delivery is the current one of its run. -/
  current : Bool

/-- An answer that steers no run: the request, its item and the reply. -/
structure AnswerInput where
  request : RuntimeRequest
  item : TurnItem
  text : String

namespace ThreadProjection

variable (p : ThreadProjection) (now : Int)

/-- The thread with the selection of the message. -/
def selecting (selection : Option ModelSelection) : AppThread :=
  match selection with
  | some selection =>
      { p.thread with providerInstanceId := selection.instanceId, modelSelection := selection }
  | none => p.thread

/-- The end of the queue. -/
def nextQueuePosition : Int :=
  (((p.runs.rows.filter fun run => run.status == .queued).map fun run =>
    run.queuePosition.getD run.ordinal).max?.getD 0) + 1

/-- The active run has a conversation, whose session takes queued messages. -/
def takesQueued : Bool :=
  ((p.activeRun.bind Run.providerThreadId).bind p.providerThreads.get).any fun provider =>
    (provider.providerSessionId.bind p.sessions.get).all ProviderSession.supportsQueuedMessages

/-- The seed of a message that is sent. -/
def sendSeed (input : SendInput) : ExecutionSeed :=
  let queued := p.activeRun.isSome
  let seed := p.executionSeedFor (p.selecting input.modelSelection) (p.lastRunOrdinal + 1)
    input.messageId (if queued then .queued else .starting) input.driver now
  let seed :=
    match p.providerThreads.get seed.providerThread.id with
    | some provider =>
        let seed := { seed with providerThread := provider }
        if queued then seed else seed.takingOver now
    | none => seed
  if queued then
    { seed with
      run :=
        { seed.run with
          queuePosition := some p.nextQueuePosition
          queueHeld :=
            if p.runs.rows.any fun run => run.status == .queued && run.queueHeld == some true then
              some true
            else seed.run.queueHeld } }
  else seed

/-- `Send`, without the steering of a run. -/
def send (input : SendInput) : Option (List Event) :=
  -- "Unavailable thread"
  if p.thread.archivedAt.isSome || p.thread.deletedAt.isSome then none
  -- "Provider does not support app-owned queued turns"
  else if p.activeRun.isSome && !p.takesQueued then none
  else
    let seed := p.sendSeed now input
    let message := newMessage (some seed.run.id) (some seed.root.id) input.messageId input.text
      "user" now
    some (p.clearParking now ++ (emitExecution seed ++ (.messageUpdated message ::
      if p.activeRun.isSome then [] else [.turnItemUpdated (userItem p.items seed.run message)])))

/-- The seed of a delivery, with the driver of the run that has delegated the work. -/
def deliverySeed (original : Run) (messageId : String) : ExecutionSeed :=
  let thread :=
    { p.thread with
      modelSelection := original.modelSelection
      providerInstanceId := original.providerInstanceId }
  let driver := ((original.providerThreadId.bind p.providerThreads.get).map
    ProviderThread.driver).getD "unknown"
  p.executionSeedFor thread (p.lastRunOrdinal + 1) messageId
    (if p.activeRun.isSome then .queued else .starting) driver now

/-- The events of a delivery that gets a run. -/
def queueDelivery (original : Run) (saved : Message) : List Event :=
  let seed := p.deliverySeed now original saved.id
  (if p.activeRun.isSome then
    -- "Queued attempts do not take over the provider-thread binding"
    [ .runCreated
        { seed.run with queuePosition := some seed.run.ordinal, queueHeld := some false },
      .attemptUpdated seed.attempt, .nodeUpdated seed.root ]
  else emitExecution seed) ++
    [ .messageUpdated
        { saved with
          runId := some seed.run.id
          nodeId := some seed.root.id
          streaming := false
          updatedAt := now } ]

/-- `plan_delivery`, of a delivery that is queued. -/
def planDelivery (input : DeliveryInput) : List Event :=
  if !input.current then []
  else
    match p.runs.get input.parentRunId, p.messages.get input.messageId with
    | some original, some saved =>
        match p.known input.messageId with
        | some run =>
            if input.recover && run.status == .queued then
              [.runUpdated { run with queueHeld := some false }]
            else []
        | none => p.queueDelivery now original saved
    | _, _ => []

/-- The driver of the instance's last record. -/
def answerDriver : String :=
  ((p.providerThreads.rows.reverse.find? fun provider =>
    provider.providerInstanceId == p.thread.providerInstanceId).map ProviderThread.driver).getD
      "unknown"

/-- The seed of an answer. -/
def answerSeed (id : String) : ExecutionSeed :=
  p.executionSeedFor p.thread (p.lastRunOrdinal + 1) id
    (if p.runs.rows.any fun run => !run.status.terminal then .queued else .starting)
    p.answerDriver now

/-- `enqueue_answer`. -/
def enqueueAnswer (id text : String) : List Event :=
  let seed := p.answerSeed now id
  .messageUpdated (newMessage (some seed.run.id) none id text "user" now) :: emitExecution seed

/-- `respond`, to a request that takes its answer as a message. -/
def respond (input : AnswerInput) : List Event :=
  .runtimeRequestUpdated (input.request.settled .resolved now) ::
    (((p.nodes.get input.request.nodeId).map fun node =>
        .nodeUpdated (node.settled .resolved now)).toList ++
      (.turnItemUpdated { input.item with status := "completed" } ::
        p.enqueueAnswer now s!"async-answer:{input.request.id}" input.text))

end ThreadProjection

/-- A command that admits a run. -/
inductive Admission where
  | send (input : SendInput)
  | delivery (input : DeliveryInput)
  | answer (input : AnswerInput)
  /-- `host.sync_loro_queue`, with the rows that were synced last. -/
  | sync (driver : String) (previous rows : List QueuedMessage)

namespace Admission

/-- The events of a command, unless it is refused. -/
def plan (p : ThreadProjection) (now : Int) : Admission → Option (List Event)
  | send input => p.send now input
  | delivery input => some (p.planDelivery now input)
  -- "Thread is deleted."
  | answer input => if p.thread.deletedAt.isSome then none else some (p.respond now input)
  | sync driver previous rows => p.syncLoro now driver previous rows

end Admission

namespace ThreadProjection

/-- `plan_event` finds the attempt of a run bound to its conversation. -/
def serves (p : ThreadProjection) (run : Run) (attempt : Attempt) : Bool :=
  (p.providerThreads.get attempt.providerThreadId).any fun provider =>
    decide (provider.lastRunOrdinal = some run.ordinal)

/-- The active conversation of the thread is the same, and so are the owner and the last
run of every conversation: what served a run serves it still. -/
structure KeepsBinding (p q : ThreadProjection) : Prop where
  active : q.thread.activeProviderThreadId = p.thread.activeProviderThreadId
  records : ∀ id before, p.providerThreads.get id = some before →
    ∃ after, q.providerThreads.get id = some after ∧ after.ownerNodeId = before.ownerNodeId ∧
      after.lastRunOrdinal = before.lastRunOrdinal
  running : ∀ run attempt, p.serves run attempt = true → q.serves run attempt = true

/-- The conversation is the active one, or the reducer does not bind it. -/
def Unbinding (p : ThreadProjection) (provider : ProviderThread) : Prop :=
  provider.appThreadId = some p.thread.id → provider.placeholder = false →
    p.thread.activeProviderThreadId = some provider.id

/-- A new generation would bear the id of the active conversation. -/
def NewIsActive (p : ThreadProjection) (instanceId : String) : Prop :=
  p.thread.activeProviderThreadId =
    some (seedProviderThreadId p.thread.id instanceId (p.lastRunOrdinal + 1))

end ThreadProjection

open ThreadProjection

/-- The command leaves the binding: the run goes on in the active conversation, or in one
that the reducer does not bind. -/
def Admission.Unbound (p : ThreadProjection) : Admission → Prop
  | .send input =>
      let thread := p.selecting input.modelSelection
      match (p.reusableGeneration thread.providerInstanceId thread.modelSelection
          (p.lastRunOrdinal + 1) input.driver).map Prod.snd |>.or
            (p.providerThreads.get (seedProviderThreadId p.thread.id thread.providerInstanceId
              (p.lastRunOrdinal + 1))) with
      | some provider => p.Unbinding provider
      | none => p.NewIsActive thread.providerInstanceId
  | .answer _ =>
      match p.reusableGeneration p.thread.providerInstanceId p.thread.modelSelection
          (p.lastRunOrdinal + 1) p.answerDriver with
      | some (_, provider) => p.Unbinding provider
      | none =>
          p.NewIsActive p.thread.providerInstanceId ∧
            ∀ old, p.providerThreads.get (seedProviderThreadId p.thread.id
                p.thread.providerInstanceId (p.lastRunOrdinal + 1)) = some old →
              old.ownerNodeId = some (seedRootId (seedRunId p.thread.id (p.lastRunOrdinal + 1))) ∧
                old.lastRunOrdinal = some (p.lastRunOrdinal + 1)
  | .delivery _ | .sync _ _ _ => True

namespace ThreadProjection

variable {p q : ThreadProjection} {now : Int} {events before after : List Event}
  {provider : ProviderThread}

/-- An event that neither binds a conversation nor writes one. -/
structure Unrelated (p : ThreadProjection) (event : Event) : Prop where
  provider : event.providerThread? = none
  roster : event.bringsRoster = false
  thread : ∀ thread ∈ event.thread?, SameBinding p.thread thread

/-! ## What binds -/

theorem KeepsBinding.of_records (active : q.thread.activeProviderThreadId =
      p.thread.activeProviderThreadId)
    (records : ∀ id before, p.providerThreads.get id = some before →
      ∃ after, q.providerThreads.get id = some after ∧ after.ownerNodeId = before.ownerNodeId ∧
        after.lastRunOrdinal = before.lastRunOrdinal) : p.KeepsBinding q := by
  refine ⟨active, records, ?_⟩
  intro run attempt serves
  rcases (Option.any_eq_true _ _).mp serves with ⟨old, found, last⟩
  rcases records attempt.providerThreadId old found with ⟨new, new_found, _, same⟩
  apply (Option.any_eq_true _ _).mpr
  refine ⟨new, new_found, ?_⟩
  rw [same]
  exact last

theorem sameBinding_of_applyAll (unrelated : ∀ event ∈ events, p.Unrelated event)
    {first : ThreadProjection} (start : SameBinding p.thread first.thread)
    (applied : first.applyAll now events = some q) : SameBinding p.thread q.thread := by
  have view := thread_of_applyAll
    (fun thread => (thread.id, thread.deletedAt, thread.activeProviderThreadId))
    (p.thread.id, p.thread.deletedAt, p.thread.activeProviderThreadId) (fun _ _ => rfl)
    (fun event listed thread brought => by
      have same := (unrelated event listed).thread thread brought
      rw [same.id, same.deletedAt, same.active])
    (fun event listed provider brought => by
      rw [(unrelated event listed).provider] at brought
      cases brought)
    applied (by rw [start.id, start.deletedAt, start.active])
  rcases Prod.ext_iff.mp view with ⟨id, rest⟩
  rcases Prod.ext_iff.mp rest with ⟨deleted, active⟩
  exact ⟨id, deleted, active⟩

theorem providerThreads_of_unrelated (unrelated : ∀ event ∈ events, p.Unrelated event)
    {first : ThreadProjection} (applied : first.applyAll now events = some q) :
    q.providerThreads = first.providerThreads := by
  rw [providerThreads_of_applyAll applied, List.filterMap_eq_nil_iff.mpr]
  · rfl
  · intro event listed
    exact (unrelated event listed).provider

/-- A plan that writes no conversation keeps every binding. -/
theorem keepsBinding_of_unrelated (unrelated : ∀ event ∈ events, p.Unrelated event)
    (applied : p.applyAll now events = some q) : p.KeepsBinding q := by
  apply KeepsBinding.of_records
  · exact (sameBinding_of_applyAll unrelated ⟨rfl, rfl, rfl⟩ applied).active
  · intro id old found
    exact ⟨old, by rw [providerThreads_of_unrelated unrelated applied, found], rfl, rfl⟩

/-- A plan that writes one conversation keeps every binding exactly if the reducer does not
bind the conversation anew, and its record keeps the owner and the last run. -/
theorem keepsBinding_iff_of_written (early : ∀ event ∈ before, p.Unrelated event)
    (late : ∀ event ∈ after, p.Unrelated event ∧ event.thread? = none)
    (applied : p.applyAll now (before ++ .providerThreadUpdated provider :: after) = some q) :
    p.KeepsBinding q ↔ p.Unbinding provider ∧
      ∀ old, p.providerThreads.get provider.id = some old →
        provider.ownerNodeId = old.ownerNodeId ∧ provider.lastRunOrdinal = old.lastRunOrdinal := by
  rw [applyAll_append] at applied
  rcases Option.bind_eq_some_iff.mp applied with ⟨middle, first, rest⟩
  have same := sameBinding_of_applyAll early ⟨rfl, rfl, rfl⟩ first
  have stored := providerThreads_of_unrelated early first
  rcases Option.bind_eq_some_iff.mp rest with ⟨written, step, rest⟩
  have active : q.thread.activeProviderThreadId =
      if provider.appThreadId = some p.thread.id ∧ provider.placeholder = false then some provider.id
      else p.thread.activeProviderThreadId := by
    have bound : written.thread.activeProviderThreadId =
        if provider.appThreadId = some p.thread.id ∧ provider.placeholder = false then
          some provider.id
        else p.thread.activeProviderThreadId := by
      cases step
      rw [bind]
      rw [same.id]
      split
      · rfl
      · exact same.active
    rw [← bound]
    exact thread_of_applyAll AppThread.activeProviderThreadId _ (fun _ _ => rfl)
      (fun event listed thread brought => by
        rw [(late event listed).2] at brought
        cases brought)
      (fun event listed provider brought => by
        rw [(late event listed).1.provider] at brought
        cases brought) rest rfl
  have table : q.providerThreads = p.providerThreads.touch provider := by
    rw [providerThreads_of_unrelated (fun event listed => (late event listed).1) rest, ← stored]
    cases step
    rw [bind]
    split <;> rfl
  constructor
  · intro keeps
    constructor
    · intro own real
      rw [← keeps.active, active, if_pos ⟨own, real⟩]
    · intro old found
      rcases keeps.records provider.id old found with ⟨new, new_found, owner, last⟩
      rw [table, Table.get_touch, if_pos rfl] at new_found
      cases new_found
      exact ⟨owner, last⟩
  · rintro ⟨unbinding, agrees⟩
    apply KeepsBinding.of_records
    · rw [active]
      split
      · rename_i binds
        exact (unbinding binds.1 binds.2).symm
      · rfl
    · intro id old found
      rw [table, Table.get_touch]
      by_cases written_id : provider.id = id
      · rw [if_pos written_id]
        rw [← written_id] at found
        exact ⟨provider, rfl, agrees old found⟩
      · rw [if_neg written_id]
        exact ⟨old, found, rfl, rfl⟩

/-! ## The four ways into the queue -/

theorem unrelated_clearParking : ∀ event ∈ p.clearParking now, p.Unrelated event := by
  rcases p.clearParking_eq now with ⟨threads, same, kept⟩
  rw [same]
  intro event listed
  rcases List.mem_map.mp listed with ⟨row, row_listed, rfl⟩
  refine ⟨rfl, rfl, ?_⟩
  intro thread brought
  rcases Option.some.inj brought with rfl
  exact kept row row_listed

/-- The rows of an execution other than its conversation. -/
theorem unrelated_execution (run : Run) (attempt : Attempt) (root : Node) :
    ∀ event ∈ [Event.runCreated run, .attemptUpdated attempt, .nodeUpdated root],
      p.Unrelated event ∧ event.thread? = none := by
  intro event listed
  have none_brought : ∀ {event : Event}, event.thread? = none →
      ∀ thread ∈ event.thread?, SameBinding p.thread thread := by
    intro event nothing thread brought
    rw [nothing] at brought
    cases brought
  simp only [List.mem_cons, List.not_mem_nil, or_false] at listed
  rcases listed with rfl | rfl | rfl <;> exact ⟨⟨rfl, rfl, none_brought rfl⟩, rfl⟩

theorem unrelated_message (message : Message) :
    p.Unrelated (.messageUpdated message) ∧ (Event.messageUpdated message).thread? = none := by
  refine ⟨⟨rfl, rfl, ?_⟩, rfl⟩
  rintro thread ⟨⟩

/-- The conversation of a message that is sent to a busy thread. -/
theorem providerThread_sendSeed (busy : p.activeRun.isSome = true) (input : SendInput) :
    let thread := p.selecting input.modelSelection
    (p.sendSeed now input).providerThread =
      (((p.reusableGeneration thread.providerInstanceId thread.modelSelection
          (p.lastRunOrdinal + 1) input.driver).map Prod.snd).or
        (p.providerThreads.get (seedProviderThreadId p.thread.id thread.providerInstanceId
          (p.lastRunOrdinal + 1)))).getD
        (executionSeed thread (p.lastRunOrdinal + 1) input.messageId .queued input.driver
          now).providerThread := by
  intro thread
  have own : thread.id = p.thread.id := by
    unfold thread selecting
    split <;> rfl
  let seed := p.executionSeedFor thread (p.lastRunOrdinal + 1) input.messageId .queued input.driver now
  have shape : (p.sendSeed now input).providerThread =
      (p.providerThreads.get seed.providerThread.id).getD seed.providerThread := by
    unfold sendSeed
    rw [busy]
    simp only [↓reduceIte]
    cases p.providerThreads.get seed.providerThread.id <;> rfl
  have chosen : seed.providerThread = _ := p.providerThread_executionSeedFor thread
    (p.lastRunOrdinal + 1) input.messageId input.driver now
  rw [shape, chosen]
  cases reused : p.reusableGeneration thread.providerInstanceId thread.modelSelection
      (p.lastRunOrdinal + 1) input.driver with
  | some found =>
      have stored := get_of_reusableGeneration reused
      rw [Option.map_some, Option.getD_some, stored]
      rfl
  | none =>
      rw [← own]
      rfl

theorem unbinding_new {thread : AppThread} (own : thread.id = p.thread.id)
    (messageId driver : String) (status : RunStatus) :
    p.Unbinding (executionSeed thread (p.lastRunOrdinal + 1) messageId status driver
      now).providerThread ↔ p.NewIsActive thread.providerInstanceId := by
  unfold Unbinding NewIsActive
  rw [← own]
  constructor
  · intro unbinding
    exact unbinding rfl rfl
  · intro active _ _
    exact active

/-- A record that is written as it is. -/
theorem agrees_of_stored (stored : p.providerThreads.get provider.id = some provider) :
    ∀ old, p.providerThreads.get provider.id = some old →
      provider.ownerNodeId = old.ownerNodeId ∧ provider.lastRunOrdinal = old.lastRunOrdinal := by
  intro old found
  rw [stored] at found
  rcases Option.some.inj found with rfl
  exact ⟨rfl, rfl⟩

/-- Whether a plan that writes one conversation keeps the bindings. -/
theorem exists_keepsBinding_iff (p : ThreadProjection) (now : Int) (before after : List Event)
    (provider : ProviderThread)
    (early : ∀ event ∈ before, p.Unrelated event)
    (late : ∀ event ∈ after, p.Unrelated event ∧ event.thread? = none) :
    ∃ q, p.applyAll now (before ++ .providerThreadUpdated provider :: after) = some q ∧
      (p.KeepsBinding q ↔ p.Unbinding provider ∧
        ∀ old, p.providerThreads.get provider.id = some old →
          provider.ownerNodeId = old.ownerNodeId ∧
            provider.lastRunOrdinal = old.lastRunOrdinal) := by
  have plain : ∀ event ∈ before ++ .providerThreadUpdated provider :: after,
      event.bringsRoster = false := by
    intro event listed
    rcases List.mem_append.mp listed with first | rest
    · exact (early event first).roster
    · rcases List.mem_cons.mp rest with rfl | last
      · rfl
      · exact (late event last).1.roster
  rcases isSome_applyAll p now plain with ⟨q, applied⟩
  exact ⟨q, applied, keepsBinding_iff_of_written early late applied⟩

theorem exists_keepsBinding (unrelated : ∀ event ∈ events, p.Unrelated event) :
    ∃ q, p.applyAll now events = some q ∧ p.KeepsBinding q := by
  rcases isSome_applyAll p now fun event listed => (unrelated event listed).roster
    with ⟨q, applied⟩
  exact ⟨q, applied, keepsBinding_of_unrelated unrelated applied⟩

theorem send_keeps_iff (busy : p.activeRun.isSome = true) {input : SendInput}
    (planned : p.send now input = some events) :
    ∃ q, p.applyAll now events = some q ∧ (p.KeepsBinding q ↔ (Admission.send input).Unbound p) := by
  unfold send at planned
  split at planned
  · cases planned
  · split at planned
    · cases planned
    · rcases Option.some.inj planned with rfl
      rcases p.exists_keepsBinding_iff now (p.clearParking now)
        ([.runCreated (p.sendSeed now input).run,
          .attemptUpdated (p.sendSeed now input).attempt, .nodeUpdated (p.sendSeed now input).root] ++
            [.messageUpdated (newMessage (some (p.sendSeed now input).run.id)
              (some (p.sendSeed now input).root.id) input.messageId input.text "user" now)])
        (p.sendSeed now input).providerThread unrelated_clearParking (by
          intro event listed
          rcases List.mem_append.mp listed with execution | message
          · exact unrelated_execution _ _ _ event execution
          · rw [List.mem_singleton.mp message]
            exact unrelated_message _) with ⟨q, applied, keeps⟩
      refine ⟨q, applied, keeps.trans ?_⟩
      rw [providerThread_sendSeed busy, Admission.Unbound]
      cases reused : p.reusableGeneration (p.selecting input.modelSelection).providerInstanceId
          (p.selecting input.modelSelection).modelSelection (p.lastRunOrdinal + 1) input.driver with
      | some found =>
          exact and_iff_left (agrees_of_stored (get_of_reusableGeneration reused))
      | none =>
          rw [Option.map_none, Option.none_or]
          have own : (p.selecting input.modelSelection).id = p.thread.id := by
            unfold selecting
            split <;> rfl
          cases found : p.providerThreads.get (seedProviderThreadId p.thread.id
              (p.selecting input.modelSelection).providerInstanceId (p.lastRunOrdinal + 1)) with
          | some provider =>
              exact and_iff_left (agrees_of_stored (Table.get_of_mem (Table.mem_of_get found)))
          | none =>
              rw [Option.getD_none, unbinding_new own]
              apply and_iff_left
              intro old taken
              rw [← own] at found
              rw [show ProviderThread.id _ = seedProviderThreadId _ _ _ from rfl, found] at taken
              cases taken

theorem respond_keeps_iff (busy : p.activeRun.isSome = true) (input : AnswerInput) :
    ∃ q, p.applyAll now (p.respond now input) = some q ∧
      (p.KeepsBinding q ↔ (Admission.answer input).Unbound p) := by
  have waits : (p.runs.rows.any fun run => !run.status.terminal) = true := by
    rcases Option.isSome_iff_exists.mp busy with ⟨run, active⟩
    have open_run := List.find?_some active
    rw [Bool.and_eq_true] at open_run
    exact List.any_eq_true.mpr ⟨run,
      mem_orderedRuns.mp (List.mem_reverse.mp (List.mem_of_find?_eq_some active)), open_run.1⟩
  have chosen := p.providerThread_executionSeedFor p.thread (p.lastRunOrdinal + 1)
    s!"async-answer:{input.request.id}" p.answerDriver now
  let seed := p.answerSeed now s!"async-answer:{input.request.id}"
  have queued : seed = p.executionSeedFor p.thread (p.lastRunOrdinal + 1)
      s!"async-answer:{input.request.id}" .queued p.answerDriver now := by
    unfold seed answerSeed
    rw [waits, if_pos rfl]
  rcases p.exists_keepsBinding_iff now
    (.runtimeRequestUpdated (input.request.settled .resolved now) ::
      (((p.nodes.get input.request.nodeId).map fun node =>
          .nodeUpdated (node.settled .resolved now)).toList ++
        [.turnItemUpdated { input.item with status := "completed" },
          .messageUpdated (newMessage (some seed.run.id) none
            s!"async-answer:{input.request.id}" input.text "user" now)]))
    [.runCreated seed.run, .attemptUpdated seed.attempt, .nodeUpdated seed.root]
    seed.providerThread (by
      intro event listed
      rcases List.mem_cons.mp listed with rfl | rest
      · exact ⟨rfl, rfl, by rintro _ ⟨⟩⟩
      · rcases List.mem_append.mp rest with node | last
        · rcases Option.map_eq_some_iff.mp (Option.mem_toList.mp node) with ⟨_, _, rfl⟩
          exact ⟨rfl, rfl, by rintro _ ⟨⟩⟩
        · rcases List.mem_pair.mp last with rfl | rfl <;> exact ⟨rfl, rfl, by rintro _ ⟨⟩⟩)
    (unrelated_execution _ _ _) with ⟨q, applied, keeps⟩
  refine ⟨q, ?_, keeps.trans ?_⟩
  · rw [← applied, List.cons_append, List.append_assoc]
    rfl
  · rw [queued, chosen, Admission.Unbound]
    cases reused : p.reusableGeneration p.thread.providerInstanceId p.thread.modelSelection
        (p.lastRunOrdinal + 1) p.answerDriver with
    | some found =>
        exact and_iff_left (agrees_of_stored (get_of_reusableGeneration reused))
    | none =>
        rw [Option.map_none, Option.getD_none, unbinding_new rfl]
        apply and_congr_right
        intro _
        constructor
        · intro agrees old found
          rcases agrees old found with ⟨owner, last⟩
          exact ⟨owner.symm, last.symm⟩
        · intro agrees old found
          rcases agrees old found with ⟨owner, last⟩
          exact ⟨owner.symm, last.symm⟩

theorem planDelivery_keeps (now : Int) (busy : p.activeRun.isSome = true) (input : DeliveryInput) :
    ∃ q, p.applyAll now (p.planDelivery now input) = some q ∧ p.KeepsBinding q := by
  apply exists_keepsBinding
  intro event listed
  unfold planDelivery at listed
  split at listed
  · cases listed
  · split at listed
    · split at listed
      · split at listed
        · rcases List.mem_singleton.mp listed with rfl
          exact ⟨rfl, rfl, by rintro _ ⟨⟩⟩
        · cases listed
      · rw [queueDelivery, busy] at listed
        rcases List.mem_append.mp listed with execution | message
        · exact (unrelated_execution _ _ _ event execution).1
        · rw [List.mem_singleton.mp message]
          exact (unrelated_message _).1
    · cases listed

theorem syncLoro_keeps {driver : String} {previous rows : List QueuedMessage}
    (planned : p.syncLoro now driver previous rows = some events) :
    ∃ q, p.applyAll now events = some q ∧ p.KeepsBinding q := by
  apply exists_keepsBinding
  rcases of_syncLoro planned with ⟨_, threads, rfl, kept⟩
  intro event listed
  rcases List.mem_append.mp listed with about | own
  · have about := aboutRuns_intentEvents about
    refine ⟨about.provider, about.roster, ?_⟩
    intro thread brought
    rw [about.thread] at brought
    cases brought
  · rcases List.mem_map.mp own with ⟨row, row_listed, rfl⟩
    refine ⟨rfl, rfl, ?_⟩
    intro thread brought
    rcases Option.some.inj brought with rfl
    exact kept row row_listed

/-- A run that is queued leaves the binding of the running turn exactly if it is to go on in
the active conversation, or in one that the reducer does not bind. -/
theorem queueing_keeps_binding_iff {admission : Admission} (busy : p.activeRun.isSome = true)
    (planned : admission.plan p now = some events) :
    ∃ q, p.applyAll now events = some q ∧ (p.KeepsBinding q ↔ admission.Unbound p) := by
  cases admission with
  | send input => exact send_keeps_iff busy planned
  | delivery input =>
      rcases Option.some.inj planned with rfl
      rcases planDelivery_keeps now busy input with ⟨q, applied, keeps⟩
      exact ⟨q, applied, iff_of_true keeps trivial⟩
  | answer input =>
      rw [Admission.plan] at planned
      split at planned
      · cases planned
      · rcases Option.some.inj planned with rfl
        exact respond_keeps_iff busy input
  | sync driver previous rows =>
      rcases syncLoro_keeps planned with ⟨q, applied, keeps⟩
      exact ⟨q, applied, iff_of_true keeps trivial⟩

/-- A thread whose run is going on. -/
def atWork : ThreadProjection :=
  { afterTurn with runs := Table.empty.touch { ended with status := .running, completedAt := none } }

/-- A message for another instance. -/
def elsewhere : SendInput :=
  { messageId := "message:2", text := "hello", driver := "codex"
    modelSelection := some ⟨"codex", "gpt", ""⟩ }

/-- A message for the instance that is at work. -/
def onward : SendInput :=
  { messageId := "message:2", text := "hello", driver := "claudeAgent", modelSelection := none }

theorem queueing_keeps_binding_of_onward :
    ∃ events, (Admission.send onward).plan atWork 5 = some events ∧
      ∃ q, atWork.applyAll 5 events = some q ∧ atWork.KeepsBinding q := by
  have planned : ((Admission.send onward).plan atWork 5).isSome = true := by decide +kernel
  rcases Option.isSome_iff_exists.mp planned with ⟨events, planned⟩
  rcases queueing_keeps_binding_iff (by decide +kernel) planned with ⟨q, applied, keeps⟩
  refine ⟨events, planned, q, applied, keeps.mpr ?_⟩
  rw [Admission.Unbound]
  have reused : (atWork.reusableGeneration (atWork.selecting onward.modelSelection).providerInstanceId
      (atWork.selecting onward.modelSelection).modelSelection (atWork.lastRunOrdinal + 1)
      onward.driver).map (fun found => found.2.id) = some "provider:1" := by decide +kernel
  rcases Option.map_eq_some_iff.mp reused with ⟨found, generation, named⟩
  rw [generation]
  intro _ _
  exact congrArg some named.symm

/-- A queued message for another instance takes the thread's binding. -/
theorem queued_send_rebinds :
    ∃ events, (Admission.send elsewhere).plan atWork 5 = some events ∧
      atWork.activeRun.isSome = true ∧
      ∃ q, atWork.applyAll 5 events = some q ∧
        atWork.thread.activeProviderThreadId = some "provider:1" ∧
        q.thread.activeProviderThreadId = some "provider-thread:app:thread:codex:2" ∧
        ¬ atWork.KeepsBinding q := by
  have rebinds : ((Admission.send elsewhere).plan atWork 5).any (fun events =>
      (atWork.applyAll 5 events).any fun q =>
        decide (q.thread.activeProviderThreadId = some "provider-thread:app:thread:codex:2")) =
      true := by
    decide +kernel
  rcases (Option.any_eq_true _ _).mp rebinds with ⟨events, planned, rest⟩
  rcases (Option.any_eq_true _ _).mp rest with ⟨q, applied, active⟩
  have taken := of_decide_eq_true active
  refine ⟨events, planned, by decide +kernel, q, applied, rfl, taken, ?_⟩
  intro keeps
  have same := keeps.active
  rw [taken] at same
  exact absurd same (by decide +kernel)

end ThreadProjection

end Zeron.Threads
