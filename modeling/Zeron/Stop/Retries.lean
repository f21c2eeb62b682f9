import Zeron.Orchestration.Store
import Zeron.Stop.Covered

/-!
# Retries of a Stop

A request to stop a thread's work freezes its steps, and every call of the same request issues
them again under the same ids.  Between the steps the host does whatever other work there is.
-/

namespace Zeron.Stop

open Data Threads Transition

/-- `request_key`. -/
def requestKey (thread request : String) : String :=
  "ui:stop-all:" ++ Orchestration.encodeComponent thread ++ ":" ++
    Orchestration.encodeComponent request

/-- `step_id`. -/
def stepId (thread request : String) (index : Nat) : String :=
  "command:user-stop-all:" ++ Orchestration.encodeComponent thread ++ ":" ++
    Orchestration.encodeComponent request ++ ":" ++ toString index

/-- A call of `stop_thread_work`, with the plan it holds. -/
structure Call where
  thread : String
  request : String
  steps : List Step
  deriving DecidableEq, Repr

/-- A run that a step has interrupted. -/
structure Interruption where
  thread : String
  request : String
  commandId : String
  target : String
  runId : String
  deriving DecidableEq, Repr

/-- The host.  Of a receipt only the answer is kept, and of the interruptions a record. -/
structure Host where
  threads : Threads
  requests : List (String × List Step)
  receipts : List (String × Bool)
  calls : List Call
  interruptions : List Interruption

namespace Host

/-- `reserve_request`, with what it answers. -/
def reserveRequest (host : Host) (key : String) (payload : List Step) : Bool × Host :=
  match host.requests.lookup key with
  | some previous => (previous == payload, host)
  | none => (true, { host with requests := (key, payload) :: host.requests })

/-- The thread that a Stop may start from. -/
def stoppable (host : Host) (thread : String) : Except StopError PUnit :=
  match host.threads thread with
  | none => .error .notFound
  | some stored =>
      if stored.projection.thread.deletedAt.isSome then .error .notFound
      else if stored.projection.thread.archivedAt.isSome then .error .notInterruptible
      else if stored.relationshipToParent == some "subagent" then .error .delegatedTask
      else .ok ⟨⟩

/-- `frozen_plan`. -/
def frozenPlan (host : Host) (thread request : String) : Except StopError (List Step × Host) :=
  match host.requests.lookup (requestKey thread request) with
  | some stored => .ok (stored, host)
  | none => do
      host.stoppable thread
      let steps ← collect host.threads thread
      let reserved := host.reserveRequest (requestKey thread request) steps
      if reserved.1 then return (steps, reserved.2) else throw .differentWork

/-- `find_task`. -/
def findTask (parent : StoredThread) (taskId : String) : Option Subagent :=
  parent.projection.subagents.rows.find? fun task =>
    task.id == taskId && task.origin == .appOwned &&
      (parent.delegation task.id).threadId == some parent.projection.thread.id &&
      (parent.delegation task.id).childThreadId.isSome

/-- The run of the plan of `TaskOperation::Cancel`. -/
def cancelled (host : Host) (parent taskId child runId : String) : Option Run := do
  let owner ← host.threads parent
  let task ← findTask owner taskId
  if (owner.delegation task.id).childThreadId != some child ||
      (owner.delegation task.id).result.isSome then none
  else
    let stored ← host.threads child
    stored.projection.activeRun.filter fun run => run.id == runId

/-- The run of the plan of `ThreadOperation::Interrupt`. -/
def interrupted (host : Host) (thread runId : String) : Option Run := do
  let stored ← host.threads thread
  let run ← stored.projection.interruptibleRun.filter fun run => run.id == runId
  if (stored.projection.nodes.rows.any fun node => some node.id == run.rootNodeId) &&
      stored.projection.providerThreads.rows.any fun provider =>
        some provider.id == run.providerThreadId
  then some run
  else none

/-- The run that a step interrupts. -/
def fenced (host : Host) : Step → Option Run
  | .cancel parent taskId child runId => host.cancelled parent taskId child runId
  | .interrupt thread runId => host.interrupted thread runId

/-- `dispatch` of a step.  The planners may refuse it for a further reason, and an accepted
one leaves the threads as they are afterwards. -/
def dispatch (host : Host) (call : Call) (index : Nat) (step : Step) (passes : Bool)
    (after : Threads) : Host :=
  let id := stepId call.thread call.request index
  match host.receipts.lookup id with
  | some _ => host
  | none =>
      match (host.fenced step).filter fun _ => passes with
      | none => { host with receipts := (id, false) :: host.receipts }
      | some run => { host with
          threads := after
          receipts := (id, true) :: host.receipts
          interruptions := host.interruptions ++ [{
            thread := call.thread
            request := call.request
            commandId := id
            target := step.target
            runId := run.id }] }

end Host

/-- What happens on the host. -/
inductive Event where
  /-- Any other work on the threads. -/
  | work (after : Threads)
  /-- A call of `stop_thread_work` reads its plan. -/
  | call (thread request : String)
  /-- A call dispatches a step of its plan. -/
  | dispatch (call index : Nat) (passes : Bool) (after : Threads)

/-- One event.  A call that is refused leaves nothing behind. -/
def step : Transition.Step Host Event
  | host, .work after => some { host with threads := after }
  | host, .call thread request =>
      match host.frozenPlan thread request with
      | .error _ => some host
      | .ok (steps, next) =>
          some { next with calls := next.calls ++ [{ thread, request, steps }] }
  | host, .dispatch call index passes after => do
      let issuing ← host.calls[call]?
      let step ← issuing.steps[index]?
      return host.dispatch issuing index step passes after

/-- A host without any request for a Stop. -/
def Host.initial (threads : Threads) : Host where
  threads := threads
  requests := []
  receipts := []
  calls := []
  interruptions := []

/-- The thread holds the run. -/
def Holds (threads : Threads) (thread runId : String) : Prop :=
  ∃ stored, threads thread = some stored ∧ ∃ run ∈ stored.projection.runs.rows, run.id = runId

/-- What the calls of one request have done since the first of them. -/
structure Repeats (first : Threads) (thread request : String) (steps : List Step) (final : Host) :
    Prop where
  /-- Every call issues the steps of the first one. -/
  same : ∀ call ∈ final.calls, call.thread = thread → call.request = request →
    call.steps = steps
  /-- A run that the request interrupts was there at the first call. -/
  earlier : ∀ hit ∈ final.interruptions, hit.thread = thread → hit.request = request →
    Holds first hit.target hit.runId
  /-- A step takes effect once. -/
  once : (final.interruptions.map Interruption.commandId).Nodup

/-- Whatever happens between them, the calls of a request repeat the first one that is
answered with a plan. -/
def RetriesRepeat : Prop :=
  ∀ {threads : Threads} {before later : List Event} {thread request : String}
    {host next final : Host} {steps : List Step},
    run step (Host.initial threads) before = some host →
    host.requests.lookup (requestKey thread request) = none →
    step host (.call thread request) = some next →
    next.requests.lookup (requestKey thread request) = some steps →
    run step next later = some final →
    Repeats host.threads thread request steps final

/-! ## What one event can do -/

variable {host next : Host} {event : Event} {key thread request : String} {steps : List Step}

theorem frozenPlan_cases (planned : host.frozenPlan thread request = .ok (steps, next)) :
    (host.requests.lookup (requestKey thread request) = some steps ∧ next = host) ∨
      (host.requests.lookup (requestKey thread request) = none ∧
        collect host.threads thread = .ok steps ∧
        next = { host with requests := (requestKey thread request, steps) :: host.requests }) := by
  rw [Host.frozenPlan] at planned
  cases kept : host.requests.lookup (requestKey thread request) with
  | some stored =>
      rw [kept] at planned
      cases planned
      exact .inl ⟨rfl, rfl⟩
  | none =>
      rw [kept] at planned
      cases allowed : host.stoppable thread with
      | error error =>
          rw [allowed] at planned
          cases planned
      | ok allowed_unit =>
          cases walked : collect host.threads thread with
          | error error =>
              rw [allowed, walked] at planned
              cases planned
          | ok collected =>
              rw [allowed, walked] at planned
              simp only [Host.reserveRequest, kept] at planned
              rcases planned with ⟨rfl, rfl⟩
              exact .inr ⟨rfl, rfl, rfl⟩

/-- A step interrupts no other run than the one that it pins. -/
theorem runId_of_fenced {step : Step} {run : Run} (hit : host.fenced step = some run) :
    run.id = step.runId := by
  cases step with
  | cancel parent taskId child runId =>
      simp only [Host.fenced, Host.cancelled, Option.bind_eq_bind, Option.bind_eq_some_iff] at hit
      rcases hit with ⟨owner, _, task, _, hit⟩
      split at hit
      · cases hit
      · rcases Option.bind_eq_some_iff.mp hit with ⟨stored, _, found⟩
        exact beq_iff_eq.mp (Option.filter_eq_some_iff.mp found).2
  | interrupt thread runId =>
      simp only [Host.fenced, Host.interrupted, Option.bind_eq_bind, Option.bind_eq_some_iff] at hit
      rcases hit with ⟨stored, _, found, filtered, bound⟩
      split at bound
      · cases bound
        exact beq_iff_eq.mp (Option.filter_eq_some_iff.mp filtered).2
      · cases bound

theorem dispatch_cases (host : Host) (call : Call) (index : Nat) (step : Step) (passes : Bool)
    (after : Threads) :
    host.dispatch call index step passes after = host ∨
      host.receipts.lookup (stepId call.thread call.request index) = none ∧
        (host.dispatch call index step passes after =
            { host with
              receipts := (stepId call.thread call.request index, false) :: host.receipts } ∨
          host.dispatch call index step passes after =
            { host with
              threads := after
              receipts := (stepId call.thread call.request index, true) :: host.receipts
              interruptions := host.interruptions ++ [{
                thread := call.thread
                request := call.request
                commandId := stepId call.thread call.request index
                target := step.target
                runId := step.runId }] }) := by
  rw [Host.dispatch]
  cases answered : host.receipts.lookup (stepId call.thread call.request index) with
  | some accepted => exact .inl rfl
  | none =>
      refine .inr ⟨rfl, ?_⟩
      cases hit : (host.fenced step).filter fun _ => passes with
      | none => exact .inl rfl
      | some run =>
          right
          dsimp only
          rw [runId_of_fenced (Option.filter_eq_some_iff.mp hit).1]

/-! ## What every event keeps -/

/-- Calls hold the plans of their requests, and what has been interrupted was in a plan. -/
structure Sound (host : Host) : Prop where
  calls : ∀ call ∈ host.calls,
    host.requests.lookup (requestKey call.thread call.request) = some call.steps
  planned : ∀ hit ∈ host.interruptions, ∃ steps,
    host.requests.lookup (requestKey hit.thread hit.request) = some steps ∧
      ∃ step ∈ steps, step.target = hit.target ∧ step.runId = hit.runId
  answered : ∀ hit ∈ host.interruptions, (host.receipts.lookup hit.commandId).isSome = true
  once : (host.interruptions.map Interruption.commandId).Nodup

theorem sound_initial (threads : Threads) : Sound (Host.initial threads) where
  calls := by simp [Host.initial]
  planned := by simp [Host.initial]
  answered := by simp [Host.initial]
  once := List.nodup_nil

theorem lookup_cons_kept {value : List Step} {plan : List Step}
    (free : host.requests.lookup key = none) {other : String}
    (kept : host.requests.lookup other = some value) :
    ((key, plan) :: host.requests).lookup other = some value := by
  rw [List.lookup_cons]
  cases same : other == key with
  | true =>
      rw [beq_iff_eq.mp same, free] at kept
      cases kept
  | false => exact kept

/-- A frozen plan stays, and a new one is of the threads as they are. -/
theorem frozen_step (took : step host event = some next)
    (frozen : host.requests.lookup key = some steps) :
    next.requests.lookup key = some steps := by
  cases event with
  | work after =>
      cases took
      exact frozen
  | call thread request =>
      rw [step] at took
      cases planned : host.frozenPlan thread request with
      | error error =>
          rw [planned] at took
          cases took
          exact frozen
      | ok made =>
          rw [planned] at took
          cases took
          rcases frozenPlan_cases planned with ⟨_, same⟩ | ⟨free, _, grown⟩
          · rw [same]
            exact frozen
          · rw [grown]
            exact lookup_cons_kept free frozen
  | dispatch call index passes after =>
      simp only [step, Option.bind_eq_bind, Option.bind_eq_some_iff] at took
      rcases took with ⟨issuing, _, issued, _, done⟩
      cases done
      rcases dispatch_cases host issuing index issued passes after with
        same | ⟨_, refused | accepted⟩
      · rw [same]
        exact frozen
      · rw [refused]
        exact frozen
      · rw [accepted]
        exact frozen

theorem Sound.step (sound : Sound host) (took : step host event = some next) : Sound next := by
  have kept : ∀ {key steps}, host.requests.lookup key = some steps →
      next.requests.lookup key = some steps := frozen_step took
  cases event with
  | work after =>
      cases took
      exact ⟨sound.calls, sound.planned, sound.answered, sound.once⟩
  | call thread request =>
      rw [Stop.step] at took
      cases planned : host.frozenPlan thread request with
      | error error =>
          rw [planned] at took
          cases took
          exact sound
      | ok made =>
          rw [planned] at took
          cases took
          have others : made.2.interruptions = host.interruptions ∧
              made.2.receipts = host.receipts ∧ made.2.calls = host.calls ∧
              made.2.requests.lookup (requestKey thread request) = some made.1 := by
            rcases frozenPlan_cases planned with ⟨found, same⟩ | ⟨_, _, grown⟩
            · rw [same]
              exact ⟨rfl, rfl, rfl, found⟩
            · rw [grown]
              exact ⟨rfl, rfl, rfl, List.lookup_cons_self⟩
          rcases others with ⟨hits_eq, receipts_eq, calls_eq, frozen⟩
          constructor
          case calls =>
            intro call listed
            rcases List.mem_append.mp listed with before | new
            · rw [calls_eq] at before
              exact kept (sound.calls call before)
            · rw [List.mem_singleton.mp new]
              exact frozen
          case planned =>
            intro hit listed
            rcases sound.planned hit (hits_eq ▸ listed) with ⟨steps, found, step_in⟩
            exact ⟨steps, kept found, step_in⟩
          case answered =>
            intro hit listed
            rw [receipts_eq]
            exact sound.answered hit (hits_eq ▸ listed)
          case once =>
            rw [hits_eq]
            exact sound.once
  | dispatch call index passes after =>
      simp only [Stop.step, Option.bind_eq_bind, Option.bind_eq_some_iff] at took
      rcases took with ⟨issuing, issuing_at, issued, issued_at, done⟩
      cases done
      have issuing_frozen := sound.calls issuing (List.mem_of_getElem? issuing_at)
      have recorded : ∀ {id : String} {answer : Bool},
          host.receipts.lookup (stepId issuing.thread issuing.request index) = none →
          (host.receipts.lookup id).isSome = true →
          (((stepId issuing.thread issuing.request index, answer) :: host.receipts).lookup
            id).isSome = true := by
        intro id answer _ known
        rw [List.lookup_cons]
        cases id == stepId issuing.thread issuing.request index with
        | true => rfl
        | false => exact known
      rcases dispatch_cases host issuing index issued passes after with
        same | ⟨free, refused | accepted⟩
      · rw [same]
        exact sound
      · rw [refused]
        exact ⟨sound.calls, sound.planned, fun hit listed =>
          recorded free (sound.answered hit listed), sound.once⟩
      · rw [accepted]
        constructor
        case calls => exact sound.calls
        case planned =>
          intro hit listed
          rcases List.mem_append.mp listed with before | new
          · exact sound.planned hit before
          · rw [List.mem_singleton.mp new]
            exact ⟨issuing.steps, issuing_frozen, issued, List.mem_of_getElem? issued_at, rfl, rfl⟩
        case answered =>
          intro hit listed
          rcases List.mem_append.mp listed with before | new
          · exact recorded free (sound.answered hit before)
          · rw [List.mem_singleton.mp new]
            rw [List.lookup_cons_self]
            rfl
        case once =>
          rw [List.map_append, List.nodup_append]
          refine ⟨sound.once, List.nodup_singleton _, ?_⟩
          intro id listed new new_listed same
          rcases List.mem_map.mp listed with ⟨hit, hit_in, rfl⟩
          have known := sound.answered hit hit_in
          rw [same, List.mem_singleton.mp new_listed, free] at known
          cases known

theorem frozen_run {events : List Event} (frozen : host.requests.lookup key = some steps)
    (ran : run step host events = some next) : next.requests.lookup key = some steps := by
  have kept : ∀ {before after : Host} {event : Event},
      before.requests.lookup key = some steps → step before event = some after →
        after.requests.lookup key = some steps :=
    fun frozen took => frozen_step took frozen
  exact run_invariant kept frozen ran

/-! ## Retries -/

/-- The runs that a plan pins are there when it is made. -/
theorem holds_of_planned {read : Threads} {root : String}
    (planned : collect read root = .ok steps) {step : Step} (listed : step ∈ steps) :
    Holds read step.target step.runId := by
  rcases (mem_collect planned listed).2 with ⟨run, runs, pinned⟩
  rcases Option.bind_eq_some_iff.mp runs with ⟨stored, found, interruptible⟩
  refine ⟨stored, found, run, ?_, pinned.symm⟩
  rcases Option.or_eq_some_iff.mp interruptible with active | ⟨_, settled⟩
  · have held := List.mem_of_find?_eq_some active
    exact ThreadProjection.mem_orderedRuns.mp (List.mem_reverse.mp held)
  · rw [ThreadProjection.settledRun] at settled
    split at settled
    · cases settled
    · have newest := (Option.filter_eq_some_iff.mp settled).1
      exact (ThreadProjection.latest_filter_eq_some_iff.mp newest).1

/-- The calls of a request repeat the first one. -/
theorem retriesRepeat : RetriesRepeat := by
  intro threads before later thread request host next final steps began unasked first frozen ran
  have sound : Sound host := run_invariant Sound.step (sound_initial threads) began
  have sound_final : Sound final := run_invariant Sound.step (sound.step first) ran
  have frozen_final : final.requests.lookup (requestKey thread request) = some steps :=
    frozen_run frozen ran
  have planned : collect host.threads thread = .ok steps := by
    rw [step] at first
    cases made : host.frozenPlan thread request with
    | error error =>
        rw [made] at first
        cases first
        rw [unasked] at frozen
        cases frozen
    | ok result =>
        rw [made] at first
        cases first
        rcases frozenPlan_cases made with ⟨found, _⟩ | ⟨_, collected, grown⟩
        · rw [unasked] at found
          cases found
        · rw [grown] at frozen
          rw [List.lookup_cons_self] at frozen
          cases frozen
          exact collected
  constructor
  case same =>
    rintro call listed rfl rfl
    have held := sound_final.calls call listed
    rw [frozen_final] at held
    exact (Option.some.inj held).symm
  case earlier =>
    rintro hit listed rfl rfl
    rcases sound_final.planned hit listed with ⟨plan, found, step, step_in, target_eq, run_eq⟩
    rw [frozen_final] at found
    cases found
    rw [← target_eq, ← run_eq]
    exact holds_of_planned planned step_in
  case once => exact sound_final.once

/-! ## Stop -/

/-- A Stop covers the delegation tree, whatever runs its threads have, and its retries repeat
it, exactly if the delegated tasks do make a tree. -/
theorem stop_covers_iff_treelike (read : Threads) (root : String) :
    ((∀ other, SameTasks read other → Answers other root) ∧ RetriesRepeat) ↔
      Treelike read root := by
  constructor
  · rintro ⟨promised, _⟩
    exact answers_iff_treelike.mp promised
  · intro tree
    exact ⟨answers_iff_treelike.mpr tree, retriesRepeat⟩

/-- A task under way. -/
def delegatedTask (id : String) : Subagent where
  id := id
  runId := none
  origin := .appOwned
  providerThreadId := none
  prompt := ""
  title := none
  status := .running
  completedAt := none
  updatedAt := 2

/-- Two tasks of one thread share the thread that they run in. -/
def sharedChild : Threads := fun id =>
  if id = "root" then some {
    projection := { ThreadProjection.afterTurn with
      runs := Table.empty
      subagents := (Table.empty.touch (delegatedTask "task:1")).touch (delegatedTask "task:2") }
    delegation := fun _ =>
      { threadId := some "root", childThreadId := some "child", result := none }
    relationshipToParent := none }
  else if id = "child" then some {
    projection := { ThreadProjection.afterTurn with
      runs := Table.empty.touch { ThreadProjection.ended with status := .running } }
    delegation := fun _ => { threadId := none, childThreadId := none, result := none }
    relationshipToParent := some "subagent" }
  else none

theorem shared_child_is_named_twice :
    collect sharedChild "root" =
        .ok [.cancel "root" "task:1" "child" "run:1", .cancel "root" "task:2" "child" "run:1"] ∧
      ¬Answers sharedChild "root" := by
  have planned : collect sharedChild "root" =
      .ok [.cancel "root" "task:1" "child" "run:1", .cancel "root" "task:2" "child" "run:1"] := by
    decide +kernel
  refine ⟨planned, ?_⟩
  intro answers
  exact absurd answers.once (by decide)

end Zeron.Stop
