import Zeron.Threads.Rows

/-!
# Background work and Stop

Work that a turn has left running in the background belongs to the provider's
process, and Stop is for the run that owns the process when no run is active.  The
selector goes by the latest run that is not queued, whether it has started or not.
-/

namespace Zeron.Threads

open Data

namespace ThreadProjection

/-- `within_run`. -/
def withinRun (p : ThreadProjection) (runId : Option String) (through : Int) : Bool :=
  runId.all fun id => (p.runs.get id).all fun run =>
    decide (run.ordinal ≤ through) && run.status != .rolledBack

/-- `active`, of an item. -/
def activeItem (item : TurnItem) : Bool :=
  ["pending", "running", "waiting"].contains item.status

/-- `active`, of a subagent. -/
def activeTask (task : Subagent) : Bool :=
  task.status == .pending || task.status == .running || task.status == .waiting

/-- `pending_item`. -/
def pendingItem (p : ThreadProjection) (through : Int) (item : TurnItem) : Bool :=
  ["command_execution", "dynamic_tool", "subagent"].contains item.type &&
    activeItem item && p.withinRun item.runId through &&
    !(item.type == "dynamic_tool" && item.persistent) &&
    !item.appOwned &&
    !(p.subagents.rows.any fun task =>
      task.origin == .appOwned && decide (some task.id = item.subagentId))

/-- `pending_native`. -/
def pendingNative (p : ThreadProjection) (through : Int) (task : Subagent) : Bool :=
  task.origin == .providerNative && activeTask task && p.withinRun task.runId through

/-- `provider_within`. -/
def providerWithin (through : Int) (provider : ProviderThread) : Bool :=
  provider.lastRunOrdinal.any fun ordinal => decide (ordinal ≤ through)

/-- `has_work`. -/
def hasWork (p : ThreadProjection) (through : Int) : Bool :=
  p.items.rows.any (p.pendingItem through) ||
    p.subagents.rows.any (p.pendingNative through) ||
    p.providerThreads.rows.any fun provider =>
      providerWithin through provider && !provider.pendingBackgroundTasks.isEmpty

/-- `settled_run`. -/
def settledRun (p : ThreadProjection) : Option Run :=
  if p.activeRun.isSome then none
  else
    (latest (p.orderedRuns.filter fun run => run.status != .queued)).filter fun run =>
      run.status.terminal && run.status != .rolledBack && p.hasWork run.ordinal

/-- `interruptible_run`. -/
def interruptibleRun (p : ThreadProjection) : Option Run :=
  p.activeRun.or p.settledRun

/-! ## Runs that never start -/

/-- The projection with further runs. -/
def withRuns (p : ThreadProjection) (added : List Run) : ThreadProjection :=
  { p with runs := p.runs.touchAll added }

/-- Runs that were queued, and were cancelled or are queued still: no record is of
one of them. -/
structure NeverStarted (p : ThreadProjection) (added : List Run) : Prop where
  fresh : ∀ run ∈ added, p.runs.get run.id = none
  distinct : (added.map Run.id).Nodup
  unstarted : ∀ run ∈ added, run.startedAt = none
  status : ∀ run ∈ added, run.status = .queued ∨ run.status = .cancelled
  items : ∀ item ∈ p.items.rows, ∀ run ∈ added, item.runId ≠ some run.id
  subagents : ∀ task ∈ p.subagents.rows, ∀ run ∈ added, task.runId ≠ some run.id

/-- The latest run that has started, which owns the provider's process. -/
structure LatestStarted (p : ThreadProjection) (run : Run) : Prop where
  stored : run ∈ p.runs.rows
  started : run.startedAt.isSome = true
  latest : ∀ other ∈ p.runs.rows, other.startedAt.isSome = true → rowKey other ≤ rowKey run

/-- Every run that has left the queue without a start comes before the run. -/
def UnstartedBefore (p : ThreadProjection) (run : Run) : Prop :=
  ∀ other ∈ p.runs.rows, other.startedAt = none → other.status ≠ .queued →
    rowKey other < rowKey run

variable {p : ThreadProjection} {added : List Run} {run : Run}

theorem activeRun_eq_none_iff :
    p.activeRun = none ↔
      ∀ run ∈ p.runs.rows, run.status.terminal = true ∨ run.status = .queued := by
  rw [activeRun, List.find?_eq_none]
  constructor
  · intro idle run stored
    have settled := idle run (List.mem_reverse.mpr (mem_orderedRuns.mpr stored))
    rw [Bool.and_eq_true, bne_iff_ne, Bool.not_eq_true', not_and_or, Bool.not_eq_false,
      not_not] at settled
    exact settled
  · intro settled run listed
    rw [Bool.and_eq_true, bne_iff_ne, Bool.not_eq_true', not_and_or, Bool.not_eq_false, not_not]
    exact settled run (mem_orderedRuns.mp (List.mem_reverse.mp listed))

theorem NeverStarted.mem_withRuns_iff (never : NeverStarted p added) :
    run ∈ (p.withRuns added).runs.rows ↔ run ∈ p.runs.rows ∨ run ∈ added :=
  Table.mem_touchAll_iff_of_fresh never.fresh never.distinct

theorem NeverStarted.idle (never : NeverStarted p added) (idle : p.activeRun = none) :
    (p.withRuns added).activeRun = none := by
  rw [activeRun_eq_none_iff] at idle ⊢
  intro run stored
  rcases never.mem_withRuns_iff.mp stored with before | later
  · exact idle run before
  · rcases never.status run later with queued | cancelled
    · exact .inr queued
    · rw [cancelled]
      exact .inl rfl

theorem withinRun_withRuns {runId : Option String}
    (apart : ∀ run ∈ added, runId ≠ some run.id) (through : Int) :
    (p.withRuns added).withinRun runId through = p.withinRun runId through := by
  cases runId with
  | none => rfl
  | some id =>
      have free : id ∉ added.map Run.id := by
        intro taken
        rcases List.mem_map.mp taken with ⟨run, listed, rfl⟩
        exact apart run listed rfl
      rw [ThreadProjection.withinRun, ThreadProjection.withinRun, withRuns,
        Option.all_some, Option.all_some, Table.get_touchAll_of_notMem free]

/-- Runs that never start bring no work and hide none. -/
theorem NeverStarted.hasWork (never : NeverStarted p added) (through : Int) :
    (p.withRuns added).hasWork through = p.hasWork through := by
  have items : p.items.rows.any ((p.withRuns added).pendingItem through) =
      p.items.rows.any (p.pendingItem through) := by
    rw [Bool.eq_iff_iff, List.any_eq_true, List.any_eq_true]
    apply exists_congr
    intro item
    apply and_congr_right
    intro stored
    rw [pendingItem, withinRun_withRuns (never.items item stored)]
    rfl
  have tasks : p.subagents.rows.any ((p.withRuns added).pendingNative through) =
      p.subagents.rows.any (p.pendingNative through) := by
    rw [Bool.eq_iff_iff, List.any_eq_true, List.any_eq_true]
    apply exists_congr
    intro task
    apply and_congr_right
    intro stored
    rw [pendingNative, pendingNative, withinRun_withRuns (never.subagents task stored)]
  rw [ThreadProjection.hasWork]
  exact congrArg₂ _ (congrArg₂ _ items tasks) rfl

/-! ## Stop's target -/

theorem interruptibleRun_of_idle (idle : p.activeRun = none) :
    p.interruptibleRun = some run ↔
      latest (p.orderedRuns.filter fun run => run.status != .queued) = some run ∧
        run.status.terminal = true ∧ run.status ≠ .rolledBack ∧ p.hasWork run.ordinal = true := by
  rw [interruptibleRun, settledRun, idle, Option.none_or, Option.isSome_none,
    if_neg Bool.false_ne_true, Option.filter_eq_some_iff, Bool.and_eq_true, Bool.and_eq_true,
    bne_iff_ne, and_assoc]

/-- The owner of the process is the target exactly if no run has left the queue after
it without a start. -/
theorem interruptibleRun_eq_owner_iff (idle : p.activeRun = none)
    (owner : p.LatestStarted run) (settled : run.status.terminal = true)
    (work : p.hasWork run.ordinal = true) :
    p.interruptibleRun = some run ↔ run.status ≠ .rolledBack ∧ p.UnstartedBefore run := by
  have not_queued : run.status ≠ .queued := by
    intro queued
    rw [queued] at settled
    cases settled
  rw [interruptibleRun_of_idle idle, latest_filter_eq_some_iff]
  constructor
  · rintro ⟨⟨_, _, last⟩, _, kept, _⟩
    refine ⟨kept, fun other stored unstarted left => ?_⟩
    apply lt_of_le_of_ne (last other stored (bne_iff_ne.mpr left))
    intro same
    have other_eq := rowKey_injOn stored owner.stored same
    have started := owner.started
    rw [← other_eq, unstarted] at started
    cases started
  · rintro ⟨kept, before⟩
    refine ⟨⟨owner.stored, bne_iff_ne.mpr not_queued, fun other stored left => ?_⟩, settled, kept,
      work⟩
    cases started : other.startedAt with
    | none => exact le_of_lt (before other stored started (bne_iff_ne.mp left))
    | some time =>
        apply owner.latest other stored
        rw [started]
        rfl

theorem LatestStarted.withRuns (owner : p.LatestStarted run) (never : NeverStarted p added) :
    (p.withRuns added).LatestStarted run := by
  refine ⟨never.mem_withRuns_iff.mpr (.inl owner.stored), owner.started, ?_⟩
  intro other stored started
  rcases never.mem_withRuns_iff.mp stored with before | later
  · exact owner.latest other before started
  · rw [never.unstarted other later] at started
    cases started

/-- Runs that never start leave Stop with the owner of the process exactly if all of
them that have left the queue come before it. -/
theorem stop_keeps_owner_iff (never : NeverStarted p added) (idle : p.activeRun = none)
    (owner : p.LatestStarted run) (settled : run.status.terminal = true)
    (work : p.hasWork run.ordinal = true) :
    ((p.withRuns added).interruptibleRun = p.interruptibleRun ∧
        p.interruptibleRun = some run) ↔
      run.status ≠ .rolledBack ∧ (p.withRuns added).UnstartedBefore run := by
  have with_added := interruptibleRun_eq_owner_iff (never.idle idle) (owner.withRuns never) settled
    (by rw [never.hasWork]; exact work)
  have without := interruptibleRun_eq_owner_iff idle owner settled work
  constructor
  · rintro ⟨same, target⟩
    exact with_added.mp (same.trans target)
  · intro before
    have target : p.interruptibleRun = some run := by
      apply without.mpr
      refine ⟨before.1, fun other stored => ?_⟩
      exact before.2 other (never.mem_withRuns_iff.mpr (.inl stored))
    exact ⟨(with_added.mpr before).trans target.symm, target⟩

/-- A run that has ended and left a shell running. -/
def ended : Run :=
  { id := "run:1"
    ordinal := 1
    providerInstanceId := "claude"
    modelSelection := ⟨"claude", "opus", ""⟩
    providerThreadId := some "provider:1"
    userMessageId := "message:1"
    rootNodeId := some "node:1"
    activeAttemptId := some "attempt:1"
    status := .completed
    queuePosition := none
    queueHeld := none
    startedAt := some 1
    completedAt := some 2
    restartCancelledBackgroundWork := none
    delegatedCompletion := none }

/-- A run behind it in the queue. -/
def behind (status : Orchestration.RunStatus) : Run :=
  { ended with
    id := "run:2"
    ordinal := 2
    userMessageId := "message:2"
    rootNodeId := some "node:2"
    activeAttemptId := some "attempt:2"
    status := status
    startedAt := none
    completedAt := none }

/-- The thread of the run that has ended. -/
def afterTurn : ThreadProjection :=
  { thread :=
      { id := "thread"
        providerInstanceId := "claude"
        modelSelection := ⟨"claude", "opus", ""⟩
        activeProviderThreadId := some "provider:1"
        worktreePath := none
        updatedAt := 2
        archivedAt := none
        deletedAt := none
        settledOverride := none
        settledAt := none
        unsettledAt := none
        snoozedUntil := none
        snoozedAt := none }
    runs := Table.empty.touch ended
    attempts := Table.empty
    nodes := Table.empty
    requests := Table.empty
    sessions := Table.empty
    turns := Table.empty
    subagents := Table.empty
    providerThreads := Table.empty.touch
      { id := "provider:1"
        driver := "claudeAgent"
        providerInstanceId := "claude"
        providerSessionId := some "session:1"
        appThreadId := some "thread"
        ownerNodeId := some "node:1"
        nativeThreadRef := some "native"
        status := .idle
        firstRunOrdinal := some 1
        lastRunOrdinal := some 1
        pendingBackgroundTasks := [⟨.command, "shell", none⟩]
        createdAt := 1
        updatedAt := 2 }
    messages := Table.empty
    items := Table.empty }

theorem latestStarted_ended : afterTurn.LatestStarted ended := by
  refine ⟨by decide +kernel, rfl, ?_⟩
  intro other stored _
  rw [show afterTurn.runs.rows = [ended] from rfl, List.mem_singleton] at stored
  rw [stored]

theorem neverStarted_behind (status : Orchestration.RunStatus)
    (left : status = .queued ∨ status = .cancelled) :
    NeverStarted afterTurn [behind status] := by
  constructor
  · intro run listed
    rw [List.mem_singleton] at listed
    rw [listed]
    rfl
  · exact List.nodup_singleton _
  · intro run listed
    rw [List.mem_singleton] at listed
    rw [listed]
    rfl
  · intro run listed
    rw [List.mem_singleton] at listed
    rw [listed]
    exact left
  · rintro item stored
    cases stored
  · rintro task stored
    cases stored

/-- A queued run does not take the target. -/
theorem stop_keeps_owner_of_queued :
    (afterTurn.withRuns [behind .queued]).interruptibleRun = afterTurn.interruptibleRun ∧
      afterTurn.interruptibleRun = some ended := by
  apply (stop_keeps_owner_iff (neverStarted_behind .queued (.inl rfl)) (by decide +kernel)
    latestStarted_ended rfl (by decide +kernel)).mpr
  constructor
  · decide
  · intro other stored unstarted left
    rcases (neverStarted_behind .queued (.inl rfl)).mem_withRuns_iff.mp stored with before | later
    · rw [show afterTurn.runs.rows = [ended] from rfl, List.mem_singleton] at before
      rw [before] at unstarted
      cases unstarted
    · rw [List.mem_singleton] at later
      rw [later] at left
      exact absurd rfl left

/-- A run that is cancelled in the queue takes the target from the owner of the process. -/
theorem cancelled_run_takes_stop :
    NeverStarted afterTurn [behind .cancelled] ∧ afterTurn.activeRun = none ∧
      afterTurn.LatestStarted ended ∧ ended.status.terminal = true ∧
      afterTurn.hasWork ended.ordinal = true ∧
      afterTurn.interruptibleRun = some ended ∧
      (afterTurn.withRuns [behind .cancelled]).interruptibleRun = some (behind .cancelled) :=
  ⟨neverStarted_behind .cancelled (.inr rfl), by decide +kernel, latestStarted_ended, rfl,
    by decide +kernel, by decide +kernel, by decide +kernel⟩

end ThreadProjection

end Zeron.Threads
