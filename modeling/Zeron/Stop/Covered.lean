import Zeron.Data.Walk
import Zeron.Threads.Background

/-!
# The plan of a whole-thread Stop

A Stop covers the thread's own work and the delegated tasks beneath it.  The planner follows
the unfinished tasks that the threads' own records name, from the thread downward, and lists
one step for each.
-/

namespace Zeron.Stop

open Data Threads

/-- What a subagent's record says of the thread it runs in. -/
structure Delegation where
  threadId : Option String
  childThreadId : Option String
  result : Option String
  deriving DecidableEq, Repr

/-- A thread as `read_thread` reads it.  The delegations go by the ids of the subagents. -/
structure StoredThread where
  projection : ThreadProjection
  delegation : String → Delegation
  relationshipToParent : Option String

/-- What is stored, by the ids of the threads. -/
abbrev Threads := String → Option StoredThread

/-- `Step`. -/
inductive Step where
  | cancel (parent taskId child runId : String)
  | interrupt (thread runId : String)
  deriving DecidableEq, Repr

namespace Step

/-- The thread whose run the step is to stop. -/
def target : Step → String
  | cancel _ _ child _ => child
  | interrupt thread _ => thread

/-- The run that the step pins. -/
def runId : Step → String
  | cancel _ _ _ runId => runId
  | interrupt _ runId => runId

end Step

/-- A task that Stop follows. -/
structure Edge where
  parent : String
  taskId : String
  child : String
  deriving DecidableEq, Repr

/-- `MAX_DEPTH`. -/
def maxDepth : Nat := 8

/-- `MAX_TARGETS`. -/
def maxTargets : Nat := 64

/-- The messages of the planner. -/
inductive StopError where
  /-- `Too many delegated tasks to stop in one request.` -/
  | tooManyTasks
  /-- `The thread was not found.` -/
  | notFound
  /-- `Thread is not interruptible.` -/
  | notInterruptible
  /-- `Stop a delegated task from the thread that owns it.` -/
  | delegatedTask
  /-- `This stop request already belongs to different work.` -/
  | differentWork
  deriving DecidableEq, Repr

/-- The test of a record: an unfinished task of the thread's own. -/
def followed (stored : StoredThread) (thread : String) (task : Subagent) : Option Edge :=
  let delegation := stored.delegation task.id
  delegation.childThreadId.bind fun child =>
    if task.origin != .appOwned || delegation.threadId != some thread ||
        delegation.result.isSome || task.status.terminal then none
    else some { parent := thread, taskId := task.id, child }

/-- The step for a task whose thread is stored. -/
def stepFor (edge : Edge) (child : StoredThread) : Option Step :=
  match child.projection.activeRun with
  | some run => some (.cancel edge.parent edge.taskId edge.child run.id)
  | none => child.projection.settledRun.map fun run => .interrupt edge.child run.id

/-- What the visits share. -/
structure Visit where
  seen : List String
  steps : List Step
  deriving DecidableEq, Repr

variable {edge : Edge}

section

variable (read : Threads)

/-- The end of the loop's body: the step of a task, after the visit of its thread. -/
def addStep (steps : List Step) (edge : Edge) : Except StopError (List Step) :=
  match read edge.child with
  | none => .ok steps
  | some child =>
      if steps.length ≥ maxTargets then .error .tooManyTasks
      else .ok (steps ++ (stepFor edge child).toList)

/-- The loop's body, over the visit of the task's thread. -/
def followTask (below : String → Visit → Except StopError Visit) (stored : StoredThread)
    (thread : String) (state : Visit) (task : Subagent) : Except StopError Visit :=
  match followed stored thread task with
  | none => .ok state
  | some edge => do
      let state ← below edge.child state
      let steps ← addStep read state.steps edge
      return { state with steps }

/-- `visit`, by the levels that are left: none from `MAX_DEPTH + 1` on. -/
def visit : Nat → String → Visit → Except StopError Visit
  | 0, _, state => .ok state
  | left + 1, thread, state =>
      if thread ∈ state.seen then .ok state
      else
        let entered := { state with seen := thread :: state.seen }
        match read thread with
        | none => .ok entered
        | some stored =>
            stored.projection.subagents.rows.foldlM (followTask read (visit left) stored thread)
              entered

/-- The last step: the thread's own work. -/
def ownStep (root : String) : Option Step :=
  (read root).bind fun stored =>
    stored.projection.interruptibleRun.map fun run => .interrupt root run.id

/-- `collect`. -/
def collect (root : String) : Except StopError (List Step) := do
  let walked ← visit read (maxDepth + 1) root { seen := [], steps := [] }
  return walked.steps ++ (ownStep read root).toList

/-! ## The delegation graph -/

/-- The tasks that lead on from a thread. -/
def tasks (thread : String) : List Edge :=
  (read thread).elim [] fun stored =>
    stored.projection.subagents.rows.filterMap (followed stored thread)

/-- The thread is stored. -/
def stored (thread : String) : Bool :=
  (read thread).isSome

/-- The step of a task, if its thread has something to stop. -/
def stepOf (edge : Edge) : Option Step :=
  (read edge.child).bind (stepFor edge)

/-- The thread is beneath the root by a chain of tasks that the planner's depth admits. -/
def Beneath (root thread : String) : Prop :=
  ∃ length ≤ maxDepth, Chain (tasks read) Edge.child (length + 1) root thread

/-- The run of a thread that a Stop interrupts. -/
def interruptible (thread : String) : Option Run :=
  (read thread).bind fun stored => stored.projection.interruptibleRun

end

variable {read : Threads}

theorem tasks_of_not_stored {thread : String} (missing : stored read thread = false) :
    tasks read thread = [] := by
  rw [stored, Option.isSome_eq_false_iff, Option.isNone_iff_eq_none] at missing
  rw [tasks, missing, Option.elim_none]

theorem target_stepFor {child : StoredThread} {step : Step}
    (made : stepFor edge child = some step) :
    step.target = edge.child ∧
      ∃ run, child.projection.interruptibleRun = some run ∧ step.runId = run.id := by
  rw [stepFor] at made
  cases active : child.projection.activeRun with
  | some run =>
      rw [active] at made
      cases made
      exact ⟨rfl, run, by rw [ThreadProjection.interruptibleRun, active, Option.some_or], rfl⟩
  | none =>
      rw [active] at made
      rcases Option.map_eq_some_iff.mp made with ⟨run, settled, rfl⟩
      exact ⟨rfl, run, by rw [ThreadProjection.interruptibleRun, active, Option.none_or, settled],
        rfl⟩

/-- A task makes a step exactly if its thread has a run to stop. -/
theorem isSome_stepOf (read : Threads) (edge : Edge) :
    (stepOf read edge).isSome = (interruptible read edge.child).isSome := by
  rw [stepOf, interruptible]
  cases read edge.child with
  | none => rfl
  | some child =>
      rw [Option.bind_some, Option.bind_some, stepFor, ThreadProjection.interruptibleRun]
      cases child.projection.activeRun with
      | some run => rfl
      | none => rw [Option.none_or, Option.isSome_map]

theorem target_stepOf {step : Step} (made : stepOf read edge = some step) :
    step.target = edge.child ∧
      ∃ run, interruptible read edge.child = some run ∧ step.runId = run.id := by
  rcases Option.bind_eq_some_iff.mp made with ⟨child, found, step_made⟩
  rcases target_stepFor step_made with ⟨target_eq, run, run_eq, pinned⟩
  exact ⟨target_eq, run, by rw [interruptible, found, Option.bind_some, run_eq], pinned⟩

theorem ownStep_eq (root : String) :
    ownStep read root = (interruptible read root).map fun run => Step.interrupt root run.id := by
  rw [interruptible, Option.map_bind]
  rfl

/-! ## The visits walk the graph -/

/-- The steps of the edges that the walk lists. -/
theorem visit_eq_walk (left : Nat) (thread : String) (state : Visit) :
    visit read left thread state =
      ((walk (tasks read) Edge.child left thread state.seen).2.foldlM (addStep read)
          state.steps).map fun steps =>
        { seen := (walk (tasks read) Edge.child left thread state.seen).1, steps } := by
  induction left generalizing thread state with
  | zero => rfl
  | succ left ih =>
      have edges_eq : ∀ (stored : StoredThread) (rows : List Subagent) (state : Visit),
          rows.foldlM (followTask read (visit read left) stored thread) state =
            ((scan Edge.child (walk (tasks read) Edge.child left)
                (rows.filterMap (followed stored thread)) state.seen).2.foldlM (addStep read)
                  state.steps).map fun steps =>
              { seen := (scan Edge.child (walk (tasks read) Edge.child left)
                  (rows.filterMap (followed stored thread)) state.seen).1, steps } := by
        intro stored rows
        induction rows with
        | nil =>
            intro state
            rfl
        | cons row rows later =>
            intro state
            rw [List.foldlM_cons, followTask]
            cases leads : followed stored thread row with
            | none =>
                rw [List.filterMap_cons_none leads]
                exact later state
            | some edge =>
                rw [List.filterMap_cons_some leads, scan]
                dsimp only
                rw [ih, List.foldlM_append]
                cases (walk (tasks read) Edge.child left edge.child state.seen).2.foldlM
                  (addStep read) state.steps with
                | error error => rfl
                | ok steps =>
                    simp only [Except.map, bind, Except.bind, List.foldlM_cons]
                    cases addStep read steps edge with
                    | error error => rfl
                    | ok more => exact later _
      rw [visit, walk]
      split
      · rfl
      · cases found : read thread with
        | none => simp [tasks, found, scan, Except.map, pure, Except.pure]
        | some stored =>
            rw [tasks, found]
            exact edges_eq stored _ _

end Zeron.Stop

/-!
## What the plan covers

The plan promises one step for each thread of the delegation tree that has a run to stop, and
the threads beneath one before it.  It keeps the promise whatever runs there are exactly if
the tasks do make a tree.
-/

namespace Zeron.Stop

open Data Threads

section

variable (read : Threads)

/-- The thread has a run to stop. -/
def busy (thread : String) : Bool :=
  (interruptible read thread).isSome

/-- The promise of a plan. -/
structure CoversTree (root : String) (steps : List Step) : Prop where
  once : (steps.map Step.target).Nodup
  complete : ∀ thread, thread = root ∨ Beneath read root thread → busy read thread = true →
    thread ∈ steps.map Step.target
  /-- The descendants within the depth come first, and the root comes last. -/
  before : ∀ {above below : Nat} {ancestor thread : String}, above + below ≤ maxDepth →
    Chain (tasks read) Edge.child above root ancestor →
    Chain (tasks read) Edge.child (below + 1) ancestor thread →
    busy read ancestor = true → busy read thread = true →
    [thread, ancestor].Sublist (steps.map Step.target)
  within : ∀ step ∈ steps, (step.target = root ∨ Beneath read root step.target) ∧
    ∃ run, interruptible read step.target = some run ∧ step.runId = run.id

/-- A refusal is for a tree that is too large. -/
def TooLarge (root : String) : Prop :=
  ∃ threads : List String, threads.Nodup ∧ maxTargets ≤ threads.length ∧
    ∀ thread ∈ threads, Beneath read root thread ∧ busy read thread = true

/-- The answer of the planner is as promised. -/
def Answers (root : String) : Prop :=
  match collect read root with
  | .ok steps => CoversTree read root steps
  | .error _ => TooLarge read root

/-- Within the depth, no stored thread is at the end of two chains of tasks, and none leads
back to the root. -/
def Treelike (root : String) : Prop :=
  (comesTo (stored read) Edge.child
    (unfolding (tasks read) Edge.child (maxDepth + 1) root) root).Nodup

/-- The same threads with the same tasks, whatever their runs are. -/
def SameTasks (other : Threads) : Prop :=
  ∀ thread, (other thread).map (fun stored => (stored.projection.subagents, stored.delegation)) =
    (read thread).map fun stored => (stored.projection.subagents, stored.delegation)

end

variable {read other : Threads} {root : String} {edge : Edge}

/-! ## The steps of the edges -/

variable {steps : List Step}

theorem addStep_ok {after : List Step} (added : addStep read steps edge = .ok after) :
    after = steps ++ (stepOf read edge).toList := by
  rw [addStep] at added
  rw [stepOf]
  cases found : read edge.child with
  | none =>
      rw [found] at added
      cases added
      rw [Option.bind_none, Option.toList_none, List.append_nil]
  | some child =>
      rw [found] at added
      dsimp only at added
      split at added
      · cases added
      · cases added
        rfl

theorem steps_ok {edges : List Edge} {after : List Step}
    (added : edges.foldlM (addStep read) steps = .ok after) :
    after = steps ++ edges.filterMap (stepOf read) := by
  induction edges generalizing steps with
  | nil =>
      cases added
      exact (List.append_nil _).symm
  | cons edge edges ih =>
      rw [List.foldlM_cons] at added
      cases first : addStep read steps edge with
      | error error =>
          rw [first] at added
          cases added
      | ok next =>
          rw [first] at added
          rw [ih added, addStep_ok first, List.append_assoc]
          cases made : stepOf read edge with
          | none => rw [List.filterMap_cons_none made, Option.toList_none, List.nil_append]
          | some step =>
              rw [List.filterMap_cons_some made, Option.toList_some, List.singleton_append]

variable {error : StopError}

/-- A refusal comes after as many steps as a plan may have. -/
theorem steps_error {edges : List Edge}
    (refused : edges.foldlM (addStep read) steps = .error error) :
    ∃ first : List Edge, first.Sublist edges ∧
      maxTargets ≤ (steps ++ first.filterMap (stepOf read)).length := by
  induction edges generalizing steps with
  | nil => cases refused
  | cons edge edges ih =>
      rw [List.foldlM_cons] at refused
      cases first : addStep read steps edge with
      | error error =>
          refine ⟨[], List.nil_sublist _, ?_⟩
          rw [List.filterMap_nil, List.append_nil]
          rw [addStep] at first
          cases found : read edge.child with
          | none =>
              rw [found] at first
              cases first
          | some child =>
              rw [found] at first
              dsimp only at first
              split at first
              · assumption
              · cases first
      | ok next =>
          rw [first] at refused
          rcases ih refused with ⟨later, sublist, many⟩
          refine ⟨edge :: later, sublist.cons_cons edge, ?_⟩
          rw [addStep_ok first, List.append_assoc] at many
          cases made : stepOf read edge with
          | none =>
              rw [made] at many
              rw [List.filterMap_cons_none made]
              exact many
          | some step =>
              rw [made] at many
              rw [List.filterMap_cons_some made]
              exact many

/-- The steps name the threads that are busy, in the order of the edges. -/
theorem targets_filterMap (edges : List Edge) :
    (edges.filterMap (stepOf read)).map Step.target =
      (edges.map Edge.child).filter (busy read) := by
  induction edges with
  | nil => rfl
  | cons edge edges ih =>
      have runs := isSome_stepOf read edge
      cases made : stepOf read edge with
      | none =>
          rw [made] at runs
          rw [List.filterMap_cons_none made, ih, List.map_cons, List.filter_cons_of_neg]
          rw [busy, ← runs]
          exact Bool.false_ne_true
      | some step =>
          rw [made] at runs
          rw [List.filterMap_cons_some made, List.map_cons, ih, List.map_cons,
            List.filter_cons_of_pos, (target_stepOf made).1]
          rw [busy, ← runs]
          rfl

theorem targets_ownStep (root : String) :
    (ownStep read root).toList.map Step.target = [root].filter (busy read) := by
  rw [ownStep_eq]
  cases found : interruptible read root with
  | none => simp [busy, found]
  | some run => simp [busy, found, Step.target]

theorem stored_of_busy {thread : String} (runs : busy read thread = true) :
    stored read thread = true := by
  rw [busy, interruptible] at runs
  rw [stored]
  cases found : read thread with
  | none =>
      rw [found] at runs
      cases runs
  | some stored => rfl

/-- Only stored threads are busy. -/
theorem filter_stored_busy (threads : List String) :
    (threads.filter (stored read)).filter (busy read) = threads.filter (busy read) := by
  rw [List.filter_filter]
  apply List.filter_congr
  intro thread _
  cases runs : busy read thread with
  | true => rw [stored_of_busy runs, Bool.and_self]
  | false => rw [Bool.false_and]

theorem collect_eq (root : String) :
    collect read root =
      ((walk (tasks read) Edge.child (maxDepth + 1) root []).2.foldlM (addStep read) []).map
        fun steps => steps ++ (ownStep read root).toList := by
  rw [collect, visit_eq_walk]
  cases (walk (tasks read) Edge.child (maxDepth + 1) root []).2.foldlM (addStep read) [] with
  | error error => rfl
  | ok steps => rfl

/-- A plan has the steps of the edges that the walk lists, and the thread's own one. -/
theorem collect_ok (planned : collect read root = .ok steps) :
    steps = (walk (tasks read) Edge.child (maxDepth + 1) root []).2.filterMap (stepOf read) ++
      (ownStep read root).toList := by
  rw [collect_eq] at planned
  cases walked : (walk (tasks read) Edge.child (maxDepth + 1) root []).2.foldlM
    (addStep read) [] with
  | error error =>
      rw [walked] at planned
      cases planned
  | ok made =>
      rw [walked] at planned
      cases planned
      rw [steps_ok walked, List.nil_append]

/-- A step of a plan is for a task that the walk lists, or for the thread itself. -/
theorem mem_collect (planned : collect read root = .ok steps) {step : Step}
    (listed : step ∈ steps) :
    (step.target = root ∨
        ∃ edge ∈ (walk (tasks read) Edge.child (maxDepth + 1) root []).2,
          step.target = edge.child) ∧
      ∃ run, interruptible read step.target = some run ∧ step.runId = run.id := by
  rw [collect_ok planned] at listed
  rcases List.mem_append.mp listed with delegated | own
  · rcases List.mem_filterMap.mp delegated with ⟨edge, edge_listed, step_made⟩
    rcases target_stepOf step_made with ⟨target_eq, run, runs, pinned⟩
    rw [target_eq]
    exact ⟨.inr ⟨edge, edge_listed, rfl⟩, run, runs, pinned⟩
  · rw [Option.mem_toList, ownStep_eq] at own
    rcases Option.map_eq_some_iff.mp own with ⟨run, runs, rfl⟩
    exact ⟨.inl rfl, run, runs, rfl⟩

/-- A refusal comes after as many steps as a plan may have. -/
theorem collect_error (refused : collect read root = .error error) :
    ∃ first : List Edge,
      first.Sublist (walk (tasks read) Edge.child (maxDepth + 1) root []).2 ∧
        maxTargets ≤ (first.filterMap (stepOf read)).length := by
  rw [collect_eq] at refused
  cases walked : (walk (tasks read) Edge.child (maxDepth + 1) root []).2.foldlM
    (addStep read) [] with
  | ok made =>
      rw [walked] at refused
      cases refused
  | error error => exact steps_error walked

/-- A plan names the busy ones among the threads that the walk comes to. -/
theorem targets_collect (planned : collect read root = .ok steps) :
    steps.map Step.target =
      ((walk (tasks read) Edge.child (maxDepth + 1) root []).2.map Edge.child ++ [root]).filter
        (busy read) := by
  rw [collect_ok planned, List.map_append, targets_filterMap, targets_ownStep, List.filter_append]

/-! ## Trees -/

theorem beneath_of_listed (listed : edge ∈ unfolding (tasks read) Edge.child (maxDepth + 1) root) :
    Beneath read root edge.child := by
  rcases chain_of_mem listed with ⟨length, within, chain⟩
  exact ⟨length, Nat.le_of_lt_succ within, chain⟩

/-- A tree that is refused is too large. -/
theorem tooLarge_of_refused (tree : Treelike read root)
    (refused : collect read root = .error error) : TooLarge read root := by
  rcases collect_error refused with ⟨first, sublist, many⟩
  rw [walk_of_nodup (fun _ missing => tasks_of_not_stored missing) tree] at sublist
  refine ⟨(first.filterMap (stepOf read)).map Step.target, ?_, ?_, ?_⟩
  · have distinct : (arrivals (stored read) Edge.child first).Nodup :=
      ((arrivals_sublist sublist).trans (List.sublist_append_left _ _)).nodup tree
    rw [targets_filterMap, ← filter_stored_busy]
    exact distinct.filter _
  · rw [List.length_map]
    exact many
  · intro thread named
    rw [targets_filterMap] at named
    rcases List.mem_filter.mp named with ⟨reached, runs⟩
    rcases List.mem_map.mp reached with ⟨edge, listed, rfl⟩
    exact ⟨beneath_of_listed (sublist.subset listed), runs⟩

/-- A plan over a tree covers it. -/
theorem coversTree_of_planned (tree : Treelike read root)
    (planned : collect read root = .ok steps) : CoversTree read root steps := by
  have walked := walk_of_nodup (fun _ missing => tasks_of_not_stored missing) tree
  have named := targets_collect planned
  rw [walked] at named
  constructor
  case once =>
    rw [named, ← filter_stored_busy, List.filter_append]
    exact List.Nodup.filter _ tree
  case complete =>
    intro thread place runs
    rw [named]
    refine List.mem_filter.mpr ⟨?_, runs⟩
    rcases place with rfl | ⟨length, within, chain⟩
    · exact List.mem_concat_self
    · rcases chain.listed (Nat.lt_succ_of_le within) with ⟨edge, listed, rfl⟩
      exact List.mem_append_left _ (List.mem_map.mpr ⟨edge, listed, rfl⟩)
  case before =>
    intro above below ancestor thread within upper lower ancestor_runs thread_runs
    have both : [thread, ancestor] = [thread, ancestor].filter (busy read) := by
      simp [ancestor_runs, thread_runs]
    rw [named, both]
    apply List.Sublist.filter
    cases above with
    | zero =>
        cases upper
        rcases lower.listed (show below < maxDepth + 1 by omega) with ⟨edge, listed, rfl⟩
        exact (List.singleton_sublist.mpr (List.mem_map.mpr ⟨edge, listed, rfl⟩)).append
          (List.Sublist.refl [root])
    | succ above =>
        rcases upper.listed_before lower (show above + below + 1 < maxDepth + 1 by omega) with
          ⟨first, second, rfl, rfl, listed⟩
        exact (listed.map Edge.child).trans (List.sublist_append_left _ _)
  case within =>
    intro step listed
    rcases mem_collect planned listed with ⟨rfl | ⟨edge, edge_listed, target_eq⟩, pinned⟩
    · exact ⟨.inl rfl, pinned⟩
    · rw [walked] at edge_listed
      rw [target_eq] at pinned ⊢
      exact ⟨.inr (beneath_of_listed edge_listed), pinned⟩

/-- Over a tree, the answer is as promised. -/
theorem answers_of_treelike (tree : Treelike read root) : Answers read root := by
  rw [Answers]
  cases planned : collect read root with
  | error error => exact tooLarge_of_refused tree planned
  | ok steps => exact coversTree_of_planned tree planned

/-! ## Other runs of the same threads -/

theorem SameTasks.tasks_eq (same : SameTasks read other) : tasks other = tasks read := by
  funext thread
  have alike := same thread
  rw [tasks, tasks]
  cases found : read thread with
  | none =>
      rw [found, Option.map_none, Option.map_eq_none_iff] at alike
      rw [alike]
  | some before =>
      rw [found] at alike
      rcases Option.map_eq_some_iff.mp alike with ⟨after, after_found, pair_eq⟩
      rcases Prod.ext_iff.mp pair_eq with ⟨subagents_eq, delegation_eq⟩
      dsimp only at subagents_eq delegation_eq
      rw [after_found, Option.elim_some, subagents_eq]
      congr 1
      funext task
      rw [followed, followed, delegation_eq]

theorem SameTasks.stored_eq (same : SameTasks read other) : stored other = stored read := by
  funext thread
  have alike := congrArg Option.isSome (same thread)
  rw [Option.isSome_map, Option.isSome_map] at alike
  exact alike

theorem SameTasks.treelike_iff (same : SameTasks read other) :
    Treelike other root ↔ Treelike read root := by
  rw [Treelike, Treelike, same.tasks_eq, same.stored_eq]

/-- Only one thread is at work. -/
def onlyBusy (read : Threads) (thread : String) : Threads := fun other =>
  (read other).map fun stored => { stored with projection := { stored.projection with
    runs := if other = thread then
        Table.empty.touch { ThreadProjection.ended with status := .running, completedAt := none }
      else Table.empty } }

theorem sameTasks_onlyBusy (read : Threads) (thread : String) : SameTasks read (onlyBusy read thread) := by
  intro other
  rw [onlyBusy, Option.map_map]
  rfl

theorem busy_onlyBusy {thread : String} (alive : stored read thread = true) (other : String) :
    busy (onlyBusy read thread) other = decide (other = thread) := by
  rw [busy, interruptible, onlyBusy]
  by_cases same : other = thread
  · subst same
    rcases Option.isSome_iff_exists.mp alive with ⟨stored, found⟩
    simp only [found]
    rfl
  · rw [decide_eq_false same]
    cases read other with
    | none => rfl
    | some stored =>
        simp only [if_neg same]
        rfl

/-- Answers as promised, whatever the runs are, are given over trees only. -/
theorem treelike_of_answers (promised : ∀ other, SameTasks read other → Answers other root) :
    Treelike read root := by
  rw [Treelike, ← nodup_walk_iff (fun _ missing => tasks_of_not_stored missing),
    List.nodup_iff_sublist]
  intro thread twice
  have alive : stored read thread = true := by
    have listed := twice.subset (List.mem_cons_self)
    rw [comesTo, arrivals, ← List.filter_append] at listed
    exact (List.mem_filter.mp listed).2
  have same := sameTasks_onlyBusy read thread
  have answers := promised (onlyBusy read thread) same
  rw [Answers] at answers
  cases planned : collect (onlyBusy read thread) root with
  | error error =>
      -- A refusal names more threads than the one that has a run.
      rw [planned] at answers
      rcases answers with ⟨threads, distinct, many, only⟩
      have alone : threads.Subset [thread] := by
        intro other listed
        have runs := (only other listed).2
        rw [busy_onlyBusy alive] at runs
        exact List.mem_singleton.mpr (of_decide_eq_true runs)
      have few := (List.subperm_of_subset distinct alone).length_le
      rw [List.length_singleton] at few
      exact absurd (many.trans few) (by decide)
  | ok steps =>
      rw [planned] at answers
      have named := targets_collect planned
      rw [same.tasks_eq] at named
      have both : [thread, thread] = [thread, thread].filter (busy (onlyBusy read thread)) := by
        simp [busy_onlyBusy alive]
      have named_twice : [thread, thread].Sublist (steps.map Step.target) := by
        rw [named, both]
        apply List.Sublist.filter
        rw [comesTo, arrivals, ← List.filter_append] at twice
        exact twice.trans List.filter_sublist
      exact List.nodup_iff_sublist.mp answers.once thread named_twice

/-- Whatever runs the threads have, the answer is as promised exactly over a tree. -/
theorem answers_iff_treelike :
    (∀ other, SameTasks read other → Answers other root) ↔ Treelike read root := by
  constructor
  · exact treelike_of_answers
  · intro tree other same
    exact answers_of_treelike (same.treelike_iff.mpr tree)

end Zeron.Stop
