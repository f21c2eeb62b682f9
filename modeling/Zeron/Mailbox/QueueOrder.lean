import Zeron.Mailbox.Commands

/-!
# The order in which the queue is drained

The queue is shown by its positions, mail first, but drained in the order of the
rows.  A drain starts the run that is shown first exactly when these orders agree
on it.
-/

namespace Zeron.Mailbox

open Data Transition
open Orchestration (RunStatus EffectRequest)

/-- The runs that a plan starts. -/
def Plan.started (plan : Plan) : List String :=
  plan.effects.filterMap fun
    | .providerTurnStart id => some id
    | _ => none

namespace Projection

variable {p : Projection} {intents : List String} {run other : Run}

/-- What the queue shows of the runs that a drain may start. -/
def shown (p : Projection) (intents : List String) : List Run :=
  p.queued.filter fun run => !run.queueHeld && !decide (run.userMessageId ∈ intents)

/-- A drain starts the run that is shown first. -/
def StartsFirst (p : Projection) (intents : List String) : Prop :=
  (p.activeRun.isSome || p.archived || p.deleted) = false →
    (p.drainQueue intents).started = ((p.shown intents).head?.map Run.id).toList

/-- The run that is shown first has something to deliver, and every run with an
earlier row is spent mail. -/
def FirstInRows (p : Projection) (intents : List String) : Prop :=
  (p.activeRun.isSome || p.archived || p.deleted) = false →
    ∀ run, (p.shown intents).head? = some run →
      (p.authority intents).spent run = false ∧
        ∀ other ∈ p.shown intents, rowKey other < rowKey run →
          (p.authority intents).spent other = true

instance (p : Projection) (intents : List String) : Decidable (p.StartsFirst intents) :=
  inferInstanceAs (Decidable (_ → _))

@[simp]
theorem mem_orderedRuns : run ∈ p.orderedRuns ↔ run ∈ p.runs.rows :=
  mem_sortBy

@[simp]
theorem mem_queued : run ∈ p.queued ↔ run ∈ p.runs.rows ∧ run.status = .queued := by
  simp [queued]

/-- Rows are read in strict order. -/
theorem pairwise_orderedRuns (p : Projection) :
    p.orderedRuns.Pairwise fun first second => rowKey first < rowKey second := by
  apply pairwise_lt_sortBy
  have keys : (p.runs.rows.map rowKey).map (fun key => (ofLex key).2) = p.runs.rows.map Run.id := by
    rw [List.map_map]
    rfl
  exact List.Nodup.of_map _ (keys ▸ p.runs.distinct)

theorem mem_shown : run ∈ p.shown intents ↔
    (run ∈ p.runs.rows ∧ run.status = .queued) ∧ run.queueHeld = false ∧
      run.userMessageId ∉ intents := by
  simp [shown]

theorem mem_authority :
    run ∈ (p.authority intents).runs.rows ↔
      run ∈ p.runs.rows ∧ (run.status = .queued → run.userMessageId ∉ intents) := by
  simp [authority, Table.remove, imp_iff_not_or]

theorem isSome_activeRun :
    p.activeRun.isSome = true ↔
      ∃ run ∈ p.runs.rows, run.status.terminal = false ∧ run.status ≠ .queued := by
  simp [activeRun]

/-- The rows that a drain goes through are the ones that are shown. -/
theorem mem_startable_authority :
    run ∈ (p.authority intents).startable ↔ run ∈ p.shown intents := by
  rw [mem_shown]
  simp only [startable, List.mem_filter, mem_orderedRuns, mem_authority, Bool.not_eq_true',
    Bool.and_eq_true, beq_iff_eq]
  constructor
  · rintro ⟨⟨stored, free⟩, waiting, released⟩
    exact ⟨⟨stored, waiting⟩, released, free waiting⟩
  · rintro ⟨⟨stored, waiting⟩, released, free⟩
    exact ⟨⟨stored, fun _ => free⟩, waiting, released⟩

theorem pairwise_startable (p : Projection) :
    p.startable.Pairwise fun first second => rowKey first < rowKey second :=
  p.pairwise_orderedRuns.filter _

/-- The first run of a list that has something to deliver. -/
def firstUnspent (p : Projection) (runs : List Run) : Option Run :=
  runs.find? fun run => !p.spent run

/-- The loop starts the first run that is not spent. -/
theorem started_drainRuns (p : Projection) (runs : List Run) :
    (p.drainRuns runs).started = ((p.firstUnspent runs).map Run.id).toList := by
  unfold firstUnspent
  induction runs with
  | nil => rfl
  | cons run runs ih =>
      unfold drainRuns
      cases spent : p.spent run with
      | true =>
          rw [List.find?_cons_of_neg (by simp [spent])]
          exact ih
      | false =>
          rw [List.find?_cons_of_pos (by simp [spent])]
          rfl

/-- No run that is missing in what `DrainQueue` sees is active. -/
theorem activeRun_authority (p : Projection) (intents : List String) :
    (p.authority intents).activeRun.isSome = p.activeRun.isSome := by
  rw [Bool.eq_iff_iff, isSome_activeRun, isSome_activeRun]
  constructor
  · rintro ⟨run, stored, live, moved⟩
    exact ⟨run, (mem_authority.mp stored).1, live, moved⟩
  · rintro ⟨run, stored, live, moved⟩
    exact ⟨run, mem_authority.mpr ⟨stored, fun waiting => absurd waiting moved⟩, live, moved⟩

/-- An idle thread starts the first run in the order of the rows that is not spent. -/
theorem started_drainQueue
    (idle : (p.activeRun.isSome || p.archived || p.deleted) = false) :
    (p.drainQueue intents).started =
      (((p.authority intents).firstUnspent (p.authority intents).startable).map Run.id).toList := by
  have quiet : ((p.authority intents).activeRun.isSome || (p.authority intents).archived ||
      (p.authority intents).deleted) = false := by
    rw [activeRun_authority]
    exact idle
  unfold drainQueue drain
  rw [quiet, if_neg (by decide), started_drainRuns]

/-- A run that is found by its id is the row itself. -/
theorem eq_of_id (stored : run ∈ p.shown intents) (other_stored : other ∈ p.shown intents)
    (same : run.id = other.id) : run = other :=
  Table.eq_of_mem (mem_shown.mp stored).1.1 (mem_shown.mp other_stored).1.1 same

/-- A run that may start is the first in the order of the rows exactly when all
runs before it are spent. -/
theorem firstUnspent_startable_iff (listed : run ∈ p.startable) :
    p.firstUnspent p.startable = some run ↔
      p.spent run = false ∧ ∀ other ∈ p.startable, rowKey other < rowKey run →
        p.spent other = true := by
  have asymm : Std.Asymm fun first second : Run => rowKey first < rowKey second :=
    ⟨fun _ _ => lt_asymm⟩
  unfold firstUnspent
  rw [find?_eq_some_iff_of_pairwise p.pairwise_startable listed]
  simp

/-- A drain starts the run that is shown first exactly when the rows have it first
among what can be delivered. -/
theorem startsFirst_iff (p : Projection) (intents : List String) :
    p.StartsFirst intents ↔ p.FirstInRows intents := by
  refine forall_congr' fun idle => ?_
  rw [started_drainQueue idle]
  cases head : (p.shown intents).head? with
  | none =>
      have nothing : (p.authority intents).startable = [] := by
        rw [List.eq_nil_iff_forall_not_mem]
        intro run listed
        rw [mem_startable_authority, List.head?_eq_none_iff.mp head] at listed
        cases listed
      simp [nothing, firstUnspent]
  | some run =>
      have listed : run ∈ p.shown intents := List.mem_of_mem_head? head
      have startable := mem_startable_authority.mpr listed
      have same_run :
          ((p.authority intents).firstUnspent (p.authority intents).startable).map Run.id =
            some run.id ↔
          (p.authority intents).firstUnspent (p.authority intents).startable = some run := by
        rw [Option.map_eq_some_iff]
        constructor
        · rintro ⟨other, found, same⟩
          have other_listed := mem_startable_authority.mp (List.mem_of_find?_eq_some found)
          rw [found, eq_of_id other_listed listed same]
        · intro found
          exact ⟨run, found, rfl⟩
      rw [Option.map_some, Option.toList_some, Option.toList_eq_singleton_iff, same_run,
        firstUnspent_startable_iff startable]
      simp only [mem_startable_authority, Option.some.injEq, forall_eq']

end Projection

namespace Thread

/-- A drain follows the queue as it is shown. -/
def DrainFollows (thread : Thread) (command : Command) : Prop :=
  command = .drainQueue →
    thread.projection.StartsFirst (thread.intents.map QueuedMessage.id)

/-- At a drain, rows and positions agree on the first run. -/
def RowsAgree (thread : Thread) (command : Command) : Prop :=
  command = .drainQueue →
    thread.projection.FirstInRows (thread.intents.map QueuedMessage.id)

/-- Whatever commands are accepted, every drain starts the run that is shown first
exactly when at each of them the rows have it first. -/
theorem drains_follow_iff_rows_agree (thread : Thread) (commands : List Command) :
    EveryStep Thread.step DrainFollows thread commands ↔
      EveryStep Thread.step RowsAgree thread commands := by
  have same : DrainFollows = RowsAgree := by
    funext state command
    exact propext (forall_congr' fun _ => state.projection.startsFirst_iff _)
  rw [same]

/-- Two messages wait behind a run, and the second one is moved to the front. -/
def reorderedThenDrained : List Command :=
  [.send "a" "first", .runMoved "run:t:1" .running, .send "b" "second", .send "c" "third",
    .queueReorder "run:t:3" (some "run:t:2"), .runMoved "run:t:1" .completed]

instance (thread : Thread) (command : Command) : Decidable (DrainFollows thread command) :=
  inferInstanceAs (Decidable (_ → _))

/-- The drain starts the message that is shown second. -/
theorem drain_ignores_the_reorder :
    (∃ thread, run Thread.step (created "t") reorderedThenDrained = some thread ∧
      thread.projection.queued.map Run.id = ["run:t:3", "run:t:2"] ∧
      (thread.projection.drainQueue []).started = ["run:t:2"]) ∧
    ¬ EveryStep Thread.step DrainFollows (created "t") (reorderedThenDrained ++ [.drainQueue]) := by
  let last := (run Thread.step (created "t") reorderedThenDrained).getD (created "t")
  have reached : run Thread.step (created "t") reorderedThenDrained = some last := by
    decide +kernel
  refine ⟨⟨last, reached, by decide +kernel⟩, fun always => ?_⟩
  have follows := (EveryStep.right always reached).1
  have skipped : ¬ DrainFollows last .drainQueue := by decide +kernel
  exact skipped follows

end Thread

end Zeron.Mailbox

/-!
## Reordering the queue

A reorder numbers the whole queue from one, mail first, and afterwards the queue is
shown in that order.
-/

namespace Zeron.Mailbox

open Data
open Orchestration (RunStatus)

/-- Positions are numbered along a list. -/
def positioned : Int → List Run → List Run
  | _, [] => []
  | position, run :: runs =>
      { run with queuePosition := some position } :: positioned (position + 1) runs

section Positions

variable {position : Int} {runs : List Run}

theorem positioned_cons (position : Int) (run : Run) (runs : List Run) :
    positioned position (run :: runs) =
      { run with queuePosition := some position } :: positioned (position + 1) runs :=
  rfl

theorem map_positioned {α : Type} (field : Run → α)
    (kept : ∀ run position, field { run with queuePosition := some position } = field run)
    (position : Int) (runs : List Run) :
    (positioned position runs).map field = runs.map field := by
  induction runs generalizing position with
  | nil => rfl
  | cons run runs ih =>
      unfold positioned
      rw [List.map_cons, List.map_cons, kept, ih]

@[simp]
theorem map_id_positioned (position : Int) (runs : List Run) :
    (positioned position runs).map Run.id = runs.map Run.id :=
  map_positioned Run.id (fun _ _ => rfl) position runs

@[simp]
theorem map_userMessageId_positioned (position : Int) (runs : List Run) :
    (positioned position runs).map Run.userMessageId = runs.map Run.userMessageId :=
  map_positioned Run.userMessageId (fun _ _ => rfl) position runs

/-- A numbered run is one of the list with another position. -/
theorem exists_of_mem_positioned {run : Run} (listed : run ∈ positioned position runs) :
    ∃ old ∈ runs, ∃ place, position ≤ place ∧ place < position + runs.length ∧
      run = { old with queuePosition := some place } := by
  induction runs generalizing position with
  | nil => cases listed
  | cons head tail ih =>
      rw [List.length_cons]
      obtain rfl | later := List.mem_cons.mp listed
      · exact ⟨head, List.mem_cons_self, position, le_rfl, by omega, rfl⟩
      · obtain ⟨old, stored, place, above, below, rfl⟩ := ih later
        exact ⟨old, List.mem_cons_of_mem _ stored, place, by omega, by push_cast; omega, rfl⟩

/-- Positions ascend along the list. -/
theorem pairwise_positioned (position : Int) (runs : List Run) :
    (positioned position runs).Pairwise fun first second =>
      ∃ before after, first.queuePosition = some before ∧ second.queuePosition = some after ∧
        before < after := by
  induction runs generalizing position with
  | nil => exact List.Pairwise.nil
  | cons run runs ih =>
      refine List.pairwise_cons.mpr ⟨fun other listed => ?_, ih (position + 1)⟩
      obtain ⟨old, _, place, above, _, rfl⟩ := exists_of_mem_positioned listed
      exact ⟨position, place, rfl, rfl, by omega⟩

/-- A relation that does not look at positions is kept. -/
theorem pairwise_positioned_of {related : Run → Run → Prop}
    (blind : ∀ first second before after, related first second →
      related { first with queuePosition := before } { second with queuePosition := after })
    (along : runs.Pairwise related) (position : Int) :
    (positioned position runs).Pairwise related := by
  induction runs generalizing position with
  | nil => exact List.Pairwise.nil
  | cons run runs ih =>
      obtain ⟨head, tail⟩ := List.pairwise_cons.mp along
      refine List.pairwise_cons.mpr ⟨fun other listed => ?_, ih tail (position + 1)⟩
      obtain ⟨old, stored, place, _, _, rfl⟩ := exists_of_mem_positioned listed
      exact blind run old _ _ (head old stored)

/-- A condition that does not look at positions picks the same runs. -/
theorem map_id_filter_positioned {which : Run → Bool}
    (blind : ∀ run position, which { run with queuePosition := some position } = which run)
    (position : Int) (runs : List Run) :
    ((positioned position runs).filter which).map Run.id = (runs.filter which).map Run.id := by
  induction runs generalizing position with
  | nil => rfl
  | cons run runs ih =>
      rw [positioned_cons, List.filter_cons, List.filter_cons, blind]
      split
      · rw [List.map_cons, List.map_cons, ih]
      · exact ih _

@[simp]
theorem positioned_positioned (position other : Int) (runs : List Run) :
    positioned position (positioned other runs) = positioned position runs := by
  induction runs generalizing position other with
  | nil => rfl
  | cons run runs ih =>
      rw [positioned_cons, positioned_cons, positioned_cons, ih]

/-- Every number in the range is the position of a run. -/
theorem exists_position {place : Int} (above : position ≤ place)
    (below : place < position + runs.length) :
    some place ∈ (positioned position runs).map Run.queuePosition := by
  induction runs generalizing position with
  | nil => simp at below; omega
  | cons run runs ih =>
      unfold positioned
      rw [List.map_cons, List.mem_cons]
      rw [List.length_cons] at below
      by_cases first : place = position
      · exact .inl (congrArg some first)
      · exact .inr (ih (by omega) (by push_cast at below; omega))

theorem nodup_positions (position : Int) (runs : List Run) :
    ((positioned position runs).map Run.queuePosition).Nodup := by
  rw [List.Nodup, List.pairwise_map]
  refine (pairwise_positioned position runs).imp fun {first second} places => ?_
  obtain ⟨before, after, first_eq, second_eq, less⟩ := places
  rw [first_eq, second_eq]
  exact fun same => absurd (Option.some.inj same) (by omega)

end Positions

namespace Projection

variable {p : Projection} {run : Run} {id : String} {before : Option String} {order : List Run}

/-- The position of a run, where it has to move. -/
theorem applyAll_positionEvent (p : Projection) {run : Run} {position : Int}
    (stored : run ∈ p.runs.rows) :
    p.applyAll (if run.queuePosition = some position then []
      else [.runUpdated { run with queuePosition := some position }]) =
      { p with runs := p.runs.put { run with queuePosition := some position } } := by
  split
  · rename_i same
    have unchanged : { run with queuePosition := some position } = run := by rw [← same]
    rw [unchanged, Table.put_of_mem stored]
    rfl
  · rfl

/-- The events of a reorder number its runs. -/
theorem applyAll_positionEvents {position : Int} {runs : List Run}
    (stored : ∀ run ∈ runs, run ∈ p.runs.rows) (distinct : (runs.map Run.id).Nodup) :
    p.applyAll (positionEvents position runs) =
      { p with runs := p.runs.putAll (positioned position runs) } := by
  induction runs generalizing p position with
  | nil => rfl
  | cons run runs ih =>
      rw [List.map_cons, List.nodup_cons] at distinct
      unfold positionEvents positioned
      rw [applyAll_append]
      rw [applyAll_positionEvent p (stored run List.mem_cons_self)]
      refine ih (fun other listed => ?_) distinct.2
      refine Table.mem_put_iff.mpr (.inr ⟨stored other (List.mem_cons_of_mem _ listed), ?_⟩)
      rintro same
      exact distinct.1 (same ▸ List.mem_map_of_mem listed)

theorem perm_queued (p : Projection) :
    p.queued.Perm (p.runs.rows.filter fun run => run.status == .queued) :=
  (perm_sortBy _ _).trans ((perm_sortBy _ _).filter _)

theorem nodup_queued (p : Projection) : (p.queued.map Run.id).Nodup := by
  rw [(p.perm_queued.map Run.id).nodup_iff]
  exact (List.filter_sublist.map Run.id).nodup p.runs.distinct

theorem eq_of_mem_queued {first second : Run} (first_listed : first ∈ p.queued)
    (second_listed : second ∈ p.queued) (same : first.id = second.id) : first = second :=
  Table.eq_of_mem (mem_queued.mp first_listed).1 (mem_queued.mp second_listed).1 same

/-- What an accepted reorder has found. -/
theorem reordered_cases (planned : p.reordered id before = some order) :
    ∃ run index, p.queuedRun id = some run ∧ p.delegated run = false ∧
      index ≤ (p.queued.filter fun other => !p.delegated other && other.id != id).length ∧
      order = p.queued.filter p.delegated ++
        (p.queued.filter fun other => !p.delegated other && other.id != id).insertIdx index run := by
  simp only [reordered, Option.bind_eq_bind, Option.bind_eq_some_iff, guard_eq_some,
    exists_const] at planned
  obtain ⟨run, found, ordinary, _, placed⟩ := planned
  have own : p.delegated run = false := by
    unfold delegated
    cases message : p.messages.get run.userMessageId with
    | none => rfl
    | some message' =>
        rw [message] at ordinary
        simp [Message.automatic] at ordinary
        simp [ordinary.1]
  cases before with
  | none =>
      exact ⟨run, _, found, own, le_rfl, (Option.some.inj placed).symm⟩
  | some target =>
      obtain ⟨index, target_found, inserted⟩ := Option.bind_eq_some_iff.mp placed
      have below := (List.findIdx?_eq_some_iff_getElem.mp target_found).1
      exact ⟨run, index, found, own, Nat.le_of_lt below, (Option.some.inj inserted).symm⟩

/-- The order of a reorder: mail as it was, and the run among the ordinary ones. -/
theorem perm_reordered (planned : p.reordered id before = some order) : order.Perm p.queued := by
  obtain ⟨run, index, found, ordinary, fits, rfl⟩ := reordered_cases planned
  have run_listed : run ∈ p.queued.filter fun other => !p.delegated other := by
    rw [List.mem_filter]
    exact ⟨List.mem_of_find?_eq_some found, by simp [ordinary]⟩
  have run_id : run.id = id := by simpa using List.find?_some found
  have others : (p.queued.filter fun other => !p.delegated other && other.id != id) =
      (p.queued.filter fun other => !p.delegated other).erase run := by
    have nodup : (p.queued.filter fun other => !p.delegated other).Nodup :=
      (List.Nodup.of_map Run.id p.nodup_queued).filter _
    rw [nodup.erase_eq_filter, List.filter_filter]
    apply List.filter_congr
    intro other listed
    have same : other.id = id ↔ other = run := by
      rw [← run_id]
      exact ⟨eq_of_mem_queued listed (List.mem_of_find?_eq_some found), congrArg Run.id⟩
    rw [Bool.and_comm, bne, bne, beq_eq_decide, beq_eq_decide, decide_eq_decide.mpr same]
  rw [others] at fits ⊢
  calc p.queued.filter p.delegated ++
        ((p.queued.filter fun other => !p.delegated other).erase run).insertIdx index run
    _ |>.Perm (p.queued.filter p.delegated ++
        run :: (p.queued.filter fun other => !p.delegated other).erase run) :=
      (List.perm_insertIdx _ _ fits).append_left _
    _ |>.Perm (p.queued.filter p.delegated ++ p.queued.filter fun other => !p.delegated other) :=
      (List.perm_cons_erase run_listed).symm.append_left _
    _ |>.Perm p.queued := List.filter_append_perm _ _

/-- Mail comes first in the order of a reorder. -/
theorem mail_first_reordered (planned : p.reordered id before = some order) :
    order.Pairwise fun first second => p.delegated second = true → p.delegated first = true := by
  obtain ⟨run, index, _, ordinary, fits, rfl⟩ := reordered_cases planned
  refine List.pairwise_append.mpr ⟨?_, ?_, ?_⟩
  · apply List.pairwise_of_forall_mem_list
    intro first listed _ _ _
    exact (List.mem_filter.mp listed).2
  · apply List.pairwise_of_forall_mem_list
    intro _ _ second listed mail
    have member := (List.perm_insertIdx run _ fits).mem_iff.mp listed
    obtain rfl | other := List.mem_cons.mp member
    · rw [ordinary] at mail
      cases mail
    · have plain := (List.mem_filter.mp other).2
      simp [mail] at plain
  · intro first listed _ _ _
    exact (List.mem_filter.mp listed).2

/-- Queued runs that are rewritten stay in the queue, beside the others. -/
theorem perm_queued_putAll (p : Projection) {news : List Run} (distinct : (news.map Run.id).Nodup)
    (waiting : ∀ run ∈ news, run.status = .queued) :
    ({ p with runs := p.runs.putAll news } : Projection).queued.Perm
      (news ++ p.queued.filter fun run => decide (run.id ∉ news.map Run.id)) := by
  have old_distinct := (List.Nodup.of_map Run.id p.nodup_queued).filter
    fun run => decide (run.id ∉ news.map Run.id)
  have all_distinct : (news ++ p.queued.filter
      fun run => decide (run.id ∉ news.map Run.id)).Nodup := by
    refine List.nodup_append.mpr ⟨List.Nodup.of_map Run.id distinct, old_distinct, ?_⟩
    rintro run listed _ old rfl
    exact of_decide_eq_true (List.mem_filter.mp old).2 (List.mem_map_of_mem listed)
  refine (List.perm_ext_iff_of_nodup (List.Nodup.of_map Run.id (nodup_queued _))
    all_distinct).mpr fun run => ?_
  rw [mem_queued, Table.mem_putAll_iff distinct, List.mem_append, List.mem_filter, mem_queued,
    decide_eq_true_eq]
  constructor
  · rintro ⟨listed | ⟨stored, free⟩, queued⟩
    · exact .inl listed
    · exact .inr ⟨⟨stored, queued⟩, free⟩
  · rintro (listed | ⟨⟨stored, queued⟩, free⟩)
    · exact ⟨.inl listed, waiting run listed⟩
    · exact ⟨.inr ⟨stored, free⟩, queued⟩

/-- The thread after a list of its queued runs is numbered. -/
def renumbered (p : Projection) (order : List Run) : Projection :=
  { p with runs := p.runs.putAll (positioned 1 order) }

theorem status_of_mem_positioned {runs : List Run}
    (waiting : ∀ run ∈ runs, run.status = .queued) (position : Int) :
    ∀ run ∈ positioned position runs, run.status = .queued := by
  intro run listed
  obtain ⟨old, stored, place, _, _, rfl⟩ := exists_of_mem_positioned listed
  exact waiting old stored

/-- A queue that is numbered with mail first is shown in that order. -/
theorem queued_renumbered (all : order.Perm p.queued)
    (mail_first : order.Pairwise fun first second =>
      p.delegated second = true → p.delegated first = true) :
    (p.renumbered order).queued = positioned 1 order := by
  have distinct : ((positioned 1 order).map Run.id).Nodup := by
    rw [map_id_positioned, (all.map Run.id).nodup_iff]
    exact p.nodup_queued
  have same_ids (id : String) :
      id ∈ (positioned 1 order).map Run.id ↔ id ∈ p.queued.map Run.id := by
    rw [map_id_positioned]
    exact (all.map Run.id).mem_iff
  have waiting := status_of_mem_positioned
    (fun run listed => (mem_queued.mp (all.mem_iff.mp listed)).2) 1
  have same : (p.renumbered order).queued.Perm (positioned 1 order) := by
    have split := perm_queued_putAll p distinct waiting
    have nothing : (p.queued.filter
        fun run => decide (run.id ∉ (positioned 1 order).map Run.id)) = [] := by
      rw [List.filter_eq_nil_iff]
      intro run listed outside
      exact of_decide_eq_true outside ((same_ids run.id).mpr (List.mem_map_of_mem listed))
    rw [nothing, List.append_nil] at split
    exact split
  apply sortBy_eq_of_perm (same.symm.trans (perm_sortBy _ _))
  have mail := pairwise_positioned_of (fun _ _ _ _ related => related) mail_first 1
  refine ((pairwise_positioned 1 order).and mail).imp fun {first second} both => ?_
  obtain ⟨⟨before, after, first_eq, second_eq, less⟩, mail⟩ := both
  have inner : toLex (first.queuePosition.getD first.ordinal, first.ordinal) <
      toLex (second.queuePosition.getD second.ordinal, second.ordinal) := by
    rw [first_eq, second_eq, Prod.Lex.toLex_lt_toLex]
    exact .inl less
  change toLex (!p.delegated first, _) < toLex (!p.delegated second, _)
  rw [Prod.Lex.toLex_lt_toLex]
  cases second_mail : p.delegated second with
  | true => exact .inr ⟨by rw [mail second_mail], inner⟩
  | false =>
      cases first_mail : p.delegated first with
      | true => exact .inl Bool.false_lt_true
      | false => exact .inr ⟨rfl, inner⟩

end Projection

end Zeron.Mailbox
