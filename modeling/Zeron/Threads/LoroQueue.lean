import Zeron.Threads.Seed
import Zeron.Threads.Written

/-!
# The queue of the document

Messages that wait in the document's queue are intents of the thread: each has a queued
run, which takes the place of its row.  A sync brings the runs in line with the rows.  It
goes by the first run of a message, and a message can have two runs: one that was
cancelled for a promotion, and the follow-up of a steering input that came too late.
-/

namespace Zeron.Threads

open Data
open Orchestration (RunStatus)

/-- A row of the document's queue. -/
structure QueuedMessage where
  id : String
  text : String
  attachments : List String
  issuedAt : Int
  editedAt : Option Int

/-- A row of `orchestration_queue_attachments`. -/
structure QueueAttachments where
  messageId : String
  paths : List String

def Event.createsRun : Event → Bool
  | .runCreated _ => true
  | _ => false

namespace ThreadProjection

variable (p : ThreadProjection) (now : Int)

/-- Whether the message of a run is the result of delegated work. -/
def automatic (run : Run) : Bool :=
  (p.messages.get run.userMessageId).any fun message => message.delegatedParent.isSome

/-- The place of a run in the queue. -/
def queueKey (run : Run) : Bool ×ₗ Int ×ₗ Int :=
  toLex (!p.automatic run, toLex (run.queuePosition.getD run.ordinal, run.ordinal))

/-- `queued`. -/
def queued : List Run :=
  sortBy p.queueKey (p.orderedRuns.filter fun run => run.status == .queued)

/-- A queued run that will never start. -/
def cancelledRun (run : Run) : Run :=
  { run with status := .cancelled, queuePosition := none, completedAt := some now }

def cancelledAttempt (attempt : Attempt) : Attempt :=
  { attempt with status := .cancelled, completedAt := some now }

def cancelledNode (node : Node) : Node :=
  { node with status := .cancelled, completedAt := some now }

/-- The attempt that `cancel_graph` cancels. -/
def attemptOf (run : Run) : Option Attempt :=
  if run.rootNodeId.isSome then run.activeAttemptId.bind p.attempts.get else none

/-- The root that `cancel_graph` cancels. -/
def rootOf (run : Run) : Option Node :=
  run.rootNodeId.bind p.nodes.get

/-- `cancel_graph`. -/
def cancelGraph (run : Run) : List Event :=
  .runUpdated (cancelledRun now run) ::
    (((p.attemptOf run).map fun attempt => .attemptUpdated (cancelledAttempt now attempt)).toList ++
      ((p.rootOf run).map fun root => .nodeUpdated (cancelledNode now root)).toList)

/-- `known`: the first run of a message. -/
def known (messageId : String) : Option Run :=
  p.orderedRuns.find? fun run => run.userMessageId == messageId

/-- The run in the place of its row. -/
def positioned (index : Nat) (run : Run) : Run :=
  { run with queuePosition := some ((index : Int) + 1) }

/-- The events of a row whose run is queued. -/
def editRow (index : Nat) (run : Run) (row : QueuedMessage) : List Event :=
  ((p.messages.get row.id).toList.filter fun message => message.text != row.text).map
      (fun message => .messageUpdated { message with text := row.text, updatedAt := now }) ++
    if positioned index run = run then [] else [.runUpdated (positioned index run)]

/-- The run of a row that had none. -/
def rowSeed (driver : String) (ordinal : Int) (row : QueuedMessage) : ExecutionSeed :=
  p.executionSeedFor p.thread ordinal row.id .queued driver row.issuedAt

/-- The events of a row that had no run. -/
def createRow (driver : String) (index : Nat) (ordinal : Int) (row : QueuedMessage) : List Event :=
  let seed := p.rowSeed driver ordinal row
  [ -- "Do not replace the active provider binding for an intent."
    .runCreated (positioned index seed.run), .attemptUpdated seed.attempt, .nodeUpdated seed.root,
    .messageUpdated
      { newMessage (some seed.run.id) (some seed.root.id) row.id row.text "user" row.issuedAt with
        updatedAt := row.editedAt.getD row.issuedAt } ]

/-- The loop of `sync_loro`: the place of the next row, and the ordinal of the last run. -/
def syncRows (driver : String) : Nat → Int → List QueuedMessage → List Event
  | _, _, [] => []
  | index, ordinal, row :: rows =>
      match p.known row.id with
      | some run =>
          (if run.status = .queued then p.editRow now index run row else []) ++
            syncRows driver (index + 1) ordinal rows
      | none =>
          p.createRow driver index (ordinal + 1) row ++
            syncRows driver (index + 1) (ordinal + 1) rows

/-- The queued runs whose row has gone. -/
def dropped (previous rows : List QueuedMessage) : List Run :=
  p.queued.filter fun run =>
    (previous.any fun intent => intent.id == run.userMessageId) &&
      !rows.any fun row => row.id == run.userMessageId

/-- The events of a sync that are about runs. -/
def intentEvents (driver : String) (previous rows : List QueuedMessage) : List Event :=
  (p.dropped previous rows).flatMap (p.cancelGraph now) ++
    p.syncRows now driver 0 p.lastRunOrdinal rows

/-- `sync_loro`. -/
def syncLoro (driver : String) (previous rows : List QueuedMessage) : Option (List Event) :=
  -- "Thread is deleted."
  if p.thread.deletedAt.isSome then none
  else
    let events := p.intentEvents now driver previous rows
    let events := if events.any Event.createsRun then events ++ p.clearParking now else events
    some (if events.isEmpty then [.thread p.thread] else events)

/-- `cancelled_messages`. -/
def cancelledMessages : List String :=
  (p.runs.rows.filter fun run => run.status == .cancelled).map Run.userMessageId

end ThreadProjection

/-- What the database holds of a thread and of its queue in the document. -/
structure QueueStore where
  projection : ThreadProjection
  intents : List QueuedMessage
  attachments : Table QueueAttachments.messageId

namespace QueueStore

/-- `persist`, of one intent: a lagging row does not claim the files of a cancelled run. -/
def persistIntent (p : ThreadProjection) (table : Table QueueAttachments.messageId)
    (intent : QueuedMessage) : Table QueueAttachments.messageId :=
  if p.cancelledMessages.contains intent.id then table
  else if intent.attachments.isEmpty then table.remove fun row => row.messageId == intent.id
  else table.put { messageId := intent.id, paths := intent.attachments }

/-- `attachment_paths`. -/
def attachmentPaths (s : QueueStore) (messageId : String) : List String :=
  ((s.attachments.get messageId).map QueueAttachments.paths).getD []

/-- `release_run`: the messages whose files are given up. -/
def releasedMessages (s : QueueStore) (rows : List QueuedMessage) : List String :=
  ((s.projection.dropped s.intents rows).map Run.userMessageId).filter fun messageId =>
    !(s.attachmentPaths messageId).isEmpty

/-- `host.sync_loro_queue`, accepted: the events and what is stored with them. -/
def sync (s : QueueStore) (now : Int) (driver : String) (rows : List QueuedMessage) :
    Option (List Event × QueueStore) :=
  (s.projection.syncLoro now driver s.intents rows).bind fun events =>
    (s.projection.applyAll now events).map fun next =>
      (events,
        { projection := next
          intents := rows
          attachments :=
            (rows.foldl (persistIntent next) s.attachments).remove fun row =>
              (s.releasedMessages rows).contains row.messageId })

end QueueStore

namespace ThreadProjection

variable {p q : ThreadProjection} {now : Int} {driver : String} {index : Nat} {ordinal : Int}
  {row : QueuedMessage} {previous rows : List QueuedMessage} {run : Run} {event : Event}

/-! ## What a sync writes -/

theorem known_eq_none_iff {messageId : String} :
    p.known messageId = none ↔ ∀ run ∈ p.runs.rows, run.userMessageId ≠ messageId := by
  rw [known, List.find?_eq_none]
  constructor
  · intro missing run stored same
    exact missing run (mem_orderedRuns.mpr stored) (beq_iff_eq.mpr same)
  · intro missing run listed same
    exact missing run (mem_orderedRuns.mp listed) (beq_iff_eq.mp same)

theorem of_known {messageId : String} (found : p.known messageId = some run) :
    run ∈ p.runs.rows ∧ run.userMessageId = messageId :=
  ⟨mem_orderedRuns.mp (List.mem_of_find?_eq_some found),
    beq_iff_eq.mp (List.find?_some (p := fun run : Run => run.userMessageId == messageId) found)⟩

theorem mem_queued : run ∈ p.queued ↔ run ∈ p.runs.rows ∧ run.status = .queued := by
  rw [queued, mem_sortBy, List.mem_filter, mem_orderedRuns, beq_iff_eq]

theorem mem_dropped : run ∈ p.dropped previous rows ↔
    (run ∈ p.runs.rows ∧ run.status = .queued) ∧
      (∃ intent ∈ previous, intent.id = run.userMessageId) ∧
        ∀ row ∈ rows, row.id ≠ run.userMessageId := by
  rw [dropped, List.mem_filter, mem_queued, Bool.and_eq_true, List.any_eq_true, Bool.not_eq_true',
    List.any_eq_false]
  simp only [beq_iff_eq]

/-- The run of a row as the sync leaves it, for each row whose first run is queued. -/
def rowRuns (p : ThreadProjection) (driver : String) :
    Nat → Int → List QueuedMessage → List Run
  | _, _, [] => []
  | index, ordinal, row :: rows =>
      match p.known row.id with
      | some run =>
          (if run.status = .queued then [positioned index run] else []) ++
            p.rowRuns driver (index + 1) ordinal rows
      | none =>
          positioned index (p.rowSeed driver (ordinal + 1) row).run ::
            p.rowRuns driver (index + 1) (ordinal + 1) rows

/-- The fields of a new run do not depend on the conversation that it is to use. -/
theorem rowSeed_run (p : ThreadProjection) (driver : String) (ordinal : Int) (row : QueuedMessage) :
    ∃ providerThreadId, (p.rowSeed driver ordinal row).run =
      { (executionSeed p.thread ordinal row.id .queued driver row.issuedAt).run with
        providerThreadId } := by
  unfold rowSeed executionSeedFor
  split
  · exact ⟨_, rfl⟩
  · exact ⟨_, rfl⟩

theorem rowSeed_attempt_id (p : ThreadProjection) (driver : String) (ordinal : Int)
    (row : QueuedMessage) : (p.rowSeed driver ordinal row).attempt.id =
      seedAttemptId (seedRunId p.thread.id ordinal) := by
  unfold rowSeed executionSeedFor
  split <;> rfl

theorem rowSeed_root_id (p : ThreadProjection) (driver : String) (ordinal : Int)
    (row : QueuedMessage) : (p.rowSeed driver ordinal row).root.id =
      seedRootId (seedRunId p.thread.id ordinal) := by
  unfold rowSeed executionSeedFor
  split <;> rfl

theorem rowSeed_run_id (p : ThreadProjection) (driver : String) (ordinal : Int)
    (row : QueuedMessage) : (p.rowSeed driver ordinal row).run.id = seedRunId p.thread.id ordinal := by
  rcases p.rowSeed_run driver ordinal row with ⟨_, same⟩
  rw [same]
  rfl

/-- Where a run of a row comes from. -/
inductive FromRow (p : ThreadProjection) (driver : String) (index : Nat) (ordinal : Int)
    (rows : List QueuedMessage) (run : Run) : Prop
  | moved (place : Nat) (row : QueuedMessage) (stored : Run) (later : index ≤ place)
      (listed : row ∈ rows) (found : p.known row.id = some stored) (waits : stored.status = .queued)
      (same : run = positioned place stored)
  | created (place : Nat) (row : QueuedMessage) (number : Int) (later : index ≤ place)
      (listed : row ∈ rows) (missing : p.known row.id = none) (above : ordinal < number)
      (same : run = positioned place (p.rowSeed driver number row).run)

theorem FromRow.cons (from_row : FromRow p driver (index + 1) ordinal rows run)
    (row : QueuedMessage) {before : Int} (le : before ≤ ordinal) :
    FromRow p driver index before (row :: rows) run := by
  cases from_row with
  | moved place other stored later listed found waits same =>
      exact .moved place other stored (Nat.le_of_succ_le later) (List.mem_cons_of_mem _ listed) found
        waits same
  | created place other number later listed missing above same =>
      exact .created place other number (Nat.le_of_succ_le later) (List.mem_cons_of_mem _ listed)
        missing (lt_of_le_of_lt le above) same

theorem fromRow_of_mem (listed : run ∈ p.rowRuns driver index ordinal rows) :
    FromRow p driver index ordinal rows run := by
  induction rows generalizing index ordinal with
  | nil => cases listed
  | cons row rows ih =>
      rw [rowRuns] at listed
      cases found : p.known row.id with
      | some stored =>
          rw [found] at listed
          rcases List.mem_append.mp listed with first | rest
          · split at first
            · rename_i waits
              rw [List.mem_singleton] at first
              exact .moved index row stored (le_refl _) List.mem_cons_self found waits first
            · cases first
          · exact (ih rest).cons row (le_refl _)
      | none =>
          rw [found] at listed
          rcases List.mem_cons.mp listed with first | rest
          · exact .created index row (ordinal + 1) (le_refl _) List.mem_cons_self found (by omega) first
          · exact (ih rest).cons row (by omega)

namespace FromRow

section

variable (from_row : FromRow p driver index ordinal rows run)
include from_row

theorem status : run.status = .queued := by
  cases from_row with
  | moved place row stored later listed found waits same =>
      rw [same]
      exact waits
  | created place row number later listed missing above same =>
      rcases p.rowSeed_run driver number row with ⟨_, seed⟩
      rw [same, seed]
      rfl

theorem message :
    ∃ row ∈ rows, row.id = run.userMessageId ∧
      ∀ stored ∈ p.known row.id, stored.status = .queued := by
  cases from_row with
  | moved place row stored later listed found waits same =>
      refine ⟨row, listed, ?_, fun other known => ?_⟩
      · rw [same]
        exact (of_known found).2.symm
      · rw [Option.some.inj (known.symm.trans found)]
        exact waits
  | created place row number later listed missing above same =>
      rcases p.rowSeed_run driver number row with ⟨_, seed⟩
      refine ⟨row, listed, ?_, fun other known => ?_⟩
      · rw [same, seed]
        rfl
      · cases known.symm.trans missing

theorem position : ∃ place : Nat, index ≤ place ∧ run.queuePosition = some ((place : Int) + 1) := by
  cases from_row with
  | moved place row stored later listed found waits same => exact ⟨place, later, by rw [same]; rfl⟩
  | created place row number later listed missing above same => exact ⟨place, later, by rw [same]; rfl⟩

end

end FromRow

/-- The runs of the rows stand in the order of the rows. -/
theorem map_userMessageId_rowRuns : (p.rowRuns driver index ordinal rows).map Run.userMessageId =
    (rows.filter fun row => (p.known row.id).all fun run => run.status == .queued).map
      QueuedMessage.id := by
  induction rows generalizing index ordinal with
  | nil => rfl
  | cons row rows ih =>
      rw [rowRuns, List.filter_cons]
      cases found : p.known row.id with
      | some stored =>
          dsimp only
          rw [Option.all_some]
          by_cases waits : stored.status = .queued
          · rw [if_pos waits, if_pos (beq_iff_eq.mpr waits), List.singleton_append, List.map_cons,
              List.map_cons, ih, ← (of_known found).2]
            rfl
          · rw [if_neg waits, if_neg (mt beq_iff_eq.mp waits), List.nil_append, ih]
      | none =>
          rcases p.rowSeed_run driver (ordinal + 1) row with ⟨_, seed⟩
          rw [List.map_cons, ih, seed]
          rfl

/-- The places of the runs ascend. -/
theorem pairwise_rowRuns : (p.rowRuns driver index ordinal rows).Pairwise fun first second =>
    ∃ earlier later : Nat, earlier < later ∧ first.queuePosition = some ((earlier : Int) + 1) ∧
      second.queuePosition = some ((later : Int) + 1) := by
  have head : ∀ {index : Nat} {ordinal : Int} {rows : List QueuedMessage} (run : Run),
      ∀ other ∈ p.rowRuns driver (index + 1) ordinal rows,
        ∃ earlier later : Nat, earlier < later ∧
          (positioned index run).queuePosition = some ((earlier : Int) + 1) ∧
            other.queuePosition = some ((later : Int) + 1) := by
    intro index ordinal rows run other listed
    rcases (fromRow_of_mem listed).position with ⟨place, later, at_place⟩
    exact ⟨index, place, later, rfl, at_place⟩
  induction rows generalizing index ordinal with
  | nil => exact List.Pairwise.nil
  | cons row rows ih =>
      rw [rowRuns]
      cases p.known row.id with
      | some stored =>
          dsimp only
          split
          · exact List.pairwise_cons.mpr ⟨head stored, ih⟩
          · exact ih
      | none => exact List.pairwise_cons.mpr ⟨head _, ih⟩

/-- No record stands under an id that the next runs take. -/
structure Free (p : ThreadProjection) : Prop where
  run : ∀ ordinal, p.lastRunOrdinal < ordinal → p.runs.get (seedRunId p.thread.id ordinal) = none
  attempt : ∀ ordinal, p.lastRunOrdinal < ordinal →
    p.attempts.get (seedAttemptId (seedRunId p.thread.id ordinal)) = none
  root : ∀ ordinal, p.lastRunOrdinal < ordinal →
    p.nodes.get (seedRootId (seedRunId p.thread.id ordinal)) = none

theorem Free.ne (free : p.Free) (stored : run ∈ p.runs.rows) (above : p.lastRunOrdinal < ordinal) :
    run.id ≠ seedRunId p.thread.id ordinal := by
  intro same
  have missing := free.run ordinal above
  rw [← same, Table.get_of_mem stored] at missing
  cases missing

theorem id_positioned (index : Nat) (run : Run) : (positioned index run).id = run.id :=
  rfl

theorem distinct_rowRuns (free : p.Free) (distinct : (rows.map QueuedMessage.id).Nodup)
    (start : p.lastRunOrdinal ≤ ordinal) :
    ((p.rowRuns driver index ordinal rows).map Run.id).Nodup := by
  induction rows generalizing index ordinal with
  | nil => exact List.nodup_nil
  | cons row rows ih =>
      rw [List.map_cons, List.nodup_cons] at distinct
      rw [rowRuns]
      cases found : p.known row.id with
      | some stored =>
          dsimp only
          split
          · rw [List.singleton_append, List.map_cons, List.nodup_cons]
            refine ⟨?_, ih distinct.2 start⟩
            intro again
            rcases List.mem_map.mp again with ⟨other, listed, same⟩
            cases fromRow_of_mem listed with
            | moved place other_row other_stored later other_listed other_found waits moved =>
                rw [moved] at same
                have one := p.runs.eq_of_mem (of_known other_found).1 (of_known found).1 same
                apply distinct.1
                rw [← (of_known found).2, ← one, (of_known other_found).2]
                exact List.mem_map_of_mem other_listed
            | created place other_row number later other_listed missing above created =>
                rw [created, id_positioned, rowSeed_run_id] at same
                exact free.ne (of_known found).1 (lt_of_le_of_lt start above) same.symm
          · exact ih distinct.2 start
      | none =>
          rw [List.map_cons, List.nodup_cons]
          refine ⟨?_, ih distinct.2 (by omega)⟩
          intro again
          rcases List.mem_map.mp again with ⟨other, listed, same⟩
          rw [id_positioned, rowSeed_run_id] at same
          cases fromRow_of_mem listed with
          | moved place other_row other_stored later other_listed other_found waits moved =>
              rw [moved] at same
              exact free.ne (of_known other_found).1 (by omega) same
          | created place other_row number later other_listed missing above created =>
              rw [created, id_positioned, rowSeed_run_id] at same
              have equal := seedRunId_injective _ same
              omega

/-- The rows bring the runs that are not as they should be. -/
theorem filterMap_run_syncRows (free : p.Free) (start : p.lastRunOrdinal ≤ ordinal) :
    (p.syncRows now driver index ordinal rows).filterMap Event.run? =
      (p.rowRuns driver index ordinal rows).filter fun run =>
        decide (p.runs.get run.id ≠ some run) := by
  induction rows generalizing index ordinal with
  | nil => rfl
  | cons row rows ih =>
      rw [syncRows, rowRuns]
      cases found : p.known row.id with
      | some stored =>
          rw [List.filterMap_append, List.filter_append, ih start]
          congr 1
          split
          · have quiet : (((p.messages.get row.id).toList.filter fun message =>
                message.text != row.text).map fun message =>
                  Event.messageUpdated { message with text := row.text, updatedAt := now }).filterMap
                    Event.run? = [] := by
              apply List.filterMap_eq_nil_iff.mpr
              intro event listed
              rcases List.mem_map.mp listed with ⟨message, _, rfl⟩
              rfl
            rw [editRow, List.filterMap_append, quiet, List.filter_singleton,
              id_positioned, Table.get_of_mem (of_known found).1]
            by_cases placed : positioned index stored = stored
            · rw [if_pos placed, placed, decide_eq_false (not_not_intro rfl)]
              rfl
            · rw [if_neg placed, decide_eq_true]
              · rfl
              · intro same
                exact placed (Option.some.inj same).symm
          · rfl
      | none =>
          rw [List.filterMap_append, ih (by omega), List.filter_cons, id_positioned, rowSeed_run_id,
            free.run _ (by omega)]
          rfl

/-- The runs that a sync brings. -/
def broughtRuns (p : ThreadProjection) (now : Int) (driver : String)
    (previous rows : List QueuedMessage) : List Run :=
  (p.dropped previous rows).map (cancelledRun now) ++
    (p.rowRuns driver 0 p.lastRunOrdinal rows).filter fun run =>
      decide (p.runs.get run.id ≠ some run)

theorem filterMap_cancelGraph {ρ : Type} (read : Event → Option ρ) (dropped : List Run) :
    (dropped.flatMap (p.cancelGraph now)).filterMap read =
      dropped.flatMap fun run => (p.cancelGraph now run).filterMap read := by
  induction dropped with
  | nil => rfl
  | cons run dropped ih => rw [List.flatMap_cons, List.filterMap_append, ih, List.flatMap_cons]

theorem filterMap_run_cancelGraph (run : Run) :
    (p.cancelGraph now run).filterMap Event.run? = [cancelledRun now run] := by
  rw [cancelGraph]
  cases p.attemptOf run <;> cases p.rootOf run <;> rfl

theorem filterMap_run_intentEvents (free : p.Free) :
    (p.intentEvents now driver previous rows).filterMap Event.run? =
      p.broughtRuns now driver previous rows := by
  rw [intentEvents, List.filterMap_append, filterMap_cancelGraph,
    filterMap_run_syncRows free (le_refl _)]
  congr 1
  simp only [filterMap_run_cancelGraph]
  exact List.map_eq_flatMap.symm

theorem preserving_of_same {old : Run} (roster : run.restartCancelledBackgroundWork =
    old.restartCancelledBackgroundWork) (cohort : run.delegatedCompletion = old.delegatedCompletion) :
    run.preserving (some old) = run := by
  rw [Run.preserving, Option.bind_some, Option.bind_some, ← roster, ← cohort, Option.or_self,
    Option.or_self]

theorem distinct_dropped (p : ThreadProjection) (previous rows : List QueuedMessage) :
    ((p.dropped previous rows).map Run.id).Nodup := by
  have listed : (p.queued.map Run.id).Nodup := by
    apply (((perm_sortBy _ _).map Run.id).nodup_iff).mpr
    apply (List.filter_sublist.map Run.id).nodup
    exact (((perm_sortBy _ _).map Run.id).nodup_iff).mpr p.runs.distinct
  exact (List.filter_sublist.map Run.id).nodup listed

theorem records_broughtRuns (now : Int) (driver : String) (previous : List QueuedMessage)
    (free : p.Free) (distinct : (rows.map QueuedMessage.id).Nodup) :
    p.Records (p.broughtRuns now driver previous rows) := by
  constructor
  · rw [broughtRuns, List.map_append, List.map_map, List.nodup_append]
    refine ⟨p.distinct_dropped previous rows, (List.filter_sublist.map Run.id).nodup
      (distinct_rowRuns free distinct (le_refl _)), ?_⟩
    intro id first again second same
    rcases List.mem_map.mp first with ⟨run, cancelled, rfl⟩
    rcases List.mem_map.mp second with ⟨other, listed, rfl⟩
    rcases mem_dropped.mp cancelled with ⟨⟨stored, _⟩, _, gone⟩
    cases fromRow_of_mem (List.mem_filter.mp listed).1 with
    | moved place row other_stored later row_listed found waits moved =>
        rw [moved] at same
        have one := p.runs.eq_of_mem stored (of_known found).1 same
        apply gone row row_listed
        rw [one, (of_known found).2]
    | created place row number later row_listed missing above created =>
        rw [created, id_positioned, rowSeed_run_id] at same
        exact free.ne stored above same
  · intro run brought
    rcases List.mem_append.mp brought with cancelled | listed
    · rcases List.mem_map.mp cancelled with ⟨old, dropped, rfl⟩
      rw [show (cancelledRun now old).id = old.id from rfl,
        Table.get_of_mem (mem_dropped.mp dropped).1.1]
      exact preserving_of_same rfl rfl
    · cases fromRow_of_mem (List.mem_filter.mp listed).1 with
      | moved place row stored later row_listed found waits moved =>
          rw [moved, id_positioned, Table.get_of_mem (of_known found).1]
          exact preserving_of_same rfl rfl
      | created place row number later row_listed missing above created =>
          rw [created, id_positioned, rowSeed_run_id, free.run number above]
          rw [Run.preserving, Option.bind_none, Option.bind_none, Option.or_none, Option.or_none]

/-! ## The rows after a sync -/

/-- The kinds of events that a sync plans for runs. -/
structure AboutRuns (event : Event) : Prop where
  thread : event.thread? = none
  roster : event.bringsRoster = false
  provider : event.providerThread? = none

theorem aboutRuns_cancelGraph (listed : event ∈ p.cancelGraph now run) : AboutRuns event := by
  rcases List.mem_cons.mp listed with rfl | rest
  · exact ⟨rfl, rfl, rfl⟩
  · rcases List.mem_append.mp rest with attempt | root
    · rcases Option.map_eq_some_iff.mp (Option.mem_toList.mp attempt) with ⟨_, _, rfl⟩
      exact ⟨rfl, rfl, rfl⟩
    · rcases Option.map_eq_some_iff.mp (Option.mem_toList.mp root) with ⟨_, _, rfl⟩
      exact ⟨rfl, rfl, rfl⟩

theorem aboutRuns_editRow (listed : event ∈ p.editRow now index run row) : AboutRuns event := by
  rcases List.mem_append.mp listed with message | moved
  · rcases List.mem_map.mp message with ⟨_, _, rfl⟩
    exact ⟨rfl, rfl, rfl⟩
  · split at moved
    · cases moved
    · rcases List.mem_singleton.mp moved with rfl
      exact ⟨rfl, rfl, rfl⟩

theorem aboutRuns_createRow (listed : event ∈ p.createRow driver index ordinal row) :
    AboutRuns event := by
  rw [createRow] at listed
  simp only [List.mem_cons, List.not_mem_nil, or_false] at listed
  rcases listed with rfl | rfl | rfl | rfl <;> exact ⟨rfl, rfl, rfl⟩

theorem aboutRuns_syncRows (listed : event ∈ p.syncRows now driver index ordinal rows) :
    AboutRuns event := by
  induction rows generalizing index ordinal with
  | nil => cases listed
  | cons row rows ih =>
      rw [syncRows] at listed
      cases found : p.known row.id with
      | some stored =>
          rw [found] at listed
          rcases List.mem_append.mp listed with first | rest
          · split at first
            · exact aboutRuns_editRow first
            · cases first
          · exact ih rest
      | none =>
          rw [found] at listed
          rcases List.mem_append.mp listed with first | rest
          · exact aboutRuns_createRow first
          · exact ih rest

theorem aboutRuns_intentEvents (listed : event ∈ p.intentEvents now driver previous rows) :
    AboutRuns event := by
  rcases List.mem_append.mp listed with gone | kept
  · rcases List.mem_flatMap.mp gone with ⟨run, _, cancels⟩
    exact aboutRuns_cancelGraph cancels
  · exact aboutRuns_syncRows kept

/-- An accepted sync: the events about runs, and then the thread's own. -/
theorem of_syncLoro {events : List Event}
    (planned : p.syncLoro now driver previous rows = some events) :
    p.thread.deletedAt = none ∧ ∃ threads : List AppThread,
      events = p.intentEvents now driver previous rows ++ threads.map .thread ∧
        ∀ thread ∈ threads, SameBinding p.thread thread := by
  rw [syncLoro] at planned
  split at planned
  · cases planned
  · rename_i kept
    rw [Bool.not_eq_true, Option.isSome_eq_false_iff, Option.isNone_iff_eq_none] at kept
    refine ⟨kept, ?_⟩
    rcases Option.some.inj planned with rfl
    split
    · rename_i creates
      split
      · rename_i empty
        rw [List.isEmpty_iff, List.append_eq_nil_iff] at empty
        rw [empty.1] at creates
        cases creates
      · exact Exists.imp (fun _ both => ⟨congrArg _ both.1, both.2⟩) (p.clearParking_eq now)
    · split
      · rename_i empty
        rw [List.isEmpty_iff] at empty
        refine ⟨[p.thread], by rw [empty]; rfl, ?_⟩
        intro thread listed
        rcases List.mem_singleton.mp listed with rfl
        exact ⟨rfl, rfl, rfl⟩
      · refine ⟨[], (List.append_nil _).symm, ?_⟩
        intro thread listed
        cases listed

section Applied

variable {events : List Event} (planned : p.syncLoro now driver previous rows = some events)
  (applied : p.applyAll now events = some q)

include planned

theorem filterMap_syncLoro {ρ : Type} (read : Event → Option ρ)
    (silent : ∀ thread, read (.thread thread) = none) :
    events.filterMap read = (p.intentEvents now driver previous rows).filterMap read := by
  rcases of_syncLoro planned with ⟨_, threads, rfl, _⟩
  have nothing : (threads.map Event.thread).filterMap read = [] := by
    apply List.filterMap_eq_nil_iff.mpr
    intro event listed
    rcases List.mem_map.mp listed with ⟨thread, _, rfl⟩
    exact silent thread
  rw [List.filterMap_append, nothing, List.append_nil]

theorem bringsRoster_syncLoro : ∀ event ∈ events, event.bringsRoster = false := by
  rcases of_syncLoro planned with ⟨_, threads, rfl, _⟩
  intro event listed
  rcases List.mem_append.mp listed with about | own
  · exact (aboutRuns_intentEvents about).roster
  · rcases List.mem_map.mp own with ⟨thread, _, rfl⟩
    rfl

include applied

theorem runs_of_syncLoro (free : p.Free) (distinct : (rows.map QueuedMessage.id).Nodup) :
    q.runs = p.runs.touchAll (p.broughtRuns now driver previous rows) := by
  have brought : events.filterMap Event.run? = p.broughtRuns now driver previous rows := by
    rw [filterMap_syncLoro planned Event.run? fun _ => rfl, filterMap_run_intentEvents free]
  have records := records_broughtRuns now driver previous free distinct
  rw [← brought] at records ⊢
  exact runs_of_applyAll records (bringsRoster_syncLoro planned) applied

/-- Neither the deletion of the thread nor its binding is touched. -/
theorem thread_of_syncLoro : q.thread.deletedAt = p.thread.deletedAt ∧
    q.thread.activeProviderThreadId = p.thread.activeProviderThreadId := by
  rcases of_syncLoro planned with ⟨_, threads, rfl, kept⟩
  have told : ∀ event ∈ p.intentEvents now driver previous rows ++ threads.map .thread,
      ∀ thread ∈ event.thread?, SameBinding p.thread thread := by
    intro event listed thread brought
    rcases List.mem_append.mp listed with about | own
    · rw [(aboutRuns_intentEvents about).thread] at brought
      cases brought
    · rcases List.mem_map.mp own with ⟨row, row_listed, rfl⟩
      rcases Option.some.inj brought with rfl
      exact kept row row_listed
  have unbound : ∀ event ∈ p.intentEvents now driver previous rows ++ threads.map .thread,
      event.providerThread? = none := by
    intro event listed
    rcases List.mem_append.mp listed with about | own
    · exact (aboutRuns_intentEvents about).provider
    · rcases List.mem_map.mp own with ⟨row, _, rfl⟩
      rfl
  have view := thread_of_applyAll
    (fun thread => (thread.deletedAt, thread.activeProviderThreadId))
    (p.thread.deletedAt, p.thread.activeProviderThreadId) (fun _ _ => rfl)
    (fun event listed thread brought => Prod.ext (told event listed thread brought).deletedAt
      (told event listed thread brought).active)
    (fun event listed provider brought => by
      rw [unbound event listed] at brought
      cases brought) applied rfl
  exact Prod.ext_iff.mp view

end Applied

section Runs

variable {events : List Event} (planned : p.syncLoro now driver previous rows = some events)
  (applied : p.applyAll now events = some q) (free : p.Free)
  (distinct : (rows.map QueuedMessage.id).Nodup)

include free distinct in
/-- A queued run of a row is not cancelled. -/
theorem not_brought_of_kept (listed : run ∈ p.rowRuns driver 0 p.lastRunOrdinal rows)
    (kept : p.runs.get run.id = some run) :
    run.id ∉ (p.broughtRuns now driver previous rows).map Run.id := by
  intro again
  rcases List.mem_map.mp again with ⟨other, brought, same⟩
  rcases List.mem_append.mp brought with cancelled | moved
  · rcases List.mem_map.mp cancelled with ⟨old, dropped, rfl⟩
    rcases mem_dropped.mp dropped with ⟨⟨stored, _⟩, _, gone⟩
    have one : old = run := p.runs.eq_of_mem stored (Table.mem_of_get kept) same
    rcases (fromRow_of_mem listed).message with ⟨row, row_listed, row_eq, _⟩
    exact gone row row_listed (one ▸ row_eq)
  · rcases List.mem_filter.mp moved with ⟨other_listed, changed⟩
    have one : other = run := List.inj_on_of_nodup_map
      (distinct_rowRuns free distinct (le_refl _)) other_listed listed same
    rw [one, kept] at changed
    exact of_decide_eq_true changed rfl

include planned applied free distinct

theorem get_dropped (gone : run ∈ p.dropped previous rows) :
    q.runs.get run.id = some (cancelledRun now run) := by
  rw [runs_of_syncLoro planned applied free distinct]
  exact Table.get_touchAll_of_mem (records_broughtRuns now driver previous free distinct).distinct
    (List.mem_append_left _ (List.mem_map_of_mem gone))

theorem get_rowRun (listed : run ∈ p.rowRuns driver 0 p.lastRunOrdinal rows) :
    q.runs.get run.id = some run := by
  rw [runs_of_syncLoro planned applied free distinct]
  by_cases kept : p.runs.get run.id = some run
  · rw [Table.get_touchAll_of_notMem (not_brought_of_kept free distinct listed kept), kept]
  · exact Table.get_touchAll_of_mem (records_broughtRuns now driver previous free distinct).distinct
      (List.mem_append_right _ (List.mem_filter.mpr ⟨listed, decide_eq_true kept⟩))

theorem get_unqueued (stored : run ∈ p.runs.rows) (started : run.status ≠ .queued) :
    q.runs.get run.id = some run := by
  rw [runs_of_syncLoro planned applied free distinct, Table.get_touchAll_of_notMem,
    Table.get_of_mem stored]
  intro again
  rcases List.mem_map.mp again with ⟨other, brought, same⟩
  rcases List.mem_append.mp brought with cancelled | moved
  · rcases List.mem_map.mp cancelled with ⟨old, dropped, rfl⟩
    rcases mem_dropped.mp dropped with ⟨⟨old_stored, waits⟩, _⟩
    have one : old = run := p.runs.eq_of_mem old_stored stored same
    exact started (one ▸ waits)
  · cases fromRow_of_mem (List.mem_filter.mp moved).1 with
    | moved place row old later row_listed found waits moved =>
        rw [moved] at same
        have one : old = run := p.runs.eq_of_mem (of_known found).1 stored same
        exact started (one ▸ waits)
    | created place row number later row_listed missing above created =>
        rw [created, id_positioned, rowSeed_run_id] at same
        exact free.ne stored above same.symm

/-- Where the runs after a sync come from. -/
theorem of_mem_runs (stored : run ∈ q.runs.rows) :
    (∃ old ∈ p.dropped previous rows, run = cancelledRun now old) ∨
      run ∈ p.rowRuns driver 0 p.lastRunOrdinal rows ∨
        (run ∈ p.runs.rows ∧ run.id ∉ (p.broughtRuns now driver previous rows).map Run.id) := by
  have found := Table.get_of_mem stored
  rw [runs_of_syncLoro planned applied free distinct] at found
  rcases Table.of_get_touchAll found with ⟨listed, _⟩ | ⟨brought, found⟩
  · rcases List.mem_append.mp listed with cancelled | moved
    · rcases List.mem_map.mp cancelled with ⟨old, dropped, same⟩
      exact .inl ⟨old, dropped, same.symm⟩
    · exact .inr (.inl (List.mem_filter.mp moved).1)
  · exact .inr (.inr ⟨Table.mem_of_get found, brought⟩)

end Runs

/-- What the rows ask of the thread: no two rows of one id, no second run of a message of
a row that has a queued one, and ids that the next runs can take. -/
structure Admits (p : ThreadProjection) (rows : List QueuedMessage) : Prop where
  distinct : (rows.map QueuedMessage.id).Nodup
  single : ∀ row ∈ rows, ∀ run ∈ p.runs.rows, ∀ other ∈ p.runs.rows,
    run.userMessageId = row.id → other.userMessageId = row.id → run.status = .queued → run = other
  free : p.Free

/-- No row has a queued run whose message is from delegated work. -/
def Plain (p : ThreadProjection) (rows : List QueuedMessage) : Prop :=
  ∀ row ∈ rows, ∀ run ∈ p.known row.id, run.status = .queued →
    ∀ message, p.messages.get row.id = some message → message.delegatedParent = none

theorem exists_mem_rowRuns (driver : String) (index : Nat) (ordinal : Int) (listed : row ∈ rows)
    (found : p.known row.id = some run)
    (waits : run.status = .queued) :
    ∃ place, positioned place run ∈ p.rowRuns driver index ordinal rows := by
  induction rows generalizing index ordinal with
  | nil => cases listed
  | cons first rows ih =>
      rw [rowRuns]
      rcases List.mem_cons.mp listed with rfl | later
      · rw [found]
        dsimp only
        rw [if_pos waits]
        exact ⟨index, List.mem_cons_self⟩
      · cases p.known first.id with
        | some stored =>
            rcases ih (index + 1) ordinal later with ⟨place, placed⟩
            exact ⟨place, List.mem_append_right _ placed⟩
        | none =>
            rcases ih (index + 1) (ordinal + 1) later with ⟨place, placed⟩
            exact ⟨place, List.mem_cons_of_mem _ placed⟩

section Admitted

variable {events : List Event} (planned : p.syncLoro now driver previous rows = some events)
  (applied : p.applyAll now events = some q) (admits : p.Admits rows)

include admits in
theorem Admits.known_eq (listed : row ∈ rows) (stored : run ∈ p.runs.rows)
    (same : run.userMessageId = row.id) (waits : run.status = .queued) :
    p.known row.id = some run := by
  cases found : p.known row.id with
  | none => exact absurd same (known_eq_none_iff.mp found run stored)
  | some other =>
      rcases of_known found with ⟨other_stored, other_same⟩
      rw [admits.single row listed run stored other other_stored same other_same waits]

include planned applied admits

/-- After a sync, a queued run with the message of a row is the run of its row. -/
theorem mem_rowRuns_of_queued (stored : run ∈ q.runs.rows) (waits : run.status = .queued)
    (listed : row ∈ rows) (same : run.userMessageId = row.id) :
    run ∈ p.rowRuns driver 0 p.lastRunOrdinal rows := by
  rcases of_mem_runs planned applied admits.free admits.distinct stored with
    ⟨old, _, rfl⟩ | placed | ⟨before, unwritten⟩
  · cases waits
  · exact placed
  · have found := admits.known_eq listed before same waits
    rcases exists_mem_rowRuns driver 0 p.lastRunOrdinal listed found waits with ⟨place, placed⟩
    by_cases kept : p.runs.get run.id = some (positioned place run)
    · rw [Table.get_of_mem before] at kept
      rw [Option.some.inj kept]
      exact placed
    · exfalso
      apply unwritten
      apply List.mem_map.mpr
      refine ⟨positioned place run, List.mem_append_right _ (List.mem_filter.mpr ⟨placed, ?_⟩), rfl⟩
      exact decide_eq_true kept

end Admitted

/-! ## The messages and the executions -/

variable {message : Message}

theorem of_mem_messages
    (listed : message ∈ (p.syncRows now driver index ordinal rows).filterMap Event.message?) :
    ∃ row ∈ rows, message.id = row.id ∧ message.text = row.text ∧
      (message.delegatedParent = none ∨ ∃ run ∈ p.known row.id, run.status = .queued ∧
        ∃ old, p.messages.get row.id = some old ∧
          message.delegatedParent = old.delegatedParent) := by
  induction rows generalizing index ordinal with
  | nil => cases listed
  | cons row rows ih =>
      rw [syncRows] at listed
      cases found : p.known row.id with
      | some stored =>
          rw [found] at listed
          rw [List.filterMap_append, List.mem_append] at listed
          rcases listed with first | rest
          · rcases List.mem_filterMap.mp first with ⟨event, event_listed, brought⟩
            split at event_listed
            · rename_i waits
              rcases List.mem_append.mp event_listed with edit | moved
              · rcases List.mem_map.mp edit with ⟨old, old_listed, rfl⟩
                rcases Option.some.inj brought with rfl
                have old_found := Option.mem_toList.mp (List.mem_filter.mp old_listed).1
                have same : old.id = row.id := Table.key_of_get old_found
                exact ⟨row, List.mem_cons_self, same, rfl,
                  .inr ⟨stored, found, waits, old, old_found, rfl⟩⟩
              · split at moved
                · cases moved
                · rcases List.mem_singleton.mp moved with rfl
                  cases brought
            · cases event_listed
          · rcases ih rest with ⟨other, other_listed, same⟩
            exact ⟨other, List.mem_cons_of_mem _ other_listed, same⟩
      | none =>
          rw [found] at listed
          rw [List.filterMap_append, List.mem_append] at listed
          rcases listed with first | rest
          · rcases List.mem_singleton.mp first with rfl
            exact ⟨row, List.mem_cons_self, rfl, rfl, .inl rfl⟩
          · rcases ih rest with ⟨other, other_listed, same⟩
            exact ⟨other, List.mem_cons_of_mem _ other_listed, same⟩

/-- The message of a row without a run is written. -/
theorem written_of_new (listed : row ∈ rows) (missing : p.known row.id = none) :
    row.id ∈ ((p.syncRows now driver index ordinal rows).filterMap Event.message?).map
      Message.id := by
  induction rows generalizing index ordinal with
  | nil => cases listed
  | cons first rows ih =>
      rw [syncRows]
      rcases List.mem_cons.mp listed with rfl | later
      · rw [missing]
        exact List.mem_append_left _ (List.mem_singleton.mpr rfl)
      · cases p.known first.id <;>
        · rw [List.filterMap_append, List.map_append]
          exact List.mem_append_right _ (ih later)

/-- A row whose message is not written has its text already. -/
theorem text_of_unwritten (listed : row ∈ rows)
    (waits : ∀ run ∈ p.known row.id, run.status = .queued)
    (unwritten : row.id ∉ ((p.syncRows now driver index ordinal rows).filterMap Event.message?).map
      Message.id) (found : p.messages.get row.id = some message) : message.text = row.text := by
  induction rows generalizing index ordinal with
  | nil => cases listed
  | cons first rows ih =>
      have outside := unwritten
      rw [syncRows] at unwritten
      rcases List.mem_cons.mp listed with rfl | later
      · cases known_row : p.known row.id with
        | some stored =>
            rw [known_row] at unwritten
            dsimp only at unwritten
            rw [if_pos (waits stored known_row)] at unwritten
            by_contra other
            have same : message.id = row.id := Table.key_of_get found
            apply unwritten
            apply List.mem_map.mpr
            refine ⟨{ message with text := row.text, updatedAt := now }, ?_, same⟩
            apply List.mem_filterMap.mpr
            refine ⟨.messageUpdated { message with text := row.text, updatedAt := now }, ?_, rfl⟩
            apply List.mem_append_left
            apply List.mem_append_left
            apply List.mem_map.mpr
            refine ⟨message, List.mem_filter.mpr ⟨Option.mem_toList.mpr found, ?_⟩, rfl⟩
            exact bne_iff_ne.mpr other
        | none =>
            exact absurd (written_of_new List.mem_cons_self known_row) outside
      · have rest : ∀ {index : Nat} {ordinal : Int} {before : List Event},
            row.id ∉ ((before ++ p.syncRows now driver index ordinal rows).filterMap
              Event.message?).map Message.id → message.text = row.text := by
          intro index ordinal before outside
          have kept : row.id ∉ ((p.syncRows now driver index ordinal rows).filterMap
              Event.message?).map Message.id := by
            intro inside
            apply outside
            rw [List.filterMap_append, List.map_append]
            exact List.mem_append_right _ inside
          exact ih later kept
        cases known_first : p.known first.id with
        | some stored =>
            rw [known_first] at unwritten
            exact rest unwritten
        | none =>
            rw [known_first] at unwritten
            exact rest unwritten

/-- What only new rows bring carries the ordinal of a new run. -/
theorem of_mem_created {ρ : Type} {read : Event → Option ρ} {made : Int → ρ → Prop} {value : ρ}
    (edits : ∀ index run row, ∀ event ∈ p.editRow now index run row, read event = none)
    (creates : ∀ index number row, ∀ event ∈ p.createRow driver index number row,
      ∀ value ∈ read event, made number value)
    (listed : value ∈ (p.syncRows now driver index ordinal rows).filterMap read) :
    ∃ number, ordinal < number ∧ made number value := by
  induction rows generalizing index ordinal with
  | nil => cases listed
  | cons row rows ih =>
      rw [syncRows] at listed
      cases found : p.known row.id with
      | some stored =>
          rw [found] at listed
          rw [List.filterMap_append, List.mem_append] at listed
          rcases listed with first | rest
          · exfalso
            rcases List.mem_filterMap.mp first with ⟨event, event_listed, brought⟩
            split at event_listed
            · rw [edits index stored row event event_listed] at brought
              cases brought
            · cases event_listed
          · exact ih rest
      | none =>
          rw [found] at listed
          rw [List.filterMap_append, List.mem_append] at listed
          rcases listed with first | rest
          · rcases List.mem_filterMap.mp first with ⟨event, event_listed, brought⟩
            exact ⟨ordinal + 1, by omega, creates index (ordinal + 1) row event event_listed value brought⟩
          · rcases ih rest with ⟨number, above, same⟩
            exact ⟨number, by omega, same⟩

theorem of_mem_editRow (listed : event ∈ p.editRow now index run row) :
    event.attempt? = none ∧ event.node? = none ∧ event.createsRun = false := by
  rcases List.mem_append.mp listed with edit | moved
  · rcases List.mem_map.mp edit with ⟨old, _, rfl⟩
    exact ⟨rfl, rfl, rfl⟩
  · split at moved
    · cases moved
    · rcases List.mem_singleton.mp moved with rfl
      exact ⟨rfl, rfl, rfl⟩

variable {attempt : Attempt}

theorem of_mem_attempts
    (listed : attempt ∈ (p.syncRows now driver index ordinal rows).filterMap Event.attempt?) :
    ∃ number, ordinal < number ∧ attempt.id = seedAttemptId (seedRunId p.thread.id number) := by
  apply of_mem_created (fun _ _ _ _ edit => (of_mem_editRow edit).1) _ listed
  intro index number row event created attempt brought
  rw [createRow] at created
  simp only [List.mem_cons, List.not_mem_nil, or_false] at created
  rcases created with rfl | rfl | rfl | rfl <;> cases brought
  exact p.rowSeed_attempt_id driver number row

theorem of_mem_nodes {node : Node}
    (listed : node ∈ (p.syncRows now driver index ordinal rows).filterMap Event.node?) :
    ∃ number, ordinal < number ∧ node.id = seedRootId (seedRunId p.thread.id number) := by
  apply of_mem_created (fun _ _ _ _ edit => (of_mem_editRow edit).2.1) _ listed
  intro index number row event created node brought
  rw [createRow] at created
  simp only [List.mem_cons, List.not_mem_nil, or_false] at created
  rcases created with rfl | rfl | rfl | rfl <;> cases brought
  exact p.rowSeed_root_id driver number row

/-- A run is created for a message that has none. -/
theorem of_runCreated (listed : .runCreated run ∈ p.intentEvents now driver previous rows) :
    ∀ other ∈ p.runs.rows, other.userMessageId ≠ run.userMessageId := by
  rcases List.mem_append.mp listed with gone | kept
  · exfalso
    rcases List.mem_flatMap.mp gone with ⟨old, _, cancels⟩
    rcases List.mem_cons.mp cancels with same | rest
    · cases same
    · rcases List.mem_append.mp rest with attempt | root
      · rcases Option.map_eq_some_iff.mp (Option.mem_toList.mp attempt) with ⟨_, _, same⟩
        cases same
      · rcases Option.map_eq_some_iff.mp (Option.mem_toList.mp root) with ⟨_, _, same⟩
        cases same
  · suffices unknown : ∀ rows index ordinal,
        .runCreated run ∈ p.syncRows now driver index ordinal rows →
          p.known run.userMessageId = none from
      known_eq_none_iff.mp (unknown rows 0 p.lastRunOrdinal kept)
    intro rows
    induction rows with
    | nil =>
        intro _ _ listed
        cases listed
    | cons row rows ih =>
        intro index ordinal listed
        rw [syncRows] at listed
        cases found : p.known row.id with
        | some stored =>
            rw [found] at listed
            rcases List.mem_append.mp listed with first | rest
            · split at first
              · cases (of_mem_editRow first).2.2
              · cases first
            · exact ih _ _ rest
        | none =>
            rw [found] at listed
            rcases List.mem_append.mp listed with first | rest
            · rw [createRow] at first
              simp only [List.mem_cons, List.not_mem_nil, or_false, reduceCtorEq] at first
              rcases p.rowSeed_run driver (ordinal + 1) row with ⟨_, seed⟩
              rw [seed] at first
              cases first
              exact found
            · exact ih _ _ rest

/-! ## The queue after a sync -/

/-- The message of the run was or is an intent. -/
def intended (previous rows : List QueuedMessage) (run : Run) : Bool :=
  (previous.any fun intent => intent.id == run.userMessageId) ||
    rows.any fun row => row.id == run.userMessageId

/-- The message has a run that is not queued. -/
def left (p : ThreadProjection) (messageId : String) : Bool :=
  p.runs.rows.any fun run => run.userMessageId == messageId && run.status != .queued

section Queue

variable {events : List Event} (planned : p.syncLoro now driver previous rows = some events)
  (applied : p.applyAll now events = some q) (admits : p.Admits rows)

include planned applied in
theorem messages_of_syncLoro : q.messages = p.messages.touchAll
    ((p.syncRows now driver 0 p.lastRunOrdinal rows).filterMap Event.message?) := by
  rw [messages_of_applyAll applied, filterMap_syncLoro planned Event.message? fun _ => rfl,
    intentEvents, List.filterMap_append, filterMap_cancelGraph]
  have nothing : (p.dropped previous rows).flatMap (fun run =>
      (p.cancelGraph now run).filterMap Event.message?) = [] := by
    apply List.flatMap_eq_nil_iff.mpr
    intro run _
    rw [cancelGraph]
    cases p.attemptOf run <;> cases p.rootOf run <;> rfl
  rw [nothing, List.nil_append]

theorem stored_of_attemptOf (active : p.attemptOf run = some attempt) :
    p.attempts.get attempt.id = some attempt := by
  rw [attemptOf] at active
  split at active
  · rcases Option.bind_eq_some_iff.mp active with ⟨id, _, read⟩
    exact Table.get_of_mem (Table.mem_of_get read)
  · cases active

theorem stored_of_rootOf {root : Node} (active : p.rootOf run = some root) :
    p.nodes.get root.id = some root := by
  rcases Option.bind_eq_some_iff.mp active with ⟨id, _, read⟩
  exact Table.get_of_mem (Table.mem_of_get read)

/-- What belongs to a run that is cancelled is cancelled with it. -/
theorem get_cancelled_of_dropped {ρ : Type} {key : ρ → String} {table : Table key}
    {read : Event → Option ρ} (active : Run → Option ρ) (cancelled : ρ → ρ)
    (brings : ∀ run, (p.cancelGraph now run).filterMap read = ((active run).map cancelled).toList)
    (stored : ∀ {run row}, active run = some row → table.get (key row) = some row)
    (key_kept : ∀ row, key (cancelled row) = key row)
    (created : ∀ row ∈ (p.syncRows now driver 0 p.lastRunOrdinal rows).filterMap read,
      table.get (key row) = none)
    (gone : run ∈ p.dropped previous rows) {row : ρ} (found : active run = some row) :
    (table.touchAll ((p.intentEvents now driver previous rows).filterMap read)).get (key row) =
      some (cancelled row) := by
  have listed : cancelled row ∈ (p.intentEvents now driver previous rows).filterMap read := by
    rw [intentEvents, List.filterMap_append, filterMap_cancelGraph]
    apply List.mem_append_left
    refine List.mem_flatMap.mpr ⟨run, gone, ?_⟩
    rw [brings, found]
    exact List.mem_singleton_self _
  have written := List.mem_map_of_mem (f := key) listed
  rw [key_kept] at written
  rcases table.exists_get_touchAll written with ⟨last, brought, same, shown⟩
  rw [shown]
  rw [intentEvents, List.filterMap_append, filterMap_cancelGraph, List.mem_append] at brought
  rcases brought with of_run | of_row
  · rcases List.mem_flatMap.mp of_run with ⟨other, _, given⟩
    rw [brings] at given
    rcases Option.map_eq_some_iff.mp (Option.mem_toList.mp given) with ⟨old, old_found, rfl⟩
    have one : old = row := table.eq_of_mem (Table.mem_of_get (stored old_found))
      (Table.mem_of_get (stored found)) ((key_kept old).symm.trans same)
    rw [one]
  · have missing := created last of_row
    rw [same, stored found] at missing
    cases missing

include planned applied

/-- The message of a row without a started run is not the result of delegated work. -/
theorem plain_of_syncLoro (plain : p.Plain rows) (listed : row ∈ rows)
    (waits : ∀ run ∈ p.known row.id, run.status = .queued)
    (found : q.messages.get row.id = some message) : message.delegatedParent = none := by
  rw [messages_of_syncLoro planned applied] at found
  rcases Table.of_get_touchAll found with ⟨brought, same⟩ | ⟨unwritten, found⟩
  · rcases of_mem_messages brought with
      ⟨other, other_listed, _, _, own | ⟨run, known, queued, old, old_found, kept⟩⟩
    · exact own
    · rw [kept]
      exact plain other other_listed run known queued old old_found
  · cases known : p.known row.id with
    | none => exact absurd (written_of_new listed known) unwritten
    | some run => exact plain row listed run known (waits run known) message found

include admits

/-- The message of a row whose run is queued has the text of the row. -/
theorem text_of_syncLoro (listed : row ∈ rows)
    (waits : ∀ run ∈ p.known row.id, run.status = .queued)
    (found : q.messages.get row.id = some message) : message.text = row.text := by
  rw [messages_of_syncLoro planned applied] at found
  rcases Table.of_get_touchAll found with ⟨brought, same⟩ | ⟨written, found⟩
  · rcases of_mem_messages brought with ⟨other, other_listed, id_same, text_same, _⟩
    have one : other = row := List.inj_on_of_nodup_map admits.distinct other_listed listed
      (id_same.symm.trans same)
    rw [text_same, one]
  · exact text_of_unwritten listed waits written found

omit admits in
theorem automatic_rowRuns (plain : p.Plain rows)
    (listed : run ∈ p.rowRuns driver 0 p.lastRunOrdinal rows) : q.automatic run = false := by
  rcases (fromRow_of_mem listed).message with ⟨row, row_listed, same, waits⟩
  rw [automatic, ← same]
  cases found : q.messages.get row.id with
  | none => rfl
  | some message =>
      rw [Option.any_some, plain_of_syncLoro planned applied plain row_listed waits found]
      rfl

/-- The queued runs of intents are the runs of the rows, in their order. -/
theorem filter_queued (plain : p.Plain rows) : q.queued.filter (intended previous rows) =
    p.rowRuns driver 0 p.lastRunOrdinal rows := by
  apply filter_sortBy_eq_of_perm
  · apply (List.perm_ext_iff_of_nodup _ _).mpr
    · intro run
      rw [List.mem_filter, List.mem_filter, mem_orderedRuns, beq_iff_eq]
      constructor
      · intro listed
        rcases (fromRow_of_mem listed).message with ⟨row, row_listed, same, _⟩
        refine ⟨⟨Table.mem_of_get (get_rowRun planned applied admits.free admits.distinct listed),
          (fromRow_of_mem listed).status⟩, ?_⟩
        rw [intended, Bool.or_eq_true]
        exact .inr (List.any_eq_true.mpr ⟨row, row_listed, beq_iff_eq.mpr same⟩)
      · rintro ⟨⟨stored, waits⟩, intends⟩
        by_cases listed : ∃ row ∈ rows, row.id = run.userMessageId
        · rcases listed with ⟨row, row_listed, same⟩
          exact mem_rowRuns_of_queued planned applied admits stored waits row_listed same.symm
        · rcases of_mem_runs planned applied admits.free admits.distinct stored with
            ⟨old, _, rfl⟩ | placed | ⟨before, unwritten⟩
          · cases waits
          · exact placed
          · exfalso
            apply unwritten
            have gone : run ∈ p.dropped previous rows := by
              refine mem_dropped.mpr ⟨⟨before, waits⟩, ?_, ?_⟩
              · rcases (Bool.or_eq_true _ _).mp intends with was | is
                · rcases List.any_eq_true.mp was with ⟨intent, intent_listed, same⟩
                  exact ⟨intent, intent_listed, beq_iff_eq.mp same⟩
                · rcases List.any_eq_true.mp is with ⟨row, row_listed, same⟩
                  exact absurd ⟨row, row_listed, beq_iff_eq.mp same⟩ listed
              · intro row row_listed same
                exact listed ⟨row, row_listed, same⟩
            exact List.mem_map.mpr
              ⟨cancelledRun now run, List.mem_append_left _ (List.mem_map_of_mem gone), rfl⟩
    · exact List.Nodup.of_map _ (distinct_rowRuns admits.free admits.distinct (le_refl _))
    · apply (List.filter_sublist.trans List.filter_sublist).nodup
      exact q.pairwise_orderedRuns.imp fun less same => (ne_of_lt less) (congrArg rowKey same)
  · apply pairwise_rowRuns.imp_of_mem
    rintro first second first_listed second_listed ⟨earlier, later, less, first_at, second_at⟩
    rw [queueKey, queueKey, automatic_rowRuns planned applied plain first_listed,
      automatic_rowRuns planned applied plain second_listed, first_at, second_at]
    apply Prod.Lex.toLex_lt_toLex.mpr
    refine .inr ⟨rfl, Prod.Lex.toLex_lt_toLex.mpr (.inl ?_)⟩
    rw [Option.getD_some, Option.getD_some]
    omega

/-- A row has a run that is not queued if its first run was not. -/
theorem left_of_syncLoro (listed : row ∈ rows) :
    (!q.left row.id) = (p.known row.id).all fun run => run.status == .queued := by
  have others : ∀ run ∈ q.runs.rows, run.userMessageId = row.id → run.status ≠ .queued →
      run ∈ p.runs.rows := by
    intro run stored same started
    rcases of_mem_runs planned applied admits.free admits.distinct stored with
      ⟨old, gone, rfl⟩ | placed | ⟨before, _⟩
    · exact absurd same.symm ((mem_dropped.mp gone).2.2 row listed)
    · exact absurd (fromRow_of_mem placed).status started
    · exact before
  cases found : p.known row.id with
  | none =>
      rw [Option.all_none, Bool.not_eq_true', left, List.any_eq_false]
      intro run stored both
      rw [Bool.and_eq_true, beq_iff_eq, bne_iff_ne] at both
      exact known_eq_none_iff.mp found run (others run stored both.1 both.2) both.1
  | some known =>
      rcases of_known found with ⟨known_stored, known_same⟩
      rw [Option.all_some]
      by_cases waits : known.status = .queued
      · rw [beq_iff_eq.mpr waits, Bool.not_eq_true', left, List.any_eq_false]
        intro run stored both
        rw [Bool.and_eq_true, beq_iff_eq, bne_iff_ne] at both
        have one := admits.single row listed known known_stored run (others run stored both.1 both.2)
          known_same both.1 waits
        exact both.2 (one ▸ waits)
      · rw [beq_eq_false_iff_ne.mpr waits, Bool.not_eq_false', left, List.any_eq_true]
        refine ⟨known, Table.mem_of_get (get_unqueued planned applied admits.free admits.distinct
          known_stored waits), ?_⟩
        rw [Bool.and_eq_true, beq_iff_eq, bne_iff_ne]
        exact ⟨known_same, waits⟩

theorem queue_of_syncLoro (plain : p.Plain rows) : (q.queued.filter (intended previous rows)).map Run.userMessageId =
    (rows.filter fun row => !q.left row.id).map QueuedMessage.id := by
  rw [filter_queued planned applied admits plain, map_userMessageId_rowRuns]
  congr 1
  apply List.filter_congr
  intro row listed
  exact (left_of_syncLoro planned applied admits listed).symm

omit admits

theorem get_attempt_of_dropped (free : p.Free) (gone : run ∈ p.dropped previous rows)
    (active : p.attemptOf run = some attempt) :
    q.attempts.get attempt.id = some (cancelledAttempt now attempt) := by
  rw [attempts_of_applyAll applied, filterMap_syncLoro planned Event.attempt? fun _ => rfl]
  apply get_cancelled_of_dropped p.attemptOf (cancelledAttempt now) _ stored_of_attemptOf (fun _ => rfl) _ gone active
  · intro other
    rw [cancelGraph]
    cases p.attemptOf other <;> cases p.rootOf other <;> rfl
  · intro created listed
    rcases of_mem_attempts listed with ⟨number, above, made⟩
    rw [made, free.attempt number above]

theorem get_root_of_dropped (free : p.Free) (gone : run ∈ p.dropped previous rows) {root : Node}
    (active : p.rootOf run = some root) :
    q.nodes.get root.id = some (cancelledNode now root) := by
  rw [nodes_of_applyAll applied, filterMap_syncLoro planned Event.node? fun _ => rfl]
  apply get_cancelled_of_dropped p.rootOf (cancelledNode now) _ stored_of_rootOf (fun _ => rfl) _ gone active
  · intro other
    rw [cancelGraph]
    cases p.attemptOf other <;> cases p.rootOf other <;> rfl
  · intro created listed
    rcases of_mem_nodes listed with ⟨number, above, made⟩
    rw [made, free.root number above]

end Queue

end ThreadProjection

end Zeron.Threads
