import Zeron.Threads.Background
import Zeron.Threads.LoroQueue

/-!
# A sync is exact and stable

After a sync the queued intents are the rows in their order, and the same rows bring
nothing further.
-/

namespace Zeron.Threads

open Data
open Orchestration (RunStatus)

namespace ThreadProjection

variable {p q : ThreadProjection} {now : Int} {driver : String} {index : Nat} {ordinal : Int}
  {row : QueuedMessage} {previous rows : List QueuedMessage} {run : Run}

/-! ## The same rows again -/

theorem editRow_eq_nil (placed : positioned index run = run)
    (same : ∀ message, p.messages.get row.id = some message → message.text = row.text) :
    p.editRow now index run row = [] := by
  rw [editRow, if_pos placed, List.append_nil, List.map_eq_nil_iff, List.filter_eq_nil_iff]
  intro message listed other
  exact bne_iff_ne.mp other (same message (Option.mem_toList.mp listed))

/-- Rows that are as the runs say bring no event. -/
theorem syncRows_eq_nil {again : Int} {other : String} {last : Int}
    (placed : ∀ run ∈ p.rowRuns driver index ordinal rows, q.known run.userMessageId = some run)
    (started : ∀ row ∈ rows, ∀ run, p.known row.id = some run → run.status ≠ .queued →
      ∃ first, q.known row.id = some first ∧ first.status ≠ .queued)
    (texts : ∀ row ∈ rows, (∀ run ∈ p.known row.id, run.status = .queued) →
      ∀ message, q.messages.get row.id = some message → message.text = row.text) :
    q.syncRows again other index last rows = [] := by
  induction rows generalizing index ordinal with
  | nil => rfl
  | cons row rows ih =>
      have started_rest := fun other listed => started other (List.mem_cons_of_mem row listed)
      have texts_rest := fun other listed => texts other (List.mem_cons_of_mem row listed)
      have text := texts row List.mem_cons_self
      rw [rowRuns] at placed
      cases found : p.known row.id with
      | some stored =>
          rw [found] at placed
          dsimp only at placed
          rw [syncRows]
          by_cases waits : stored.status = .queued
          · rw [if_pos waits] at placed
            have known := placed (positioned index stored) List.mem_cons_self
            rw [show (positioned index stored).userMessageId = row.id from (of_known found).2] at known
            have same : ∀ message, q.messages.get row.id = some message → message.text = row.text := by
              apply text
              rw [found]
              rintro _ ⟨⟩
              exact waits
            rw [known]
            dsimp only
            rw [if_pos (show (positioned index stored).status = .queued from waits),
              editRow_eq_nil rfl same]
            exact ih (fun run listed => placed run (List.mem_cons_of_mem _ listed)) started_rest
              texts_rest
          · rw [if_neg waits] at placed
            rcases started row List.mem_cons_self stored found waits with ⟨first, known, left⟩
            rw [known]
            dsimp only
            rw [if_neg left]
            exact ih placed started_rest texts_rest
      | none =>
          rw [found] at placed
          rcases p.rowSeed_run driver (ordinal + 1) row with ⟨_, seed⟩
          have known := placed _ List.mem_cons_self
          have message : (positioned index (p.rowSeed driver (ordinal + 1) row).run).userMessageId =
              row.id := by
            rw [seed]
            rfl
          have waits : (positioned index (p.rowSeed driver (ordinal + 1) row).run).status = .queued := by
            rw [seed]
            rfl
          have same : ∀ message, q.messages.get row.id = some message → message.text = row.text := by
            apply text
            rw [found]
            rintro _ ⟨⟩
          rw [message] at known
          rw [syncRows, known]
          dsimp only
          rw [if_pos waits, editRow_eq_nil rfl same]
          exact ih (fun run listed => placed run (List.mem_cons_of_mem _ listed)) started_rest
            texts_rest

/-- No run of a row has the message of a row with a run that has left the queue. -/
theorem Admits.message_ne (admits : p.Admits rows) (listed : row ∈ rows)
    (stored : run ∈ p.runs.rows) (named : run.userMessageId = row.id)
    (started : run.status ≠ .queued) {other : Run}
    (placed : FromRow p driver index ordinal rows other) : other.userMessageId ≠ row.id := by
  intro same
  cases placed with
  | moved place other_row other_stored later other_listed other_found waits moved =>
      rw [moved] at same
      have one := admits.single row listed other_stored (of_known other_found).1 run stored same
        named waits
      exact started (one ▸ waits)
  | created place other_row number later other_listed missing above created =>
      rcases p.rowSeed_run driver number other_row with ⟨_, seed⟩
      rw [created, seed] at same
      exact known_eq_none_iff.mp missing run stored (named.trans same.symm)

section Again

variable {events : List Event} (planned : p.syncLoro now driver previous rows = some events)
  (applied : p.applyAll now events = some q) (admits : p.Admits rows)

include planned applied admits

theorem known_rowRun (placed : run ∈ p.rowRuns driver 0 p.lastRunOrdinal rows) :
    q.known run.userMessageId = some run := by
  rcases (fromRow_of_mem placed).message with ⟨row, listed, same, _⟩
  have stored := Table.mem_of_get (get_rowRun planned applied admits.free admits.distinct placed)
  cases found : q.known run.userMessageId with
  | none => exact absurd rfl (known_eq_none_iff.mp found run stored)
  | some first =>
      rcases of_known found with ⟨first_stored, first_same⟩
      have ids : (p.rowRuns driver 0 p.lastRunOrdinal rows).map Run.userMessageId |>.Nodup := by
        rw [map_userMessageId_rowRuns]
        exact (List.filter_sublist.map _).nodup admits.distinct
      by_cases waits : first.status = .queued
      · have first_placed := mem_rowRuns_of_queued planned applied admits first_stored waits listed
          (first_same.trans same.symm)
        rw [List.inj_on_of_nodup_map ids first_placed placed first_same]
      · exfalso
        rcases of_mem_runs planned applied admits.free admits.distinct first_stored with
          ⟨old, gone, rfl⟩ | first_placed | ⟨before, _⟩
        · exact (mem_dropped.mp gone).2.2 row listed (same.trans first_same.symm)
        · exact waits (fromRow_of_mem first_placed).status
        · exact admits.message_ne listed before (first_same.trans same.symm) waits
            (fromRow_of_mem placed) same.symm

/-- A row whose first run has left the queue is still passed over. -/
theorem known_unqueued (listed : row ∈ rows) (found : p.known row.id = some run)
    (started : run.status ≠ .queued) :
    ∃ first, q.known row.id = some first ∧ first.status ≠ .queued := by
  rcases of_known found with ⟨before, same⟩
  have stored := Table.mem_of_get
    (get_unqueued planned applied admits.free admits.distinct before started)
  cases again : q.known row.id with
  | none => exact absurd same (known_eq_none_iff.mp again run stored)
  | some first =>
      refine ⟨first, rfl, fun waits => ?_⟩
      rcases of_known again with ⟨first_stored, first_same⟩
      have placed := mem_rowRuns_of_queued planned applied admits first_stored waits listed first_same
      exact admits.message_ne listed before same started (fromRow_of_mem placed) first_same

theorem syncLoro_again (again : Int) (other : String) :
    q.syncLoro again other rows rows = some [.thread q.thread] := by
  have kept : q.thread.deletedAt = none :=
    (thread_of_syncLoro planned applied).1.trans (of_syncLoro planned).1
  have none_gone : q.dropped rows rows = [] := by
    apply List.filter_eq_nil_iff.mpr
    intro run _ both
    rw [Bool.and_eq_true] at both
    rw [both.1] at both
    cases both.2
  have silent : q.intentEvents again other rows rows = [] := by
    rw [intentEvents, none_gone]
    exact syncRows_eq_nil (fun run placed => known_rowRun planned applied admits placed)
      (fun row listed run found started =>
        known_unqueued planned applied admits listed found started)
      (fun row listed waits message found =>
        text_of_syncLoro planned applied admits listed waits found)
  rw [syncLoro, kept, silent]
  rfl

end Again

end ThreadProjection

namespace QueueStore

variable {p : ThreadProjection} {table : Table QueueAttachments.messageId}
  {intent row : QueuedMessage} {rows : List QueuedMessage} {k : String}

/-! ## The files of the rows -/

/-- What an intent leaves under its id. -/
def filed (p : ThreadProjection) (intent : QueuedMessage) (old : Option QueueAttachments) :
    Option QueueAttachments :=
  if p.cancelledMessages.contains intent.id then old
  else if intent.attachments.isEmpty then none
  else some { messageId := intent.id, paths := intent.attachments }

theorem filed_filed (p : ThreadProjection) (intent : QueuedMessage) (old : Option QueueAttachments) :
    filed p intent (filed p intent old) = filed p intent old := by
  unfold filed
  split_ifs <;> rfl

theorem get_persistIntent (p : ThreadProjection) (table : Table QueueAttachments.messageId)
    (intent : QueuedMessage) (k : String) :
    (persistIntent p table intent).get k =
      if intent.id = k then filed p intent (table.get k) else table.get k := by
  unfold persistIntent
  by_cases same : intent.id = k
  · unfold filed
    split_ifs
    · rfl
    · rw [Table.get_remove]
      cases found : table.get k with
      | none => rfl
      | some old =>
          rw [Option.filter_some, Table.key_of_get found, same, beq_self_eq_true]
          rfl
    · rw [Table.get_put, if_pos same]
  · split_ifs
    · rfl
    · rw [Table.get_remove]
      cases found : table.get k with
      | none => rfl
      | some old =>
          rw [Option.filter_some, Table.key_of_get found, beq_eq_false_iff_ne.mpr (Ne.symm same)]
          rfl
    · rw [Table.get_put, if_neg same]

theorem get_persistIntents_of_notMem (outside : k ∉ rows.map QueuedMessage.id) :
    (rows.foldl (persistIntent p) table).get k = table.get k := by
  induction rows generalizing table with
  | nil => rfl
  | cons row rows ih =>
      rw [List.map_cons, List.mem_cons, not_or] at outside
      rw [List.foldl_cons, ih outside.2, get_persistIntent, if_neg (Ne.symm outside.1)]

theorem get_persistIntents (table : Table QueueAttachments.messageId)
    (distinct : (rows.map QueuedMessage.id).Nodup) (listed : row ∈ rows) :
    (rows.foldl (persistIntent p) table).get row.id = filed p row (table.get row.id) := by
  induction rows generalizing table with
  | nil => cases listed
  | cons first rows ih =>
      rw [List.map_cons, List.nodup_cons] at distinct
      rw [List.foldl_cons]
      rcases List.mem_cons.mp listed with rfl | later
      · rw [get_persistIntents_of_notMem distinct.1, get_persistIntent, if_pos rfl]
      · rw [ih _ distinct.2 later, get_persistIntent, if_neg]
        intro same
        exact distinct.1 (same ▸ List.mem_map_of_mem later)

theorem remove_of_none {which : QueueAttachments → Bool}
    (unmatched : ∀ row ∈ table.rows, which row = false) : table.remove which = table := by
  apply Table.ext
  apply List.filter_eq_self.mpr
  intro row stored
  rw [unmatched row stored]
  rfl

/-- An intent that is filed is not filed again. -/
theorem persistIntent_of_filed (kept : table.get intent.id = filed p intent (table.get intent.id)) :
    persistIntent p table intent = table := by
  unfold filed at kept
  unfold persistIntent
  split_ifs at kept ⊢ with cancelled bare
  · rfl
  · apply remove_of_none
    intro row stored
    rw [beq_eq_false_iff_ne]
    intro same
    exact Table.get_eq_none_iff.mp kept (List.mem_map.mpr ⟨row, stored, same⟩)
  · exact Table.put_of_mem (Table.mem_of_get kept)

theorem persistIntents_of_filed
    (kept : ∀ row ∈ rows, table.get row.id = filed p row (table.get row.id)) :
    rows.foldl (persistIntent p) table = table := by
  induction rows with
  | nil => rfl
  | cons row rows ih =>
      rw [List.foldl_cons, persistIntent_of_filed (kept row List.mem_cons_self)]
      exact ih fun other listed => kept other (List.mem_cons_of_mem _ listed)

variable {s next : QueueStore} {now : Int} {driver : String} {events : List Event}

theorem of_sync (synced : s.sync now driver rows = some (events, next)) :
    s.projection.syncLoro now driver s.intents rows = some events ∧
      s.projection.applyAll now events = some next.projection ∧ next.intents = rows ∧
        next.attachments =
          (rows.foldl (persistIntent next.projection) s.attachments).remove fun row =>
            (s.releasedMessages rows).contains row.messageId := by
  rcases Option.bind_eq_some_iff.mp synced with ⟨planned, plan, applied⟩
  rcases Option.map_eq_some_iff.mp applied with ⟨projection, apply, same⟩
  cases same
  exact ⟨plan, apply, rfl, rfl⟩

/-- The files of the rows are claimed once. -/
theorem attachments_again (synced : s.sync now driver rows = some (events, next))
    (distinct : (rows.map QueuedMessage.id).Nodup) :
    (rows.foldl (persistIntent next.projection) next.attachments).remove (fun row =>
      (next.releasedMessages rows).contains row.messageId) = next.attachments := by
  rcases of_sync synced with ⟨_, _, intents, attachments⟩
  have kept : ∀ row ∈ rows, next.attachments.get row.id =
      filed next.projection row (next.attachments.get row.id) := by
    intro row listed
    have unreleased : (s.releasedMessages rows).contains row.id = false := by
      rw [Bool.eq_false_iff, Ne, List.contains_iff_mem]
      intro released
      rcases List.mem_map.mp (List.mem_filter.mp released).1 with ⟨run, gone, same⟩
      exact (ThreadProjection.mem_dropped.mp gone).2.2 row listed same.symm
    have read : next.attachments.get row.id =
        filed next.projection row (s.attachments.get row.id) := by
      rw [attachments, Table.get_remove, get_persistIntents _ distinct listed]
      cases found : filed next.projection row (s.attachments.get row.id) with
      | none => rfl
      | some old =>
          have own : old.messageId = row.id := by
            rw [← get_persistIntents s.attachments distinct listed] at found
            exact Table.key_of_get found
          rw [Option.filter_some, own, unreleased]
          rfl
    rw [read, filed_filed]
  rw [persistIntents_of_filed kept]
  apply remove_of_none
  intro row _
  have none_gone : next.projection.dropped next.intents rows = [] := by
    rw [intents]
    apply List.filter_eq_nil_iff.mpr
    intro run _ both
    rw [Bool.and_eq_true] at both
    rw [both.1] at both
    cases both.2
  rw [releasedMessages, none_gone]
  rfl

/-! ## The sync -/

/-- The run is cancelled, once, and its root and active attempt with it. -/
structure CancelledOnce (p q : ThreadProjection) (now : Int) (events : List Event) (run : Run) :
    Prop where
  once : (events.filterMap Event.run?).filter (fun written => written.id == run.id) =
    [ThreadProjection.cancelledRun now run]
  stored : q.runs.get run.id = some (ThreadProjection.cancelledRun now run)
  root : ∀ rootId root, run.rootNodeId = some rootId → p.nodes.get rootId = some root →
    q.nodes.get rootId = some (ThreadProjection.cancelledNode now root)
  attempt : ∀ attemptId attempt, run.rootNodeId.isSome = true →
    run.activeAttemptId = some attemptId → p.attempts.get attemptId = some attempt →
      q.attempts.get attemptId = some (ThreadProjection.cancelledAttempt now attempt)

/-- The queued runs of intents are those of the rows without a run that is not queued. -/
def QueueOfRows (s next : QueueStore) (rows : List QueuedMessage) : Prop :=
  (next.projection.queued.filter (ThreadProjection.intended s.intents rows)).map
      Run.userMessageId =
    (rows.filter fun row => !next.projection.left row.id).map QueuedMessage.id

/-- A row that has gone cancels its run. -/
def CancelsGone (s next : QueueStore) (now : Int) (rows : List QueuedMessage)
    (events : List Event) : Prop :=
  ∀ run ∈ s.projection.runs.rows, run.status = .queued →
    (∃ intent ∈ s.intents, intent.id = run.userMessageId) →
      (∀ row ∈ rows, row.id ≠ run.userMessageId) →
        CancelledOnce s.projection next.projection now events run

/-- A run that is not queued stays as it is. -/
def KeepsStarted (s next : QueueStore) : Prop :=
  ∀ run ∈ s.projection.runs.rows, run.status ≠ .queued →
    next.projection.runs.get run.id = some run

/-- No message gets a second run. -/
def CreatesNew (s : QueueStore) (events : List Event) : Prop :=
  ∀ run, .runCreated run ∈ events →
    ∀ other ∈ s.projection.runs.rows, other.userMessageId ≠ run.userMessageId

/-- The same rows bring one event, and change nothing. -/
def Stable (next : QueueStore) (rows : List QueuedMessage) : Prop :=
  ∀ later driver, next.sync later driver rows = some ([.thread next.projection.thread], next)

/-- What a sync of the rows does. -/
structure Exact (s next : QueueStore) (now : Int) (rows : List QueuedMessage) (events : List Event) :
    Prop where
  queue : QueueOfRows s next rows
  cancelled : CancelsGone s next now rows events
  unqueued : KeepsStarted s next
  created : CreatesNew s events
  again : Stable next rows

theorem cancelledOnce_of_dropped {p q : ThreadProjection} {previous : List QueuedMessage} {run : Run}
    (planned : p.syncLoro now driver previous rows = some events)
    (applied : p.applyAll now events = some q) (free : p.Free)
    (distinct : (rows.map QueuedMessage.id).Nodup) (gone : run ∈ p.dropped previous rows) :
    CancelledOnce p q now events run := by
  constructor
  · rw [ThreadProjection.filterMap_syncLoro planned Event.run? fun _ => rfl,
      ThreadProjection.filterMap_run_intentEvents free]
    have records := ThreadProjection.records_broughtRuns now driver previous free distinct
    have listed : ThreadProjection.cancelledRun now run ∈
        p.broughtRuns now driver previous rows :=
      List.mem_append_left _ (List.mem_map_of_mem gone)
    let written : Table Run.id := ⟨p.broughtRuns now driver previous rows, records.distinct⟩
    have single := written.filter_key_eq (fun _ => true) run.id
    have read : written.get run.id = some (ThreadProjection.cancelledRun now run) :=
      Table.get_of_mem (show _ ∈ written.rows from listed)
    rw [read] at single
    exact single
  · exact ThreadProjection.get_dropped planned applied free distinct gone
  · intro rootId root named stored
    have active : p.rootOf run = some root := by
      rw [ThreadProjection.rootOf, named]
      exact stored
    rw [← show root.id = rootId from Table.key_of_get stored]
    exact ThreadProjection.get_root_of_dropped planned applied free gone active
  · intro attemptId attempt rooted named stored
    have active : p.attemptOf run = some attempt := by
      rw [ThreadProjection.attemptOf, if_pos rooted, named]
      exact stored
    rw [← show attempt.id = attemptId from Table.key_of_get stored]
    exact ThreadProjection.get_attempt_of_dropped planned applied free gone active

/-- What a sync does under which condition: the started runs stay and the others are
cancelled if the next ids are free, the same rows change nothing if besides no queued run
shares its message, and the queue has the order of the rows if no row waits behind
delegated work. -/
theorem sync_exact (distinct : (rows.map QueuedMessage.id).Nodup)
    (synced : s.sync now driver rows = some (events, next)) :
    CreatesNew s events ∧
      (s.projection.Free → CancelsGone s next now rows events ∧ KeepsStarted s next) ∧
      (s.projection.Admits rows → Stable next rows ∧
        (s.projection.Plain rows → QueueOfRows s next rows)) := by
  rcases of_sync synced with ⟨planned, applied, intents, attachments⟩
  refine ⟨?_, fun free => ⟨?_, ?_⟩, fun admits => ⟨?_, ?_⟩⟩
  · intro run created
    rcases ThreadProjection.of_syncLoro planned with ⟨_, threads, rfl, _⟩
    rcases List.mem_append.mp created with about | own
    · exact ThreadProjection.of_runCreated about
    · rcases List.mem_map.mp own with ⟨_, _, same⟩
      cases same
  · intro run stored waits intended outside
    exact cancelledOnce_of_dropped planned applied free distinct
      (ThreadProjection.mem_dropped.mpr ⟨⟨stored, waits⟩, intended, outside⟩)
  · intro run stored started
    exact ThreadProjection.get_unqueued planned applied free distinct stored started
  · intro later other
    have again := ThreadProjection.syncLoro_again planned applied admits later other
    rw [← intents] at again
    have files := attachments_again synced distinct
    rw [sync, ← intents, again]
    rw [← intents] at files
    exact congrArg (fun table => some ([Event.thread next.projection.thread],
      { next with attachments := table })) files
  · exact ThreadProjection.queue_of_syncLoro planned applied admits

open ThreadProjection (afterTurn behind ended)

/-- A queued run of a message, with its execution. -/
def waiting (ordinal : Int) (messageId : String) : ExecutionSeed :=
  executionSeed afterTurn.thread ordinal messageId .queued "claudeAgent" 3

/-- A thread with further runs. -/
def holding (runs : List Run) (messages : List Message) : ThreadProjection :=
  { afterTurn with
    runs := Table.empty.touchAll runs
    messages := Table.empty.touchAll messages }

/-- A row of the document. -/
def rowOf (messageId : String) : QueuedMessage :=
  { id := messageId, text := messageId, attachments := [], issuedAt := 3, editedAt := none }

/-- The row of the first run has gone, the second one's is there, and one is new. -/
def oneGone : QueueStore :=
  { projection :=
      { afterTurn with
        runs := Table.empty.touchAll [(waiting 1 "first").run, (waiting 2 "second").run]
        attempts := Table.empty.touchAll [(waiting 1 "first").attempt, (waiting 2 "second").attempt]
        nodes := Table.empty.touchAll [(waiting 1 "first").root, (waiting 2 "second").root] }
    intents := [rowOf "first", rowOf "second"]
    attachments := Table.empty.touch { messageId := "first", paths := ["/upload"] } }

theorem admits_oneGone : oneGone.projection.Admits [rowOf "third", rowOf "second"] := by
  have last : oneGone.projection.lastRunOrdinal = 2 := by decide +kernel
  constructor
  · decide
  · decide +kernel
  · constructor
    · intro ordinal above
      rw [show oneGone.projection.runs = Table.empty.touchAll
        [(waiting 1 "first").run, (waiting 2 "second").run] from rfl, Table.get_touchAll_of_notMem]
      · rfl
      · intro taken
        rcases List.mem_pair.mp taken with same | same
        · exact absurd (seedRunId_injective _ same) (by omega)
        · exact absurd (seedRunId_injective _ same) (by omega)
    · intro ordinal above
      rw [show oneGone.projection.attempts = Table.empty.touchAll [(waiting 1 "first").attempt,
        (waiting 2 "second").attempt] from rfl, Table.get_touchAll_of_notMem]
      · rfl
      · intro taken
        rcases List.mem_pair.mp taken with same | same
        · exact absurd (seedRunId_injective _ (seedAttemptId_injective same)) (by omega)
        · exact absurd (seedRunId_injective _ (seedAttemptId_injective same)) (by omega)
    · intro ordinal above
      rw [show oneGone.projection.nodes = Table.empty.touchAll [(waiting 1 "first").root,
        (waiting 2 "second").root] from rfl, Table.get_touchAll_of_notMem]
      · rfl
      · intro taken
        rcases List.mem_pair.mp taken with same | same
        · exact absurd (seedRunId_injective _ (seedRootId_injective same)) (by omega)
        · exact absurd (seedRunId_injective _ (seedRootId_injective same)) (by omega)

/-- One run is cancelled, one moves to the second place and one is created in the first. -/
theorem sync_exact_of_oneGone :
    ∃ events next, oneGone.sync 9 "claudeAgent" [rowOf "third", rowOf "second"] = some (events, next) ∧
      next.projection.queued.map Run.userMessageId = ["third", "second"] ∧
      Exact oneGone next 9 [rowOf "third", rowOf "second"] events := by
  have synced : (oneGone.sync 9 "claudeAgent" [rowOf "third", rowOf "second"]).any (fun result =>
      decide (result.2.projection.queued.map Run.userMessageId = ["third", "second"])) = true := by
    decide +kernel
  rcases (Option.any_eq_true _ _).mp synced with ⟨⟨events, next⟩, same, order⟩
  obtain ⟨created, kept, stable⟩ := sync_exact admits_oneGone.distinct same
  obtain ⟨again, queue⟩ := stable admits_oneGone
  refine ⟨events, next, same, of_decide_eq_true order, queue ?_, (kept admits_oneGone.free).1,
    (kept admits_oneGone.free).2, created, again⟩
  unfold ThreadProjection.Plain
  decide +kernel

theorem not_exact_of_queue (misplaced : (s.sync now driver rows).any (fun result =>
    decide ((result.2.projection.queued.filter (ThreadProjection.intended s.intents rows)).map
        Run.userMessageId ≠
      (rows.filter fun row => !result.2.projection.left row.id).map QueuedMessage.id)) = true) :
    ∃ events next, s.sync now driver rows = some (events, next) ∧ ¬ Exact s next now rows events := by
  rcases (Option.any_eq_true _ _).mp misplaced with ⟨⟨events, next⟩, same, differ⟩
  refine ⟨events, next, same, ?_⟩
  intro exact
  exact of_decide_eq_true differ exact.queue

/-- A message that was promoted, and is queued again as the follow-up of its steering. -/
def followUp : QueueStore :=
  { projection := holding [behind .cancelled,
      { behind .queued with id := "run:3", ordinal := 3, userMessageId := "message:2" }] []
    intents := [rowOf "message:2"]
    attachments := Table.empty }

/-- The result of delegated work behind a row. -/
def delegated : QueueStore :=
  { projection := holding [behind .queued,
        { behind .queued with id := "run:3", ordinal := 3, userMessageId := "message:3" }]
      [{ newMessage none none "message:3" "message:3" "user" 3 with delegatedParent := some "run:1" }]
    intents := [rowOf "message:2", rowOf "message:3"]
    attachments := Table.empty }

/-- A run that has started, under an id that the next run takes. -/
def taken : Run :=
  { ended with id := "run:thread:2" }

def takenId : QueueStore :=
  { projection := holding [taken] [], intents := [], attachments := Table.empty }

/-- A second run of a row's message keeps its place in the queue, delegated work comes
first, and a run under the next id is replaced. -/
theorem sync_not_exact :
    (∃ events next, followUp.sync 9 "claudeAgent" [rowOf "message:2"] = some (events, next) ∧
      ¬ Exact followUp next 9 [rowOf "message:2"] events) ∧
    (∃ events next, delegated.sync 9 "claudeAgent" [rowOf "message:2", rowOf "message:3"] =
        some (events, next) ∧
      ¬ Exact delegated next 9 [rowOf "message:2", rowOf "message:3"] events) ∧
    ∃ events next, takenId.sync 9 "claudeAgent" [rowOf "message:2"] = some (events, next) ∧
      ¬ Exact takenId next 9 [rowOf "message:2"] events := by
  refine ⟨not_exact_of_queue (by decide +kernel), not_exact_of_queue (by decide +kernel), ?_⟩
  have replaced : (takenId.sync 9 "claudeAgent" [rowOf "message:2"]).any (fun result =>
      decide (result.2.projection.runs.get taken.id ≠ some taken)) = true := by
    decide +kernel
  rcases (Option.any_eq_true _ _).mp replaced with ⟨⟨events, next⟩, same, differ⟩
  refine ⟨events, next, same, ?_⟩
  intro exact
  exact of_decide_eq_true differ (exact.unqueued taken (by decide +kernel) (by decide))

end QueueStore

end Zeron.Threads
