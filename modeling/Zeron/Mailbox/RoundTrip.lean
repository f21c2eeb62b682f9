import Zeron.Mailbox.TakeOver

/-!
# A reorder and the document

A reorder numbers the whole queue, and the document numbers its own rows when they
are taken over.  The two agree exactly when the document's rows are the first ones
of the queue.
-/

namespace Zeron.Mailbox

open Data Transition
open Orchestration (RunStatus)

namespace Projection

variable {p : Projection} {order : List Run} {before after : List QueuedMessage}

/-- A reorder changes no run but for its position. -/
theorem Linked.renumbered (linked : p.Linked before) (all : order.Perm p.queued)
    (shown : (p.renumbered order).queued = positioned 1 order) :
    (p.renumbered order).Linked before := by
  have distinct : ((positioned 1 order).map Run.id).Nodup := by
    rw [map_id_positioned, (all.map Run.id).nodup_iff]
    exact p.nodup_queued
  have rows (run : Run) : run ∈ (p.renumbered order).runs.rows ↔
      run ∈ positioned 1 order ∨ run ∈ p.runs.rows ∧ run.id ∉ (positioned 1 order).map Run.id :=
    Table.mem_putAll_iff distinct
  refine ⟨linked.distinct, fun row listed => ?_, fun run queued other stored same => ?_⟩
  · obtain ⟨run, stored, same⟩ := linked.known row listed
    by_cases moved : run.id ∈ (positioned 1 order).map Run.id
    · rw [map_id_positioned] at moved
      obtain ⟨old, old_listed, old_id⟩ := List.mem_map.mp moved
      have equal : old = run :=
        Table.eq_of_mem (mem_queued.mp (all.mem_iff.mp old_listed)).1 stored old_id
      have message : run.userMessageId ∈ (positioned 1 order).map Run.userMessageId := by
        rw [map_userMessageId_positioned, ← equal]
        exact List.mem_map_of_mem old_listed
      obtain ⟨new, new_listed, new_message⟩ := List.mem_map.mp message
      exact ⟨new, (rows new).mpr (.inl new_listed), new_message.trans same⟩
    · exact ⟨run, (rows run).mpr (.inr ⟨stored, moved⟩), same⟩
  · rw [shown] at queued
    obtain ⟨old, old_listed, place, _, _, rfl⟩ := exists_of_mem_positioned queued
    have old_queued := all.mem_iff.mp old_listed
    obtain moved | ⟨kept, free⟩ := (rows other).mp stored
    · obtain ⟨old', old_listed', place', _, _, rfl⟩ := exists_of_mem_positioned moved
      have equal := linked.named old old_queued old'
        (mem_queued.mp (all.mem_iff.mp old_listed')).1 same
      have same_id : old'.id = old.id := congrArg Run.id equal
      exact List.inj_on_of_nodup_map distinct moved queued same_id
    · have equal := linked.named old old_queued other kept same
      rw [map_id_positioned, equal] at free
      exact absurd (List.mem_map_of_mem old_listed) free

/-- What `sync_loro` leaves of an arranged document. -/
theorem applyAll_syncLoro (linked : p.Linked before) (arranged : Arranged order before after)
    (shown : p.queued.map Run.userMessageId = order.map Run.userMessageId) :
    ∃ messages, p.applyAll (p.syncLoro before after).events =
        { p with
          runs := p.runs.putAll (positioned 1 (p.queued.filter (backed before)))
          messages } ∧
      p.SameMail { p with messages } := by
  have gone : (p.queued.filter fun run =>
      (before.any fun row => row.id == run.userMessageId) &&
        !after.any fun row => row.id == run.userMessageId) = [] := by
    rw [List.filter_eq_nil_iff]
    intro run _ left
    have same := congrFun (backed_of_perm arranged.perm) run
    unfold backed at same
    rw [same] at left
    simp at left
  have known : ∀ row ∈ after, (p.runOf row.id).isSome := fun row listed =>
    isSome_runOf.mpr (linked.known row (arranged.perm.mem_iff.mp listed))
  have distinct : (after.map QueuedMessage.id).Nodup :=
    (arranged.perm.map _).nodup_iff.mpr linked.distinct
  have taken := applyAll_syncRows 1 (p.nextOrdinal - 1) known
    (fun row _ run found => (runOf_id found).1) distinct fun id => rfl
  rw [takenOver_arranged linked arranged shown] at taken
  unfold syncLoro
  rw [gone]
  exact taken

/-- A numbered queue keeps its numbers. -/
theorem positioned_queued (shown : p.queued = positioned 1 order) :
    positioned 1 p.queued = p.queued := by
  rw [shown, positioned_positioned]

/-- If the document's runs come first, taking them over moves nothing. -/
theorem putAll_of_documentFirst (shown : p.queued = positioned 1 order)
    (first : DocumentFirst before p.queued) :
    p.runs.putAll (positioned 1 (p.queued.filter (backed before))) = p.runs := by
  rw [← filter_positioned first 1, positioned_queued shown]
  apply Table.putAll_of_mem
  intro run listed
  exact (mem_queued.mp (List.mem_filter.mp listed).1).1

/-- The text of messages does not change what is shown. -/
theorem queued_of_sameMail {messages : Table Message.id}
    (mail : p.SameMail { p with messages }) :
    ({ p with messages } : Projection).delegated = p.delegated ∧
      ({ p with messages } : Projection).queued = p.queued := by
  have delegated : ({ p with messages } : Projection).delegated = p.delegated := by
    funext run
    have same := congrArg Option.isSome (mail run.userMessageId)
    unfold Projection.delegated
    cases old : p.messages.get run.userMessageId <;>
      cases new : messages.get run.userMessageId <;> simp_all
  refine ⟨delegated, ?_⟩
  have key : ({ p with messages } : Projection).queueKey = p.queueKey := by
    funext run
    unfold queueKey
    rw [delegated]
  unfold queued
  rw [key]
  rfl

/-- The positions stay different exactly when the document's runs come first. -/
theorem nodup_taken_iff (messages : Table Message.id) (shown : p.queued = positioned 1 order) :
    (({ p with
        runs := p.runs.putAll (positioned 1 (p.queued.filter (backed before)))
        messages } : Projection).queued.map Run.queuePosition).Nodup ↔
      DocumentFirst before p.queued := by
  have distinct : ((positioned 1 (p.queued.filter (backed before))).map Run.id).Nodup := by
    rw [map_id_positioned]
    exact (List.filter_sublist.map Run.id).nodup p.nodup_queued
  have waiting : ∀ run ∈ p.queued.filter (backed before), run.status = .queued :=
    fun run listed => (mem_queued.mp (List.mem_filter.mp listed).1).2
  have others : (p.queued.filter fun run => decide (run.id ∉
      (positioned 1 (p.queued.filter (backed before))).map Run.id)) =
        p.queued.filter fun run => !backed before run := by
    apply List.filter_congr
    intro run listed
    rw [map_id_positioned, Bool.eq_iff_iff, decide_eq_true_eq, Bool.not_eq_true',
      ← Bool.not_eq_true, not_iff_not]
    constructor
    · intro member
      obtain ⟨other, other_listed, same⟩ := List.mem_map.mp member
      obtain ⟨other_queued, held⟩ := List.mem_filter.mp other_listed
      rwa [← eq_of_mem_queued other_queued listed same]
    · intro held
      exact List.mem_map_of_mem (List.mem_filter.mpr ⟨listed, held⟩)
  have split : ({ p with
      runs := p.runs.putAll (positioned 1 (p.queued.filter (backed before)))
      messages } : Projection).queued.Perm
        (positioned 1 (p.queued.filter (backed before)) ++
          p.queued.filter fun run => !backed before run) := by
    have all := perm_queued_putAll p distinct (status_of_mem_positioned waiting 1)
    rw [others] at all
    have rows := (perm_queued _).symm.trans all
    exact (perm_queued _).trans rows
  have places : (p.queued.map Run.queuePosition).Nodup := by
    rw [← positioned_queued shown]
    exact nodup_positions 1 p.queued
  rw [(split.map Run.queuePosition).nodup_iff, List.map_append, List.nodup_append,
    documentFirst_iff 1, positioned_queued shown, List.countP_eq_length_filter]
  constructor
  · rintro ⟨_, _, apart⟩ run listed outside
    have numbered := listed
    rw [shown] at numbered
    obtain ⟨old, _, place, above, _, rfl⟩ := exists_of_mem_positioned numbered
    refine ⟨place, rfl, ?_⟩
    by_contra below
    have taken := exists_position above (not_le.mp below)
    have own : some place ∈ (p.queued.filter fun run => !backed before run).map
        Run.queuePosition := by
      refine List.mem_map.mpr ⟨_, List.mem_filter.mpr ⟨listed, ?_⟩, rfl⟩
      rw [outside]
      rfl
    exact apart _ taken _ own rfl
  · intro above
    refine ⟨nodup_positions 1 _, (List.filter_sublist.map _).nodup places, ?_⟩
    rintro _ taken _ own rfl
    obtain ⟨run, listed, position_eq⟩ := List.mem_map.mp own
    obtain ⟨queued, outside⟩ := List.mem_filter.mp listed
    obtain ⟨place, place_eq, far⟩ := above run queued (by simpa using outside)
    obtain ⟨other, other_listed, other_position⟩ := List.mem_map.mp taken
    obtain ⟨old, _, near, _, below, rfl⟩ := exists_of_mem_positioned other_listed
    have same : near = place := by
      have both : some near = some place := other_position.trans (position_eq.symm.trans place_eq)
      exact Option.some.inj both
    omega

end Projection

namespace Host

open Projection

/-- What `prepare_locked` leaves under the lock of the queue. -/
structure Synchronized (host : Host) : Prop where
  applied : host.thread.patches = []
  taken : host.document = host.thread.intents
  linked : host.thread.projection.Linked host.document

/-- The order that a reorder has given the queue is shown, and the document has it
too once no patch is left. -/
structure Preserved (order : List Run) (host : Host) : Prop where
  ordinary : (host.thread.projection.queued.filter
      fun run => !host.thread.projection.delegated run).map Run.id =
    (order.filter fun run => !host.thread.projection.delegated run).map Run.id
  positions : (host.thread.projection.queued.map Run.queuePosition).Nodup
  document : host.thread.patches = [] →
    (host.document.map QueuedMessage.id).filter
        (fun id => decide (id ∈ order.map Run.userMessageId)) =
      (order.map Run.userMessageId).filter
        fun id => decide (id ∈ host.document.map QueuedMessage.id)

/-- A document that is taken over has the first rows of the queue. -/
def FirstRows (host : Host) (event : HostEvent) : Prop :=
  event = .synchronize → host.document = host.thread.intents ∨
    DocumentFirst host.document host.thread.projection.queued

/-- Where a reorder can be on its way to the document. -/
structure OnTheWay (source : Projection) (order : List Run) (before after : List QueuedMessage)
    (host : Host) : Prop where
  patches : (∃ id, host.thread.patches = [.reorder id (order.map Run.userMessageId)]) ∨
    host.thread.patches = [] ∧ host.document = after
  stage :
    host.thread.projection = source ∧ host.thread.intents = before ∧
      (host.document = before ∨ host.document = after) ∨
    host.thread.projection = source.applyAll (source.syncLoro before after).events ∧
      host.thread.intents = after ∧ host.document = after

section Stages

variable {source : Projection} {order : List Run} {before after : List QueuedMessage}
  {host next : Host} {event : HostEvent}

theorem synchronize_of_taken (taken : host.document = host.thread.intents) :
    host.synchronize = some host :=
  if_pos taken

/-- What `synchronize` does to a document that has changed. -/
theorem synchronize_of_changed (changed : host.document ≠ host.thread.intents) :
    host.synchronize = some { host with thread := { host.thread with
      projection := host.thread.projection.applyAll
        (host.thread.projection.syncLoro host.thread.intents host.document).events
      intents := host.document } } := by
  unfold synchronize
  rw [if_neg changed]
  simp [Thread.step, Projection.plan, Projection.syncLoro]

/-- A patch that is left arranges the document. -/
theorem OnTheWay.applyPatch (deleted : Bool)
    (arranged : moveQueued before (order.map Run.userMessageId) = after)
    (again : moveQueued after (order.map Run.userMessageId) = after)
    (way : OnTheWay source order before after host) :
    OnTheWay source order before after (host.applyPatch deleted) ∧
      (host.applyPatch deleted).thread.projection = host.thread.projection ∧
      ((host.applyPatch deleted).thread.patches = [] →
        (host.applyPatch deleted).document = after) := by
  obtain ⟨id, left⟩ | ⟨none_left, at_end⟩ := way.patches
  · have moved : moveQueued host.document (order.map Run.userMessageId) = after := by
      obtain ⟨_, _, start | done⟩ | ⟨_, _, done⟩ := way.stage
      · rw [start, arranged]
      · rw [done, again]
      · rw [done, again]
    have document : (host.applyPatch deleted).document = after := by
      unfold Host.applyPatch
      rw [left]
      exact moved
    have kept : (host.applyPatch deleted).thread.projection = host.thread.projection ∧
        (host.applyPatch deleted).thread.intents = host.thread.intents := by
      unfold Host.applyPatch
      rw [left]
      cases deleted <;> exact ⟨rfl, rfl⟩
    refine ⟨⟨?_, ?_⟩, kept.1, fun _ => document⟩
    · cases deleted with
      | true =>
          refine .inr ⟨?_, document⟩
          unfold Host.applyPatch
          rw [left]
          rfl
      | false =>
          refine .inl ⟨id, ?_⟩
          unfold Host.applyPatch
          rw [left]
          exact left
    · rw [kept.1, kept.2, document]
      obtain ⟨projection, intents, _⟩ | ⟨projection, intents, _⟩ := way.stage
      · exact .inl ⟨projection, intents, .inr rfl⟩
      · exact .inr ⟨projection, intents, rfl⟩
  · have same : host.applyPatch deleted = host := by
      unfold Host.applyPatch
      rw [none_left]
    rw [same]
    exact ⟨way, rfl, fun _ => at_end⟩

/-- A document that has changed is the arranged one, and is taken over. -/
theorem OnTheWay.synchronize (way : OnTheWay source order before after host)
    (stepped : host.synchronize = some next) :
    next = host ∧ host.document = host.thread.intents ∨
      host.document ≠ host.thread.intents ∧ host.thread.projection = source ∧
        host.document = after ∧ next.document = after ∧
        next.thread.projection = source.applyAll (source.syncLoro before after).events ∧
        OnTheWay source order before after next := by
  by_cases taken : host.document = host.thread.intents
  · rw [synchronize_of_taken taken] at stepped
    exact .inl ⟨(Option.some.inj stepped).symm, taken⟩
  · rw [synchronize_of_changed taken] at stepped
    cases stepped
    obtain ⟨projection, intents, start | done⟩ | ⟨_, intents, done⟩ := way.stage
    · exact absurd (start.trans intents.symm) taken
    · have patches : (∃ id, host.thread.patches = [.reorder id (order.map Run.userMessageId)]) ∨
          host.thread.patches = [] ∧ host.document = after :=
        way.patches.imp_right fun left => ⟨left.1, done⟩
      have taken_over : host.thread.projection.applyAll
          (host.thread.projection.syncLoro host.thread.intents host.document).events =
            source.applyAll (source.syncLoro before after).events := by
        rw [projection, intents, done]
      exact .inr ⟨taken, projection, done, done, taken_over,
        patches, .inr ⟨taken_over, done, done⟩⟩
    · exact absurd (done.trans intents.symm) taken

/-- Every event leaves a reorder on its way. -/
theorem OnTheWay.step (arranged : moveQueued before (order.map Run.userMessageId) = after)
    (again : moveQueued after (order.map Run.userMessageId) = after)
    (way : OnTheWay source order before after host) (stepped : host.step event = some next) :
    OnTheWay source order before after next := by
  cases event with
  | applyPatch deleted =>
      cases stepped
      exact (way.applyPatch deleted arranged again).1
  | synchronize =>
      obtain ⟨rfl, _⟩ | ⟨_, _, _, _, _, moved⟩ := way.synchronize stepped
      · exact way
      · exact moved

/-- What a reorder and the patch it leaves establish. -/
structure Established (source : Projection) (order : List Run)
    (before after : List QueuedMessage) : Prop where
  shown : source.queued = positioned 1 order
  linked : source.Linked before
  moved : moveQueued before (order.map Run.userMessageId) = after
  messages : (order.map Run.userMessageId).Nodup

section

variable (established : Established source order before after)
include established

theorem Established.arranged : Arranged order before after := by
  rw [← established.moved]
  exact arranged_moveQueued established.linked.distinct established.messages

theorem Established.again : moveQueued after (order.map Run.userMessageId) = after :=
  moveQueued_of_arranged established.linked.distinct established.messages established.arranged

/-- Before the document is taken over the queue shows the order of the reorder. -/
theorem Established.preserved (projection : host.thread.projection = source)
    (document : host.thread.patches = [] → host.document = after) : Preserved order host where
  ordinary := by
    rw [projection, established.shown]
    exact map_id_filter_positioned (fun _ _ => rfl) 1 order
  positions := by
    rw [projection, established.shown]
    exact nodup_positions 1 order
  document none_left := by
    rw [document none_left]
    exact established.arranged.same_order

/-- After the document is taken over the queue still shows the order exactly when the
document has the first rows. -/
theorem Established.preserved_taken_iff
    (projection : host.thread.projection = source.applyAll (source.syncLoro before after).events)
    (document : host.document = after) :
    Preserved order host ↔ DocumentFirst after source.queued := by
  have shown := established.shown
  have messages : source.queued.map Run.userMessageId = order.map Run.userMessageId := by
    rw [shown, map_userMessageId_positioned]
  have same_rows : DocumentFirst after source.queued ↔ DocumentFirst before source.queued := by
    unfold DocumentFirst
    rw [backed_of_perm established.arranged.perm]
  obtain ⟨texts, taken, mail⟩ := applyAll_syncLoro established.linked established.arranged messages
  rw [taken] at projection
  rw [same_rows, ← nodup_taken_iff texts shown, ← projection]
  refine ⟨Preserved.positions, fun positions => ?_⟩
  rw [projection, nodup_taken_iff texts shown] at positions
  have runs := putAll_of_documentFirst shown positions
  obtain ⟨delegated, queued⟩ := queued_of_sameMail mail
  rw [runs] at projection
  constructor
  · rw [projection, queued, shown]
    exact map_id_filter_positioned (fun _ _ => rfl) 1 order
  · rw [projection, queued, shown]
    exact nodup_positions 1 order
  · intro _
    rw [document]
    exact established.arranged.same_order

/-- A step keeps the order exactly when it takes over no document, or one that has the
first rows. -/
theorem OnTheWay.preserved_iff (way : OnTheWay source order before after host)
    (preserved : Preserved order host) (stepped : host.step event = some next) :
    Preserved order next ↔ FirstRows host event := by
  cases event with
  | applyPatch deleted =>
      cases stepped
      obtain ⟨_, projection, document⟩ := way.applyPatch deleted established.moved established.again
      refine iff_of_true ⟨?_, ?_, fun none_left => ?_⟩ nofun
      · rw [projection]
        exact preserved.ordinary
      · rw [projection]
        exact preserved.positions
      · rw [document none_left]
        exact established.arranged.same_order
  | synchronize =>
      obtain ⟨rfl, taken⟩ | ⟨changed, source_eq, at_end, next_end, taken, _⟩ :=
        way.synchronize stepped
      · exact iff_of_true preserved fun _ => .inl taken
      · rw [established.preserved_taken_iff taken next_end]
        unfold FirstRows
        rw [source_eq, ← at_end]
        constructor
        · intro first _
          exact .inr first
        · intro guarded
          exact (guarded rfl).resolve_left changed

end

/-- Every event can happen. -/
theorem isSome_step (host : Host) (event : HostEvent) : (host.step event).isSome := by
  cases event with
  | applyPatch deleted => rfl
  | synchronize =>
      change host.synchronize.isSome
      by_cases taken : host.document = host.thread.intents
      · rw [synchronize_of_taken taken]
        rfl
      · rw [synchronize_of_changed taken]
        rfl

/-- What an accepted reorder does to the thread. -/
theorem step_queueReorder {start thread : Thread} {id : String} {target : Option String}
    (planned : start.projection.reordered id target = some order)
    (accepted : start.step (.queueReorder id target) = some thread) :
    thread.projection = start.projection.applyAll (positionEvents 1 order) ∧
      thread.intents = start.intents ∧
      ∃ message, thread.patches =
        start.patches ++ [.reorder message (order.map Run.userMessageId)] := by
  obtain ⟨plan, found, rfl⟩ := Thread.step_eq_some_iff.mp accepted
  have reordered : start.projection.queueReorder id target = some plan := found
  unfold Projection.queueReorder at reordered
  rw [planned] at reordered
  obtain ⟨_, same, numbered⟩ := Option.bind_eq_some_iff.mp reordered
  cases same
  obtain ⟨run, _, placed⟩ := Option.bind_eq_some_iff.mp numbered
  cases placed
  exact ⟨rfl, rfl, run.userMessageId, rfl⟩

/-- What an accepted reorder leaves of a thread that is synchronized. -/
theorem Synchronized.established {start : Host} {thread : Thread} {id : String}
    {target : Option String} (synchronized : start.Synchronized)
    (planned : start.thread.projection.reordered id target = some order)
    (accepted : start.thread.step (.queueReorder id target) = some thread) :
    Established thread.projection order start.document
        (moveQueued start.document (order.map Run.userMessageId)) ∧
      OnTheWay thread.projection order start.document
        (moveQueued start.document (order.map Run.userMessageId)) { start with thread } := by
  have all := perm_reordered planned
  obtain ⟨projection, intents, message, patches⟩ := step_queueReorder planned accepted
  have renumbered : thread.projection = start.thread.projection.renumbered order := by
    rw [projection, applyAll_positionEvents (fun run listed =>
      (mem_queued.mp (all.mem_iff.mp listed)).1)]
    · rfl
    · rw [(all.map Run.id).nodup_iff]
      exact nodup_queued _
  have shown := queued_renumbered all (mail_first_reordered planned)
  have messages : (order.map Run.userMessageId).Nodup := by
    refine List.Nodup.map_on (fun first first_listed second second_listed same => ?_)
      (all.nodup_iff.mpr (List.Nodup.of_map Run.id (nodup_queued _)))
    have second_queued := all.mem_iff.mp second_listed
    exact synchronized.linked.named second second_queued first
      (mem_queued.mp (all.mem_iff.mp first_listed)).1 same
  rw [synchronized.applied] at patches
  refine ⟨⟨?_, ?_, rfl, messages⟩, .inl ⟨message, patches⟩, .inl ⟨rfl, ?_, .inl rfl⟩⟩
  · rw [renumbered, shown]
  · rw [renumbered]
    exact synchronized.linked.renumbered all shown
  · rw [intents, synchronized.taken]

/-- A reorder survives any number of rounds to the document and back exactly when each
document that is taken over has the first rows of the queue. -/
theorem reorder_survives_iff_first_rows {start : Host} {thread : Thread} {id : String}
    {target : Option String} (synchronized : start.Synchronized)
    (planned : start.thread.projection.reordered id target = some order)
    (accepted : start.thread.step (.queueReorder id target) = some thread)
    (events : List HostEvent) :
    EveryState Host.step (Preserved order) { start with thread } events ↔
      EveryStep Host.step FirstRows { start with thread } events := by
  obtain ⟨established, way⟩ := synchronized.established planned accepted
  obtain ⟨final, ran⟩ := exists_run_of_total isSome_step { start with thread } events
  refine everyState_iff_everyStep (fun way stepped => way.step established.moved
    established.again stepped) (fun way preserved stepped => way.preserved_iff established
    preserved stepped) way (established.preserved rfl fun none_left => ?_) ran
  obtain ⟨_, left⟩ | ⟨_, at_end⟩ := way.patches
  · rw [none_left] at left
    cases left
  · exact at_end

end Stages

/-- Two rows of the document, and behind them a message that it lacks, wait for a
run to end. -/
def mixedQueue : Host :=
  let thread := (run Thread.step (.created "t") [.send "a" "first",
    .runMoved "run:t:1" .running, .syncLoro [⟨"b", "second"⟩, ⟨"c", "third"⟩],
    .send "d" "fourth"]).getD (.created "t")
  { thread, document := thread.intents }

/-- The queue's order, and the host, after one of its reorders. -/
def mixedOrder (id : String) (target : Option String) : List Run :=
  (mixedQueue.thread.projection.reordered id target).getD []

def mixedReordered (id : String) (target : Option String) : Host :=
  { mixedQueue with
    thread := (mixedQueue.thread.step (.queueReorder id target)).getD mixedQueue.thread }

theorem synchronized_mixedQueue : mixedQueue.Synchronized where
  applied := by decide +kernel
  taken := by decide +kernel
  linked := by
    constructor
    · decide +kernel
    · decide +kernel
    · decide +kernel

instance (host : Host) (event : HostEvent) : Decidable (FirstRows host event) :=
  inferInstanceAs (Decidable (_ → _ ∨ List.Pairwise _ _))

/-- The document's second row is moved before its first one, and the order survives. -/
theorem reorder_of_first_rows_survives :
    EveryState Host.step (Preserved (mixedOrder "run:t:3" (some "run:t:2")))
      (mixedReordered "run:t:3" (some "run:t:2")) [.applyPatch true, .synchronize] := by
  have planned : mixedQueue.thread.projection.reordered "run:t:3" (some "run:t:2") =
      some (mixedOrder "run:t:3" (some "run:t:2")) := by decide +kernel
  have accepted : mixedQueue.thread.step (.queueReorder "run:t:3" (some "run:t:2")) =
      some (mixedReordered "run:t:3" (some "run:t:2")).thread := by decide +kernel
  refine (reorder_survives_iff_first_rows synchronized_mixedQueue planned accepted _).mpr ?_
  exact everyStep_of_checkSteps (fun host event => decide (FirstRows host event))
    (fun _ _ holds => of_decide_eq_true holds) (by decide +kernel)

/-- The document's first row is moved behind the message that the document lacks: its
rows then take the first two positions, one of which that message has. -/
theorem reorder_behind_other_row_is_lost :
    mixedQueue.Synchronized ∧
    mixedQueue.thread.step (.queueReorder "run:t:2" none) =
      some (mixedReordered "run:t:2" none).thread ∧
    (mixedOrder "run:t:2" none).map Run.id = ["run:t:3", "run:t:4", "run:t:2"] ∧
    (∃ host, run Host.step (mixedReordered "run:t:2" none) [.applyPatch true, .synchronize] =
        some host ∧
      host.thread.projection.queued.map (fun run => (run.id, run.queuePosition)) =
        [("run:t:3", some 1), ("run:t:2", some 2), ("run:t:4", some 2)]) ∧
    ¬ EveryState Host.step (Preserved (mixedOrder "run:t:2" none))
      (mixedReordered "run:t:2" none) [.applyPatch true, .synchronize] := by
  let last := (run Host.step (mixedReordered "run:t:2" none)
    [.applyPatch true, .synchronize]).getD mixedQueue
  have reached : run Host.step (mixedReordered "run:t:2" none)
      [.applyPatch true, .synchronize] = some last := by decide +kernel
  refine ⟨synchronized_mixedQueue, by decide +kernel, by decide +kernel,
    ⟨last, reached, by decide +kernel⟩, fun always => ?_⟩
  have collide : ¬ (last.thread.projection.queued.map Run.queuePosition).Nodup := by
    decide +kernel
  exact collide (always.final reached).positions

end Host

end Zeron.Mailbox
