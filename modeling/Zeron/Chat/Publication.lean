import Zeron.Chat.Outbox
import Zeron.Transition.Run

/-!
# Publishing local batches

Both transports of a chat client send from one replay queue: a socket session
sends what it has not sent yet and answers to acknowledgements and errors, an
HTTPS cycle posts a copy of the queue batch by batch.  A step is what a task
does between two waits.
-/

namespace Zeron.Chat

open Data Transition

inductive ErrorCode where
  | tooLarge
  | empty
  | badPush
  | quota
  | other
  deriving DecidableEq

/-- Verdicts on a batch that no repetition changes. -/
def ErrorCode.permanent : ErrorCode → Bool
  | .tooLarge | .empty | .badPush => true
  | .quota | .other => false

structure PushSession where
  inFlight : List String
  /-- What the current `push_pending` has still to send. -/
  sending : List PendingPush

/-- The push part of an HTTPS cycle. -/
structure PushCycle where
  batches : List PendingPush
  /-- The batch of the request under way. -/
  posted : Option String

/-- What happens to batches, for the statements only. -/
inductive PushRecord where
  | handed (batchId : String) (bytes : List UInt8)
  | persisted (batchId : String)
  | sent (batchId : String) (bytes : List UInt8)
  | acknowledged (batchId : String)
  | rejected (batchId : String)
  deriving DecidableEq

structure Publisher where
  queue : ReplayQueue
  /-- `retry_at` is set. -/
  retrying : Bool
  session : Option PushSession
  cycle : Option PushCycle
  trace : List PushRecord
  /-- The batches in the order in which this client got them. -/
  order : List String
  /-- Batches that a process held without an outbox row when it ended, and those over the cap
  of which the write or the mark failed. -/
  lost : List String

inductive PublisherEvent where
  | enqueueBatch (batchId : String) (bytes : List UInt8) (persists marks : Bool)
  | dial
  | nudge
  | send (persists delivered : Bool)
  | retry (persists delivered : Bool)
  | ack (batchId : String) (deletes : Bool)
  | error (code : ErrorCode) (batchId : String) (marks : Bool)
  | disconnect
  | sync
  | post (persists : Bool)
  | posted (deletes : Bool)
  | postFailed
  | finish
  | restart

namespace Publisher

def start : Publisher :=
  { queue := .empty, retrying := false, session := none, cycle := none, trace := [],
    order := [], lost := [] }

/-- The batch went out, so that the room may answer for it. -/
def answerable (publisher : Publisher) (batchId : String) : Bool :=
  publisher.trace.any fun
    | .sent other _ => other == batchId
    | _ => false

/-- What `persist_update` of a batch adds to the trace. -/
def persistRecords (batchId : String) (persists : Bool) : List PushRecord :=
  if persists then [.persisted batchId] else []

/-- `enqueue_batch`. -/
def enqueueBatch (publisher : Publisher) (batchId : String) (bytes : List UInt8)
    (persists marks : Bool) : Publisher :=
  let oversized := decide (maxPushBytes < bytes.length)
  { publisher with
    queue := publisher.queue.enqueueBatch batchId bytes persists marks
    trace := publisher.trace ++ (.handed batchId bytes :: persistRecords batchId persists) ++
      if oversized && marks then [.rejected batchId] else []
    order := publisher.order ++ [batchId]
    lost := if oversized && !(persists && marks) then publisher.lost ++ [batchId]
      else publisher.lost.filter fun other => other != batchId }

/-- `ensure_durable` before a send. -/
def secure (publisher : Publisher) (push : PendingPush) (persists : Bool) : Publisher × Bool :=
  let secured := publisher.queue.ensureDurable push persists
  let writes := (publisher.queue.unwritten push).isSome && persists
  ({ publisher with
      queue := secured.1
      trace := publisher.trace ++ persistRecords push.batchId writes }, secured.2)

/-- One push of the socket session: a batch that is not durable and a dead
socket end the session. -/
def transmit (publisher : Publisher) (push : PendingPush) (persists delivered : Bool)
    (session : PushSession) : Publisher :=
  let secured := publisher.secure push persists
  if secured.2 && delivered then
    { secured.1 with
      session := some session
      trace := secured.1.trace ++ [.sent push.batchId push.bytes] }
  else { secured.1 with session := none }

/-- `ACK`. -/
def acknowledge (publisher : Publisher) (batchId : String) (deletes : Bool) : Publisher :=
  let queue := (publisher.queue.acknowledge batchId deletes).drain
  { publisher with
    queue
    retrying := publisher.retrying || !deletes || queue.quotaBlocked
    trace := publisher.trace ++ [.acknowledged batchId] }

/-- `ERROR`. -/
def error (publisher : Publisher) (code : ErrorCode) (batchId : String) (marks : Bool) :
    Publisher :=
  if code.permanent && batchId != "" then
    match publisher.queue.reject batchId marks with
    | none => { publisher with session := none }
    | some queue => { publisher with queue, trace := publisher.trace ++ [.rejected batchId] }
  else if code = .quota then
    { publisher with queue := { publisher.queue with quotaBlocked := true }, retrying := true }
  else publisher

/-- A new process: what is left is what the outbox has. -/
def restart (publisher : Publisher) : Publisher :=
  let queue := ReplayQueue.reload publisher.queue.outbox
  let oversized := publisher.queue.outbox.rows.filter fun row =>
    decide (maxPushBytes < row.bytes.length)
  { queue
    retrying := false
    session := none
    cycle := none
    trace := publisher.trace ++ oversized.map fun row => .rejected row.batchId
    order := queue.pending.map PendingPush.batchId
    lost := publisher.lost ++ (publisher.queue.pending.filter fun push => !push.durable).map
      PendingPush.batchId }

def step : Step Publisher PublisherEvent
  | publisher, .enqueueBatch batchId bytes persists marks =>
      some (publisher.enqueueBatch batchId bytes persists marks)
  | publisher, .dial =>
      if publisher.session.isNone then
        some { publisher with session := some { inFlight := [], sending := [] } }
      else none
  | publisher, .nudge =>
      match publisher.session with
      | some { inFlight, sending := [] } =>
          let inFlight := inFlight.filter publisher.queue.queued
          some { publisher with
            session := some { inFlight, sending := publisher.queue.unsent inFlight } }
      | _ => none
  | publisher, .send persists delivered =>
      match publisher.session with
      | some { inFlight, sending := push :: sending } =>
          some (publisher.transmit push persists delivered
            { inFlight := push.batchId :: inFlight, sending })
      | _ => none
  | publisher, .retry persists delivered =>
      match publisher.session, publisher.retrying with
      | some { inFlight, sending := [] }, true =>
          let cleared := { publisher with retrying := false }
          match publisher.queue.pending.head? with
          | none => some cleared
          | some push =>
              some (cleared.transmit push persists delivered { inFlight, sending := [] })
      | _, _ => none
  | publisher, .ack batchId deletes =>
      match publisher.session with
      | some { sending := [], .. } =>
          if publisher.answerable batchId then some (publisher.acknowledge batchId deletes)
          else none
      | _ => none
  | publisher, .error code batchId marks =>
      match publisher.session with
      | some { sending := [], .. } =>
          if code.permanent && batchId != "" && !publisher.answerable batchId then none
          else some (publisher.error code batchId marks)
      | _ => none
  | publisher, .disconnect =>
      if publisher.session.isSome then some { publisher with session := none } else none
  | publisher, .sync =>
      if publisher.cycle.isNone then
        some { publisher with
          cycle := some { batches := publisher.queue.pending, posted := none } }
      else none
  | publisher, .post persists =>
      match publisher.cycle with
      | some { batches := push :: batches, posted := none } =>
          let secured := publisher.secure push persists
          if secured.2 then
            some { secured.1 with
              cycle := some { batches, posted := some push.batchId }
              trace := secured.1.trace ++ [.sent push.batchId push.bytes] }
          else some { secured.1 with cycle := some { batches := [], posted := none } }
      | _ => none
  | publisher, .posted deletes =>
      match publisher.cycle with
      | some { batches, posted := some batchId } =>
          some { publisher with
            queue := publisher.queue.acknowledge batchId deletes
            cycle := some { batches, posted := none }
            trace := publisher.trace ++ [.acknowledged batchId] }
      | _ => none
  | publisher, .postFailed =>
      match publisher.cycle with
      | some { posted := some _, .. } =>
          some { publisher with cycle := some { batches := [], posted := none } }
      | _ => none
  | publisher, .finish =>
      match publisher.cycle with
      | some { batches := [], posted := none } => some { publisher with cycle := none }
      | _ => none
  | publisher, .restart => some publisher.restart

/-- The batches that a transport has copied from the queue and not sent yet. -/
def copies (publisher : Publisher) : List PendingPush :=
  (publisher.session.map PushSession.sending).getD [] ++
    (publisher.cycle.map PushCycle.batches).getD []

/-- The batch was acknowledged, or it is one of the lost ones, or it is queued, or it waits on
disk for a checkpoint after a verdict. -/
def Retained (publisher : Publisher) (batchId : String) : Prop :=
  .acknowledged batchId ∈ publisher.trace ∨ batchId ∈ publisher.lost ∨
    publisher.queue.queued batchId = true ∨
    (publisher.queue.outbox.Obliges batchId ∧ .rejected batchId ∈ publisher.trace)

/-- What goes out was handed over and written to the outbox before. -/
def Secured (trace : List PushRecord) : Prop :=
  ∀ earlier batchId bytes later, trace = earlier ++ .sent batchId bytes :: later →
    .persisted batchId ∈ earlier ∧ .handed batchId bytes ∈ earlier

/-- The successful writes to the outbox, in their order. -/
def writes (trace : List PushRecord) : List String :=
  trace.filterMap fun
    | .persisted batchId => some batchId
    | _ => none

/-- A batch that may be sent once `ensure_durable` has passed it. -/
def Sendable (publisher : Publisher) (push : PendingPush) : Prop :=
  .handed push.batchId push.bytes ∈ publisher.trace ∧
    (.persisted push.batchId ∈ publisher.trace ∨
      (push.durable = false ∧ publisher.queue.queued push.batchId = true))

/-- What the code keeps of the batches handed to it. -/
structure Sound (publisher : Publisher) : Prop where
  distinct : (publisher.queue.pending.map PendingPush.batchId).Nodup
  durable : ∀ push ∈ publisher.queue.pending, push.durable = true →
    .persisted push.batchId ∈ publisher.trace
  handed : ∀ push ∈ publisher.queue.pending, .handed push.batchId push.bytes ∈ publisher.trace
  rows : ∀ row ∈ publisher.queue.outbox.rows, .persisted row.batchId ∈ publisher.trace ∧
    .handed row.batchId row.bytes ∈ publisher.trace
  marked : ∀ row ∈ publisher.queue.outbox.rows, row.needsCheckpoint = true →
    .rejected row.batchId ∈ publisher.trace
  stored : ∀ batchId, .persisted batchId ∈ publisher.trace →
    .acknowledged batchId ∈ publisher.trace ∨ (publisher.queue.outbox.get batchId).isSome
  copied : ∀ push ∈ publisher.copies, publisher.Sendable push
  posted : ∀ cycle batchId, publisher.cycle = some cycle → cycle.posted = some batchId →
    .persisted batchId ∈ publisher.trace
  secured : Secured publisher.trace
  ordered : (publisher.queue.pending.map PendingPush.batchId).Sublist publisher.order
  logged : (publisher.queue.outbox.rows.map OutboxRow.batchId).Sublist (writes publisher.trace)
  retained : ∀ batchId bytes, .handed batchId bytes ∈ publisher.trace → publisher.Retained batchId

theorem writes_append (first second : List PushRecord) :
    writes (first ++ second) = writes first ++ writes second :=
  List.filterMap_append

variable {queue : ReplayQueue}

theorem queued_iff {batchId : String} :
    queue.queued batchId = true ↔ ∃ push ∈ queue.pending, push.batchId = batchId := by
  unfold ReplayQueue.queued
  rw [List.any_eq_true]
  simp only [beq_iff_eq]

/-- The batches other than a retired one stay queued. -/
theorem queued_of_retired {next : ReplayQueue} {batchId other : String}
    (pending_eq : next.pending = queue.pending.filter fun push => push.batchId != batchId)
    (queued : queue.queued other = true) (apart : other ≠ batchId) :
    next.queued other = true := by
  obtain ⟨push, listed, rfl⟩ := queued_iff.mp queued
  refine queued_iff.mpr ⟨push, ?_, rfl⟩
  rw [pending_eq, List.mem_filter, bne_iff_ne]
  exact ⟨listed, apart⟩

theorem Secured.snoc {trace : List PushRecord} (secured : Secured trace) {record : PushRecord}
    (fits : ∀ batchId bytes, record = .sent batchId bytes →
      .persisted batchId ∈ trace ∧ .handed batchId bytes ∈ trace) :
    Secured (trace ++ [record]) := by
  intro earlier batchId bytes later split
  obtain rfl | ⟨front, last, rfl⟩ := List.eq_nil_or_concat later
  · obtain ⟨rfl, same⟩ := List.append_inj' split rfl
    exact fits batchId bytes (List.singleton_inj.mp same)
  · rw [List.concat_eq_append, ← List.cons_append, ← List.append_assoc] at split
    obtain ⟨rfl, _⟩ := List.append_inj' split rfl
    exact secured earlier batchId bytes front rfl

theorem Secured.append {trace : List PushRecord} (secured : Secured trace)
    {records : List PushRecord} (silent : ∀ batchId bytes, .sent batchId bytes ∉ records) :
    Secured (trace ++ records) := by
  induction records generalizing trace with
  | nil =>
      rw [List.append_nil]
      exact secured
  | cons record records ih =>
      rw [← List.singleton_append, ← List.append_assoc]
      apply ih
      · apply secured.snoc
        rintro batchId bytes rfl
        exact absurd List.mem_cons_self (silent batchId bytes)
      · intro batchId bytes listed
        exact silent batchId bytes (List.mem_cons_of_mem _ listed)

namespace Sound

variable {publisher : Publisher}

theorem sound_start : Sound start where
  distinct := List.nodup_nil
  durable _ listed := by cases listed
  handed _ listed := by cases listed
  rows _ stored := by cases stored
  marked _ stored := by cases stored
  stored _ listed := by cases listed
  copied _ listed := by cases listed
  posted _ _ none_is := by cases none_is
  secured earlier _ _ _ split := by
    have := congrArg List.length split
    simp [start] at this
  ordered := List.Sublist.refl _
  logged := List.Sublist.refl _
  retained _ _ listed := by cases listed

/-! ## The trace -/

variable {push : PendingPush} {batchId : String}

section

variable (sound : publisher.Sound)
include sound

/-- A record that nothing else is claimed of. -/
theorem note (record : PushRecord) (not_persisted : ∀ batchId, record ≠ .persisted batchId)
    (not_handed : ∀ batchId bytes, record ≠ .handed batchId bytes)
    (fits : ∀ batchId bytes, record = .sent batchId bytes →
      .persisted batchId ∈ publisher.trace ∧ .handed batchId bytes ∈ publisher.trace) :
    Sound { publisher with trace := publisher.trace ++ [record] } where
  distinct := sound.distinct
  durable push listed durable := List.mem_append_left _ (sound.durable push listed durable)
  handed push listed := List.mem_append_left _ (sound.handed push listed)
  rows row stored :=
    ⟨List.mem_append_left _ (sound.rows row stored).1,
      List.mem_append_left _ (sound.rows row stored).2⟩
  marked row stored marked := List.mem_append_left _ (sound.marked row stored marked)
  stored batchId listed := by
    obtain old | new := List.mem_append.mp listed
    · exact (sound.stored batchId old).imp_left (List.mem_append_left _)
    · exact absurd (List.mem_singleton.mp new).symm (not_persisted batchId)
  copied push listed := by
    obtain ⟨handed, ready⟩ := sound.copied push listed
    exact ⟨List.mem_append_left _ handed, ready.imp_left (List.mem_append_left _)⟩
  posted cycle batchId running posted :=
    List.mem_append_left _ (sound.posted cycle batchId running posted)
  secured := sound.secured.snoc fits
  ordered := sound.ordered
  logged := by
    rw [writes_append]
    exact sound.logged.trans (List.sublist_append_left _ _)
  retained batchId bytes listed := by
    obtain old | new := List.mem_append.mp listed
    · obtain acked | lost | queued | ⟨obliges, rejected⟩ := sound.retained batchId bytes old
      · exact .inl (List.mem_append_left _ acked)
      · exact .inr (.inl lost)
      · exact .inr (.inr (.inl queued))
      · exact .inr (.inr (.inr ⟨obliges, List.mem_append_left _ rejected⟩))
    · exact absurd (List.mem_singleton.mp new).symm (not_handed batchId bytes)

/-- A batch that went out was written before. -/
theorem persisted_of_sent {bytes : List UInt8} (sent : .sent batchId bytes ∈ publisher.trace) :
    .persisted batchId ∈ publisher.trace := by
  obtain ⟨earlier, later, split⟩ := List.append_of_mem sent
  have written := (sound.secured earlier batchId bytes later split).1
  rw [split]
  exact List.mem_append_left _ written

theorem persisted_of_answerable (went_out : publisher.answerable batchId = true) :
    .persisted batchId ∈ publisher.trace := by
  obtain ⟨record, listed, matches_it⟩ := List.any_eq_true.mp went_out
  cases record with
  | sent other bytes =>
      cases eq_of_beq matches_it
      exact sound.persisted_of_sent listed
  | handed _ _ => cases matches_it
  | persisted _ => cases matches_it
  | acknowledged _ => cases matches_it
  | rejected _ => cases matches_it

/-! ## The transports -/

/-- The transports may hold any batches that may be sent. -/
theorem carrying (session : Option PushSession) (cycle : Option PushCycle)
    (copied : ∀ push ∈ copies { publisher with session, cycle }, publisher.Sendable push)
    (posted : ∀ running batchId, cycle = some running → running.posted = some batchId →
      .persisted batchId ∈ publisher.trace) :
    Sound { publisher with session, cycle } :=
  { sound with copied, posted }

/-- A queued batch may be sent. -/
theorem sendable_of_pending (listed : push ∈ publisher.queue.pending) :
    publisher.Sendable push := by
  refine ⟨sound.handed push listed, ?_⟩
  cases durable : push.durable with
  | true => exact .inl (sound.durable push listed durable)
  | false => exact .inr ⟨rfl, queued_iff.mpr ⟨push, listed, rfl⟩⟩

/-! ## Answers -/

/-- A batch that is acknowledged or waits for a checkpoint may leave the queue. -/
theorem retire (written : .persisted batchId ∈ publisher.trace)
    (settled : .acknowledged batchId ∈ publisher.trace ∨
      (publisher.queue.outbox.Obliges batchId ∧ .rejected batchId ∈ publisher.trace)) :
    Sound { publisher with queue := { publisher.queue with
      pending := publisher.queue.pending.filter fun push => push.batchId != batchId } } := by
  have fewer : (publisher.queue.pending.filter fun push => push.batchId != batchId).Sublist
      publisher.queue.pending := List.filter_sublist
  constructor
  · exact (fewer.map _).nodup sound.distinct
  · intro push listed
    exact sound.durable push (fewer.subset listed)
  · intro push listed
    exact sound.handed push (fewer.subset listed)
  · exact sound.rows
  · exact sound.marked
  · exact sound.stored
  · intro push listed
    obtain ⟨handed, ready⟩ := sound.copied push listed
    refine ⟨handed, ?_⟩
    obtain persisted | ⟨not_durable, queued⟩ := ready
    · exact .inl persisted
    · by_cases same : push.batchId = batchId
      · rw [same]
        exact .inl written
      · exact .inr ⟨not_durable, queued_of_retired rfl queued same⟩
  · exact sound.posted
  · exact sound.secured
  · exact (fewer.map _).trans sound.ordered
  · exact sound.logged
  · intro other bytes listed
    by_cases same : other = batchId
    · subst same
      exact settled.imp_right fun obliged => .inr (.inr obliged)
    · obtain acked | lost | queued | obliged := sound.retained other bytes listed
      · exact .inl acked
      · exact .inr (.inl lost)
      · exact .inr (.inr (.inl (queued_of_retired rfl queued same)))
      · exact .inr (.inr (.inr obliged))

/-- The outbox row of an acknowledged batch may go. -/
theorem delete (acked : .acknowledged batchId ∈ publisher.trace) :
    Sound { publisher with queue := { publisher.queue with
      outbox := publisher.queue.outbox.acknowledge batchId } } := by
  refine { sound with rows := ?_, marked := ?_, stored := ?_, logged := ?_, retained := ?_ }
  · intro row stored
    exact sound.rows row (Outbox.mem_acknowledge_iff.mp stored).1
  · intro row stored
    exact sound.marked row (Outbox.mem_acknowledge_iff.mp stored).1
  · intro other listed
    by_cases same : other = batchId
    · subst same
      exact .inl acked
    · refine (sound.stored other listed).imp_right fun held => ?_
      obtain ⟨row, stored, row_eq⟩ := Outbox.isSome_get_iff.mp held
      refine Outbox.isSome_get_iff.mpr ⟨row, ?_, row_eq⟩
      rw [Outbox.mem_acknowledge_iff, row_eq]
      exact ⟨stored, same⟩
  · exact (List.filter_sublist.map _).trans sound.logged
  · intro other bytes listed
    by_cases same : other = batchId
    · subst same
      exact .inl acked
    · obtain old | lost | queued | ⟨obliges, rejected⟩ := sound.retained other bytes listed
      · exact .inl old
      · exact .inr (.inl lost)
      · exact .inr (.inr (.inl queued))
      · exact .inr (.inr (.inr ⟨obliges.acknowledge same, rejected⟩))

/-- The outbox row of a rejected batch may be marked. -/
theorem mark (rejected : .rejected batchId ∈ publisher.trace) :
    Sound { publisher with queue := { publisher.queue with
      outbox := publisher.queue.outbox.reject batchId } } := by
  refine { sound with rows := ?_, marked := ?_, stored := ?_, logged := ?_, retained := ?_ }
  · intro row stored
    obtain ⟨old, old_stored, rfl⟩ := List.mem_map.mp stored
    split <;> exact sound.rows old old_stored
  · intro row stored needs
    obtain ⟨old, old_stored, rfl⟩ := List.mem_map.mp stored
    split at needs
    · rename_i same
      rw [if_pos same, show old.batchId = batchId from eq_of_beq same]
      exact rejected
    · rename_i other
      rw [if_neg other]
      exact sound.marked old old_stored needs
  · intro other listed
    refine (sound.stored other listed).imp_right fun held => ?_
    rw [Outbox.isSome_get_reject]
    exact held
  · unfold Outbox.reject
    rw [Outbox.ids_update]
    exact sound.logged
  · intro other bytes listed
    obtain old | lost | queued | ⟨obliges, old_rejected⟩ := sound.retained other bytes listed
    · exact .inl old
    · exact .inr (.inl lost)
    · exact .inr (.inr (.inl queued))
    · exact .inr (.inr (.inr ⟨obliges.reject batchId, old_rejected⟩))

theorem acknowledge (written : .persisted batchId ∈ publisher.trace)
    (acked : .acknowledged batchId ∈ publisher.trace) (deletes : Bool) :
    Sound { publisher with queue := publisher.queue.acknowledge batchId deletes } := by
  cases deletes with
  | false => exact sound
  | true => exact (sound.retire written (.inl acked)).delete acked

theorem reject (written : .persisted batchId ∈ publisher.trace)
    (rejected : .rejected batchId ∈ publisher.trace) {marks : Bool}
    (marked : publisher.queue.reject batchId marks = some queue) :
    Sound { publisher with queue } := by
  cases marks with
  | false => cases marked
  | true =>
      cases marked
      apply (sound.mark rejected).retire written
      refine (sound.stored batchId written).imp_right fun held => ?_
      exact ⟨Outbox.obliges_reject held, rejected⟩

end

/-! ## Writes -/

/-- The queue with one batch marked as written. -/
theorem ids_of_written (pending : List PendingPush) (batchId : String) :
    (pending.map fun other =>
      if other.batchId == batchId then { other with durable := true } else other).map
        PendingPush.batchId = pending.map PendingPush.batchId := by
  rw [List.map_map]
  apply List.map_congr_left
  intro other _
  rw [Function.comp_apply]
  split <;> rfl

/-- The queue finds a batch by its id. -/
theorem of_find {pending : List PendingPush}
    (found : pending.find? (fun other => other.batchId == batchId) = some push) :
    push ∈ pending ∧ push.batchId = batchId := by
  have picked := List.find?_some found
  exact ⟨List.mem_of_find?_eq_some found, beq_iff_eq.mp picked⟩

/-- A late write of a queued batch. -/
theorem persist (sound : publisher.Sound) {push pending : PendingPush}
    (due : publisher.queue.unwritten push = some pending) :
    (publisher.secure push true).1.Sound := by
  have listed : pending ∈ publisher.queue.pending ∧ pending.batchId = push.batchId := by
    unfold ReplayQueue.unwritten at due
    split at due
    · cases due
    · obtain ⟨found, _⟩ := Option.filter_eq_some_iff.mp due
      exact of_find found
  obtain ⟨queued, same⟩ := listed
  unfold secure ReplayQueue.ensureDurable persistRecords
  rw [due]
  simp only [if_true]
  have handed := sound.handed pending queued
  rw [← same]
  constructor
  · rw [ids_of_written]
    exact sound.distinct
  · intro other other_listed durable
    obtain ⟨old, old_listed, rfl⟩ := List.mem_map.mp other_listed
    split at durable
    · rename_i old_same
      rw [if_pos old_same]
      exact List.mem_append_right _ (List.mem_singleton.mpr
        (congrArg PushRecord.persisted (eq_of_beq old_same)))
    · rename_i old_other
      rw [if_neg old_other]
      exact List.mem_append_left _ (sound.durable old old_listed durable)
  · intro other other_listed
    obtain ⟨old, old_listed, rfl⟩ := List.mem_map.mp other_listed
    apply List.mem_append_left
    split <;> exact sound.handed old old_listed
  · intro row stored
    obtain old | rfl := Outbox.mem_enqueue stored
    · exact ⟨List.mem_append_left _ (sound.rows row old).1,
        List.mem_append_left _ (sound.rows row old).2⟩
    · exact ⟨List.mem_concat_self, List.mem_append_left _ handed⟩
  · intro row stored needs
    obtain old | rfl := Outbox.mem_enqueue stored
    · exact List.mem_append_left _ (sound.marked row old needs)
    · cases needs
  · intro other written
    rw [Outbox.isSome_get_enqueue]
    obtain old | new := List.mem_append.mp written
    · exact (sound.stored other old).imp (List.mem_append_left _) .inl
    · cases List.mem_singleton.mp new
      exact .inr (.inr rfl)
  · intro other other_listed
    obtain ⟨other_handed, ready⟩ := sound.copied other other_listed
    refine ⟨List.mem_append_left _ other_handed, ready.imp (List.mem_append_left _) ?_⟩
    rintro ⟨not_durable, other_queued⟩
    refine ⟨not_durable, ?_⟩
    obtain ⟨old, old_listed, old_eq⟩ := queued_iff.mp other_queued
    refine queued_iff.mpr ⟨_, List.mem_map_of_mem old_listed, ?_⟩
    split <;> exact old_eq
  · intro cycle batchId running posted
    exact List.mem_append_left _ (sound.posted cycle batchId running posted)
  · apply sound.secured.snoc
    intro batchId bytes other_record
    cases other_record
  · rw [ids_of_written]
    exact sound.ordered
  · rw [writes_append]
    exact (Outbox.ids_enqueue _ _ _).trans (sound.logged.append (List.Sublist.refl _))
  · intro batchId bytes other_handed
    obtain old | new := List.mem_append.mp other_handed
    · obtain acked | lost | other_queued | ⟨obliges, rejected⟩ :=
        sound.retained batchId bytes old
      · exact .inl (List.mem_append_left _ acked)
      · exact .inr (.inl lost)
      · refine .inr (.inr (.inl ?_))
        obtain ⟨old_push, old_listed, old_eq⟩ := queued_iff.mp other_queued
        refine queued_iff.mpr ⟨_, List.mem_map_of_mem old_listed, ?_⟩
        split <;> exact old_eq
      · exact .inr (.inr (.inr ⟨obliges.enqueue _ _, List.mem_append_left _ rejected⟩))
    · cases List.mem_singleton.mp new

/-- `ensure_durable` keeps everything, and passes only what is written. -/
theorem secure (sound : publisher.Sound) (sendable : publisher.Sendable push) (persists : Bool) :
    (publisher.secure push persists).1.Sound ∧
      .handed push.batchId push.bytes ∈ (publisher.secure push persists).1.trace ∧
      ((publisher.secure push persists).2 = true →
        .persisted push.batchId ∈ (publisher.secure push persists).1.trace) := by
  cases due : publisher.queue.unwritten push with
  | none =>
      have same : publisher.secure push persists = (publisher, true) := by
        unfold Publisher.secure ReplayQueue.ensureDurable persistRecords
        rw [due]
        simp
      rw [same]
      refine ⟨sound, sendable.1, fun _ => ?_⟩
      obtain persisted | ⟨not_durable, queued⟩ := sendable.2
      · exact persisted
      · -- The copy is stale: the queue has the batch as written.
        obtain ⟨other, other_listed, other_eq⟩ := queued_iff.mp queued
        unfold ReplayQueue.unwritten at due
        rw [not_durable, if_neg Bool.false_ne_true] at due
        cases found : publisher.queue.pending.find? fun pending =>
            pending.batchId == push.batchId with
        | none =>
            have absent := List.find?_eq_none.mp found other other_listed
            exact absurd (beq_iff_eq.mpr other_eq) absent
        | some pending =>
            rw [found, Option.filter_eq_none_iff] at due
            have durable : pending.durable = true := by simpa using due pending rfl
            obtain ⟨listed, same_id⟩ := of_find found
            rw [← same_id]
            exact sound.durable pending listed durable
  | some pending =>
      cases persists with
      | true =>
          refine ⟨sound.persist due, List.mem_append_left _ sendable.1, fun _ => ?_⟩
          unfold Publisher.secure persistRecords
          rw [due]
          exact List.mem_concat_self
      | false =>
          have same : publisher.secure push false = (publisher, false) := by
            unfold Publisher.secure ReplayQueue.ensureDurable persistRecords
            rw [due]
            simp
          rw [same]
          exact ⟨sound, sendable.1, fun never => by cases never⟩

/-! ## New batches -/

theorem mem_persistRecords {persists : Bool} {record : PushRecord} :
    record ∈ persistRecords batchId persists ↔
      persists = true ∧ record = .persisted batchId := by
  unfold persistRecords
  cases persists <;> simp

section

variable (sound : publisher.Sound)
include sound

/-- A batch that waits for a checkpoint is not one of the lost ones. -/
theorem forget (obliges : publisher.queue.outbox.Obliges batchId)
    (rejected : .rejected batchId ∈ publisher.trace) :
    Sound { publisher with lost := publisher.lost.filter fun other => other != batchId } := by
  refine { sound with retained := ?_ }
  intro other bytes listed
  obtain acked | lost | kept := sound.retained other bytes listed
  · exact .inl acked
  · by_cases same : other = batchId
    · subst same
      exact .inr (.inr (.inr ⟨obliges, rejected⟩))
    · exact .inr (.inl (List.mem_filter.mpr ⟨lost, bne_iff_ne.mpr same⟩))
  · exact .inr (.inr kept)

/-- A batch is handed over: the outbox may take it, and the queue has it unless it is one of
the lost ones. -/
theorem hand (batchId : String) (bytes : List UInt8) (persists : Bool)
    {pending : List PendingPush}
    (queues : pending = publisher.queue.pending ∨
      (publisher.queue.queued batchId = false ∧
        pending = publisher.queue.pending ++ [{ batchId, bytes, durable := persists }]))
    {lost : List String} (kept : batchId ∈ lost ∨ ∃ push ∈ pending, push.batchId = batchId)
    (remembers : ∀ other ∈ publisher.lost, other ∈ lost ∨
      (other = batchId ∧ ∃ push ∈ pending, push.batchId = batchId)) :
    Sound { publisher with
      queue := { publisher.queue.persistUpdate batchId bytes persists with pending }
      trace := publisher.trace ++ (.handed batchId bytes :: persistRecords batchId persists)
      order := publisher.order ++ [batchId]
      lost } := by
  have listed_cases : ∀ push ∈ pending, push ∈ publisher.queue.pending ∨
      push = { batchId, bytes, durable := persists } := by
    intro push listed
    obtain rfl | ⟨_, rfl⟩ := queues
    · exact .inl listed
    · exact (List.mem_append.mp listed).imp_right List.mem_singleton.mp
  have stays : ∀ push ∈ publisher.queue.pending, push ∈ pending := by
    intro push listed
    obtain rfl | ⟨_, rfl⟩ := queues
    · exact listed
    · exact List.mem_append_left _ listed
  have row_cases : ∀ row ∈ (publisher.queue.persistUpdate batchId bytes persists).outbox.rows,
      row ∈ publisher.queue.outbox.rows ∨
        (persists = true ∧ row = { batchId, bytes, needsCheckpoint := false }) := by
    intro row stored
    cases persists with
    | true => exact (Outbox.mem_enqueue stored).imp_right fun new => ⟨rfl, new⟩
    | false => exact .inl stored
  have new_handed : .handed batchId bytes ∈ publisher.trace ++
      (.handed batchId bytes :: persistRecords batchId persists) :=
    List.mem_append_right _ List.mem_cons_self
  have new_persisted : persists = true → .persisted batchId ∈ publisher.trace ++
      (.handed batchId bytes :: persistRecords batchId persists) := by
    intro written
    exact List.mem_append_right _
      (List.mem_cons_of_mem _ (mem_persistRecords.mpr ⟨written, rfl⟩))
  constructor
  · obtain rfl | ⟨absent, rfl⟩ := queues
    · exact sound.distinct
    · rw [List.map_append]
      refine List.nodup_append.mpr ⟨sound.distinct, List.nodup_singleton _, ?_⟩
      rintro _ listed other other_listed rfl
      cases List.mem_singleton.mp other_listed
      obtain ⟨push, push_listed, same⟩ := List.mem_map.mp listed
      rw [queued_iff.mpr ⟨push, push_listed, same⟩] at absent
      cases absent
  · intro push listed durable
    obtain old | rfl := listed_cases push listed
    · exact List.mem_append_left _ (sound.durable push old durable)
    · exact new_persisted durable
  · intro push listed
    obtain old | rfl := listed_cases push listed
    · exact List.mem_append_left _ (sound.handed push old)
    · exact new_handed
  · intro row stored
    obtain old | ⟨written, rfl⟩ := row_cases row stored
    · exact ⟨List.mem_append_left _ (sound.rows row old).1,
        List.mem_append_left _ (sound.rows row old).2⟩
    · exact ⟨new_persisted written, new_handed⟩
  · intro row stored needs
    obtain old | ⟨_, rfl⟩ := row_cases row stored
    · exact List.mem_append_left _ (sound.marked row old needs)
    · cases needs
  · intro other written
    unfold ReplayQueue.persistUpdate
    obtain old | new := List.mem_append.mp written
    · refine (sound.stored other old).imp (List.mem_append_left _) fun held => ?_
      split
      · exact (Outbox.isSome_get_enqueue _ _ _ _).mpr (.inl held)
      · exact held
    · obtain never | new := List.mem_cons.mp new
      · cases never
      · obtain ⟨persists_true, same⟩ := mem_persistRecords.mp new
        cases same
        rw [if_pos persists_true]
        exact .inr ((Outbox.isSome_get_enqueue _ _ _ _).mpr (.inr rfl))
  · intro push listed
    obtain ⟨handed, ready⟩ := sound.copied push listed
    refine ⟨List.mem_append_left _ handed, ready.imp (List.mem_append_left _) ?_⟩
    rintro ⟨not_durable, queued⟩
    obtain ⟨other, other_listed, same⟩ := queued_iff.mp queued
    exact ⟨not_durable, queued_iff.mpr ⟨other, stays other other_listed, same⟩⟩
  · intro cycle other running posted
    exact List.mem_append_left _ (sound.posted cycle other running posted)
  · apply sound.secured.append
    intro other other_bytes listed
    obtain never | listed := List.mem_cons.mp listed
    · cases never
    · cases (mem_persistRecords.mp listed).2
  · obtain rfl | ⟨_, rfl⟩ := queues
    · exact sound.ordered.trans (List.sublist_append_left _ _)
    · rw [List.map_append]
      exact sound.ordered.append (List.Sublist.refl _)
  · rw [writes_append]
    cases persists with
    | true =>
        exact (Outbox.ids_enqueue _ _ _).trans (sound.logged.append (List.Sublist.refl _))
    | false => exact sound.logged.trans (List.sublist_append_left _ _)
  · intro other other_bytes listed
    obtain old | new := List.mem_append.mp listed
    · obtain acked | was_lost | queued | ⟨obliges, rejected⟩ :=
        sound.retained other other_bytes old
      · exact .inl (List.mem_append_left _ acked)
      · obtain still | ⟨rfl, queued⟩ := remembers other was_lost
        · exact .inr (.inl still)
        · exact .inr (.inr (.inl (queued_iff.mpr queued)))
      · obtain ⟨push, push_listed, same⟩ := queued_iff.mp queued
        exact .inr (.inr (.inl (queued_iff.mpr ⟨push, stays push push_listed, same⟩)))
      · refine .inr (.inr (.inr ⟨?_, List.mem_append_left _ rejected⟩))
        unfold ReplayQueue.persistUpdate
        split
        · exact obliges.enqueue _ _
        · exact obliges
    · obtain same | new := List.mem_cons.mp new
      · cases same
        exact .inr (kept.imp_right fun queued => .inl (queued_iff.mpr queued))
      · cases (mem_persistRecords.mp new).2

theorem enqueueBatch (batchId : String) (bytes : List UInt8) (persists marks : Bool) :
    (publisher.enqueueBatch batchId bytes persists marks).Sound := by
  unfold Publisher.enqueueBatch ReplayQueue.enqueueBatch
  by_cases oversized : maxPushBytes < bytes.length
  · simp only [if_pos oversized, decide_eq_true oversized, Bool.true_and]
    have handed := sound.hand batchId bytes persists (.inl rfl)
      (.inl (List.mem_append_right publisher.lost (List.mem_singleton_self batchId)))
      fun other lost => .inl (List.mem_append_left _ lost)
    cases marks with
    | false =>
        rw [if_neg Bool.false_ne_true, if_neg Bool.false_ne_true, List.append_nil, Bool.and_false]
        exact handed
    | true =>
        have noted := handed.note (.rejected batchId) (by simp) (by simp) (by simp)
        have rejected := List.mem_append_right (publisher.trace ++
          (.handed batchId bytes :: persistRecords batchId persists))
          (List.mem_singleton_self (PushRecord.rejected batchId))
        have marked := noted.mark rejected
        cases persists with
        | false => exact marked
        | true =>
            -- the row was written before it was marked
            have forgotten := marked.forget (Outbox.obliges_reject
              ((Outbox.isSome_get_enqueue _ _ _ _).mpr (.inr rfl))) rejected
            rw [List.filter_append, List.filter_cons_of_neg (by simp), List.filter_nil,
              List.append_nil] at forgotten
            exact forgotten
  · simp only [if_neg oversized, decide_eq_false oversized, Bool.false_and, Bool.false_eq_true,
      if_false, List.append_nil]
    have remembers {pending : List PendingPush}
        (queued : ∃ push ∈ pending, push.batchId = batchId) : ∀ other ∈ publisher.lost,
        other ∈ publisher.lost.filter (fun other => other != batchId) ∨
          (other = batchId ∧ ∃ push ∈ pending, push.batchId = batchId) := by
      intro other lost
      by_cases same : other = batchId
      · exact .inr ⟨same, queued⟩
      · exact .inl (List.mem_filter.mpr ⟨lost, bne_iff_ne.mpr same⟩)
    cases queued : publisher.queue.queued batchId with
    | true =>
        rw [if_pos (show (publisher.queue.persistUpdate batchId bytes persists).queued batchId =
          true from queued)]
        have listed := queued_iff.mp queued
        exact sound.hand _ _ _ (.inl rfl) (.inr listed) (remembers listed)
    | false =>
        rw [if_neg (show ¬ (publisher.queue.persistUpdate batchId bytes persists).queued batchId =
          true from Bool.eq_false_iff.mp queued)]
        have listed : ∃ push ∈ publisher.queue.pending ++
            [({ batchId, bytes, durable := persists } : PendingPush)], push.batchId = batchId :=
          ⟨_, List.mem_concat_self, rfl⟩
        exact sound.hand _ _ _ (.inr ⟨queued, rfl⟩) (.inr listed) (remembers listed)

/-! ## Restart -/

/-- What a new process finds of a batch that the last one had written. -/
theorem retained_restart (held : (publisher.queue.outbox.get batchId).isSome) :
    publisher.restart.queue.queued batchId = true ∨
      (publisher.restart.queue.outbox.Obliges batchId ∧
        .rejected batchId ∈ publisher.restart.trace) := by
  obtain ⟨row, stored, rfl⟩ := Outbox.isSome_get_iff.mp held
  by_cases oversized : maxPushBytes < row.bytes.length
  · right
    constructor
    · refine ⟨_, List.mem_map_of_mem stored, ?_, ?_⟩
      · rw [if_pos (decide_eq_true oversized)]
      · rw [if_pos (decide_eq_true oversized)]
    · apply List.mem_append_right
      exact List.mem_map.mpr ⟨row, List.mem_filter.mpr ⟨stored, decide_eq_true oversized⟩, rfl⟩
  · cases needs : row.needsCheckpoint with
    | true =>
        right
        constructor
        · refine ⟨_, List.mem_map_of_mem stored, ?_, ?_⟩
          · rw [if_neg (by simpa using oversized)]
          · rw [if_neg (by simpa using oversized)]
            exact needs
        · exact List.mem_append_left _ (sound.marked row stored needs)
    | false =>
        left
        refine queued_iff.mpr ⟨_, List.mem_map_of_mem (List.mem_filter.mpr ⟨stored, ?_⟩), rfl⟩
        rw [needs]
        simpa using oversized

theorem restart : publisher.restart.Sound := by
  constructor
  · unfold Publisher.restart ReplayQueue.reload
    rw [List.map_map]
    exact (List.filter_sublist.map _).nodup publisher.queue.outbox.distinct
  · intro push listed _
    obtain ⟨row, kept, rfl⟩ := List.mem_map.mp listed
    exact List.mem_append_left _ (sound.rows row (List.mem_of_mem_filter kept)).1
  · intro push listed
    obtain ⟨row, kept, rfl⟩ := List.mem_map.mp listed
    exact List.mem_append_left _ (sound.rows row (List.mem_of_mem_filter kept)).2
  · intro row stored
    obtain ⟨old, old_stored, rfl⟩ := List.mem_map.mp stored
    obtain ⟨written, handed⟩ := sound.rows old old_stored
    split <;> exact ⟨List.mem_append_left _ written, List.mem_append_left _ handed⟩
  · intro row stored needs
    obtain ⟨old, old_stored, rfl⟩ := List.mem_map.mp stored
    split at needs
    · rename_i oversized
      rw [if_pos oversized]
      exact List.mem_append_right _
        (List.mem_map.mpr ⟨old, List.mem_filter.mpr ⟨old_stored, oversized⟩, rfl⟩)
    · rename_i fits
      rw [if_neg fits]
      exact List.mem_append_left _ (sound.marked old old_stored needs)
  · intro batchId written
    obtain old | new := List.mem_append.mp written
    · refine (sound.stored batchId old).imp (List.mem_append_left _) fun held => ?_
      unfold Publisher.restart ReplayQueue.reload
      rw [Table.get_update, Option.isSome_map]
      exact held
    · obtain ⟨_, _, never⟩ := List.mem_map.mp new
      cases never
  · intro push listed
    cases listed
  · intro cycle batchId running
    cases running
  · apply sound.secured.append
    intro batchId bytes listed
    obtain ⟨_, _, never⟩ := List.mem_map.mp listed
    cases never
  · exact List.Sublist.refl _
  · unfold Publisher.restart ReplayQueue.reload
    rw [Outbox.ids_update, writes_append]
    exact sound.logged.trans (List.sublist_append_left _ _)
  · intro batchId bytes listed
    obtain old | new := List.mem_append.mp listed
    · obtain acked | lost | queued | ⟨obliges, _⟩ := sound.retained batchId bytes old
      · exact .inl (List.mem_append_left _ acked)
      · exact .inr (.inl (List.mem_append_left _ lost))
      · obtain ⟨push, push_listed, rfl⟩ := queued_iff.mp queued
        cases durable : push.durable with
        | true =>
            obtain acked | held := sound.stored _ (sound.durable push push_listed durable)
            · exact .inl (List.mem_append_left _ acked)
            · exact .inr (.inr (sound.retained_restart held))
        | false =>
            refine .inr (.inl (List.mem_append_right _ ?_))
            refine List.mem_map.mpr ⟨push, List.mem_filter.mpr ⟨push_listed, ?_⟩, rfl⟩
            rw [durable]
            rfl
      · obtain ⟨row, stored, same, _⟩ := obliges
        exact .inr (.inr (sound.retained_restart (Outbox.isSome_get_iff.mpr ⟨row, stored, same⟩)))
    · obtain ⟨_, _, never⟩ := List.mem_map.mp new
      cases never

/-! ## Runs -/

/-- A batch that `ensure_durable` has passed goes out. -/
theorem send {bytes : List UInt8} (written : .persisted batchId ∈ publisher.trace)
    (handed : .handed batchId bytes ∈ publisher.trace) :
    Sound { publisher with trace := publisher.trace ++ [.sent batchId bytes] } := by
  apply sound.note
  · intro _ other
    cases other
  · intro _ _ other
    cases other
  · intro _ _ same
    cases same
    exact ⟨written, handed⟩

theorem transmit (sendable : publisher.Sendable push) (persists delivered : Bool)
    {session : PushSession}
    (fewer : ∀ other ∈ copies { publisher with session := some session },
      other ∈ publisher.copies) :
    (publisher.transmit push persists delivered session).Sound := by
  obtain ⟨secured, handed, ready⟩ := sound.secure sendable persists
  unfold Publisher.transmit
  simp only
  split
  · rename_i goes
    have sent := secured.send (ready (Bool.and_eq_true_iff.mp goes).1) handed
    apply sent.carrying
    · intro other listed
      exact sent.copied other (fewer other listed)
    · exact sent.posted
  · apply secured.carrying
    · intro other listed
      exact secured.copied other (List.mem_append_right _ listed)
    · exact secured.posted

theorem step {event : PublisherEvent} {next : Publisher}
    (stepped : publisher.step event = some next) : next.Sound := by
  cases event with
  | enqueueBatch batchId bytes persists marks =>
      cases stepped
      exact sound.enqueueBatch batchId bytes persists marks
  | dial =>
      simp only [Publisher.step] at stepped
      split at stepped
      · cases stepped
        apply sound.carrying
        · intro push listed
          exact sound.copied push (List.mem_append_right _ listed)
        · exact sound.posted
      · cases stepped
  | nudge =>
      simp only [Publisher.step] at stepped
      split at stepped
      · cases stepped
        apply sound.carrying
        · intro push listed
          obtain new | old := List.mem_append.mp listed
          · apply sound.sendable_of_pending
            unfold ReplayQueue.unsent at new
            split at new
            · cases new
            · exact List.mem_of_mem_filter new
          · exact sound.copied push (List.mem_append_right _ old)
        · exact sound.posted
      · cases stepped
  | send persists delivered =>
      simp only [Publisher.step] at stepped
      split at stepped
      · rename_i inFlight push sending running
        cases stepped
        have copies_eq : publisher.copies = (push :: sending) ++
            (publisher.cycle.map PushCycle.batches).getD [] := by
          unfold copies
          rw [running]
          rfl
        apply sound.transmit
        · apply sound.copied
          rw [copies_eq]
          exact List.mem_cons_self
        · intro other listed
          rw [copies_eq]
          exact List.mem_cons_of_mem _ listed
      · cases stepped
  | retry persists delivered =>
      simp only [Publisher.step] at stepped
      split at stepped
      · rename_i inFlight running _
        have cleared : Sound { publisher with retrying := false } := { sound with }
        split at stepped
        · cases stepped
          exact cleared
        · rename_i push head
          cases stepped
          apply cleared.transmit
          · exact cleared.sendable_of_pending (List.mem_of_head? head)
          · intro other listed
            exact List.mem_append_right _ listed
      · cases stepped
  | ack batchId deletes =>
      simp only [Publisher.step] at stepped
      split at stepped
      · split at stepped
        · rename_i answerable
          cases stepped
          have noted := sound.note (.acknowledged batchId) (by simp) (by simp) (by simp)
          have acked := noted.acknowledge (List.mem_append_left _
            (sound.persisted_of_answerable answerable))
            List.mem_concat_self deletes
          exact { acked with }
        · cases stepped
      · cases stepped
  | error code batchId marks =>
      simp only [Publisher.step] at stepped
      split at stepped
      · split at stepped
        · cases stepped
        · rename_i asked
          cases stepped
          unfold Publisher.error
          split
          · rename_i verdict
            rw [verdict, Bool.true_and, Bool.not_eq_true', Bool.not_eq_false] at asked
            have written := sound.persisted_of_answerable asked
            split
            · apply sound.carrying
              · intro push listed
                exact sound.copied push (List.mem_append_right _ listed)
              · exact sound.posted
            · rename_i queue rejected
              have noted := sound.note (.rejected batchId) (by simp) (by simp) (by simp)
              exact noted.reject (List.mem_append_left _ written)
                List.mem_concat_self rejected
          · split
            · exact { sound with }
            · exact sound
      · cases stepped
  | disconnect =>
      simp only [Publisher.step] at stepped
      split at stepped
      · cases stepped
        apply sound.carrying
        · intro push listed
          exact sound.copied push (List.mem_append_right _ listed)
        · exact sound.posted
      · cases stepped
  | sync =>
      simp only [Publisher.step] at stepped
      split at stepped
      · cases stepped
        apply sound.carrying
        · intro push listed
          obtain old | new := List.mem_append.mp listed
          · exact sound.copied push (List.mem_append_left _ old)
          · exact sound.sendable_of_pending new
        · intro cycle batchId running posted
          cases running
          cases posted
      · cases stepped
  | post persists =>
      simp only [Publisher.step] at stepped
      split at stepped
      · rename_i push batches running
        have copies_eq : publisher.copies =
            (publisher.session.map PushSession.sending).getD [] ++ (push :: batches) := by
          unfold copies
          rw [running]
          rfl
        have sendable : publisher.Sendable push := by
          apply sound.copied
          rw [copies_eq]
          exact List.mem_append_right _ List.mem_cons_self
        obtain ⟨secured, handed, ready⟩ := sound.secure sendable persists
        split at stepped
        · rename_i passed
          cases stepped
          have sent := secured.send (ready passed) handed
          apply sent.carrying
          · intro other listed
            apply sent.copied
            change other ∈ publisher.copies
            rw [copies_eq]
            exact (List.mem_append.mp listed).elim (List.mem_append_left _) fun later =>
              List.mem_append_right _ (List.mem_cons_of_mem _ later)
          · intro cycle batchId running posted
            cases running
            cases posted
            exact List.mem_append_left _ (ready passed)
        · cases stepped
          apply secured.carrying
          · intro other listed
            apply secured.copied
            refine List.mem_append_left _ ?_
            simpa [copies] using listed
          · intro cycle batchId running posted
            cases running
            cases posted
      · cases stepped
  | posted deletes =>
      simp only [Publisher.step] at stepped
      split at stepped
      · rename_i batches batchId running
        cases stepped
        have noted := sound.note (.acknowledged batchId) (by simp) (by simp) (by simp)
        have acked := noted.acknowledge
          (List.mem_append_left _ (sound.posted _ batchId running rfl))
          List.mem_concat_self deletes
        apply acked.carrying
        · intro push listed
          apply acked.copied
          unfold copies
          rw [running]
          exact listed
        · intro cycle other running posted
          cases running
          cases posted
      · cases stepped
  | postFailed =>
      simp only [Publisher.step] at stepped
      split at stepped
      · cases stepped
        apply sound.carrying
        · intro push listed
          apply sound.copied
          refine List.mem_append_left _ ?_
          simpa [copies] using listed
        · intro cycle batchId running posted
          cases running
          cases posted
      · cases stepped
  | finish =>
      simp only [Publisher.step] at stepped
      split at stepped
      · cases stepped
        apply sound.carrying
        · intro push listed
          apply sound.copied
          refine List.mem_append_left _ ?_
          simpa [copies] using listed
        · intro cycle batchId running
          cases running
      · cases stepped
  | restart =>
      cases stepped
      exact sound.restart

end

end Sound

/-- Whatever the transports, the room and the disk do: a batch stays queued until its
acknowledgement, or waits in the outbox for a checkpoint after a verdict, unless a process
ended before its write, or it is over the cap and its write or mark failed; the queue keeps
the order in which the client got its batches, a new process gets them in the order of
their writes; and nothing goes out before it is written. -/
theorem batches_are_kept_until_answered (events : List PublisherEvent) :
    EveryState step (fun publisher =>
      (∀ batchId bytes, .handed batchId bytes ∈ publisher.trace →
        .acknowledged batchId ∈ publisher.trace ∨ batchId ∈ publisher.lost ∨
          (∃ push ∈ publisher.queue.pending, push.batchId = batchId ∧
            .handed batchId push.bytes ∈ publisher.trace) ∨
          (publisher.queue.outbox.Obliges batchId ∧ .rejected batchId ∈ publisher.trace)) ∧
      (publisher.queue.pending.map PendingPush.batchId).Sublist publisher.order ∧
      (publisher.queue.outbox.rows.map OutboxRow.batchId).Sublist (writes publisher.trace) ∧
      ∀ earlier batchId bytes later,
        publisher.trace = earlier ++ .sent batchId bytes :: later →
          .persisted batchId ∈ earlier ∧ .handed batchId bytes ∈ earlier) start events := by
  apply @everyState_of_invariant _ _ step Sound
  · intro publisher next event sound stepped
    exact sound.step stepped
  · intro publisher sound
    refine ⟨?_, sound.ordered, sound.logged, sound.secured⟩
    intro batchId bytes handed
    obtain acked | lost | queued | obliged := sound.retained batchId bytes handed
    · exact .inl acked
    · exact .inr (.inl lost)
    · obtain ⟨push, listed, rfl⟩ := queued_iff.mp queued
      exact .inr (.inr (.inl ⟨push, listed, rfl, sound.handed push listed⟩))
    · exact .inr (.inr (.inr obliged))
  · exact Sound.sound_start

/-- The disk refuses a batch, and the process ends before the next attempt. -/
theorem crash_loses_unwritten_batch :
    ∃ final, run step start [.enqueueBatch "batch" [1] false true, .restart] = some final ∧
      .handed "batch" [1] ∈ final.trace ∧ .acknowledged "batch" ∉ final.trace ∧
      final.queue.pending = [] ∧ final.queue.outbox.rows = [] := by
  refine ⟨_, rfl, ?_, ?_, rfl, rfl⟩
  · decide
  · decide

end Publisher

end Zeron.Chat
