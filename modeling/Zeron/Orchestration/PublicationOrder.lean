import Zeron.Orchestration.PublicationWorker

/-!
# The order of publications

A batch is taken when all earlier ones are published, and a published batch is
acknowledged document by document, so nothing goes out before what is due
earlier.
-/

namespace Zeron.Orchestration

open Zeron.Data

variable {content rows other operation : Type}

namespace Publications

/-- The batch is stored, and all batches before it are published. -/
def Clear (publications : Publications content) (batch : PublicationBatch content) : Prop :=
  ∃ row ∈ publications.batches.rows, row.batch = batch ∧
    ∀ earlier ∈ publications.batches.before row.batchId, earlier.status = .published

/-- The batches before a batch. -/
def earlier (publications : Publications content) (batch : PublicationBatch content) :
    List (PublicationBatch content) :=
  (publications.batches.before batch.batchId).map PublicationRow.batch

/-- Nothing that was stored has moved, and nothing published is pending again. -/
structure Grows (before after : Publications content) : Prop where
  clear : ∀ batch, before.Clear batch → after.Clear batch
  earlier : ∀ row ∈ before.batches.rows, after.earlier row.batch = before.earlier row.batch

variable {batch : PublicationBatch content} {publications : Publications content}

theorem enqueue_batches {next : Publications content}
    (enqueued : publications.enqueue batch = some next) :
    publications.batches.insert { batch, status := .pending } = some next.batches ∧
      next.acks = publications.acks := by
  obtain ⟨batches, inserted, rfl⟩ := Option.map_eq_some_iff.mp enqueued
  exact ⟨inserted, rfl⟩

/-- The first pending batch has only published ones before it. -/
theorem clear_of_firstPending (first : publications.firstPending = some batch) :
    publications.Clear batch := by
  obtain ⟨row, found, rfl⟩ := Option.map_eq_some_iff.mp first
  refine ⟨row, List.mem_of_find?_eq_some found, rfl, ?_⟩
  intro earlier listed
  have not_pending := Table.not_of_mem_before_find found listed
  cases status : earlier.status with
  | published => rfl
  | pending =>
      rw [status] at not_pending
      cases not_pending

theorem grows_enqueue {next : Publications content}
    (enqueued : publications.enqueue batch = some next) :
    Grows publications next := by
  obtain ⟨inserted, _⟩ := enqueue_batches enqueued
  constructor
  · rintro _ ⟨row, stored, rfl, published⟩
    refine ⟨row, ?_, rfl, ?_⟩
    · rw [Table.rows_insert inserted]
      exact List.mem_append_left _ stored
    · rw [Table.before_insert inserted stored]
      exact published
  · intro row stored
    unfold earlier
    rw [Table.before_insert inserted stored]

theorem grows_ack (publications : Publications content) (batchId docId : String)
    (version : Nat) : Grows publications (publications.ack batchId docId version) where
  clear _ clear := clear
  earlier _ _ := rfl

theorem grows_markPublished (publications : Publications content) (batchId : String) :
    Grows publications (publications.markPublished batchId) := by
  constructor
  · rintro _ ⟨row, stored, rfl, published⟩
    refine ⟨_, List.mem_map_of_mem stored, ?_, ?_⟩
    · split <;> rfl
    · intro earlier listed
      have id_same : (if row.batchId == batchId then { row with status := .published }
          else row : PublicationRow content).batchId = row.batchId := by
        split <;> rfl
      rw [id_same] at listed
      unfold markPublished at listed
      rw [Table.before_update] at listed
      obtain ⟨old, old_listed, rfl⟩ := List.mem_map.mp listed
      split
      · rfl
      · exact published old old_listed
  · intro row stored
    unfold earlier markPublished
    rw [Table.before_update, List.map_map]
    apply List.map_congr_left
    intro other _
    rw [Function.comp_apply]
    split <;> rfl

end Publications

/-- What a run keeps of batches, acknowledgements, the worker and what went out. -/
structure Sound (publications : Publications content) (latest : Nat) (worker : Worker content)
    (published : List (Delivery content)) : Prop where
  below : ∀ row ∈ publications.batches.rows, ∀ document ∈ row.batch.documents,
    document.version ≤ latest
  ordered : publications.batches.rows.Pairwise fun first second =>
    ∀ old ∈ first.batch.documents, ∀ new ∈ second.batch.documents, old.version < new.version
  distinct : ∀ row ∈ publications.batches.rows,
    (row.batch.documents.map PublicationDocument.docId).Nodup
  acked : ∀ ack ∈ publications.acks.rows, ∃ row ∈ publications.batches.rows,
    ∃ document ∈ row.batch.documents, row.batchId = ack.batchId ∧ document.docId = ack.docId ∧
      (row.batch, document) ∈ published
  complete : ∀ row ∈ publications.batches.rows, row.status = .published →
    ∀ document ∈ row.batch.documents, publications.acked row.batchId document.docId = true
  logged : ∀ delivery ∈ published, publications.Clear delivery.1 ∧
    delivery.2 ∈ delivery.1.documents
  holding : ∀ batch rest, worker = .holding batch rest →
    publications.Clear batch ∧ ∀ document ∈ rest, document ∈ batch.documents
  sent : ∀ batch document rest, worker = .sent batch document rest →
    publications.Clear batch ∧ (batch, document) ∈ published ∧
      ∀ document ∈ rest, document ∈ batch.documents
  versions : published.Pairwise fun first second =>
    first.2.docId = second.2.docId → first.2.version ≤ second.2.version
  whole : ∀ sent delivery later, published = sent ++ delivery :: later →
    ∀ batch ∈ publications.earlier delivery.1, ∀ document ∈ batch.documents,
      (batch, document) ∈ sent

/-- The invariant of a publisher. -/
def Publisher.Sound (publisher : Publisher content rows other) : Prop :=
  Orchestration.Sound publisher.tables.publications publisher.tables.latestSequence
    publisher.worker publisher.published

theorem sound_start (tables : Tables content rows other) : (Publisher.start tables).Sound where
  below _ stored := by cases stored
  ordered := .nil
  distinct _ stored := by cases stored
  acked _ stored := by cases stored
  complete _ stored := by cases stored
  logged _ listed := by cases listed
  holding _ _ held := by cases held
  sent _ _ _ held := by cases held
  versions := .nil
  whole _ _ _ split := by
    have := congrArg List.length split
    simp [Publisher.start] at this

namespace Sound

variable {publications next : Publications content} {latest : Nat} {worker : Worker content}
  {published : List (Delivery content)}

variable {document : PublicationDocument content} {batch : PublicationBatch content} {raised : Nat}

section

variable (sound : Sound publications latest worker published)
include sound

/-- An acknowledged document went out. -/
theorem published_of_acked {row : PublicationRow content}
    (stored : row ∈ publications.batches.rows) (listed : document ∈ row.batch.documents)
    (acked : publications.acked row.batchId document.docId = true) :
    (row.batch, document) ∈ published := by
  obtain ⟨ack, found⟩ := Option.isSome_iff_exists.mp acked
  have key := Table.key_of_get found
  obtain ⟨batch_eq, doc_eq⟩ := Prod.mk.inj key
  obtain ⟨other_row, other_stored, other, other_listed, other_batch, other_doc, sent⟩ :=
    sound.acked ack (Table.mem_of_get found)
  obtain rfl : other_row = row :=
    Table.eq_of_mem other_stored stored (other_batch.trans batch_eq)
  obtain rfl : other = document :=
    List.inj_on_of_nodup_map (sound.distinct _ stored) other_listed listed
      (other_doc.trans doc_eq)
  exact sent

/-- The worker may be anywhere that its batch and the log allow. -/
theorem withWorker {moved : Worker content}
    (holding : ∀ batch rest, moved = .holding batch rest →
      publications.Clear batch ∧ ∀ document ∈ rest, document ∈ batch.documents)
    (sent : ∀ batch document rest, moved = .sent batch document rest →
      publications.Clear batch ∧ (batch, document) ∈ published ∧
        ∀ document ∈ rest, document ∈ batch.documents) :
    Sound publications latest moved published :=
  { sound with holding, sent }

theorem idle : Sound publications latest .idle published := by
  apply sound.withWorker
  · intro _ _ held
    cases held
  · intro _ _ _ held
    cases held

/-! ## Transactions of the host -/

theorem raise (below : latest ≤ raised) : Sound publications raised worker published :=
  { sound with
    below := fun row stored document listed =>
      Nat.le_trans (sound.below row stored document listed) below }

/-- What batches say of the worker and the log stays when they grow. -/
theorem ofGrows (grows : Publications.Grows publications next)
    (below : ∀ row ∈ next.batches.rows, ∀ document ∈ row.batch.documents,
      document.version ≤ raised)
    (ordered : next.batches.rows.Pairwise fun first second =>
      ∀ old ∈ first.batch.documents, ∀ new ∈ second.batch.documents, old.version < new.version)
    (distinct : ∀ row ∈ next.batches.rows,
      (row.batch.documents.map PublicationDocument.docId).Nodup)
    (acked : ∀ ack ∈ next.acks.rows, ∃ row ∈ next.batches.rows,
      ∃ document ∈ row.batch.documents, row.batchId = ack.batchId ∧
        document.docId = ack.docId ∧ (row.batch, document) ∈ published)
    (complete : ∀ row ∈ next.batches.rows, row.status = .published →
      ∀ document ∈ row.batch.documents, next.acked row.batchId document.docId = true) :
    Sound next raised worker published where
  below := below
  ordered := ordered
  distinct := distinct
  acked := acked
  complete := complete
  logged delivery listed :=
    ⟨grows.clear _ (sound.logged delivery listed).1, (sound.logged delivery listed).2⟩
  holding batch rest held :=
    ⟨grows.clear _ (sound.holding batch rest held).1, (sound.holding batch rest held).2⟩
  sent batch document rest held :=
    ⟨grows.clear _ (sound.sent batch document rest held).1,
      (sound.sent batch document rest held).2⟩
  versions := sound.versions
  whole sent delivery later split batch comes := by
    have listed : delivery ∈ published := by
      rw [split]
      exact List.mem_append_right _ List.mem_cons_self
    obtain ⟨row, stored, same, _⟩ := (sound.logged delivery listed).1
    rw [← same, grows.earlier row stored, same] at comes
    exact sound.whole sent delivery later split batch comes

/-- A new batch goes behind the others, with documents above all of theirs. -/
theorem enqueue (below : latest ≤ raised) (enqueued : publications.enqueue batch = some next)
    (distinct : (batch.documents.map PublicationDocument.docId).Nodup)
    (above : ∀ document ∈ batch.documents, latest < document.version ∧ document.version ≤ raised) :
    Sound next raised worker published := by
  obtain ⟨inserted, same_acks⟩ := Publications.enqueue_batches enqueued
  have rows_eq := Table.rows_insert inserted
  have old_stored : ∀ row ∈ publications.batches.rows, row ∈ next.batches.rows := by
    intro row stored
    rw [rows_eq]
    exact List.mem_append_left _ stored
  have stored_cases : ∀ row ∈ next.batches.rows, row ∈ publications.batches.rows ∨
      row = { batch, status := .pending } := by
    intro row stored
    rw [rows_eq] at stored
    exact (List.mem_append.mp stored).imp_right List.mem_singleton.mp
  apply sound.ofGrows (Publications.grows_enqueue enqueued)
  · intro row stored document listed
    obtain old | rfl := stored_cases row stored
    · exact Nat.le_trans (sound.below row old document listed) below
    · exact (above document listed).2
  · rw [rows_eq]
    apply List.pairwise_append.mpr
    refine ⟨sound.ordered, List.pairwise_singleton _ _, ?_⟩
    intro row old last last_eq first first_listed second second_listed
    cases List.mem_singleton.mp last_eq
    exact Nat.lt_of_le_of_lt (sound.below row old first first_listed)
      (above second second_listed).1
  · intro row stored
    obtain old | rfl := stored_cases row stored
    · exact sound.distinct row old
    · exact distinct
  · intro ack listed
    rw [same_acks] at listed
    obtain ⟨row, stored, rest⟩ := sound.acked ack listed
    exact ⟨row, old_stored row stored, rest⟩
  · intro row stored status document listed
    obtain old | rfl := stored_cases row stored
    · unfold Publications.acked
      rw [same_acks]
      exact sound.complete row old status document listed
    · cases status

end

/-- A transaction of the host. -/
theorem publishes {before after : Tables content rows other}
    (sound : Sound before.publications before.latestSequence worker published)
    (publishes : Publishes before after) :
    Sound after.publications after.latestSequence worker published := by
  obtain same | ⟨batch, enqueued, distinct, above⟩ := publishes.publications
  · rw [same]
    exact sound.raise publishes.latest
  · exact sound.enqueue publishes.latest enqueued distinct above

/-! ## Acknowledgements -/

theorem acked_ack_iff (publications : Publications content) (batchId docId : String)
    (version : Nat) (otherBatch otherDoc : String) :
    (publications.ack batchId docId version).acked otherBatch otherDoc = true ↔
      publications.acked otherBatch otherDoc = true ∨
        (batchId, docId) = (otherBatch, otherDoc) :=
  Table.isSome_get_insertOrIgnore _ _ _

section

variable (sound : Sound publications latest worker published)
include sound

theorem ack {rest : List (PublicationDocument content)}
    (sent : worker = .sent batch document rest) :
    Sound (publications.ack batch.batchId document.docId document.version) latest worker
      published := by
  obtain ⟨⟨row, stored, rfl, _⟩, delivered, _⟩ := sound.sent batch document rest sent
  apply sound.ofGrows (Publications.grows_ack _ _ _ _) sound.below sound.ordered sound.distinct
  · intro ack listed
    obtain old | rfl := Table.mem_of_mem_insertOrIgnore listed
    · exact sound.acked ack old
    · exact ⟨row, stored, document, (sound.logged _ delivered).2, rfl, rfl, delivered⟩
  · intro row stored status other listed
    exact (acked_ack_iff _ _ _ _ _ _).mpr (.inl (sound.complete row stored status other listed))

/-- As many acknowledgements as documents are one for each. -/
theorem acked_of_ackCount {row : PublicationRow content}
    (stored : row ∈ publications.batches.rows)
    (all : publications.ackCount row.batchId = row.batch.documents.length)
    (listed : document ∈ row.batch.documents) :
    publications.acked row.batchId document.docId = true := by
  let acks := publications.acks.rows.filter fun ack => ack.batchId == row.batchId
  have acks_of_row : ∀ ack ∈ acks, ack ∈ publications.acks.rows ∧ ack.batchId = row.batchId := by
    intro ack ack_listed
    obtain ⟨ack_stored, same⟩ := List.mem_filter.mp ack_listed
    exact ⟨ack_stored, beq_iff_eq.mp same⟩
  have distinct : (acks.map PublicationAck.docId).Nodup := by
    apply List.Nodup.map_on
    · intro first first_listed second second_listed same
      obtain ⟨first_stored, first_row⟩ := acks_of_row first first_listed
      obtain ⟨second_stored, second_row⟩ := acks_of_row second second_listed
      apply Table.eq_of_mem first_stored second_stored
      exact Prod.ext (first_row.trans second_row.symm) same
    · exact (List.Nodup.of_map _ publications.acks.distinct).filter _
  have within : acks.map PublicationAck.docId ⊆ row.batch.documents.map
      PublicationDocument.docId := by
    intro docId docId_listed
    obtain ⟨ack, ack_listed, rfl⟩ := List.mem_map.mp docId_listed
    obtain ⟨ack_stored, same⟩ := acks_of_row ack ack_listed
    obtain ⟨other, other_stored, found, found_listed, batch_same, doc_same, _⟩ :=
      sound.acked ack ack_stored
    obtain rfl : other = row := Table.eq_of_mem other_stored stored (batch_same.trans same)
    rw [← doc_same]
    exact List.mem_map_of_mem found_listed
  have perm : (acks.map PublicationAck.docId).Perm (row.batch.documents.map
      PublicationDocument.docId) := by
    apply (List.subperm_of_subset distinct within).perm_of_length_le
    rw [List.length_map, List.length_map, ← all]
    unfold Publications.ackCount Table.count
    rw [List.countP_eq_length_filter]
  obtain ⟨ack, ack_listed, same⟩ :=
    List.mem_map.mp (perm.mem_iff.mpr (List.mem_map_of_mem listed))
  obtain ⟨ack_stored, batch_same⟩ := acks_of_row ack ack_listed
  have found : publications.acks.get (ack.batchId, ack.docId) = some ack :=
    Table.get_of_mem ack_stored
  unfold Publications.acked
  rw [← batch_same, ← same, found]
  rfl

theorem markPublished {batchId : String}
    (all : ∀ row ∈ publications.batches.rows, row.batchId = batchId →
      ∀ document ∈ row.batch.documents, publications.acked batchId document.docId = true) :
    Sound (publications.markPublished batchId) latest worker published := by
  have stored_of : ∀ row ∈ (publications.markPublished batchId).batches.rows,
      ∃ old ∈ publications.batches.rows, row.batch = old.batch ∧
        (row.status = old.status ∨ old.batchId = batchId) := by
    intro row stored
    obtain ⟨old, old_stored, rfl⟩ := List.mem_map.mp stored
    refine ⟨old, old_stored, ?_⟩
    split
    · rename_i same
      exact ⟨rfl, .inr (beq_iff_eq.mp same)⟩
    · exact ⟨rfl, .inl rfl⟩
  apply sound.ofGrows (Publications.grows_markPublished _ _)
  · intro row stored document listed
    obtain ⟨old, old_stored, same, _⟩ := stored_of row stored
    rw [same] at listed
    exact sound.below old old_stored document listed
  · apply List.pairwise_map.mpr
    apply sound.ordered.imp
    intro first second related old old_listed new new_listed
    apply related old _ new _
    · split at old_listed <;> exact old_listed
    · split at new_listed <;> exact new_listed
  · intro row stored
    obtain ⟨old, old_stored, same, _⟩ := stored_of row stored
    rw [same]
    exact sound.distinct old old_stored
  · intro ack listed
    obtain ⟨row, stored, document, document_listed, batch_same, doc_same, sent⟩ :=
      sound.acked ack listed
    refine ⟨_, List.mem_map_of_mem stored, document, ?_, ?_, doc_same, ?_⟩
    · split <;> exact document_listed
    · split <;> exact batch_same
    · split <;> exact sent
  · intro row stored status document listed
    obtain ⟨old, old_stored, same, kept | marked⟩ := stored_of row stored
    · rw [same] at listed
      have := sound.complete old old_stored (kept ▸ status) document listed
      change publications.acked row.batch.batchId document.docId = true
      rw [same]
      exact this
    · rw [same] at listed
      change publications.acked row.batch.batchId document.docId = true
      rw [same]
      have := all old old_stored marked document listed
      rw [← marked] at this
      exact this

/-! ## Publications -/

/-- An unacknowledged document is no older than what went out under its id. -/
theorem version_le_of_fresh (clear : publications.Clear batch)
    (listed : document ∈ batch.documents)
    (fresh : publications.acked batch.batchId document.docId = false)
    {delivery : Delivery content} (delivered : delivery ∈ published)
    (same : delivery.2.docId = document.docId) : delivery.2.version ≤ document.version := by
  obtain ⟨⟨old_row, old_stored, old_eq, old_clear⟩, old_listed⟩ := sound.logged delivery delivered
  obtain ⟨row, stored, rfl, _⟩ := clear
  rw [← old_eq] at old_listed
  obtain rfl | earlier | later := Table.before_total old_stored stored
  · have equal := List.inj_on_of_nodup_map (sound.distinct _ stored) old_listed listed same
    rw [equal]
  · have related := Table.rel_of_mem_before sound.ordered stored earlier
    exact Nat.le_of_lt (related _ old_listed _ listed)
  · have acked := sound.complete row stored (old_clear row later) document listed
    rw [fresh] at acked
    cases acked

/-- All documents of the batches before a clear one went out. -/
theorem delivered_of_earlier {batch earlier : PublicationBatch content}
    (clear : publications.Clear batch) (comes : earlier ∈ publications.earlier batch)
    (listed : document ∈ earlier.documents) :
    (earlier, document) ∈ published := by
  obtain ⟨row, stored, rfl, all_published⟩ := clear
  obtain ⟨earlier_row, earlier_listed, rfl⟩ := List.mem_map.mp comes
  have earlier_stored := Table.mem_of_mem_before earlier_listed
  exact sound.published_of_acked earlier_stored listed
    (sound.complete earlier_row earlier_stored (all_published earlier_row earlier_listed) document
      listed)

theorem publish (clear : publications.Clear batch) (listed : document ∈ batch.documents)
    (fresh : publications.acked batch.batchId document.docId = false) :
    Sound publications latest .idle (published ++ [(batch, document)]) := by
  have idle := sound.idle
  refine { idle with acked := ?_, logged := ?_, sent := ?_, versions := ?_, whole := ?_ }
  · intro ack ack_listed
    obtain ⟨row, stored, found, found_listed, batch_same, doc_same, sent⟩ :=
      sound.acked ack ack_listed
    exact ⟨row, stored, found, found_listed, batch_same, doc_same, List.mem_append_left _ sent⟩
  · intro delivery delivered
    obtain old | new := List.mem_append.mp delivered
    · exact sound.logged delivery old
    · cases List.mem_singleton.mp new
      exact ⟨clear, listed⟩
  · intro _ _ _ held
    cases held
  · apply List.pairwise_append.mpr
    refine ⟨sound.versions, List.pairwise_singleton _ _, ?_⟩
    intro delivery delivered last last_eq same
    cases List.mem_singleton.mp last_eq
    exact sound.version_le_of_fresh clear listed fresh delivered same
  · intro sent delivery later split earlier comes other other_listed
    obtain rfl | ⟨front, last, rfl⟩ := List.eq_nil_or_concat later
    · obtain ⟨rfl, same⟩ := List.append_inj' split rfl
      cases same
      exact sound.delivered_of_earlier clear comes other_listed
    · rw [List.concat_eq_append, ← List.cons_append, ← List.append_assoc] at split
      obtain ⟨old, _⟩ := List.append_inj' split rfl
      exact sound.whole sent delivery front old earlier comes other other_listed

end

end Sound

variable {kernel : Kernel content rows other operation}

/-- What an acknowledgement leaves. -/
theorem acknowledgePublication_spec (batchId docId : String) (version : Nat) :
    (acknowledgePublication kernel batchId docId version).Ensures fun before _ final =>
      final.events = before.events ∧
        (final.publications = before.publications.ack batchId docId version ∨
          ∃ row, before.publications.batches.get batchId = some row ∧
            (before.publications.ack batchId docId version).ackCount batchId =
              row.batch.documents.length ∧
            final.publications =
              (before.publications.ack batchId docId version).markPublished batchId) := by
  apply Tx.Ensures.write
  intro before final fault left _ ran
  obtain ⟨_, _, _, looked, reading⟩ := Tx.of_bind ran
  obtain ⟨row, _, _, read, requiring⟩ := Tx.of_bind reading
  obtain ⟨_, _, _, required, writing⟩ := Tx.of_bind requiring
  obtain ⟨_, _, _, written, passing⟩ := Tx.of_bind writing
  obtain ⟨_, _, _, passed, looking⟩ := Tx.of_bind passing
  obtain ⟨_, _, _, looked_again, deciding⟩ := Tx.of_bind looking
  obtain ⟨rfl, rfl⟩ := Tx.ensures_look.of_run looked
  obtain ⟨found, rfl⟩ := (Tx.ensures_orRaise _ _).of_run read
  obtain ⟨_, rfl⟩ := (Tx.ensures_require _ _).of_run required
  obtain rfl := (Tx.ensures_change _).of_run written
  obtain rfl := (Tx.ensures_boundary _).of_run passed
  obtain ⟨rfl, rfl⟩ := Tx.ensures_look.of_run looked_again
  split at deciding
  · rename_i all
    obtain ⟨_, _, _, marked, ending⟩ := Tx.of_bind deciding
    obtain rfl := (Tx.ensures_change _).of_run marked
    obtain rfl := (Tx.ensures_boundary _).of_run ending
    exact ⟨rfl, .inr ⟨row, found, all, rfl⟩⟩
  · obtain ⟨_, rfl⟩ := (Tx.ensures_give _).of_run deciding
    exact ⟨rfl, .inl rfl⟩

/-- What a program ensures of all it leaves, its transaction ensures too. -/
theorem after_of_ensures {α : Type} {program : Program content rows other α}
    {relation : Tables content rows other → Tables content rows other → Prop}
    (refl : ∀ tables, relation tables tables)
    (ensures : program.Ensures fun before _ final => relation before final)
    (tables : Tables content rows other) (fault : Fault WriteBoundary) :
    relation tables (tables.after program fault) := by
  obtain same | ⟨value, left, ran⟩ :=
    Tx.commit_state .beforeCommit .afterCommit program tables fault
  · unfold Tables.after
    rw [same]
    exact refl tables
  · exact ensures.sealed.of_run ran

theorem publishes_rebuild :
    (rebuildProjections kernel).Ensures fun before _ final => Publishes before final := by
  apply Tx.Ensures.write
  refine (Tx.ensures_look.bind fun _ => (Tx.ensures_within _ _ _).bind fun _ =>
    Tx.ensures_boundary _).imp ?_
  rintro before _ _ ⟨_, _, ⟨_, rfl⟩, _, _, ⟨_, rfl⟩, rfl⟩
  exact .of_same rfl rfl

theorem publishes_recover (now : Int) :
    (recoverHost kernel now).Ensures fun before _ final => Publishes before final := by
  apply Tx.Ensures.write
  refine ((Tx.ensures_change _).bind fun _ => (Tx.ensures_boundary _).bind fun _ =>
    (Tx.ensures_change _).bind fun _ => Tx.ensures_boundary _).imp ?_
  rintro before _ _ ⟨_, _, rfl, _, _, rfl, _, _, rfl, rfl⟩
  exact .of_same rfl rfl

variable {publisher : Publisher content rows other}

/-- The acknowledgement of what was sent. -/
theorem Publisher.Sound.acknowledge (kernel : Kernel content rows other operation)
    (sound : publisher.Sound) {batch : PublicationBatch content}
    {document : PublicationDocument content} {rest : List (PublicationDocument content)}
    (sent : publisher.worker = .sent batch document rest) (fault : Fault WriteBoundary) :
    let next := publisher.tables.after
      (acknowledgePublication kernel batch.batchId document.docId document.version) fault
    Orchestration.Sound next.publications next.latestSequence publisher.worker
      publisher.published := by
  obtain same | ⟨value, left, ran⟩ := Tx.commit_state .beforeCommit .afterCommit
    (acknowledgePublication kernel batch.batchId document.docId document.version)
    publisher.tables fault
  · unfold Tables.after
    rw [same]
    exact sound
  · obtain ⟨events_same, changed⟩ := (acknowledgePublication_spec _ _ _).sealed.of_run ran
    have latest_same : (publisher.tables.after (acknowledgePublication kernel batch.batchId
        document.docId document.version) fault).latestSequence =
          publisher.tables.latestSequence := by
      unfold Tables.latestSequence Tables.after
      rw [events_same]
    intro next
    rw [latest_same]
    have acked := Orchestration.Sound.ack sound sent
    obtain only_ack | ⟨row, found, all, marked⟩ := changed
    · rw [show next.publications = _ from only_ack]
      exact acked
    · rw [show next.publications = _ from marked]
      apply acked.markPublished
      intro stored_row stored same other listed
      have row_eq : stored_row = row := by
        have found_again := Table.get_of_mem stored
        rw [same] at found_again
        exact Option.some.inj (found_again.symm.trans found)
      have count_eq : (publisher.tables.publications.ack batch.batchId document.docId
          document.version).ackCount stored_row.batchId = stored_row.batch.documents.length := by
        rw [same, all, row_eq]
      have acked_row := acked.acked_of_ackCount stored count_eq listed
      rw [same] at acked_row
      exact acked_row

theorem Publisher.Sound.step [DecidableEq content] (sound : publisher.Sound)
    (event : PublisherStep content operation) :
    (publisher.step kernel event).Sound := by
  cases event with
  | dispatch call =>
      exact Orchestration.Sound.publishes sound (after_of_ensures Publishes.refl
        (dispatch_publishes call.command call.now) publisher.tables call.fault)
  | providerEvents threadId guard events fault =>
      exact Orchestration.Sound.publishes sound (after_of_ensures Publishes.refl
        (appendProviderEvents_publishes threadId guard events) publisher.tables fault)
  | rebuild fault =>
      exact Orchestration.Sound.publishes sound (after_of_ensures Publishes.refl
        publishes_rebuild publisher.tables fault)
  | restart now fault =>
      exact (Orchestration.Sound.publishes sound (after_of_ensures Publishes.refl
        (publishes_recover now) publisher.tables fault)).idle
  | take =>
      unfold Publisher.step
      simp only
      split
      · rename_i batch _ first
        apply Orchestration.Sound.withWorker sound
        · intro held rest held_eq
          cases held_eq
          exact ⟨Publications.clear_of_firstPending first, fun _ listed => listed⟩
        · intro _ _ _ held_eq
          cases held_eq
      · exact sound
  | publish outcome =>
      unfold Publisher.step
      simp only
      split
      · rename_i batch document rest held
        obtain ⟨clear, within⟩ := Orchestration.Sound.holding sound _ _ held
        have document_listed := within document List.mem_cons_self
        have rest_within : ∀ other ∈ rest, other ∈ batch.documents :=
          fun other listed => within other (List.mem_cons_of_mem _ listed)
        split
        · apply Orchestration.Sound.withWorker sound
          · intro _ _ held_eq
            cases held_eq
            exact ⟨clear, rest_within⟩
          · intro _ _ _ held_eq
            cases held_eq
        · rename_i unacked
          have fresh : publisher.tables.publications.acked batch.batchId document.docId = false :=
            Bool.eq_false_iff.mpr unacked
          have published := Orchestration.Sound.publish sound clear document_listed fresh
          split
          · apply published.withWorker
            · intro _ _ held_eq
              cases held_eq
            · intro _ _ _ held_eq
              cases held_eq
              exact ⟨clear, List.mem_concat_self, rest_within⟩
          · exact Orchestration.Sound.idle sound
          · exact published
      · exact Orchestration.Sound.idle sound
      · exact sound
  | acknowledge fault =>
      unfold Publisher.step
      simp only
      split
      · rename_i batch document rest sent
        have acknowledged := Publisher.Sound.acknowledge kernel sound sent fault
        obtain ⟨clear, _, within⟩ := acknowledged.sent _ _ _ sent
        apply acknowledged.withWorker
        · intro held held_rest held_eq
          split at held_eq
          · cases held_eq
            exact ⟨clear, within⟩
          · cases held_eq
        · intro _ _ _ held_eq
          split at held_eq <;> cases held_eq
      · exact sound
  | die => exact Orchestration.Sound.idle sound

theorem Publisher.Sound.run [DecidableEq content] (sound : publisher.Sound)
    (steps : List (PublisherStep content operation)) :
    (publisher.run kernel steps).Sound := by
  induction steps generalizing publisher with
  | nil => exact sound
  | cons event steps ih => exact ih (sound.step event)

/-- Whatever the host and its worker go through, versions of a document never go
back, a document goes out after all documents of all batches before its own, and a
replica's barrier, whatever part of this it is fed and how often, accepts no version
twice in an epoch and is ready only for a batch that it has accepted whole. -/
theorem publications_are_ordered [DecidableEq content]
    (kernel : Kernel content rows other operation) (tables : Tables content rows other)
    (steps : List (PublisherStep content operation)) :
    let final := (Publisher.start tables).run kernel steps
    (final.published.Pairwise fun first second =>
        first.2.docId = second.2.docId → first.2.version ≤ second.2.version) ∧
      (∀ sent delivery later, final.published = sent ++ delivery :: later →
        final.tables.publications.Clear delivery.1 ∧ delivery.2 ∈ delivery.1.documents ∧
          ∀ batch ∈ final.tables.publications.earlier delivery.1,
            ∀ document ∈ batch.documents, (batch, document) ∈ sent) ∧
      ∀ (owner : String) (epoch : Int) (fed : List (Delivery content)),
        let replica : Replica content := (Replica.new owner epoch).feed fed
        (replica.accepted.map Delivery.stamp).Nodup ∧
          ∀ batch : PublicationBatch content, replica.barrier.ready batch = true →
            batch.hostEpoch = replica.barrier.epoch ∧ ∀ document ∈ batch.documents,
              ∃ delivery ∈ replica.accepted, delivery.1.hostEpoch = replica.barrier.epoch ∧
                delivery.2.docId = document.docId ∧ document.version ≤ delivery.2.version := by
  intro final
  have sound : final.Sound := (sound_start tables).run steps
  refine ⟨sound.versions, ?_, ?_⟩
  · intro sent delivery later split
    have listed : delivery ∈ final.published := by
      rw [split]
      exact List.mem_append_right _ List.mem_cons_self
    obtain ⟨clear, within⟩ := Orchestration.Sound.logged sound delivery listed
    exact ⟨clear, within, Orchestration.Sound.whole sound sent delivery later split⟩
  · intro owner epoch fed replica
    have honest : replica.Honest := (Replica.honest_new owner epoch).feed fed
    exact ⟨honest.once, fun batch ready => honest.ready ready⟩

end Zeron.Orchestration
