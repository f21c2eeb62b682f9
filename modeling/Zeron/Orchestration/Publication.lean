import Zeron.Data.Table
import Mathlib.Data.List.Sort

/-!
# Publications

A committed change is published as a batch: one document for each thread that it
changed and one for the registry.  The worker publishes the documents of the
first pending batch and acknowledges each; a replica believes a batch when it
has seen all documents of it.
-/

namespace Zeron.Orchestration

open Zeron.Data (Table)

/-- `projection::SCHEMA_VERSION`. -/
def schemaVersion : Nat := 1

structure PublicationDocument (content : Type) where
  docId : String
  version : Nat
  payload : content
  deriving DecidableEq

structure PublicationBatch (content : Type) where
  schemaVersion : Nat
  batchId : String
  hostId : String
  hostEpoch : Int
  throughSequence : Nat
  documents : List (PublicationDocument content)

/-- A document as it goes out, and the batch it goes out with. -/
abbrev Delivery (content : Type) :=
  PublicationBatch content × PublicationDocument content

inductive PublicationStatus where
  | pending
  | published
  deriving DecidableEq

structure PublicationRow (content : Type) where
  batch : PublicationBatch content
  status : PublicationStatus

structure PublicationAck where
  batchId : String
  docId : String
  version : Nat

/-- The column `batch_id`. -/
abbrev PublicationRow.batchId {content : Type} (row : PublicationRow content) : String :=
  row.batch.batchId

/-- The primary key. -/
def PublicationAck.key (ack : PublicationAck) : String × String :=
  (ack.batchId, ack.docId)

/-- `orchestration_publication_batches`, by ordinal, and
`orchestration_publication_acks`. -/
structure Publications (content : Type) where
  batches : Table (@PublicationRow.batchId content)
  acks : Table PublicationAck.key

namespace Publications

variable {content : Type}

def empty : Publications content :=
  { batches := Table.empty, acks := Table.empty }

/-- The insertion at the end of `sync_publish::enqueue`. -/
def enqueue (publications : Publications content) (batch : PublicationBatch content) :
    Option (Publications content) :=
  (publications.batches.insert { batch, status := .pending }).map fun batches =>
    { publications with batches }

def firstPending (publications : Publications content) : Option (PublicationBatch content) :=
  (publications.batches.rows.find? fun row => row.status == .pending).map PublicationRow.batch

/-- `publication_acked`. -/
def acked (publications : Publications content) (batchId docId : String) : Bool :=
  (publications.acks.get (batchId, docId)).isSome

/-- The first statement of `acknowledge_publication`. -/
def ack (publications : Publications content) (batchId docId : String) (version : Nat) :
    Publications content :=
  { publications with acks := publications.acks.insertOrIgnore { batchId, docId, version } }

/-- The number of documents of a batch that are acknowledged. -/
def ackCount (publications : Publications content) (batchId : String) : Nat :=
  publications.acks.count fun ack => ack.batchId == batchId

/-- The second statement. -/
def markPublished (publications : Publications content) (batchId : String) :
    Publications content :=
  { publications with
    batches := publications.batches.update (fun row => row.batchId == batchId)
      (fun row => { row with status := .published }) fun _ => rfl }

end Publications

/-- The order of a `BTreeSet`. -/
def threadOrder (threads : List String) : List String :=
  threads.dedup.insertionSort (· ≤ ·)

/-- Read barrier of a replica. -/
structure ReplicaBarrier where
  owner : String
  epoch : Int
  versions : List (String × Int)

namespace ReplicaBarrier

variable {content : Type}

def new (owner : String) (epoch : Int) : ReplicaBarrier :=
  { owner, epoch, versions := [] }

def version (barrier : ReplicaBarrier) (docId : String) : Option Int :=
  barrier.versions.lookup docId

def setVersion (barrier : ReplicaBarrier) (docId : String) (version : Int) : ReplicaBarrier :=
  { barrier with versions := (docId, version) :: barrier.versions }

/-- A newer epoch of the host forgets what was seen in the last one. -/
def enter (barrier : ReplicaBarrier) (epoch : Int) : ReplicaBarrier :=
  if barrier.epoch < epoch then { barrier with versions := [], epoch } else barrier

variable [DecidableEq content]

def observe (barrier : ReplicaBarrier) (batch : PublicationBatch content)
    (document : PublicationDocument content) : ReplicaBarrier × Bool :=
  if batch.hostId != barrier.owner || batch.schemaVersion != schemaVersion ||
      decide (batch.hostEpoch < barrier.epoch) || !decide (document ∈ batch.documents) then
    (barrier, false)
  else
    let entered := barrier.enter batch.hostEpoch
    -- `entry(..).or_insert(-1)` leaves the entry behind
    let seen := (entered.version document.docId).getD (-1)
    if document.version ≤ seen then (entered.setVersion document.docId seen, false)
    else (entered.setVersion document.docId document.version, true)

omit [DecidableEq content] in
def ready (barrier : ReplicaBarrier) (batch : PublicationBatch content) : Bool :=
  batch.hostId == barrier.owner && batch.hostEpoch == barrier.epoch &&
    batch.schemaVersion == schemaVersion &&
    batch.documents.all fun document =>
      (barrier.version document.docId).any fun seen => decide ((document.version : Int) ≤ seen)

end ReplicaBarrier

end Zeron.Orchestration

/-!
## The read barrier of a replica

The barrier keeps one version for each document, of the epoch it is in.  Whatever
it is fed, it accepts nothing twice, and what it holds it has accepted.
-/

namespace Zeron.Orchestration

variable {content : Type} [DecidableEq content]

/-- A barrier and what it has accepted, oldest first. -/
structure Replica (content : Type) where
  barrier : ReplicaBarrier
  accepted : List (Delivery content)

namespace Replica

def new (owner : String) (epoch : Int) : Replica content where
  barrier := .new owner epoch
  accepted := []

def observe (replica : Replica content) (delivery : Delivery content) : Replica content :=
  let seen := replica.barrier.observe delivery.1 delivery.2
  { barrier := seen.1
    accepted := if seen.2 then replica.accepted ++ [delivery] else replica.accepted }

def feed (replica : Replica content) (deliveries : List (Delivery content)) :
    Replica content :=
  deliveries.foldl observe replica

end Replica

/-- What is accepted: a version of a document in an epoch. -/
def Delivery.stamp (delivery : Delivery content) : Int × String × Nat :=
  (delivery.1.hostEpoch, delivery.2.docId, delivery.2.version)

omit [DecidableEq content] in
/-- The barrier holds what was accepted last in its epoch. -/
structure Replica.Honest (replica : Replica content) : Prop where
  epochs : ∀ delivery ∈ replica.accepted, delivery.1.hostEpoch ≤ replica.barrier.epoch
  covered : ∀ delivery ∈ replica.accepted,
    delivery.1.hostEpoch = replica.barrier.epoch →
      ∃ version, replica.barrier.version delivery.2.docId = some version ∧
        (delivery.2.version : Int) ≤ version
  held : ∀ docId version, replica.barrier.version docId = some version →
    ∃ delivery ∈ replica.accepted, delivery.1.hostEpoch = replica.barrier.epoch ∧
      delivery.2.docId = docId ∧ (delivery.2.version : Int) = version
  once : (replica.accepted.map Delivery.stamp).Nodup

theorem ReplicaBarrier.version_setVersion (barrier : ReplicaBarrier) (docId other : String)
    (version : Int) :
    (barrier.setVersion docId version).version other =
      if docId = other then some version else barrier.version other := by
  unfold ReplicaBarrier.version setVersion
  rw [List.lookup_cons]
  by_cases same : docId = other
  · subst same
    simp
  · have apart : (other == docId) = false := beq_false_of_ne (Ne.symm same)
    rw [apart, if_neg same]

/-- What a delivery does: nothing, or it enters the epoch of the batch and sets
a version above the one seen there. -/
theorem ReplicaBarrier.observe_cases (barrier : ReplicaBarrier) (batch : PublicationBatch content)
    (document : PublicationDocument content) :
    barrier.observe batch document = (barrier, false) ∨
      (barrier.epoch ≤ batch.hostEpoch ∧ ∃ seen,
        (barrier.enter batch.hostEpoch).version document.docId = some seen ∧
        (document.version : Int) ≤ seen ∧
        barrier.observe batch document =
          ((barrier.enter batch.hostEpoch).setVersion document.docId seen, false)) ∨
      (barrier.epoch ≤ batch.hostEpoch ∧
        (∀ seen, (barrier.enter batch.hostEpoch).version document.docId = some seen →
          seen < document.version) ∧
        barrier.observe batch document =
          ((barrier.enter batch.hostEpoch).setVersion document.docId document.version, true)) := by
  unfold observe
  split
  · exact .inl rfl
  · rename_i passes
    simp only [Bool.or_eq_true, not_or, decide_eq_true_eq] at passes
    have entered : barrier.epoch ≤ batch.hostEpoch := Int.not_lt.mp passes.1.2
    right
    cases found : (barrier.enter batch.hostEpoch).version document.docId with
    | none =>
        right
        refine ⟨entered, ?_, ?_⟩
        · intro seen seen_eq
          cases seen_eq
        · simp only [found, Option.getD_none]
          rw [if_neg]
          omega
    | some seen =>
        simp only [found]
        split
        · rename_i old
          exact .inl ⟨entered, seen, rfl, old, rfl⟩
        · rename_i newer
          refine .inr ⟨entered, ?_, rfl⟩
          intro other other_eq
          cases other_eq
          exact Int.not_le.mp newer

omit [DecidableEq content] in
theorem Replica.honest_new (owner : String) (epoch : Int) :
    (Replica.new owner epoch : Replica content).Honest where
  epochs _ listed := by cases listed
  covered _ listed := by cases listed
  held _ _ found := by cases found
  once := .nil

namespace Replica.Honest

variable {barrier : ReplicaBarrier} {accepted : List (Delivery content)}

omit [DecidableEq content] in
/-- Entering an epoch forgets what was seen in an older one. -/
theorem enter (honest : Honest ⟨barrier, accepted⟩) (epoch : Int) :
    Honest ⟨barrier.enter epoch, accepted⟩ := by
  unfold ReplicaBarrier.enter
  split
  · rename_i newer
    have below : ∀ delivery ∈ accepted, delivery.1.hostEpoch < epoch :=
      fun delivery listed => Int.lt_of_le_of_lt (honest.epochs delivery listed) newer
    constructor
    · exact fun delivery listed => Int.le_of_lt (below delivery listed)
    · intro delivery listed same
      have := below delivery listed
      simp only at same
      omega
    · intro docId version found
      cases found
    · exact honest.once
  · exact honest

omit [DecidableEq content] in
theorem epoch_enter {epoch : Int} (entered : barrier.epoch ≤ epoch) :
    (barrier.enter epoch).epoch = epoch := by
  unfold ReplicaBarrier.enter
  split
  · rfl
  · omega

omit [DecidableEq content] in
/-- Writing back what is there changes nothing. -/
theorem rewrite (honest : Honest ⟨barrier, accepted⟩) {docId : String} {seen : Int}
    (found : barrier.version docId = some seen) :
    Honest ⟨barrier.setVersion docId seen, accepted⟩ := by
  have same : ∀ other, (barrier.setVersion docId seen).version other = barrier.version other := by
    intro other
    rw [ReplicaBarrier.version_setVersion]
    split
    · rename_i equal
      rw [← equal, found]
    · rfl
  constructor
  · exact honest.epochs
  · intro delivery listed epoch_same
    rw [same]
    exact honest.covered delivery listed epoch_same
  · intro other version other_found
    rw [same] at other_found
    exact honest.held other version other_found
  · exact honest.once

omit [DecidableEq content] in
/-- A version above what is there is accepted. -/
theorem accept (honest : Honest ⟨barrier, accepted⟩) {delivery : Delivery content}
    (epoch_same : delivery.1.hostEpoch = barrier.epoch)
    (newer : ∀ seen, barrier.version delivery.2.docId = some seen →
      seen < delivery.2.version) :
    Honest ⟨barrier.setVersion delivery.2.docId delivery.2.version,
      accepted ++ [delivery]⟩ := by
  constructor
  · intro other listed
    obtain old | rfl := (List.mem_append.mp listed).imp_right List.mem_singleton.mp
    · exact honest.epochs other old
    · exact Int.le_of_eq epoch_same
  · intro other listed other_same
    simp only [ReplicaBarrier.version_setVersion]
    obtain old | rfl := (List.mem_append.mp listed).imp_right List.mem_singleton.mp
    · obtain ⟨version, found, below⟩ := honest.covered other old other_same
      split
      · rename_i equal
        refine ⟨_, rfl, ?_⟩
        have := newer version (equal ▸ found)
        omega
      · exact ⟨version, found, below⟩
    · rw [if_pos rfl]
      exact ⟨_, rfl, Int.le_refl _⟩
  · intro docId version found
    simp only [ReplicaBarrier.version_setVersion] at found
    split at found
    · rename_i equal
      cases found
      exact ⟨delivery, List.mem_concat_self, epoch_same, equal,
        rfl⟩
    · obtain ⟨other, listed, rest⟩ := honest.held docId version found
      exact ⟨other, List.mem_append_left _ listed, rest⟩
  · rw [List.map_append, List.map_cons, List.map_nil]
    apply List.nodup_append.mpr
    refine ⟨honest.once, List.nodup_singleton _, ?_⟩
    intro stamp listed last last_eq same
    obtain ⟨other, other_listed, rfl⟩ := List.mem_map.mp listed
    rw [List.mem_singleton] at last_eq
    rw [last_eq] at same
    unfold Delivery.stamp at same
    obtain ⟨epoch_eq, doc_eq, version_eq⟩ :
        other.1.hostEpoch = delivery.1.hostEpoch ∧ other.2.docId = delivery.2.docId ∧
          other.2.version = delivery.2.version := by
      simpa using same
    obtain ⟨version, found, below⟩ :=
      honest.covered other other_listed (epoch_eq.trans epoch_same)
    have := newer version (doc_eq ▸ found)
    omega

end Replica.Honest

variable {replica : Replica content}

theorem Replica.Honest.observe (honest : replica.Honest) (delivery : Delivery content) :
    (replica.observe delivery).Honest := by
  obtain ⟨barrier, accepted⟩ := replica
  unfold Replica.observe
  obtain same | ⟨entered, seen, found, _, same⟩ | ⟨entered, newer, same⟩ :=
    barrier.observe_cases delivery.1 delivery.2
  · simp only [same]
    exact honest
  · simp only [same]
    exact (honest.enter _).rewrite found
  · simp only [same]
    exact (honest.enter _).accept (Replica.Honest.epoch_enter entered).symm newer

theorem Replica.Honest.feed (honest : replica.Honest) (deliveries : List (Delivery content)) :
    (replica.feed deliveries).Honest := by
  induction deliveries generalizing replica with
  | nil => exact honest
  | cons delivery rest ih => exact ih (honest.observe delivery)

omit [DecidableEq content] in
/-- A barrier that is ready for a batch has accepted all of it in its epoch. -/
theorem Replica.Honest.ready (honest : replica.Honest) {batch : PublicationBatch content}
    (ready : replica.barrier.ready batch = true) :
    batch.hostEpoch = replica.barrier.epoch ∧ ∀ document ∈ batch.documents,
      ∃ delivery ∈ replica.accepted, delivery.1.hostEpoch = replica.barrier.epoch ∧
        delivery.2.docId = document.docId ∧ document.version ≤ delivery.2.version := by
  unfold ReplicaBarrier.ready at ready
  simp only [Bool.and_eq_true, beq_iff_eq, List.all_eq_true] at ready
  obtain ⟨⟨⟨_, epoch_same⟩, _⟩, all⟩ := ready
  refine ⟨epoch_same, ?_⟩
  intro document listed
  have held := all document listed
  cases found : replica.barrier.version document.docId with
  | none =>
      rw [found] at held
      cases held
  | some version =>
      rw [found] at held
      have enough : (document.version : Int) ≤ version := of_decide_eq_true held
      obtain ⟨delivery, accepted, epoch_eq, doc_eq, version_eq⟩ :=
        honest.held document.docId version found
      refine ⟨delivery, accepted, epoch_eq, doc_eq, ?_⟩
      omega

end Zeron.Orchestration
