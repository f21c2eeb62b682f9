import Zeron.Registry.Overlay
import Zeron.Registry.Traffic

/-!
# Reads across an acknowledgement

The ack of a batch retires it from the pending ones, and from then on a read
shows what the replica holds.  A socket delivers the merged rows before the
ack.  The reply to a POST is the ack alone, and its rows come only with the
pull that follows, or with a later one when that pull fails; in between the read
falls back.  A read survives an ack exactly where the replica holds the batch
already, or what is still pending hides it.
-/

namespace Zeron.Registry

open Zeron.Data
open Zeron.Transition
open Zeron.Wire

/-! ## What every client keeps -/

/-- The rows that a client holds or waits for are well formed, and its pending
batches have ids of their own. -/
structure Node.Orderly (node : Node) : Prop where
  held : ∀ (key : RowKey) (row : RegistryRow), node.doc.authoritative[key]? = some row →
    row.WellFormed
  incoming : ∀ row ∈ node.incoming, row.WellFormed
  issued : ∀ pending ∈ node.doc.pending, node.doc.Issued pending.batch
  distinct : (node.doc.pending.map PendingBatch.batch).Nodup

theorem RegistryDoc.Advances.orderly {doc next : RegistryDoc} {added : List PendingBatch}
    (advances : doc.Advances next added)
    (issued : ∀ pending ∈ doc.pending, doc.Issued pending.batch)
    (distinct : (doc.pending.map PendingBatch.batch).Nodup) :
    (∀ pending ∈ next.pending, next.Issued pending.batch) ∧
      (next.pending.map PendingBatch.batch).Nodup := by
  have sublist : (next.pending.map PendingBatch.batch).Sublist
      (doc.pending.map PendingBatch.batch ++ added.map PendingBatch.batch) := by
    have ids := advances.pending.map Push.batch
    rw [List.map_append, List.map_map, List.map_map, List.map_map] at ids
    exact ids
  constructor
  · intro pending member
    rcases List.mem_append.mp (sublist.subset (List.mem_map_of_mem member)) with before | new
    · obtain ⟨old, oldMem, same⟩ := List.mem_map.mp before
      exact advances.issues _ (same ▸ issued old oldMem)
    · obtain ⟨fresh, freshMem, same⟩ := List.mem_map.mp new
      exact same ▸ advances.issued fresh freshMem
  · refine sublist.nodup (List.nodup_append.mpr ⟨distinct, advances.distinct, ?_⟩)
    rintro _ before _ new rfl
    obtain ⟨old, oldMem, rfl⟩ := List.mem_map.mp before
    obtain ⟨fresh, freshMem, same⟩ := List.mem_map.mp new
    exact advances.fresh fresh freshMem (same ▸ issued old oldMem)

theorem Node.Orderly.step {node next : Node} {event : ClientEvent} (orderly : node.Orderly)
    (stepped : node.step event = some next) : next.Orderly := by
  obtain ⟨added, advances, _⟩ := Node.advances_step stepped
  have takes := Node.takes_step stepped
  obtain ⟨issued, distinct⟩ := advances.doc.orderly orderly.issued orderly.distinct
  refine ⟨fun key row found => ?_, fun row member => orderly.incoming row (takes.incoming member),
    issued, distinct⟩
  rcases takes.held key row found with before | ⟨arrived, _⟩
  · exact orderly.held key row before
  · exact orderly.incoming row (node.arriving_subset event arrived)

theorem Node.Orderly.served {room : RegistryRoom} {node next : Node} (orderly : node.Orderly)
    (invariant : room.Invariant) (served : Node.Served room node next) : next.Orderly := by
  refine ⟨?_, fun row member => ?_, ?_, ?_⟩
  · rw [served.doc]
    exact orderly.held
  · rcases served.incoming row member with before | found
    · exact orderly.incoming row before
    · exact (invariant.stored row.key row found).formed
  · rw [served.doc]
    exact orderly.issued
  · rw [served.doc]
    exact orderly.distinct

/-! ## Acknowledgements -/

/-- The batch that an event acknowledges. -/
def Node.acked (node : Node) : ClientEvent → Option String
  | .receive _ =>
      match node.link with
      | some link =>
          match link.joined, link.down with
          | true, .ack batch _ _ :: _ => some batch
          | _, _ => none
      | none => none
  | .postReply =>
      match node.sync with
      | .answered (some (batch, _)) _ => some batch
      | _ => none
  | _ => none

/-- An ack does to the replica what `ackBatch` does. -/
theorem Node.doc_of_acked {node next : Node} {event : ClientEvent} {batch : String}
    (acked : batch ∈ node.acked event) (stepped : node.step event = some next) :
    next.doc = node.doc.ackBatch batch := by
  have moves := Node.moves_of_step stepped
  cases event with
  | receive now =>
      obtain ⟨link, frame, rest, onNode, head, rfl⟩ := moves
      simp only [Node.acked, onNode, head] at acked
      split at acked
      · rename_i first others joined cut
        cases cut
        cases acked
        simp only [joined]
        rfl
      · cases acked
  | postReply =>
      obtain ⟨reply, rest, answered, rfl⟩ := moves
      simp only [Node.acked, answered] at acked
      split at acked
      · rename_i first seq others cut
        cases cut
        cases acked
        rfl
      · cases acked
  | _ => cases acked

/-- All that is pending are writes, and the rows held have them. -/
def RegistryDoc.holdsPending (doc : RegistryDoc) : Bool :=
  (doc.pending.flatMap PendingBatch.ops).all fun op =>
    op.op != .delete && doc.authoritative[op.key]?.any fun row =>
      !row.deleted && op.writes.toList.all fun (field, _) =>
        !hlcNewer (op.clockFor field) row.clocks[field]?

theorem RegistryDoc.settles_of_holdsPending {doc : RegistryDoc} (holds : doc.holdsPending = true)
    (batch : String) : doc.Settles batch := by
  have carried := List.all_eq_true.mp holds
  intro before acked after pending_eq _ first op second ops_eq
  have inPending : ∀ other ∈ before.flatMap PendingBatch.ops ++ (first ++ [op]),
      other ∈ doc.pending.flatMap PendingBatch.ops := by
    intro other member
    rw [pending_eq, List.flatMap_append, List.flatMap_cons, ops_eq]
    simp only [List.mem_append, List.mem_cons] at member ⊢
    tauto
  obtain ⟨notDelete, held⟩ := Bool.and_eq_true_iff.mp (carried op (inPending op (by simp)))
  obtain ⟨row, found, has⟩ := (Option.any_eq_true _ _).mp held
  obtain ⟨live, written⟩ := Bool.and_eq_true_iff.mp has
  rw [found]
  refine Or.inl (.written (by simpa using live) (by simpa using notDelete) ?_ ?_)
  · intro field value sets
    have entry := List.all_eq_true.mp written (field, value)
      (Std.ExtTreeMap.mem_toList_iff_getElem?_eq_some.mpr sets)
    simpa using entry
  · intro old member isDelete
    have inOlder : old ∈ before.flatMap PendingBatch.ops ++ (first ++ [op]) := by
      simp only [opsOn, List.mem_append, List.mem_filter] at member ⊢
      tauto
    have notDelete := (Bool.and_eq_true_iff.mp (carried old (inPending old inOlder))).1
    exact absurd isDelete (by simpa using notDelete)

namespace Net

variable {ι : Type}

/-- Every batch is settled when its ack retires it. -/
def AcksSettled (net : Net ι) : Event ι → Prop
  | .client i event => ∀ batch ∈ (net.nodes i).acked event, (net.nodes i).doc.Settles batch
  | _ => True

/-- Every read after an ack equals the read before it. -/
def ReadsSurvive (net : Net ι) : Event ι → Prop
  | .client i event => ∀ batch ∈ (net.nodes i).acked event, ∀ next,
      (net.nodes i).step event = some next →
        ∀ key, next.doc.overlayRow key = (net.nodes i).doc.overlayRow key
  | _ => True

structure Orderly (net : Net ι) : Prop where
  netTrue : NetTrue net
  node : ∀ i, (net.nodes i).Orderly

theorem Orderly.initial (device : ι → String) : Orderly (initial device) where
  netTrue := NetTrue.initial device
  node i := by
    refine ⟨fun key row found => ?_, ?_, ?_, List.nodup_nil⟩
    · simp [Net.initial, Node.offline, RegistryDoc.new] at found
    · simp [Net.initial, Node.offline, Node.incoming, Sync.listed]
    · simp [Net.initial, Node.offline, RegistryDoc.new]

variable [DecidableEq ι]

theorem Orderly.step {net next : Net ι} {event : Event ι} (orderly : Orderly net)
    (stepped : step net event = some next) : Orderly next where
  netTrue := orderly.netTrue.step stepped
  node := by
    by_cases served : ∀ i own, event ≠ .client i own
    · have serves := serves_step orderly.netTrue stepped served
      exact fun i => (orderly.node i).served (orderly.netTrue.step stepped).room (serves.node i)
    · push Not at served
      obtain ⟨i, own, rfl⟩ := served
      obtain ⟨node, moved, rfl⟩ := moves_of_step stepped
      exact forall_modify (fun _ => Node.Orderly) (fun j _ => orderly.node j)
        ((orderly.node i).step moved)

/-- In every run, reads survive the acks of settled batches. -/
theorem reads_survive_settled_acks (device : ι → String) (events : List (Event ι))
    (settled : EveryStep step AcksSettled (initial device) events) :
    EveryStep step ReadsSurvive (initial device) events := by
  refine EveryStep.imp (fun orderly stepped => Orderly.step orderly stepped) ?_
    (Orderly.initial device) settled
  intro net event orderly guarded
  cases event with
  | client i own =>
      intro batch acked next stepped key
      rw [Node.doc_of_acked acked stepped]
      have node := orderly.node i
      refine RegistryDoc.overlayRow_ackBatch node.distinct ?_ (guarded batch acked) key
      exact fun key row found =>
        ⟨node.held key row found, ((orderly.netTrue.node i).held key row found).1⟩
  | _ => trivial

/-- Where a batch is acknowledged, the rows still hold what is pending. -/
def checkAcked (net : Net Unit) : Event Unit → Bool
  | .client i event => ((net.nodes i).acked event).isNone || (net.nodes i).doc.holdsPending
  | _ => true

/-- A write is pushed over the socket and acknowledged there. -/
theorem reads_survive_settled_acks_chat :
    let device : Unit → String := fun _ => "a"
    let now : Nat → Nat := fun _ => 1
    let events : List (Event Unit) := [.client () .dial, .serve (), .client () (.receive now),
      .client () (.write now "chats" "c1" .upsert (.ofList [("title", .str "draft")] compare)),
      .client () .nudge, .serve (), .client () (.receive now), .client () (.receive now)]
    EveryStep step ReadsSurvive (initial device) events := by
  intro device now events
  apply reads_survive_settled_acks
  apply everyStep_of_checkSteps checkAcked
  · intro net event checked
    cases event with
    | client i own =>
        intro batch acked
        have holds : (net.nodes i).doc.holdsPending = true := by
          simpa only [checkAcked, Option.mem_def.mp acked, Option.isNone_some, Bool.false_or]
            using checked
        exact RegistryDoc.settles_of_holdsPending holds batch
    | _ => trivial
  · decide +kernel

/-- A write is posted, its reply retires the batch, and the pull fails: the chat
that was shown is gone. -/
theorem posted_write_vanishes :
    let device : Unit → String := fun _ => "a"
    let now : Nat → Nat := fun _ => 1
    let key : RowKey := ⟨"chats", "c1"⟩
    let posts : List (Event Unit) :=
      [.client () (.write now "chats" "c1" .upsert (.ofList [("title", .str "draft")] compare)),
        .client () .spawnSync, .client () .startSync, .servePost ()]
    let pullFails : List (Event Unit) :=
      [.client () .readCursor, .servePull (), .client () .requestFailed]
    ∃ before after final, run step (initial device) posts = some before ∧
      step before (.client () .postReply) = some after ∧ run step after pullFails = some final ∧
      ((before.nodes ()).doc.overlayRow key).isSome = true ∧
      ((after.nodes ()).doc.overlayRow key).isNone = true ∧
      ((final.nodes ()).doc.overlayRow key).isNone = true := by
  intro device now key posts pullFails
  let reply : Event Unit := .client () .postReply
  have shown : (run step (initial device) posts).any (fun net =>
      ((net.nodes ()).doc.overlayRow key).isSome) = true := by
    decide +kernel
  have retired : (run step (initial device) (posts ++ [reply])).any (fun net =>
      ((net.nodes ()).doc.overlayRow key).isNone) = true := by
    decide +kernel
  have failed : (run step (initial device) (posts ++ [reply] ++ pullFails)).any (fun net =>
      ((net.nodes ()).doc.overlayRow key).isNone) = true := by
    decide +kernel
  obtain ⟨before, ran, wasShown⟩ := (Option.any_eq_true _ _).mp shown
  obtain ⟨after, ranReply, gone⟩ := (Option.any_eq_true _ _).mp retired
  obtain ⟨final, ranAll, stillGone⟩ := (Option.any_eq_true _ _).mp failed
  rw [run_append, ranReply] at ranAll
  obtain ⟨middle, ranPosts, rest⟩ := run_append_eq_some_iff.mp ranReply
  obtain rfl := Option.some.inj (ran.symm.trans ranPosts)
  obtain ⟨next, stepped, done⟩ := run_cons_eq_some_iff.mp rest
  obtain rfl := Option.some.inj done
  exact ⟨before, next, final, ran, stepped, ranAll, wasShown, gone, stillGone⟩

end Net

end Zeron.Registry
