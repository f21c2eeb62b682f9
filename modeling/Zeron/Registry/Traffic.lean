import Zeron.Registry.InFlight

/-!
# Where pushes and rows come from

A push that is anywhere on its way was queued by its own client, as a local
write or as a seed, and a row that is anywhere outside the room was the room's
row when it was sent.  Every statement about what can reach the room, or a
replica, starts from these two facts.
-/

namespace Zeron.Registry

open Zeron.Data
open Zeron.Transition
open Zeron.Wire

/-! ## Pushes as the room reads them -/

theorem readBatch_of_members {frame : Json} {push : Push} {batch : String} {ops : List RowOp}
    (batch_eq : frame.member "batch" = some (.str push.batch))
    (ops_eq : frame.member "ops" = some (.arr (push.ops.map encodeOp)))
    (read : RegistryRoom.readBatch frame = .ok (batch, ops)) :
    batch = push.batch ∧ ops = push.ops := by
  have readBack : (push.ops.map encodeOp).map readOp = push.ops := by
    simp [Function.comp_def]
  simp only [RegistryRoom.readBatch, batch_eq, ops_eq, readBack] at read
  split at read
  · cases read
  · split at read
    · cases read
    · split at read
      · cases read
      · cases read
        exact ⟨rfl, rfl⟩

/-- A frame that carries a push is read as that push, if it is accepted. -/
def Carries (frame : Json) (push : Push) : Prop :=
  ∀ batch ops, RegistryRoom.readBatch frame = .ok (batch, ops) →
    batch = push.batch ∧ ops = push.ops

theorem Push.carries_frame (push : Push) : Carries push.frame push :=
  fun _ _ => readBatch_of_members rfl rfl

theorem Push.carries_body (push : Push) : Carries push.body push :=
  fun _ _ => readBatch_of_members rfl rfl

theorem Stray.carries_encode (stray : Stray) (push : Push) : Carries (stray.encode push) push := by
  unfold encode
  split
  · exact push.carries_body
  · exact push.carries_frame

/-! ## The pushes of a client -/

/-- The batches that a sync cycle has still to push. -/
def Sync.batches : Sync → List PendingBatch
  | .pushing batches => batches
  | .answered _ rest => rest
  | _ => []

/-- All pushes of a client that the room has not taken yet, pending ones included. -/
def Node.pushes (node : Node) : List Push :=
  node.doc.pending.map PendingBatch.push ++ node.link.toList.flatMap Link.sent ++
    node.sync.batches.map PendingBatch.push ++ node.strays.flatMap Stray.pushes

/-- The operations that an event queues. -/
def Node.queued (node : Node) : ClientEvent → List RowOp
  | .receive _ =>
      match node.link.bind fun link => link.down.head? with
      | some (.state frame) => node.doc.seeds frame
      | _ => []
  | .applyPull _ =>
      match node.sync with
      | .fetched _ frame => node.doc.seeds frame
      | _ => []
  | .write now kind id op set =>
      [.fieldWrite kind id op set ((node.doc.clock.tick (now 0)).print node.doc.deviceId)]
  | .deleteRows now keys =>
      keys.map fun key =>
        .rowDelete key.kind key.id ((node.doc.clock.tick (now 0)).print node.doc.deviceId)
  | _ => []

/-- How a replica's queue moves: some batches are retired, some are added. -/
structure RegistryDoc.Advances (doc next : RegistryDoc) (added : List PendingBatch) : Prop where
  pending : (next.pending.map PendingBatch.push).Sublist
    (doc.pending.map PendingBatch.push ++ added.map PendingBatch.push)
  issues : ∀ batch, doc.Issued batch → next.Issued batch
  issued : ∀ pending ∈ added, next.Issued pending.batch
  fresh : ∀ pending ∈ added, ¬doc.Issued pending.batch
  distinct : (added.map PendingBatch.batch).Nodup

namespace RegistryDoc

variable {doc next : RegistryDoc}

theorem Queues.advances {added : List PendingBatch} (queues : Queues doc next added) :
    Advances doc next added where
  pending := by rw [queues.pending_eq, List.map_append]
  issues := queues.issues
  issued := queues.issued
  fresh := queues.fresh
  distinct := queues.distinct

/-- A step of the queue that adds nothing. -/
theorem Advances.of_sublist
    (pending : (next.pending.map PendingBatch.push).Sublist (doc.pending.map PendingBatch.push))
    (clock_eq : next.clock = doc.clock) (deviceId_eq : next.deviceId = doc.deviceId) :
    Advances doc next [] where
  pending := by rwa [List.map_nil, List.append_nil]
  issues := by
    rintro batch ⟨clock, past, rfl⟩
    exact ⟨clock, by rwa [clock_eq], by rw [deviceId_eq]⟩
  issued := by simp
  fresh := by simp
  distinct := List.nodup_nil

theorem advances_self (doc : RegistryDoc) : Advances doc doc [] :=
  .of_sublist (List.Sublist.refl _) (Eq.refl _) (Eq.refl _)

theorem advances_applyRows (doc : RegistryDoc) (seq : Nat) (rows : List RegistryRow) :
    Advances doc (doc.applyRows seq rows).1 [] := by
  unfold applyRows
  split <;> exact .of_sublist (List.Sublist.refl _) (Eq.refl _) (Eq.refl _)

theorem advances_ackBatch (doc : RegistryDoc) (batch : String) :
    Advances doc (doc.ackBatch batch) [] := by
  unfold ackBatch
  simp only
  split
  · exact .of_sublist (List.filter_sublist.map _) (Eq.refl _) (Eq.refl _)
  · exact doc.advances_self

theorem advances_takePushable (doc : RegistryDoc) : Advances doc doc.takePushable.1 [] := by
  refine .of_sublist ?_ (Eq.refl _) (Eq.refl _)
  rw [takePushable, List.map_map]
  exact List.Sublist.refl _

theorem advances_markDisconnected (doc : RegistryDoc) : Advances doc doc.markDisconnected [] := by
  refine .of_sublist ?_ (Eq.refl _) (Eq.refl _)
  rw [markDisconnected, List.map_map]
  exact List.Sublist.refl _

/-- What is taken to be pushed stays pending. -/
theorem takePushable_subset (doc : RegistryDoc) :
    doc.takePushable.2.map PendingBatch.push ⊆
      doc.takePushable.1.pending.map PendingBatch.push := by
  intro push member
  simp only [takePushable, List.map_map, List.mem_map, List.mem_filter] at member ⊢
  obtain ⟨batch, ⟨pending, _⟩, rfl⟩ := member
  exact ⟨batch, pending, Eq.refl _⟩

end RegistryDoc

theorem Node.mem_pushes {node : Node} {push : Push} : push ∈ node.pushes ↔
    push ∈ node.doc.pending.map PendingBatch.push ∨
      (∃ link ∈ node.link, push ∈ link.sent) ∨
      push ∈ node.sync.batches.map PendingBatch.push ∨
      ∃ stray ∈ node.strays, push ∈ stray.pushes := by
  simp [Node.pushes]

/-- How a client's pushes move: new ones are those it has queued. -/
structure Node.Advances (node next : Node) (added : List PendingBatch) : Prop where
  doc : node.doc.Advances next.doc added
  pushes : ∀ push ∈ next.pushes, push ∈ node.pushes ∨ push ∈ added.map PendingBatch.push

variable {link : Link}

namespace Node

variable {node next : Node}

variable {added : List PendingBatch}

/-- A step is checked part by part. -/
theorem Advances.of_parts (doc : node.doc.Advances next.doc added)
    (link : ∀ link ∈ next.link, ∀ push ∈ link.sent,
      push ∈ node.pushes ∨ push ∈ added.map PendingBatch.push)
    (sync : ∀ push ∈ next.sync.batches.map PendingBatch.push,
      push ∈ node.pushes ∨ push ∈ added.map PendingBatch.push)
    (strays : ∀ stray ∈ next.strays, ∀ push ∈ stray.pushes,
      push ∈ node.pushes ∨ push ∈ added.map PendingBatch.push) :
    node.Advances next added where
  doc := doc
  pushes := by
    intro push member
    rcases mem_pushes.mp member with pending | ⟨other, onNode, sent⟩ | batch | ⟨stray, left, kept⟩
    · rcases List.mem_append.mp (doc.pending.subset pending) with before | new
      · exact Or.inl (mem_pushes.mpr (Or.inl before))
      · exact Or.inr new
    · exact link other onNode push sent
    · exact sync push batch
    · exact strays stray left push kept

/-- A step of the replica alone. -/
theorem Advances.withDoc {doc : RegistryDoc} (advances : node.doc.Advances doc added) :
    node.Advances (node.withDoc doc) added :=
  .of_parts advances
    (fun link onNode _ sent => Or.inl (mem_pushes.mpr (Or.inr (Or.inl ⟨link, onNode, sent⟩))))
    (fun _ batch => Or.inl (mem_pushes.mpr (Or.inr (Or.inr (Or.inl batch)))))
    (fun stray left _ kept =>
      Or.inl (mem_pushes.mpr (Or.inr (Or.inr (Or.inr ⟨stray, left, kept⟩)))))

/-- A step after which the link has only sent pushes of the node. -/
theorem Advances.withLink (advances : node.Advances next added)
    (sent : ∀ push ∈ link.sent, push ∈ next.pushes) :
    node.Advances (next.withLink link) added :=
  .of_parts advances.doc
    (by rintro other ⟨⟩ push member; exact advances.pushes push (sent push member))
    (fun push batch => advances.pushes push (mem_pushes.mpr (Or.inr (Or.inr (Or.inl batch)))))
    (fun stray left push kept =>
      advances.pushes push (mem_pushes.mpr (Or.inr (Or.inr (Or.inr ⟨stray, left, kept⟩)))))

theorem Advances.withSync (advances : node.Advances next added) {sync : Sync}
    (batches : ∀ push ∈ sync.batches.map PendingBatch.push, push ∈ next.pushes) :
    node.Advances (next.withSync sync) added :=
  .of_parts advances.doc
    (fun link onNode push sent =>
      advances.pushes push (mem_pushes.mpr (Or.inr (Or.inl ⟨link, onNode, sent⟩))))
    (fun push batch => advances.pushes push (batches push batch))
    (fun stray left push kept =>
      advances.pushes push (mem_pushes.mpr (Or.inr (Or.inr (Or.inr ⟨stray, left, kept⟩)))))

theorem Advances.withStrays (advances : node.Advances next added) {strays : List Stray}
    (kept : ∀ stray ∈ strays, ∀ push ∈ stray.pushes, push ∈ next.pushes ∨ push ∈ node.pushes) :
    node.Advances { next with strays } added :=
  .of_parts advances.doc
    (fun link onNode push sent =>
      advances.pushes push (mem_pushes.mpr (Or.inr (Or.inl ⟨link, onNode, sent⟩))))
    (fun push batch => advances.pushes push (mem_pushes.mpr (Or.inr (Or.inr (Or.inl batch)))))
    (fun stray left push member =>
      (kept stray left push member).elim (advances.pushes push) Or.inl)

theorem advances_self (node : Node) : node.Advances node [] :=
  Advances.withDoc (RegistryDoc.advances_self node.doc)

/-- Pushes that the link already carried. -/
theorem sent_subset {other : Link} (onNode : node.link = some link)
    (sent : other.sent ⊆ link.sent) : ∀ push ∈ other.sent, push ∈ node.pushes :=
  fun _ member => mem_pushes.mpr (Or.inr (Or.inl ⟨link, onNode, sent member⟩))

theorem Advances.disconnect (advances : node.Advances next added)
    (sent : ∀ push ∈ link.sent, push ∈ next.pushes) :
    node.Advances (next.disconnect link) added := by
  have left : ∀ push ∈ link.pushes, push ∈ next.pushes := by
    intro push member
    unfold Link.pushes at member
    split at member
    · cases member
    · exact sent push member
  have strays : ∀ stray ∈ next.strays ++ [{ posted := false, pushes := link.pushes }],
      ∀ push ∈ stray.pushes, push ∈ next.pushes ∨ push ∈ node.pushes := by
    intro stray member push kept
    rcases List.mem_append.mp member with before | new
    · exact Or.inl (mem_pushes.mpr (Or.inr (Or.inr (Or.inr ⟨stray, before, kept⟩))))
    · obtain rfl := List.mem_singleton.mp new
      exact Or.inl (left push kept)
  have moved := advances.withStrays strays
  refine .of_parts ?_ (by rintro other ⟨⟩) ?_ ?_
  · have marked := advances.doc
    refine ⟨?_, marked.issues, marked.issued, marked.fresh, marked.distinct⟩
    exact next.doc.advances_markDisconnected.pending.trans (by simpa using marked.pending)
  · intro push batch
    exact moved.pushes push (mem_pushes.mpr (Or.inr (Or.inr (Or.inl batch))))
  · intro stray member push kept
    exact moved.pushes push (mem_pushes.mpr (Or.inr (Or.inr (Or.inr ⟨stray, member, kept⟩))))

theorem Advances.postDone (node : Node) (reply : Option (String × Nat)) {rest : List PendingBatch}
    (batches : rest ⊆ node.sync.batches) : node.Advances (node.postDone reply rest) [] := by
  cases reply with
  | some reply =>
      apply (Advances.withDoc (node.doc.advances_ackBatch reply.1)).withSync
      intro push member
      exact mem_pushes.mpr (Or.inr (Or.inr (Or.inl (List.map_subset _ batches member))))
  | none =>
      exact (Advances.withDoc node.doc.advances_markDisconnected).withSync (by simp [Sync.batches])

theorem advances_handleFrame {held : Link} (onNode : node.link = some held)
    (sent : link.sent ⊆ held.sent) (now : Nat → Nat) (frame : ServerFrame) :
    ∃ added, node.Advances (node.handleFrame link now frame) added ∧
      added.flatMap PendingBatch.ops =
        match frame with
        | .state frame => node.doc.seeds frame
        | _ => [] := by
  have carried : ∀ doc, ∀ push ∈ link.sent, push ∈ (node.withDoc doc).pushes := fun doc =>
    sent_subset onNode sent
  have ignored : node.Advances (node.withLink link) [] :=
    node.advances_self.withLink (carried node.doc)
  cases frame with
  | state frame =>
      obtain ⟨added, queues, ops_eq⟩ :=
        RegistryDoc.queues_applyState
      exact ⟨added, (Advances.withDoc queues.advances).withLink (carried _), ops_eq⟩
  | rows seq rows =>
      refine ⟨[], ?_, rfl⟩
      have applied := Advances.withDoc (node.doc.advances_applyRows seq rows)
      simp only [handleFrame]
      split
      · split <;> rename_i doc result <;> rw [result] at applied
        · exact applied.withLink (carried doc)
        · exact applied.disconnect (carried doc)
      · exact ignored
  | ack batch seq applied =>
      refine ⟨[], ?_, rfl⟩
      simp only [handleFrame]
      split
      · exact (Advances.withDoc (node.doc.advances_ackBatch batch)).withLink (carried _)
      · exact ignored
  | error error => exact ⟨[], ignored, rfl⟩

theorem advances_requestFailed (failed : node.requestFailed = some next) :
    node.Advances next [] := by
  unfold requestFailed at failed
  split at failed
  · rename_i batch rest pushing
    cases failed
    apply (Advances.postDone node none (List.nil_subset _)).withStrays
    intro stray member push kept
    rcases List.mem_append.mp member with before | new
    · exact Or.inl (mem_pushes.mpr (Or.inr (Or.inr (Or.inr ⟨stray, before, kept⟩))))
    · obtain rfl := List.mem_singleton.mp new
      obtain rfl := List.mem_singleton.mp kept
      exact Or.inr (mem_pushes.mpr (Or.inr (Or.inr (Or.inl (by simp [pushing, Sync.batches])))))
  · cases failed
    exact Advances.postDone node none (List.nil_subset _)
  · cases failed
    exact node.advances_self.withSync (by simp [Sync.batches])
  · cases failed
    exact node.advances_self.withSync (by simp [Sync.batches])
  · cases failed

/-- What a step of a client queues, and that its pushes come from there. -/
theorem advances_step {event : ClientEvent} (stepped : node.step event = some next) :
    ∃ added, node.Advances next added ∧ added.flatMap PendingBatch.ops = node.queued event := by
  have moves := moves_of_step stepped
  have start := node.advances_self
  cases event with
  | dial =>
      obtain ⟨_, rfl⟩ := moves
      exact ⟨[], start.withLink (by simp [Link.dialed, Link.sent]), rfl⟩
  | receive now =>
      obtain ⟨link, frame, rest, onNode, head, rfl⟩ := moves
      have sent : Link.sent { link with down := rest } ⊆ link.sent := List.Subset.refl _
      obtain ⟨added, advances, ops_eq⟩ := advances_handleFrame onNode sent now frame
      refine ⟨added, advances, ops_eq.trans ?_⟩
      simp only [queued, onNode, Option.bind_some, head]
      cases frame <;> rfl
  | nudge =>
      obtain ⟨link, onNode, _, rfl⟩ := moves
      refine ⟨[], ?_, rfl⟩
      apply (Advances.withDoc node.doc.advances_takePushable).withLink
      intro push member
      simp only [Link.sent, List.filterMap_append, List.mem_append] at member
      rcases member with before | taken
      · exact mem_pushes.mpr (Or.inr (Or.inl ⟨link, onNode, before⟩))
      · have pushable : push ∈ node.doc.takePushable.2.map PendingBatch.push := by
          simpa [RegistryDoc.takePushable] using taken
        exact mem_pushes.mpr (Or.inl (node.doc.takePushable_subset pushable))
  | drop =>
      obtain ⟨link, onNode, rfl⟩ := moves
      exact ⟨[], start.disconnect (sent_subset onNode (List.Subset.refl _)), rfl⟩
  | spawnSync =>
      obtain ⟨_, _, rfl⟩ := moves
      exact ⟨[], start.withSync (by simp [Sync.batches]), rfl⟩
  | startSync =>
      obtain ⟨_, rfl⟩ := moves
      refine ⟨[], ?_, rfl⟩
      apply (Advances.withDoc node.doc.advances_takePushable).withSync
      intro push taken
      exact mem_pushes.mpr (Or.inl (node.doc.takePushable_subset taken))
  | postReply =>
      obtain ⟨reply, rest, answered, rfl⟩ := moves
      exact ⟨[], Advances.postDone node reply (by simp [answered, Sync.batches]), rfl⟩
  | readCursor =>
      obtain ⟨_, rfl⟩ := moves
      exact ⟨[], start.withSync (by simp [Sync.batches]), rfl⟩
  | applyPull now =>
      obtain ⟨since, frame, fetched, rfl⟩ := moves
      obtain ⟨added, queues, ops_eq⟩ :=
        RegistryDoc.queues_applyState
      refine ⟨added, (Advances.withDoc queues.advances).withSync (by simp [Sync.batches]), ?_⟩
      rw [ops_eq, queued, fetched]
  | requestFailed => exact ⟨[], advances_requestFailed moves, rfl⟩
  | write now kind id op set =>
      obtain rfl := moves
      obtain ⟨added, queues, ops_eq⟩ := node.doc.queues_write now kind id op set
      exact ⟨added, Advances.withDoc queues.advances, ops_eq⟩
  | deleteRows now keys =>
      obtain rfl := moves
      obtain ⟨added, queues, ops_eq⟩ := node.doc.queues_deleteRowOps now keys
      exact ⟨added, Advances.withDoc queues.advances, ops_eq⟩

end Node

/-! ## The rows on their way to a client -/

/-- The rows in a frame. -/
def ServerFrame.listed : ServerFrame → List RegistryRow
  | .state frame => frame.rows
  | .rows _ sent => sent
  | _ => []

def Sync.listed : Sync → List RegistryRow
  | .fetched _ frame => frame.rows
  | _ => []

/-- The rows in the frames and answers on their way to a client. -/
def Node.incoming (node : Node) : List RegistryRow :=
  (node.link.toList.flatMap fun link => link.down.flatMap ServerFrame.listed) ++ node.sync.listed

variable {row : RegistryRow}

namespace Node

variable {node next : Node}

theorem mem_incoming : row ∈ node.incoming ↔
    (∃ link ∈ node.link, ∃ frame ∈ link.down, row ∈ frame.listed) ∨ row ∈ node.sync.listed := by
  simp [incoming]

/-- The rows in the frame or answer that an event takes off its way. -/
def arriving (node : Node) : ClientEvent → List RegistryRow
  | .receive _ => ((node.link.bind fun link => link.down.head?).map ServerFrame.listed).getD []
  | .applyPull _ => node.sync.listed
  | _ => []

/-- A step of a client that takes `rows` off their way. -/
structure Takes (node next : Node) (rows : List RegistryRow) : Prop where
  incoming : next.incoming ⊆ node.incoming
  held : ∀ (key : RowKey) (row : RegistryRow), next.doc.authoritative[key]? = some row →
    node.doc.authoritative[key]? = some row ∨ (row ∈ rows ∧ row.key = key)

variable {rows : List RegistryRow}

/-- A step is checked part by part. -/
theorem Takes.of_parts
    (link : ∀ link ∈ next.link, ∀ frame ∈ link.down, frame.listed ⊆ node.incoming)
    (sync : next.sync.listed ⊆ node.incoming)
    (held : ∀ (key : RowKey) (row : RegistryRow), next.doc.authoritative[key]? = some row →
      node.doc.authoritative[key]? = some row ∨ (row ∈ rows ∧ row.key = key)) :
    node.Takes next rows where
  incoming := by
    intro row member
    rcases mem_incoming.mp member with ⟨other, onNode, frame, under, listed⟩ | listed
    · exact link other onNode frame under listed
    · exact sync listed
  held := held

theorem takes_of_sameView (sameLink : next.link = node.link) (sameSync : next.sync = node.sync)
    (same : node.doc.SameView next.doc) : node.Takes next rows :=
  .of_parts
    (fun link onNode frame under _ listed =>
      mem_incoming.mpr (Or.inl ⟨link, sameLink ▸ onNode, frame, under, listed⟩))
    (fun _ listed => mem_incoming.mpr (Or.inr (sameSync ▸ listed)))
    (fun key row found => Or.inl (by rwa [same.authoritative_eq] at found))

/-- Rows written over rows of the replica. -/
theorem takes_withDoc {doc : RegistryDoc} {held : Table}
    (known : ∀ (key : RowKey) (row : RegistryRow), held[key]? = some row →
      node.doc.authoritative[key]? = some row)
    (written : doc.authoritative = insertAll RegistryRow.key held rows) :
    node.Takes (node.withDoc doc) rows :=
  .of_parts
    (fun link onNode frame under _ listed =>
      mem_incoming.mpr (Or.inl ⟨link, onNode, frame, under, listed⟩))
    (fun _ listed => mem_incoming.mpr (Or.inr listed))
    (fun key row found => by
      replace found : (insertAll RegistryRow.key held rows)[key]? = some row := written ▸ found
      rcases getElem?_insertAll_eq_some found with listed | ⟨before, _⟩
      · exact Or.inr listed
      · exact Or.inl (known key row before))

theorem Takes.withLink (takes : node.Takes next rows)
    (down : ∀ frame ∈ link.down, frame.listed ⊆ node.incoming) :
    node.Takes (next.withLink link) rows :=
  .of_parts (by rintro other ⟨⟩; exact down)
    (fun _ listed => takes.incoming (mem_incoming.mpr (Or.inr listed))) takes.held

theorem Takes.withSync (takes : node.Takes next rows) {sync : Sync} (none : sync.listed = []) :
    node.Takes (next.withSync sync) rows :=
  .of_parts
    (fun link onNode frame under _ listed =>
      takes.incoming (mem_incoming.mpr (Or.inl ⟨link, onNode, frame, under, listed⟩)))
    (fun _ listed => by
      replace listed : _ ∈ sync.listed := listed
      rw [none] at listed
      cases listed)
    takes.held

theorem Takes.disconnect (takes : node.Takes next rows) (link : Link) :
    node.Takes (next.disconnect link) rows :=
  .of_parts (by rintro other ⟨⟩)
    (fun _ listed => takes.incoming (mem_incoming.mpr (Or.inr listed))) takes.held

theorem takes_applyState (now : Nat → Nat) (frame : StateFrame) :
    node.Takes (node.withDoc (node.doc.applyState now frame).1) frame.rows := by
  refine takes_withDoc ?_ RegistryDoc.applyState_authoritative
  intro key row found
  unfold RegistryDoc.kept at found
  split at found
  · simp at found
  · exact found

theorem takes_handleFrame (down : ∀ frame ∈ link.down, frame.listed ⊆ node.incoming)
    (now : Nat → Nat) (frame : ServerFrame) :
    node.Takes (node.handleFrame link now frame) frame.listed := by
  have ignored : node.Takes (node.withLink link) frame.listed :=
    (takes_of_sameView rfl rfl .rfl : node.Takes node frame.listed).withLink down
  cases frame with
  | state frame => exact (takes_applyState now frame).withLink down
  | rows seq rows =>
      have applied : node.Takes (node.withDoc (node.doc.applyRows seq rows).1) rows :=
        takes_withDoc (fun _ _ => id) (node.doc.applyRows_authoritative seq rows)
      simp only [handleFrame]
      split
      · split <;> rename_i doc result <;> rw [result] at applied
        · exact applied.withLink down
        · exact applied.disconnect link
      · exact ignored
  | ack batch seq applied =>
      have acked : node.Takes (node.withDoc (node.doc.ackBatch batch)) [] :=
        takes_of_sameView rfl rfl (node.doc.sameView_ackBatch batch)
      simp only [handleFrame]
      split
      · exact acked.withLink down
      · exact ignored
  | error error => exact ignored

theorem takes_postDone (node : Node) (reply : Option (String × Nat)) (rest : List PendingBatch) :
    node.Takes (node.postDone reply rest) rows := by
  cases reply with
  | some reply =>
      have acked : node.Takes (node.withDoc (node.doc.ackBatch reply.1)) rows :=
        takes_of_sameView rfl rfl (node.doc.sameView_ackBatch reply.1)
      exact acked.withSync rfl
  | none =>
      have marked : node.Takes (node.withDoc node.doc.markDisconnected) rows :=
        takes_of_sameView rfl rfl node.doc.sameView_markDisconnected
      exact marked.withSync rfl

theorem takes_step {event : ClientEvent} (stepped : node.step event = some next) :
    node.Takes next (node.arriving event) := by
  have moves := moves_of_step stepped
  have start : ∀ {rows}, node.Takes node rows := takes_of_sameView rfl rfl .rfl
  have pushable : ∀ {rows}, node.Takes (node.withDoc node.doc.takePushable.1) rows :=
    takes_of_sameView rfl rfl node.doc.sameView_takePushable
  have under : ∀ link ∈ node.link, ∀ frame ∈ link.down, frame.listed ⊆ node.incoming :=
    fun link onNode frame down _ listed => mem_incoming.mpr (Or.inl ⟨link, onNode, frame, down, listed⟩)
  cases event with
  | dial => obtain ⟨_, rfl⟩ := moves; exact start.withLink (by simp [Link.dialed])
  | receive now =>
      obtain ⟨link, frame, rest, onNode, head, rfl⟩ := moves
      have arrives : node.arriving (.receive now) = frame.listed := by
        simp [arriving, onNode, head]
      rw [arrives]
      apply takes_handleFrame
      intro other member
      exact under link onNode other (head ▸ List.mem_cons_of_mem _ member)
  | nudge =>
      obtain ⟨link, onNode, _, rfl⟩ := moves
      exact pushable.withLink (under link onNode)
  | drop => obtain ⟨link, _, rfl⟩ := moves; exact start.disconnect link
  | spawnSync => obtain ⟨_, _, rfl⟩ := moves; exact start.withSync rfl
  | startSync => obtain ⟨_, rfl⟩ := moves; exact pushable.withSync rfl
  | postReply => obtain ⟨reply, rest, _, rfl⟩ := moves; exact node.takes_postDone reply rest
  | readCursor => obtain ⟨_, rfl⟩ := moves; exact start.withSync rfl
  | applyPull now =>
      obtain ⟨since, frame, fetched, rfl⟩ := moves
      have arrives : node.arriving (.applyPull now) = frame.rows := by
        rw [arriving, fetched]
        rfl
      rw [arrives]
      exact (takes_applyState now frame).withSync rfl
  | requestFailed =>
      rcases requestFailed_cases moves with ⟨strays, rfl⟩ | rfl
      · have done := (node.takes_postDone none [] : node.Takes _ [])
        exact ⟨done.incoming, done.held⟩
      · exact start.withSync rfl
  | write now kind id op set =>
      obtain rfl := moves
      exact takes_of_sameView rfl rfl (node.doc.sameView_write now kind id op set)
  | deleteRows now keys =>
      obtain rfl := moves
      exact takes_of_sameView rfl rfl (node.doc.sameView_deleteRowOps now keys)

/-- What arrives was on its way. -/
theorem arriving_subset (node : Node) (event : ClientEvent) :
    node.arriving event ⊆ node.incoming := by
  intro row member
  cases event with
  | receive now =>
      cases head : node.link.bind fun link => link.down.head? with
      | none => simp [arriving, head] at member
      | some frame =>
          obtain ⟨link, onNode, first⟩ := Option.bind_eq_some_iff.mp head
          rw [arriving, head] at member
          exact mem_incoming.mpr
            (Or.inl ⟨link, onNode, frame, List.mem_of_mem_head? first, member⟩)
  | applyPull now => exact mem_incoming.mpr (Or.inr member)
  | _ => cases member

end Node

/-- What is on its way to a client are versions that the room has had. -/
theorem NodeTrue.incoming {room : RegistryRoom} {node : Node} (nodeTrue : NodeTrue room node) :
    ∀ row ∈ node.incoming, Genuine room row := by
  intro row member
  rcases Node.mem_incoming.mp member with ⟨link, onNode, frame, under, listed⟩ | listed
  · have frameTrue := nodeTrue.down link onNode frame under
    cases frame with
    | state frame => exact Answer.genuine frameTrue row listed
    | rows seq rows => exact Broadcast.genuine frameTrue row listed
    | _ => cases listed
  · have syncTrue := nodeTrue.sync
    cases sync : node.sync with
    | fetched since frame =>
        rw [sync] at listed syncTrue
        exact Answer.genuine syncTrue row listed
    | _ => rw [sync] at listed; cases listed

/-! ## What the room sends -/

namespace RegistryRoom

variable {room : RegistryRoom} (invariant : room.Invariant)
include invariant

/-- An answer lists rows of the room. -/
theorem Invariant.found_of_answer {cursor : Option Nat} (listed : row ∈ (room.answer cursor).rows) :
    room.rows[row.key]? = some row := by
  have since : ∃ after, row ∈ room.rowsSince after := by
    simp only [RegistryRoom.answer] at listed
    split at listed
    · exact ⟨_, listed⟩
    · exact ⟨_, listed⟩
  obtain ⟨after, member⟩ := since
  exact ((lists_rowsSince invariant.stored after).mem_iff row |>.mp member).1

/-- A broadcast lists rows of the room after the push. -/
theorem Invariant.found_of_broadcast {frame : Json} {sent : ServerFrame}
    (member : sent ∈ pushBroadcast (room.applyPushBatch frame).2) (listed : row ∈ sent.listed) :
    (room.applyPushBatch frame).1.rows[row.key]? = some row := by
  rcases room.applyPushBatch_cases frame invariant with
    ⟨_, _, result⟩ | ⟨_, ops, read, ⟨_, result⟩ | ⟨_, _, _, pos, lists, result⟩⟩ <;>
    rw [result] at member ⊢
  · cases member
  · simp [pushBroadcast] at member
  · rw [pushBroadcast, if_pos pos] at member
    obtain rfl := List.mem_singleton.mp member
    exact ((lists.mem_iff row).mp listed).1

end RegistryRoom

/-- What the room's steps leave of a client, and put on its way. -/
structure Node.Served (room : RegistryRoom) (node next : Node) : Prop where
  doc : next.doc = node.doc
  pushes : next.pushes ⊆ node.pushes
  incoming : ∀ row ∈ next.incoming, row ∈ node.incoming ∨ room.rows[row.key]? = some row

namespace Node

variable {room : RegistryRoom} {node next : Node}

theorem Served.trans {third : Node} (left : Served room node next)
    (right : Served room next third) : Served room node third where
  doc := right.doc.trans left.doc
  pushes := List.Subset.trans right.pushes left.pushes
  incoming row member := (right.incoming row member).elim (left.incoming row) Or.inr

theorem served_onLink {change : Link → Link}
    (up : ∀ link ∈ node.link, (change link).sent ⊆ link.sent)
    (down : ∀ link ∈ node.link, ∀ frame ∈ (change link).down, frame ∈ link.down ∨
      ∀ row ∈ frame.listed, room.rows[row.key]? = some row) :
    Served room node (node.onLink change) where
  doc := rfl
  pushes := by
    intro push member
    rcases mem_pushes.mp member with pending | ⟨link, onNode, sent⟩ | rest
    · exact mem_pushes.mpr (Or.inl pending)
    · obtain ⟨before, found, rfl⟩ := Option.map_eq_some_iff.mp onNode
      exact mem_pushes.mpr (Or.inr (Or.inl ⟨before, found, up before found sent⟩))
    · exact mem_pushes.mpr (Or.inr (Or.inr rest))
  incoming := by
    intro row member
    rcases mem_incoming.mp member with ⟨link, onNode, frame, under, listed⟩ | listed
    · obtain ⟨before, found, rfl⟩ := Option.map_eq_some_iff.mp onNode
      rcases down before found frame under with old | new
      · exact Or.inl (mem_incoming.mpr (Or.inl ⟨before, found, frame, old, listed⟩))
      · exact Or.inr (new row listed)
    · exact Or.inl (mem_incoming.mpr (Or.inr listed))

theorem served_taken : Served room node node.taken :=
  served_onLink (fun link _ => ((List.tail_sublist link.up).filterMap _).subset)
    (fun _ _ _ member => Or.inl member)

theorem served_closed : Served room node node.closed :=
  served_onLink (fun _ _ => by simp [Link.sent]) (fun _ _ _ member => Or.inl member)

theorem served_send {frame : ServerFrame} (none : frame.listed = []) :
    Served room node (node.send frame) :=
  served_onLink (fun _ _ => List.Subset.refl _) (fun _ _ other member => by
    rcases List.mem_append.mp member with before | sent
    · exact Or.inl before
    · obtain rfl := List.mem_singleton.mp sent
      exact Or.inr (by simp [none]))

theorem served_hear {frames : List ServerFrame}
    (found : ∀ frame ∈ frames, ∀ row ∈ frame.listed, room.rows[row.key]? = some row) :
    Served room node (node.hear frames) :=
  served_onLink (fun link _ => by split <;> exact List.Subset.refl _) (fun link _ other member => by
    split at member
    · rcases List.mem_append.mp member with before | sent
      · exact Or.inl before
      · exact Or.inr (found other sent)
    · exact Or.inl member)

theorem served_greet (invariant : room.Invariant) : Served room node (node.greet room) :=
  served_onLink (fun _ _ => List.Subset.refl _) (fun _ _ other member => by
    rcases List.mem_append.mp member with before | sent
    · exact Or.inl before
    · obtain rfl := List.mem_singleton.mp sent
      exact Or.inr fun row listed => invariant.found_of_answer listed)

theorem served_withSync {sync : Sync}
    (batches : sync.batches ⊆ node.sync.batches)
    (listed : ∀ row ∈ sync.listed, room.rows[row.key]? = some row) :
    Served room node (node.withSync sync) where
  doc := rfl
  pushes := by
    intro push member
    rcases mem_pushes.mp member with pending | sent | batch | stray
    · exact mem_pushes.mpr (Or.inl pending)
    · exact mem_pushes.mpr (Or.inr (Or.inl sent))
    · exact mem_pushes.mpr (Or.inr (Or.inr (Or.inl (List.map_subset _ batches batch))))
    · exact mem_pushes.mpr (Or.inr (Or.inr (Or.inr stray)))
  incoming := by
    intro row member
    rcases mem_incoming.mp member with under | answer
    · exact Or.inl (mem_incoming.mpr (Or.inl under))
    · exact Or.inr (listed row answer)

theorem served_withStray {place : Nat} {stray : Stray} {rest : List Push}
    (found : node.strays[place]? = some stray) (left : rest ⊆ stray.pushes) :
    Served room node (node.withStray place { stray with pushes := rest }) where
  doc := rfl
  pushes := by
    intro push member
    rcases mem_pushes.mp member with pending | sent | batch | ⟨other, present, kept⟩
    · exact mem_pushes.mpr (Or.inl pending)
    · exact mem_pushes.mpr (Or.inr (Or.inl sent))
    · exact mem_pushes.mpr (Or.inr (Or.inr (Or.inl batch)))
    · rcases List.mem_or_eq_of_mem_set present with before | rfl
      · exact mem_pushes.mpr (Or.inr (Or.inr (Or.inr ⟨other, before, kept⟩)))
      · exact mem_pushes.mpr
          (Or.inr (Or.inr (Or.inr ⟨stray, List.mem_of_getElem? found, left kept⟩)))
  incoming _ member := Or.inl member

end Node

/-! ## The room's steps -/

namespace Net

variable {ι : Type}

/-- How the room moves when it serves: not at all, by an alarm, or by a push of
some client. -/
inductive RoomMoves (net : Net ι) : RegistryRoom → Prop
  | stays : RoomMoves net net.room
  | alarm (now : Nat) : RoomMoves net (net.room.alarm now)
  | alarmDone (written : Option Nat) : RoomMoves net (net.room.alarmDone written)
  | push (i : ι) (push : Push) (frame : Json) (mine : push ∈ (net.nodes i).pushes)
      (carries : Carries frame push) : RoomMoves net (net.room.applyPushBatch frame).1

/-- What a step of the room does to it and to every client. -/
structure Serves (net next : Net ι) : Prop where
  room : net.RoomMoves next.room
  node : ∀ i, Node.Served next.room (net.nodes i) (next.nodes i)

section Serves

variable {net next : Net ι}

theorem served_refl (room : RegistryRoom) (node : Node) : Node.Served room node node :=
  ⟨rfl, List.Subset.refl _, fun _ => Or.inl⟩

variable [DecidableEq ι]

variable {change : Node → Node} {i : ι}

theorem serves_modify (served : Node.Served net.room (net.nodes i) (change (net.nodes i))) :
    Serves net (net.modify i change) where
  room := .stays
  node := forall_modify (fun j => Node.Served net.room (net.nodes j))
    (fun _ _ => served_refl _ _) served

theorem Serves.modify (serves : Serves net next)
    (served : Node.Served next.room (next.nodes i) (change (next.nodes i))) :
    Serves net (next.modify i change) where
  room := serves.room
  node := forall_modify (fun j => Node.Served next.room (net.nodes j))
    (fun j _ => serves.node j) ((serves.node i).trans served)

omit [DecidableEq ι] in
/-- A push that was taken off its way is applied and broadcast. -/
theorem serves_accept {taken : Net ι} (same : taken.room = net.room)
    (invariant : net.room.Invariant) {push : Push} {frame : Json}
    (mine : push ∈ (net.nodes i).pushes) (carries : Carries frame push)
    (served : ∀ room j, Node.Served room (net.nodes j) (taken.nodes j)) :
    Serves net (taken.accept frame).1 where
  room := by
    show net.RoomMoves (taken.room.applyPushBatch frame).1
    rw [same]
    exact .push i push frame mine carries
  node j := by
    rw [← same] at invariant
    have heard : Node.Served (taken.accept frame).1.room (taken.nodes j)
        ((taken.accept frame).1.nodes j) :=
      Node.served_hear fun _ member _ listed => invariant.found_of_broadcast member listed
    exact (served _ j).trans heard

theorem served_modify (served : ∀ room, Node.Served room (net.nodes i) (change (net.nodes i)))
    (room : RegistryRoom) (j : ι) :
    Node.Served room (net.nodes j) ((net.modify i change).nodes j) :=
  forall_modify (fun j => Node.Served room (net.nodes j)) (fun _ _ => served_refl _ _)
    (served room) j

theorem socketReply_listed (outcome : Except PushError PushOutcome) :
    (socketReply outcome).listed = [] := by
  cases outcome <;> rfl

theorem serves_step (netTrue : NetTrue net) {event : Event ι}
    (stepped : step net event = some next) (served : ∀ i own, event ≠ .client i own) :
    Serves net next := by
  have moves := moves_of_step stepped
  cases event with
  | client i own => exact absurd rfl (served i own)
  | serve i =>
      obtain ⟨link, onNode, _, ⟨_, _, result⟩ | ⟨push, rest, up, result⟩⟩ := moves <;> rw [result]
      · exact serves_modify (Node.served_taken.trans (Node.served_greet netTrue.room))
      · have taken : Serves net (net.modify i Node.taken) := serves_modify Node.served_taken
        have mine : push ∈ (net.nodes i).pushes :=
          Node.mem_pushes.mpr (Or.inr (Or.inl ⟨link, onNode, by simp [Link.sent, up]⟩))
        rcases net.servePush_cases i link push with result | ⟨error, result⟩ | ⟨_, result⟩ <;>
          rw [result]
        · exact taken.modify Node.served_closed
        · exact taken.modify (Node.served_send rfl)
        · have sameRoom : (net.modify i Node.taken).room = net.room := rfl
          have pushed := serves_accept sameRoom netTrue.room mine push.carries_frame
            (served_modify fun _ => Node.served_taken)
          exact pushed.modify (Node.served_send (socketReply_listed _))
  | serveStray i place =>
      obtain ⟨stray, push, rest, found, pushes, result⟩ := moves
      rw [result]
      have mine : push ∈ (net.nodes i).pushes :=
        Node.mem_pushes.mpr (Or.inr (Or.inr (Or.inr
          ⟨stray, List.mem_of_getElem? found, by simp [pushes]⟩)))
      rcases net.serveStray_cases i place stray push rest with result | result <;> rw [result]
      · exact serves_modify (Node.served_withStray found (List.nil_subset _))
      · have left : rest ⊆ stray.pushes := by simp [pushes]
        have sameRoom : (net.modify i (Node.withStray place { stray with pushes := rest })).room =
            net.room := rfl
        exact serves_accept sameRoom netTrue.room mine (stray.carries_encode push)
          (served_modify fun _ => Node.served_withStray found left)
  | servePost i =>
      obtain ⟨batch, rest, pushing, result⟩ := moves
      rw [result]
      have mine : batch.push ∈ (net.nodes i).pushes :=
        Node.mem_pushes.mpr (Or.inr (Or.inr (Or.inl (by simp [pushing, Sync.batches]))))
      rcases net.servePost_cases i batch rest with result | result <;> rw [result]
      · exact serves_modify (Node.served_withSync (by simp [pushing, Sync.batches])
          (by simp [Sync.listed]))
      · have sameRoom : net.room = net.room := rfl
        have pushed := serves_accept sameRoom netTrue.room mine batch.push.carries_body
          (fun _ _ => served_refl _ _)
        refine pushed.modify (Node.served_withSync ?_ (by simp [Sync.listed]))
        have sameSync : ((net.accept batch.push.body).1.nodes i).sync = (net.nodes i).sync := rfl
        rw [sameSync, pushing]
        exact List.subset_cons_self _ _
  | servePull i =>
      obtain ⟨since, fetching, rfl⟩ := moves
      exact serves_modify (Node.served_withSync (by simp [Sync.batches])
        fun row listed => netTrue.room.found_of_answer listed)
  | alarm now => obtain rfl := moves; exact ⟨.alarm now, fun _ => served_refl _ _⟩
  | alarmDone written => obtain rfl := moves; exact ⟨.alarmDone written, fun _ => served_refl _ _⟩

end Serves

end Net

end Zeron.Registry
