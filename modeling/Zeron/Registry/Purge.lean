import Zeron.Registry.Overlay
import Zeron.Registry.Traffic

/-!
# Deletions after their purge

A tombstone is purged a month after the clock of its delete, and `gcFloor` is
raised to its stamp, so that a replica that has missed the delete is answered in
full.  From then on nothing in the room tells a row that was purged from one
that the room has never seen: a full answer without the row makes a replica that
still holds it seed it again, and an upsert from before the delete that is still
on its way creates it anew.  Where neither happens, the row stays away.
-/

namespace Zeron.Registry

open Zeron.Data
open Zeron.Transition
open Zeron.Wire

/-! ## Where a row may live on -/

/-- The replica holds the row as a live one. -/
def HoldsLive (key : RowKey) (doc : RegistryDoc) : Prop :=
  ∃ row, doc.authoritative[key]? = some row ∧ row.deleted = false

/-- The room has no row under the key, or a tombstone. -/
def RowGone (key : RowKey) (room : RegistryRoom) : Prop :=
  ∀ row, room.rows[key]? = some row → row.deleted = true

/-- The client has no upsert of the row that may still reach the room. -/
def NoUpsert (key : RowKey) (node : Node) : Prop :=
  ∀ push ∈ node.pushes, ∀ op ∈ push.ops, op.key = key → op.op ≠ .upsert

/-- The live versions of the row that are on their way to the client are older
than `mark`. -/
def OnlyOlder (key : RowKey) (mark : Nat) (node : Node) : Prop :=
  ∀ row ∈ node.incoming, row.key = key → row.deleted = true ∨ row.seq < mark

/-- A full answer leaves a replica that holds the row live no reason to seed it. -/
def Unseeded (key : RowKey) (doc : RegistryDoc) (frame : StateFrame) : Prop :=
  frame.full = true → HoldsLive key doc →
    doc.cursor ≤ frame.seq ∧ ∃ row ∈ frame.rows, row.key = key

/-- A client that does not hold the row live takes no frame in which it is, one
that does takes no full answer without it, and none upserts it. -/
def Node.Forgoes (key : RowKey) (node : Node) (event : ClientEvent) : Prop :=
  (¬HoldsLive key node.doc → ∀ row ∈ node.arriving event, row.key = key → row.deleted = true) ∧
  match event with
  | .receive _ => ∀ link frame rest, node.link = some link → link.down = .state frame :: rest →
      Unseeded key node.doc frame
  | .applyPull _ => ∀ since frame, node.sync = .fetched since frame → Unseeded key node.doc frame
  | .write _ kind id op _ => op = .upsert → (⟨kind, id⟩ : RowKey) ≠ key
  | _ => True

/-! ## Operations on a row that is gone -/

variable {key : RowKey} {room : RegistryRoom}

theorem RowGone.mergeAll (gone : RowGone key room) {seq : Nat} {ops : List RowOp}
    (noUpsert : ∀ op ∈ ops, op.key = key → op.op ≠ .upsert) :
    ∀ row ∈ (mergeAll seq room.rows ops)[key]?, row.deleted = true := by
  apply mergeAll_induction (fun row => ∀ stored ∈ row, stored.deleted = true) gone
  intro op member keyEq row next before result
  have notUpsert : (Edge.dropInherited op).op ≠ .upsert := noUpsert op member keyEq
  have dead := applyOp_gone notUpsert before
  rw [result] at dead
  rintro _ ⟨⟩
  exact dead next rfl

variable {node : Node}

/-- A client that forgoes the row does not take it up again. -/
theorem holdsLive_of_step {next : Node} {event : ClientEvent} (forgoes : node.Forgoes key event)
    (stepped : node.step event = some next) (holds : HoldsLive key next.doc) :
    HoldsLive key node.doc := by
  by_contra dropped
  obtain ⟨row, found, live⟩ := holds
  rcases (Node.takes_step stepped).held key row found with before | ⟨arrived, keyEq⟩
  · exact dropped ⟨row, before, live⟩
  · rw [forgoes.1 dropped row arrived keyEq] at live
    cases live

/-! ## What the deletion's seq tells

`mark` is the stamp of the tombstone.  A replica whose cursor has reached it has
dropped the row, and an answer that leads a replica there lists the deletion. -/

section Mark

variable (key : RowKey) (mark : Nat)

def AnswerTells (asked : Option Nat) (frame : StateFrame) : Prop :=
  mark ≤ frame.seq → (∀ row ∈ frame.rows, row.key = key → row.deleted = true) ∧
    (frame.full = false → asked.getD 0 < mark → ∃ row ∈ frame.rows, row.key = key)

def FrameTells (asked : Option Nat) : ServerFrame → Prop
  | .state frame => AnswerTells key mark asked frame
  | .rows seq rows => seq = mark → ∃ row ∈ rows, row.key = key
  | _ => True

def SyncTells (doc : RegistryDoc) : Sync → Prop
  | .fetching since => mark ≤ since → ¬HoldsLive key doc
  | .fetched since frame =>
      (mark ≤ since → ¬HoldsLive key doc) ∧ AnswerTells key mark (some since) frame
  | _ => True

structure PastMark (node : Node) : Prop where
  cursor : mark ≤ node.doc.cursor → ¬HoldsLive key node.doc
  hello : ∀ link ∈ node.link, mark ≤ link.hello.getD 0 → ¬HoldsLive key node.doc
  frames : ∀ link ∈ node.link, ∀ frame ∈ link.down, FrameTells key mark link.hello frame
  sync : SyncTells key mark node.doc node.sync

end Mark

variable {doc : RegistryDoc}

/-- Rows that list the key leave no live row under it. -/
theorem not_holdsLive_of_listed {held : Table} {rows : List RegistryRow}
    (written : doc.authoritative = insertAll RegistryRow.key held rows)
    (dead : ∀ row ∈ rows, row.key = key → row.deleted = true)
    (listed : ∃ row ∈ rows, row.key = key) : ¬HoldsLive key doc := by
  rintro ⟨row, found, live⟩
  rw [written] at found
  rcases getElem?_insertAll_eq_some found with ⟨member, keyEq⟩ | ⟨_, absent⟩
  · rw [dead row member keyEq] at live
    cases live
  · obtain ⟨other, member, keyEq⟩ := listed
    exact absent other member keyEq

section PastMark

variable {key : RowKey} {mark : Nat} {node : Node} (past : PastMark key mark node)
include past

theorem PastMark.withDoc (less : HoldsLive key doc → HoldsLive key node.doc)
    (cursor : mark ≤ doc.cursor → ¬HoldsLive key doc) : PastMark key mark (node.withDoc doc) where
  cursor := cursor
  hello link onNode high holds := past.hello link onNode high (less holds)
  frames := past.frames
  sync := by
    have before := past.sync
    show SyncTells key mark doc node.sync
    cases sync : node.sync with
    | fetching since =>
        rw [sync] at before
        exact fun high holds => before high (less holds)
    | fetched since frame =>
        rw [sync] at before
        exact ⟨fun high holds => before.1 high (less holds), before.2⟩
    | _ => trivial

/-- A step that leaves rows and cursor alone. -/
theorem PastMark.sameView (same : node.doc.SameView doc) :
    PastMark key mark (node.withDoc doc) := by
  have less : HoldsLive key doc → HoldsLive key node.doc := by
    unfold HoldsLive
    rw [same.authoritative_eq]
    exact id
  refine past.withDoc less fun high holds => past.cursor ?_ (less holds)
  show mark ≤ node.doc.serverSeq
  rw [← same.serverSeq_eq]
  exact high

theorem PastMark.withLink {link : Link}
    (hello : mark ≤ link.hello.getD 0 → ¬HoldsLive key node.doc)
    (frames : ∀ frame ∈ link.down, FrameTells key mark link.hello frame) :
    PastMark key mark (node.withLink link) where
  cursor := past.cursor
  hello := by rintro other ⟨⟩; exact hello
  frames := by rintro other ⟨⟩; exact frames
  sync := past.sync

theorem PastMark.withSync {sync : Sync} (tells : SyncTells key mark node.doc sync) :
    PastMark key mark (node.withSync sync) :=
  ⟨past.cursor, past.hello, past.frames, tells⟩

theorem PastMark.disconnect (link : Link) : PastMark key mark (node.disconnect link) where
  cursor := past.cursor
  hello := by rintro other ⟨⟩
  frames := by rintro other ⟨⟩
  sync := by
    have before := past.sync
    show SyncTells key mark node.doc.markDisconnected node.sync
    cases sync : node.sync <;> rw [sync] at before <;> exact before

theorem PastMark.onLink {change : Link → Link}
    (hello : ∀ link ∈ node.link, (change link).hello = link.hello)
    (frames : ∀ link ∈ node.link, ∀ frame ∈ (change link).down,
      frame ∈ link.down ∨ FrameTells key mark link.hello frame) :
    PastMark key mark (node.onLink change) where
  cursor := past.cursor
  hello := by
    intro link onNode
    obtain ⟨before, found, rfl⟩ := Option.map_eq_some_iff.mp onNode
    rw [hello before found]
    exact past.hello before found
  frames := by
    intro link onNode frame member
    obtain ⟨before, found, rfl⟩ := Option.map_eq_some_iff.mp onNode
    rw [hello before found]
    exact (frames before found frame member).elim (past.frames before found frame) id
  sync := past.sync

/-- An answer leads no replica that holds the row over the mark. -/
theorem PastMark.applyState {asked : Option Nat} {frame : StateFrame} (now : Nat → Nat)
    (tells : AnswerTells key mark asked frame)
    (asker : mark ≤ asked.getD 0 → ¬HoldsLive key node.doc)
    (unseeded : Unseeded key node.doc frame)
    (less : HoldsLive key (node.doc.applyState now frame).1 → HoldsLive key node.doc) :
    PastMark key mark (node.withDoc (node.doc.applyState now frame).1) := by
  refine past.withDoc less fun high holds => ?_
  have seqHigh : mark ≤ frame.seq := by
    have same : (node.doc.applyState now frame).1.cursor = frame.seq :=
      RegistryDoc.applyState_serverSeq
    rwa [same] at high
  have before := less holds
  obtain ⟨dead, lists⟩ := tells seqHigh
  have listed : ∃ row ∈ frame.rows, row.key = key := by
    cases full : frame.full with
    | true => exact (unseeded full before).2
    | false => exact lists full (Nat.lt_of_not_le fun high => asker high before)
  exact not_holdsLive_of_listed RegistryDoc.applyState_authoritative dead listed holds

theorem PastMark.applyRows {seq : Nat} {rows : List RegistryRow} {asked : Option Nat}
    (dead : seq = mark → ∀ row ∈ rows, row.key = key → row.deleted = true)
    (tells : FrameTells key mark asked (.rows seq rows))
    (less : HoldsLive key (node.doc.applyRows seq rows).1 → HoldsLive key node.doc) :
    PastMark key mark (node.withDoc (node.doc.applyRows seq rows).1) := by
  refine past.withDoc less fun high holds => ?_
  have low : node.doc.cursor < mark :=
    Nat.lt_of_not_le fun high => past.cursor high (less holds)
  have seqEq : seq = mark := by
    have moved := node.doc.applyRows_serverSeq seq rows
    simp only [RegistryDoc.cursor] at high low
    rw [moved] at high
    split at high <;> omega
  exact not_holdsLive_of_listed (node.doc.applyRows_authoritative seq rows) (dead seqEq)
    (tells seqEq) holds

end PastMark

/-! ## One step of a client -/

section Step

variable {key : RowKey} {mark : Nat} {node next : Node} {event : ClientEvent}

theorem PastMark.handleFrame (past : PastMark key mark node) {link : Link} (now : Nat → Nat)
    {frame : ServerFrame} (hello : mark ≤ link.hello.getD 0 → ¬HoldsLive key node.doc)
    (frames : ∀ other ∈ link.down, FrameTells key mark link.hello other)
    (tells : FrameTells key mark link.hello frame)
    (dead : ∀ rows, frame = .rows mark rows → ∀ row ∈ rows, row.key = key → row.deleted = true)
    (unseeded : ∀ answer, frame = .state answer → Unseeded key node.doc answer)
    (less : HoldsLive key (node.handleFrame link now frame).doc → HoldsLive key node.doc) :
    PastMark key mark (node.handleFrame link now frame) := by
  cases frame with
  | state answer =>
      have applied := past.applyState now tells hello (unseeded answer rfl) less
      exact applied.withLink (fun high holds => hello high (less holds)) frames
  | rows seq rows =>
      have lessRows : link.joined = true →
          HoldsLive key (node.doc.applyRows seq rows).1 → HoldsLive key node.doc := by
        intro joined holds
        apply less
        simp only [Node.handleFrame, if_pos joined]
        split <;> rename_i doc result <;> rw [result] at holds <;> exact holds
      simp only [Node.handleFrame] at less ⊢
      split
      · rename_i joined
        have applied : PastMark key mark (node.withDoc (node.doc.applyRows seq rows).1) :=
          past.applyRows (by rintro rfl; exact dead rows rfl) tells (lessRows joined)
        have lessApplied := lessRows joined
        split <;> rename_i doc result <;> rw [result] at applied lessApplied
        · exact applied.withLink (fun high holds => hello high (lessApplied holds)) frames
        · exact applied.disconnect link
      · exact past.withLink hello frames
  | ack batch seq applied =>
      have same := node.doc.sameView_ackBatch batch
      simp only [Node.handleFrame] at less ⊢
      split
      · rename_i joined
        rw [if_pos joined] at less
        exact (past.sameView same).withLink (fun high holds => hello high (less holds)) frames
      · exact past.withLink hello frames
  | error error => exact past.withLink hello frames

theorem PastMark.postDone (past : PastMark key mark node) (reply : Option (String × Nat))
    (rest : List PendingBatch) : PastMark key mark (node.postDone reply rest) := by
  cases reply with
  | some reply => exact (past.sameView (node.doc.sameView_ackBatch reply.1)).withSync trivial
  | none => exact (past.sameView node.doc.sameView_markDisconnected).withSync trivial

theorem PastMark.step (past : PastMark key mark node) (nodeTrue : NodeTrue room node)
    (older : OnlyOlder key mark node) (forgoes : node.Forgoes key event)
    (stepped : node.step event = some next) :
    PastMark key mark next := by
  have less := fun holds => holdsLive_of_step forgoes stepped holds
  have moves := Node.moves_of_step stepped
  cases event with
  | dial =>
      obtain ⟨_, rfl⟩ := moves
      refine past.withLink (fun high => past.cursor ?_) (by simp [Link.dialed])
      simp only [Node.helloCursor] at high
      split at high
      · exact high.trans (Nat.zero_le _)
      · exact high
  | receive now =>
      obtain ⟨link, frame, rest, onNode, head, rfl⟩ := moves
      have frames := past.frames link onNode
      rw [head, List.forall_mem_cons] at frames
      have others : ∀ other ∈ ({ link with down := rest } : Link).down,
          FrameTells key mark link.hello other := frames.2
      refine past.handleFrame now (past.hello link onNode) others frames.1 ?_ ?_ less
      · rintro rows rfl row listed keyEq
        have frameTrue := nodeTrue.down link onNode (.rows mark rows) (by simp [head])
        have stamped : row.seq = mark := Broadcast.stamped frameTrue row listed
        have onWay : row ∈ node.incoming :=
          Node.mem_incoming.mpr (Or.inl ⟨link, onNode, .rows mark rows, by simp [head], listed⟩)
        exact (older row onWay keyEq).resolve_right (by omega)
      · rintro answer rfl
        exact forgoes.2 link answer rest onNode head
  | nudge =>
      obtain ⟨link, onNode, _, rfl⟩ := moves
      exact (past.sameView node.doc.sameView_takePushable).withLink (past.hello link onNode)
        (past.frames link onNode)
  | drop => obtain ⟨link, _, rfl⟩ := moves; exact past.disconnect link
  | spawnSync => obtain ⟨_, _, rfl⟩ := moves; exact past.withSync trivial
  | startSync =>
      obtain ⟨_, rfl⟩ := moves
      exact (past.sameView node.doc.sameView_takePushable).withSync trivial
  | postReply => obtain ⟨reply, rest, _, rfl⟩ := moves; exact past.postDone reply rest
  | readCursor => obtain ⟨_, rfl⟩ := moves; exact past.withSync past.cursor
  | applyPull now =>
      obtain ⟨since, answer, fetched, rfl⟩ := moves
      have tells := past.sync
      rw [fetched] at tells
      have applied := past.applyState now tells.2 tells.1 (forgoes.2 since answer fetched) less
      exact applied.withSync trivial
  | requestFailed =>
      rcases Node.requestFailed_cases moves with ⟨strays, rfl⟩ | rfl
      · have done := past.postDone Option.none []
        exact ⟨done.cursor, done.hello, done.frames, done.sync⟩
      · exact past.withSync trivial
  | write now kind id op set =>
      obtain rfl := moves
      exact past.sameView (node.doc.sameView_write now kind id op set)
  | deleteRows now keys =>
      obtain rfl := moves
      exact past.sameView (node.doc.sameView_deleteRowOps now keys)

/-- Without an upsert of its own, and unless it seeds the row, a client queues none. -/
theorem NoUpsert.step (noUpsert : NoUpsert key node)
    (held : HeldTable room node.doc.authoritative) (forgoes : node.Forgoes key event)
    (stepped : node.step event = some next) : NoUpsert key next := by
  obtain ⟨added, advances, ops_eq⟩ := Node.advances_step stepped
  intro push member op inPush keyEq
  rcases advances.pushes push member with before | new
  · exact noUpsert push before op inPush keyEq
  · obtain ⟨batch, batchMem, rfl⟩ := List.mem_map.mp new
    have queued : op ∈ node.queued event := by
      rw [← ops_eq]
      exact List.mem_flatMap.mpr ⟨batch, batchMem, inPush⟩
    -- A seed of the row is the delete of a tombstone.
    have seedless : ∀ answer, Unseeded key node.doc answer → op ∈ node.doc.seeds answer →
        op.op ≠ .upsert := by
      intro answer unseeded seed
      obtain ⟨full, stored, row, found, rfl, reason⟩ := RegistryDoc.mem_seeds seed
      have rowKey : row.key = key := (rowToSeedOp_key row).symm.trans keyEq
      rw [← (held stored row found).1, rowKey] at found
      cases dead : row.deleted with
      | true => simp [rowToSeedOp, dead]
      | false =>
          obtain ⟨ahead, other, listed, otherKey⟩ := unseeded full ⟨row, found, dead⟩
          rcases reason with behind | unlisted
          · exact absurd behind (Nat.not_lt_of_le ahead)
          · exact absurd (otherKey.trans rowKey.symm) (unlisted other listed)
    cases event with
    | receive now =>
        simp only [Node.queued] at queued
        split at queued
        · rename_i answer head
          obtain ⟨link, onNode, first⟩ := Option.bind_eq_some_iff.mp head
          obtain ⟨rest, down⟩ := List.head?_eq_some_iff.mp first
          exact seedless answer (forgoes.2 link answer rest onNode down) queued
        · cases queued
    | applyPull now =>
        simp only [Node.queued] at queued
        split at queued
        · exact seedless _ (forgoes.2 _ _ ‹_›) queued
        · cases queued
    | write now kind id kindOp set =>
        obtain rfl := List.mem_singleton.mp queued
        exact fun isUpsert => forgoes.2 isUpsert keyEq
    | deleteRows now keys =>
        obtain ⟨key, _, rfl⟩ := List.mem_map.mp queued
        exact fun isUpsert => OpKind.noConfusion isUpsert
    | _ => cases queued

end Step

/-! ## Reads -/

/-- Neither held as a live row nor shown. -/
def Dropped (key : RowKey) (doc : RegistryDoc) : Prop :=
  ¬HoldsLive key doc ∧ doc.overlayRow key = none

/-- A client without an upsert of the row does not show what it does not hold. -/
theorem NoUpsert.dropped (noUpsert : NoUpsert key node) (notHeld : ¬HoldsLive key node.doc) :
    Dropped key node.doc := by
  refine ⟨notHeld, ?_⟩
  have start : ∀ row ∈ node.doc.authoritative[key]?, row.deleted = true := by
    intro row found
    cases dead : row.deleted with
    | true => rfl
    | false => exact absurd ⟨row, found, dead⟩ notHeld
  have pending : ∀ op ∈ node.doc.pendingOps key, op.op ≠ .upsert := by
    intro op member
    obtain ⟨inPending, keyEq⟩ := List.mem_filter.mp member
    obtain ⟨batch, batchMem, inBatch⟩ := List.mem_flatMap.mp inPending
    have mine : batch.push ∈ node.pushes :=
      Node.mem_pushes.mpr (Or.inl (List.mem_map.mpr ⟨batch, batchMem, rfl⟩))
    exact noUpsert batch.push mine op inBatch (of_decide_eq_true keyEq)
  rw [RegistryDoc.overlayRow_eq, Option.filter_eq_none_iff]
  intro shown member
  simp [applyOps_gone pending start shown member]

/-! ## Whole runs -/

theorem answerTells_answer {mark : Nat} (invariant : room.Invariant) (gone : RowGone key room)
    (floor : mark ≤ room.gcFloor) (asked : Option Nat) :
    AnswerTells key mark asked (room.answer asked) := by
  refine fun _ => ⟨?_, fun delta low => ?_⟩
  · rintro row listed rfl
    exact gone row (invariant.found_of_answer listed)
  cases asked with
  | none => simp [RegistryRoom.answer] at delta
  | some cursor =>
      simp only [RegistryRoom.answer, Option.all_some, Bool.or_eq_false_iff, decide_eq_false_iff_not,
        Option.getD_some] at delta low
      omega

theorem keeps_pastMark {mark : Nat} (invariant : room.Invariant) (gone : RowGone key room)
    (floor : mark ≤ room.gcFloor) :
    Net.Keeps room (PastMark key mark) where
  taken _ past := past.onLink (fun _ _ => rfl) fun _ _ _ => Or.inl
  closed _ past := past.onLink (fun _ _ => rfl) fun _ _ _ => Or.inl
  greet _ past := past.onLink (fun _ _ => rfl) fun link _ frame member => by
    rcases List.mem_append.mp member with before | sent
    · exact Or.inl before
    · obtain rfl := List.mem_singleton.mp sent
      exact Or.inr (answerTells_answer invariant gone floor link.hello)
  hear node frame past := past.onLink (fun link _ => by split <;> rfl) fun link _ other member => by
    split at member
    · rcases List.mem_append.mp member with before | heard
      · exact Or.inl before
      · right
        rcases room.applyPushBatch_cases frame invariant with
          ⟨_, _, result⟩ | ⟨_, _, _, ⟨_, result⟩ | ⟨_, _, _, pos, _, result⟩⟩ <;>
          rw [result] at heard
        · cases heard
        · simp [pushBroadcast] at heard
        · rw [pushBroadcast, if_pos pos] at heard
          obtain rfl := List.mem_singleton.mp heard
          intro same
          have same : room.seq + 1 = mark := same
          have high := invariant.gcFloor_le
          omega
    · exact Or.inl member
  refuse _ error past := past.onLink (fun _ _ => rfl) fun _ _ _ member => by
    rcases List.mem_append.mp member with before | sent
    · exact Or.inl before
    · obtain rfl := List.mem_singleton.mp sent
      exact Or.inr trivial
  reply _ frame past := past.onLink (fun _ _ => rfl) fun _ _ _ member => by
    rcases List.mem_append.mp member with before | sent
    · exact Or.inl before
    · obtain rfl := List.mem_singleton.mp sent
      right
      cases (room.applyPushBatch frame).2 <;> trivial
  answer _ _ _ _ _ past := past.withSync trivial
  pull _ since fetching past := past.withSync (by
    have asked := past.sync
    rw [fetching] at asked
    exact ⟨asked, answerTells_answer invariant gone floor (some since)⟩)
  stray _ _ _ past := ⟨past.cursor, past.hello, past.frames, past.sync⟩

namespace Net

variable {ι : Type}

/-- What keeps a purged row away. -/
structure StaysGone (key : RowKey) (mark : Nat) (net : Net ι) : Prop where
  room : RowGone key net.room
  floor : mark ≤ net.room.gcFloor
  noUpsert : ∀ i, NoUpsert key (net.nodes i)
  older : ∀ i, OnlyOlder key mark (net.nodes i)
  past : ∀ i, PastMark key mark (net.nodes i)

/-- Every client forgoes the row. -/
def Forgoes (key : RowKey) (net : Net ι) : Event ι → Prop
  | .client i event => (net.nodes i).Forgoes key event
  | _ => True

/-- Without an upsert on its way, the row stays gone from the room. -/
theorem RoomMoves.gone {net : Net ι} (moves : net.RoomMoves room) (invariant : net.room.Invariant)
    (gone : RowGone key net.room) (noUpsert : ∀ i, NoUpsert key (net.nodes i)) :
    RowGone key room ∧ net.room.gcFloor ≤ room.gcFloor := by
  cases moves with
  | stays => exact ⟨gone, le_rfl⟩
  | alarm now =>
      unfold RegistryRoom.alarm
      split
      · refine ⟨fun row found => ?_, ?_⟩
        · rw [RegistryRoom.getElem?_collectTombstones invariant] at found
          exact gone row (Option.filter_eq_some_iff.mp found).1
        · rw [RegistryRoom.collectTombstones_eq invariant]
          exact Nat.le_max_left _ _
      · exact ⟨gone, le_rfl⟩
  | alarmDone written => exact ⟨gone, le_rfl⟩
  | push i push frame mine carries =>
      rcases net.room.applyPushBatch_cases frame invariant with
        ⟨_, _, result⟩ | ⟨batch, ops, read, ⟨_, result⟩ | ⟨_, _, _, _, _, result⟩⟩ <;> rw [result]
      · exact ⟨gone, le_rfl⟩
      · exact ⟨gone, le_rfl⟩
      · obtain ⟨_, rfl⟩ := carries batch ops read
        exact ⟨gone.mergeAll fun op => noUpsert i push mine op, le_rfl⟩

variable [DecidableEq ι]

theorem StaysGone.step {mark : Nat} {net next : Net ι} {event : Event ι} (netTrue : NetTrue net)
    (stays : StaysGone key mark net) (forgoes : net.Forgoes key event)
    (stepped : step net event = some next) : StaysGone key mark next := by
  by_cases served : ∀ i own, event ≠ .client i own
  · obtain ⟨moves, node⟩ := serves_step netTrue stepped served
    obtain ⟨gone, raised⟩ := moves.gone netTrue.room stays.room stays.noUpsert
    have keeps := keeps_pastMark netTrue.room stays.room stays.floor
    constructor
    · exact gone
    · exact stays.floor.trans raised
    · exact fun i push member => stays.noUpsert i push ((node i).pushes member)
    · rintro i row member rfl
      rcases (node i).incoming row member with before | sent
      · exact stays.older i row before rfl
      · exact Or.inl (gone row sent)
    · exact Keeps.step (fun _ => keeps) stays.past stepped served
  · push Not at served
    obtain ⟨i, own, rfl⟩ := served
    obtain ⟨node, moved, rfl⟩ := moves_of_step stepped
    have nodeTrue := netTrue.node i
    constructor
    · exact stays.room
    · exact stays.floor
    · exact forall_modify (fun _ => NoUpsert key) (fun j _ => stays.noUpsert j)
        ((stays.noUpsert i).step nodeTrue.held forgoes moved)
    · exact forall_modify (fun _ => OnlyOlder key mark) (fun j _ => stays.older j)
        fun row member => stays.older i row ((Node.takes_step moved).incoming member)
    · exact forall_modify (fun _ => PastMark key mark) (fun j _ => stays.past j)
        ((stays.past i).step nodeTrue (stays.older i) forgoes moved)

end Net

/-! ## The purge -/

/-- The cursor that a pull was asked with. -/
def Sync.asked : Sync → Option Nat
  | .fetching since => some since
  | .fetched since _ => some since
  | _ => none

/-- The client has passed `mark`, or has told the room so. -/
def Node.Past (mark : Nat) (node : Node) : Prop :=
  mark ≤ node.doc.cursor ∨ (∃ link ∈ node.link, mark ≤ link.hello.getD 0) ∨
    ∃ since ∈ node.sync.asked, mark ≤ since

/-- Nothing of the client brings a row back that was deleted at `mark`. -/
structure Quiet (key : RowKey) (mark : Nat) (node : Node) : Prop where
  noUpsert : NoUpsert key node
  past : node.Past mark → ¬HoldsLive key node.doc

section Purge

variable {key : RowKey} {room : RegistryRoom} {tombstone : RegistryRow}
  (found : room.rows[key]? = some tombstone) (dead : tombstone.deleted = true)
include found

/-- The versions of the row that are not the tombstone are older. -/
theorem Genuine.older {row : RegistryRow} (genuine : Genuine room row) (keyEq : row.key = key) :
    row.seq < tombstone.seq ∨ row = tombstone :=
  genuine.current tombstone (keyEq ▸ found)

include dead

theorem Answer.tells {asked : Option Nat} {frame : StateFrame} (answer : Answer room asked frame)
    (stored : tombstone.key = key) : AnswerTells key tombstone.seq asked frame := by
  intro high
  refine ⟨fun row listed keyEq => ?_, fun delta low => ?_⟩
  · rcases (answer.genuine row listed).older found keyEq with older | rfl
    · have after := (answer.range row listed).1
      have both := answer.complete key tombstone found (by omega) high
      have one := getElem?_insertAll_of_mem answer.distinct listed (∅ : Table)
      have other := getElem?_insertAll_of_mem answer.distinct both (∅ : Table)
      rw [keyEq] at one
      rw [stored, one] at other
      rw [Option.some.inj other, dead]
    · exact dead
  · have after : frame.after asked = asked.getD 0 := by simp [StateFrame.after, delta]
    exact ⟨tombstone, answer.complete key tombstone found (by omega) high, stored⟩

theorem NodeTrue.pastMark (nodeTrue : NodeTrue room node) (stored : tombstone.key = key)
    (past : node.Past tombstone.seq → ¬HoldsLive key node.doc) :
    PastMark key tombstone.seq node where
  cursor high := past (Or.inl high)
  hello link onNode high := past (Or.inr (Or.inl ⟨link, onNode, high⟩))
  frames link onNode frame under := by
    have frameTrue := nodeTrue.down link onNode frame under
    cases frame with
    | state frame => exact Answer.tells found dead frameTrue stored
    | rows seq rows =>
        rintro rfl
        exact ⟨tombstone, Broadcast.complete frameTrue key tombstone found rfl, stored⟩
    | _ => trivial
  sync := by
    have syncTrue := nodeTrue.sync
    cases sync : node.sync with
    | fetching since =>
        exact fun high => past (Or.inr (Or.inr ⟨since, by simp [sync, Sync.asked], high⟩))
    | fetched since frame =>
        rw [sync] at syncTrue
        exact ⟨fun high => past (Or.inr (Or.inr ⟨since, by simp [sync, Sync.asked], high⟩)),
          Answer.tells found dead syncTrue stored⟩
    | _ => trivial

theorem NodeTrue.onlyOlder (nodeTrue : NodeTrue room node) : OnlyOlder key tombstone.seq node := by
  intro row member keyEq
  rcases (nodeTrue.incoming row member).older found keyEq with older | rfl
  · exact Or.inr older
  · exact Or.inl dead

end Purge

namespace Net

variable {ι : Type} [DecidableEq ι]

/-- The alarm that purges the deletion leaves the row gone. -/
theorem staysGone_alarm {net purged : Net ι} {tombstone : RegistryRow} {now : Nat}
    (netTrue : NetTrue net) (found : net.room.rows[key]? = some tombstone)
    (collected : step net (.alarm now) = some purged) (gone : purged.room.rows[key]? = none)
    (quiet : ∀ i, Quiet key tombstone.seq (purged.nodes i)) :
    StaysGone key tombstone.seq purged := by
  obtain rfl : purged = { net with room := net.room.alarm now } := moves_of_step collected
  have invariant := netTrue.room
  have stored := (invariant.stored key tombstone found).key_eq
  -- The row is gone, so the room was dirty and the tombstone out of retention.
  have dirty : net.room.alarm now = net.room.collectTombstones now := by
    unfold RegistryRoom.alarm at gone ⊢
    split at gone
    · exact if_pos ‹_›
    · exact absurd (found.symm.trans gone) (by simp)
  have purge : RegistryRoom.isPurged (RegistryRoom.horizonHlc now) tombstone = true := by
    have filtered := RegistryRoom.getElem?_collectTombstones invariant now key
    rw [← dirty, gone, found] at filtered
    simpa using (Option.filter_eq_none_iff.mp filtered.symm) tombstone rfl
  have dead : tombstone.deleted = true := (Bool.and_eq_true_iff.mp purge).1
  constructor
  · intro row rowFound
    exact absurd (rowFound.symm.trans gone) (by simp)
  · show tombstone.seq ≤ (net.room.alarm now).gcFloor
    rw [dirty, RegistryRoom.collectTombstones_eq invariant]
    exact (RegistryRoom.purgedMaxSeq_le_iff.mp le_rfl key tombstone found purge).trans (Nat.le_max_right _ _)
  · exact fun i => (quiet i).noUpsert
  · exact fun i => (netTrue.node i).onlyOlder found dead
  · exact fun i => (netTrue.node i).pastMark found dead stored (quiet i).past

/-- The row is gone from the room, and shown neither by a client past the
deletion nor by one that did not hold it in the system `before`. -/
structure StaysAway (key : RowKey) (mark : Nat) (before net : Net ι) : Prop where
  room : RowGone key net.room
  passed : ∀ i, mark ≤ (net.nodes i).doc.cursor → Dropped key (net.nodes i).doc
  dropped : ∀ i, ¬HoldsLive key (before.nodes i).doc → Dropped key (net.nodes i).doc

/-- After the purge of a deletion the row stays away at every moment, as long as
nothing older is left that upserts it and every client forgoes it. -/
theorem purged_deletion_stays_away {key : RowKey} (device : ι → String)
    (before first second : List (Event ι)) {net purged middle final : Net ι}
    {tombstone : RegistryRow} {now : Nat}
    (ran : run step (initial device) before = some net)
    (found : net.room.rows[key]? = some tombstone)
    (collected : step net (.alarm now) = some purged) (gone : purged.room.rows[key]? = none)
    (quiet : ∀ i, Quiet key tombstone.seq (purged.nodes i))
    (forgoes : EveryStep step (Forgoes key) purged (first ++ second))
    (ranFirst : run step purged first = some middle)
    (ranSecond : run step middle second = some final) :
    StaysAway key tombstone.seq middle final := by
  have netTrue : NetTrue net :=
    run_invariant (fun netTrue stepped => NetTrue.step netTrue stepped) (NetTrue.initial device) ran
  have start : NetTrue purged ∧ StaysGone key tombstone.seq purged :=
    ⟨netTrue.step collected, staysGone_alarm netTrue found collected gone quiet⟩
  have kept : ∀ {state next : Net ι} {event}, NetTrue state ∧ StaysGone key tombstone.seq state →
      state.Forgoes key event → step state event = some next →
      NetTrue next ∧ StaysGone key tombstone.seq next :=
    fun stays guarded stepped =>
      ⟨stays.1.step stepped, StaysGone.step stays.1 stays.2 guarded stepped⟩
  have atMiddle := run_invariant_of_everyStep kept start forgoes.left ranFirst
  have rest := forgoes.right ranFirst
  have atFinal := run_invariant_of_everyStep kept atMiddle rest ranSecond
  constructor
  · exact atFinal.2.room
  · exact fun i high => (atFinal.2.noUpsert i).dropped ((atFinal.2.past i).cursor high)
  · intro i notHeld
    apply (atFinal.2.noUpsert i).dropped
    have still : ∀ {state next : Net ι} {event}, ¬HoldsLive key (state.nodes i).doc →
        state.Forgoes key event → step state event = some next →
        ¬HoldsLive key (next.nodes i).doc := by
      intro state next event notHeld guarded stepped
      by_cases own : ∃ moved, event = .client i moved
      · obtain ⟨moved, rfl⟩ := own
        obtain ⟨node, movedTo, rfl⟩ := moves_of_step stepped
        rw [modify_nodes_self]
        exact fun holds => notHeld (holdsLive_of_step guarded movedTo holds)
      · rw [step_doc stepped i fun moved same => own ⟨moved, same⟩]
        exact notHeld
    exact run_invariant_of_everyStep still notHeld rest ranSecond

/-- `b` has heard of the deletion, and comes back after its purge. -/
theorem purged_deletion_stays_away_chat :
    let device : Bool → String := fun second => if second then "b" else "a"
    let now : Nat → Nat := fun _ => 1
    let key : RowKey := ⟨"chats", "c1"⟩
    let hears (i : Bool) : Event Bool := .client i (.receive now)
    let joins (i : Bool) : List (Event Bool) := [.client i .dial, .serve i, hears i]
    let before : List (Event Bool) := joins false ++ joins true ++
      [.client false (.write now "chats" "c1" .upsert (.ofList [("title", .str "draft")] compare)),
        .client false .nudge, .serve false, hears false, hears false, hears true,
        .client false (.deleteRows now [key]), .client false .nudge, .serve false,
        hears false, hears false, hears true, .client true .drop]
    ∃ net purged final tombstone, run step (initial device) before = some net ∧
      net.room.rows[key]? = some tombstone ∧
      step net (.alarm (RegistryRoom.tombstoneRetainMs + 2)) = some purged ∧
      run step purged (joins true) = some final ∧ StaysAway key tombstone.seq purged final := by
  intro device now key hears joins before
  let alarm : Event Bool := .alarm (RegistryRoom.tombstoneRetainMs + 2)
  let dials : List (Event Bool) := [.client true .dial, .serve true]
  have isFound : (run step (initial device) before).any
      (fun net => decide (net.room.rows[key]? ≠ none)) = true := by
    decide +kernel
  obtain ⟨net, ranBefore, present⟩ := (Option.any_eq_true _ _).mp isFound
  obtain ⟨tombstone, found⟩ := Option.ne_none_iff_exists'.mp (of_decide_eq_true present)
  obtain ⟨purged, collected⟩ : ∃ purged, step net alarm = some purged := ⟨_, rfl⟩
  have ranPurged : run step (initial device) (before ++ [alarm]) = some purged :=
    run_append_eq_some_iff.mpr ⟨net, ranBefore, run_cons_eq_some_iff.mpr ⟨purged, collected, rfl⟩⟩
  have isQuiet : (run step (initial device) (before ++ [alarm])).any (fun net => decide
      (net.room.rows[key]? = none ∧ ∀ i, (net.nodes i).doc.authoritative[key]?.all (·.deleted) ∧
        ∀ push ∈ (net.nodes i).pushes, ∀ op ∈ push.ops, op.op ≠ .upsert)) = true := by
    decide +kernel
  have isUnseeded : (run step (initial device) (before ++ [alarm] ++ dials)).any (fun net => decide
      ((net.nodes true).link.bind (fun link => link.down.head?) =
        some (.state ⟨2, false, 2, []⟩))) = true := by
    decide +kernel
  rw [ranPurged] at isQuiet
  obtain ⟨gone, calm⟩ := of_decide_eq_true (by simpa only [Option.any_some] using isQuiet)
  obtain ⟨dialed, ranDials, answered⟩ := (Option.any_eq_true _ _).mp isUnseeded
  rw [run_append, ranPurged] at ranDials
  have notHeld : ∀ i, ¬HoldsLive key (purged.nodes i).doc := by
    rintro i ⟨row, held, live⟩
    have dead := (calm i).1
    rw [held] at dead
    simp [live] at dead
  have quiet : ∀ i, Quiet key tombstone.seq (purged.nodes i) := fun i =>
    ⟨fun push member op inPush _ => (calm i).2 push member op inPush, fun _ => notHeld i⟩
  have forgoes : EveryStep step (Forgoes key) purged ([] ++ joins true) := by
    refine ⟨⟨fun _ row arrived => ?_, trivial⟩, fun first stepped => ⟨trivial,
      fun second stepped' => ⟨?_, fun _ _ => trivial⟩⟩⟩
    · cases arrived
    · have same : run step purged dials = some second := by
        simp [dials, run_cons, stepped, stepped']
      obtain rfl := Option.some.inj (ranDials.symm.trans same)
      have head := of_decide_eq_true answered
      refine ⟨fun _ row arrived => ?_, fun link frame rest onNode down full => ?_⟩
      · simp [Node.arriving, head, ServerFrame.listed] at arrived
      · simp only [onNode, Option.bind_some, down, List.head?_cons, Option.some.injEq,
          ServerFrame.state.injEq] at head
        rw [head] at full
        cases full
  have arrives : (run step (initial device) (before ++ [alarm] ++ joins true)).isSome = true := by
    decide +kernel
  obtain ⟨final, ran⟩ := Option.isSome_iff_exists.mp arrives
  rw [run_append, ranPurged] at ran
  exact ⟨net, purged, final, tombstone, ranBefore, found, collected, ran,
    purged_deletion_stays_away device before [] (joins true) ranBefore found collected gone quiet
      forgoes rfl ran⟩

/-- `b` is away while the deletion is made and purged, takes the full answer for a
loss of the server, and seeds the row again. -/
theorem purged_deletion_comes_back :
    let device : Bool → String := fun second => if second then "b" else "a"
    let now : Nat → Nat := fun _ => 1
    let key : RowKey := ⟨"chats", "c1"⟩
    let hears (i : Bool) : Event Bool := .client i (.receive now)
    let joins (i : Bool) : List (Event Bool) := [.client i .dial, .serve i, hears i]
    let deletes : List (Event Bool) := joins false ++ joins true ++
      [.client false (.write now "chats" "c1" .upsert (.ofList [("title", .str "draft")] compare)),
        .client false .nudge, .serve false, hears false, hears false, hears true, .client true .drop,
        .client false (.deleteRows now [key]), .client false .nudge, .serve false]
    let purge : Event Bool := .alarm (RegistryRoom.tombstoneRetainMs + 2)
    let returns : List (Event Bool) := joins true ++ [.client true .nudge, .serve true]
    ∃ net purged final, run step (initial device) deletes = some net ∧
      net.room.rows[key]?.map (·.deleted) = some true ∧
      step net purge = some purged ∧ purged.room.rows[key]?.isNone = true ∧
      run step purged returns = some final ∧
      final.room.rows[key]?.map (·.deleted) = some false ∧
      ((final.nodes true).doc.overlayRow key).isSome = true := by
  intro device now key hears joins deletes purge returns
  have before : (run step (initial device) deletes).any (fun net =>
      net.room.rows[key]?.map (·.deleted) = some true) = true := by
    decide +kernel
  have between : (run step (initial device) (deletes ++ [purge])).any (fun net =>
      net.room.rows[key]?.isNone) = true := by
    decide +kernel
  have after : (run step (initial device) (deletes ++ [purge] ++ returns)).any (fun net =>
      net.room.rows[key]?.map (·.deleted) = some false ∧
        ((net.nodes true).doc.overlayRow key).isSome = true) = true := by
    decide +kernel
  obtain ⟨net, ran, deleted⟩ := (Option.any_eq_true _ _).mp before
  obtain ⟨purged, ranPurge, gone⟩ := (Option.any_eq_true _ _).mp between
  obtain ⟨final, ranBack, back⟩ := (Option.any_eq_true _ _).mp after
  rw [run_append, ranPurge] at ranBack
  rw [run_append, ran] at ranPurge
  have collected : step net purge = some purged := ranPurge
  obtain ⟨live, shown⟩ := of_decide_eq_true back
  exact ⟨net, purged, final, ran, of_decide_eq_true deleted, collected, gone, ranBack, live, shown⟩
end Net

end Zeron.Registry
