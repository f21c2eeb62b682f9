import Zeron.Registry.Batch
import Zeron.Registry.Network

/-!
# Frames in flight

A frame tells the truth about the room that sent it.  What it still says about
the room of a later moment is an invariant: its rows are versions that the room
has had, and a present row whose stamp lies in the range that the frame speaks
about is in the frame.  Pushes and alarms keep this; a reset would not.
-/

namespace Zeron.Registry

open Zeron.Data
open Zeron.Transition
open Zeron.Wire

/-! ## Later rooms -/

/-- A later room without a reset in between: a row that has changed is stamped anew. -/
structure RegistryRoom.Follows (room next : RegistryRoom) : Prop where
  seq_le : room.seq ≤ next.seq
  rows : ∀ (key : RowKey) (row : RegistryRow), next.rows[key]? = some row →
    room.rows[key]? = some row ∨ room.seq < row.seq

/-- A version of a row that the room has had. -/
structure Genuine (room : RegistryRoom) (row : RegistryRow) : Prop where
  seq_le : row.seq ≤ room.seq
  current : ∀ current, room.rows[row.key]? = some current →
    row.seq < current.seq ∨ row = current

/-- The rows of a broadcast: all that are stamped with its seq. -/
structure Broadcast (room : RegistryRoom) (seq : Nat) (rows : List RegistryRow) : Prop where
  seq_le : seq ≤ room.seq
  stamped : ∀ row ∈ rows, row.seq = seq
  genuine : ∀ row ∈ rows, Genuine room row
  complete : ∀ (key : RowKey) (row : RegistryRow), room.rows[key]? = some row → row.seq = seq →
    row ∈ rows
  distinct : rows.Pairwise fun first second => first.key ≠ second.key

/-- The stamp after which an answer to `cursor` lists the rows. -/
def StateFrame.after (frame : StateFrame) (cursor : Option Nat) : Nat :=
  if frame.full then 0 else cursor.getD 0

/-- The answer to a cursor: all rows stamped in the range it speaks about. -/
structure Answer (room : RegistryRoom) (cursor : Option Nat) (frame : StateFrame) : Prop where
  seq_le : frame.seq ≤ room.seq
  after_le : frame.after cursor ≤ frame.seq
  range : ∀ row ∈ frame.rows, frame.after cursor < row.seq ∧ row.seq ≤ frame.seq
  genuine : ∀ row ∈ frame.rows, Genuine room row
  complete : ∀ (key : RowKey) (row : RegistryRow), room.rows[key]? = some row →
    frame.after cursor < row.seq → row.seq ≤ frame.seq → row ∈ frame.rows
  distinct : frame.rows.Pairwise fun first second => first.key ≠ second.key

variable {room : RegistryRoom}

namespace RegistryRoom

theorem Follows.rfl : room.Follows room :=
  ⟨le_rfl, fun _ _ found => Or.inl found⟩

theorem Invariant.follows_applyPushBatch (invariant : room.Invariant) (frame : Json) :
    room.Follows (room.applyPushBatch frame).1 := by
  rcases room.applyPushBatch_cases frame invariant with
    ⟨_, _, result⟩ | ⟨_, ops, read, ⟨_, result⟩ | ⟨_, _, _, _, _, result⟩⟩ <;> rw [result]
  · exact .rfl
  · exact .rfl
  · refine ⟨Nat.le_succ _, fun key row found => ?_⟩
    rcases getElem?_mergeAll_eq_some (invariant.stored.mono (Nat.le_succ room.seq))
      (accepted_of_readBatch read) (Nat.succ_pos _) found with before | stamped
    · exact Or.inl before
    · exact Or.inr (by omega)

theorem Invariant.follows_alarm (invariant : room.Invariant) (now : Nat) :
    room.Follows (room.alarm now) := by
  unfold RegistryRoom.alarm
  split
  · refine ⟨?_, fun key row found => Or.inl ?_⟩
    · rw [collectTombstones_eq invariant]
    · rw [getElem?_collectTombstones invariant] at found
      exact (Option.filter_eq_some_iff.mp found).1
  · exact .rfl

end RegistryRoom

variable {rows : List RegistryRow}

section Follows

variable {room next : RegistryRoom} (later : room.Follows next)
include later

theorem Genuine.follows {row : RegistryRow} (genuine : Genuine room row) : Genuine next row where
  seq_le := genuine.seq_le.trans later.seq_le
  current current found := by
    rcases later.rows _ current found with before | stamped
    · exact genuine.current current before
    · exact Or.inl (Nat.lt_of_le_of_lt genuine.seq_le stamped)

theorem Broadcast.follows {seq : Nat} (broadcast : Broadcast room seq rows) :
    Broadcast next seq rows where
  seq_le := broadcast.seq_le.trans later.seq_le
  stamped := broadcast.stamped
  genuine row member := (broadcast.genuine row member).follows later
  complete key row found seqEq := by
    rcases later.rows key row found with before | stamped
    · exact broadcast.complete key row before seqEq
    · exact absurd broadcast.seq_le (by omega)
  distinct := broadcast.distinct

theorem Answer.follows {cursor : Option Nat} {frame : StateFrame}
    (answer : Answer room cursor frame) : Answer next cursor frame where
  seq_le := answer.seq_le.trans later.seq_le
  after_le := answer.after_le
  range := answer.range
  genuine row member := (answer.genuine row member).follows later
  complete key row found low high := by
    rcases later.rows key row found with before | stamped
    · exact answer.complete key row before low high
    · exact absurd answer.seq_le (by omega)
  distinct := answer.distinct

end Follows

/-! ## Frames as they are sent -/

namespace RegistryRoom

variable {room : RegistryRoom} (invariant : room.Invariant)
include invariant

theorem Invariant.genuine {key : RowKey} {row : RegistryRow}
    (found : room.rows[key]? = some row) : Genuine room row where
  seq_le := (invariant.stored key row found).seq_le
  current current currentFound := by
    rw [(invariant.stored key row found).key_eq, found] at currentFound
    exact Or.inr (Option.some.inj currentFound)

theorem Invariant.answer (cursor : Option Nat) : Answer room cursor (room.answer cursor) := by
  have after_eq : (room.answer cursor).rows = room.rowsSince ((room.answer cursor).after cursor) := by
    have rows_eq : (room.answer cursor).rows =
        if (room.answer cursor).full then room.rowsSince 0
        else room.rowsSince (cursor.getD 0) := rfl
    rw [rows_eq, StateFrame.after]
    split <;> rfl
  have lists := lists_rowsSince invariant.stored ((room.answer cursor).after cursor)
  have seq_eq : (room.answer cursor).seq = room.seq := rfl
  constructor
  · exact le_rfl
  · cases cursor with
    | none => simp [StateFrame.after]
    | some cursor =>
        simp only [StateFrame.after, RegistryRoom.answer, Option.all_some, Option.getD_some,
          Bool.or_eq_true, decide_eq_true_eq]
        split <;> omega
  · intro row member
    rw [after_eq, lists.mem_iff] at member
    exact ⟨of_decide_eq_true member.2, (invariant.stored _ row member.1).seq_le⟩
  · intro row member
    rw [after_eq, lists.mem_iff] at member
    exact invariant.genuine member.1
  · intro key row found low _
    rw [after_eq, lists.mem_iff, (invariant.stored key row found).key_eq]
    exact ⟨found, decide_eq_true low⟩
  · rw [after_eq]
    exact lists.distinct

/-- What an accepted frame broadcasts. -/
theorem Invariant.broadcast {frame : Json} {outcome : PushOutcome}
    (accepted : (room.applyPushBatch frame).2 = .ok outcome) (applied : 0 < outcome.applied) :
    Broadcast (room.applyPushBatch frame).1 outcome.seq outcome.rows := by
  have nextInvariant := invariant.applyPushBatch frame
  rcases room.applyPushBatch_cases frame invariant with
    ⟨_, _, result⟩ | ⟨_, ops, read, ⟨_, result⟩ | ⟨_, _, _, _, lists, result⟩⟩ <;>
    rw [result] at accepted nextInvariant ⊢
  · cases accepted
  · cases accepted
    exact absurd applied (Nat.lt_irrefl 0)
  · cases accepted
    constructor
    · exact le_rfl
    · intro row member
      exact of_decide_eq_true ((lists.mem_iff row).mp member).2
    · intro row member
      exact nextInvariant.genuine ((lists.mem_iff row).mp member).1
    · intro key row found seqEq
      rw [lists.mem_iff, (nextInvariant.stored key row found).key_eq]
      exact ⟨found, decide_eq_true seqEq⟩
    · exact lists.distinct

end RegistryRoom

/-! ## What is known of a node at all times -/

/-- The rows held are under their keys, versions that the room has had. -/
def HeldTable (room : RegistryRoom) (held : Table) : Prop :=
  ∀ (key : RowKey) (row : RegistryRow), held[key]? = some row → row.key = key ∧ Genuine room row

/-- What a frame on a link says about the room. -/
def FrameTrue (room : RegistryRoom) (link : Link) : ServerFrame → Prop
  | .state frame => Answer room link.hello frame
  | .rows seq rows => Broadcast room seq rows
  | .ack _ _ _ => True
  | .error _ => True

/-- What the answer of a sync cycle says about the room. -/
def SyncTrue (room : RegistryRoom) : Sync → Prop
  | .fetched since frame => Answer room (some since) frame
  | _ => True

structure NodeTrue (room : RegistryRoom) (node : Node) : Prop where
  cursor_le : node.doc.cursor ≤ room.seq
  held : HeldTable room node.doc.authoritative
  down : ∀ link ∈ node.link, ∀ frame ∈ link.down, FrameTrue room link frame
  sync : SyncTrue room node.sync

variable {frame : ServerFrame}

section Follows

variable {room next : RegistryRoom} (later : room.Follows next)
include later

theorem FrameTrue.follows {link : Link} (frameTrue : FrameTrue room link frame) :
    FrameTrue next link frame := by
  cases frame with
  | state frame => exact Answer.follows later frameTrue
  | rows seq rows => exact Broadcast.follows later frameTrue
  | ack batch seq applied => trivial
  | error error => trivial

theorem NodeTrue.follows {node : Node} (nodeTrue : NodeTrue room node) : NodeTrue next node where
  cursor_le := nodeTrue.cursor_le.trans later.seq_le
  held key row found :=
    ⟨(nodeTrue.held key row found).1, (nodeTrue.held key row found).2.follows later⟩
  down link onNode frame member := (nodeTrue.down link onNode frame member).follows later
  sync := by
    have before := nodeTrue.sync
    cases sync : node.sync with
    | fetched since frame =>
        rw [sync] at before
        exact Answer.follows later before
    | _ => trivial

end Follows

section Node

variable {room : RegistryRoom} {node : Node}

theorem HeldTable.insertAll {held : Table} (table : HeldTable room held)
    (genuine : ∀ row ∈ rows, Genuine room row) :
    HeldTable room (insertAll RegistryRow.key held rows) := by
  intro key row found
  rcases getElem?_insertAll_eq_some found with ⟨member, keyEq⟩ | ⟨before, _⟩
  · exact ⟨keyEq, genuine row member⟩
  · exact table key row before

theorem heldTable_empty : HeldTable room ∅ := by
  intro key row found
  simp at found

theorem HeldTable.kept {doc : RegistryDoc} (table : HeldTable room doc.authoritative)
    (frame : StateFrame) : HeldTable room (doc.kept frame) := by
  unfold RegistryDoc.kept
  split
  · exact heldTable_empty
  · exact table

variable (nodeTrue : NodeTrue room node)
include nodeTrue

theorem NodeTrue.withDoc {doc : RegistryDoc} (same : node.doc.SameView doc) :
    NodeTrue room (node.withDoc doc) where
  cursor_le := by
    show doc.serverSeq ≤ room.seq
    rw [same.serverSeq_eq]
    exact nodeTrue.cursor_le
  held := by
    show HeldTable room doc.authoritative
    rw [same.authoritative_eq]
    exact nodeTrue.held
  down := nodeTrue.down
  sync := nodeTrue.sync

theorem NodeTrue.applyState (now : Nat → Nat) {cursor : Option Nat} {frame : StateFrame}
    (answer : Answer room cursor frame) :
    NodeTrue room (node.withDoc (node.doc.applyState now frame).1) where
  cursor_le := by
    show (node.doc.applyState now frame).1.serverSeq ≤ room.seq
    rw [RegistryDoc.applyState_serverSeq]
    exact answer.seq_le
  held := by
    show HeldTable room (node.doc.applyState now frame).1.authoritative
    rw [RegistryDoc.applyState_authoritative]
    exact (nodeTrue.held.kept frame).insertAll answer.genuine
  down := nodeTrue.down
  sync := nodeTrue.sync

theorem NodeTrue.applyRows {seq : Nat} (broadcast : Broadcast room seq rows) :
    NodeTrue room (node.withDoc (node.doc.applyRows seq rows).1) where
  cursor_le := by
    show (node.doc.applyRows seq rows).1.serverSeq ≤ room.seq
    rw [RegistryDoc.applyRows_serverSeq]
    split
    · exact broadcast.seq_le
    · exact nodeTrue.cursor_le
  held := by
    show HeldTable room (node.doc.applyRows seq rows).1.authoritative
    rw [RegistryDoc.applyRows_authoritative]
    exact nodeTrue.held.insertAll broadcast.genuine
  down := nodeTrue.down
  sync := nodeTrue.sync

theorem NodeTrue.withSync {sync : Sync} (syncTrue : SyncTrue room sync) :
    NodeTrue room (node.withSync sync) :=
  ⟨nodeTrue.cursor_le, nodeTrue.held, nodeTrue.down, syncTrue⟩

theorem NodeTrue.withLink {link : Link}
    (down : ∀ frame ∈ link.down, FrameTrue room link frame) : NodeTrue room (node.withLink link) where
  cursor_le := nodeTrue.cursor_le
  held := nodeTrue.held
  down := by
    rintro other ⟨⟩
    exact down
  sync := nodeTrue.sync

theorem NodeTrue.disconnect (link : Link) : NodeTrue room (node.disconnect link) where
  cursor_le := nodeTrue.cursor_le
  held := nodeTrue.held
  down := by rintro other ⟨⟩
  sync := nodeTrue.sync

theorem NodeTrue.onLink {change : Link → Link}
    (changed : ∀ link ∈ node.link, ∀ frame ∈ (change link).down,
      FrameTrue room (change link) frame) : NodeTrue room (node.onLink change) where
  cursor_le := nodeTrue.cursor_le
  held := nodeTrue.held
  down := by
    intro link onNode
    obtain ⟨before, found, rfl⟩ := Option.map_eq_some_iff.mp onNode
    exact changed before found
  sync := nodeTrue.sync

theorem NodeTrue.handleFrame {link : Link} (down : ∀ frame ∈ link.down, FrameTrue room link frame)
    (now : Nat → Nat) (frameTrue : FrameTrue room link frame) :
    NodeTrue room (node.handleFrame link now frame) := by
  cases frame with
  | state frame =>
      apply (nodeTrue.applyState now frameTrue).withLink
      intro other member
      have before := down other member
      cases other <;> exact before
  | rows seq rows =>
      have applied := nodeTrue.applyRows frameTrue
      simp only [Node.handleFrame]
      split
      · split <;> rename_i doc result <;> rw [result] at applied
        · exact applied.withLink down
        · exact applied.disconnect link
      · exact nodeTrue.withLink down
  | ack batch seq applied =>
      simp only [Node.handleFrame]
      split
      · exact (nodeTrue.withDoc (node.doc.sameView_ackBatch batch)).withLink down
      · exact nodeTrue.withLink down
  | error error => exact nodeTrue.withLink down

theorem NodeTrue.postDone (reply : Option (String × Nat)) (rest : List PendingBatch) :
    NodeTrue room (node.postDone reply rest) := by
  cases reply with
  | some reply =>
      have acked := nodeTrue.withDoc (node.doc.sameView_ackBatch reply.1)
      exact acked.withSync trivial
  | none =>
      have disconnected := nodeTrue.withDoc node.doc.sameView_markDisconnected
      exact disconnected.withSync trivial

theorem NodeTrue.step {next : Node} {event : ClientEvent}
    (stepped : node.step event = some next) : NodeTrue room next := by
  have moves := Node.moves_of_step stepped
  cases event with
  | dial =>
      obtain ⟨_, rfl⟩ := moves
      exact nodeTrue.withLink (by simp [Link.dialed])
  | receive now =>
      obtain ⟨link, frame, rest, onNode, head, rfl⟩ := moves
      have down := nodeTrue.down link onNode
      rw [head, List.forall_mem_cons] at down
      have rest_true : ∀ other ∈ rest, FrameTrue room { link with down := rest } other := by
        intro other member
        have before := down.2 other member
        cases other <;> exact before
      apply nodeTrue.handleFrame rest_true
      cases frame <;> exact down.1
  | nudge =>
      obtain ⟨link, onNode, _, rfl⟩ := moves
      have pushed := nodeTrue.withDoc node.doc.sameView_takePushable
      apply pushed.withLink
      intro frame member
      have before := nodeTrue.down link onNode frame member
      cases frame <;> exact before
  | drop =>
      obtain ⟨link, _, rfl⟩ := moves
      exact nodeTrue.disconnect link
  | spawnSync =>
      obtain ⟨_, _, rfl⟩ := moves
      exact nodeTrue.withSync trivial
  | startSync =>
      obtain ⟨_, rfl⟩ := moves
      exact (nodeTrue.withDoc node.doc.sameView_takePushable).withSync trivial
  | postReply =>
      obtain ⟨reply, rest, _, rfl⟩ := moves
      exact nodeTrue.postDone reply rest
  | readCursor =>
      obtain ⟨_, rfl⟩ := moves
      exact nodeTrue.withSync trivial
  | applyPull now =>
      obtain ⟨since, frame, fetched, rfl⟩ := moves
      have answer := nodeTrue.sync
      rw [fetched] at answer
      exact (nodeTrue.applyState now answer).withSync trivial
  | requestFailed =>
      rcases Node.requestFailed_cases moves with ⟨strays, rfl⟩ | rfl
      · have done := nodeTrue.postDone none []
        exact ⟨done.cursor_le, done.held, done.down, done.sync⟩
      · exact nodeTrue.withSync trivial
  | write now kind id op set =>
      obtain rfl := moves
      exact nodeTrue.withDoc (node.doc.sameView_write now kind id op set)
  | deleteRows now keys =>
      obtain rfl := moves
      exact nodeTrue.withDoc (node.doc.sameView_deleteRowOps now keys)

theorem NodeTrue.taken : NodeTrue room node.taken :=
  nodeTrue.onLink fun link onNode frame member => by
    have before := nodeTrue.down link onNode frame member
    cases frame <;> exact before

theorem NodeTrue.closed : NodeTrue room node.closed :=
  nodeTrue.onLink fun link onNode frame member => by
    have before := nodeTrue.down link onNode frame member
    cases frame <;> exact before

theorem NodeTrue.send (frameTrue : ∀ link, FrameTrue room link frame) :
    NodeTrue room (node.send frame) :=
  nodeTrue.onLink fun link onNode other member => by
    rcases List.mem_append.mp member with before | sent
    · have down := nodeTrue.down link onNode other before
      cases other <;> exact down
    · obtain rfl := List.mem_singleton.mp sent
      exact frameTrue _

theorem NodeTrue.hear {frames : List ServerFrame}
    (framesTrue : ∀ frame ∈ frames, ∀ link, FrameTrue room link frame) :
    NodeTrue room (node.hear frames) :=
  nodeTrue.onLink fun link onNode other member => by
    split at member
    · rename_i ready
      rw [if_pos ready]
      rcases List.mem_append.mp member with before | heard
      · have down := nodeTrue.down link onNode other before
        cases other <;> exact down
      · exact framesTrue other heard _
    · rename_i notReady
      rw [if_neg notReady]
      exact nodeTrue.down link onNode other member

theorem NodeTrue.withStray (place : Nat) (stray : Stray) :
    NodeTrue room (node.withStray place stray) :=
  ⟨nodeTrue.cursor_le, nodeTrue.held, nodeTrue.down, nodeTrue.sync⟩

theorem NodeTrue.greet (invariant : room.Invariant) : NodeTrue room (node.greet room) :=
  nodeTrue.onLink fun link onNode other member => by
    rcases List.mem_append.mp member with before | sent
    · have down := nodeTrue.down link onNode other before
      cases other <;> exact down
    · obtain rfl := List.mem_singleton.mp sent
      exact invariant.answer link.hello

end Node

/-! ## What is known of the system at all times -/

structure NetTrue {ι : Type} (net : Net ι) : Prop where
  room : net.room.Invariant
  node : ∀ i, NodeTrue net.room (net.nodes i)

theorem Broadcast.frameTrue (invariant : room.Invariant) (frame : Json) :
    ∀ sent ∈ pushBroadcast (room.applyPushBatch frame).2, ∀ link,
      FrameTrue (room.applyPushBatch frame).1 link sent := by
  intro sent member link
  cases outcome : (room.applyPushBatch frame).2 with
  | error error =>
      rw [outcome] at member
      cases member
  | ok pushed =>
      rw [outcome] at member
      simp only [pushBroadcast] at member
      split at member
      · obtain rfl := List.mem_singleton.mp member
        exact invariant.broadcast outcome ‹_›
      · cases member

/-- The answer to a push says nothing about the rows. -/
theorem NodeTrue.reply {node : Node} (nodeTrue : NodeTrue room node)
    (outcome : Except PushError PushOutcome) : NodeTrue room (node.send (socketReply outcome)) := by
  cases outcome with
  | ok outcome => exact nodeTrue.send fun _ => trivial
  | error error => exact nodeTrue.send fun _ => trivial

namespace NetTrue

variable {ι : Type} {net : Net ι} (netTrue : NetTrue net)

theorem initial (device : ι → String) : NetTrue (Net.initial device) where
  room := RegistryRoom.invariant_initial
  node _ := ⟨le_rfl, heldTable_empty, by rintro link ⟨⟩, trivial⟩

include netTrue

theorem accept (frame : Json) : NetTrue (net.accept frame).1 where
  room := netTrue.room.applyPushBatch frame
  node i :=
    ((netTrue.node i).follows (netTrue.room.follows_applyPushBatch frame)).hear
      (Broadcast.frameTrue netTrue.room frame)

theorem withRoom (invariant : room.Invariant) (later : net.room.Follows room) :
    NetTrue { net with room } where
  room := invariant
  node i := (netTrue.node i).follows later

variable [DecidableEq ι]

theorem modify {i : ι} {change : Node → Node}
    (changed : NodeTrue net.room (change (net.nodes i))) : NetTrue (net.modify i change) where
  room := netTrue.room
  node := Net.forall_modify (fun _ => NodeTrue net.room) (fun j _ => netTrue.node j) changed

theorem servePush (i : ι) (link : Link) (push : Push) : NetTrue (net.servePush i link push) := by
  have taken := netTrue.modify (netTrue.node i).taken
  rcases net.servePush_cases i link push with result | ⟨error, result⟩ | ⟨_, result⟩ <;> rw [result]
  · exact taken.modify (taken.node i).closed
  · exact taken.modify ((taken.node i).send fun _ => trivial)
  · have pushed := taken.accept push.frame
    have replied := (pushed.node i).reply (net.room.applyPushBatch push.frame).2
    exact pushed.modify replied

theorem servePost (i : ι) (batch : PendingBatch) (rest : List PendingBatch) :
    NetTrue (net.servePost i batch rest) := by
  rcases net.servePost_cases i batch rest with result | result <;> rw [result]
  · exact netTrue.modify ((netTrue.node i).withSync trivial)
  · have pushed := netTrue.accept batch.push.body
    exact pushed.modify ((pushed.node i).withSync trivial)

theorem serveStray (i : ι) (place : Nat) (stray : Stray) (push : Push) (rest : List Push) :
    NetTrue (net.serveStray i place stray push rest) := by
  rcases net.serveStray_cases i place stray push rest with result | result <;> rw [result]
  · exact netTrue.modify ((netTrue.node i).withStray place _)
  · exact (netTrue.modify ((netTrue.node i).withStray place _)).accept _

theorem step {next : Net ι} {event : Event ι} (stepped : Net.step net event = some next) :
    NetTrue next := by
  have moves := Net.moves_of_step stepped
  cases event with
  | client i event =>
      obtain ⟨node, moved, rfl⟩ := moves
      exact netTrue.modify ((netTrue.node i).step moved)
  | serve i =>
      obtain ⟨link, _, _, ⟨_, _, result⟩ | ⟨push, _, _, result⟩⟩ := moves <;> rw [result]
      · exact netTrue.modify ((netTrue.node i).taken.greet netTrue.room)
      · exact netTrue.servePush i link push
  | serveStray i place =>
      obtain ⟨stray, push, rest, _, _, result⟩ := moves
      rw [result]
      exact netTrue.serveStray i place stray push rest
  | servePost i =>
      obtain ⟨batch, rest, _, result⟩ := moves
      rw [result]
      exact netTrue.servePost i batch rest
  | servePull i =>
      obtain ⟨since, _, rfl⟩ := moves
      exact netTrue.modify ((netTrue.node i).withSync (netTrue.room.answer (some since)))
  | alarm now =>
      obtain rfl := moves
      exact netTrue.withRoom (netTrue.room.alarm now) (netTrue.room.follows_alarm now)
  | alarmDone written =>
      obtain rfl := moves
      exact netTrue.withRoom (netTrue.room.alarmDone written) ⟨le_rfl, fun _ _ found => Or.inl found⟩

/-- The room of a later system follows the earlier one. -/
theorem follows {next : Net ι} {event : Event ι} (stepped : Net.step net event = some next) :
    net.room.Follows next.room := by
  have moves := Net.moves_of_step stepped
  cases event with
  | client i event =>
      obtain ⟨node, _, rfl⟩ := moves
      exact .rfl
  | serve i =>
      obtain ⟨link, _, _, ⟨_, _, result⟩ | ⟨push, _, _, result⟩⟩ := moves <;> rw [result]
      · exact .rfl
      · rcases net.servePush_cases i link push with result | ⟨error, result⟩ | ⟨_, result⟩ <;>
          rw [result]
        · exact .rfl
        · exact .rfl
        · exact netTrue.room.follows_applyPushBatch push.frame
  | serveStray i place =>
      obtain ⟨stray, push, rest, _, _, result⟩ := moves
      rw [result]
      rcases net.serveStray_cases i place stray push rest with result | result <;> rw [result]
      · exact .rfl
      · exact netTrue.room.follows_applyPushBatch (stray.encode push)
  | servePost i =>
      obtain ⟨batch, rest, _, result⟩ := moves
      rw [result]
      rcases net.servePost_cases i batch rest with result | result <;> rw [result]
      · exact .rfl
      · exact netTrue.room.follows_applyPushBatch batch.push.body
  | servePull i =>
      obtain ⟨since, _, rfl⟩ := moves
      exact .rfl
  | alarm now => obtain rfl := moves; exact netTrue.room.follows_alarm now
  | alarmDone written => obtain rfl := moves; exact ⟨le_rfl, fun _ _ found => Or.inl found⟩

end NetTrue

end Zeron.Registry
