import Zeron.Registry.InFlight

/-!
# What a cursor claims

A replica's cursor claims that the replica has seen everything up to it.  Two
transports move one cursor: a broadcast that has waited on a socket may be older
than a pull that was applied in the meantime, and it is written over the newer
rows all the same; and a delta answers the cursor it was asked from, which a
slow pull may have taken back since.  Apart from these two frames the claim
holds throughout.
-/

namespace Zeron.Registry

open Zeron.Data
open Zeron.Transition
open Zeron.Wire

/-- Every row of the room up to the cursor is held at its stamp or a later one. -/
def CursorSound (room : RegistryRoom) (doc : RegistryDoc) : Prop :=
  ∀ (key : RowKey) (row : RegistryRow), room.rows[key]? = some row → row.seq ≤ doc.cursor →
    ∃ held, doc.authoritative[key]? = some held ∧ row.seq ≤ held.seq

/-! ## The frames that may break it -/

/-- A broadcast at or below the cursor carries no row that the room has stamped
again up to the cursor. -/
def BroadcastTimely (room : RegistryRoom) (doc : RegistryDoc) (seq : Nat)
    (rows : List RegistryRow) : Prop :=
  seq ≤ doc.cursor → ∀ row ∈ rows, ∀ current, room.rows[row.key]? = some current →
    current.seq ≤ doc.cursor → current.seq ≤ seq

/-- If the cursor has been taken back since a delta was asked for, the rows up
to the cursor of that time are held all the same. -/
def AnswerTimely (room : RegistryRoom) (doc : RegistryDoc) (asked : Option Nat)
    (frame : StateFrame) : Prop :=
  frame.full = false → ∀ (key : RowKey) (row : RegistryRow), room.rows[key]? = some row →
    doc.cursor < row.seq → row.seq ≤ asked.getD 0 →
    ∃ held, doc.authoritative[key]? = some held ∧ row.seq ≤ held.seq

def FrameTimely (room : RegistryRoom) (doc : RegistryDoc) (link : Link) : ServerFrame → Prop
  | .state frame => AnswerTimely room doc link.hello frame
  | .rows seq rows => link.joined = true → BroadcastTimely room doc seq rows
  | .ack _ _ _ => True
  | .error _ => True

/-- The frame that a client takes next, if it takes one, is timely. -/
def Node.Timely (room : RegistryRoom) (node : Node) : ClientEvent → Prop
  | .receive _ => ∀ link frame rest, node.link = some link → link.down = frame :: rest →
      FrameTimely room node.doc link frame
  | .applyPull _ => ∀ since frame, node.sync = .fetched since frame →
      AnswerTimely room node.doc (some since) frame
  | _ => True

/-! ## One frame -/

section Frame

variable {room : RegistryRoom} {doc next : RegistryDoc}

theorem cursorSound_congr (same : doc.SameView next) :
    CursorSound room next ↔ CursorSound room doc := by
  unfold CursorSound RegistryDoc.cursor
  rw [same.authoritative_eq, same.serverSeq_eq]

variable (invariant : room.Invariant) (sound : CursorSound room doc)
include invariant sound

theorem cursorSound_applyRows_iff {seq : Nat} {rows : List RegistryRow}
    (broadcast : Broadcast room seq rows) :
    CursorSound room (doc.applyRows seq rows).1 ↔ BroadcastTimely room doc seq rows := by
  unfold CursorSound RegistryDoc.cursor
  rw [RegistryDoc.applyRows_authoritative, RegistryDoc.applyRows_serverSeq]
  constructor
  · intro after old row member current found le
    have holds : seq ≠ doc.serverSeq + 1 := by
      have older : seq ≤ doc.serverSeq := old
      omega
    rw [if_neg holds] at after
    obtain ⟨held, heldFound, heldLe⟩ := after row.key current found le
    rw [getElem?_insertAll_of_mem broadcast.distinct member] at heldFound
    cases heldFound
    rwa [broadcast.stamped row member] at heldLe
  · intro timely key current found le
    by_cases carried : ∃ row ∈ rows, row.key = key
    · obtain ⟨row, member, rfl⟩ := carried
      refine ⟨row, getElem?_insertAll_of_mem broadcast.distinct member _, ?_⟩
      rw [broadcast.stamped row member]
      rcases Nat.lt_or_ge doc.serverSeq seq with newer | older
      · split at le <;> omega
      · rw [if_neg (by omega)] at le
        exact timely older row member current found le
    · have absent : ∀ row ∈ rows, row.key ≠ key := fun row member same =>
        carried ⟨row, member, same⟩
      rw [getElem?_insertAll_of_forall_ne absent]
      -- A present row with the frame's stamp would be in the frame.
      have different : current.seq ≠ seq := fun same =>
        absent current (broadcast.complete key current found same)
          (invariant.stored key current found).key_eq
      apply sound key current found
      show current.seq ≤ doc.serverSeq
      split at le <;> omega

theorem cursorSound_applyState_iff (now : Nat → Nat) {asked : Option Nat} {frame : StateFrame}
    (answer : Answer room asked frame) :
    CursorSound room (doc.applyState now frame).1 ↔ AnswerTimely room doc asked frame := by
  have held_eq : (doc.applyState now frame).1.authoritative =
      insertAll RegistryRow.key (doc.kept frame) frame.rows := RegistryDoc.applyState_authoritative
  -- A present row from before the range of the answer has no version in it.
  have absent : ∀ (key : RowKey) (row : RegistryRow), room.rows[key]? = some row →
      row.seq ≤ frame.after asked → ∀ listed ∈ frame.rows, listed.key ≠ key := by
    rintro key row found low listed member rfl
    have range := answer.range listed member
    rcases (answer.genuine listed member).current row found with older | same
    · omega
    · rw [same] at range
      omega
  unfold CursorSound RegistryDoc.cursor
  rw [held_eq, RegistryDoc.applyState_serverSeq]
  constructor
  · intro after delta key row found _ low
    have after_eq : frame.after asked = asked.getD 0 := by simp [StateFrame.after, delta]
    rw [← after_eq] at low
    obtain ⟨held, heldFound, le⟩ := after key row found (low.trans answer.after_le)
    rw [getElem?_insertAll_of_forall_ne (absent key row found low)] at heldFound
    rw [RegistryDoc.kept, if_neg (by simp [delta])] at heldFound
    exact ⟨held, heldFound, le⟩
  · intro timely key row found le
    have keyEq := (invariant.stored key row found).key_eq
    rcases Nat.lt_or_ge (frame.after asked) row.seq with inRange | low
    · have listed := answer.complete key row found inRange le
      have lookup := getElem?_insertAll_of_mem answer.distinct listed (doc.kept frame)
      rw [keyEq] at lookup
      exact ⟨row, lookup, le_rfl⟩
    · have delta : frame.full = false := by
        by_contra full
        have pos := (invariant.stored key row found).seq_pos
        simp only [Bool.not_eq_false] at full
        simp only [StateFrame.after, full, if_true] at low
        omega
      have after_eq : frame.after asked = asked.getD 0 := by simp [StateFrame.after, delta]
      rw [getElem?_insertAll_of_forall_ne (absent key row found low)]
      rw [RegistryDoc.kept, if_neg (by simp [delta])]
      rcases Nat.lt_or_ge doc.cursor row.seq with ahead | seen
      · exact timely delta key row found ahead (after_eq ▸ low)
      · exact sound key row found seen

end Frame

/-! ## One step -/

theorem cursorSound_step_iff {room : RegistryRoom} {node next : Node} {event : ClientEvent}
    (invariant : room.Invariant) (nodeTrue : NodeTrue room node)
    (sound : CursorSound room node.doc) (stepped : node.step event = some next) :
    CursorSound room next.doc ↔ node.Timely room event := by
  have moves := Node.moves_of_step stepped
  have unmoved : ∀ {doc : RegistryDoc}, node.doc.SameView doc → CursorSound room doc :=
    fun same => (cursorSound_congr same).mpr sound
  cases event with
  | receive now =>
      obtain ⟨link, frame, rest, onNode, head, rfl⟩ := moves
      have only : node.Timely room (.receive now) ↔ FrameTimely room node.doc link frame := by
        constructor
        · exact fun timely => timely link frame rest onNode head
        · intro timely other otherFrame otherRest otherOn otherHead
          cases onNode.symm.trans otherOn
          cases head.symm.trans otherHead
          exact timely
      have frameTrue := nodeTrue.down link onNode frame (by simp [head])
      rw [only]
      cases frame with
      | state frame => exact cursorSound_applyState_iff invariant sound now frameTrue
      | rows seq rows =>
          have applied := cursorSound_applyRows_iff invariant sound frameTrue
          simp only [Node.handleFrame, FrameTimely]
          split
          · rename_i joined
            rw [← applied]
            split <;> rename_i doc result <;> rw [result]
            · simp [Node.withLink, Node.withDoc, show link.joined = true from joined]
            · simp [Node.disconnect, Node.withDoc, show link.joined = true from joined,
                cursorSound_congr doc.sameView_markDisconnected]
          · exact iff_of_true sound fun joined => absurd joined ‹_›
      | ack batch seq applied =>
          refine iff_of_true ?_ trivial
          simp only [Node.handleFrame]
          split
          · exact unmoved (node.doc.sameView_ackBatch batch)
          · exact sound
      | error error => exact iff_of_true sound trivial
  | applyPull now =>
      obtain ⟨since, frame, fetched, rfl⟩ := moves
      have answer := nodeTrue.sync
      rw [fetched] at answer
      refine (cursorSound_applyState_iff invariant sound now answer).trans ?_
      constructor
      · intro timely other otherFrame otherFetched
        cases fetched.symm.trans otherFetched
        exact timely
      · exact fun timely => timely since frame fetched
  | dial => obtain ⟨_, rfl⟩ := moves; exact iff_of_true sound trivial
  | nudge =>
      obtain ⟨link, _, _, rfl⟩ := moves
      exact iff_of_true (unmoved node.doc.sameView_takePushable) trivial
  | drop =>
      obtain ⟨link, _, rfl⟩ := moves
      exact iff_of_true (unmoved node.doc.sameView_markDisconnected) trivial
  | spawnSync => obtain ⟨_, _, rfl⟩ := moves; exact iff_of_true sound trivial
  | startSync =>
      obtain ⟨_, rfl⟩ := moves
      exact iff_of_true (unmoved node.doc.sameView_takePushable) trivial
  | postReply =>
      obtain ⟨reply, rest, _, rfl⟩ := moves
      refine iff_of_true ?_ trivial
      cases reply with
      | some reply => exact unmoved (node.doc.sameView_ackBatch reply.1)
      | none => exact unmoved node.doc.sameView_markDisconnected
  | readCursor => obtain ⟨_, rfl⟩ := moves; exact iff_of_true sound trivial
  | requestFailed =>
      refine iff_of_true ?_ trivial
      rcases Node.requestFailed_cases moves with ⟨strays, rfl⟩ | rfl
      · exact unmoved node.doc.sameView_markDisconnected
      · exact sound
  | write now kind id op set =>
      obtain rfl := moves
      exact iff_of_true (unmoved (node.doc.sameView_write now kind id op set)) trivial
  | deleteRows now keys =>
      obtain rfl := moves
      exact iff_of_true (unmoved (node.doc.sameView_deleteRowOps now keys)) trivial

/-- What the room does later is stamped beyond every cursor. -/
theorem CursorSound.follows {room next : RegistryRoom} {doc : RegistryDoc}
    (sound : CursorSound room doc) (later : room.Follows next) (cursor_le : doc.cursor ≤ room.seq) :
    CursorSound next doc := by
  intro key row found le
  rcases later.rows key row found with before | stamped
  · exact sound key row before le
  · omega

/-! ## Whole runs -/

namespace Net

variable {ι : Type}

/-- No replica's cursor claims a row that the replica lacks or holds in an older version. -/
def CursorsSound (net : Net ι) : Prop :=
  ∀ i, CursorSound net.room (net.nodes i).doc

/-- A client takes no frame too late. -/
def TakesTimely (net : Net ι) : Event ι → Prop
  | .client i event => (net.nodes i).Timely net.room event
  | _ => True

variable [DecidableEq ι]

theorem cursorsSound_step_iff {net next : Net ι} {event : Event ι} (netTrue : NetTrue net)
    (sound : net.CursorsSound) (stepped : step net event = some next) :
    next.CursorsSound ↔ net.TakesTimely event := by
  have later := netTrue.follows stepped
  have unmoved : ∀ j, (∀ own, event ≠ .client j own) → CursorSound next.room (next.nodes j).doc := by
    intro j others
    rw [step_doc stepped j others]
    exact (sound j).follows later (netTrue.node j).cursor_le
  cases event with
  | client i event =>
      obtain ⟨node, moved, rfl⟩ := moves_of_step stepped
      have own := cursorSound_step_iff netTrue.room (netTrue.node i) (sound i) moved
      constructor
      · intro after
        have at_ := after i
        rw [modify_nodes_self] at at_
        exact own.mp at_
      · intro timely
        apply forall_modify (fun _ node => CursorSound net.room node.doc)
        · exact fun j _ => sound j
        · exact own.mpr timely
  | _ => exact iff_of_true (fun j => unmoved j fun _ => by simp) trivial

/-- In every run of the room and its clients, alarms included, the cursors stay
sound exactly as long as no client takes a broadcast or a delta too late. -/
theorem cursors_sound_iff_timely (device : ι → String) (events : List (Event ι)) (net : Net ι)
    (ran : run step (initial device) events = some net) :
    EveryState step CursorsSound (initial device) events ↔
      EveryStep step TakesTimely (initial device) events := by
  have start : CursorsSound (initial device) := by
    intro i key row found
    simp [initial, RegistryRoom.initial] at found
  exact everyState_iff_everyStep (fun netTrue stepped => NetTrue.step netTrue stepped)
    cursorsSound_step_iff (NetTrue.initial device) start ran

/-- A client writes a chat, pushes it and hears of it. -/
theorem cursors_sound_iff_timely_chat :
    let device : Unit → String := fun _ => "a"
    let now : Nat → Nat := fun _ => 1
    let events : List (Event Unit) := [.client () .dial, .serve (), .client () (.receive now),
      .client () (.write now "chats" "c1" .upsert (.ofList [("title", .str "draft")] compare)),
      .client () .nudge, .serve (), .client () (.receive now), .client () (.receive now)]
    ∃ net, run step (initial device) events = some net ∧
      (EveryState step CursorsSound (initial device) events ↔
        EveryStep step TakesTimely (initial device) events) := by
  intro device now events
  have done : (run step (initial device) events).isSome = true := by decide +kernel
  obtain ⟨net, ran⟩ := Option.isSome_iff_exists.mp done
  exact ⟨net, ran, cursors_sound_iff_timely device events net ran⟩

/-- A broadcast waits on the socket of `b` while a pull of the same client
brings the row's next version; then the broadcast is applied, and the cursor
claims the version that it has undone. -/
theorem cursor_claims_undone_row :
    let device : Bool → String := fun second => if second then "b" else "a"
    let now : Nat → Nat := fun _ => 1
    let title (text : String) : FieldMap Json := .ofList [("title", .str text)] compare
    let joins (i : Bool) : List (Event Bool) :=
      [.client i .dial, .serve i, .client i (.receive now)]
    let writes (op : OpKind) (text : String) : List (Event Bool) :=
      [.client false (.write now "chats" "c1" op (title text)), .client false .nudge, .serve false]
    let events : List (Event Bool) :=
      [.client true .spawnSync, .client true .startSync, .client true .readCursor] ++
        joins true ++ joins false ++ writes .upsert "draft" ++ writes .update "final" ++
        [.servePull true, .client true (.applyPull now), .client true (.receive now)]
    ∃ net, run step (initial device) events = some net ∧ ¬net.CursorsSound := by
  intro device now title joins writes events
  let key : RowKey := ⟨"chats", "c1"⟩
  let marks (net : Net Bool) : Nat × Option Nat × Option Nat :=
    let doc := (net.nodes true).doc
    (doc.cursor, net.room.rows[key]?.map (·.seq), doc.authoritative[key]?.map (·.seq))
  have seen : (run step (initial device) events).map marks = some (2, some 2, some 1) := by
    decide +kernel
  obtain ⟨net, ran, marked⟩ := Option.map_eq_some_iff.mp seen
  simp only [marks, Prod.mk.injEq, Option.map_eq_some_iff] at marked
  obtain ⟨cursor, ⟨row, found, rowSeq⟩, ⟨old, oldFound, oldSeq⟩⟩ := marked
  refine ⟨net, ran, fun sound => ?_⟩
  obtain ⟨held, heldFound, le⟩ := sound true key row found (by omega)
  rw [oldFound] at heldFound
  cases heldFound
  omega

end Net

end Zeron.Registry
