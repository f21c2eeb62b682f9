import Zeron.Registry.Doc
import Zeron.Transition.Run

/-!
# The room and its clients

One room, any number of clients, and everything between them.  A client reaches
the room over one socket at a time, whose two directions are queues, and over
single HTTPS requests: a sync cycle posts the pending batches one by one and
then pulls the rows since its cursor.  The cycle starts while no socket is up,
but it runs beside the sockets dialed after that.

A client that gives up a connection loses what was still on its way to it.
What it had sent may yet reach the room.
-/

namespace Zeron.Registry

open Zeron.Data
open Zeron.Transition
open Zeron.Wire

/-! ## Frames -/

/-- A batch as it is sent. -/
structure Push where
  batch : String
  ops : List RowOp

namespace Push

/-- The `push` frame of a socket. -/
def frame (push : Push) : Json :=
  pushFrame push.batch push.ops

/-- The body of `POST /push`. -/
def body (push : Push) : Json :=
  .obj [("batch", .str push.batch), ("ops", .arr (push.ops.map encodeOp))]

end Push

/-- A batch is pushed by its id and operations. -/
def PendingBatch.push (pending : PendingBatch) : Push :=
  { batch := pending.batch, ops := pending.ops }

/-- `ClientFrame`, presence and probes left out. -/
inductive ClientFrame where
  /-- The cursor in it is the `hello` of the link. -/
  | hello
  | push (push : Push)

/-- `ServerFrame`, presence and probe answers left out. -/
inductive ServerFrame where
  | state (frame : StateFrame)
  | rows (seq : Nat) (rows : List RegistryRow)
  | ack (batch : String) (seq applied : Nat)
  | error (error : PushError)
  deriving DecidableEq

/-- `MAX_FRAME_BYTES`, of a socket frame and of a posted body. -/
def maxFrameBytes : Nat := 1000000

/-! ## Connections -/

/-- A socket, as the client that dialed it knows it. -/
structure Link where
  /-- The cursor of the hello frame. -/
  hello : Option Nat
  up : List ClientFrame
  down : List ServerFrame
  /-- The room has taken the hello. -/
  ready : Bool
  /-- The client has applied the state frame. -/
  joined : Bool
  /-- The room has closed the socket. -/
  closed : Bool

/-- One HTTPS sync cycle. -/
inductive Sync where
  | idle
  | spawned
  /-- The first batch is on its way to the room; after the last one comes the pull. -/
  | pushing (batches : List PendingBatch)
  /-- The reply to a POST is on its way back, an ack or an error. -/
  | answered (reply : Option (String × Nat)) (rest : List PendingBatch)
  /-- The pull is on its way to the room. -/
  | fetching (since : Nat)
  /-- The answer is on its way back. -/
  | fetched (since : Nat) (frame : StateFrame)

/-- Pushes on their way on a connection that the client has given up. -/
structure Stray where
  posted : Bool
  pushes : List Push

/-- How a stray push is written. -/
def Stray.encode (stray : Stray) (push : Push) : Json :=
  if stray.posted then push.body else push.frame

structure Node where
  doc : RegistryDoc
  link : Option Link
  sync : Sync
  strays : List Stray

/-- Everything that is sent to a new link. -/
def Link.dialed (hello : Option Nat) : Link :=
  { hello, up := [.hello], down := [], ready := false, joined := false, closed := false }

/-- The pushes on the way up a socket. -/
def Link.sent (link : Link) : List Push :=
  link.up.filterMap fun
    | .hello => none
    | .push push => some push

/-- The pushes that the room will still take from a socket. -/
def Link.pushes (link : Link) : List Push :=
  if link.closed then [] else link.sent

namespace Node

def offline (doc : RegistryDoc) : Node :=
  { doc, link := none, sync := .idle, strays := [] }

def withDoc (node : Node) (doc : RegistryDoc) : Node :=
  { node with doc }

def withLink (node : Node) (link : Link) : Node :=
  { node with link := some link }

def withSync (node : Node) (sync : Sync) : Node :=
  { node with sync }

/-! ## The client's side -/

/-- The cursor that a hello carries: none on a replica that has done nothing yet. -/
def helloCursor (doc : RegistryDoc) : Option Nat :=
  if doc.cursor = 0 ∧ doc.pending.length = 0 ∧ doc.generation = 0 then none else some doc.cursor

/-- The end of a session. -/
def disconnect (node : Node) (link : Link) : Node :=
  { node with
    doc := node.doc.markDisconnected
    link := none
    strays := node.strays ++ [{ posted := false, pushes := link.pushes }] }

/-- `push_pending`. -/
def pushPending (node : Node) (link : Link) : Node :=
  let (doc, batches) := node.doc.takePushable
  let frames : List ClientFrame := batches.map fun batch => .push batch.push
  (node.withDoc doc).withLink { link with up := link.up ++ frames }

/-- `handle_frame`; during the handshake everything but the state is skipped. -/
def handleFrame (node : Node) (link : Link) (now : Nat → Nat) (frame : ServerFrame) : Node :=
  match frame with
  | .state frame =>
      (node.withDoc (node.doc.applyState now frame).1).withLink { link with joined := true }
  | .rows seq rows =>
      if link.joined then
        match node.doc.applyRows seq rows with
        | (doc, true) => (node.withDoc doc).withLink link
        -- Frames were missed: reconnect, the next hello pulls the gap.
        | (doc, false) => (node.withDoc doc).disconnect link
      else node.withLink link
  | .ack batch _ _ =>
      if link.joined then (node.withDoc (node.doc.ackBatch batch)).withLink link
      else node.withLink link
  | .error _ => node.withLink link

/-- The outcome of a POST is known. -/
def postDone (node : Node) (reply : Option (String × Nat)) (rest : List PendingBatch) : Node :=
  match reply with
  | some (batch, _) => (node.withDoc (node.doc.ackBatch batch)).withSync (.pushing rest)
  -- A failed push ends the flush: everything is pushable again, and the pull follows.
  | none => (node.withDoc node.doc.markDisconnected).withSync (.pushing [])

/-- A request fails, or its answer is lost or unreadable. -/
def requestFailed (node : Node) : Option Node :=
  match node.sync with
  | .pushing (batch :: _) =>
      some { node.postDone none [] with
        strays := node.strays ++ [{ posted := true, pushes := [batch.push] }] }
  | .answered _ _ => some (node.postDone none [])
  | .fetching _ | .fetched _ _ => some (node.withSync .idle)
  | _ => none

end Node

/-- What a client does by itself. -/
inductive ClientEvent where
  | dial
  | receive (now : Nat → Nat)
  | nudge
  | drop
  | spawnSync
  | startSync
  | postReply
  | readCursor
  | applyPull (now : Nat → Nat)
  | requestFailed
  | write (now : Nat → Nat) (kind id : String) (op : OpKind) (set : FieldMap Json)
  | deleteRows (now : Nat → Nat) (keys : List RowKey)

namespace Node

def step (node : Node) : ClientEvent → Option Node
  | .dial =>
      match node.link with
      | none => some (node.withLink (.dialed (helloCursor node.doc)))
      | some _ => none
  | .receive now =>
      match node.link with
      | some link =>
          match link.down with
          | frame :: rest => some (node.handleFrame { link with down := rest } now frame)
          | [] => none
      | none => none
  | .nudge =>
      match node.link with
      | some link => if link.joined then some (node.pushPending link) else none
      | none => none
  | .drop => node.link.map node.disconnect
  | .spawnSync =>
      match node.link, node.sync with
      | none, .idle => some (node.withSync .spawned)
      | _, _ => none
  | .startSync =>
      match node.sync with
      | .spawned =>
          let (doc, batches) := node.doc.takePushable
          some ((node.withDoc doc).withSync (.pushing batches))
      | _ => none
  | .postReply =>
      match node.sync with
      | .answered reply rest => some (node.postDone reply rest)
      | _ => none
  | .readCursor =>
      match node.sync with
      | .pushing [] => some (node.withSync (.fetching node.doc.cursor))
      | _ => none
  | .applyPull now =>
      match node.sync with
      | .fetched _ frame =>
          some ((node.withDoc (node.doc.applyState now frame).1).withSync .idle)
      | _ => none
  | .requestFailed => node.requestFailed
  | .write now kind id op set => some (node.withDoc (node.doc.write now kind id op set))
  | .deleteRows now keys => some (node.withDoc (node.doc.deleteRowOps now keys))

/-- What each event asks for, and the node it leaves. -/
def Moves (node : Node) : ClientEvent → Node → Prop
  | .dial, next => node.link = none ∧ next = node.withLink (.dialed (helloCursor node.doc))
  | .receive now, next => ∃ link frame rest, node.link = some link ∧ link.down = frame :: rest ∧
      next = node.handleFrame { link with down := rest } now frame
  | .nudge, next => ∃ link, node.link = some link ∧ link.joined = true ∧
      next = node.pushPending link
  | .drop, next => ∃ link, node.link = some link ∧ next = node.disconnect link
  | .spawnSync, next => node.link = none ∧ node.sync = .idle ∧ next = node.withSync .spawned
  | .startSync, next => node.sync = .spawned ∧
      next = (node.withDoc node.doc.takePushable.1).withSync (.pushing node.doc.takePushable.2)
  | .postReply, next => ∃ reply rest, node.sync = .answered reply rest ∧
      next = node.postDone reply rest
  | .readCursor, next => node.sync = .pushing [] ∧ next = node.withSync (.fetching node.doc.cursor)
  | .applyPull now, next => ∃ since frame, node.sync = .fetched since frame ∧
      next = (node.withDoc (node.doc.applyState now frame).1).withSync .idle
  | .requestFailed, next => node.requestFailed = some next
  | .write now kind id op set, next => next = node.withDoc (node.doc.write now kind id op set)
  | .deleteRows now keys, next => next = node.withDoc (node.doc.deleteRowOps now keys)

theorem moves_of_step {node next : Node} {event : ClientEvent}
    (stepped : node.step event = some next) : node.Moves event next := by
  cases event with
  | dial =>
      simp only [step] at stepped
      split at stepped <;> cases stepped
      exact ⟨‹_›, rfl⟩
  | receive now =>
      simp only [step] at stepped
      split at stepped
      · split at stepped <;> cases stepped
        exact ⟨_, _, _, ‹_›, ‹_›, rfl⟩
      · cases stepped
  | nudge =>
      simp only [step] at stepped
      split at stepped
      · split at stepped <;> cases stepped
        exact ⟨_, ‹_›, ‹_›, rfl⟩
      · cases stepped
  | drop =>
      obtain ⟨link, found, rfl⟩ := Option.map_eq_some_iff.mp stepped
      exact ⟨link, found, rfl⟩
  | spawnSync =>
      simp only [step] at stepped
      split at stepped <;> cases stepped
      exact ⟨‹_›, ‹_›, rfl⟩
  | startSync =>
      simp only [step] at stepped
      split at stepped <;> cases stepped
      exact ⟨‹_›, rfl⟩
  | postReply =>
      simp only [step] at stepped
      split at stepped <;> cases stepped
      exact ⟨_, _, ‹_›, rfl⟩
  | readCursor =>
      simp only [step] at stepped
      split at stepped <;> cases stepped
      exact ⟨‹_›, rfl⟩
  | applyPull now =>
      simp only [step] at stepped
      split at stepped <;> cases stepped
      exact ⟨_, _, ‹_›, rfl⟩
  | requestFailed => exact stepped
  | write now kind id op set => cases stepped; rfl
  | deleteRows now keys => cases stepped; rfl

/-- A failed request leaves the cycle at its pull or at its end. -/
theorem requestFailed_cases {node next : Node} (failed : node.requestFailed = some next) :
    (∃ strays, next = { node.postDone none [] with strays }) ∨ next = node.withSync .idle := by
  unfold requestFailed at failed
  split at failed
  · exact Or.inl ⟨_, (Option.some.inj failed).symm⟩
  · exact Or.inl ⟨_, (Option.some.inj failed).symm⟩
  · exact Or.inr (Option.some.inj failed).symm
  · exact Or.inr (Option.some.inj failed).symm
  · cases failed

/-! ## What the room does to a client's connections -/

def onLink (node : Node) (change : Link → Link) : Node :=
  { node with link := node.link.map change }

/-- The room puts a frame on the socket. -/
def send (frame : ServerFrame) (node : Node) : Node :=
  node.onLink fun link => { link with down := link.down ++ [frame] }

/-- A broadcast reaches the sockets that are ready. -/
def hear (frames : List ServerFrame) (node : Node) : Node :=
  node.onLink fun link => if link.ready then { link with down := link.down ++ frames } else link

/-- The room takes the next frame off the socket. -/
def taken (node : Node) : Node :=
  node.onLink fun link => { link with up := link.up.tail }

def closed (node : Node) : Node :=
  node.onLink fun link => { link with up := [], ready := false, closed := true }

/-- What is left of a stray connection. -/
def withStray (place : Nat) (stray : Stray) (node : Node) : Node :=
  { node with strays := node.strays.set place stray }

/-- `handleHello`. -/
def greet (room : RegistryRoom) (node : Node) : Node :=
  node.onLink fun link =>
    { link with ready := true, down := link.down ++ [.state (room.answer link.hello)] }

end Node

/-- The broadcast of a push: nothing when it is rejected or no operation applied. -/
def pushBroadcast : Except PushError PushOutcome → List ServerFrame
  | .ok outcome => if 0 < outcome.applied then [.rows outcome.seq outcome.rows] else []
  | .error _ => []

/-- The answer to a push on its own socket. -/
def socketReply : Except PushError PushOutcome → ServerFrame
  | .ok outcome => .ack outcome.batch outcome.seq outcome.applied
  | .error error => .error error

/-- What the client reads from the answer to a POST. -/
def postReply : Except PushError PushOutcome → Option (String × Nat)
  | .ok outcome => some (outcome.batch, outcome.seq)
  | .error _ => none

/-! ## The whole system -/

structure Net (ι : Type) where
  room : RegistryRoom
  nodes : ι → Node

/-- One step of a client, or the room handling what has reached it. -/
inductive Event (ι : Type) where
  | client (i : ι) (event : ClientEvent)
  | serve (i : ι)
  | serveStray (i : ι) (stray : Nat)
  | servePost (i : ι)
  | servePull (i : ι)
  | alarm (now : Nat)
  | alarmDone (written : Option Nat)

namespace Net

variable {ι : Type}

/-- Fresh clients around an empty room. -/
def initial (device : ι → String) : Net ι :=
  { room := .initial, nodes := fun i => .offline (.new (device i)) }

/-- The room applies a push and broadcasts its rows. -/
def accept (net : Net ι) (frame : Json) : Net ι × Except PushError PushOutcome :=
  let pushed := net.room.applyPushBatch frame
  ({ room := pushed.1, nodes := fun i => (net.nodes i).hear (pushBroadcast pushed.2) }, pushed.2)

variable [DecidableEq ι]

def modify (net : Net ι) (i : ι) (change : Node → Node) : Net ι :=
  { net with nodes := Function.update net.nodes i (change (net.nodes i)) }

/-- `webSocketMessage` on a push. -/
def servePush (net : Net ι) (i : ι) (link : Link) (push : Push) : Net ι :=
  let net := net.modify i Node.taken
  if maxFrameBytes < push.frame.byteLength then net.modify i Node.closed
  else if link.ready then
    let pushed := net.accept push.frame
    -- Rows go out before the ack.
    pushed.1.modify i (Node.send (socketReply pushed.2))
  else net.modify i (Node.send (.error ⟨"bad_push", "hello first / malformed push"⟩))

/-- `POST /push`, its answer kept by the sync cycle. -/
def servePost (net : Net ι) (i : ι) (batch : PendingBatch) (rest : List PendingBatch) : Net ι :=
  if maxFrameBytes < batch.push.body.byteLength then
    net.modify i fun node => node.withSync (.answered none rest)
  else
    let pushed := net.accept batch.push.body
    pushed.1.modify i fun node => node.withSync (.answered (postReply pushed.2) rest)

/-- A push on a connection without a client: nobody takes its answer. -/
def serveStray (net : Net ι) (i : ι) (place : Nat) (stray : Stray) (push : Push)
    (rest : List Push) : Net ι :=
  if maxFrameBytes < (stray.encode push).byteLength then
    net.modify i (Node.withStray place { stray with pushes := [] })
  else
    ((net.modify i (Node.withStray place { stray with pushes := rest })).accept
      (stray.encode push)).1

def step : Step (Net ι) (Event ι)
  | net, .client i event => ((net.nodes i).step event).map fun node => net.modify i fun _ => node
  | net, .serve i =>
      match (net.nodes i).link with
      | some link =>
          match link.closed, link.up with
          | false, .hello :: _ => some (net.modify i fun node => node.taken.greet net.room)
          | false, .push push :: _ => some (net.servePush i link push)
          | _, _ => none
      | none => none
  | net, .serveStray i place =>
      match (net.nodes i).strays[place]? with
      | some stray =>
          match stray.pushes with
          | push :: rest => some (net.serveStray i place stray push rest)
          | [] => none
      | none => none
  | net, .servePost i =>
      match (net.nodes i).sync with
      | .pushing (batch :: rest) => some (net.servePost i batch rest)
      | _ => none
  | net, .servePull i =>
      match (net.nodes i).sync with
      | .fetching since =>
          some (net.modify i fun node =>
            node.withSync (.fetched since (net.room.answer (some since))))
      | _ => none
  | net, .alarm now => some { net with room := net.room.alarm now }
  | net, .alarmDone written => some { net with room := net.room.alarmDone written }

@[simp]
theorem modify_nodes_self (net : Net ι) (i : ι) (change : Node → Node) :
    (net.modify i change).nodes i = change (net.nodes i) :=
  Function.update_self i _ _

theorem modify_nodes_ne (net : Net ι) {i j : ι} (other : j ≠ i) (change : Node → Node) :
    (net.modify i change).nodes j = net.nodes j :=
  Function.update_of_ne other _ _

theorem forall_modify (good : ι → Node → Prop) {net : Net ι} {i : ι} {change : Node → Node}
    (before : ∀ j, j ≠ i → good j (net.nodes j)) (changed : good i (change (net.nodes i))) :
    ∀ j, good j ((net.modify i change).nodes j) := by
  intro j
  by_cases same : j = i
  · subst same
    rw [modify_nodes_self]
    exact changed
  · rw [modify_nodes_ne net same]
    exact before j same

/-- What each event asks for, and the system it leaves. -/
def Moves (net : Net ι) : Event ι → Net ι → Prop
  | .client i event, next => ∃ node, (net.nodes i).step event = some node ∧
      next = net.modify i fun _ => node
  | .serve i, next => ∃ link, (net.nodes i).link = some link ∧ link.closed = false ∧
      ((∃ rest, link.up = .hello :: rest ∧
          next = net.modify i fun node => node.taken.greet net.room) ∨
        ∃ push rest, link.up = .push push :: rest ∧ next = net.servePush i link push)
  | .serveStray i place, next => ∃ stray push rest, (net.nodes i).strays[place]? = some stray ∧
      stray.pushes = push :: rest ∧ next = net.serveStray i place stray push rest
  | .servePost i, next => ∃ batch rest, (net.nodes i).sync = .pushing (batch :: rest) ∧
      next = net.servePost i batch rest
  | .servePull i, next => ∃ since, (net.nodes i).sync = .fetching since ∧
      next = net.modify i fun node => node.withSync (.fetched since (net.room.answer (some since)))
  | .alarm now, next => next = { net with room := net.room.alarm now }
  | .alarmDone written, next => next = { net with room := net.room.alarmDone written }

theorem moves_of_step {net next : Net ι} {event : Event ι} (stepped : step net event = some next) :
    net.Moves event next := by
  cases event with
  | client i event =>
      obtain ⟨node, moved, rfl⟩ := Option.map_eq_some_iff.mp stepped
      exact ⟨node, moved, rfl⟩
  | serve i =>
      simp only [step] at stepped
      split at stepped
      · rename_i link onNode
        split at stepped
        · rename_i rest open_ up
          exact ⟨link, onNode, open_, Or.inl ⟨rest, up, (Option.some.inj stepped).symm⟩⟩
        · rename_i push rest open_ up
          exact ⟨link, onNode, open_, Or.inr ⟨push, rest, up, (Option.some.inj stepped).symm⟩⟩
        · cases stepped
      · cases stepped
  | serveStray i place =>
      simp only [step] at stepped
      split at stepped
      · rename_i stray found
        split at stepped
        · rename_i push rest pushes
          exact ⟨stray, push, rest, found, pushes, (Option.some.inj stepped).symm⟩
        · cases stepped
      · cases stepped
  | servePost i =>
      simp only [step] at stepped
      split at stepped
      · exact ⟨_, _, ‹_›, (Option.some.inj stepped).symm⟩
      · cases stepped
  | servePull i =>
      simp only [step] at stepped
      split at stepped
      · exact ⟨_, ‹_›, (Option.some.inj stepped).symm⟩
      · cases stepped
  | alarm now => exact (Option.some.inj stepped).symm
  | alarmDone written => exact (Option.some.inj stepped).symm

/-- A push on a socket closes it, is refused, or is applied and answered. -/
theorem servePush_cases (net : Net ι) (i : ι) (link : Link) (push : Push) :
    net.servePush i link push = (net.modify i Node.taken).modify i Node.closed ∨
    (∃ error, net.servePush i link push =
      (net.modify i Node.taken).modify i (Node.send (.error error))) ∨
    (link.ready = true ∧ net.servePush i link push =
      ((net.modify i Node.taken).accept push.frame).1.modify i
        (Node.send (socketReply (net.room.applyPushBatch push.frame).2))) := by
  unfold servePush
  split
  · exact Or.inl rfl
  · split
    · exact Or.inr (Or.inr ⟨‹_›, rfl⟩)
    · exact Or.inr (Or.inl ⟨_, rfl⟩)

/-- A posted batch is refused, or applied and answered. -/
theorem servePost_cases (net : Net ι) (i : ι) (batch : PendingBatch) (rest : List PendingBatch) :
    net.servePost i batch rest =
      (net.modify i fun node => node.withSync (.answered none rest)) ∨
    net.servePost i batch rest =
      (net.accept batch.push.body).1.modify i fun node =>
        node.withSync (.answered (postReply (net.room.applyPushBatch batch.push.body).2) rest) := by
  unfold servePost
  split
  · exact Or.inl rfl
  · exact Or.inr rfl

/-- A stray push is dropped with all that follows it, or applied. -/
theorem serveStray_cases (net : Net ι) (i : ι) (place : Nat) (stray : Stray) (push : Push)
    (rest : List Push) :
    net.serveStray i place stray push rest =
      net.modify i (Node.withStray place { stray with pushes := [] }) ∨
    net.serveStray i place stray push rest =
      ((net.modify i (Node.withStray place { stray with pushes := rest })).accept
        (stray.encode push)).1 := by
  unfold serveStray
  split
  · exact Or.inl rfl
  · exact Or.inr rfl

/-- Everything that a room does to a client's connections keeps `good`. -/
structure Keeps (room : RegistryRoom) (good : Node → Prop) : Prop where
  taken : ∀ node, good node → good node.taken
  closed : ∀ node, good node → good node.closed
  greet : ∀ node, good node → good (node.greet room)
  hear : ∀ node frame, good node → good (node.hear (pushBroadcast (room.applyPushBatch frame).2))
  refuse : ∀ node error, good node → good (node.send (.error error))
  reply : ∀ node frame, good node → good (node.send (socketReply (room.applyPushBatch frame).2))
  answer : ∀ node reply batch rest, node.sync = .pushing (batch :: rest) → good node →
    good (node.withSync (.answered reply rest))
  pull : ∀ node since, node.sync = .fetching since → good node →
    good (node.withSync (.fetched since (room.answer (some since))))
  stray : ∀ node place stray, good node → good (node.withStray place stray)

/-- So the room's steps keep it of every client. -/
theorem Keeps.step {net next : Net ι} {event : Event ι} {good : ι → Node → Prop}
    (keeps : ∀ i, Keeps net.room (good i)) (start : ∀ i, good i (net.nodes i))
    (stepped : step net event = some next) (served : ∀ i own, event ≠ .client i own) :
    ∀ i, good i (next.nodes i) := by
  have modified : ∀ {net : Net ι} {i : ι} {change : Node → Node}, (∀ j, good j (net.nodes j)) →
      good i (change (net.nodes i)) → ∀ j, good j ((net.modify i change).nodes j) :=
    fun before changed => forall_modify good (fun j _ => before j) changed
  have moves := moves_of_step stepped
  cases event with
  | client i own => exact absurd rfl (served i own)
  | serve i =>
      obtain ⟨link, _, _, ⟨_, _, result⟩ | ⟨push, _, _, result⟩⟩ := moves <;> rw [result]
      · exact modified start ((keeps _).greet _ ((keeps _).taken _ (start i)))
      · have taken : ∀ j, good j ((net.modify i Node.taken).nodes j) :=
          modified start ((keeps _).taken _ (start i))
        rcases net.servePush_cases i link push with result | ⟨error, result⟩ | ⟨_, result⟩ <;>
          rw [result]
        · exact modified taken ((keeps _).closed _ (taken i))
        · exact modified taken ((keeps _).refuse _ error (taken i))
        · have heard : ∀ j, good j (((net.modify i Node.taken).accept push.frame).1.nodes j) :=
            fun j => (keeps _).hear _ push.frame (taken j)
          exact modified heard ((keeps _).reply _ push.frame (heard i))
  | serveStray i place =>
      obtain ⟨stray, push, rest, _, _, result⟩ := moves
      rw [result]
      rcases net.serveStray_cases i place stray push rest with result | result <;> rw [result]
      · exact modified start ((keeps _).stray _ _ _ (start i))
      · exact fun j => (keeps _).hear _ _ (modified start ((keeps _).stray _ _ _ (start i)) j)
  | servePost i =>
      obtain ⟨batch, rest, pushing, result⟩ := moves
      rw [result]
      rcases net.servePost_cases i batch rest with result | result <;> rw [result]
      · exact modified start ((keeps _).answer _ _ _ _ pushing (start i))
      · have heard : ∀ j, good j ((net.accept batch.push.body).1.nodes j) :=
          fun j => (keeps _).hear _ _ (start j)
        exact modified heard ((keeps _).answer _ _ batch _ pushing (heard i))
  | servePull i =>
      obtain ⟨since, fetching, rfl⟩ := moves
      exact modified start ((keeps _).pull _ _ fetching (start i))
  | alarm now => obtain rfl := moves; exact start
  | alarmDone written => obtain rfl := moves; exact start

/-- Only its own steps change a client's replica. -/
theorem step_doc {net next : Net ι} {event : Event ι} (stepped : step net event = some next) (j : ι)
    (others : ∀ own, event ≠ .client j own) : (next.nodes j).doc = (net.nodes j).doc := by
  cases event with
  | client i own =>
      obtain ⟨node, _, rfl⟩ := moves_of_step stepped
      have other : j ≠ i := fun same => others own (by rw [same])
      rw [modify_nodes_ne net other]
  | _ =>
      have keeps : ∀ i, Keeps net.room fun node => node.doc = (net.nodes i).doc := by
        intro i
        constructor <;> intros <;> assumption
      exact Keeps.step keeps (fun _ => rfl) stepped (fun _ _ => by simp) j

end Net

end Zeron.Registry
