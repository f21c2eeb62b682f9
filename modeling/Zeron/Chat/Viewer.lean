import Mathlib.Data.List.Lattice
import Mathlib.Order.Nat
import Zeron.Transition.Run

/-!
# The edits of a viewer

A phone holds the document of a chat, and a client that brings its commits to the room.  What
the client has not got through is lost with the app; the document and the cursor come back
from the last snapshot.  A client that begins at cursor zero sends the whole document.
-/

namespace Zeron.Chat.Viewer

open Transition

/-- An operation of the document, with the operations that it was made on. -/
structure DocOp where
  id : Nat
  deps : List Nat
  deriving DecidableEq

structure Batch where
  batchId : Nat
  ops : List DocOp

structure PendingPush where
  batch : Batch
  /-- In flight on the current connection. -/
  inFlight : Bool

/-- `ChatRoomClient`, as far as pushes need it. -/
structure Client where
  pending : List PendingPush
  socket : Bool
  stateReceived : Bool
  joined : Bool

/-- A running `SessionStore`. -/
structure Store where
  doc : List DocOp
  cursor : Nat
  cursorVerified : Bool
  chatRoom : Option Client
  /-- Commits that have not come to the store's own task. -/
  committed : List (List DocOp)
  /-- Updates that have been handed to the client and have not come to `enqueue`. -/
  handed : List (List DocOp)

/-- `DocDisk.saveChat2`: one file. -/
structure Snapshot where
  doc : List DocOp
  cursor : Nat
  verified : Bool

inductive Verdict where
  | ack
  /-- `too_large`, `empty` or `bad_push`. -/
  | reject
  | quota
  deriving DecidableEq

structure Answer where
  batchId : Nat
  verdict : Verdict

/-- A phone, a room, and what is on its way between them. -/
structure Relay where
  store : Option Store
  saved : Option Snapshot
  pushes : List Batch
  answers : List Answer
  /-- The operations of all rows that the room has ever taken, and of the batches that it has
  refused for good. -/
  accepted : List DocOp
  rejected : List DocOp
  nextOp : Nat
  nextBatch : Nat

inductive Event where
  /-- `SessionStore.start`; without a snapshot some commands of the old document are carried. -/
  | launch (carried : Nat)
  | stop
  | kill
  | save
  | commit (count : Nat)
  | connectIfReady
  /-- The task of a commit on the main actor. -/
  | handOver (index : Nat)
  | enqueue (index : Nat)
  | connect
  | openSocket
  | receiveState
  | join
  | disconnect
  | push (index : Nat)
  | pushHead
  /-- The push of an HTTPS sync cycle. -/
  | post (index : Nat)
  | serve (index : Nat) (verdict : Verdict)
  | losePush (index : Nat)
  | receiveAnswer (index : Nat)
  | loseAnswer (index : Nat)
  | others (count : Nat)
  | applyCheckpoint (ops : List DocOp) (seq : Nat)
  /-- An import that fails brings nothing. -/
  | applyRow (ops : List DocOp) (seq : Nat)
  | advanceCursor (seq : Nat)
  | clampCursor (seq : Nat)
  | setCursor (seq : Nat)
  | setCursorVerified (verified : Bool)

/-- Client-side push cap. -/
def maxPushBytes : Nat := 1024 * 1024 - 4096

/-- New operations on a document, each on all before it. -/
def madeOn (doc : List DocOp) (next count : Nat) : List DocOp :=
  (List.range count).map fun k =>
    { id := next + k, deps := doc.map DocOp.id ++ (List.range k).map (next + ·) }

/-- Every operation stands beside those it was made on. -/
def Closed (doc : List DocOp) : Prop :=
  ∀ op ∈ doc, ∀ dep ∈ op.deps, dep ∈ doc.map DocOp.id

instance (doc : List DocOp) : Decidable (Closed doc) :=
  inferInstanceAs (Decidable (∀ op ∈ doc, ∀ dep ∈ op.deps, dep ∈ doc.map DocOp.id))

namespace Client

def initial : Client :=
  { pending := [], socket := false, stateReceived := false, joined := false }

def batches (client : Client) : List Batch :=
  client.pending.map PendingPush.batch

def clearFlight (client : Client) : Client :=
  { client with pending := client.pending.map fun push => { push with inFlight := false } }

def connect (client : Client) : Client :=
  { client.clearFlight with stateReceived := false, joined := false }

def openSocket (client : Client) : Client :=
  { client with socket := true }

def receiveState (client : Client) : Client :=
  { client with stateReceived := true }

/-- `ROWS_DONE`. -/
def join (client : Client) : Client :=
  { client with joined := true }

def onSocketError (client : Client) : Client :=
  { client with socket := false, joined := false }

def enqueue (client : Client) (batch : Batch) : Client :=
  { client with pending := client.pending ++ [{ batch, inFlight := false }] }

def setFlight (client : Client) (index : Nat) : Client :=
  { client with pending := client.pending.modify index fun push => { push with inFlight := true } }

/-- `pending.removeAll`. -/
def retire (client : Client) (batchId : Nat) : Client :=
  { client with pending := client.pending.filter fun push => push.batch.batchId ≠ batchId }

def receiveAnswer (client : Client) (answer : Answer) : Client :=
  match answer.verdict with
  | .ack | .reject => client.retire answer.batchId
  | .quota => client.clearFlight

end Client

namespace Store

def snapshot (store : Store) : Snapshot :=
  { doc := store.doc, cursor := store.cursor, verified := store.cursorVerified }

/-- The first contact with a room pushes the full log. -/
def connectIfReady (store : Store) : Option Store :=
  match store.chatRoom with
  | some _ => none
  | none => some { store with
      chatRoom := some .initial
      handed := if store.cursor = 0 then store.handed ++ [store.doc] else store.handed }

/-- A commit that finds no client is left to the first contact. -/
def handOver (store : Store) (index : Nat) : Option Store :=
  match store.committed[index]? with
  | none => none
  | some update => some { store with
      committed := store.committed.eraseIdx index
      handed := if store.chatRoom.isSome then store.handed ++ [update] else store.handed }

def onClient (store : Store) (act : Client → Client) : Option Store :=
  match store.chatRoom with
  | none => none
  | some client => some { store with chatRoom := some (act client) }

def importOps (store : Store) (ops : List DocOp) : Store :=
  { store with doc := store.doc ∪ ops }

def advanceCursor (store : Store) (seq : Nat) : Store :=
  { store with cursor := max store.cursor seq }

def clampCursor (store : Store) (seq : Nat) : Store :=
  if store.cursor ≤ seq then store else { store with cursor := seq, cursorVerified := false }

def setCursor (store : Store) (seq : Nat) : Store :=
  { store with
    cursor := seq
    cursorVerified := if seq < store.cursor then false else store.cursorVerified }

def setCursorVerified (store : Store) (verified : Bool) : Store :=
  { store with cursorVerified := verified }

end Store

namespace Relay

def initial : Relay :=
  { store := none, saved := none, pushes := [], answers := [], accepted := [], rejected := [],
    nextOp := 0, nextBatch := 0 }

def launch (relay : Relay) (carried : Nat) : Option Relay :=
  match relay.store, relay.saved with
  | some _, _ => none
  | none, some saved => some { relay with
      store := some { doc := saved.doc, cursor := saved.cursor, cursorVerified := saved.verified,
                      chatRoom := none, committed := [], handed := [] } }
  | none, none => some { relay with
      store := some { doc := madeOn [] relay.nextOp carried, cursor := 0, cursorVerified := false,
                      chatRoom := none, committed := [], handed := [] }
      nextOp := relay.nextOp + carried }

def kill (relay : Relay) : Relay :=
  { relay with store := none, answers := [] }

def save (relay : Relay) : Relay :=
  { relay with saved := (relay.store.map Store.snapshot).or relay.saved }

def onStore (relay : Relay) (act : Store → Option Store) : Option Relay :=
  match relay.store with
  | none => none
  | some store => (act store).map fun next => { relay with store := some next }

def commit (relay : Relay) (count : Nat) : Option Relay :=
  match relay.store with
  | none => none
  | some store =>
      let ops := madeOn store.doc relay.nextOp count
      some { relay with
        store := some { store with doc := store.doc ++ ops, committed := store.committed ++ [ops] }
        nextOp := relay.nextOp + count }

/-- `enqueue` refuses what the room could never take. -/
def enqueue (size : List DocOp → Nat) (relay : Relay) (index : Nat) : Option Relay :=
  match relay.store with
  | none => none
  | some store =>
      match store.handed[index]?, store.chatRoom with
      | some ops, some client =>
          let store := { store with handed := store.handed.eraseIdx index }
          if size ops ≤ maxPushBytes then
            let batch := { batchId := relay.nextBatch, ops }
            some { relay with
              store := some { store with chatRoom := some (client.enqueue batch) }
              nextBatch := relay.nextBatch + 1 }
          else some { relay with store := some store }
      | _, _ => none

/-- A batch in flight on the socket, if there is one, or by a request of its own. -/
def push (relay : Relay) (index : Nat) (permits : Client → PendingPush → Bool)
    (post : Bool) : Option Relay :=
  match relay.store with
  | none => none
  | some store =>
      match store.chatRoom with
      | none => none
      | some client =>
          match client.pending[index]? with
          | none => none
          | some push =>
              if permits client push then
                let sent := if post || client.socket then [push.batch] else []
                let client := if post then client else client.setFlight index
                some { relay with
                  store := some { store with chatRoom := some client }
                  pushes := relay.pushes ++ sent }
              else none

/-- What the room makes of a push; quota changes nothing. -/
def serve (relay : Relay) (index : Nat) (verdict : Verdict) : Option Relay :=
  match relay.pushes[index]? with
  | none => none
  | some batch =>
      let relay := { relay with
        pushes := relay.pushes.eraseIdx index
        answers := relay.answers ++ [{ batchId := batch.batchId, verdict }] }
      match verdict with
      | .ack => some { relay with accepted := relay.accepted ++ batch.ops }
      | .reject => some { relay with rejected := relay.rejected ++ batch.ops }
      | .quota => some relay

def receiveAnswer (relay : Relay) (index : Nat) : Option Relay :=
  match relay.answers[index]? with
  | none => none
  | some answer =>
      ({ relay with answers := relay.answers.eraseIdx index } : Relay).onStore fun store =>
        store.onClient fun client => client.receiveAnswer answer

/-- What comes from the room, has been taken by it; what lacks operations is parked. -/
def importOps (relay : Relay) (ops : List DocOp) (seq : Nat) : Option Relay :=
  relay.onStore fun store =>
    if ops ⊆ relay.accepted ∧ Closed (store.doc ∪ ops) then
      some ((store.importOps ops).advanceCursor seq)
    else none

end Relay

open Relay in
def step (size : List DocOp → Nat) : Step Relay Event
  | relay, .launch carried => relay.launch carried
  | relay, .stop => some relay.save.kill
  | relay, .kill => some relay.kill
  | relay, .save => some relay.save
  | relay, .commit count => relay.commit count
  | relay, .connectIfReady => relay.onStore Store.connectIfReady
  | relay, .handOver index => relay.onStore fun store => store.handOver index
  | relay, .enqueue index => relay.enqueue size index
  | relay, .connect => relay.onStore fun store => store.onClient Client.connect
  | relay, .openSocket => relay.onStore fun store => store.onClient Client.openSocket
  | relay, .receiveState => relay.onStore fun store => store.onClient Client.receiveState
  | relay, .join => relay.onStore fun store => store.onClient Client.join
  | relay, .disconnect => relay.onStore fun store => store.onClient Client.onSocketError
  | relay, .push index =>
      relay.push index (fun client push => client.stateReceived && !push.inFlight) false
  | relay, .pushHead => relay.push 0 (fun client _ => client.joined) false
  | relay, .post index => relay.push index (fun _ _ => true) true
  | relay, .serve index verdict => relay.serve index verdict
  | relay, .losePush index => some { relay with pushes := relay.pushes.eraseIdx index }
  | relay, .receiveAnswer index => relay.receiveAnswer index
  | relay, .loseAnswer index => some { relay with answers := relay.answers.eraseIdx index }
  | relay, .others count => some { relay with
      accepted := relay.accepted ++ madeOn relay.accepted relay.nextOp count
      nextOp := relay.nextOp + count }
  | relay, .applyCheckpoint ops seq => relay.importOps ops seq
  | relay, .applyRow ops seq => relay.importOps ops seq
  | relay, .advanceCursor seq => relay.onStore fun store => some (store.advanceCursor seq)
  | relay, .clampCursor seq => relay.onStore fun store => some (store.clampCursor seq)
  | relay, .setCursor seq => relay.onStore fun store => some (store.setCursor seq)
  | relay, .setCursorVerified verified =>
      relay.onStore fun store => some (store.setCursorVerified verified)

namespace Relay

def Settled (relay : Relay) (id : Nat) : Prop :=
  id ∈ relay.accepted.map DocOp.id ∨ id ∈ relay.rejected.map DocOp.id

instance (relay : Relay) (id : Nat) : Decidable (relay.Settled id) :=
  inferInstanceAs (Decidable (_ ∨ _))

/-- Once the client is joined and has nothing left to push, the room has decided on all
operations of the document, and on all that these were made on. -/
def Kept (relay : Relay) : Prop :=
  ∀ store ∈ relay.store, ∀ client ∈ store.chatRoom, client.joined = true → client.pending = [] →
    ∀ op ∈ store.doc, relay.Settled op.id ∧ ∀ dep ∈ op.deps, relay.Settled dep

/-- No commit is on its way from the document to the client. -/
def Quiet (relay : Relay) : Prop :=
  ∀ store ∈ relay.store, store.committed = [] ∧ store.handed = []

instance (relay : Relay) : Decidable relay.Kept :=
  inferInstanceAs (Decidable (∀ store ∈ relay.store, ∀ client ∈ store.chatRoom,
    client.joined = true → client.pending = [] →
      ∀ op ∈ store.doc, relay.Settled op.id ∧ ∀ dep ∈ op.deps, relay.Settled dep))

instance (relay : Relay) : Decidable relay.Quiet :=
  inferInstanceAs (Decidable (∀ store ∈ relay.store, store.committed = [] ∧ store.handed = []))

/-- A client begins at cursor zero, or with a document that the room has decided on, commits on
their way apart; and no update is larger than the cap. -/
def Careful (size : List DocOp → Nat) (relay : Relay) : Event → Prop
  | .connectIfReady => ∀ store ∈ relay.store, store.cursor = 0 ∨
      ∀ op ∈ store.doc, relay.Settled op.id ∨ ∃ update ∈ store.committed, op ∈ update
  | .enqueue index => ∀ store ∈ relay.store, ∀ ops ∈ store.handed[index]?,
      size ops ≤ maxPushBytes
  | _ => True

instance (size : List DocOp → Nat) (relay : Relay) (event : Event) :
    Decidable (relay.Careful size event) :=
  match event with
  | .connectIfReady => inferInstanceAs (Decidable (∀ store ∈ relay.store, store.cursor = 0 ∨
      ∀ op ∈ store.doc, relay.Settled op.id ∨ ∃ update ∈ store.committed, op ∈ update))
  | .enqueue index => inferInstanceAs (Decidable (∀ store ∈ relay.store,
      ∀ ops ∈ store.handed[index]?, size ops ≤ maxPushBytes))
  | .launch _ | .stop | .kill | .save | .commit _ | .handOver _ | .connect | .openSocket
  | .receiveState | .join | .disconnect | .push _ | .pushHead | .post _ | .serve _ _ | .losePush _
  | .receiveAnswer _ | .loseAnswer _ | .others _ | .applyCheckpoint _ _ | .applyRow _ _
  | .advanceCursor _ | .clampCursor _ | .setCursor _ | .setCursorVerified _ => .isTrue trivial

end Relay

/-! ## Documents -/

theorem closed_nil : Closed [] := by
  intro op listed
  cases listed

theorem Closed.append_madeOn {doc : List DocOp} (closed : Closed doc) (next count : Nat) :
    Closed (doc ++ madeOn doc next count) := by
  intro op listed dep made
  rw [List.map_append, List.mem_append]
  rcases List.mem_append.mp listed with old | new
  · left
    exact closed op old dep made
  · rcases List.mem_map.mp new with ⟨k, below, rfl⟩
    rcases List.mem_append.mp made with old | sibling
    · left
      exact old
    · right
      rcases List.mem_map.mp sibling with ⟨j, lower, rfl⟩
      apply List.mem_map.mpr
      refine ⟨_, List.mem_map.mpr ⟨j, ?_, rfl⟩, rfl⟩
      exact List.mem_range.mpr ((List.mem_range.mp lower).trans (List.mem_range.mp below))

/-! ## Batches -/

variable {index : Nat}

theorem mem_eraseIdx_or_eq {α : Type} {list : List α} {item other : α}
    (found : list[index]? = some item) (listed : other ∈ list) :
    other ∈ list.eraseIdx index ∨ other = item := by
  rcases List.mem_iff_getElem?.mp listed with ⟨place, there⟩
  by_cases same : place = index
  · right
    rw [same, found] at there
    exact (Option.some.inj there).symm
  · left
    exact List.mem_eraseIdx_iff_getElem?.mpr ⟨place, same, there⟩

namespace Client

variable (client : Client)

@[simp] theorem batches_clearFlight : client.clearFlight.batches = client.batches := by
  unfold batches clearFlight
  rw [List.map_map]
  rfl

@[simp] theorem batches_connect : client.connect.batches = client.batches :=
  client.batches_clearFlight

@[simp] theorem batches_openSocket : client.openSocket.batches = client.batches :=
  rfl

@[simp] theorem batches_receiveState : client.receiveState.batches = client.batches :=
  rfl

@[simp] theorem batches_join : client.join.batches = client.batches :=
  rfl

@[simp] theorem batches_onSocketError : client.onSocketError.batches = client.batches :=
  rfl

@[simp] theorem batches_enqueue (batch : Batch) :
    (client.enqueue batch).batches = client.batches ++ [batch] := by
  unfold batches enqueue
  rw [List.map_append]
  rfl

@[simp] theorem batches_setFlight (index : Nat) :
    (client.setFlight index).batches = client.batches := by
  unfold batches setFlight
  apply List.ext_getElem?
  intro place
  simp only [List.getElem?_map, List.getElem?_modify]
  split
  · cases client.pending[place]? with
    | none => rfl
    | some push => rfl
  · cases client.pending[place]? with
    | none => rfl
    | some push => rfl

theorem batches_retire (batchId : Nat) :
    (client.retire batchId).batches =
      client.batches.filter fun batch => batch.batchId ≠ batchId := by
  unfold batches retire
  rw [List.filter_map]
  rfl

theorem batch_mem {push : PendingPush} (found : client.pending[index]? = some push) :
    push.batch ∈ client.batches :=
  List.mem_map_of_mem (List.mem_of_getElem? found)

end Client

/-- What is on its way between a client and its room: an id stands for one batch, and a batch
whose verdict is on its way has been decided on. -/
structure Sent (pushes pending : List Batch) (answers : List Answer) (settled : Nat → Prop)
    (next : Nat) : Prop where
  numbered : ∀ batch ∈ pushes ++ pending, batch.batchId < next
  answered : ∀ answer ∈ answers, answer.batchId < next
  one : ∀ sent ∈ pushes ++ pending, ∀ batch ∈ pending, batch.batchId = sent.batchId → batch = sent
  decided : ∀ answer ∈ answers, answer.verdict ≠ .quota → ∀ batch ∈ pending,
    batch.batchId = answer.batchId → ∀ op ∈ batch.ops, settled op.id

namespace Sent

variable {pushes pending : List Batch} {answers : List Answer} {settled : Nat → Prop} {next : Nat}

theorem mono (sent : Sent pushes pending answers settled next) {fewer kept : List Batch}
    {left : List Answer} {more : Nat → Prop} (pushes_sub : fewer ⊆ pushes ++ pending)
    (pending_sub : kept ⊆ pending) (answers_sub : left ⊆ answers)
    (grows : ∀ id, settled id → more id) : Sent fewer kept left more next := by
  have known : fewer ++ kept ⊆ pushes ++ pending :=
    List.append_subset.mpr ⟨pushes_sub, List.subset_append_of_subset_right _ pending_sub⟩
  constructor
  · intro batch listed
    exact sent.numbered batch (known listed)
  · intro answer listed
    exact sent.answered answer (answers_sub listed)
  · intro batch listed other there
    exact sent.one batch (known listed) other (pending_sub there)
  · intro answer listed final batch there same op within
    apply grows
    exact sent.decided answer (answers_sub listed) final batch (pending_sub there) same op within

theorem empty (next : Nat) : Sent [] [] [] settled next := by
  constructor
  · intro batch listed
    cases listed
  · intro answer listed
    cases listed
  · intro batch listed
    cases listed
  · intro answer listed
    cases listed

theorem enqueue (sent : Sent pushes pending answers settled next) (ops : List DocOp) :
    Sent pushes (pending ++ [{ batchId := next, ops }]) answers settled (next + 1) := by
  have split : ∀ batch ∈ pushes ++ (pending ++ [{ batchId := next, ops }]),
      batch ∈ pushes ++ pending ∨ batch = { batchId := next, ops } := by
    intro batch listed
    rw [← List.append_assoc] at listed
    exact (List.mem_append.mp listed).imp_right List.mem_singleton.mp
  constructor
  · intro batch listed
    rcases split batch listed with old | rfl
    · exact (sent.numbered batch old).trans (Nat.lt_succ_self _)
    · exact Nat.lt_succ_self _
  · intro answer listed
    exact (sent.answered answer listed).trans (Nat.lt_succ_self _)
  · intro batch listed other there same
    rcases split batch listed with old | rfl
    · rcases List.mem_append.mp there with known | new
      · exact sent.one batch old other known same
      · cases List.mem_singleton.mp new
        exact absurd same (sent.numbered batch old).ne'
    · rcases List.mem_append.mp there with known | new
      · exact absurd same (sent.numbered other (List.mem_append_right _ known)).ne
      · exact List.mem_singleton.mp new
  · intro answer listed final batch there same
    rcases List.mem_append.mp there with old | new
    · exact sent.decided answer listed final batch old same
    · cases List.mem_singleton.mp new
      exact absurd same (sent.answered answer listed).ne'

/-- The verdict on a push that has been served. -/
theorem answer (sent : Sent pushes pending answers settled next) {batch : Batch}
    (listed : batch ∈ pushes) {verdict : Verdict}
    (final : verdict ≠ .quota → ∀ op ∈ batch.ops, settled op.id) :
    Sent pushes pending (answers ++ [{ batchId := batch.batchId, verdict }]) settled next := by
  constructor
  · exact sent.numbered
  · intro answer there
    rcases List.mem_append.mp there with old | new
    · exact sent.answered answer old
    · cases List.mem_singleton.mp new
      exact sent.numbered batch (List.mem_append_left _ listed)
  · exact sent.one
  · intro answer there decides other pended same
    rcases List.mem_append.mp there with old | new
    · exact sent.decided answer old decides other pended same
    · cases List.mem_singleton.mp new
      rw [sent.one batch (List.mem_append_left _ listed) other pended same]
      exact final decides

end Sent

/-! ## The store -/

/-- Every operation has been decided on, or is on its way to the room. -/
structure Store.Tracked (settled : Nat → Prop) (store : Store) : Prop where
  closed : Closed store.doc
  reached : ∀ client, store.chatRoom = some client → ∀ op ∈ store.doc, settled op.id ∨
    (∃ batch ∈ client.batches, op ∈ batch.ops) ∨
      ∃ update ∈ store.committed ++ store.handed, op ∈ update

/-- The batches that the client has not got through. -/
def Store.batches (store : Store) : List Batch :=
  (store.chatRoom.map Client.batches).getD []

def Relay.batches (relay : Relay) : List Batch :=
  (relay.store.map Store.batches).getD []

structure Relay.Tracked (relay : Relay) : Prop where
  sent : Sent relay.pushes relay.batches relay.answers relay.Settled relay.nextBatch
  store : ∀ store, relay.store = some store → store.Tracked relay.Settled
  saved : ∀ saved, relay.saved = some saved → Closed saved.doc

namespace Store.Tracked

variable {settled : Nat → Prop} {store next : Store}

theorem mono (tracked : store.Tracked settled) {more : Nat → Prop}
    (grows : ∀ id, settled id → more id) : store.Tracked more := by
  constructor
  · exact tracked.closed
  · intro client here op listed
    exact (tracked.reached client here op listed).imp_left (grows op.id)

/-- A client that keeps its batches. -/
theorem onClient (tracked : store.Tracked settled) {act : Client → Client}
    (same : ∀ client, (act client).batches = client.batches)
    (stepped : store.onClient act = some next) :
    next.Tracked settled ∧ next.batches = store.batches := by
  unfold Store.onClient at stepped
  cases here : store.chatRoom with
  | none =>
      rw [here] at stepped
      cases stepped
  | some client =>
      rw [here] at stepped
      cases stepped
      constructor
      · constructor
        · exact tracked.closed
        · intro other there
          cases there
          rw [same]
          exact tracked.reached client here
      · unfold Store.batches
        rw [here]
        exact same client

theorem receiveAnswer (tracked : store.Tracked settled) {answer : Answer}
    (decided : answer.verdict ≠ .quota → ∀ batch ∈ store.batches,
      batch.batchId = answer.batchId → ∀ op ∈ batch.ops, settled op.id)
    (stepped : store.onClient (fun client => client.receiveAnswer answer) = some next) :
    next.Tracked settled ∧ next.batches ⊆ store.batches := by
  unfold Store.onClient at stepped
  cases here : store.chatRoom with
  | none =>
      rw [here] at stepped
      cases stepped
  | some client =>
      have known : store.batches = client.batches := by
        unfold Store.batches
        rw [here]
        rfl
      rw [known] at decided ⊢
      rw [here] at stepped
      cases stepped
      cases quota : decide (answer.verdict = .quota) with
      | true =>
          have clear : client.receiveAnswer answer = client.clearFlight := by
            unfold Client.receiveAnswer
            rw [of_decide_eq_true quota]
          constructor
          · constructor
            · exact tracked.closed
            · intro other there
              rcases Option.some.inj there with rfl
              change ∀ op ∈ store.doc, settled op.id ∨
                (∃ batch ∈ (client.receiveAnswer answer).batches, op ∈ batch.ops) ∨ _
              rw [clear, Client.batches_clearFlight]
              exact tracked.reached client here
          · change (client.receiveAnswer answer).batches ⊆ _
            rw [clear, Client.batches_clearFlight]
            exact List.Subset.refl _
      | false =>
          have final : answer.verdict ≠ .quota := of_decide_eq_false quota
          have retired : (client.receiveAnswer answer).batches =
              client.batches.filter fun batch => batch.batchId ≠ answer.batchId := by
            rw [← client.batches_retire]
            unfold Client.receiveAnswer
            cases verdict : answer.verdict with
            | ack => rfl
            | reject => rfl
            | quota => exact absurd verdict final
          constructor
          · constructor
            · exact tracked.closed
            · intro other there op listed
              cases there
              rw [retired]
              rcases tracked.reached client here op listed with done | ⟨batch, pended, within⟩ | late
              · exact .inl done
              · by_cases same : batch.batchId = answer.batchId
                · left
                  exact decided final batch pended same op within
                · right
                  left
                  exact ⟨batch, List.mem_filter.mpr ⟨pended, decide_eq_true same⟩, within⟩
              · exact .inr (.inr late)
          · change (client.receiveAnswer answer).batches ⊆ _
            rw [retired]
            exact List.filter_sublist.subset

end Store.Tracked

/-! ## Steps -/

namespace Relay.Tracked

variable {relay next : Relay}

theorem batches_of_store {store : Store} (here : relay.store = some store) :
    relay.batches = store.batches := by
  unfold Relay.batches
  rw [here]
  rfl

theorem batches_of_client {store : Store} {client : Client} (here : store.chatRoom = some client) :
    store.batches = client.batches := by
  unfold Store.batches
  rw [here]
  rfl

theorem initial : Relay.initial.Tracked := by
  constructor
  · exact Sent.empty 0
  · intro store here
    cases here
  · intro saved here
    cases here

theorem onStore (tracked : relay.Tracked) {act : Store → Option Store}
    (kept : ∀ store changed, relay.store = some store → act store = some changed →
      changed.Tracked relay.Settled ∧ changed.batches ⊆ store.batches)
    (stepped : relay.onStore act = some next) : next.Tracked := by
  unfold Relay.onStore at stepped
  cases here : relay.store with
  | none =>
      rw [here] at stepped
      cases stepped
  | some store =>
      rw [here] at stepped
      rcases Option.map_eq_some_iff.mp stepped with ⟨changed, acted, rfl⟩
      rcases kept store changed here acted with ⟨good, fewer⟩
      constructor
      · apply tracked.sent.mono (List.subset_append_left _ _) _ (List.Subset.refl _)
          (fun _ => id)
        rw [batches_of_store here]
        exact fewer
      · intro other there
        cases there
        exact good
      · exact tracked.saved

theorem onClient (tracked : relay.Tracked) {act : Client → Client}
    (same : ∀ client, (act client).batches = client.batches)
    (stepped : (relay.onStore fun store => store.onClient act) = some next) : next.Tracked := by
  apply tracked.onStore _ stepped
  intro store changed here acted
  rcases (tracked.store store here).onClient same acted with ⟨good, equal⟩
  exact ⟨good, equal ▸ List.Subset.refl _⟩

/-- What keeps the document and the lists of updates. -/
theorem onCursor (tracked : relay.Tracked) (act : Store → Store)
    (same : ∀ store, (act store).doc = store.doc ∧ (act store).chatRoom = store.chatRoom ∧
      (act store).committed = store.committed ∧ (act store).handed = store.handed)
    (stepped : (relay.onStore fun store => some (act store)) = some next) : next.Tracked := by
  apply tracked.onStore _ stepped
  intro store changed here acted
  cases acted
  rcases same store with ⟨doc, chatRoom, committed, handed⟩
  constructor
  · constructor
    · rw [doc]
      exact (tracked.store store here).closed
    · rw [doc, chatRoom, committed, handed]
      exact (tracked.store store here).reached
  · unfold Store.batches
    rw [chatRoom]
    exact List.Subset.refl _

theorem launch (tracked : relay.Tracked) {carried : Nat}
    (stepped : relay.launch carried = some next) : next.Tracked := by
  have fresh : ∀ doc : List DocOp, Closed doc → ∀ cursor verified,
      Store.Tracked relay.Settled { doc, cursor, cursorVerified := verified, chatRoom := none, committed := [], handed := [] } := by
    intro doc closed cursor verified
    constructor
    · exact closed
    · intro client here
      cases here
  unfold Relay.launch at stepped
  split at stepped
  · cases stepped
  · rename_i saved stopped known
    cases stepped
    constructor
    · exact tracked.sent.mono (List.subset_append_left _ _) (List.nil_subset _)
        (List.Subset.refl _) (fun _ => id)
    · intro store here
      cases here
      exact fresh _ (tracked.saved saved known) _ _
    · exact tracked.saved
  · cases stepped
    constructor
    · exact tracked.sent.mono (List.subset_append_left _ _) (List.nil_subset _)
        (List.Subset.refl _) (fun _ => id)
    · intro store here
      cases here
      exact fresh _ (closed_nil.append_madeOn _ _) _ _
    · exact tracked.saved

theorem kill (tracked : relay.Tracked) : relay.kill.Tracked := by
  constructor
  · exact tracked.sent.mono (List.subset_append_left _ _) (List.nil_subset _)
      (List.nil_subset _) (fun _ => id)
  · intro store here
    cases here
  · exact tracked.saved

theorem save (tracked : relay.Tracked) : relay.save.Tracked := by
  constructor
  · exact tracked.sent
  · exact tracked.store
  · intro saved known
    unfold Relay.save at known
    cases here : relay.store with
    | none =>
        rw [here] at known
        exact tracked.saved saved known
    | some store =>
        rw [here] at known
        cases known
        exact (tracked.store store here).closed

theorem commit (tracked : relay.Tracked) {count : Nat}
    (stepped : relay.commit count = some next) : next.Tracked := by
  unfold Relay.commit at stepped
  cases here : relay.store with
  | none =>
      rw [here] at stepped
      cases stepped
  | some store =>
      rw [here] at stepped
      cases stepped
      have good := tracked.store store here
      constructor
      · apply tracked.sent.mono (List.subset_append_left _ _) _ (List.Subset.refl _)
          (fun _ => id)
        rw [batches_of_store here]
        exact List.Subset.refl _
      · intro other there
        cases there
        constructor
        · exact good.closed.append_madeOn _ _
        · intro client joined op listed
          rcases List.mem_append.mp listed with old | new
          · rcases good.reached client joined op old with done | pended | ⟨update, late, within⟩
            · exact .inl done
            · exact .inr (.inl pended)
            · right
              right
              refine ⟨update, ?_, within⟩
              rcases List.mem_append.mp late with committed | handed
              · exact List.mem_append_left _ (List.mem_append_left _ committed)
              · exact List.mem_append_right _ handed
          · right
            right
            exact ⟨_, List.mem_append_left _ List.mem_concat_self,
              new⟩
      · exact tracked.saved

variable {size : List DocOp → Nat}

theorem connectIfReady (tracked : relay.Tracked) (careful : relay.Careful size .connectIfReady)
    (stepped : relay.onStore Store.connectIfReady = some next) : next.Tracked := by
  apply tracked.onStore _ stepped
  intro store changed here acted
  unfold Store.connectIfReady at acted
  split at acted
  · cases acted
  · cases acted
    constructor
    · constructor
      · exact (tracked.store store here).closed
      · intro client there op listed
        cases there
        rcases careful store here with zero | decided
        · right
          right
          refine ⟨store.doc, ?_, listed⟩
          rw [if_pos zero]
          exact List.mem_append_right _ List.mem_concat_self
        · rcases decided op listed with done | ⟨update, late, within⟩
          · exact .inl done
          · exact .inr (.inr ⟨update, List.mem_append_left _ late, within⟩)
    · exact List.nil_subset _

theorem handOver (tracked : relay.Tracked)
    (stepped : (relay.onStore fun store => store.handOver index) = some next) :
    next.Tracked := by
  apply tracked.onStore _ stepped
  intro store changed here acted
  have good := tracked.store store here
  unfold Store.handOver at acted
  split at acted
  · cases acted
  · rename_i update found
    cases acted
    constructor
    · constructor
      · exact good.closed
      · intro client there op listed
        have running : store.chatRoom.isSome = true := by
          rw [there]
          rfl
        rcases good.reached client there op listed with done | pended | ⟨late, underway, within⟩
        · exact .inl done
        · exact .inr (.inl pended)
        · right
          right
          refine ⟨late, ?_, within⟩
          rw [if_pos running]
          rcases List.mem_append.mp underway with committed | handed
          · rcases mem_eraseIdx_or_eq found committed with left | rfl
            · exact List.mem_append_left _ left
            · exact List.mem_append_right _
                List.mem_concat_self
          · exact List.mem_append_right _ (List.mem_append_left _ handed)
    · exact List.Subset.refl _

theorem enqueue (tracked : relay.Tracked) (careful : relay.Careful size (.enqueue index))
    (stepped : relay.enqueue size index = some next) : next.Tracked := by
  unfold Relay.enqueue at stepped
  cases here : relay.store with
  | none =>
      rw [here] at stepped
      cases stepped
  | some store =>
      rw [here] at stepped
      have good := tracked.store store here
      dsimp only at stepped
      split at stepped
      · rename_i ops client found joined
        rw [if_pos (careful store here ops found)] at stepped
        cases stepped
        constructor
        · have known : relay.batches = client.batches :=
            (batches_of_store here).trans (batches_of_client joined)
          have sent := tracked.sent.enqueue ops
          rw [known, ← client.batches_enqueue] at sent
          exact sent
        · intro other there
          cases there
          constructor
          · exact good.closed
          · intro current there op listed
            cases there
            rw [Client.batches_enqueue]
            rcases good.reached client joined op listed with done | ⟨batch, pended, within⟩ |
              ⟨late, underway, within⟩
            · exact .inl done
            · exact .inr (.inl ⟨batch, List.mem_append_left _ pended, within⟩)
            · rcases List.mem_append.mp underway with committed | handed
              · exact .inr (.inr ⟨late, List.mem_append_left _ committed, within⟩)
              · rcases mem_eraseIdx_or_eq found handed with left | rfl
                · exact .inr (.inr ⟨late, List.mem_append_right _ left, within⟩)
                · right
                  left
                  exact ⟨_, List.mem_concat_self, within⟩
        · exact tracked.saved
      · cases stepped

theorem push (tracked : relay.Tracked) {permits : Client → PendingPush → Bool} {post : Bool}
    (stepped : relay.push index permits post = some next) : next.Tracked := by
  unfold Relay.push at stepped
  cases here : relay.store with
  | none =>
      rw [here] at stepped
      cases stepped
  | some store =>
      rw [here] at stepped
      dsimp only at stepped
      cases joined : store.chatRoom with
      | none =>
          rw [joined] at stepped
          cases stepped
      | some client =>
          rw [joined] at stepped
          dsimp only at stepped
          split at stepped
          · cases stepped
          · rename_i pushed found
            split at stepped
            · cases stepped
              have known : relay.batches = client.batches :=
                (batches_of_store here).trans (batches_of_client joined)
              have same : (if post then client else client.setFlight index).batches =
                  client.batches := by
                cases post with
                | true => rfl
                | false => exact client.batches_setFlight index
              constructor
              · apply tracked.sent.mono _ _ (List.Subset.refl _) (fun _ => id)
                · apply List.append_subset.mpr
                  constructor
                  · exact List.subset_append_left _ _
                  · intro batch listed
                    apply List.mem_append_right
                    rw [known]
                    split at listed
                    · cases List.mem_singleton.mp listed
                      exact client.batch_mem found
                    · cases listed
                · rw [known]
                  change (if post then client else client.setFlight index).batches ⊆ _
                  rw [same]
                  exact List.Subset.refl _
              · intro other there
                cases there
                constructor
                · exact (tracked.store store here).closed
                · intro current there
                  cases there
                  rw [same]
                  exact (tracked.store store here).reached client joined
              · exact tracked.saved
            · cases stepped

theorem serve (tracked : relay.Tracked) {verdict : Verdict}
    (stepped : relay.serve index verdict = some next) : next.Tracked := by
  unfold Relay.serve at stepped
  split at stepped
  · cases stepped
  · rename_i batch found
    have listed := List.mem_of_getElem? found
    -- Each verdict adds to what has been decided, or decides nothing.
    have grow : ∀ more : Nat → Prop, (∀ id, relay.Settled id → more id) →
        (verdict ≠ .quota → ∀ op ∈ batch.ops, more op.id) →
        Sent (relay.pushes.eraseIdx index) relay.batches
            (relay.answers ++ [{ batchId := batch.batchId, verdict }]) more relay.nextBatch ∧
          ∀ store, relay.store = some store → store.Tracked more := by
      intro more grows final
      constructor
      · have sent := (tracked.sent.mono (List.subset_append_left _ _) (List.Subset.refl _)
          (List.Subset.refl _) grows).answer listed final
        apply sent.mono _ (List.Subset.refl _) (List.Subset.refl _) (fun _ => id)
        intro other left
        exact List.mem_append_left _ (List.mem_of_mem_eraseIdx left)
      · intro store here
        exact (tracked.store store here).mono grows
    cases verdict with
    | ack =>
        cases stepped
        rcases grow _ (fun id => Or.imp_left fun old => by
          rw [List.map_append]
          exact List.mem_append_left _ old) (fun _ op within => .inl (List.mem_map_of_mem
            (List.mem_append_right relay.accepted within))) with ⟨sent, store⟩
        exact ⟨sent, store, tracked.saved⟩
    | reject =>
        cases stepped
        rcases grow _ (fun id => Or.imp_right fun old => by
          rw [List.map_append]
          exact List.mem_append_left _ old) (fun _ op within => .inr (List.mem_map_of_mem
            (List.mem_append_right relay.rejected within))) with ⟨sent, store⟩
        exact ⟨sent, store, tracked.saved⟩
    | quota =>
        cases stepped
        rcases grow relay.Settled (fun _ => id) (fun final => absurd rfl final) with ⟨sent, store⟩
        exact ⟨sent, store, tracked.saved⟩

theorem receiveAnswer (tracked : relay.Tracked) (stepped : relay.receiveAnswer index = some next) :
    next.Tracked := by
  unfold Relay.receiveAnswer at stepped
  split at stepped
  · cases stepped
  · rename_i answer found
    have fewer : ({ relay with answers := relay.answers.eraseIdx index } : Relay).Tracked := by
      constructor
      · exact tracked.sent.mono (List.subset_append_left _ _) (List.Subset.refl _)
          (fun _ left => List.mem_of_mem_eraseIdx left) (fun _ => id)
      · exact tracked.store
      · exact tracked.saved
    apply fewer.onStore _ stepped
    intro store changed here acted
    apply (tracked.store store here).receiveAnswer _ acted
    intro final batch pended
    rw [← batches_of_store here] at pended
    exact tracked.sent.decided answer (List.mem_of_getElem? found) final batch pended

theorem importOps (tracked : relay.Tracked) {ops : List DocOp} {seq : Nat}
    (stepped : relay.importOps ops seq = some next) : next.Tracked := by
  apply tracked.onStore _ stepped
  intro store changed here acted
  split at acted
  · rename_i fits
    cases acted
    constructor
    · constructor
      · exact fits.2
      · intro client there op listed
        rcases List.mem_union_iff.mp listed with old | new
        · exact (tracked.store store here).reached client there op old
        · left
          left
          exact List.mem_map_of_mem (fits.1 new)
    · exact List.Subset.refl _
  · cases acted

theorem step {event : Event} (tracked : relay.Tracked) (careful : relay.Careful size event)
    (stepped : step size relay event = some next) :
    next.Tracked := by
  cases event with
  | launch carried => exact tracked.launch stepped
  | stop =>
      cases stepped
      exact tracked.save.kill
  | kill =>
      cases stepped
      exact tracked.kill
  | save =>
      cases stepped
      exact tracked.save
  | commit count => exact tracked.commit stepped
  | connectIfReady => exact tracked.connectIfReady careful stepped
  | handOver index => exact tracked.handOver stepped
  | enqueue index => exact tracked.enqueue careful stepped
  | connect => exact tracked.onClient Client.batches_connect stepped
  | openSocket => exact tracked.onClient Client.batches_openSocket stepped
  | receiveState => exact tracked.onClient Client.batches_receiveState stepped
  | join => exact tracked.onClient Client.batches_join stepped
  | disconnect => exact tracked.onClient Client.batches_onSocketError stepped
  | push index => exact tracked.push stepped
  | pushHead => exact tracked.push stepped
  | post index => exact tracked.push stepped
  | serve index verdict => exact tracked.serve stepped
  | losePush index =>
      cases stepped
      refine ⟨tracked.sent.mono ?_ (List.Subset.refl _) (List.Subset.refl _) (fun _ => id),
        tracked.store, tracked.saved⟩
      intro batch left
      exact List.mem_append_left _ (List.mem_of_mem_eraseIdx left)
  | receiveAnswer index => exact tracked.receiveAnswer stepped
  | loseAnswer index =>
      cases stepped
      exact ⟨tracked.sent.mono (List.subset_append_left _ _) (List.Subset.refl _)
        (fun _ left => List.mem_of_mem_eraseIdx left) (fun _ => id), tracked.store, tracked.saved⟩
  | others count =>
      cases stepped
      have grows : ∀ id, relay.Settled id →
          id ∈ (relay.accepted ++ madeOn relay.accepted relay.nextOp count).map DocOp.id ∨
            id ∈ relay.rejected.map DocOp.id := by
        intro id
        apply Or.imp_left
        rw [List.map_append]
        exact List.mem_append_left _
      exact ⟨tracked.sent.mono (List.subset_append_left _ _) (List.Subset.refl _)
        (List.Subset.refl _) grows, fun store here => (tracked.store store here).mono grows,
        tracked.saved⟩
  | applyCheckpoint ops seq => exact tracked.importOps stepped
  | applyRow ops seq => exact tracked.importOps stepped
  | advanceCursor seq =>
      exact tracked.onCursor (fun store => store.advanceCursor seq)
        (fun _ => ⟨rfl, rfl, rfl, rfl⟩) stepped
  | clampCursor seq =>
      apply tracked.onCursor (fun store => store.clampCursor seq) _ stepped
      intro store
      unfold Store.clampCursor
      split
      · exact ⟨rfl, rfl, rfl, rfl⟩
      · exact ⟨rfl, rfl, rfl, rfl⟩
  | setCursor seq =>
      exact tracked.onCursor (fun store => store.setCursor seq)
        (fun _ => ⟨rfl, rfl, rfl, rfl⟩) stepped
  | setCursorVerified verified =>
      exact tracked.onCursor (fun store => store.setCursorVerified verified)
        (fun _ => ⟨rfl, rfl, rfl, rfl⟩) stepped

/-- Nothing is left to push, so everything has been decided on. -/
theorem kept (tracked : relay.Tracked) (quiet : relay.Quiet) : relay.Kept := by
  intro store here client there _ drained
  have good := tracked.store store here
  have decided : ∀ op ∈ store.doc, relay.Settled op.id := by
    intro op listed
    rcases good.reached client there op listed with done | ⟨batch, pended, _⟩ |
      ⟨update, underway, _⟩
    · exact done
    · unfold Client.batches at pended
      rw [drained] at pended
      cases pended
    · rcases quiet store here with ⟨committed, handed⟩
      rw [committed, handed] at underway
      cases underway
  intro op listed
  constructor
  · exact decided op listed
  · intro dep made
    rcases List.mem_map.mp (good.closed op listed dep made) with ⟨other, there, rfl⟩
    exact decided other there

end Relay.Tracked

/-- With clients that begin at cursor zero or with a document that has been decided on, and
updates within the cap, no edit is stranded. -/
theorem edits_are_kept (size : List DocOp → Nat) {events : List Event}
    (careful : EveryStep (step size) (Relay.Careful size) .initial events) :
    EveryState (step size) (fun relay => relay.Quiet → relay.Kept) .initial events := by
  apply everyState_of_everyStep Relay.Tracked.step _ Relay.Tracked.initial careful
  intro relay tracked
  exact tracked.kept

/-- A phone that is started again after the room has taken its edit. -/
def settledEdits : List Event :=
  [.others 1, .launch 0, .connectIfReady, .enqueue 0, .connect, .openSocket, .receiveState, .push 0,
    .serve 0 .ack, .receiveAnswer 0, .applyRow [{ id := 0, deps := [] }] 1, .advanceCursor 2, .join,
    .commit 1, .handOver 0, .enqueue 0, .push 0, .serve 0 .ack, .receiveAnswer 0, .advanceCursor 3,
    .save, .kill, .launch 0, .connectIfReady, .connect, .openSocket, .receiveState, .join]

theorem edits_are_kept_of_settled :
    EveryState (step fun ops => 100 * ops.length) (fun relay => relay.Quiet → relay.Kept) .initial
      settledEdits := by
  apply edits_are_kept
  apply everyStep_of_checkSteps
    (fun relay event => decide (relay.Careful (fun ops => 100 * ops.length) event))
    (fun _ _ => of_decide_eq_true)
  decide +kernel

/-- The same phone, and the app ends before its edit is pushed. -/
def strandedEdits : List Event :=
  [.others 1, .launch 0, .connectIfReady, .enqueue 0, .connect, .openSocket, .receiveState, .push 0,
    .serve 0 .ack, .receiveAnswer 0, .applyRow [{ id := 0, deps := [] }] 1, .advanceCursor 2, .join,
    .commit 1, .save, .kill, .launch 0, .connectIfReady, .connect, .openSocket, .receiveState, .join]

/-- The rows of other devices have moved the cursor, so the new client does not push the edit. -/
theorem edit_is_stranded :
    ¬ EveryState (step fun ops => 100 * ops.length) (fun relay => relay.Quiet → relay.Kept) .initial
      strandedEdits := by
  intro every
  have stranded : ∃ final ∈ run (step fun ops => 100 * ops.length) .initial strandedEdits,
      final.Quiet ∧ ¬ final.Kept := by
    decide +kernel
  rcases stranded with ⟨final, ran, quiet, lost⟩
  exact lost (every.final ran quiet)

end Zeron.Chat.Viewer
