import Zeron.Queue.Document
import Zeron.Transition.Run

/-!
# Delivering queued messages

Devices push, edit and move queued messages on their own replicas; the one that hosts
the chat hands them to its agent.  All that takes a row out of the queue goes through
the drain lock of the device, and what a send is about is held in memory between the
commit that takes the row and the end of `dispatch_queued`.

Commits spread to the other devices in any order that the document allows, and a
device shows what the document library makes of those that it has taken.  Every device
goes by its own view of who hosts the chat.
-/

namespace Zeron.Queue

open Zeron.Data.Replicated
open Zeron.Transition

/-- The entry points that take a row. -/
inductive QueueSend where
  | nextTurn
  | interrupt
  | steer
  deriving DecidableEq

/-- Where `dispatch_queued` is. -/
inductive DispatchStage where
  | steering
  | interrupting
  | dispatching
  deriving DecidableEq

def QueueSend.firstStage : QueueSend → DispatchStage
  | .nextTurn => .dispatching
  | .interrupt => .interrupting
  | .steer => .steering

/-- A row taken for a send. -/
structure Sending (τ : Type) where
  item : QueuedMessage τ
  send : QueueSend
  wasPaused : Bool
  stage : DispatchStage
  /-- The agent has it. -/
  accepted : Bool
  deriving DecidableEq

inductive DrainLock (τ : Type) where
  | free
  /-- At the top of the loop of `drain_queue`. -/
  | draining
  | sending (sending : Sending τ)
  deriving DecidableEq

/-- A call that waits for the drain lock. -/
inductive HostCall (τ : Type) where
  | drainQueue
  | sendQueuedNow (id : Nat)
  | steerQueuedNow (id : Nat)
  | removeQueuedMessage (id : Nat)
  | beginEdit (id leaseId : Nat)
  | renewEdit (id leaseId : Nat)
  | finishEdit (id leaseId : Nat) (action : FinishQueueEditAction τ)
  | expireEdit (id leaseId scheduledMs : Nat)

/-- All but the timer of a lease are refused on other devices than the host. -/
def HostCall.needsHost {τ : Type} : HostCall τ → Bool
  | .expireEdit _ _ _ => false
  | _ => true

structure Device (τ : Type) where
  /-- The commits in its replica, the newest first. -/
  taken : List (QueueCommit τ)
  /-- Its own view: `is_host`. -/
  hosts : Bool
  calls : List (HostCall τ)
  drainLock : DrainLock τ
  queuePaused : Bool
  /-- A turn is in flight or starting. -/
  turnInFlight : Bool

structure Chat (τ : Type) where
  /-- All commits to the queue, the newest first. -/
  log : List (QueueCommit τ)
  devices : List (Device τ)
  /-- The ids that were ever pushed. -/
  pushed : List Nat
  /-- The ids that a user has removed or edited away. -/
  removed : List Nat
  /-- The ids that an agent was given, once for each time. -/
  delivered : List Nat

variable {τ : Type} (list : QueueList τ)

namespace Device

/-- The queue that the device shows. -/
def doc (device : Device τ) : SessionDoc τ :=
  list device.taken

def names (device : Device τ) : List Nat :=
  device.taken.map Commit.name

/-- A device without a replica of its own yet. -/
def fresh : Device τ where
  taken := []
  hosts := false
  calls := []
  drainLock := .free
  queuePaused := false
  turnInFlight := false

def free (device : Device τ) : Device τ :=
  { device with drainLock := .free }

def setSending (device : Device τ) (sending : Sending τ) : Device τ :=
  { device with drainLock := .sending sending }

/-- The lock is held for a row that is taken. -/
def beginSending (device : Device τ) (item : QueuedMessage τ) (send : QueueSend) : Device τ :=
  { device with
    drainLock := .sending
      { item, send, wasPaused := device.queuePaused, stage := send.firstStage, accepted := false }
    queuePaused := if send = .nextTurn then device.queuePaused else false }

/-- After `Ok`: a drain goes on with the next row. -/
def endSending (device : Device τ) (send : QueueSend) : Device τ :=
  { device with drainLock := if send = .nextTurn then .draining else .free }

/-- After an error: a drain pauses the queue, the others restore the pause. -/
def pauseAgain (device : Device τ) (sending : Sending τ) : Device τ :=
  { device with
    drainLock := .free
    queuePaused := device.queuePaused || sending.wasPaused || sending.send == .nextTurn }

/-- Started again on its document; a queue that was left over is frozen. -/
def restart (device : Device τ) : Device τ :=
  { device with
    calls := []
    drainLock := .free
    queuePaused := !(device.doc list).isEmpty
    turnInFlight := false }

end Device

namespace Chat

/-- `count` devices, and no message yet. -/
def initial (count : Nat) : Chat τ where
  log := []
  devices := List.replicate count .fresh
  pushed := []
  removed := []
  delivered := []

/-- A device changes apart from its replica. -/
def put (chat : Chat τ) (i : Nat) (device : Device τ) : Chat τ :=
  { chat with devices := chat.devices.set i device }

def newCommit (chat : Chat τ) (device : Device τ) (op : QueueOp τ) : QueueCommit τ where
  name := chat.log.length
  seen := device.names
  op := op

/-- A device commits to its replica. -/
def commit (chat : Chat τ) (i : Nat) (device : Device τ) (op : QueueOp τ) : Chat τ :=
  { chat with
    log := chat.newCommit device op :: chat.log
    devices := chat.devices.set i
      { device with taken := chat.newCommit device op :: device.taken } }

/-- A user's edit of a row, which may drop it. -/
def edit (chat : Chat τ) (i : Nat) (device : Device τ) (id : Nat) :
    Option (QueueOp τ) → Chat τ
  | none => chat.put i device
  | some (.delete name) =>
      { chat.commit i device (.delete name) with removed := id :: chat.removed }
  | some op => chat.commit i device op

/-- A row is taken for a send, if it is there and has no gate. -/
def takeFor (chat : Chat τ) (i : Nat) (device : Device τ) (send : QueueSend) (id : Nat) : Chat τ :=
  match (device.doc list).takeQueued id with
  | none => chat.put i device.free
  | some (item, op) => chat.commit i (device.beginSending item send) op

/-- The edit that a call is about. -/
def editOf [DecidableEq τ] (doc : SessionDoc τ) (now : Nat) :
    HostCall τ → Option (Nat × Option (QueueOp τ))
  | .drainQueue | .sendQueuedNow _ | .steerQueuedNow _ => none
  | .removeQueuedMessage id => some (id, doc.removeQueued id)
  | .beginEdit id leaseId => some (id, doc.beginEdit now id leaseId)
  | .renewEdit id leaseId => some (id, doc.renewEdit now id leaseId)
  | .finishEdit id leaseId action => some (id, doc.finishEdit id leaseId action)
  | .expireEdit id leaseId scheduledMs => some (id, doc.expireEdit now id leaseId scheduledMs)

/-- A call has the drain lock. -/
def serve [DecidableEq τ] (chat : Chat τ) (i : Nat) (device : Device τ) (now : Nat)
    (call : HostCall τ) : Chat τ :=
  match call with
  | .drainQueue =>
      if device.queuePaused then chat.put i device
      else chat.put i { device with drainLock := .draining }
  | .sendQueuedNow id => chat.takeFor list i device .interrupt id
  | .steerQueuedNow id =>
      match (device.doc list).find id with
      | none => chat.put i device
      | some row =>
          if row.value.attachments ≠ [] then chat.put i device
          else chat.takeFor list i device .steer id
  | call =>
      match editOf (device.doc list) now call with
      | none => chat.put i device
      | some (id, op) => chat.edit i device id op

/-- The loop of `drain_queue`: the head goes out if it is free to and the agent is idle. -/
def drain (chat : Chat τ) (i : Nat) (device : Device τ) (now : Nat) : Chat τ :=
  if device.hosts = false then chat.put i device.free
  else
    match (device.doc list).head? with
    | none => chat.put i device.free
    | some head =>
        match head.value.deliveryGate with
        | some (.editing leaseId expiresAtMs baseText) =>
            if expiresAtMs ≤ now then
              chat.edit i device.free head.value.id
                ((device.doc list).setQueuedDeliveryGate head.value.id
                  (some (.reviewRequired leaseId baseText)))
            else chat.put i device.free
        | some (.reviewRequired _ _) => chat.put i device.free
        | none =>
            if device.turnInFlight then chat.put i device.free
            else chat.takeFor list i device .nextTurn head.value.id

/-- The agent is given the message. -/
def deliver (chat : Chat τ) (i : Nat) (device : Device τ) (sending : Sending τ) : Chat τ :=
  { chat with
    devices := chat.devices.set i
      { device.setSending { sending with accepted := true } with turnInFlight := true }
    delivered := sending.item.id :: chat.delivered }

end Chat

/-- What happens to the queue of a chat. -/
inductive Event (τ : Type) where
  /-- `queue_message` under a new id. -/
  | push (i id : Nat) (text : τ) (attachments : List Nat)
  /-- `update_queued_message`; `none` is a blank text. -/
  | setText (i id : Nat) (text : Option τ)
  | move (i id toIndex : Nat)
  /-- A commit of another device arrives. -/
  | sync (i name : Nat)
  | setHost (i : Nat) (hosts : Bool)
  /-- A turn begins or ends. -/
  | turn (i : Nat) (inFlight : Bool)
  /-- Other prompts thaw the queue, and a shutdown freezes it. -/
  | pause (i : Nat) (paused : Bool)
  | call (i : Nat) (call : HostCall τ)
  /-- A call ends without having changed anything. -/
  | refuse (i k : Nat)
  | serve (i k now : Nat)
  | drain (i now : Nat)
  /-- The turn was not steerable, or has been interrupted. -/
  | advance (i : Nat)
  | accept (i : Nat)
  /-- `dispatch_queued` returns `Ok`. -/
  | sent (i : Nat)
  /-- It returns an error, at any point. -/
  | failed (i : Nat)
  /-- A user's Stop; `stopped` if there was a turn to stop. -/
  | stop (i : Nat) (stopped : Bool)
  | crash (i : Nat)

variable [DecidableEq τ]

def step : Step (Chat τ) (Event τ)
  | chat, .push i id text attachments =>
      (chat.devices[i]?).bind fun device =>
        if id ∈ chat.pushed then none
        else some { chat.commit i device (.insert (device.doc list).length
          { id, text, attachments, deliveryGate := none }) with pushed := id :: chat.pushed }
  | chat, .setText i id text =>
      (chat.devices[i]?).map fun device =>
        chat.edit i device id ((device.doc list).setQueuedText id text)
  | chat, .move i id toIndex =>
      (chat.devices[i]?).bind fun device =>
        ((device.doc list).moveQueued id toIndex).map fun op => chat.commit i device op
  | chat, .sync i name =>
      (chat.devices[i]?).bind fun device =>
        (chat.log.find? fun commit => decide (commit.name = name)).bind fun commit =>
          if name ∈ device.names ∨ ¬ ∀ seen ∈ commit.seen, seen ∈ device.names then none
          else some (chat.put i { device with taken := commit :: device.taken })
  | chat, .setHost i hosts =>
      (chat.devices[i]?).map fun device => chat.put i { device with hosts }
  | chat, .turn i turnInFlight =>
      (chat.devices[i]?).map fun device => chat.put i { device with turnInFlight }
  | chat, .pause i queuePaused =>
      (chat.devices[i]?).map fun device => chat.put i { device with queuePaused }
  | chat, .call i call =>
      (chat.devices[i]?).bind fun device =>
        if call.needsHost && !device.hosts then none
        else some (chat.put i { device with calls := device.calls ++ [call] })
  | chat, .refuse i k =>
      (chat.devices[i]?).map fun device =>
        chat.put i { device with calls := device.calls.eraseIdx k }
  | chat, .serve i k now =>
      (chat.devices[i]?).bind fun device =>
        if device.drainLock = .free then
          (device.calls[k]?).map fun call =>
            chat.serve list i { device with calls := device.calls.eraseIdx k } now call
        else none
  | chat, .drain i now =>
      (chat.devices[i]?).bind fun device =>
        if device.drainLock = .draining then some (chat.drain list i device now) else none
  | chat, .advance i =>
      (chat.devices[i]?).bind fun device =>
        match device.drainLock with
        | .sending sending =>
            match sending.stage with
            | .steering =>
                if sending.accepted then none
                else some (chat.put i (device.setSending { sending with stage := .dispatching }))
            | .interrupting =>
                some (chat.put i { device.setSending { sending with stage := .dispatching } with
                  turnInFlight := false })
            | .dispatching => none
        | .free | .draining => none
  | chat, .accept i =>
      (chat.devices[i]?).bind fun device =>
        match device.drainLock with
        | .sending sending =>
            if sending.accepted || sending.stage == .interrupting ||
                sending.stage == .steering && !device.turnInFlight then none
            else some (chat.deliver i device sending)
        | .free | .draining => none
  | chat, .sent i =>
      (chat.devices[i]?).bind fun device =>
        match device.drainLock with
        | .sending sending =>
            if sending.accepted then some (chat.put i (device.endSending sending.send)) else none
        | .free | .draining => none
  | chat, .failed i =>
      (chat.devices[i]?).bind fun device =>
        match device.drainLock with
        | .sending sending =>
            some (chat.commit i (device.pauseAgain sending) (.insert 0 sending.item))
        | .free | .draining => none
  | chat, .stop i stopped =>
      (chat.devices[i]?).bind fun device =>
        if device.drainLock = .free then
          some (chat.put i { device with
            queuePaused := device.queuePaused || stopped
            turnInFlight := device.turnInFlight && !stopped })
        else none
  | chat, .crash i => (chat.devices[i]?).map fun device => chat.put i (device.restart list)

end Zeron.Queue
