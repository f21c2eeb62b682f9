import Zeron.Data.SortBy
import Zeron.Data.Table
import Zeron.Transition.Run

/-!
# Wake receipts of a device room

A device's room keeps one receipt for each chat that its host is to look at.
A host that acknowledges is sent a window of receipts, and retires each by its
token; an older host is sent each receipt once.
-/

namespace Zeron.Nudges

open Zeron.Data
open Zeron.Transition

/-- `NUDGE_PAGE`. -/
def nudgePage : Nat := 64

/-- `NUDGE_CAP`. -/
def nudgeCap : Nat := 4096

/-- `HOST_LIVENESS_MS`. -/
def hostLivenessMs : Nat := 75000

/-- A row of `pending_nudges`. -/
structure Receipt where
  chatId : String
  queuedAt : Nat
  token : String
  deriving DecidableEq

/-- What a nudge frame carries. -/
structure PendingNudge where
  chatId : String
  token : String
  deriving DecidableEq

/-- A host's socket, with its attachment and the time of its last auto-response. -/
structure HostSocket where
  id : Nat
  joinedAt : Nat
  pongAt : Option Nat
  nudgeAck : Bool
  nudgeInflight : List String
  deriving DecidableEq

def HostSocket.lastSeenAt (socket : HostSocket) : Nat :=
  max (socket.pongAt.getD 0) socket.joinedAt

structure DeviceRoom where
  pendingNudges : Table Receipt.chatId
  /-- The token of the overflow marker. -/
  nudgeReconcile : Option String
  hosts : List HostSocket
  deriving DecidableEq

/-- `CHAT_ID_RE`: 1 to 64 letters, digits or characters of `_`, `-`. -/
def chatIdRe (text : String) : Bool :=
  let chars := text.toList
  decide (1 ≤ chars.length) && decide (chars.length ≤ 64) &&
    chars.all fun char => char.isAlphanum || char == '_' || char == '-'

namespace DeviceRoom

def start : DeviceRoom :=
  { pendingNudges := .empty, nudgeReconcile := none, hosts := [] }

/-! ## Receipts -/

/-- `enqueueNudge`: false when the room is full. -/
def enqueueNudge (room : DeviceRoom) (chatId token : String) (now : Nat) : DeviceRoom × Bool :=
  if (room.pendingNudges.get chatId).isNone ∧ nudgeCap ≤ room.pendingNudges.rows.length then
    ({ room with nudgeReconcile := some token }, false)
  else
    ({ room with pendingNudges := room.pendingNudges.put { chatId, queuedAt := now, token } }, true)

/-- Every receipt to send: the overflow marker first, then the oldest. -/
def backlog (room : DeviceRoom) : List PendingNudge :=
  (room.nudgeReconcile.map fun token => ⟨"*", token⟩).toList ++
    (sortBy (fun row => toLex (row.queuedAt, row.chatId)) room.pendingNudges.rows).map fun row =>
      ⟨row.chatId, row.token⟩

/-- `pendingNudges`: the marker and two pages. -/
def page (room : DeviceRoom) : List PendingNudge :=
  (room.nudgeReconcile.map fun token => ⟨"*", token⟩).toList ++
    ((sortBy (fun row => toLex (row.queuedAt, row.chatId)) room.pendingNudges.rows).take
      (nudgePage * 2)).map fun row => ⟨row.chatId, row.token⟩

def acknowledgeNudge (room : DeviceRoom) (chatId token : String) : DeviceRoom :=
  if chatId = "*" then
    { room with nudgeReconcile := room.nudgeReconcile.filter (· ≠ token) }
  else
    { room with
      pendingNudges := room.pendingNudges.remove fun row =>
        decide (row.chatId = chatId) && decide (row.token = token) }

/-! ## Hosts -/

/-- `pickLiveHost`: the freshest host, the first among equals. -/
def freshest : List HostSocket → Option HostSocket
  | [] => none
  | host :: rest =>
      some (rest.foldl (fun best host => if best.lastSeenAt < host.lastSeenAt then host else best)
        host)

def liveHost (room : DeviceRoom) (now : Nat) : Option HostSocket :=
  (freshest room.hosts).filter fun host => decide (now - host.lastSeenAt ≤ hostLivenessMs)

/-- `serializeAttachment`, as far as receipts go. -/
def attach (room : DeviceRoom) (id : Nat) (inflight : List String) : DeviceRoom :=
  { room with
    hosts := room.hosts.map fun host =>
      if host.id = id then { host with nudgeInflight := inflight } else host }

/-- The state of the loop of `replayNudges`. -/
structure Replay where
  room : DeviceRoom
  inflight : List String
  sent : List PendingNudge

/-- The loop: what it has sent so far, over the rows still to look at. -/
def replayRows (nudgeAck : Bool) : List PendingNudge → Replay → Replay
  | [], replay => replay
  | row :: rest, replay =>
      if nudgeAck = true ∧ row.token ∈ replay.inflight then replayRows nudgeAck rest replay
      else if nudgePage ≤ (if nudgeAck then replay.inflight.length else replay.sent.length) then
        replay
      else if row.chatId = "*" ∧ nudgeAck = false then replayRows nudgeAck rest replay
      else if nudgeAck then
        replayRows nudgeAck rest
          { replay with
            inflight := replay.inflight ++ [row.token], sent := replay.sent ++ [row] }
      else
        -- An older host is not going to acknowledge, so its receipt is retired here.
        replayRows nudgeAck rest
          { replay with
            room := replay.room.acknowledgeNudge row.chatId row.token
            sent := replay.sent ++ [row] }

/-- What an event leaves, which frames it sends, and whether their host acknowledges. -/
structure Outcome where
  room : DeviceRoom
  frames : List PendingNudge
  nudgeAck : Bool

/-- `replayNudges`. -/
def replayNudges (room : DeviceRoom) (host : HostSocket) : Outcome :=
  let replay := replayRows host.nudgeAck room.page ⟨room, host.nudgeInflight, []⟩
  { room := replay.room.attach host.id replay.inflight
    frames := replay.sent
    nudgeAck := host.nudgeAck }

/-! ## Events -/

/-- Nothing is sent. -/
def quiet (room : DeviceRoom) : Outcome :=
  { room, frames := [], nudgeAck := true }

/-- `POST /nudge` of a chat id that is well formed; the answer is 200 or 503. -/
def nudge (room : DeviceRoom) (chatId token : String) (now : Nat) : Outcome × Bool :=
  let (queued, accepted) := room.enqueueNudge chatId token now
  match queued.liveHost now with
  | some host => (queued.replayNudges host, accepted)
  | none => (queued.quiet, accepted)

/-- A host's `/ws`.  The sockets before it are closed; they are listed until they are gone. -/
def join (room : DeviceRoom) (id now : Nat) (nudgeAck : Bool) : Outcome :=
  let host : HostSocket := { id, joinedAt := now, pongAt := none, nudgeAck, nudgeInflight := [] }
  replayNudges { room with hosts := room.hosts ++ [host] } host

def alarm (room : DeviceRoom) (now : Nat) : Outcome :=
  match room.liveHost now with
  | none => room.quiet
  | some host => (room.attach host.id []).replayNudges { host with nudgeInflight := [] }

/-- A `nudgeAck` frame from a host's socket. -/
def nudgeAck (room : DeviceRoom) (id : Nat) (chatId token : String) : Outcome :=
  match room.hosts.find? fun host => decide (host.id = id) && host.nudgeAck with
  | none => room.quiet
  | some host =>
      let inflight := host.nudgeInflight.filter (· ≠ token)
      ((room.acknowledgeNudge chatId token).attach id inflight).replayNudges
        { host with nudgeInflight := inflight }

def pong (room : DeviceRoom) (id now : Nat) : DeviceRoom :=
  { room with
    hosts := room.hosts.map fun host => if host.id = id then { host with pongAt := some now } else host }

def gone (room : DeviceRoom) (id : Nat) : DeviceRoom :=
  { room with hosts := room.hosts.filter fun host => decide (host.id ≠ id) }

end DeviceRoom

/-- An event of the room.  `arrives` says which of the tokens sent at it reach the host. -/
inductive Event where
  | nudge (chatId token : String) (now : Nat) (arrives : String → Bool)
  | join (id now : Nat) (nudgeAck : Bool) (arrives : String → Bool)
  | pong (id now : Nat)
  | gone (id : Nat)
  | alarm (now : Nat) (arrives : String → Bool)
  | nudgeAck (id : Nat) (chatId token : String) (arrives : String → Bool)

/-- A room with the history of its receipts. -/
structure NudgeRecord where
  room : DeviceRoom
  /-- The chats whose nudge was answered with 200, each with its token, the last first. -/
  issued : List (String × String)
  /-- Every token made. -/
  made : List String
  /-- The tokens of the frames sent, of those that reached a host, and of those sent to a host
  that does not acknowledge. -/
  sent : List String
  received : List String
  unacknowledged : List String

namespace NudgeRecord

def start : NudgeRecord :=
  { room := .start, issued := [], made := [], sent := [], received := [], unacknowledged := [] }

/-- The record with what an event has sent. -/
def deliver (record : NudgeRecord) (outcome : DeviceRoom.Outcome) (arrives : String → Bool) :
    NudgeRecord :=
  let tokens := outcome.frames.map PendingNudge.token
  { record with
    room := outcome.room
    sent := record.sent ++ tokens
    received := record.received ++ tokens.filter arrives
    unacknowledged := if outcome.nudgeAck then record.unacknowledged
      else record.unacknowledged ++ tokens }

/-- One event.  Each nudge makes a token of its own, and a host acknowledges only what has
reached one. -/
def step : Step NudgeRecord Event := fun record event =>
  match event with
  | .nudge chatId token now arrives =>
      if chatIdRe chatId = false ∨ token ∈ record.made then none
      else
        let (outcome, accepted) := record.room.nudge chatId token now
        some <| ({ record with
          made := token :: record.made
          issued := if accepted then (chatId, token) :: record.issued else record.issued }).deliver
            outcome arrives
  | .join id now nudgeAck arrives =>
      if record.room.hosts.any fun host => decide (host.id = id) then none
      else some (record.deliver (record.room.join id now nudgeAck) arrives)
  | .pong id now => some { record with room := record.room.pong id now }
  | .gone id => some { record with room := record.room.gone id }
  | .alarm now arrives => some (record.deliver (record.room.alarm now) arrives)
  | .nudgeAck id chatId token arrives =>
      if token ∈ record.received then
        some (record.deliver (record.room.nudgeAck id chatId token) arrives)
      else none

end NudgeRecord

end Zeron.Nudges
