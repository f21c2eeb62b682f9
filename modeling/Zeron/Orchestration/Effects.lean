import Zeron.Data.Table
import Zeron.Transition.Run
import Mathlib.Algebra.Group.Int.Defs

/-!
# The effect outbox

Effects are leased, one at a time in each lane of a thread.  A worker claims an
effect, marks that its dispatch begins, and finishes or abandons it under the
claim it holds.  All operations are single statements over one table, or a few
of them in one transaction.
-/

namespace Zeron.Orchestration

open Data

inductive TitleKind where
  | initial (messageId : String)
  | regenerate
  deriving DecidableEq

/-- Decision and answers of a response are left out. -/
inductive EffectRequest where
  | delegatedCompletionContinue (parentRunId : String) (generation : Int) (messageId : String)
  | managedRunInterrupt (runId : String)
  | providerRuntimeContinue (sourceRunId : String)
  | providerSessionDetach (providerSessionId : String)
  | providerSessionDisconnect (providerSessionId runId runAttemptId providerThreadId : String)
  | providerTurnStart (runId : String)
  | providerTurnInterrupt (providerSessionId providerThreadId providerTurnId : String)
  | providerTurnSteer (providerSessionId providerThreadId providerTurnId messageId : String)
  | providerTurnRestart
      (providerSessionId providerThreadId providerTurnId interruptedAttemptId runId : String)
  | runtimeRequestRespond (providerSessionId requestId : String)
  | providerThreadRollback (providerThreadId checkpointId scopeId : String)
  | checkpointCapture (runId scopeId : String)
  | terminalCleanup
  | attachmentCleanup (attachmentIds : List String)
  | queuedAttachmentCleanup (paths : List String)
  | threadTitleGenerate (kind : TitleKind)
  deriving DecidableEq

inductive Lane where
  | title
  | provider
  deriving DecidableEq

namespace EffectRequest

def processBound : EffectRequest → Bool
  | providerTurnStart _ => true
  | managedRunInterrupt _ => true
  | providerTurnInterrupt _ _ _ => true
  | providerTurnSteer _ _ _ _ => true
  | providerTurnRestart _ _ _ _ _ => true
  | runtimeRequestRespond _ _ => true
  | _ => false

def lane : EffectRequest → Lane
  | threadTitleGenerate _ => .title
  | _ => .provider

/-- `effect_type='provider-turn.steer'`. -/
def isSteer : EffectRequest → Bool
  | providerTurnSteer _ _ _ _ => true
  | _ => false

/-- `json_extract(payload_json,'$.messageId')` of a steering input. -/
def steeredMessage : EffectRequest → Option String
  | providerTurnSteer _ _ _ messageId => some messageId
  | _ => none

end EffectRequest

inductive EffectStatus where
  | pending
  | running
  | succeeded
  | failed
  | cancelled
  | uncertain
  deriving DecidableEq

/-- What a worker holds after its claim. -/
structure Effect where
  id : String
  commandId : String
  threadId : String
  request : EffectRequest
  status : EffectStatus
  attemptCount : Nat
  availableAt : Int
  leaseOwner : Option String
  leaseExpiresAt : Option Int
  dispatchStarted : Bool
  lastError : Option String

/-- A row of `orchestration_effect_outbox`. -/
structure EffectRow extends Effect where
  ordinal : Nat
  createdAt : Int
  completedAt : Option Int

namespace EffectRow

/-- The column `effect_id`. -/
abbrev effectId (row : EffectRow) : String :=
  row.id

/-- The row bars its lane. -/
def active (row : EffectRow) : Bool :=
  row.status == .running || row.status == .uncertain

/-- One thread and one lane. -/
def sameLane (first second : EffectRow) : Bool :=
  first.threadId == second.threadId && first.request.lane == second.request.lane

/-- The order of `NEXT_PENDING_EFFECT`. -/
def before (first second : EffectRow) : Bool :=
  decide (first.availableAt < second.availableAt) ||
    (first.availableAt == second.availableAt && decide (first.ordinal < second.ordinal))

/-- SQL equality with an owner; an absent one equals nothing. -/
def ownedBy (row : EffectRow) (owner : Option String) : Bool :=
  row.leaseOwner.isSome && row.leaseOwner == owner

/-- The row is held under the worker and the claim generation of an effect. -/
def heldUnder (row : EffectRow) (effect : Effect) : Bool :=
  row.id == effect.id && row.status == .running && row.ownedBy effect.leaseOwner &&
    row.attemptCount == effect.attemptCount

def leaseAfter (row : EffectRow) (now : Int) : Bool :=
  row.leaseExpiresAt.any fun expiry => decide (now < expiry)

def leaseExpired (row : EffectRow) (now : Int) : Bool :=
  row.leaseExpiresAt.any fun expiry => decide (expiry ≤ now)

/-- The row that `ORDER BY available_at, ordinal LIMIT 1` returns. -/
def earliest : List EffectRow → Option EffectRow
  | [] => none
  | row :: rows =>
      match earliest rows with
      | none => some row
      | some other => if other.before row then some other else some row

theorem earliest_mem {rows : List EffectRow} {row : EffectRow}
    (found : earliest rows = some row) : row ∈ rows := by
  induction rows generalizing row with
  | nil => cases found
  | cons first rest ih =>
      rw [earliest] at found
      cases later : earliest rest with
      | none =>
          rw [later] at found
          cases found
          exact List.mem_cons_self
      | some other =>
          rw [later] at found
          simp only at found
          split at found
          · cases found
            exact List.mem_cons_of_mem _ (ih later)
          · cases found
            exact List.mem_cons_self

end EffectRow

inductive EffectOutcome where
  | succeeded
  /-- The executor knows that a retry is safe. -/
  | retry
  | failed
  | uncertain

def saturatingAdd (first second : Int) : Int :=
  max (-(2 ^ 63)) (min (2 ^ 63 - 1) (first + second))

def retryDelayMs (attemptCount : Nat) : Int :=
  min (100 * 2 ^ min (attemptCount - 1) 20) 30000

/-- The outbox, the ordinal of its next row and the effects whose steering
input a provider has acknowledged. -/
structure Outbox where
  rows : Table EffectRow.effectId
  nextOrdinal : Nat
  acceptances : List String

namespace Outbox

def empty : Outbox :=
  { rows := Table.empty, nextOrdinal := 1, acceptances := [] }

/-- An `UPDATE` of the outbox. -/
def update (outbox : Outbox) (which : EffectRow → Bool) (set : EffectRow → EffectRow)
    (keeps : ∀ row, (set row).id = row.id) : Outbox :=
  { outbox with rows := outbox.rows.update which set keeps }

/-- The request is a steering input that its provider has acknowledged. -/
def confirmedSteer (outbox : Outbox) (effect : Effect) : Bool :=
  effect.request.isSteer && decide (effect.id ∈ outbox.acceptances)

/-- `retire_for_start`: `stopped` are the messages of earlier, terminal runs of
the thread. -/
def retireForStart (outbox : Outbox) (thread : String) (stopped : List String) (now : Int) :
    Outbox :=
  outbox.update
    (fun row => row.threadId == thread && row.status == .uncertain &&
      row.request.steeredMessage.any fun message => decide (message ∈ stopped))
    (fun row => { row with
      status := .cancelled
      completedAt := some now
      lastError := some "Unconfirmed steering retained for explicit follow-up." })
    (fun _ => rfl)

def enqueue (outbox : Outbox) (id command thread : String) (request : EffectRequest)
    (stopped : List String) (now : Int) : Option Outbox :=
  let retired :=
    match request with
    | .providerTurnStart _ => outbox.retireForStart thread stopped now
    | _ => outbox
  let row : EffectRow := {
    id, commandId := command, threadId := thread, request
    status := .pending
    attemptCount := 0
    availableAt := now
    leaseOwner := none
    leaseExpiresAt := none
    dispatchStarted := false
    lastError := none
    ordinal := retired.nextOrdinal
    createdAt := now
    completedAt := none }
  (retired.rows.insert row).map fun rows =>
    { retired with rows, nextOrdinal := retired.nextOrdinal + 1 }

def cancelProcess (outbox : Outbox) (thread : String) (now : Int) : Outbox :=
  outbox.update
    (fun row => row.threadId == thread && row.request.processBound &&
      (row.status == .pending || row.status == .running ||
        (row.request.isSteer && row.status == .uncertain)))
    (fun row => { row with
      status := .cancelled
      leaseOwner := none
      leaseExpiresAt := none
      completedAt := some now
      lastError := some "Process work retired by owner." })
    (fun _ => rfl)

/-- The first statement of `claim_effect`. -/
def expireLeases (outbox : Outbox) (now : Int) : Outbox :=
  outbox.update
    (fun row => row.status == .running && row.leaseExpired now)
    (fun row => { row with
      status := if row.request.processBound && row.dispatchStarted then .uncertain else .pending
      leaseOwner := none
      leaseExpiresAt := none
      availableAt := now
      lastError := some "Effect lease expired." })
    (fun _ => rfl)

/-- A candidate of `NEXT_PENDING_EFFECT`. -/
def claimable (outbox : Outbox) (candidate : EffectRow) : Bool :=
  candidate.status == .pending &&
    !(outbox.rows.rows.any fun row => row.sameLane candidate && row.active) &&
    !(outbox.rows.rows.any fun row => row.sameLane candidate && row.status == .pending &&
      decide (row.ordinal < candidate.ordinal))

/-- `NEXT_PENDING_EFFECT`. -/
def nextPending (outbox : Outbox) : Option EffectRow :=
  EffectRow.earliest (outbox.rows.rows.filter outbox.claimable)

/-- The row that a claim at `now` takes, once leases have expired. -/
def due (outbox : Outbox) (now : Int) : Option EffectRow :=
  outbox.nextPending.filter fun row => decide (row.availableAt ≤ now)

def lease (outbox : Outbox) (id worker : String) (now leaseMs : Int) : Outbox :=
  outbox.update (fun row => row.id == id)
    (fun row => { row with
      status := .running
      attemptCount := row.attemptCount + 1
      leaseOwner := some worker
      leaseExpiresAt := some (saturatingAdd now (max leaseMs 1))
      dispatchStarted := false })
    (fun _ => rfl)

def claimEffect (outbox : Outbox) (worker : String) (now leaseMs : Int) :
    Outbox × Option Effect :=
  let expired := outbox.expireLeases now
  match expired.due now with
  | none => (expired, none)
  | some row =>
      let claimed := expired.lease row.id worker now leaseMs
      (claimed, (claimed.rows.get row.id).map EffectRow.toEffect)

def beginEffect (outbox : Outbox) (effect : Effect) (now : Int) : Outbox × Bool :=
  let which := fun row : EffectRow =>
    row.heldUnder effect && row.leaseAfter now && !row.dispatchStarted
  (outbox.update which (fun row => { row with dispatchStarted := true }) (fun _ => rfl),
    outbox.rows.count which == 1)

/-- Status, availability and error that an outcome leaves. -/
def settlement (effect : Effect) (outcome : EffectOutcome) (now : Int) (maxAttempts : Nat) :
    EffectStatus × Int × Option String :=
  match outcome with
  | .succeeded => (.succeeded, now, none)
  | .uncertain => (.uncertain, now, some "External acceptance is uncertain.")
  | .failed => (.failed, now, some "Effect execution failed.")
  | .retry =>
      if effect.attemptCount < max maxAttempts 1 then
        (.pending, saturatingAdd now (retryDelayMs effect.attemptCount),
          some "Retryable effect execution failure.")
      else
        (.failed, now, some "Effect retry budget exhausted.")

def finishEffect (outbox : Outbox) (effect : Effect) (outcome : EffectOutcome) (now : Int)
    (maxAttempts : Nat) : Outbox × Bool :=
  let settled := settlement effect outcome now maxAttempts
  -- A receipt wins over what the worker observed.
  let status := if outbox.confirmedSteer effect then .succeeded else settled.1
  let error := if outbox.confirmedSteer effect then none else settled.2.2
  let which := fun row : EffectRow => row.heldUnder effect && row.leaseAfter now
  (outbox.update which
      (fun row => { row with
        status
        availableAt := settled.2.1
        leaseOwner := none
        leaseExpiresAt := none
        lastError := error
        completedAt := if status = .succeeded ∨ status = .failed then some now else none })
      (fun _ => rfl),
    outbox.rows.count which == 1)

def cancelEffect (outbox : Outbox) (id : String) (now : Int) : Outbox × Bool :=
  let which := fun row : EffectRow => row.id == id && (row.status == .pending || row.active)
  (outbox.update which
      (fun row => { row with
        status := .cancelled
        completedAt := some now
        leaseOwner := none
        leaseExpiresAt := none
        lastError := some "Cancelled by owner." })
      (fun _ => rfl),
    outbox.rows.count which == 1)

def abandonEffect (outbox : Outbox) (effect : Effect) (now : Int) : Outbox × Bool :=
  let which := fun row : EffectRow => row.heldUnder effect
  if outbox.confirmedSteer effect then
    (outbox.update which
        (fun row => { row with
          status := .succeeded
          leaseOwner := none
          leaseExpiresAt := none
          completedAt := some now
          lastError := none })
        (fun _ => rfl),
      outbox.rows.count which == 1)
  else
    (outbox.update which
        (fun row => { row with
          status := if row.request.processBound then .uncertain else .pending
          leaseOwner := none
          leaseExpiresAt := none
          availableAt := now
          lastError := some "Worker lost lease after dispatch." })
        (fun _ => rfl),
      outbox.rows.count which == 1)

def resolveUncertain (outbox : Outbox) (id : String) (accepted : Bool) (now : Int) :
    Outbox × Bool :=
  let which := fun row : EffectRow => row.id == id && row.status == .uncertain
  (outbox.update which
      (fun row => { row with
        status := if accepted then .succeeded else .cancelled
        completedAt := some now })
      (fun _ => rfl),
    outbox.rows.count which == 1)

/-- `confirm`: `exact` says that the receipt is of the admitted runtime. -/
def confirm (outbox : Outbox) (effect : Effect) (exact : Bool) (now : Int) : Outbox × Bool :=
  if exact && effect.request.isSteer then
    let accepted :=
      if effect.id ∈ outbox.acceptances then outbox
      else { outbox with acceptances := effect.id :: outbox.acceptances }
    (accepted.update (fun row => row.id == effect.id && row.status == .uncertain)
        (fun row => { row with status := .succeeded, completedAt := some now, lastError := none })
        (fun _ => rfl),
      true)
  else (outbox, false)

/-- The transaction of `Kernel::recover`, its writes to other tables left out. -/
def recover (outbox : Outbox) (now : Int) : Outbox :=
  let confirmed := outbox.update
    (fun row => row.request.isSteer && row.active && decide (row.id ∈ outbox.acceptances))
    (fun row => { row with
      status := .succeeded
      leaseOwner := none
      leaseExpiresAt := none
      completedAt := some now
      lastError := none })
    (fun _ => rfl)
  let uncertain := confirmed.update
    (fun row => row.status == .running && row.request.processBound && row.dispatchStarted)
    (fun row => { row with
      status := .uncertain
      leaseOwner := none
      leaseExpiresAt := none
      lastError := some "Process lost after dispatch began." })
    (fun _ => rfl)
  let retired := uncertain.update
    (fun row => row.request.processBound && (row.status == .pending || row.status == .running))
    (fun row => { row with
      status := .cancelled
      leaseOwner := none
      leaseExpiresAt := none
      completedAt := some now
      lastError := some "Process work retired on startup." })
    (fun _ => rfl)
  let unconfirmed := retired.update
    (fun row => row.request.isSteer && row.status == .uncertain)
    (fun row => { row with
      status := .cancelled
      completedAt := some now
      lastError := some "Unconfirmed steering retained on startup." })
    (fun _ => rfl)
  unconfirmed.update
    (fun row => row.status == .running && !row.request.processBound)
    (fun row => { row with
      status := .pending
      leaseOwner := none
      leaseExpiresAt := none
      dispatchStarted := false
      availableAt := now
      lastError := some "Replay-safe work requeued on startup." })
    (fun _ => rfl)

end Outbox

/-- A transaction that writes the outbox. -/
inductive OutboxEvent where
  | enqueue (id command thread : String) (request : EffectRequest) (stopped : List String)
      (now : Int)
  | claim (worker : String) (now leaseMs : Int)
  | begin (effect : Effect) (now : Int)
  | finish (effect : Effect) (outcome : EffectOutcome) (now : Int) (maxAttempts : Nat)
  | abandon (effect : Effect) (now : Int)
  | cancelEffect (id : String) (now : Int)
  | cancelProcess (thread : String) (now : Int)
  | resolveUncertain (id : String) (accepted : Bool) (now : Int)
  | confirm (effect : Effect) (exact : Bool) (now : Int)
  | recover (now : Int)

namespace Outbox

open Transition

/-- The outbox after a transaction.  One that fails leaves it as it is. -/
def apply (outbox : Outbox) : OutboxEvent → Outbox
  | .enqueue id command thread request stopped now =>
      (outbox.enqueue id command thread request stopped now).getD outbox
  | .claim worker now leaseMs => (outbox.claimEffect worker now leaseMs).1
  | .begin effect now => (outbox.beginEffect effect now).1
  | .finish effect outcome now maxAttempts =>
      (outbox.finishEffect effect outcome now maxAttempts).1
  | .abandon effect now => (outbox.abandonEffect effect now).1
  | .cancelEffect id now => (outbox.cancelEffect id now).1
  | .cancelProcess thread now => outbox.cancelProcess thread now
  | .resolveUncertain id accepted now => (outbox.resolveUncertain id accepted now).1
  | .confirm effect exact now => (outbox.confirm effect exact now).1
  | .recover now => outbox.recover now

def step : Step Outbox OutboxEvent := fun outbox event => some (outbox.apply event)

end Outbox

end Zeron.Orchestration
