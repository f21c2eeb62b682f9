import Zeron.Orchestration.Publishing

/-!
# Commands take effect once

A call of `Store::dispatch` may be cut short anywhere before its commit, lose its
answer after it, and be repeated under the same id with whatever payload.
-/

namespace Zeron.Orchestration

open Zeron.Data

variable {content rows other operation : Type}

/-- A call and what befalls it: a fault at a boundary, or the loss of the answer
that `inject_lost_response` arranges. -/
structure DispatchCall (operation : Type) where
  command : Command operation
  now : Int
  fault : Fault WriteBoundary
  lost : Bool

namespace DispatchCall

/-- The transaction that the call attempts. -/
def attempt (call : DispatchCall operation) :
    Attempt (Command operation × Int) WriteBoundary :=
  { call := (call.command, call.now), fault := call.fault }

def id (attempted : Command operation × Int) : String :=
  attempted.1.id

end DispatchCall

/-- The end of `Store::dispatch`. -/
def loseAnswer (lost : Bool) :
    Except (Failure WriteBoundary StoreError) CommandReceipt →
      Except (Failure WriteBoundary StoreError) CommandReceipt
  | .error failure => .error failure
  | .ok receipt => if lost then .error (.injected .afterCommit) else .ok receipt

namespace Kernel

variable (kernel : Kernel content rows other operation)

/-- `Store::dispatch` under a command and a clock. -/
def transaction (attempted : Command operation × Int) :
    Program content rows other CommandReceipt :=
  dispatch kernel attempted.1 attempted.2

/-- What a call answers and leaves. -/
def call (tables : Tables content rows other) (call : DispatchCall operation) :
    Tx.Committed (Tables content rows other) WriteBoundary StoreError CommandReceipt :=
  let done := (kernel.transaction call.attempt.call).commit .beforeCommit .afterCommit tables
    call.fault
  { done with answer := loseAnswer call.lost done.answer }

def calls (tables : Tables content rows other) (calls : List (DispatchCall operation)) :
    Tables content rows other :=
  calls.foldl (fun tables call => (kernel.call tables call).state) tables

/-- The commands in the order of their first committed attempts, each with the
clock and the payload of that attempt. -/
def firstAttempts (tables : Tables content rows other) (calls : List (DispatchCall operation)) :
    List (Command operation × Int) :=
  firstCommitted .beforeCommit .afterCommit kernel.transaction DispatchCall.id
    (tables.receipts.rows.map CommandReceipt.commandId) tables (calls.map DispatchCall.attempt)

/-- Dispatch each command, undisturbed. -/
def dispatchOnce (tables : Tables content rows other)
    (commands : List (Command operation × Int)) : Tables content rows other :=
  runOnce .beforeCommit .afterCommit kernel.transaction tables commands

end Kernel

variable {kernel : Kernel content rows other operation}

theorem call_state (tables : Tables content rows other) (call : DispatchCall operation) :
    (kernel.call tables call).state =
      settle .beforeCommit .afterCommit kernel.transaction tables call.attempt :=
  rfl

theorem calls_eq_settleAll (tables : Tables content rows other)
    (calls : List (DispatchCall operation)) :
    kernel.calls tables calls =
      settleAll .beforeCommit .afterCommit kernel.transaction tables
        (calls.map DispatchCall.attempt) := by
  unfold Kernel.calls settleAll
  rw [List.foldl_map]
  rfl

theorem answersOnce_transaction :
    AnswersOnce kernel.transaction DispatchCall.id
      fun (tables : Tables content rows other) id => tables.receipts.get id := by
  intro attempted
  refine (dispatch_receipts attempted.1 attempted.2).imp ?_
  rintro before receipt final (⟨found, same⟩ | ⟨absent, _, recorded⟩)
  · exact .inl ⟨found, same⟩
  · exact .inr ⟨absent, recorded⟩

theorem receipted_iff (tables : Tables content rows other) (id : String) :
    id ∈ tables.receipts.rows.map CommandReceipt.commandId ↔ (tables.receipts.get id).isSome := by
  rw [← Option.ne_none_iff_isSome, Ne, Table.get_eq_none_iff, not_not]

variable {tables : Tables content rows other} {receipt : CommandReceipt}

/-- A recorded command, undisturbed, is answered with its receipt. -/
theorem commit_of_receipted (attempted : Command operation × Int)
    (recorded : tables.receipts.get attempted.1.id = some receipt)
    (owner : tables.hostId = kernel.hostId) :
    (kernel.transaction attempted).commit .beforeCommit .afterCommit tables none =
      { answer := .ok receipt, state := tables } := by
  have ran : ((kernel.transaction attempted).sealed .beforeCommit).run tables none =
      .ok (receipt, tables, none) := by
    unfold Tx.sealed Kernel.transaction dispatch write Tx.require
    simp only [Tx.run_bind, Tx.look, owner, beq_self_eq_true, if_true, Tx.give]
    rw [recorded]
    rfl
  unfold Tx.commit
  rw [ran]
  rfl

theorem receipt_stays {id : String} (recorded : tables.receipts.get id = some receipt)
    (calls : List (DispatchCall operation)) :
    (kernel.calls tables calls).receipts.get id = some receipt := by
  rw [calls_eq_settleAll]
  exact answer_settleAll answersOnce_transaction recorded _

/-- A call of a recorded command changes nothing, and no other receipt is the
answer. -/
theorem call_of_receipted {call : DispatchCall operation}
    (recorded : tables.receipts.get call.command.id = some receipt) :
    (kernel.call tables call).state = tables ∧
      ∀ answer, (kernel.call tables call).answer = .ok answer → answer = receipt := by
  have recorded_here : tables.receipts.get (DispatchCall.id call.attempt.call) = some receipt :=
    recorded
  obtain ⟨same, replayed⟩ :
      settle .beforeCommit .afterCommit kernel.transaction tables call.attempt = tables ∧
        ∀ given, ((kernel.transaction call.attempt.call).commit .beforeCommit .afterCommit tables
          call.attempt.fault).answer = .ok given → given = receipt :=
    replay answersOnce_transaction recorded_here
  refine ⟨same, ?_⟩
  intro answer answered
  apply replayed
  unfold Kernel.call loseAnswer at answered
  simp only at answered
  split at answered
  · cases answered
  · rename_i given given_answer
    split at answered
    · cases answered
    · cases answered
      exact given_answer

/-- A refused command has a rejected receipt and leaves nothing else. -/
theorem untouched_of_rejected {call : DispatchCall operation}
    (unknown : tables.receipts.get call.command.id = none)
    (recorded : (kernel.call tables call).state.receipts.get call.command.id = some receipt)
    (rejected : receipt.status = .rejected) : Untouched tables (kernel.call tables call).state := by
  rw [call_state] at recorded ⊢
  cases through : (kernel.transaction call.attempt.call).commits .beforeCommit tables
      call.attempt.fault with
  | false =>
      rw [settle_of_not_commits through]
      exact ⟨rfl, rfl, rfl, rfl⟩
  | true =>
      obtain ⟨given, final, ran, settled, _⟩ := Tx.commit_of_commits .afterCommit through
      unfold settle at recorded ⊢
      rw [settled] at recorded ⊢
      obtain ⟨found, _⟩ | ⟨_, untouched, answered⟩ :=
        (dispatch_receipts call.command call.now).sealed.of_run ran
      · rw [unknown] at found
        cases found
      · rw [answered, if_pos rfl] at recorded
        cases recorded
        exact untouched rejected

/-- Whatever calls are made, the store ends as if each command had been dispatched
once, in the order of the first committed attempts; a command with a receipt is
answered with it and changes nothing; a rejected one leaves events, read model,
effects and publications as they were. -/
theorem commands_take_effect_once (kernel : Kernel content rows other operation)
    (start : Tables content rows other) :
    (∀ calls : List (DispatchCall operation),
      kernel.calls start calls =
          kernel.dispatchOnce start (kernel.firstAttempts start calls) ∧
        ((kernel.firstAttempts start calls).map DispatchCall.id).Nodup ∧
        ∀ id, ((kernel.calls start calls).receipts.get id).isSome ↔
          (start.receipts.get id).isSome ∨
            id ∈ (kernel.firstAttempts start calls).map DispatchCall.id) ∧
      (∀ (calls : List (DispatchCall operation)) (call : DispatchCall operation)
          (receipt : CommandReceipt),
        start.receipts.get call.command.id = some receipt →
          (kernel.calls start calls).receipts.get call.command.id = some receipt ∧
          (kernel.call (kernel.calls start calls) call).state = kernel.calls start calls ∧
          (∀ answer, (kernel.call (kernel.calls start calls) call).answer = .ok answer →
            answer = receipt) ∧
          ((kernel.calls start calls).hostId = kernel.hostId → call.fault = none →
            call.lost = false →
            (kernel.call (kernel.calls start calls) call).answer = .ok receipt)) ∧
      ∀ (call : DispatchCall operation) (receipt : CommandReceipt),
        start.receipts.get call.command.id = none →
          (kernel.call start call).state.receipts.get call.command.id = some receipt →
          receipt.status = .rejected → Untouched start (kernel.call start call).state := by
  refine ⟨?_, ?_, ?_⟩
  · intro calls
    have first : (kernel.firstAttempts start calls) =
        firstCommitted .beforeCommit .afterCommit kernel.transaction DispatchCall.id
          (start.receipts.rows.map CommandReceipt.commandId) start
          (calls.map DispatchCall.attempt) := rfl
    rw [calls_eq_settleAll]
    refine ⟨settleAll_eq_runOnce answersOnce_transaction (receipted_iff start) _,
      (firstCommitted_nodup _ _ _).1, ?_⟩
    intro id
    rw [← receipted_iff start]
    exact isSome_settleAll_iff answersOnce_transaction (receipted_iff start) _ id
  · intro calls call receipt recorded
    have kept : (kernel.calls start calls).receipts.get call.command.id = some receipt :=
      receipt_stays recorded calls
    obtain ⟨same, replayed⟩ := call_of_receipted kept
    refine ⟨kept, same, replayed, ?_⟩
    intro owner calm heard
    have answered := commit_of_receipted call.attempt.call kept owner
    unfold Kernel.call
    rw [calm, answered]
    rw [heard]
    rfl
  · intro call receipt unknown recorded rejected
    exact untouched_of_rejected unknown recorded rejected

end Zeron.Orchestration

/-!
## The publication worker

The worker holds a copy of the first pending batch while transactions of the host
go on.  It may stop anywhere: with the host, at an error of the publisher, or
between a publication and its acknowledgement.
-/

namespace Zeron.Orchestration

open Zeron.Data

/-- How `publish` ends: it returns, it fails or is cut off before the document is
out, or after. -/
inductive PublishOutcome where
  | returned
  | failed
  | failedLate

inductive Worker (content : Type) where
  | idle
  /-- In the loop over the documents of a batch. -/
  | holding (batch : PublicationBatch content) (rest : List (PublicationDocument content))
  /-- After `publish` has returned. -/
  | sent (batch : PublicationBatch content) (document : PublicationDocument content)
      (rest : List (PublicationDocument content))

/-- The store, the worker and all that went out, oldest first. -/
structure Publisher (content rows other : Type) where
  tables : Tables content rows other
  worker : Worker content
  published : List (Delivery content)

inductive PublisherStep (content operation : Type) where
  | dispatch (call : DispatchCall operation)
  | providerEvents (threadId : String) (guard : ProviderGuard)
      (events : List (DomainEvent content)) (fault : Fault WriteBoundary)
  | rebuild (fault : Fault WriteBoundary)
  /-- The host starts again. -/
  | restart (now : Int) (fault : Fault WriteBoundary)
  | take
  | publish (outcome : PublishOutcome)
  | acknowledge (fault : Fault WriteBoundary)
  | die

section Steps

variable {content rows other operation : Type} [DecidableEq content]

/-- What a transaction leaves. -/
def Tables.after {α : Type} (tables : Tables content rows other)
    (program : Program content rows other α) (fault : Fault WriteBoundary) :
    Tables content rows other :=
  (program.commit .beforeCommit .afterCommit tables fault).state

/-- `PublicationWorker::step`, cut at its awaits, beside the transactions of the
host.  The lane lets one worker in. -/
def Publisher.step (kernel : Kernel content rows other operation)
    (publisher : Publisher content rows other) :
    PublisherStep content operation → Publisher content rows other
  | .dispatch call => { publisher with tables := (kernel.call publisher.tables call).state }
  | .providerEvents threadId guard events fault => { publisher with
      tables := publisher.tables.after (appendProviderEvents kernel threadId guard events) fault }
  | .rebuild fault => { publisher with
      tables := publisher.tables.after (rebuildProjections kernel) fault }
  | .restart now fault => { publisher with
      tables := publisher.tables.after (recoverHost kernel now) fault
      worker := .idle }
  | .take =>
      match publisher.worker, publisher.tables.publications.firstPending with
      | .idle, some batch => { publisher with worker := .holding batch batch.documents }
      | _, _ => publisher
  | .publish outcome =>
      match publisher.worker with
      | .holding batch (document :: rest) =>
          if publisher.tables.publications.acked batch.batchId document.docId then
            { publisher with worker := .holding batch rest }
          else
            match outcome with
            | .returned => { publisher with
                worker := .sent batch document rest
                published := publisher.published ++ [(batch, document)] }
            | .failed => { publisher with worker := .idle }
            | .failedLate => { publisher with
                worker := .idle
                published := publisher.published ++ [(batch, document)] }
      | .holding _ [] => { publisher with worker := .idle }
      | _ => publisher
  | .acknowledge fault =>
      match publisher.worker with
      | .sent batch document rest =>
          let done := (acknowledgePublication kernel batch.batchId document.docId
            document.version).commit .beforeCommit .afterCommit publisher.tables fault
          { publisher with
            tables := done.state
            worker :=
              match done.answer with
              | .ok _ => .holding batch rest
              | .error _ => .idle }
      | _ => publisher
  | .die => { publisher with worker := .idle }

def Publisher.run (kernel : Kernel content rows other operation)
    (publisher : Publisher content rows other) (steps : List (PublisherStep content operation)) :
    Publisher content rows other :=
  steps.foldl (Publisher.step kernel) publisher

omit [DecidableEq content] in
/-- A store without events and publications, and an idle worker. -/
def Publisher.start (tables : Tables content rows other) : Publisher content rows other where
  tables := { tables with events := Table.empty, publications := Publications.empty }
  worker := .idle
  published := []

end Steps

end Zeron.Orchestration
