import Zeron.Orchestration.ProviderRows
import Zeron.Orchestration.Store

/-!
# Provider input and history

What a provider may say about a run is checked row by row; what it may say about
a node's place in the execution graph is checked only in part.  An owner that is
no longer current says nothing at all.
-/

namespace Zeron.Orchestration

open Zeron.Data
open Zeron.Transition (run EveryStep)

/-- The run is over, has not begun or has another attempt, the attempt is over or
on another turn, or the provider thread is in another session. -/
def Stale {content : Type} (projection : ThreadProjection content) (guard : ProviderGuard) : Prop :=
  (∀ run, projection.runs.get guard.runId = some run →
      run.status.terminal ∨ run.status = .preparing ∨ run.status = .queued ∨
        run.activeAttemptId ≠ some guard.activeAttemptId) ∨
    (∀ attempt, projection.attempts.get guard.activeAttemptId = some attempt →
      attempt.status.terminal ∨ attempt.providerTurnId ≠ guard.providerTurnId) ∨
    ∀ provider ∈ projection.providerThreads, provider.id = guard.providerThreadId →
      provider.providerSessionId ≠ guard.providerSessionId

variable {guard : ProviderGuard}

theorem not_owns_of_stale {content : Type} {projection : ThreadProjection content}
    (stale : Stale projection guard) : guard.owns projection = false := by
  rw [Bool.eq_false_iff]
  intro owns
  unfold ProviderGuard.owns at owns
  split at owns
  · rename_i run attempt provider run_found attempt_found provider_found
    have named := List.find?_some provider_found
    have listed := List.mem_of_find?_eq_some provider_found
    simp only [Bool.and_eq_true, beq_iff_eq, Bool.not_eq_true', Bool.or_eq_false_iff,
      beq_eq_false_iff_ne] at owns named
    obtain ⟨⟨⟨⟨⟨⟨⟨⟨⟨⟨⟨⟨going, begun⟩, current⟩, active⟩, _⟩, _⟩, _⟩, turn⟩, _⟩, _⟩, _⟩, _⟩, session⟩ :=
      owns
    obtain old_run | old_attempt | old_provider := stale
    · obtain ended | preparing | queued | replaced := old_run run run_found
      · rw [going] at ended
        cases ended
      · exact begun.1 preparing
      · exact begun.2 queued
      · exact replaced active
    · obtain ended | moved := old_attempt attempt attempt_found
      · rw [current] at ended
        cases ended
      · exact moved turn
    · exact old_provider provider listed named session
  · cases owns

theorem checkGuard_of_stale {content : Type} {projection : ThreadProjection content}
    (stale : Stale projection guard) :
    checkGuard projection guard = .error "Stale provider ownership." := by
  unfold checkGuard
  rw [not_owns_of_stale stale]
  rfl

section Append

variable {content rows other operation : Type} [DecidableEq content]
  {kernel : Kernel content rows other operation}

/-- A stale owner leaves the store as it is. -/
theorem appendProviderEvents_of_stale {projection : ThreadProjection content} {threadId : String}
    (stale : Stale projection guard) (events : List (DomainEvent content)) :
    (appendProviderEvents kernel threadId guard events).Ensures fun before appended final =>
      kernel.readThread before.projections threadId = some projection →
        appended = false ∧ final = before := by
  intro before final fault left appended ran read
  obtain ⟨_, _, _, looked, checking⟩ := Tx.of_bind ran
  obtain ⟨_, _, _, required, reading⟩ := Tx.of_bind checking
  obtain ⟨_, _, _, looked_again, deciding⟩ := Tx.of_bind reading
  obtain ⟨rfl, rfl⟩ := Tx.ensures_look.of_run looked
  obtain ⟨_, rfl⟩ := (Tx.ensures_require _ _).of_run required
  obtain ⟨rfl, rfl⟩ := Tx.ensures_look.of_run looked_again
  rw [read] at deciding
  simp only [checkGuard_of_stale stale] at deciding
  obtain ⟨rfl, rfl⟩ := (Tx.ensures_give _).of_run deciding
  exact ⟨rfl, rfl⟩

end Append

/-- Along an accepted batch every step of the read model respects the guard exactly
if every node event fits where it is applied: an existing node is one of the guarded
run, a new one hangs under the root of the attempt.  A stale owner appends nothing. -/
theorem provider_batch_respects_iff {content : Type} [DecidableEq content]
    (projection : ThreadProjection content) (guard : ProviderGuard) :
    (∀ events : List (DomainEvent content),
      checkGuard projection guard = .ok () → providerBatch projection guard events = .ok () →
        (∃ final, run ThreadProjection.apply projection events = some final) ∧
          (EveryStep ThreadProjection.apply (StepRespects guard) projection events ↔
            EveryStep ThreadProjection.apply (Fits guard) projection events)) ∧
      (Stale projection guard → checkGuard projection guard = .error "Stale provider ownership." ∧
        ∀ (rows other operation : Type) (kernel : Kernel content rows other operation)
          (tables : Tables content rows other) (threadId : String)
          (events : List (DomainEvent content)) (fault : Fault WriteBoundary),
          kernel.readThread tables.projections threadId = some projection →
            ((appendProviderEvents kernel threadId guard events).commit .beforeCommit .afterCommit
              tables fault).state = tables ∧
            ((appendProviderEvents kernel threadId guard events).commit .beforeCommit .afterCommit
              tables fault).answer ≠ .ok true) := by
  constructor
  · intro events _ accepted
    unfold providerBatch at accepted
    split at accepted
    · cases accepted
    · rename_i folded
      exact acceptEvents_run (.refl projection) folded
  · intro stale
    refine ⟨checkGuard_of_stale stale, ?_⟩
    intro rows other operation kernel tables threadId events fault read
    constructor
    · obtain same | ⟨appended, left, ran⟩ := Tx.commit_state .beforeCommit .afterCommit
        (appendProviderEvents kernel threadId guard events) tables fault
      · exact same
      · exact ((appendProviderEvents_of_stale stale events).sealed.of_run ran read).2
    · intro answered
      obtain ⟨left, ran⟩ := Tx.sealed_of_answer answered
      obtain ⟨impossible, _⟩ :=
        (appendProviderEvents_of_stale stale events).sealed.of_run ran read
      cases impossible

/-- A thread with a completed run, `n1` its root, and a running one under `n2`. -/
def forkedThread : ThreadProjection Unit where
  thread := { id := "thread", updatedAt := "0", deletedAt := none, rest := () }
  runs := {
    rows := [
      { id := "r1", threadId := "thread", ordinal := 1, providerInstanceId := "instance",
        modelSelection := (), providerThreadId := some "provider", userMessageId := "m1",
        rootNodeId := some "n1", activeAttemptId := some "a1", status := .completed,
        requestedAt := "0", restartCancelledBackgroundWork := none, delegatedCompletion := none,
        rest := () },
      { id := "r2", threadId := "thread", ordinal := 2, providerInstanceId := "instance",
        modelSelection := (), providerThreadId := some "provider", userMessageId := "m2",
        rootNodeId := some "n2", activeAttemptId := some "a2", status := .running,
        requestedAt := "0", restartCancelledBackgroundWork := none, delegatedCompletion := none,
        rest := () }]
    distinct := by decide }
  attempts := {
    rows := [
      { id := "a1", runId := "r1", attemptOrdinal := 1, rootNodeId := "n1",
        providerInstanceId := "instance", providerThreadId := "provider",
        providerTurnId := some "turn1", reason := .initial, status := .completed, rest := () },
      { id := "a2", runId := "r2", attemptOrdinal := 1, rootNodeId := "n2",
        providerInstanceId := "instance", providerThreadId := "provider",
        providerTurnId := some "turn2", reason := .initial, status := .running, rest := () }]
    distinct := by decide }
  nodes := {
    rows := [
      { id := "n1", threadId := "thread", runId := some "r1", parentNodeId := none,
        rootNodeId := "n1", kind := .rootTurn, status := .completed, countsForRun := true,
        providerThreadId := some "provider", providerTurnId := some "turn1", rest := () },
      { id := "n2", threadId := "thread", runId := some "r2", parentNodeId := none,
        rootNodeId := "n2", kind := .rootTurn, status := .running, countsForRun := true,
        providerThreadId := some "provider", providerTurnId := some "turn2", rest := () }]
    distinct := by decide }
  providerThreads := [
    { id := "provider", appThreadId := some "thread", providerInstanceId := "instance",
      lastRunOrdinal := some 2, providerSessionId := some "session" }]

def forkedGuard : ProviderGuard :=
  { runId := "r2", activeAttemptId := "a2", providerThreadId := "provider"
    providerSessionId := some "session", providerTurnId := some "turn2"
    expectedLastRunOrdinal := 2 }

/-- A tool call of the running run, placed under the root of the completed one. -/
def misplacedNode : ExecutionNode Unit :=
  { id := "n3", threadId := "thread", runId := some "r2", parentNodeId := some "n1"
    rootNodeId := "n2", kind := .toolCall, status := .running, countsForRun := false
    providerThreadId := some "provider", providerTurnId := some "turn2", rest := () }

def misplacedEvent : DomainEvent Unit :=
  { id := "e1", threadId := "thread", runId := some "r2", occurredAt := "1"
    payload := .nodeUpdated misplacedNode }

/-- The parents of the new node do not lead to the root of the attempt. -/
theorem misplacedNode_not_attached : ¬ forkedThread.Attaches forkedGuard misplacedNode := by
  rintro ⟨attempt, parent, attempt_found, parent_eq, rooted⟩
  have root : attempt.rootNodeId = "n2" := by
    have found : (forkedThread.attempts.get forkedGuard.activeAttemptId).map
        RunAttempt.rootNodeId = some "n2" := by decide +kernel
    rw [attempt_found] at found
    exact Option.some.inj found
  cases parent_eq
  rw [root] at rooted
  have top : (forkedThread.nodes.get "n1").map ExecutionNode.parentNodeId = some none := by
    decide +kernel
  obtain ⟨same, _⟩ | ⟨node, parent, found, above, _⟩ := rooted_iff.mp rooted
  · exact absurd same (by decide)
  · rw [found, Option.map_some, above] at top
    cases top

/-- The guard and the batch are accepted, and the node hangs in the graph of a run
that is over. -/
theorem misplaced_node_is_accepted :
    checkGuard forkedThread forkedGuard = .ok () ∧
      providerBatch forkedThread forkedGuard [misplacedEvent] = .ok () ∧
      ¬ EveryStep ThreadProjection.apply (StepRespects forkedGuard) forkedThread
        [misplacedEvent] := by
  refine ⟨by decide +kernel, by decide +kernel, ?_⟩
  rintro ⟨respects, _⟩
  have absent : forkedThread.nodes.get misplacedNode.id = none := by decide +kernel
  have placed := (respects_nodes_iff _ misplacedNode).mp (respects _ rfl)
  exact misplacedNode_not_attached (placed.2 absent)

end Zeron.Orchestration
