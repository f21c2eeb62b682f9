import Zeron.Orchestration.ProviderBatch

/-!
# What a provider's event does to the rows of a thread

An accepted event replaces one row.  Which rows it may replace, and by what, is
stated on the read model before and after; for a run or an attempt the checks
settle it, for a node they leave one question open.
-/

namespace Zeron.Orchestration

open Zeron.Data (Table)
open Zeron.Transition (run EveryStep)

variable {content : Type}

/-- A row of the same run, no further back. -/
structure Run.Continues (old next : Run content) : Prop where
  id : next.id = old.id
  threadId : next.threadId = old.threadId
  ordinal : next.ordinal = old.ordinal
  providerInstanceId : next.providerInstanceId = old.providerInstanceId
  modelSelection : next.modelSelection = old.modelSelection
  providerThreadId : next.providerThreadId = old.providerThreadId
  userMessageId : next.userMessageId = old.userMessageId
  rootNodeId : next.rootNodeId = old.rootNodeId
  activeAttemptId : next.activeAttemptId = old.activeAttemptId
  requestedAt : next.requestedAt = old.requestedAt
  delegatedCompletion : next.delegatedCompletion = old.delegatedCompletion
  ended : old.status.terminal → next.status = old.status
  forward : old.status.transition next.status

/-- A turn is bound once. -/
structure RunAttempt.Continues (old next : RunAttempt content) : Prop where
  id : next.id = old.id
  runId : next.runId = old.runId
  attemptOrdinal : next.attemptOrdinal = old.attemptOrdinal
  rootNodeId : next.rootNodeId = old.rootNodeId
  providerInstanceId : next.providerInstanceId = old.providerInstanceId
  providerThreadId : next.providerThreadId = old.providerThreadId
  providerTurnId : old.providerTurnId = none ∨ next.providerTurnId = old.providerTurnId
  ended : old.status.terminal → next.status = old.status

structure ExecutionNode.Continues (old next : ExecutionNode content) : Prop where
  id : next.id = old.id
  threadId : next.threadId = old.threadId
  runId : next.runId = old.runId
  parentNodeId : next.parentNodeId = old.parentNodeId
  rootNodeId : next.rootNodeId = old.rootNodeId
  kind : next.kind = old.kind
  countsForRun : next.countsForRun = old.countsForRun
  providerThreadId : next.providerThreadId = old.providerThreadId
  providerTurnId : old.providerTurnId = none ∨ next.providerTurnId = old.providerTurnId
  ended : old.status.terminal → next.status = old.status
  forward : old.status.transition next.status

/-- The parents of a node lead to the root. -/
inductive Rooted (nodes : Table (@ExecutionNode.id content)) (root : String) : String → Prop
  | root {node : ExecutionNode content} :
      nodes.get root = some node → Rooted nodes root root
  | child {id parent : String} {node : ExecutionNode content} :
      nodes.get id = some node → node.parentNodeId = some parent →
        Rooted nodes root parent → Rooted nodes root id

theorem rooted_iff {nodes : Table (@ExecutionNode.id content)} {root id : String} :
    Rooted nodes root id ↔
      (id = root ∧ (nodes.get root).isSome) ∨
        ∃ node parent, nodes.get id = some node ∧ node.parentNodeId = some parent ∧
          Rooted nodes root parent := by
  constructor
  · intro rooted
    cases rooted with
    | root found => exact .inl ⟨rfl, by rw [found]; rfl⟩
    | child found above rest => exact .inr ⟨_, _, found, above, rest⟩
  · rintro (⟨rfl, stored⟩ | ⟨node, parent, found, above, rest⟩)
    · obtain ⟨node, found⟩ := Option.isSome_iff_exists.mp stored
      exact .root found
    · exact .child found above rest

/-- The node hangs under the root of the guarded attempt. -/
def ThreadProjection.Attaches (before : ThreadProjection content) (guard : ProviderGuard)
    (node : ExecutionNode content) : Prop :=
  ∃ attempt parent, before.attempts.get guard.activeAttemptId = some attempt ∧
    node.parentNodeId = some parent ∧ Rooted before.nodes attempt.rootNodeId parent

/-- A step of the read model that leaves everything but the guarded run alone and
continues that. -/
structure Respects (guard : ProviderGuard) (before after : ThreadProjection content) : Prop where
  otherRuns : ∀ id, id ≠ guard.runId → after.runs.get id = before.runs.get id
  otherAttempts : ∀ id, id ≠ guard.activeAttemptId →
    after.attempts.get id = before.attempts.get id
  runs : ∀ id old, before.runs.get id = some old →
    ∃ next, after.runs.get id = some next ∧ old.Continues next
  attempts : ∀ id old, before.attempts.get id = some old →
    ∃ next, after.attempts.get id = some next ∧ old.Continues next
  nodes : ∀ id old, before.nodes.get id = some old →
    ∃ next, after.nodes.get id = some next ∧ old.Continues next
  noNewRun : ∀ id, before.runs.get id = none → after.runs.get id = none
  noNewAttempt : ∀ id, before.attempts.get id = none → after.attempts.get id = none
  rooted : ∀ id node, before.nodes.get id = none → after.nodes.get id = some node →
    before.Attaches guard node

/-- The node that an event replaces belongs to the guarded run, and a node that it
adds hangs under the attempt's root. -/
def Fits (guard : ProviderGuard) (before : ThreadProjection content)
    (event : DomainEvent content) : Prop :=
  match event.payload with
  | .nodeUpdated next =>
      match before.nodes.get next.id with
      | some old =>
          old.threadId = before.thread.id ∧ old.runId = some guard.runId ∧
            old.providerThreadId = some guard.providerThreadId ∧
            (old.providerTurnId = none ∨ old.providerTurnId =
              (before.attempts.get guard.activeAttemptId).bind RunAttempt.providerTurnId)
      | none => before.Attaches guard next
  | _ => True

theorem RunStatus.transition_self (status : RunStatus) : status.transition status := by
  cases status <;> rfl

theorem NodeStatus.transition_self (status : NodeStatus) : status.transition status := by
  cases status <;> rfl

/-- Nothing leads out of a terminal status. -/
theorem RunStatus.eq_of_transition {old next : RunStatus} (moved : old.transition next)
    (ended : old.terminal) : next = old := by
  revert moved ended
  cases old <;> cases next <;> decide

theorem NodeStatus.eq_of_transition {old next : NodeStatus} (moved : old.transition next)
    (ended : old.terminal) : next = old := by
  revert moved ended
  cases old <;> cases next <;> decide

theorem Run.Continues.refl (old : Run content) : old.Continues old where
  id := rfl
  threadId := rfl
  ordinal := rfl
  providerInstanceId := rfl
  modelSelection := rfl
  providerThreadId := rfl
  userMessageId := rfl
  rootNodeId := rfl
  activeAttemptId := rfl
  requestedAt := rfl
  delegatedCompletion := rfl
  ended _ := rfl
  forward := old.status.transition_self

theorem RunAttempt.Continues.refl (old : RunAttempt content) : old.Continues old where
  id := rfl
  runId := rfl
  attemptOrdinal := rfl
  rootNodeId := rfl
  providerInstanceId := rfl
  providerThreadId := rfl
  providerTurnId := .inr rfl
  ended _ := rfl

theorem ExecutionNode.Continues.refl (old : ExecutionNode content) : old.Continues old where
  id := rfl
  threadId := rfl
  runId := rfl
  parentNodeId := rfl
  rootNodeId := rfl
  kind := rfl
  countsForRun := rfl
  providerThreadId := rfl
  providerTurnId := .inr rfl
  ended _ := rfl
  forward := old.status.transition_self

/-! ## The copy that the checks run on

The copy forgets the two fields of a run that an update may leave out; the read
model keeps them. -/

/-- The copy's row of a run beside the read model's. -/
structure Run.Shadows (copy row : Run content) : Prop where
  same : row = { copy with
    delegatedCompletion := row.delegatedCompletion
    restartCancelledBackgroundWork := row.restartCancelledBackgroundWork }
  delegatedCompletion :
    copy.delegatedCompletion = none ∨ copy.delegatedCompletion = row.delegatedCompletion

structure ThreadProjection.Shadows (copy state : ThreadProjection content) : Prop where
  thread : copy.thread.id = state.thread.id
  attempts : copy.attempts = state.attempts
  nodes : copy.nodes = state.nodes
  runs : ∀ id, Option.Rel Run.Shadows (copy.runs.get id) (state.runs.get id)

theorem Run.Shadows.refl (row : Run content) : row.Shadows row where
  same := rfl
  delegatedCompletion := .inr rfl

theorem ThreadProjection.Shadows.refl (state : ThreadProjection content) :
    state.Shadows state where
  thread := rfl
  attempts := rfl
  nodes := rfl
  runs id := by
    cases state.runs.get id with
    | none => exact .none
    | some row => exact .some (.refl row)

theorem ThreadProjection.Shadows.run {copy state : ThreadProjection content} {id : String}
    {old : Run content} (shadows : copy.Shadows state) (found : copy.runs.get id = some old) :
    ∃ row, state.runs.get id = some row ∧ old.Shadows row := by
  have related := shadows.runs id
  rw [found] at related
  cases stored : state.runs.get id with
  | none =>
      rw [stored] at related
      cases related
  | some row =>
      rw [stored] at related
      cases related with
      | some shadowed => exact ⟨row, rfl, shadowed⟩

@[simp]
theorem Run.preserveRecorded_id (next : Run content) (current : Option (Run content)) :
    (next.preserveRecorded current).id = next.id := by
  cases current <;> rfl

section Checks

variable [DecidableEq content]

variable {guard : ProviderGuard}

/-- An accepted update continues the row, whatever it leaves out. -/
theorem Run.continues_of_acceptsUpdate {copy row next : Run content} (shadows : copy.Shadows row)
    (found : copy.id = next.id) (accepted : copy.acceptsUpdate guard next) :
    next.id = guard.runId ∧ row.Continues (next.preserveRecorded (some row)) ∧
      next.Shadows (next.preserveRecorded (some row)) := by
  unfold acceptsUpdate at accepted
  simp only [Bool.and_eq_true, beq_iff_eq, Bool.or_eq_true, Option.isNone_iff_eq_none] at accepted
  obtain ⟨⟨⟨⟨⟨⟨⟨⟨⟨⟨⟨ids, threads⟩, ordinals⟩, active⟩, providers⟩, instances⟩, models⟩, roots⟩,
    requested⟩, messages⟩, delegated⟩, moved⟩ := accepted
  obtain ⟨kept_delegated, _, rfl⟩ : ∃ delegated restart, row = { copy with
      delegatedCompletion := delegated
      restartCancelledBackgroundWork := restart } := ⟨_, _, shadows.same⟩
  have recorded : next.delegatedCompletion.or kept_delegated = kept_delegated := by
    obtain absent | kept := delegated
    · rw [absent, Option.none_or]
    · obtain absent | shared := shadows.delegatedCompletion
      · rw [kept, absent, Option.none_or]
      · rw [kept, shared, Option.or_self]
  refine ⟨ids, ?_, ?_⟩
  · exact {
      id := found.symm
      threadId := threads
      ordinal := ordinals
      providerInstanceId := instances
      modelSelection := models
      providerThreadId := providers
      userMessageId := messages
      rootNodeId := roots
      activeAttemptId := active
      requestedAt := requested
      delegatedCompletion := recorded
      ended := RunStatus.eq_of_transition moved
      forward := moved }
  · constructor
    · rfl
    · change next.delegatedCompletion = none ∨
        next.delegatedCompletion = next.delegatedCompletion.or kept_delegated
      rw [recorded]
      obtain absent | kept := delegated
      · exact .inl absent
      · rw [kept]
        exact shadows.delegatedCompletion

omit [DecidableEq content] in
theorem RunAttempt.continues_of_acceptsUpdate {old next : RunAttempt content}
    (found : old.id = next.id) (accepted : old.acceptsUpdate guard next) :
    next.id = guard.activeAttemptId ∧ old.Continues next := by
  unfold acceptsUpdate at accepted
  simp only [Bool.and_eq_true, beq_iff_eq, Bool.or_eq_true, Option.isNone_iff_eq_none,
    Bool.not_eq_true'] at accepted
  obtain ⟨⟨⟨⟨⟨⟨⟨⟨ids, runs⟩, ordinals⟩, roots⟩, providers⟩, instances⟩, turns⟩, statuses⟩, _⟩ :=
    accepted
  refine ⟨ids, ?_⟩
  exact {
    id := found.symm
    runId := runs
    attemptOrdinal := ordinals
    rootNodeId := roots
    providerInstanceId := instances
    providerThreadId := providers
    providerTurnId := turns.imp_right Eq.symm
    ended := by
      intro ended
      obtain going | same := statuses
      · rw [going] at ended
        cases ended
      · exact same.symm }

omit [DecidableEq content] in
/-- The checks leave the owner of the old row open. -/
theorem ExecutionNode.continues_iff {state : ThreadProjection content}
    {old next : ExecutionNode content} (found : old.id = next.id)
    (owned : state.ownsNode guard next) (accepted : old.acceptsUpdate next) :
    old.Continues next ↔
      old.threadId = state.thread.id ∧ old.runId = some guard.runId ∧
        old.providerThreadId = some guard.providerThreadId ∧
        (old.providerTurnId = none ∨ old.providerTurnId =
          (state.attempts.get guard.activeAttemptId).bind RunAttempt.providerTurnId) := by
  unfold ThreadProjection.ownsNode at owned
  unfold acceptsUpdate at accepted
  simp only [Bool.and_eq_true, beq_iff_eq] at owned accepted
  obtain ⟨⟨⟨⟨runs, threads⟩, providers⟩, _⟩, turns⟩ := owned
  obtain ⟨⟨⟨⟨roots, parents⟩, kinds⟩, counts⟩, moved⟩ := accepted
  rw [turns]
  constructor
  · intro continues
    refine ⟨?_, ?_, ?_, ?_⟩
    · rw [← threads, continues.threadId]
    · rw [← runs, continues.runId]
    · rw [← providers, continues.providerThreadId]
    · exact continues.providerTurnId.imp_right Eq.symm
  · rintro ⟨old_thread, old_run, old_provider, old_turn⟩
    exact {
      id := found.symm
      threadId := threads.trans old_thread.symm
      runId := runs.trans old_run.symm
      parentNodeId := parents.symm
      rootNodeId := roots.symm
      kind := kinds.symm
      countsForRun := counts.symm
      providerThreadId := providers.trans old_provider.symm
      providerTurnId := old_turn.imp_right Eq.symm
      ended := NodeStatus.eq_of_transition moved
      forward := moved }

end Checks

variable {before : ThreadProjection content} {guard : ProviderGuard}

/-! ## One event -/

/-- Replacing the guarded run respects the guard. -/
theorem respects_runs {old next : Run content} (thread : AppThread content)
    (owned : next.id = guard.runId) (found : before.runs.get next.id = some old)
    (continues : old.Continues next) :
    Respects guard before { before with thread, runs := before.runs.put next } where
  otherRuns id other := by
    rw [Table.get_put, if_neg]
    rw [owned]
    exact Ne.symm other
  otherAttempts _ _ := rfl
  runs := by
    apply (Table.kept_put_iff Run.Continues.refl before.runs next).mpr
    intro other other_found
    cases found.symm.trans other_found
    exact continues
  attempts id old found := ⟨old, found, .refl old⟩
  nodes id old found := ⟨old, found, .refl old⟩
  noNewRun id absent := by
    rw [Table.get_put, if_neg]
    · exact absent
    · rintro rfl
      rw [absent] at found
      cases found
  noNewAttempt _ absent := absent
  rooted id node absent found := by
    rw [absent] at found
    cases found

theorem respects_attempts {old next : RunAttempt content} (thread : AppThread content)
    (owned : next.id = guard.activeAttemptId) (found : before.attempts.get next.id = some old)
    (continues : old.Continues next) :
    Respects guard before { before with thread, attempts := before.attempts.put next } where
  otherRuns _ _ := rfl
  otherAttempts id other := by
    rw [Table.get_put, if_neg]
    rw [owned]
    exact Ne.symm other
  runs id old found := ⟨old, found, .refl old⟩
  attempts := by
    apply (Table.kept_put_iff RunAttempt.Continues.refl before.attempts next).mpr
    intro other other_found
    cases found.symm.trans other_found
    exact continues
  nodes id old found := ⟨old, found, .refl old⟩
  noNewRun _ absent := absent
  noNewAttempt id absent := by
    rw [Table.get_put, if_neg]
    · exact absent
    · rintro rfl
      rw [absent] at found
      cases found
  rooted id node absent found := by
    rw [absent] at found
    cases found

/-- For a node the guard is respected as far as the old row, or the place of the
new one, says so. -/
theorem respects_nodes_iff (thread : AppThread content) (next : ExecutionNode content) :
    Respects guard before { before with thread, nodes := before.nodes.put next } ↔
      (∀ old, before.nodes.get next.id = some old → old.Continues next) ∧
        (before.nodes.get next.id = none → before.Attaches guard next) := by
  constructor
  · intro respects
    constructor
    · exact (Table.kept_put_iff ExecutionNode.Continues.refl before.nodes next).mp respects.nodes
    · intro absent
      apply respects.rooted next.id next absent
      rw [Table.get_put, if_pos rfl]
  · rintro ⟨continues, attaches⟩
    exact {
      otherRuns := fun _ _ => rfl
      otherAttempts := fun _ _ => rfl
      runs := fun id old found => ⟨old, found, .refl old⟩
      attempts := fun id old found => ⟨old, found, .refl old⟩
      nodes := (Table.kept_put_iff ExecutionNode.Continues.refl before.nodes next).mpr continues
      noNewRun := fun _ absent => absent
      noNewAttempt := fun _ absent => absent
      rooted := by
        intro id node absent found
        rw [Table.get_put] at found
        split at found
        · rename_i same
          cases found
          exact attaches (same ▸ absent)
        · rw [absent] at found
          cases found }

section Steps

variable [DecidableEq content] {guard : ProviderGuard}
  {copy copy' state : ThreadProjection content} {event : DomainEvent content}

theorem acceptEvent_run {next : Run content} (payload : event.payload = .runUpdated next)
    (shadows : copy.Shadows state) (accepted : acceptEvent guard copy event = .ok copy') :
    ∃ after, state.apply event = some after ∧ copy'.Shadows after ∧ Respects guard state after := by
  unfold acceptEvent at accepted
  unfold ThreadProjection.apply
  rw [payload] at accepted ⊢
  simp only at accepted
  split at accepted
  · cases accepted
  · split at accepted
    · cases accepted
    · rename_i old found
      split at accepted
      · rename_i valid
        cases accepted
        obtain ⟨row, row_found, shadowed⟩ := shadows.run found
        obtain ⟨owned, continues, next_shadows⟩ :=
          Run.continues_of_acceptsUpdate shadowed (Table.key_of_get found) valid
        rw [← row_found] at continues next_shadows
        refine ⟨_, rfl, ?_, ?_⟩
        · exact { shadows with
            runs := by
              intro id
              rw [Table.get_put, Table.get_put, Run.preserveRecorded_id]
              split
              · exact .some next_shadows
              · exact shadows.runs id }
        · apply respects_runs _ _ _ continues
          · rw [Run.preserveRecorded_id, owned]
          · rw [Run.preserveRecorded_id, row_found]
      · cases accepted

theorem acceptEvent_attempt {next : RunAttempt content}
    (payload : event.payload = .runAttemptUpdated next) (shadows : copy.Shadows state)
    (accepted : acceptEvent guard copy event = .ok copy') :
    ∃ after, state.apply event = some after ∧ copy'.Shadows after ∧ Respects guard state after := by
  unfold acceptEvent at accepted
  unfold ThreadProjection.apply
  rw [payload] at accepted ⊢
  simp only at accepted
  split at accepted
  · cases accepted
  · split at accepted
    · cases accepted
    · rename_i old found
      split at accepted
      · rename_i valid
        cases accepted
        obtain ⟨owned, continues⟩ :=
          RunAttempt.continues_of_acceptsUpdate (Table.key_of_get found) valid
        rw [shadows.attempts] at found
        refine ⟨_, rfl, ?_, ?_⟩
        · exact { shadows with attempts := by rw [shadows.attempts] }
        · exact respects_attempts _ owned found continues
      · cases accepted

theorem acceptEvent_node {next : ExecutionNode content}
    (payload : event.payload = .nodeUpdated next) (shadows : copy.Shadows state)
    (accepted : acceptEvent guard copy event = .ok copy') :
    ∃ after, state.apply event = some after ∧ copy'.Shadows after ∧
      (Respects guard state after ↔ Fits guard state event) := by
  unfold acceptEvent at accepted
  unfold ThreadProjection.apply Fits
  rw [payload] at accepted ⊢
  simp only at accepted ⊢
  split at accepted
  · cases accepted
  · split at accepted
    · rename_i owned
      split at accepted
      · rename_i old found
        split at accepted
        · rename_i valid
          cases accepted
          have settled := ExecutionNode.continues_iff (Table.key_of_get found) owned valid
          rw [shadows.thread, shadows.attempts] at settled
          rw [shadows.nodes] at found
          refine ⟨_, rfl, { shadows with nodes := by rw [shadows.nodes] }, ?_⟩
          rw [respects_nodes_iff, found]
          simp [settled]
        · cases accepted
      · rename_i absent
        split at accepted
        · cases accepted
          rw [shadows.nodes] at absent
          refine ⟨_, rfl, { shadows with nodes := by rw [shadows.nodes] }, ?_⟩
          rw [respects_nodes_iff, absent]
          simp
        · cases accepted
    · cases accepted

/-- An accepted event has a successor in the read model, which the copy shadows;
the step respects the guard exactly if the event fits. -/
theorem acceptEvent_step (shadows : copy.Shadows state)
    (accepted : acceptEvent guard copy event = .ok copy') :
    ∃ after, state.apply event = some after ∧ copy'.Shadows after ∧
      (Respects guard state after ↔ Fits guard state event) := by
  cases payload : event.payload with
  | runUpdated next =>
      obtain ⟨after, applied, next_shadows, respects⟩ := acceptEvent_run payload shadows accepted
      refine ⟨after, applied, next_shadows, iff_of_true respects ?_⟩
      unfold Fits
      rw [payload]
      trivial
  | runAttemptUpdated next =>
      obtain ⟨after, applied, next_shadows, respects⟩ :=
        acceptEvent_attempt payload shadows accepted
      refine ⟨after, applied, next_shadows, iff_of_true respects ?_⟩
      unfold Fits
      rw [payload]
      trivial
  | nodeUpdated next => exact acceptEvent_node payload shadows accepted
  | other eventType value =>
      unfold acceptEvent at accepted
      rw [payload] at accepted
      split at accepted <;> cases accepted

/-- What an event does to the read model respects the guard. -/
def StepRespects (guard : ProviderGuard) (before : ThreadProjection content)
    (event : DomainEvent content) : Prop :=
  ∀ after, before.apply event = some after → Respects guard before after

/-- An accepted batch folds; it respects the guard throughout exactly if its events
fit where they are applied. -/
theorem acceptEvents_run {events : List (DomainEvent content)} (shadows : copy.Shadows state)
    (accepted : events.foldlM (acceptEvent guard) copy = .ok copy') :
    (∃ final, run ThreadProjection.apply state events = some final) ∧
      (EveryStep ThreadProjection.apply (StepRespects guard) state events ↔
        EveryStep ThreadProjection.apply (Fits guard) state events) := by
  induction events generalizing copy state with
  | nil => exact ⟨⟨state, rfl⟩, Iff.rfl⟩
  | cons event events ih =>
      rw [List.foldlM_cons] at accepted
      cases first : acceptEvent guard copy event with
      | error refusal =>
          rw [first] at accepted
          cases accepted
      | ok middle =>
          rw [first] at accepted
          obtain ⟨after, applied, next_shadows, exact_step⟩ := acceptEvent_step shadows first
          obtain ⟨⟨final, ran⟩, exact_rest⟩ := ih next_shadows accepted
          constructor
          · refine ⟨final, ?_⟩
            rw [Zeron.Transition.run_cons, applied]
            exact ran
          · unfold EveryStep StepRespects
            rw [applied]
            simp only [Option.some.injEq, forall_eq']
            rw [exact_step]
            exact and_congr_right fun _ => exact_rest

end Steps

end Zeron.Orchestration
