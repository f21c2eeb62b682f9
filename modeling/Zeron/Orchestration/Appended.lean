import Zeron.Orchestration.PublicationWorker

/-!
# What a transaction appends

A transaction reaches the log and the read model only by appending the events of a plan, or of
a provider that was let through: each is numbered on and folded into the read model.
-/

namespace Zeron.Orchestration

open Zeron.Data

variable {content rows other operation : Type}
  {kernel : Kernel content rows other operation}

/-- Events are appended to a log, each with its fold into the read model. -/
inductive Appends (kernel : Kernel content rows other operation) :
    List (Envelope content) → rows → List (DomainEvent content) → List (Envelope content) →
      rows → Prop where
  | none {log : List (Envelope content)} {projections : rows} :
      Appends kernel log projections [] log projections
  | more {log later : List (Envelope content)} {projections next final : rows}
      {stored : Envelope content} {events : List (DomainEvent content)}
      (numbered : stored.sequence = (log.map Envelope.sequence).foldr max 0 + 1)
      (folded : (kernel.project stored).run projections none = .ok (⟨⟩, next, none))
      (rest : Appends kernel (log ++ [stored]) next events later final) :
      Appends kernel log projections (stored.event :: events) later final

/-- A transaction appends these events. -/
def Tables.Appends (kernel : Kernel content rows other operation)
    (before final : Tables content rows other) (events : List (DomainEvent content)) : Prop :=
  Orchestration.Appends kernel before.events.rows before.projections events final.events.rows
    final.projections

theorem Tables.Appends.refl (tables : Tables content rows other) :
    tables.Appends kernel tables [] :=
  .none

/-- Log and read model are all that counts. -/
theorem Tables.Appends.of_same {before final : Tables content rows other}
    (events : final.events = before.events) (projections : final.projections = before.projections) :
    before.Appends kernel final [] := by
  unfold Tables.Appends
  rw [events, projections]
  exact .none

theorem Tables.Appends.congr {before middle final last : Tables content rows other}
    {appended : List (DomainEvent content)} (appends : middle.Appends kernel final appended)
    (events : middle.events = before.events) (projections : middle.projections = before.projections)
    (last_events : last.events = final.events)
    (last_projections : last.projections = final.projections) :
    before.Appends kernel last appended := by
  unfold Tables.Appends at appends ⊢
  rw [last_events, last_projections, ← events, ← projections]
  exact appends

variable {events : List (DomainEvent content)}

/-- An appended event before others. -/
theorem Tables.Appends.cons {before middle final : Tables content rows other}
    {stored : Envelope content} (numbered : stored.sequence = before.latestSequence + 1)
    (appended : middle.events.rows = before.events.rows ++ [stored])
    (folded : (kernel.project stored).run before.projections none =
      .ok (⟨⟩, middle.projections, none)) (rest : middle.Appends kernel final events) :
    before.Appends kernel final (stored.event :: events) := by
  unfold Tables.Appends at rest
  rw [appended] at rest
  exact .more numbered folded rest

theorem appendPlanned_appends (command : Command operation) (events : List (DomainEvent content))
    (receipt : CommandReceipt) (changed : List String) :
    (appendPlanned kernel command events receipt changed).Ensures fun before _ final =>
      before.Appends kernel final events := by
  induction events generalizing receipt changed with
  | nil =>
      refine (Tx.ensures_give _).imp ?_
      rintro before _ _ ⟨_, rfl⟩
      exact .refl _
  | cons event events ih =>
      refine ((Tx.ensures_require _ _).bind fun _ =>
        (appendEvent_extends _ _).bind fun stored => ih _ _).imp ?_
      rintro before result final ⟨_, _, ⟨_, rfl⟩, stored, middle, ⟨_, appended, numbered, rfl, folded⟩,
        rest⟩
      exact .cons numbered appended folded rest

theorem appendExternal_appends [DecidableEq content] (events : List (DomainEvent content))
    (start : Nat) :
    (appendExternal kernel events start).Ensures fun before _ final =>
      before.Appends kernel final events := by
  induction events generalizing start with
  | nil =>
      refine (Tx.ensures_give _).imp ?_
      rintro before _ _ ⟨_, rfl⟩
      exact .refl _
  | cons event events ih =>
      refine ((appendEvent_extends _ _).bind fun stored => ih _).imp ?_
      rintro before result final ⟨stored, middle, ⟨_, appended, numbered, rfl, folded⟩, rest⟩
      exact .cons numbered appended folded rest

theorem keeps_projections_enqueuePublication (identity : String) (sequence : Nat)
    (threads : List String) :
    (enqueuePublication kernel identity sequence threads).Keeps Tables.projections := by
  apply Tx.keeps_look.bind
  intro _
  apply (Tx.keeps_orRaise _ _).bind
  intro _
  apply (Tx.keeps_orRaise _ _).bind
  intro _
  exact Tx.keeps_change (by intro; rfl)

theorem keeps_projections_publishChanges (identity : String) (sequence : Nat)
    (changed : List String) :
    (publishChanges kernel identity sequence changed).Keeps Tables.projections := by
  unfold publishChanges
  split
  · exact Tx.keeps_give _
  · apply (keeps_projections_enqueuePublication _ _ _).bind
    intro _
    exact Tx.keeps_boundary _

theorem executePlan_appends (command : Command operation) (now : Int) (plan : Plan content)
    (reserved : CommandReceipt) :
    (executePlan kernel command now plan reserved).Ensures fun before _ final =>
      before.Appends kernel final plan.events := by
  intro before final fault left receipt ran
  rcases Tx.of_bind ran with ⟨_, reserving, _, put_first, passing⟩
  rcases Tx.of_bind passing with ⟨_, _, _, passed, appending⟩
  rcases Tx.of_bind appending with ⟨appended, middle, _, extending, performing⟩
  rcases Tx.of_bind performing with ⟨_, performed, _, perform, publishing⟩
  rcases Tx.of_bind publishing with ⟨_, published, _, publish, finishing⟩
  rcases Tx.of_bind finishing with ⟨_, written, _, put_last, ending⟩
  rcases Tx.of_bind ending with ⟨_, _, _, ended, giving⟩
  rcases (Tx.ensures_give _).of_run giving with ⟨_, rfl⟩
  rcases (Tx.ensures_boundary _).of_run ended with rfl
  rcases (Tx.ensures_boundary _).of_run passed with rfl
  have first := (untouched_putReceipt _).of_run put_first
  have last := (untouched_putReceipt _).of_run put_last
  have core := (keeps_core_performPlan _ _ _ _).of_run perform
  have appends := (appendPlanned_appends _ _ _ _).of_run extending
  have published_events := ((publishChanges_spec _ _ _).of_run publish).1
  have published_projections := (keeps_projections_publishChanges _ _ _).of_run publish
  apply appends.congr first.1 first.2.1
  · rw [last.1, published_events]
    exact congrArg Tables.Core.events core
  · rw [last.2.1, published_projections]
    exact congrArg Tables.Core.projections core

/-- The events are those of a plan that was made for these tables. -/
def Kernel.Plans (kernel : Kernel content rows other operation)
    (tables : Tables content rows other) (events : List (DomainEvent content)) : Prop :=
  ∃ command now plan, (kernel.plan tables command now).1 = .accepted plan ∧ plan.events = events

theorem execute_appends (command : Command operation) (now : Int) :
    (execute kernel command now).Ensures fun before _ final =>
      ∃ events, before.Appends kernel final events ∧
        (events = [] ∨ kernel.Plans before events) := by
  intro before final fault left receipt ran
  rcases Tx.of_bind ran with ⟨_, _, _, passed, typing⟩
  rcases Tx.of_bind typing with ⟨commandType, _, _, typed, dating⟩
  rcases Tx.of_bind dating with ⟨acceptedAt, _, _, dated, looking⟩
  rcases Tx.of_bind looking with ⟨tables, _, _, looked, planning⟩
  rcases Tx.of_bind planning with ⟨_, _, _, planned, deciding⟩
  rcases (Tx.ensures_boundary _).of_run passed with rfl
  rcases (Tx.ensures_ofExcept _).of_run typed with ⟨_, rfl⟩
  rcases (Tx.ensures_ofExcept _).of_run dated with ⟨_, rfl⟩
  rcases Tx.ensures_look.of_run looked with ⟨rfl, rfl⟩
  rcases (Tx.ensures_change _).of_run planned with rfl
  split at deciding
  · cases deciding
  · rcases Tx.of_bind deciding with ⟨_, _, _, put, ending⟩
    rcases Tx.of_bind ending with ⟨_, _, _, finished, giving⟩
    rcases (Tx.ensures_give _).of_run giving with ⟨_, rfl⟩
    rcases (Tx.ensures_boundary _).of_run finished with rfl
    have untouched := (untouched_putReceipt _).of_run put
    exact ⟨[], .of_same untouched.1 untouched.2.1, .inl rfl⟩
  · rename_i plan accepted
    rcases Tx.of_bind deciding with ⟨_, _, _, required, executing⟩
    rcases (Tx.ensures_require _ _).of_run required with ⟨_, rfl⟩
    have appends := (executePlan_appends _ _ _ _).of_run executing
    exact ⟨plan.events, appends.congr rfl rfl rfl rfl, .inr ⟨_, _, plan, accepted, rfl⟩⟩

theorem dispatch_appends (command : Command operation) (now : Int) :
    (dispatch kernel command now).Ensures fun before _ final =>
      ∃ events, before.Appends kernel final events ∧
        (events = [] ∨ kernel.Plans before events) := by
  apply Tx.Ensures.write
  intro before final fault left receipt ran
  rcases Tx.of_bind ran with ⟨_, _, _, looked, deciding⟩
  rcases Tx.ensures_look.of_run looked with ⟨rfl, rfl⟩
  split at deciding
  · rcases (Tx.ensures_give _).of_run deciding with ⟨_, rfl⟩
    exact ⟨[], .refl _, .inl rfl⟩
  · exact (execute_appends _ _).of_run deciding

/-- An event that a provider may bring. -/
def EventPayload.ofProvider : EventPayload content → Bool
  | .other _ _ => false
  | _ => true

section Provider

variable [DecidableEq content] {guard : ProviderGuard}

theorem ofProvider_of_acceptEvent {state next : ThreadProjection content}
    {event : DomainEvent content} (accepted : acceptEvent guard state event = .ok next) :
    event.payload.ofProvider = true := by
  unfold acceptEvent at accepted
  split at accepted
  · cases accepted
  · cases kind : event.payload with
    | runUpdated run => rfl
    | runAttemptUpdated attempt => rfl
    | nodeUpdated node => rfl
    | other eventType payload =>
        rw [kind] at accepted
        cases accepted

theorem ofProvider_of_acceptEvents {state final : ThreadProjection content}
    (accepted : events.foldlM (acceptEvent guard) state = .ok final) :
    ∀ event ∈ events, event.payload.ofProvider = true := by
  induction events generalizing state with
  | nil =>
      intro event listed
      cases listed
  | cons event events ih =>
      rw [List.foldlM_cons] at accepted
      cases first : acceptEvent guard state event with
      | error refusal =>
          rw [first] at accepted
          cases accepted
      | ok next =>
          rw [first] at accepted
          intro other listed
          rcases List.mem_cons.mp listed with rfl | later
          · exact ofProvider_of_acceptEvent first
          · exact ih accepted other later

theorem ofProvider_of_providerBatch {projection : ThreadProjection content}
    (accepted : providerBatch projection guard events = .ok ()) :
    ∀ event ∈ events, event.payload.ofProvider = true := by
  unfold providerBatch at accepted
  split at accepted
  · cases accepted
  · rename_i folded
    exact ofProvider_of_acceptEvents folded

theorem appendOwned_appends (threadId : String) (projection : ThreadProjection content)
    (guard : ProviderGuard) (events : List (DomainEvent content)) :
    (appendOwned kernel threadId projection guard events).Ensures fun before _ final =>
      ∃ appended, before.Appends kernel final appended ∧
        ∀ event ∈ appended, event.payload.ofProvider = true := by
  intro before final fault left result ran
  rcases Tx.of_bind ran with ⟨_, _, _, looked, planning⟩
  rcases Tx.of_bind planning with ⟨_, _, _, planned, counting⟩
  rcases Tx.of_bind counting with ⟨duplicates, _, _, counted, deciding⟩
  rcases Tx.ensures_look.of_run looked with ⟨rfl, rfl⟩
  rcases (Tx.ensures_ofExcept _).of_run planned with ⟨accepted, rfl⟩
  rcases (Tx.ensures_ofExcept _).of_run counted with ⟨_, rfl⟩
  split at deciding
  · rcases (Tx.ensures_give _).of_run deciding with ⟨_, rfl⟩
    refine ⟨[], .refl _, ?_⟩
    intro event listed
    cases listed
  · rcases Tx.of_bind deciding with ⟨_, _, _, required, appending⟩
    rcases Tx.of_bind appending with ⟨sequence, _, _, appended, publishing⟩
    rcases Tx.of_bind publishing with ⟨_, _, _, published, passing⟩
    rcases Tx.of_bind passing with ⟨_, _, _, passed, giving⟩
    rcases (Tx.ensures_require _ _).of_run required with ⟨_, rfl⟩
    rcases (Tx.ensures_boundary _).of_run passed with rfl
    rcases (Tx.ensures_give _).of_run giving with ⟨_, rfl⟩
    have appends := (appendExternal_appends _ _).of_run appended
    have same := ((enqueuePublication_spec _ _ _).of_run published).1
    have projections := (keeps_projections_enqueuePublication _ _ _).of_run published
    have batch_accepted := providerBatch_of_plan (eq_ok_of_mapError accepted)
    exact ⟨events, appends.congr rfl rfl same projections,
      ofProvider_of_providerBatch batch_accepted⟩

theorem appendProviderEvents_appends (threadId : String) (guard : ProviderGuard)
    (events : List (DomainEvent content)) :
    (appendProviderEvents kernel threadId guard events).Ensures fun before _ final =>
      ∃ appended, before.Appends kernel final appended ∧
        ∀ event ∈ appended, event.payload.ofProvider = true := by
  have nothing (tables : Tables content rows other) :
      ∃ appended, tables.Appends kernel tables appended ∧
        ∀ event ∈ appended, event.payload.ofProvider = true := by
    refine ⟨[], .refl _, ?_⟩
    intro event listed
    cases listed
  apply Tx.Ensures.write
  intro before final fault left result ran
  rcases Tx.of_bind ran with ⟨_, _, _, looked, deciding⟩
  rcases Tx.ensures_look.of_run looked with ⟨rfl, rfl⟩
  split at deciding
  · rcases (Tx.ensures_give _).of_run deciding with ⟨_, rfl⟩
    exact nothing _
  · split at deciding
    · rcases (Tx.ensures_give _).of_run deciding with ⟨_, rfl⟩
      exact nothing _
    · exact (appendOwned_appends _ _ _ _).of_run deciding

end Provider

end Zeron.Orchestration
