import Mathlib.Data.List.Dedup
import Zeron.Orchestration.Receipts

/-!
# What a transaction publishes

Events are numbered on from the last one, so the documents of a batch carry
versions above everything that was there before the transaction.
-/

namespace Zeron.Orchestration

open Zeron.Data

variable {content rows other operation : Type}
  {kernel : Kernel content rows other operation}

section Maximum

theorem le_foldr_max {numbers : List Nat} {number : Nat} (listed : number ∈ numbers) :
    number ≤ numbers.foldr max 0 := by
  induction numbers with
  | nil => cases listed
  | cons head tail ih =>
      obtain rfl | later := List.mem_cons.mp listed
      · exact Nat.le_max_left _ _
      · exact Nat.le_trans (ih later) (Nat.le_max_right _ _)

theorem foldr_max_le {numbers : List Nat} {bound : Nat} (below : ∀ number ∈ numbers, number ≤ bound) :
    numbers.foldr max 0 ≤ bound := by
  induction numbers with
  | nil => exact Nat.zero_le _
  | cons head tail ih =>
      apply Nat.max_le.mpr
      exact ⟨below head List.mem_cons_self,
        ih fun number later => below number (List.mem_cons_of_mem _ later)⟩

end Maximum

variable {tables : Tables content rows other}

namespace Tables

theorem le_latestSequence {envelope : Envelope content} (stored : envelope ∈ tables.events.rows) :
    envelope.sequence ≤ tables.latestSequence :=
  le_foldr_max (List.mem_map_of_mem stored)

theorem le_throughSequence {envelope : Envelope content} (stored : envelope ∈ tables.events.rows) :
    envelope.sequence ≤ tables.throughSequence envelope.event.threadId := by
  apply le_foldr_max
  apply List.mem_map_of_mem
  exact List.mem_filter.mpr ⟨stored, beq_self_eq_true _⟩

theorem throughSequence_le (tables : Tables content rows other) (threadId : String) :
    tables.throughSequence threadId ≤ tables.latestSequence := by
  apply foldr_max_le
  intro number listed
  obtain ⟨envelope, streamed, rfl⟩ := List.mem_map.mp listed
  exact le_latestSequence (List.mem_filter.mp streamed).1

end Tables

/-! ## Appended events -/

/-- The events are stored after those of `before`, numbered on; the sequence is
that of the last of them, or `start`. -/
def Extends (before final : Tables content rows other) (events : List (DomainEvent content))
    (start sequence : Nat) : Prop :=
  final.publications = before.publications ∧ ∃ envelopes,
    final.events.rows = before.events.rows ++ envelopes ∧
      envelopes.map Envelope.event = events ∧
      (∀ envelope ∈ envelopes, before.latestSequence < envelope.sequence) ∧
      sequence = (envelopes.map Envelope.sequence).getLast?.getD start

theorem Extends.refl (tables : Tables content rows other) (start : Nat) :
    Extends tables tables [] start start :=
  ⟨rfl, [], (List.append_nil _).symm, rfl, by simp, rfl⟩

variable {start sequence : Nat} {events : List (DomainEvent content)}

/-- One event and then more. -/
theorem Extends.cons {before middle final : Tables content rows other} {stored : Envelope content}
    (same : middle.publications = before.publications)
    (appended : middle.events.rows = before.events.rows ++ [stored])
    (numbered : stored.sequence = before.latestSequence + 1)
    (rest : Extends middle final events stored.sequence sequence) :
    Extends before final (stored.event :: events) start sequence := by
  obtain ⟨same_rest, envelopes, appended_rest, contents, above, last⟩ := rest
  refine ⟨same_rest.trans same, stored :: envelopes, ?_, ?_, ?_, ?_⟩
  · rw [appended_rest, appended, List.append_assoc, List.singleton_append]
  · rw [List.map_cons, contents]
  · intro envelope listed
    obtain rfl | later := List.mem_cons.mp listed
    · omega
    · have stored_below : stored.sequence ≤ middle.latestSequence := by
        apply Tables.le_latestSequence
        rw [appended]
        exact List.mem_concat_self
      have := above envelope later
      omega
  · rw [last, List.map_cons, List.getLast?_cons, Option.getD_some]

/-- Events and publications are all that counts. -/
theorem Extends.congr {before middle final : Tables content rows other}
    (extended : Extends before middle events start sequence)
    (same_events : final.events = middle.events)
    (same_publications : final.publications = middle.publications) :
    Extends before final events start sequence := by
  unfold Extends
  rw [same_events, same_publications]
  exact extended

variable {before final : Tables content rows other}

theorem Extends.eq_of_nil (extended : Extends before final [] start sequence) :
    final.events = before.events := by
  obtain ⟨_, envelopes, appended, contents, _⟩ := extended
  rw [List.map_eq_nil_iff] at contents
  apply Table.ext
  rw [appended, contents, List.append_nil]

/-- What is appended is numbered above everything before. -/
theorem Extends.numbers (extends_by : Extends before final events start sequence)
    (some_event : events ≠ []) :
    before.latestSequence < sequence ∧ sequence ≤ final.latestSequence ∧
      ∀ event ∈ events, before.latestSequence < final.throughSequence event.threadId := by
  obtain ⟨_, envelopes, appended, contents, above, last⟩ := extends_by
  have stored : ∀ envelope ∈ envelopes, envelope ∈ final.events.rows := by
    intro envelope listed
    rw [appended]
    exact List.mem_append_right _ listed
  have some_envelope : envelopes ≠ [] := by
    rintro rfl
    exact some_event contents.symm
  have last_stored : ∃ envelope ∈ envelopes, envelope.sequence = sequence := by
    rw [List.getLast?_map, List.getLast?_eq_some_getLast some_envelope] at last
    exact ⟨_, List.getLast_mem some_envelope, last.symm⟩
  obtain ⟨envelope, listed, rfl⟩ := last_stored
  refine ⟨above envelope listed, Tables.le_latestSequence (stored envelope listed), ?_⟩
  intro event event_listed
  rw [← contents] at event_listed
  obtain ⟨other, other_listed, rfl⟩ := List.mem_map.mp event_listed
  exact Nat.lt_of_lt_of_le (above other other_listed)
    (Tables.le_throughSequence (stored other other_listed))

theorem Extends.latest_le (extends_by : Extends before final events start sequence) :
    before.latestSequence ≤ final.latestSequence := by
  obtain ⟨_, envelopes, appended, _⟩ := extends_by
  apply foldr_max_le
  intro number listed
  obtain ⟨envelope, stored, rfl⟩ := List.mem_map.mp listed
  apply Tables.le_latestSequence
  rw [appended]
  exact List.mem_append_left _ stored

/-- The event is stored behind the others and folded into the read model. -/
theorem appendEvent_extends (commandId : Option String) (event : DomainEvent content) :
    (appendEvent kernel commandId event).Ensures fun before stored final =>
      final.publications = before.publications ∧
        final.events.rows = before.events.rows ++ [stored] ∧
        stored.sequence = before.latestSequence + 1 ∧ stored.event = event ∧
        (kernel.project stored).run before.projections none = .ok (⟨⟩, final.projections, none) := by
  intro before final fault left stored ran
  obtain ⟨_, _, _, looked, inserting⟩ := Tx.of_bind ran
  obtain ⟨_, _, _, inserted, writing⟩ := Tx.of_bind inserting
  obtain ⟨_, _, _, written, passing⟩ := Tx.of_bind writing
  obtain ⟨_, _, _, passed, projecting⟩ := Tx.of_bind passing
  obtain ⟨_, _, _, projected, ending⟩ := Tx.of_bind projecting
  obtain ⟨_, _, _, ended, giving⟩ := Tx.of_bind ending
  obtain ⟨rfl, rfl⟩ := Tx.ensures_look.of_run looked
  obtain ⟨taken, rfl⟩ := (Tx.ensures_orRaise _ _).of_run inserted
  obtain rfl := (Tx.ensures_change _).of_run written
  obtain rfl := (Tx.ensures_boundary _).of_run passed
  obtain ⟨_, folded, rfl⟩ := (Tx.ensures_within_run _ _ _).of_run projected
  obtain rfl := (Tx.ensures_boundary _).of_run ended
  obtain ⟨rfl, rfl⟩ := (Tx.ensures_give _).of_run giving
  exact ⟨rfl, Table.rows_insert taken, rfl, rfl, folded⟩

theorem appendPlanned_extends (command : Command operation) (events : List (DomainEvent content))
    (receipt : CommandReceipt) (changed : List String) :
    (appendPlanned kernel command events receipt changed).Ensures fun before result final =>
      Extends before final events receipt.resultSequence result.1.resultSequence ∧
        result.2 = changed ++ events.map DomainEvent.threadId := by
  induction events generalizing receipt changed with
  | nil =>
      refine (Tx.ensures_give _).imp ?_
      rintro before _ _ ⟨rfl, rfl⟩
      exact ⟨.refl _ _, (List.append_nil _).symm⟩
  | cons event events ih =>
      refine ((Tx.ensures_require _ _).bind fun _ =>
        (appendEvent_extends _ _).bind fun stored => ih _ _).imp ?_
      rintro before result final ⟨_, _, ⟨_, rfl⟩, stored, middle, ⟨same, appended, numbered, rfl, _⟩,
        rest, changed_eq⟩
      refine ⟨.cons same appended numbered rest, ?_⟩
      rw [changed_eq, List.append_assoc]
      rfl

theorem appendExternal_extends [DecidableEq content] (events : List (DomainEvent content))
    (start : Nat) :
    (appendExternal kernel events start).Ensures fun before sequence final =>
      Extends before final events start sequence := by
  induction events generalizing start with
  | nil =>
      refine (Tx.ensures_give _).imp ?_
      rintro before _ _ ⟨rfl, rfl⟩
      exact .refl _ _
  | cons event events ih =>
      refine ((appendEvent_extends _ _).bind fun stored => ih _).imp ?_
      rintro before result final ⟨stored, middle, ⟨same, appended, numbered, rfl, _⟩, rest⟩
      exact .cons same appended numbered rest

/-! ## Batches -/

theorem threadDocument_ne_registry (id : String) :
    "orchestration/thread/" ++ id ≠ "orchestration/registry" := by
  intro same
  have chars := congrArg (fun name : String => name.toList[14]?) same
  simp only [String.toList_append] at chars
  rw [List.getElem?_append_left (by decide)] at chars
  revert chars
  decide

theorem threadOrder_perm (threads : List String) : (threadOrder threads).Perm threads.dedup :=
  List.perm_insertionSort _ _

variable {threads : List String}

theorem mem_threadOrder {id : String} :
    id ∈ threadOrder threads ↔ id ∈ threads := by
  rw [(threadOrder_perm threads).mem_iff, List.mem_dedup]

/-- The documents of a batch, when there are any. -/
theorem Tables.documents_eq {sequence : Nat} {documents : List (PublicationDocument content)}
    (read : tables.documents kernel sequence threads = some documents) :
    documents = threads.map (fun id => {
        docId := "orchestration/thread/" ++ id
        version := tables.throughSequence id
        payload := kernel.threadPayload tables id }) ++
      [{ docId := "orchestration/registry"
         version := sequence
         payload := kernel.registryPayload tables threads }] := by
  unfold Tables.documents at read
  split at read
  · cases read
    rfl
  · cases read

/-- Each document of a batch has an id of its own. -/
theorem documents_distinct {sequence : Nat} {documents : List (PublicationDocument content)}
    (distinct : threads.Nodup) (read : tables.documents kernel sequence threads = some documents) :
    (documents.map PublicationDocument.docId).Nodup := by
  rw [Tables.documents_eq read, List.map_append, List.map_map]
  apply List.nodup_append.mpr
  refine ⟨?_, List.nodup_singleton _, ?_⟩
  · apply distinct.map
    intro first second same
    exact (String.append_right_inj _).mp same
  · intro docId listed other other_eq same
    obtain ⟨id, _, rfl⟩ := List.mem_map.mp listed
    rw [List.map_cons, List.map_nil, List.mem_singleton] at other_eq
    exact threadDocument_ne_registry id (same.trans other_eq)

/-- The batch of a transaction, if there is one, is new; its documents are above
what was there before the transaction and not beyond what is there after it. -/
structure Publishes (before final : Tables content rows other) : Prop where
  latest : before.latestSequence ≤ final.latestSequence
  publications : final.publications = before.publications ∨ ∃ batch,
    before.publications.enqueue batch = some final.publications ∧
      (batch.documents.map PublicationDocument.docId).Nodup ∧
      ∀ document ∈ batch.documents,
        before.latestSequence < document.version ∧ document.version ≤ final.latestSequence

theorem Publishes.refl (tables : Tables content rows other) : Publishes tables tables where
  latest := Nat.le_refl _
  publications := .inl rfl

theorem enqueuePublication_spec (identity : String) (sequence : Nat) (threads : List String) :
    (enqueuePublication kernel identity sequence threads).Ensures fun before _ final =>
      final.events = before.events ∧ ∃ batch,
        before.publications.enqueue batch = some final.publications ∧
        before.documents kernel sequence (threadOrder threads) = some batch.documents := by
  intro before final fault left _ ran
  obtain ⟨_, _, _, looked, reading⟩ := Tx.of_bind ran
  obtain ⟨documents, _, _, read, inserting⟩ := Tx.of_bind reading
  obtain ⟨_, _, _, inserted, writing⟩ := Tx.of_bind inserting
  obtain ⟨rfl, rfl⟩ := Tx.ensures_look.of_run looked
  obtain ⟨read_eq, rfl⟩ := (Tx.ensures_orRaise _ _).of_run read
  obtain ⟨enqueued, rfl⟩ := (Tx.ensures_orRaise _ _).of_run inserted
  obtain rfl := (Tx.ensures_change _).of_run writing
  exact ⟨rfl, _, enqueued, read_eq⟩

/-- Appended events and then their batch. -/
theorem publishes_of_extends {before middle final : Tables content rows other}
    {batch : PublicationBatch content} (extended : Extends before middle events start sequence)
    (some_event : events ≠ []) (changed : ∀ id ∈ threads, id ∈ events.map DomainEvent.threadId)
    (same : final.events = middle.events)
    (enqueued : middle.publications.enqueue batch = some final.publications)
    (read : middle.documents kernel sequence (threadOrder threads) = some batch.documents) :
    Publishes before final := by
  have latest_same : final.latestSequence = middle.latestSequence := by
    unfold Tables.latestSequence
    rw [same]
  obtain ⟨above, below, threads_above⟩ := extended.numbers some_event
  refine ⟨?_, .inr ⟨batch, ?_, ?_, ?_⟩⟩
  · rw [latest_same]
    exact extended.latest_le
  · rw [← extended.1]
    exact enqueued
  · apply documents_distinct _ read
    exact (threadOrder_perm threads).nodup_iff.mpr (List.nodup_dedup _)
  · intro document listed
    rw [Tables.documents_eq read] at listed
    rw [latest_same]
    obtain thread_listed | registry := List.mem_append.mp listed
    · obtain ⟨id, id_listed, rfl⟩ := List.mem_map.mp thread_listed
      obtain ⟨event, event_listed, rfl⟩ :=
        List.mem_map.mp (changed id (mem_threadOrder.mp id_listed))
      exact ⟨threads_above event event_listed, middle.throughSequence_le _⟩
    · cases List.mem_singleton.mp registry
      exact ⟨above, below⟩

theorem publishChanges_spec (identity : String) (sequence : Nat) (changed : List String) :
    (publishChanges kernel identity sequence changed).Ensures fun before _ final =>
      final.events = before.events ∧
        ((changed = [] ∧ final.publications = before.publications) ∨ changed ≠ [] ∧ ∃ batch,
          before.publications.enqueue batch = some final.publications ∧
          before.documents kernel sequence (threadOrder changed) = some batch.documents) := by
  unfold publishChanges
  split
  · rename_i none_changed
    refine (Tx.ensures_give _).imp ?_
    rintro before _ _ ⟨_, rfl⟩
    exact ⟨rfl, .inl ⟨List.isEmpty_iff.mp none_changed, rfl⟩⟩
  · rename_i some_changed
    refine ((enqueuePublication_spec _ _ _).bind fun _ => Tx.ensures_boundary _).imp ?_
    rintro before _ _ ⟨_, _, ⟨same, batch, enqueued, read⟩, rfl⟩
    exact ⟨same, .inr ⟨fun nil => some_changed (List.isEmpty_iff.mpr nil), batch, enqueued, read⟩⟩

/-- Changes that leave events and publications alone. -/
theorem Publishes.of_same (events : final.events = before.events)
    (publications : final.publications = before.publications) :
    Publishes before final where
  latest := by
    unfold Tables.latestSequence
    rw [events]
  publications := .inl publications

theorem Publishes.congr {before middle final last : Tables content rows other}
    (publishes : Publishes middle final) (events : middle.events = before.events)
    (publications : middle.publications = before.publications)
    (last_events : last.events = final.events)
    (last_publications : last.publications = final.publications) : Publishes before last := by
  have first : middle.latestSequence = before.latestSequence := by
    unfold Tables.latestSequence
    rw [events]
  have second : last.latestSequence = final.latestSequence := by
    unfold Tables.latestSequence
    rw [last_events]
  constructor
  · rw [second, ← first]
    exact publishes.latest
  · rw [last_publications, second, ← first, ← publications]
    exact publishes.publications

theorem executePlan_publishes (command : Command operation) (now : Int) (plan : Plan content)
    (reserved : CommandReceipt) :
    (executePlan kernel command now plan reserved).Ensures fun before _ final =>
      Publishes before final := by
  intro before final fault left receipt ran
  obtain ⟨_, reserving, _, put_first, passing⟩ := Tx.of_bind ran
  obtain ⟨_, _, _, passed, appending⟩ := Tx.of_bind passing
  obtain ⟨appended, middle, _, extending, performing⟩ := Tx.of_bind appending
  obtain ⟨_, performed, _, perform, publishing⟩ := Tx.of_bind performing
  obtain ⟨_, published, _, publish, finishing⟩ := Tx.of_bind publishing
  obtain ⟨_, written, _, put_last, ending⟩ := Tx.of_bind finishing
  obtain ⟨_, _, _, ended, giving⟩ := Tx.of_bind ending
  obtain ⟨_, rfl⟩ := (Tx.ensures_give _).of_run giving
  obtain rfl := (Tx.ensures_boundary _).of_run ended
  have after_pass := (Tx.ensures_boundary _).of_run passed
  have first := (untouched_putReceipt _).of_run put_first
  have last := (untouched_putReceipt _).of_run put_last
  have core := (keeps_core_performPlan _ _ _ _).of_run perform
  obtain ⟨extended, changed⟩ := (appendPlanned_extends _ _ _ _).of_run extending
  rw [after_pass] at extended
  rw [List.nil_append] at changed
  have extended_here : Extends reserving performed plan.events reserved.resultSequence
      appended.1.resultSequence :=
    extended.congr (congrArg Tables.Core.events core) (congrArg Tables.Core.publications core)
  have publishes : Publishes reserving published := by
    obtain ⟨same, ⟨none_changed, kept⟩ | ⟨some_changed, batch, enqueued, read⟩⟩ :=
      (publishChanges_spec _ _ _).of_run publish
    · have no_event : plan.events = [] := by
        rw [changed, List.map_eq_nil_iff] at none_changed
        exact none_changed
      rw [no_event] at extended_here
      exact .of_same (same.trans extended_here.eq_of_nil) (kept.trans extended_here.1)
    · have some_event : plan.events ≠ [] := by
        intro none
        rw [changed, none] at some_changed
        exact some_changed rfl
      apply publishes_of_extends extended_here some_event _ same enqueued read
      intro id listed
      rw [← changed]
      exact listed
  exact publishes.congr first.1 first.2.2.2 last.1 last.2.2.2

theorem execute_publishes (command : Command operation) (now : Int) :
    (execute kernel command now).Ensures fun before _ final => Publishes before final := by
  intro before final fault left receipt ran
  obtain ⟨_, _, _, passed, typing⟩ := Tx.of_bind ran
  obtain ⟨commandType, _, _, typed, dating⟩ := Tx.of_bind typing
  obtain ⟨acceptedAt, _, _, dated, looking⟩ := Tx.of_bind dating
  obtain ⟨tables, _, _, looked, planning⟩ := Tx.of_bind looking
  obtain ⟨_, _, _, planned, deciding⟩ := Tx.of_bind planning
  obtain rfl := (Tx.ensures_boundary _).of_run passed
  obtain ⟨_, rfl⟩ := (Tx.ensures_ofExcept _).of_run typed
  obtain ⟨_, rfl⟩ := (Tx.ensures_ofExcept _).of_run dated
  obtain ⟨rfl, rfl⟩ := Tx.ensures_look.of_run looked
  obtain rfl := (Tx.ensures_change _).of_run planned
  split at deciding
  · cases deciding
  · obtain ⟨_, _, _, put, ending⟩ := Tx.of_bind deciding
    obtain ⟨_, _, _, finished, giving⟩ := Tx.of_bind ending
    obtain ⟨_, rfl⟩ := (Tx.ensures_give _).of_run giving
    obtain rfl := (Tx.ensures_boundary _).of_run finished
    have untouched := (untouched_putReceipt _).of_run put
    exact .of_same untouched.1 untouched.2.2.2
  · obtain ⟨_, _, _, required, executing⟩ := Tx.of_bind deciding
    obtain ⟨_, rfl⟩ := (Tx.ensures_require _ _).of_run required
    have publishes := (executePlan_publishes _ _ _ _).of_run executing
    exact publishes.congr rfl rfl rfl rfl

/-- Behind the check of the owner. -/
theorem Tx.Ensures.write {α : Type} {program : Program content rows other α}
    {relation : Tables content rows other → α → Tables content rows other → Prop}
    (ensures : program.Ensures relation) : (write kernel program).Ensures relation := by
  refine (Tx.ensures_look.bind fun _ => (Tx.ensures_require _ _).bind fun _ => ensures).imp ?_
  rintro before result final ⟨_, _, ⟨_, rfl⟩, _, _, ⟨_, rfl⟩, related⟩
  exact related

theorem dispatch_publishes (command : Command operation) (now : Int) :
    (dispatch kernel command now).Ensures fun before _ final => Publishes before final := by
  apply Tx.Ensures.write
  intro before final fault left receipt ran
  obtain ⟨_, _, _, looked, deciding⟩ := Tx.of_bind ran
  obtain ⟨rfl, rfl⟩ := Tx.ensures_look.of_run looked
  split at deciding
  · obtain ⟨_, rfl⟩ := (Tx.ensures_give _).of_run deciding
    exact .refl _
  · exact (execute_publishes _ _).of_run deciding

theorem eq_ok_of_mapError {ε ε' α : Type} {change : ε → ε'} {outcome : Except ε α} {value : α}
    (mapped : outcome.mapError change = .ok value) : outcome = .ok value := by
  cases outcome with
  | error _ => cases mapped
  | ok _ =>
      cases mapped
      rfl

theorem providerBatch_of_plan [DecidableEq content] {projections : rows} {threadId : String}
    {projection : ThreadProjection content} {guard : ProviderGuard}
    (planned : planProviderEvents kernel projections threadId projection guard events = .ok ()) :
    providerBatch projection guard events = .ok () := by
  unfold planProviderEvents at planned
  split at planned
  · cases planned
  · cases guarded : checkGuard projection guard with
    | error refusal =>
        rw [guarded] at planned
        cases planned
    | ok _ =>
        rw [guarded] at planned
        change (if _ then _ else _ : Except String Unit) = _ at planned
        split at planned
        · cases planned
        · exact planned

theorem appendOwned_publishes [DecidableEq content] {threadId : String}
    {projection : ThreadProjection content} (own : projection.thread.id = threadId)
    (guard : ProviderGuard) (events : List (DomainEvent content)) :
    (appendOwned kernel threadId projection guard events).Ensures fun before _ final =>
      Publishes before final := by
  intro before final fault left appended ran
  obtain ⟨_, _, _, looked, planning⟩ := Tx.of_bind ran
  obtain ⟨_, _, _, planned, counting⟩ := Tx.of_bind planning
  obtain ⟨duplicates, _, _, counted, deciding⟩ := Tx.of_bind counting
  obtain ⟨rfl, rfl⟩ := Tx.ensures_look.of_run looked
  obtain ⟨accepted, rfl⟩ := (Tx.ensures_ofExcept _).of_run planned
  obtain ⟨_, rfl⟩ := (Tx.ensures_ofExcept _).of_run counted
  split at deciding
  · obtain ⟨_, rfl⟩ := (Tx.ensures_give _).of_run deciding
    exact .refl _
  · rename_i not_all
    obtain ⟨_, _, _, required, appending⟩ := Tx.of_bind deciding
    obtain ⟨sequence, _, _, appended, publishing⟩ := Tx.of_bind appending
    obtain ⟨_, _, _, published, passing⟩ := Tx.of_bind publishing
    obtain ⟨_, _, _, passed, giving⟩ := Tx.of_bind passing
    obtain ⟨no_duplicate, rfl⟩ := (Tx.ensures_require _ _).of_run required
    obtain rfl := (Tx.ensures_boundary _).of_run passed
    obtain ⟨_, rfl⟩ := (Tx.ensures_give _).of_run giving
    have extended := (appendExternal_extends _ _).of_run appended
    obtain ⟨same, batch, enqueued, read⟩ := (enqueuePublication_spec _ _ _).of_run published
    have some_event : events ≠ [] := by
      rintro rfl
      exact not_all (beq_iff_eq.mp no_duplicate)
    apply publishes_of_extends extended some_event _ same enqueued read
    intro id listed
    cases List.mem_singleton.mp listed
    have batch_accepted := providerBatch_of_plan (eq_ok_of_mapError accepted)
    cases events with
    | nil => exact absurd rfl some_event
    | cons event rest =>
        rw [List.map_cons, threadId_of_providerBatch batch_accepted, own]
        exact List.mem_cons_self

theorem appendProviderEvents_publishes [DecidableEq content] (threadId : String)
    (guard : ProviderGuard) (events : List (DomainEvent content)) :
    (appendProviderEvents kernel threadId guard events).Ensures fun before _ final =>
      Publishes before final := by
  apply Tx.Ensures.write
  intro before final fault left appended ran
  obtain ⟨_, _, _, looked, deciding⟩ := Tx.of_bind ran
  obtain ⟨rfl, rfl⟩ := Tx.ensures_look.of_run looked
  split at deciding
  · obtain ⟨_, rfl⟩ := (Tx.ensures_give _).of_run deciding
    exact .refl _
  · split at deciding
    · obtain ⟨_, rfl⟩ := (Tx.ensures_give _).of_run deciding
      exact .refl _
    · exact (appendOwned_publishes (kernel.readThread_id ‹_›) _ _).of_run deciding

end Zeron.Orchestration
