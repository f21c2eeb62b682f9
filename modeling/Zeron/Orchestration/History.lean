import Zeron.Orchestration.Projections

/-!
# The read model as a history

The read model is what the events of the log leave one after the other.  What the startup check
looks for follows from what one event does to the threads, to the records and to the payloads
of the rows.
-/

namespace Zeron.Orchestration

open Zeron.Data Zeron.Wire

variable {content : Type} {contracts : Contracts content}

/-! ## Statements -/

theorem ensures_statement (rewrite : Projections → Except StoreError Projections)
    (point : WriteBoundary) :
    (statement rewrite point).Ensures fun before _ final => rewrite before = .ok final := by
  refine (Tx.ensures_look.bind fun _ => (Tx.ensures_ofExcept _).bind fun _ =>
    (Tx.ensures_change _).bind fun _ => Tx.ensures_boundary _).imp ?_
  rintro before _ _ ⟨_, _, ⟨rfl, rfl⟩, next, _, ⟨written, rfl⟩, _, _, rfl, rfl⟩
  exact written

theorem ensures_statementIf (condition : Bool)
    (rewrite : Projections → Except StoreError Projections) (point : WriteBoundary) :
    (statementIf condition rewrite point).Ensures fun before _ final =>
      final = before ∨ rewrite before = .ok final := by
  unfold statementIf
  split
  · exact (ensures_statement _ _).imp fun _ _ _ written => .inr written
  · exact (Tx.ensures_give _).imp fun _ _ _ same => .inl same.2

variable {projections next : Projections} {threadId : String}

/-- What a statement about a thread does. -/
theorem amendThread_eq {missing key value : String} {sequence : Nat}
    (amended : amendThread contracts threadId missing key value sequence projections = .ok next) :
    ∃ thread, readEntity (projections.entities .threads) threadId threadId = some thread ∧
      contracts.decodes (.filed (.entity .threads)) thread = true ∧
        next = projections.withEntities .threads
          ((projections.entities .threads).update (fun row => row.id == threadId)
            (fun row => { row with
              payload := thread.set key (.str value), lastSequence := sequence })
            fun _ => rfl) := by
  unfold amendThread at amended
  split at amended
  · cases amended
  · rename_i thread read
    split at amended
    · rename_i decoded
      cases amended
      exact ⟨thread, read, decoded, rfl⟩
    · cases amended

theorem put_eq {target : Target} {row : ProjectionRow}
    (written : projections.put target row = .ok next) :
    (∃ table, target = .entity table ∧
        next = projections.withEntities table ((projections.entities table).put row)) ∨
      ∃ kind, target = .record kind ∧
        next = { projections with records := projections.records.put { kind, row } } := by
  unfold Projections.put at written
  split at written
  · cases written
  · cases target with
    | entity table =>
        dsimp only at written
        split at written
        · cases written
          exact .inl ⟨table, rfl, rfl⟩
        · cases written
    | record kind =>
        cases written
        exact .inr ⟨kind, rfl, rfl⟩

variable {stored : Envelope content}

/-- An event detaches a session, or files a row. -/
theorem fileEvent_eq (filed : fileEvent contracts stored projections = .ok next) :
    ∃ payload, projections.completed stored.event.payload.eventType stored.event.threadId
        (contracts.value stored.event.payload) = .ok payload ∧
      ((stored.event.payload.eventType = "provider-session.detached" ∧
          next = projections.detach (payload.text "providerSessionId") stored.event.threadId) ∨
        ∃ target id, stored.event.payload.eventType ≠ "provider-session.detached" ∧
          targetOf stored.event.payload.eventType = some target ∧ payload.text "id" = some id ∧
            projections.put target
              (rowOf target id stored.event.threadId stored.sequence payload) = .ok next) := by
  unfold fileEvent at filed
  dsimp only at filed
  split at filed
  · cases filed
  · rename_i payload whole
    split at filed
    · rename_i detached
      cases filed
      exact ⟨payload, whole, .inl ⟨detached, rfl⟩⟩
    · rename_i attached
      split at filed
      · cases filed
      · rename_i target placed
        split at filed
        · cases filed
        · rename_i id named
          exact ⟨payload, whole, .inr ⟨target, id, attached, placed, named, filed⟩⟩

/-- The stages of an event: its row, the binding, the activity of its thread, the frontier. -/
theorem applyChecked_stages (stored : Envelope content) :
    (applyChecked contracts stored).Ensures fun before _ final =>
      ∃ filed bound touched, fileEvent contracts stored before = .ok filed ∧
        (bound = filed ∨ activateBinding contracts stored filed = .ok bound) ∧
          (touched = bound ∨ touchThread contracts stored bound = .ok touched) ∧
            final = touched.advance stored.sequence := by
  intro before final fault left _ ran
  rcases Tx.of_bind ran with ⟨_, filed, _, filing, binding⟩
  rcases Tx.of_bind binding with ⟨_, bound, _, activating, touching⟩
  rcases Tx.of_bind touching with ⟨_, touched, _, amending, advancing⟩
  have filed_eq := (ensures_statement _ _).of_run filing
  have advanced := (ensures_statement _ _).of_run advancing
  cases advanced
  exact ⟨filed, bound, touched, filed_eq, (ensures_statementIf _ _ _).of_run activating,
    (ensures_statementIf _ _ _).of_run amending, rfl⟩

/-! ## Threads -/

namespace Projections

def threadIds (projections : Projections) : List String :=
  (projections.entities .threads).rows.map ProjectionRow.id

theorem threadIds_withEntities_of_ne (projections : Projections) {table : EntityTable}
    (rows : Table ProjectionRow.id) (other : table ≠ .threads) :
    (projections.withEntities table rows).threadIds = projections.threadIds := by
  unfold threadIds withEntities
  dsimp only
  rw [if_neg (Ne.symm other)]

theorem mem_threadIds_put (projections : Projections) (row : ProjectionRow) (id : String) :
    id ∈ (projections.withEntities .threads
        ((projections.entities .threads).put row)).threadIds ↔
      id ∈ projections.threadIds ∨ row.id = id := by
  unfold threadIds withEntities
  simp only [List.mem_map]
  constructor
  · rintro ⟨other, listed, rfl⟩
    rcases Table.mem_put_iff.mp listed with rfl | ⟨kept, _⟩
    · exact .inr rfl
    · exact .inl ⟨other, kept, rfl⟩
  · rintro (⟨other, listed, rfl⟩ | rfl)
    · by_cases same : other.id = row.id
      · exact ⟨row, Table.mem_put_iff.mpr (.inl rfl), same.symm⟩
      · exact ⟨other, Table.mem_put_iff.mpr (.inr ⟨listed, same⟩), rfl⟩
    · exact ⟨row, Table.mem_put_iff.mpr (.inl rfl), rfl⟩

end Projections

theorem threadIds_amendThread {missing key value : String} {sequence : Nat}
    (amended : amendThread contracts threadId missing key value sequence projections = .ok next) :
    next.threadIds = projections.threadIds ∧ next.records = projections.records := by
  rcases amendThread_eq amended with ⟨thread, _, _, rfl⟩
  refine ⟨?_, rfl⟩
  unfold Projections.threadIds Projections.withEntities
  simp only [if_true, Table.update, List.map_map]
  apply List.map_congr_left
  intro row _
  rw [Function.comp_apply]
  split
  · rfl
  · rfl

theorem completed_of_thread {projections : Projections} {eventType : String}
    {value payload : Json} (thread : ofThread eventType = true)
    (whole : projections.completed eventType threadId value = .ok payload) : payload = value := by
  unfold Projections.completed at whole
  split at whole
  · rename_i cancelled
    rw [cancelled] at thread
    cases thread
  · split at whole
    · rename_i run
      rcases run with rfl | rfl
      · cases thread
      · cases thread
    · cases whole
      rfl

theorem targetOf_eq_threads_iff {eventType : String} :
    targetOf eventType = some (.entity .threads) ↔ ofThread eventType = true := by
  unfold targetOf
  split
  · simp_all
  · split
    · simp_all
    · split
      · simp_all
      · split
        · simp_all
        · cases recordKinds.lookup eventType <;> simp_all

/-- The threads after an event. -/
theorem mem_threadIds_apply {before final : Projections}
    (ran : (applyChecked contracts stored).run before none = .ok (⟨⟩, final, none)) (id : String) :
    id ∈ final.threadIds ↔ id ∈ before.threadIds ∨
      ofThread stored.event.payload.eventType = true ∧
        (contracts.value stored.event.payload).text "id" = some id := by
  rcases (applyChecked_stages stored).of_run ran with
    ⟨filed, bound, touched, filed_eq, bound_eq, touched_eq, rfl⟩
  have touched_ids : touched.threadIds = bound.threadIds := by
    rcases touched_eq with rfl | amended
    · rfl
    · exact (threadIds_amendThread amended).1
  have bound_ids : bound.threadIds = filed.threadIds := by
    rcases bound_eq with rfl | amended
    · rfl
    · exact (threadIds_amendThread amended).1
  change id ∈ touched.threadIds ↔ _
  rw [touched_ids, bound_ids]
  rcases fileEvent_eq filed_eq with ⟨payload, whole, ⟨detached, rfl⟩ | ⟨target, named, _, placed,
    name_eq, written⟩⟩
  · rw [detached]
    change id ∈ before.threadIds ↔ _
    simp [ofThread]
  · rcases put_eq written with ⟨table, rfl, rfl⟩ | ⟨kind, rfl, rfl⟩
    · by_cases threads : table = .threads
      · rcases threads with rfl
        have thread := targetOf_eq_threads_iff.mp placed
        rw [completed_of_thread thread whole] at name_eq
        rw [Projections.mem_threadIds_put, thread, name_eq, Option.some.injEq]
        change _ ∨ named = id ↔ _
        simp only [true_and]
      · have other : ¬ ofThread stored.event.payload.eventType = true := by
          intro thread
          rw [targetOf_eq_threads_iff.mpr thread] at placed
          cases placed
          exact threads rfl
        rw [Projections.threadIds_withEntities_of_ne _ _ threads]
        exact (or_iff_left fun named => other named.1).symm
    · have other : ¬ ofThread stored.event.payload.eventType = true := by
        intro thread
        rw [targetOf_eq_threads_iff.mpr thread] at placed
        cases placed
      exact (or_iff_left fun named => other named.1).symm

/-! ## Records -/

/-- Records of a kind that no event removes. -/
theorem exists_record_apply {before final : Projections}
    (ran : (applyChecked contracts stored).run before none = .ok (⟨⟩, final, none))
    {kind : RecordKind} (lasting : kind ≠ .providerSession) :
    (∃ record ∈ final.records.rows, record.kind = kind) ↔
      (∃ record ∈ before.records.rows, record.kind = kind) ∨
        targetOf stored.event.payload.eventType = some (.record kind) := by
  rcases (applyChecked_stages stored).of_run ran with
    ⟨filed, bound, touched, filed_eq, bound_eq, touched_eq, rfl⟩
  have touched_records : touched.records = bound.records := by
    rcases touched_eq with rfl | amended
    · rfl
    · exact (threadIds_amendThread amended).2
  have bound_records : bound.records = filed.records := by
    rcases bound_eq with rfl | amended
    · rfl
    · exact (threadIds_amendThread amended).2
  change (∃ record ∈ touched.records.rows, _) ↔ _
  rw [touched_records, bound_records]
  rcases fileEvent_eq filed_eq with ⟨payload, _, ⟨detached, rfl⟩ | ⟨target, named, _, placed, _,
    written⟩⟩
  · have nowhere : targetOf stored.event.payload.eventType ≠ some (.record kind) := by
      rw [detached]
      cases kind <;> decide
    simp only [nowhere, or_false]
    constructor
    · rintro ⟨record, listed, same⟩
      exact ⟨record, (List.mem_filter.mp listed).1, same⟩
    · rintro ⟨record, listed, same⟩
      refine ⟨record, List.mem_filter.mpr ⟨listed, ?_⟩, same⟩
      have other : (record.kind == RecordKind.providerSession) = false := by
        rw [same]
        exact beq_eq_false_iff_ne.mpr lasting
      dsimp only
      rw [other]
      rfl
  · rw [placed]
    rcases put_eq written with ⟨table, rfl, rfl⟩ | ⟨filed_kind, rfl, rfl⟩
    · change (∃ record ∈ before.records.rows, _) ↔ _
      simp
    · rw [Option.some.injEq, Target.record.injEq]
      constructor
      · rintro ⟨record, listed, same⟩
        rcases Table.mem_put_iff.mp listed with rfl | ⟨kept, _⟩
        · exact .inr same
        · exact .inl ⟨record, kept, same⟩
      · rintro (⟨record, listed, same⟩ | rfl)
        · by_cases again : record.key = RecordRow.key ⟨filed_kind, rowOf (.record filed_kind)
              named stored.event.threadId stored.sequence payload⟩
          · refine ⟨_, Table.mem_put_iff.mpr (.inl rfl), ?_⟩
            have kinds : record.kind = filed_kind := congrArg Prod.fst again
            rw [← kinds]
            exact same
          · exact ⟨record, Table.mem_put_iff.mpr (.inr ⟨listed, again⟩), same⟩
        · exact ⟨_, Table.mem_put_iff.mpr (.inl rfl), rfl⟩

/-! ## Payloads -/

/-- Every payload is of the type of its table. -/
structure Projections.Decoded (projections : Projections) (contracts : Contracts content) :
    Prop where
  entities : ∀ table, ∀ row ∈ (projections.entities table).rows,
    contracts.decodes (.filed (.entity table)) row.payload = true
  records : ∀ record ∈ projections.records.rows,
    contracts.decodes (.filed (.record record.kind)) record.row.payload = true

/-- The payload of an event is of its type. -/
def DomainEvent.Typed (event : DomainEvent content) (contracts : Contracts content) : Prop :=
  ∀ shape, shapeOf event.payload.eventType = some shape →
    contracts.decodes shape (contracts.value event.payload) = true

theorem mem_of_readEntity {table : Table ProjectionRow.id} {id : String} {payload : Json}
    (read : readEntity table id threadId = some payload) :
    ∃ row ∈ table.rows, row.payload = payload := by
  rcases Option.map_eq_some_iff.mp read with ⟨row, kept, same⟩
  exact ⟨row, Table.mem_of_get (Option.eq_some_of_filter_eq_some kept), same⟩

namespace Projections.Decoded

variable {projections next : Projections}

section

variable (decoded : projections.Decoded contracts)
include decoded

theorem withEntities {table : EntityTable} {rows : Table ProjectionRow.id}
    (own : ∀ row ∈ rows.rows, contracts.decodes (.filed (.entity table)) row.payload = true) :
    (projections.withEntities table rows).Decoded contracts where
  entities := by
    intro other row listed
    unfold Projections.withEntities at listed
    dsimp only at listed
    split at listed
    · rename_i same
      rw [same]
      exact own row listed
    · exact decoded.entities other row listed
  records := decoded.records

theorem amendThread {missing key value : String} {sequence : Nat}
    (known : key = "updatedAt" ∨ key = "activeProviderThreadId")
    (amended : Orchestration.amendThread contracts threadId missing key value sequence projections =
      .ok next) : next.Decoded contracts := by
  rcases amendThread_eq amended with ⟨thread, read, fits, rfl⟩
  apply decoded.withEntities
  intro row listed
  rcases List.mem_map.mp listed with ⟨old, old_listed, rfl⟩
  split
  · exact contracts.decodes_set key value thread known fits
  · exact decoded.entities .threads old old_listed

theorem put {target : Target} {row : ProjectionRow}
    (fits : contracts.decodes (.filed target) row.payload = true)
    (written : projections.put target row = .ok next) : next.Decoded contracts := by
  rcases put_eq written with ⟨table, rfl, rfl⟩ | ⟨kind, rfl, rfl⟩
  · apply decoded.withEntities
    intro other listed
    rcases Table.mem_put_iff.mp listed with rfl | ⟨kept, _⟩
    · exact fits
    · exact decoded.entities table other kept
  · constructor
    · exact decoded.entities
    · intro record listed
      rcases Table.mem_put_iff.mp listed with rfl | ⟨kept, _⟩
      · exact fits
      · exact decoded.records record kept

/-- The payload that is stored is of the type of its table. -/
theorem completed {event : DomainEvent content} (typed : event.Typed contracts) {target : Target}
    {payload : Json} (attached : event.payload.eventType ≠ "provider-session.detached")
    (placed : targetOf event.payload.eventType = some target)
    (whole : projections.completed event.payload.eventType event.threadId
      (contracts.value event.payload) = .ok payload) :
    contracts.decodes (.filed target) payload = true := by
  have runs {id threadId : String} {run : Json}
      (read : readEntity (projections.entities .runs) id threadId = some run) :
      contracts.decodes (.filed (.entity .runs)) run = true := by
    rcases mem_of_readEntity read with ⟨row, listed, rfl⟩
    exact decoded.entities .runs row listed
  unfold Projections.completed at whole
  split at whole
  · rename_i cancelled
    rw [cancelled] at placed
    rcases Option.some.inj placed with rfl
    have fits := typed .cancelledWork (by rw [cancelled]; rfl)
    split at whole
    · cases whole
    · rename_i run read
      cases whole
      exact contracts.decodes_cancelWork run _ (runs read) fits
  · rename_i not_cancelled
    have fits : contracts.decodes (.filed target) (contracts.value event.payload) = true := by
      apply typed
      rw [shapeOf, if_neg not_cancelled, if_neg attached, placed]
      rfl
    split at whole
    · rename_i run
      have of_run : target = .entity .runs := by
        rcases run with same | same
        · rw [same] at placed
          exact (Option.some.inj placed).symm
        · rw [same] at placed
          exact (Option.some.inj placed).symm
      rw [of_run] at fits ⊢
      split at whole
      · rename_i current read
        cases whole
        exact contracts.decodes_preserveRecorded _ current fits (runs read)
      · cases whole
        exact fits
    · cases whole
      exact fits

theorem apply {stored : Envelope content} (typed : stored.event.Typed contracts)
    (ran : (applyChecked contracts stored).run projections none = .ok (⟨⟩, next, none)) :
    next.Decoded contracts := by
  rcases (applyChecked_stages stored).of_run ran with
    ⟨filed, bound, touched, filed_eq, bound_eq, touched_eq, rfl⟩
  have filed_decoded : filed.Decoded contracts := by
    rcases fileEvent_eq filed_eq with ⟨payload, whole, ⟨_, rfl⟩ | ⟨target, id, attached, placed, _,
      written⟩⟩
    · constructor
      · exact decoded.entities
      · intro record listed
        exact decoded.records record (List.mem_filter.mp listed).1
    · exact decoded.put (decoded.completed typed attached placed whole) written
  have bound_decoded : bound.Decoded contracts := by
    rcases bound_eq with rfl | amended
    · exact filed_decoded
    · exact filed_decoded.amendThread (.inr rfl) amended
  have touched_decoded : touched.Decoded contracts := by
    rcases touched_eq with rfl | amended
    · exact bound_decoded
    · exact bound_decoded.amendThread (.inl rfl) amended
  exact ⟨touched_decoded.entities, touched_decoded.records⟩

end

end Projections.Decoded

/-! ## Histories -/

/-- What the store and the planners see to for a new event: it is numbered on, its payload is
of its type, and an event about a thread is filed under that thread, created before or here. -/
structure Envelope.Founded (stored : Envelope content) (contracts : Contracts content)
    (log : List (Envelope content)) : Prop where
  numbered : stored.sequence = latestSequence log + 1
  typed : stored.event.Typed contracts
  named : ofThread stored.event.payload.eventType = true →
    (contracts.value stored.event.payload).text "id" = some stored.event.threadId
  created : ofThread stored.event.payload.eventType = true →
    stored.creates = true ∨ stored.event.threadId ∈ createdStreams log

/-- The read model is what the events of the log leave. -/
inductive History (contracts : Contracts content) : List (Envelope content) → Projections → Prop
  where
  | start : History contracts [] .empty
  | append {log : List (Envelope content)} {projections next : Projections}
      {stored : Envelope content} (history : History contracts log projections)
      (founded : stored.Founded contracts log)
      (folded : (applyChecked contracts stored).run projections none = .ok (⟨⟩, next, none)) :
      History contracts (log ++ [stored]) next

theorem latestSequence_append (log : List (Envelope content)) (stored : Envelope content)
    (numbered : stored.sequence = latestSequence log + 1) :
    latestSequence (log ++ [stored]) = stored.sequence := by
  have bounded : ∀ (numbers : List Nat) (last : Nat), numbers.foldr max 0 ≤ last →
      (numbers ++ [last]).foldr max 0 = last := by
    intro numbers last
    induction numbers with
    | nil =>
        intro _
        exact Nat.max_zero last
    | cons number numbers ih =>
        intro above
        rw [List.foldr_cons] at above
        rw [List.cons_append, List.foldr_cons]
        omega
  unfold latestSequence at numbered ⊢
  rw [List.map_append]
  exact bounded _ _ (by omega)

theorem mem_createdStreams_append {log : List (Envelope content)} {id : String} :
    id ∈ createdStreams (log ++ [stored]) ↔
      id ∈ createdStreams log ∨ stored.creates = true ∧ stored.event.threadId = id := by
  unfold createdStreams
  rw [List.filter_append, List.map_append, List.mem_append]
  cases creates : stored.creates with
  | true =>
      rw [List.filter_cons_of_pos creates]
      simp only [List.filter_nil, List.map_cons, List.map_nil, List.mem_singleton, true_and, eq_comm]
  | false =>
      rw [List.filter_cons_of_neg (Bool.eq_false_iff.mp creates)]
      simp only [List.filter_nil, List.map_nil, List.not_mem_nil, Bool.false_eq_true, false_and]

theorem ofThread_of_creates (creates : stored.creates = true) :
    ofThread stored.event.payload.eventType = true := by
  rw [beq_iff_eq.mp creates]
  rfl

namespace History

variable {log : List (Envelope content)} {projections : Projections}

section

variable (history : History contracts log projections)
include history

/-- The frontier names the last event. -/
theorem frontier :
    projections.schemaVersion = schemaVersion ∧
      projections.lastSequence = latestSequence log := by
  cases history with
  | start => exact ⟨rfl, rfl⟩
  | append earlier founded folded =>
      rcases (applyChecked_stages _).of_run folded with ⟨_, _, touched, _, _, _, rfl⟩
      exact ⟨rfl, (latestSequence_append _ _ founded.numbered).symm⟩

/-- The threads are those that were created. -/
theorem mem_threadIds_iff (id : String) : id ∈ projections.threadIds ↔ id ∈ createdStreams log := by
  induction history with
  | start => exact Iff.rfl
  | append earlier founded folded ih =>
      rw [mem_threadIds_apply folded, mem_createdStreams_append, ih]
      constructor
      · rintro (old | ⟨thread, named⟩)
        · exact .inl old
        · rw [founded.named thread, Option.some.injEq] at named
          rcases founded.created thread with creates | old
          · exact .inr ⟨creates, named⟩
          · exact .inl (named ▸ old)
      · rintro (old | ⟨creates, rfl⟩)
        · exact .inl old
        · have thread := ofThread_of_creates creates
          exact .inr ⟨thread, founded.named thread⟩

theorem decoded : projections.Decoded contracts := by
  induction history with
  | start =>
      constructor
      · intro table row listed
        cases listed
      · intro record listed
        cases listed
  | append earlier founded folded ih => exact ih.apply founded.typed folded

/-- The records of a kind come from the events of that kind. -/
theorem exists_record_iff (kind : RecordKind) (lasting : kind ≠ .providerSession) :
    (∃ record ∈ projections.records.rows, record.kind = kind) ↔
      ∃ stored ∈ log, targetOf stored.event.payload.eventType = some (.record kind) := by
  induction history with
  | start =>
      constructor
      · rintro ⟨record, listed, _⟩
        cases listed
      · rintro ⟨stored, listed, _⟩
        cases listed
  | append earlier founded folded ih =>
      rw [exists_record_apply folded lasting, ih]
      simp only [List.mem_append, List.mem_singleton]
      constructor
      · rintro (⟨stored, listed, same⟩ | same)
        · exact ⟨stored, .inl listed, same⟩
        · exact ⟨_, .inr rfl, same⟩
      · rintro ⟨stored, listed | rfl, same⟩
        · exact .inl ⟨stored, listed, same⟩
        · exact .inr same

/-! ### Rebuilding -/

theorem run_replay : (replay contracts log).run .empty none = .ok (⟨⟩, projections, none) := by
  have appended (log : List (Envelope content)) (stored : Envelope content)
      (start : Projections) :
      (replay contracts (log ++ [stored])).run start none =
        (replay contracts log >>= fun _ => applyChecked contracts stored).run start none := by
    induction log generalizing start with
    | nil =>
        change ((applyChecked contracts stored >>= fun _ => Tx.give ⟨⟩ : Tx _ _ _ _).run start none) =
          (applyChecked contracts stored).run start none
        rw [Tx.run_bind]
        cases ran : (applyChecked contracts stored).run start none with
        | error failure => rfl
        | ok outcome => rfl
    | cons event events ih =>
        change ((applyChecked contracts event >>= fun _ =>
          replay contracts (events ++ [stored]) : Tx _ _ _ _).run start none) =
            ((applyChecked contracts event >>= fun _ => replay contracts events) >>= fun _ =>
              applyChecked contracts stored : Tx _ _ _ _).run start none
        rw [Tx.run_bind, Tx.run_bind, Tx.run_bind]
        cases ran : (applyChecked contracts event).run start none with
        | error failure => rfl
        | ok outcome =>
            have calm : outcome.2.2 = none := by
              have steady := (applyChecked contracts event).steady ran
              rw [ran] at steady
              exact congrArg (fun left => left.2.2) (Except.ok.inj steady)
            dsimp only
            rw [calm]
            exact ih outcome.2.1
  induction history with
  | start => rfl
  | append earlier founded folded ih =>
      rw [appended, Tx.run_bind, ih]
      exact folded

/-- A rebuild, from whatever tables, leaves those of the history. -/
theorem run_rebuildChecked (damaged : Projections) :
    (rebuildChecked contracts log).run damaged none = .ok (⟨⟩, projections, none) := by
  have cleared : ((((damaged.withEntities .threads Table.empty).withEntities .runs
      Table.empty).withEntities .attempts Table.empty).withEntities .nodes Table.empty).entities =
        Projections.empty.entities := by
    funext table
    cases table with
    | threads => rfl
    | runs => rfl
    | attempts => rfl
    | nodes => rfl
  have start : (rebuildChecked contracts log).run damaged none =
      (replay contracts log).run
        { entities := ((((damaged.withEntities .threads Table.empty).withEntities .runs
            Table.empty).withEntities .attempts Table.empty).withEntities .nodes
              Table.empty).entities
          records := Table.empty, schemaVersion, lastSequence := 0 } none := rfl
  rw [start, cleared]
  exact run_replay history

/-! ### The startup check -/

theorem readsThread (id : String) : projections.readsThread contracts id = true := by
  have decoded := history.decoded
  unfold Projections.readsThread
  split
  · rfl
  · rename_i thread read
    rcases mem_of_readEntity read with ⟨row, listed, rfl⟩
    rw [decoded.entities .threads row listed]
    apply List.all_eq_true.mpr
    intro table _
    apply List.all_eq_true.mpr
    intro other kept
    exact decoded.entities table other (List.mem_filter.mp kept).1

end

theorem verifiedKinds_contains_iff (kind : RecordKind) :
    Projections.verifiedKinds.contains kind = true ↔
      kind ≠ .checkpoint ∧ kind ≠ .checkpointScope := by
  cases kind <;> decide

/-- The check passes unless there is a record of one of the two kinds that it does not know. -/
theorem verify_iff_records (history : History contracts log projections) :
    projections.verify contracts log = true ↔
      ∀ record ∈ projections.records.rows,
        record.kind ≠ .checkpoint ∧ record.kind ≠ .checkpointScope := by
  have versions := history.frontier
  have created : ((createdStreams log).all fun id => projections.threadIds.contains id) = true := by
    apply List.all_eq_true.mpr
    intro id listed
    rw [List.contains_iff_mem]
    exact (history.mem_threadIds_iff id).mpr listed
  have known : (projections.threadIds.all fun id => (createdStreams log).contains id) = true := by
    apply List.all_eq_true.mpr
    intro id listed
    rw [List.contains_iff_mem]
    exact (history.mem_threadIds_iff id).mp listed
  have read : (projections.threadIds.all fun id => projections.readsThread contracts id) = true := by
    apply List.all_eq_true.mpr
    intro id _
    exact history.readsThread id
  unfold Projections.threadIds at created known read
  unfold Projections.verify
  dsimp only
  rw [versions.1, versions.2, created, known, read, beq_self_eq_true, beq_self_eq_true,
    Bool.true_and, Bool.true_and, Bool.true_and, Bool.true_and, Bool.true_and, List.all_eq_true]
  apply forall₂_congr
  intro record listed
  rw [history.decoded.records record listed, Bool.and_true, verifiedKinds_contains_iff]

end History

end Zeron.Orchestration
