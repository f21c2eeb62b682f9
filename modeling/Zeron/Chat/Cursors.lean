import Zeron.Chat.SyncLog

/-!
# The places that move a cursor

A cursor that passes a row hides the row from every later read.  Each handler that
moves a cursor leaves behind it only rows that the document has, or that a
checkpoint is still to bring; an acknowledgement does so if the document has the
row that was pushed.
-/

namespace Zeron.Chat

/-- The acknowledgement in a frame. -/
def ServerFrame.ackSeq : ServerFrame → Option Nat
  | .ack _ seq => some seq
  | _ => none

/-- The two plans. -/
theorem planCatchUp_cases (cursor : Nat) (header : StateHeader) (contained : Bool) :
    (∃ after, planCatchUp cursor header contained = .rowsOnly after ∧
      after ≤ max cursor header.checkpointSeq ∧
      (header.checkpointSize = 0 ∨ contained = true)) ∨
    (planCatchUp cursor header contained = .checkpointThenRows header.checkpointSeq ∧
      contained = false) := by
  unfold planCatchUp
  generalize kept_eq : (if header.headSeq < cursor then 0 else cursor) = kept
  have le : kept ≤ cursor := by
    rw [← kept_eq]
    split
    · exact Nat.zero_le _
    · exact le_rfl
  by_cases absent : header.checkpointSize = 0
  · rw [if_pos absent]
    exact .inl ⟨kept, rfl, le.trans (le_max_left _ _), .inl absent⟩
  · rw [if_neg absent]
    cases contained with
    | true =>
        exact .inl ⟨_, rfl, max_le_max_right _ le, .inr rfl⟩
    | false =>
        exact .inr ⟨rfl, rfl⟩

namespace ChatClient

/-- Both cursors of a client are honest. -/
structure Honest (log : RoomLog) (debt : Nat) (client : ChatClient) : Prop where
  cursor : log.Honest client.doc.applied debt client.shared.cursor
  applied : log.Honest client.doc.applied log.covered client.applied

/-- The document grows, and the cursors stay honest. -/
structure Advances (log : RoomLog) (debt : Nat) (before after : ChatClient) : Prop where
  docs : before.doc.applied ⊆ after.doc.applied
  honest : before.Honest log debt → after.Honest log debt

/-- Document and cursors are as before. -/
structure Unmoved (before after : ChatClient) : Prop where
  doc : after.doc = before.doc
  cursor : after.shared.cursor = before.shared.cursor
  applied : after.applied = before.applied

variable {loro : Loro} {log : RoomLog} {debt : Nat} {client : ChatClient}

theorem Unmoved.refl (client : ChatClient) : Unmoved client client :=
  ⟨rfl, rfl, rfl⟩

theorem Unmoved.advances {before after : ChatClient} (unmoved : Unmoved before after)
    (log : RoomLog) (debt : Nat) : Advances log debt before after := by
  obtain ⟨doc_eq, cursor_eq, applied_eq⟩ := unmoved
  constructor
  · rw [doc_eq]
    exact List.Subset.refl _
  · intro honest
    constructor
    · rw [doc_eq, cursor_eq]
      exact honest.cursor
    · rw [doc_eq, applied_eq]
      exact honest.applied

theorem Advances.refl (log : RoomLog) (debt : Nat) (client : ChatClient) :
    Advances log debt client client :=
  (Unmoved.refl client).advances log debt

theorem Advances.trans {first second third : ChatClient} (former : Advances log debt first second)
    (latter : Advances log debt second third) : Advances log debt first third :=
  ⟨fun _ held => latter.docs (former.docs held), fun honest => latter.honest (former.honest honest)⟩

/-! ## Handlers that leave the cursors alone -/

theorem unmoved_clearNeedsCheckpoint (client : ChatClient) (generation : Nat) :
    Unmoved client (client.clearNeedsCheckpoint generation) := by
  unfold clearNeedsCheckpoint
  split <;> exact ⟨rfl, rfl, rfl⟩

theorem unmoved_onError {next : ChatClient} {code : ErrorCode} {batchId : String} {marks : Bool}
    (handled : client.onError code batchId marks = some next) : Unmoved client next := by
  unfold onError at handled
  split at handled
  · obtain ⟨queue, _, rfl⟩ := Option.map_eq_some_iff.mp handled
    exact ⟨rfl, rfl, rfl⟩
  · split at handled
    · cases handled
      exact ⟨rfl, rfl, rfl⟩
    · cases handled
      exact Unmoved.refl client

theorem unmoved_finishCatchUp (client : ChatClient) (read : RoomRead) (headSeq : Nat) :
    Unmoved client (client.finishCatchUp read headSeq) := by
  unfold finishCatchUp
  simp only
  split
  · exact ⟨rfl, rfl, rfl⟩
  · split <;> exact ⟨rfl, rfl, rfl⟩

theorem unmoved_maybeRepairGap (client : ChatClient) (repairs : Nat) :
    Unmoved client (client.maybeRepairGap repairs).1 := by
  unfold maybeRepairGap
  split
  · exact Unmoved.refl client
  · split
    · exact Unmoved.refl client
    · split <;> exact ⟨rfl, rfl, rfl⟩

theorem unmoved_startRefresh (client : ChatClient) (refresh : Option RoomRead) (head : Nat) :
    Unmoved client (client.startRefresh refresh head).1 := by
  unfold startRefresh
  split <;> exact ⟨rfl, rfl, rfl⟩

theorem unmoved_finishRefresh (client : ChatClient) (read : RoomRead) (headSeq : Nat) :
    Unmoved client (client.finishRefresh read headSeq) := by
  unfold finishRefresh
  split
  · exact ⟨rfl, rfl, rfl⟩
  · split <;> exact ⟨rfl, rfl, rfl⟩

theorem Advances.clear {before after : ChatClient} (advances : Advances log debt before after)
    (generation : Nat) : Advances log debt before (after.clearNeedsCheckpoint generation) :=
  advances.trans ((after.unmoved_clearNeedsCheckpoint generation).advances log debt)

/-! ## Cursors -/

variable {cursor : Nat}

theorem advances_withCursor (honest : log.Honest client.doc.applied debt cursor) :
    Advances log debt client (client.withCursor cursor) :=
  ⟨List.Subset.refl _, fun old => ⟨honest, old.applied⟩⟩

theorem advances_raise {seq : Nat} (honest : log.Honest client.doc.applied debt seq) :
    Advances log debt client (client.withCursor (max client.shared.cursor seq)) :=
  ⟨List.Subset.refl _, fun old => ⟨old.cursor.max honest, old.applied⟩⟩

theorem advances_resetCursor (log : RoomLog) (debt : Nat) (client : ChatClient) :
    Advances log debt client client.resetCursor :=
  ⟨List.Subset.refl _, fun old => ⟨old.cursor, log.honest_zero _ _⟩⟩

theorem advances_applyCursorAmnesty (log : RoomLog) (debt : Nat) (client : ChatClient)
    (header : StateHeader) : Advances log debt client (client.applyCursorAmnesty header) := by
  unfold applyCursorAmnesty
  split
  · exact ⟨List.Subset.refl _, fun old => ⟨old.cursor, old.applied⟩⟩
  · split
    · rename_i lowered
      refine ⟨List.Subset.refl _, fun old => ⟨?_, log.honest_zero _ _⟩⟩
      exact old.cursor.lower lowered.le
    · exact ⟨List.Subset.refl _, fun old => ⟨old.cursor, old.applied⟩⟩

/-! ## Rows and acknowledgements -/

theorem advances_applyRemoteRow (owed : debt ≤ log.covered) {bytes : Update} {seq : Nat}
    (faithful : ServerFrame.Faithful loro log (.row seq bytes)) :
    Advances log debt client (client.applyRemoteRow loro bytes seq) := by
  unfold applyRemoteRow
  simp only
  cases imported : client.doc.importRow loro bytes with
  | mk doc outcome =>
      have docs : client.doc.applied ⊆ doc.applied := by
        intro update held
        have kept := Document.mem_importRow loro held bytes
        rw [imported] at kept
        exact kept
      by_cases gap : client.shared.cursor + 1 < seq
      · have flagged : client.flagGap.doc.importRow loro bytes = (doc, outcome) := imported
        rw [if_pos gap, if_pos gap, flagged]
        cases outcome with
        | applied =>
            refine ⟨docs, fun old => ?_⟩
            have honest := old.cursor.subset docs
            exact ⟨honest.max honest, (old.applied.subset docs).max (honest.owe owed)⟩
        | pendingDependencies =>
            exact ⟨docs, fun old => ⟨old.cursor.subset docs, old.applied.subset docs⟩⟩
      · rw [if_neg gap, if_neg gap, imported]
        cases outcome with
        | applied =>
            have there : bytes ∈ doc.applied := by
              have self := @Document.self_mem_importRow bytes client.doc loro
              rw [imported] at self
              exact self rfl
            refine ⟨docs, fun old => ?_⟩
            have honest := (old.cursor.subset docs).next faithful.1 (not_lt.mp gap)
              fun _ row listed same => .inl ((faithful.2 row listed same).symm ▸ there)
            exact ⟨(old.cursor.subset docs).max honest,
              (old.applied.subset docs).max (honest.owe owed)⟩
        | pendingDependencies =>
            exact ⟨docs, fun old => ⟨old.cursor.subset docs, old.applied.subset docs⟩⟩

/-- A row that is parked moves no cursor. -/
theorem unmoved_of_parked {bytes : Update}
    (parked : (client.doc.importRow loro bytes).2 = .pendingDependencies) (seq : Nat) :
    (client.applyRemoteRow loro bytes seq).shared.cursor = client.shared.cursor ∧
      (client.applyRemoteRow loro bytes seq).applied = client.applied := by
  unfold applyRemoteRow
  simp only
  by_cases gap : client.shared.cursor + 1 < seq
  · have flagged : (client.flagGap.doc.importRow loro bytes).2 = .pendingDependencies := parked
    rw [if_pos gap]
    split
    · rename_i imported
      rw [imported] at flagged
      cases flagged
    · exact ⟨rfl, rfl⟩
  · rw [if_neg gap]
    split
    · rename_i imported
      rw [imported] at parked
      cases parked
    · exact ⟨rfl, rfl⟩

theorem advances_onAck (owed : debt ≤ log.covered) (batchId : String) {seq : Nat}
    (deletes : Bool) (within : seq ≤ log.head)
    (held : client.shared.cursor + 1 = seq → ∀ row ∈ log.accepted, row.seq = seq →
      row.bytes ∈ client.doc.applied ∨ seq ≤ debt) :
    Advances log debt client (client.onAck batchId seq deletes) := by
  unfold onAck
  simp only
  by_cases gap : client.shared.cursor + 1 < seq
  · rw [if_pos gap]
    exact ⟨List.Subset.refl _, fun old => ⟨old.cursor, old.applied.max (old.cursor.owe owed)⟩⟩
  · rw [if_neg gap]
    refine ⟨List.Subset.refl _, fun old => ?_⟩
    have honest := old.cursor.next within (not_lt.mp gap) held
    exact ⟨honest, old.applied.max (honest.owe owed)⟩

theorem advances_onPosted (owed : debt ≤ log.covered) (batchId : String) {seq : Nat}
    (deletes : Bool) (within : seq ≤ log.head)
    (held : client.shared.cursor + 1 = seq → ∀ row ∈ log.accepted, row.seq = seq →
      row.bytes ∈ client.doc.applied ∨ seq ≤ debt) :
    Advances log debt client (client.onPosted batchId seq deletes) := by
  unfold onPosted
  simp only
  by_cases near : seq ≤ client.shared.cursor + 1
  · rw [if_pos near]
    refine ⟨List.Subset.refl _, fun old => ?_⟩
    have honest := old.cursor.next within near held
    exact ⟨honest, old.applied.max (honest.owe owed)⟩
  · rw [if_neg near]
    exact ⟨List.Subset.refl _, fun old => ⟨old.cursor, old.applied.max (old.cursor.owe owed)⟩⟩

theorem advances_handleFrame (owed : debt ≤ log.covered) {next : ChatClient} {disk : Bool}
    {frame : ServerFrame} (faithful : frame.Faithful loro log)
    (held : ∀ seq ∈ frame.ackSeq, client.shared.cursor + 1 = seq →
      ∀ row ∈ log.accepted, row.seq = seq → row.bytes ∈ client.doc.applied ∨ seq ≤ debt)
    (handled : client.handleFrame loro disk frame = some next) :
    Advances log debt client next := by
  cases frame with
  | state header frontier =>
      cases handled
      exact Advances.refl log debt client
  | row seq bytes =>
      cases handled
      exact advances_applyRemoteRow owed faithful
  | rowsDone headSeq =>
      cases handled
      exact ⟨List.Subset.refl _, fun old => ⟨old.cursor, old.applied⟩⟩
  | ack batchId seq =>
      cases handled
      exact advances_onAck owed batchId disk faithful (held seq rfl)
  | error code batchId => exact (unmoved_onError handled).advances log debt

/-! ## Checkpoints -/

variable {header : StateHeader}

theorem advances_applyCheckpoint (loro : Loro) (client : ChatClient) (bytes : List UInt8)
    (told : header.Faithful log) :
    Advances log debt client (client.applyCheckpoint loro bytes header.checkpointSeq) := by
  have docs : client.doc.applied ⊆ (client.doc.importCheckpoint loro bytes).applied :=
    fun _ held => Document.mem_importCheckpoint loro held bytes
  refine ⟨docs, fun old => ⟨old.cursor.subset docs, (old.applied.subset docs).max ?_⟩⟩
  exact ⟨told.within, log.holds_of_le _ told.covered⟩

/-- A document that has imported a checkpoint owes it nothing. -/
theorem holds_applyCheckpoint {bytes : List UInt8} (seq : Nat)
    (holds : log.Holds (loro.content bytes) 0 cursor) :
    log.Holds (client.applyCheckpoint loro bytes seq).doc.applied 0 cursor :=
  holds.subset fun _ held => Document.content_mem_importCheckpoint client.doc held

variable {frontier : List UInt8}

section

variable (faithful : ServerFrame.Faithful loro log (.state header frontier))
include faithful

/-- A document that has the frontier of a checkpoint owes it nothing. -/
theorem holds_of_contained (contained : client.contained loro header frontier = true) :
    log.Holds client.doc.applied 0 header.checkpointSeq := by
  obtain ⟨told, names⟩ := faithful
  obtain absent | verdict := Bool.or_eq_true_iff.mp contained
  · rw [told.absent (of_decide_eq_true absent)]
    exact log.holds_of_le _ le_rfl
  · obtain ⟨named, decoded, some_named, subset⟩ :=
      Document.containsFrontier_iff.mp (Bool.and_eq_true_iff.mp verdict).2
    exact (names named decoded some_named).subset subset

/-- Without a checkpoint to fetch the document has the one of the header. -/
theorem holds_of_rowsOnly {after : Nat}
    (plan_eq : planCatchUp cursor header (client.contained loro header frontier) =
      .rowsOnly after) :
    log.Holds client.doc.applied 0 header.checkpointSeq ∧
      after ≤ max cursor header.checkpointSeq := by
  obtain ⟨_, rows_eq, le, verdict⟩ | ⟨checkpoint_eq, _⟩ :=
    planCatchUp_cases cursor header (client.contained loro header frontier)
  · cases plan_eq.symm.trans rows_eq
    refine ⟨?_, le⟩
    obtain absent | contained := verdict
    · rw [faithful.1.absent absent]
      exact log.holds_of_le _ le_rfl
    · exact holds_of_contained faithful contained
  · cases plan_eq.symm.trans checkpoint_eq

/-- Where a plan puts a cursor, if the checkpoint that it is to fetch counts as debt. -/
theorem honest_planCatchUp (honest : log.Honest client.doc.applied debt cursor)
    (owed : ∀ after, planCatchUp cursor header (client.contained loro header frontier) =
      .checkpointThenRows after → header.checkpointSeq ≤ debt) :
    log.Honest client.doc.applied debt
      (planCatchUp cursor header (client.contained loro header frontier)).after := by
  obtain ⟨after, plan_eq, _⟩ | ⟨plan_eq, _⟩ :=
    planCatchUp_cases cursor header (client.contained loro header frontier)
  · obtain ⟨holds, le⟩ := holds_of_rowsOnly faithful plan_eq
    rw [plan_eq]
    exact (honest.max (faithful.1.honest holds debt)).lower le
  · rw [plan_eq]
    exact ⟨faithful.1.within, log.holds_of_le _ (owed _ plan_eq)⟩

/-! ## Hellos and pulls -/

theorem advances_joinRoom
    (owed : ∀ after, (client.joinRoom loro header frontier).2.1 = .checkpointThenRows after →
      header.checkpointSeq ≤ debt) :
    Advances log debt client (client.joinRoom loro header frontier).1 := by
  unfold joinRoom at owed ⊢
  simp only at owed ⊢
  generalize met_eq : (if header.headSeq < client.shared.cursor then _ else _) = met at owed ⊢
  have first : Advances log debt client met := by
    rw [← met_eq]
    split
    · exact ⟨List.Subset.refl _, fun old => ⟨old.cursor, log.honest_zero _ _⟩⟩
    · exact ⟨List.Subset.refl _, fun old => ⟨old.cursor, old.applied⟩⟩
  have second := first.trans (advances_applyCursorAmnesty log debt met header)
  refine ⟨second.docs, fun old => ?_⟩
  have asked := second.honest old
  exact (advances_withCursor (honest_planCatchUp faithful asked.cursor owed)).honest asked

end

theorem advances_pullFrames (owed : debt ≤ log.covered) (pull : Pull) (client : ChatClient)
    {frames : List ServerFrame} (faithful : ∀ frame ∈ frames, frame.Faithful loro log) :
    Advances log debt client (client.pullFrames loro pull frames) := by
  induction frames generalizing client with
  | nil => exact Advances.refl log debt client
  | cons frame frames ih =>
      have first : Advances log debt client (client.pullFrame loro pull frame) := by
        cases frame with
        | row seq bytes => exact advances_applyRemoteRow owed (faithful _ List.mem_cons_self)
        | rowsDone headSeq =>
            unfold pullFrame
            simp only
            split
            · exact ⟨List.Subset.refl _, fun old => ⟨old.cursor, old.applied⟩⟩
            · exact Advances.refl log debt client
        | state _ _ => exact Advances.refl log debt client
        | ack _ _ => exact Advances.refl log debt client
        | error _ _ => exact Advances.refl log debt client
      exact first.trans (ih _ fun frame listed => faithful frame (List.mem_cons_of_mem _ listed))

theorem advances_finishPull (owed : debt ≤ log.covered) (pull : Pull) (header : StateHeader)
    (generation : Nat) {after : Nat} {frames : List ServerFrame}
    (faithful : ∀ frame ∈ frames, frame.Faithful loro log)
    (honest : log.Honest client.doc.applied debt after) :
    Advances log debt client (client.finishPull loro pull header generation after frames) := by
  unfold finishPull
  generalize cursor_eq : (if header.headSeq < client.shared.cursor then after
    else max client.shared.cursor after) = cursor
  have placed : Advances log debt client (client.withCursor cursor) := by
    refine ⟨List.Subset.refl _, fun old => ⟨?_, old.applied⟩⟩
    show log.Honest client.doc.applied debt cursor
    rw [← cursor_eq]
    split
    · exact honest
    · exact old.cursor.max honest
  exact (placed.clear generation).trans (advances_pullFrames owed pull _ faithful)

end ChatClient

end Zeron.Chat
