import Zeron.Orchestration.EffectLanes

/-!
# Dispatches that begin once

A row whose dispatch has begun stays held under its claim until the holder
settles it or somebody else takes it away.  A process-bound effect that was
taken away is uncertain or over, and never pending again.
-/

namespace Zeron.Orchestration

open Data Transition

/-- A process-bound row whose dispatch began under an effect, as long as the
holder has not asked for a retry. -/
structure EffectRow.Begun (row : EffectRow) (effect : Effect) : Prop where
  processBound : row.request.processBound = true
  barred : (row.Held effect ∧ row.dispatchStarted = true) ∨
    (row.status ≠ .pending ∧ row.status ≠ .running)

namespace EffectRow

/-- A running row that has begun is held under the effect and dispatched. -/
theorem Begun.of_running {row : EffectRow} {effect : Effect}
    (begun : row.Begun effect) (running : row.status = .running) :
    row.Held effect ∧ row.dispatchStarted = true := by
  obtain held | barred := begun.barred
  · exact held
  · exact absurd running barred.2

theorem Begun.not_pending {row : EffectRow} {effect : Effect}
    (begun : row.Begun effect) : row.status ≠ .pending := by
  intro pending
  obtain held | barred := begun.barred
  · rw [held.1.running] at pending
    cases pending
  · exact barred.1 pending

end EffectRow

namespace Outbox

def Begun (outbox : Outbox) (effect : Effect) : Prop :=
  ∃ row, outbox.rows.get effect.id = some row ∧ row.Begun effect

/-- The holder of an effect finishes it with a retry, and the row takes it. -/
def RetriedByHolder (outbox : Outbox) (effect : Effect) (event : OutboxEvent) : Prop :=
  ∃ claimed now maxAttempts row, event = .finish claimed .retry now maxAttempts ∧
    (outbox.finishEffect claimed .retry now maxAttempts).2 = true ∧
    outbox.rows.get effect.id = some row ∧ row.Held effect ∧ row.Held claimed

variable {effect : Effect} {outbox : Outbox}

theorem Begun.update (begun : outbox.Begun effect) {which : EffectRow → Bool}
    {set : EffectRow → EffectRow} {keeps : ∀ row, (set row).id = row.id}
    (kept : ∀ row, which row = true → row.Begun effect → (set row).Begun effect) :
    (outbox.update which set keeps).Begun effect := by
  obtain ⟨row, found, row_begun⟩ := begun
  refine ⟨if which row = true then set row else row, ?_, ?_⟩
  · rw [get_update, found, Option.map_some]
  · split
    · exact kept row ‹_› row_begun
    · exact row_begun

/-- A statement that leaves the rows it picks neither pending nor running. -/
theorem Begun.update_barred (begun : outbox.Begun effect) {which : EffectRow → Bool}
    {set : EffectRow → EffectRow} {keeps : ∀ row, (set row).id = row.id}
    (request : ∀ row, (set row).request = row.request)
    (barred : ∀ row, which row = true → row.Begun effect →
      (set row).status ≠ .pending ∧ (set row).status ≠ .running) :
    (outbox.update which set keeps).Begun effect := by
  apply begun.update
  intro row picked row_begun
  constructor
  · rw [request]
    exact row_begun.processBound
  · exact .inr (barred row picked row_begun)

theorem Begun.retireForStart (begun : outbox.Begun effect) (thread : String)
    (stopped : List String) (now : Int) :
    (outbox.retireForStart thread stopped now).Begun effect := by
  apply begun.update_barred
  · intro row
    rfl
  · intro row _ _
    constructor <;> exact EffectStatus.noConfusion

theorem Begun.enqueue {outbox next : Outbox} (begun : outbox.Begun effect)
    {id command thread : String} {request : EffectRequest} {stopped : List String} {now : Int}
    (enqueued : outbox.enqueue id command thread request stopped now = some next) :
    next.Begun effect := by
  obtain ⟨retired, row, before, _, _, _, inserted⟩ := enqueue_cases enqueued
  have retired_begun : retired.Begun effect := by
    obtain rfl | rfl := before
    · exact begun
    · exact begun.retireForStart thread stopped now
  obtain ⟨held, found, held_begun⟩ := retired_begun
  refine ⟨held, ?_, held_begun⟩
  have fresh : row.effectId ≠ effect.id := by
    intro same
    have taken : (retired.rows.get row.effectId).isSome := by
      rw [same, found]
      rfl
    rw [Table.insert_eq_none_iff.mpr taken] at inserted
    cases inserted
  rw [Table.get_insert inserted, if_neg fresh, found]

theorem Begun.claimEffect (begun : outbox.Begun effect) (worker : String) (now leaseMs : Int) :
    (outbox.claimEffect worker now leaseMs).1.Begun effect := by
  have expired : (outbox.expireLeases now).Begun effect := by
    apply begun.update_barred
    · intro row
      rfl
    · intro row picked row_begun
      rw [Bool.and_eq_true, beq_iff_eq] at picked
      -- The dispatch of a running row has begun, so its lease leaves it uncertain.
      have dispatched := (row_begun.of_running picked.1).2
      simp only [row_begun.processBound, dispatched]
      constructor <;> exact EffectStatus.noConfusion
  obtain result | ⟨row, stored, claimable, _, result⟩ :=
    outbox.claimEffect_cases worker now leaseMs
  · rw [result]
    exact expired
  · rw [result]
    obtain ⟨held, found, held_begun⟩ := expired
    refine ⟨held, ?_, held_begun⟩
    obtain ⟨pending, _, _⟩ := ((outbox.expireLeases now).claimable_iff row).mp claimable
    have apart : held.id ≠ row.id := by
      intro same
      have held_eq : held = row := Table.eq_of_mem (Table.mem_of_get found) stored same
      exact held_begun.not_pending (held_eq ▸ pending)
    simp only [lease]
    rw [get_update, found, Option.map_some, if_neg]
    rw [beq_iff_eq]
    exact apart

theorem Begun.beginEffect (begun : outbox.Begun effect) (other : Effect) (now : Int) :
    (outbox.beginEffect other now).1.Begun effect := by
  apply begun.update
  intro row picked row_begun
  simp only [Bool.and_eq_true, Bool.not_eq_true'] at picked
  have running := ((EffectRow.held_iff row other).mp picked.1.1).running
  have dispatched := (row_begun.of_running running).2
  rw [picked.2] at dispatched
  cases dispatched

theorem Begun.cancelProcess (begun : outbox.Begun effect) (thread : String) (now : Int) :
    (outbox.cancelProcess thread now).Begun effect := by
  apply begun.update_barred
  · intro row
    rfl
  · intro row _ _
    constructor <;> exact EffectStatus.noConfusion

theorem Begun.cancelEffect (begun : outbox.Begun effect) (id : String) (now : Int) :
    (outbox.cancelEffect id now).1.Begun effect := by
  apply begun.update_barred
  · intro row
    rfl
  · intro row _ _
    constructor <;> exact EffectStatus.noConfusion

theorem Begun.abandonEffect (begun : outbox.Begun effect) (other : Effect) (now : Int) :
    (outbox.abandonEffect other now).1.Begun effect := by
  unfold Outbox.abandonEffect
  split
  · apply begun.update_barred
    · intro row
      rfl
    · intro row _ _
      constructor <;> exact EffectStatus.noConfusion
  · apply begun.update_barred
    · intro row
      rfl
    · intro row _ row_begun
      simp only [row_begun.processBound]
      constructor <;> exact EffectStatus.noConfusion

theorem Begun.resolveUncertain (begun : outbox.Begun effect) (id : String) (accepted : Bool)
    (now : Int) :
    (outbox.resolveUncertain id accepted now).1.Begun effect := by
  apply begun.update_barred
  · intro row
    rfl
  · intro row _ _
    cases accepted
    all_goals constructor <;> exact EffectStatus.noConfusion

theorem Begun.confirm (begun : outbox.Begun effect) (other : Effect) (exact : Bool) (now : Int) :
    (outbox.confirm other exact now).1.Begun effect := by
  unfold Outbox.confirm
  split
  · apply Begun.update_barred
    · split
      all_goals exact begun
    · intro row
      rfl
    · intro row _ _
      constructor <;> exact EffectStatus.noConfusion
  · exact begun

theorem Begun.recover (begun : outbox.Begun effect) (now : Int) :
    (outbox.recover now).Begun effect := by
  apply Begun.update
  · apply Begun.update_barred
    · apply Begun.update_barred
      · apply Begun.update_barred
        · apply begun.update_barred
          · intro row
            rfl
          · intro row _ _
            constructor <;> exact EffectStatus.noConfusion
        · intro row
          rfl
        · intro row _ _
          constructor <;> exact EffectStatus.noConfusion
      · intro row
        rfl
      · intro row _ _
        constructor <;> exact EffectStatus.noConfusion
    · intro row
      rfl
    · intro row _ _
      constructor <;> exact EffectStatus.noConfusion
  · intro row picked row_begun
    rw [Bool.and_eq_true, row_begun.processBound] at picked
    cases picked.2

/-- A finish lets the effect go on only as a retry of its holder. -/
theorem Begun.finishEffect (begun : outbox.Begun effect) (claimed : Effect)
    (outcome : EffectOutcome) (now : Int) (maxAttempts : Nat) :
    (outbox.finishEffect claimed outcome now maxAttempts).1.Begun effect ∨
      outbox.RetriedByHolder effect (.finish claimed outcome now maxAttempts) := by
  obtain ⟨row, found, row_begun⟩ := begun
  by_cases picked : (row.heldUnder claimed && row.leaseAfter now) = true
  · have held := (EffectRow.held_iff row claimed).mp (Bool.and_eq_true_iff.mp picked).1
    cases outcome
    case retry =>
        refine .inr ⟨claimed, now, maxAttempts, row, rfl, ?_, found,
          (row_begun.of_running held.running).1, held⟩
        have own : ∀ other : EffectRow,
            (other.heldUnder claimed && other.leaseAfter now) = true →
              other.effectId = effect.id := by
          intro other other_picked
          rw [Bool.and_eq_true, EffectRow.held_iff] at other_picked
          have keyed : row.effectId = effect.id := Table.key_of_get found
          exact other_picked.1.id.trans (held.id.symm.trans keyed)
        exact beq_iff_eq.mpr ((Table.count_eq_one_iff fun row _ => own row).mpr ⟨row, found, picked⟩)
    all_goals
      refine .inl (Begun.update_barred ⟨row, found, row_begun⟩ ?_ ?_)
      · intro other
        rfl
      · intro other _ _
        split
        all_goals constructor <;> exact EffectStatus.noConfusion
  · refine .inl ⟨row, ?_, row_begun⟩
    simp only [Outbox.finishEffect]
    rw [get_update, found, Option.map_some, if_neg picked]

theorem Begun.step {outbox next : Outbox} {event : OutboxEvent} (begun : outbox.Begun effect)
    (stepped : Outbox.step outbox event = some next) :
    next.Begun effect ∨ outbox.RetriedByHolder effect event := by
  cases stepped
  cases event with
  | enqueue id command thread request stopped now =>
      refine .inl ?_
      simp only [Outbox.apply]
      cases enqueued : outbox.enqueue id command thread request stopped now with
      | none => exact begun
      | some next => exact begun.enqueue enqueued
  | claim worker now leaseMs => exact .inl (begun.claimEffect worker now leaseMs)
  | begin other now => exact .inl (begun.beginEffect other now)
  | finish claimed outcome now maxAttempts =>
      exact begun.finishEffect claimed outcome now maxAttempts
  | abandon other now => exact .inl (begun.abandonEffect other now)
  | cancelEffect id now => exact .inl (begun.cancelEffect id now)
  | cancelProcess thread now => exact .inl (begun.cancelProcess thread now)
  | resolveUncertain id accepted now => exact .inl (begun.resolveUncertain id accepted now)
  | confirm other exact now => exact .inl (begun.confirm other exact now)
  | recover now => exact .inl (begun.recover now)

/-- A begin that succeeds finds its row held and not yet dispatched. -/
theorem beginEffect_eq_true_iff (outbox : Outbox) (effect : Effect) (now : Int) :
    (outbox.beginEffect effect now).2 = true ↔ ∃ row, outbox.rows.get effect.id = some row ∧
      row.Held effect ∧ row.leaseAfter now = true ∧ row.dispatchStarted = false := by
  have own : ∀ row : EffectRow,
      (row.heldUnder effect && row.leaseAfter now && !row.dispatchStarted) = true →
        row.effectId = effect.id := by
    intro row picked
    simp only [Bool.and_eq_true, EffectRow.held_iff] at picked
    exact picked.1.1.id
  refine beq_iff_eq.trans ((Table.count_eq_one_iff fun row _ => own row).trans ?_)
  simp only [Bool.and_eq_true, EffectRow.held_iff, Bool.not_eq_true', and_assoc]

/-- After a begin that succeeds the effect has begun. -/
theorem begun_beginEffect {now : Int} {row : EffectRow}
    (began : (outbox.beginEffect effect now).2 = true)
    (found : outbox.rows.get effect.id = some row)
    (processBound : row.request.processBound = true) :
    (outbox.beginEffect effect now).1.Begun effect := by
  obtain ⟨other, other_found, held, leased, undispatched⟩ :=
    (outbox.beginEffect_eq_true_iff effect now).mp began
  obtain rfl := Option.some.inj (found.symm.trans other_found)
  have picked : (row.heldUnder effect && row.leaseAfter now && !row.dispatchStarted) = true := by
    simp only [Bool.and_eq_true, EffectRow.held_iff, Bool.not_eq_true']
    exact ⟨⟨held, leased⟩, undispatched⟩
  refine ⟨{ row with dispatchStarted := true }, ?_, processBound, .inl ⟨?_, rfl⟩⟩
  · simp only [Outbox.beginEffect]
    rw [get_update, found, Option.map_some, if_pos picked]
  · exact ⟨held.id, held.running, held.owner, held.generation⟩

/-- In every run lanes stay serial, claims take effects in order, finishes and
abandons are fenced, and a process-bound effect begins a second time only after
its holder has finished it with a retry. -/
theorem effect_lanes :
    (∀ events : List OutboxEvent,
      EveryState step Serial empty events ∧ EveryStep step ClaimedInOrder empty events ∧
        EveryStep step Fenced empty events) ∧
    ∀ (before between : List OutboxEvent) (first second : Effect) (now later : Int)
      (start final : Outbox) (row : EffectRow),
      run step empty before = some start →
      start.rows.get first.id = some row → row.request.processBound = true →
      (start.beginEffect first now).2 = true →
      run step (start.apply (.begin first now)) between = some final →
      second.id = first.id → (final.beginEffect second later).2 = true →
      ∃ lead event rest middle, between = lead ++ event :: rest ∧
        run step (start.apply (.begin first now)) lead = some middle ∧
        middle.RetriedByHolder first event := by
  constructor
  · intro events
    refine ⟨?_, ?_, ?_⟩
    · refine everyState_of_invariant ?_ (fun serial => serial) ?_ events
      · intro outbox next event serial stepped
        cases stepped
        exact serial.apply event
      · intro first stored
        cases stored
    · exact everyStep_of_forall claimedInOrder events
    · exact everyStep_of_forall fenced events
  · intro before between first second now later start final row _ found processBound began ran
      same began_again
    have begun := begun_beginEffect began found processBound
    have lost : ¬ final.Begun first := by
      rintro ⟨other, other_found, other_begun⟩
      obtain ⟨again, again_found, held, _, undispatched⟩ :=
        (final.beginEffect_eq_true_iff second later).mp began_again
      rw [same, other_found] at again_found
      cases again_found
      rw [(other_begun.of_running held.running).2] at undispatched
      cases undispatched
    obtain ⟨lead, event, rest, middle, split_at, reached, _, retried⟩ :=
      exists_breaking_step Begun.step begun ran lost
    exact ⟨lead, event, rest, middle, split_at, reached, retried⟩

/-- A start that its worker finishes with a retry is begun again. -/
theorem effect_lanes_retry :
    let claimed : Effect := {
      id := "start"
      commandId := "command"
      threadId := "thread"
      request := .providerTurnStart "run"
      status := .running
      attemptCount := 1
      availableAt := 0
      leaseOwner := some "worker"
      leaseExpiresAt := some 30000
      dispatchStarted := false
      lastError := none }
    let again : Effect := { claimed with attemptCount := 2, leaseOwner := some "other" }
    let before : List OutboxEvent :=
      [.enqueue "start" "command" "thread" (.providerTurnStart "run") [] 0,
        .claim "worker" 0 30000]
    let between : List OutboxEvent := [.finish claimed .retry 10 5, .claim "other" 200 30000]
    ∃ start final, run step empty before = some start ∧
      (start.beginEffect claimed 0).2 = true ∧
      run step (start.apply (.begin claimed 0)) between = some final ∧
      (final.beginEffect again 200).2 = true ∧
      ∃ lead event rest middle, between = lead ++ event :: rest ∧
        run step (start.apply (.begin claimed 0)) lead = some middle ∧
        middle.RetriedByHolder claimed event := by
  intro claimed again before between
  refine ⟨_, _, rfl, by decide +kernel, rfl, by decide +kernel, ?_⟩
  exact effect_lanes.2 before between claimed again 0 200 _ _ _ rfl rfl rfl
    (by decide +kernel) rfl rfl (by decide +kernel)

end Outbox

end Zeron.Orchestration
