import Zeron.Orchestration.EffectLanes

/-!
# The retry budget of an effect

A worker claims an effect, runs its executor beside a timer of one lease, and
writes the outcome down if the lease still stands.  Where it does not, the claim
is abandoned, and the budget is not looked at.
-/

namespace Zeron.Orchestration

open Data Transition

/-- The settings of an `EffectWorker`. -/
structure WorkerConfig where
  leaseMs : Int
  maxAttempts : Nat

/-- `DEFAULT_LEASE_MS` and `DEFAULT_MAX_ATTEMPTS`. -/
def WorkerConfig.default : WorkerConfig :=
  { leaseMs := 30000, maxAttempts := 5 }

/-- Where a call of `EffectWorker::step` stands after its claim. -/
inductive AttemptPhase where
  | claimed
  | executing
  /-- The outcome came at this time, and the lease was gone. -/
  | lost (completedAt : Int)

/-- A call of `EffectWorker::step` at `now` that has claimed an effect. -/
structure EffectAttempt where
  effect : Effect
  now : Int
  phase : AttemptPhase

/-- The outbox, the calls under way and, in order, the effects that were claimed. -/
structure Workshop where
  outbox : Outbox
  attempts : List EffectAttempt
  claimed : List String

/-- Workers take their steps in any order, and the rest of the host writes the
outbox as well. -/
inductive WorkshopEvent where
  | claim (worker : String) (now : Int)
  | begin (index : Nat)
  /-- The token of the claim is cancelled. -/
  | cancelled (index : Nat)
  /-- The executor answers after so many milliseconds. -/
  | outcome (index : Nat) (outcome : EffectOutcome) (elapsed : Nat)
  /-- The timer runs out first. -/
  | timeout (index : Nat) (elapsed : Nat)
  | abandon (index : Nat)
  | host (event : OutboxEvent)

/-- A transaction that is not a worker's, and not a restart. -/
def OutboxEvent.ofHost : OutboxEvent → Bool
  | enqueue _ _ _ _ _ _ => true
  | cancelEffect _ _ => true
  | cancelProcess _ _ => true
  | resolveUncertain _ _ _ => true
  | confirm _ _ _ => true
  | _ => false

namespace Workshop

def start : Workshop :=
  { outbox := .empty, attempts := [], claimed := [] }

/-- `claim_effect`. -/
def claim (config : WorkerConfig) (workshop : Workshop) (worker : String) (now : Int) : Workshop :=
  let claimed := workshop.outbox.claimEffect worker now config.leaseMs
  match claimed.2 with
  | none => { workshop with outbox := claimed.1 }
  | some effect =>
      { outbox := claimed.1
        attempts := workshop.attempts ++ [{ effect := effect, now := now, phase := .claimed }]
        claimed := workshop.claimed ++ [effect.id] }

/-- `begin_effect`; a claim that does not begin ends the call. -/
def begin (workshop : Workshop) (index : Nat) (attempt : EffectAttempt) : Workshop :=
  let begun := workshop.outbox.beginEffect attempt.effect attempt.now
  { workshop with
    outbox := begun.1
    attempts :=
      if begun.2 then workshop.attempts.set index { attempt with phase := .executing }
      else workshop.attempts.eraseIdx index }

/-- `finish_effect`; the outcome of a claim that has lost its lease is not
written. -/
def finish (config : WorkerConfig) (workshop : Workshop) (index : Nat) (attempt : EffectAttempt)
    (outcome : EffectOutcome) (elapsed : Nat) : Workshop :=
  let completedAt := saturatingAdd attempt.now elapsed
  let finished :=
    workshop.outbox.finishEffect attempt.effect outcome completedAt config.maxAttempts
  { workshop with
    outbox := finished.1
    attempts :=
      if finished.2 then workshop.attempts.eraseIdx index
      else workshop.attempts.set index { attempt with phase := .lost completedAt } }

/-- What the timer stands for. -/
def timedOut (effect : Effect) : EffectOutcome :=
  if effect.request.processBound then .uncertain else .retry

/-- `abandon_effect`, unless the effect was cancelled. -/
def abandon (workshop : Workshop) (index : Nat) (attempt : EffectAttempt) (completedAt : Int) :
    Workshop :=
  { workshop with
    outbox :=
      if (workshop.outbox.rows.get attempt.effect.id).any fun row => row.status = .cancelled then
        workshop.outbox
      else (workshop.outbox.abandonEffect attempt.effect completedAt).1
    attempts := workshop.attempts.eraseIdx index }

def step (config : WorkerConfig) : Step Workshop WorkshopEvent := fun workshop event =>
  match event with
  | .claim worker now => some (workshop.claim config worker now)
  | .begin index =>
      match workshop.attempts[index]? with
      | some { effect, now, phase := .claimed } =>
          some (workshop.begin index { effect, now, phase := .claimed })
      | _ => none
  | .cancelled index =>
      match workshop.attempts[index]? with
      | some { effect, now := _, phase := .executing } =>
          -- The token is cancelled after the row is.
          if (workshop.outbox.rows.get effect.id).any fun row => row.status = .cancelled then
            some { workshop with attempts := workshop.attempts.eraseIdx index }
          else none
      | _ => none
  | .outcome index outcome elapsed =>
      match workshop.attempts[index]? with
      | some { effect, now, phase := .executing } =>
          some (workshop.finish config index { effect, now, phase := .executing } outcome elapsed)
      | _ => none
  | .timeout index elapsed =>
      match workshop.attempts[index]? with
      | some { effect, now, phase := .executing } =>
          if max config.leaseMs 1 ≤ elapsed then
            some (workshop.finish config index { effect, now, phase := .executing }
              (timedOut effect) elapsed)
          else none
      | _ => none
  | .abandon index =>
      match workshop.attempts[index]? with
      | some { effect, now, phase := .lost completedAt } =>
          some (workshop.abandon index { effect, now, phase := .lost completedAt } completedAt)
      | _ => none
  | .host event =>
      if event.ofHost then some { workshop with outbox := workshop.outbox.apply event } else none

/-! ## What the budget bounds -/

/-- No effect has been claimed more often than the budget allows, and none waits
for a claim that it has no budget for. -/
def WithinBudget (config : WorkerConfig) (workshop : Workshop) : Prop :=
  (∀ id, workshop.claimed.count id ≤ config.maxAttempts) ∧
    ∀ row ∈ workshop.outbox.rows.rows, row.status = .pending →
      row.attemptCount < config.maxAttempts

/-- The row has budget left, or does not go back to pending when its lease runs out. -/
def Spared (config : WorkerConfig) (row : EffectRow) : Prop :=
  (row.request.processBound = true ∧ row.dispatchStarted = true) ∨
    row.attemptCount < config.maxAttempts

/-- The event finds that the lease of the row has run out. -/
def runsOut (workshop : Workshop) (event : WorkshopEvent) (row : EffectRow) : Bool :=
  match event with
  | .claim _ now => row.status == .running && row.leaseExpired now
  | .abandon index => workshop.attempts[index]?.any fun attempt => row.heldUnder attempt.effect
  | _ => false

/-- No lease runs out on the last attempt of an effect, unless it is uncertain then. -/
def LeaseKept (config : WorkerConfig) (workshop : Workshop) (event : WorkshopEvent) : Prop :=
  0 < config.maxAttempts ∧ ∀ row ∈ workshop.outbox.rows.rows,
    workshop.runsOut event row = true → Spared config row

instance (config : WorkerConfig) (row : EffectRow) : Decidable (Spared config row) :=
  inferInstanceAs (Decidable ((row.request.processBound = true ∧ row.dispatchStarted = true) ∨
    row.attemptCount < config.maxAttempts))

instance (config : WorkerConfig) (workshop : Workshop) (event : WorkshopEvent) :
    Decidable (LeaseKept config workshop event) :=
  inferInstanceAs (Decidable (0 < config.maxAttempts ∧ ∀ row ∈ workshop.outbox.rows.rows,
    workshop.runsOut event row = true → Spared config row))

/-! ## What a transaction does to a row -/

/-- A row after a transaction that is not a claim: claimed as often as before, and
pending only with budget left. -/
structure Spent (config : WorkerConfig) (row row' : EffectRow) : Prop where
  id : row'.id = row.id
  attempts : row'.attemptCount = row.attemptCount
  budget : row'.status = .pending → row.status = .pending ∨
    row.attemptCount < config.maxAttempts

theorem Spent.refl (config : WorkerConfig) (row : EffectRow) : Spent config row row :=
  ⟨rfl, rfl, .inl⟩

/-- Rows are counted by their claims. -/
structure Counted (config : WorkerConfig) (claimed : List String) (outbox : Outbox) : Prop where
  count : ∀ row ∈ outbox.rows.rows, claimed.count row.id = row.attemptCount
  free : ∀ id, outbox.rows.get id = none → claimed.count id = 0
  within : ∀ row ∈ outbox.rows.rows, row.attemptCount ≤ config.maxAttempts
  budget : ∀ row ∈ outbox.rows.rows, row.status = .pending →
    row.attemptCount < config.maxAttempts

variable {config : WorkerConfig} {claimed : List String} {outbox : Outbox} {workshop : Workshop}

theorem Counted.withinBudget (counted : Counted config workshop.claimed workshop.outbox) :
    workshop.WithinBudget config := by
  refine ⟨fun id => ?_, counted.budget⟩
  cases found : workshop.outbox.rows.get id with
  | none =>
      rw [counted.free id found]
      exact Nat.zero_le _
  | some row =>
      rcases Table.get_eq_some_iff.mp found with ⟨stored, rfl⟩
      rw [show workshop.claimed.count row.effectId = row.attemptCount from counted.count row stored]
      exact counted.within row stored

section

variable (counted : Counted config claimed outbox)
include counted

/-- An `UPDATE` that spends nothing. -/
theorem Counted.update {which : EffectRow → Bool} {set : EffectRow → EffectRow}
    {keeps : ∀ row, (set row).id = row.id}
    (spent : ∀ row ∈ outbox.rows.rows, which row = true → Spent config row (set row)) :
    Counted config claimed (outbox.update which set keeps) := by
  have rows : ∀ row ∈ (outbox.update which set keeps).rows.rows,
      ∃ old ∈ outbox.rows.rows, Spent config old row := by
    intro row stored
    rcases Outbox.mem_update.mp stored with ⟨old, old_stored, rfl⟩
    refine ⟨old, old_stored, ?_⟩
    split
    · exact spent old old_stored ‹_›
    · exact Spent.refl config old
  constructor
  · intro row stored
    rcases rows row stored with ⟨old, old_stored, kept⟩
    rw [kept.id, kept.attempts]
    exact counted.count old old_stored
  · intro id free
    rw [Outbox.get_update, Option.map_eq_none_iff] at free
    exact counted.free id free
  · intro row stored
    rcases rows row stored with ⟨old, old_stored, kept⟩
    rw [kept.attempts]
    exact counted.within old old_stored
  · intro row stored pending
    rcases rows row stored with ⟨old, old_stored, kept⟩
    rw [kept.attempts]
    rcases kept.budget pending with before | left
    · exact counted.budget old old_stored before
    · exact left

/-- An `UPDATE` that leaves no row it picks pending. -/
theorem Counted.update_settled {which : EffectRow → Bool} {set : EffectRow → EffectRow}
    {keeps : ∀ row, (set row).id = row.id}
    (attempts : ∀ row, (set row).attemptCount = row.attemptCount)
    (settled : ∀ row, (set row).status ≠ .pending) :
    Counted config claimed (outbox.update which set keeps) := by
  apply counted.update
  intro row _ _
  exact ⟨keeps row, attempts row, fun pending => absurd pending (settled row)⟩

theorem Counted.retireForStart (thread : String) (stopped : List String) (now : Int) :
    Counted config claimed (outbox.retireForStart thread stopped now) := by
  apply counted.update_settled
  · exact fun _ => rfl
  · exact fun _ => EffectStatus.noConfusion

theorem Counted.enqueue {next : Outbox} {id command thread : String} {request : EffectRequest}
    {stopped : List String} {now : Int} (positive : 0 < config.maxAttempts)
    (enqueued : outbox.enqueue id command thread request stopped now = some next) :
    Counted config claimed next := by
  rcases Outbox.enqueue_cases enqueued with
    ⟨retired, row, before, _, _, fresh, inserted⟩
  have kept : Counted config claimed retired := by
    rcases before with rfl | rfl
    · exact counted
    · exact counted.retireForStart thread stopped now
  have unclaimed : claimed.count row.effectId = 0 := by
    apply kept.free
    cases found : retired.rows.get row.effectId with
    | none => rfl
    | some other =>
        have taken : (retired.rows.get row.effectId).isSome := by
          rw [found]
          rfl
        rw [Table.insert_eq_none_iff.mpr taken] at inserted
        cases inserted
  have cases_of : ∀ other ∈ next.rows.rows, other ∈ retired.rows.rows ∨ other = row := by
    intro other stored
    rw [Table.rows_insert inserted, List.mem_append, List.mem_singleton] at stored
    exact stored
  constructor
  · intro other stored
    rcases cases_of other stored with old | rfl
    · exact kept.count other old
    · rw [fresh]
      exact unclaimed
  · intro other free
    rw [Table.get_insert inserted] at free
    split at free
    · cases free
    · exact kept.free other free
  · intro other stored
    rcases cases_of other stored with old | rfl
    · exact kept.within other old
    · rw [fresh]
      exact Nat.zero_le _
  · intro other stored pending
    rcases cases_of other stored with old | rfl
    · exact kept.budget other old pending
    · rw [fresh]
      exact positive

theorem Counted.expireLeases {now : Int}
    (spared : ∀ row ∈ outbox.rows.rows,
      (row.status == .running && row.leaseExpired now) = true → Spared config row) :
    Counted config claimed (outbox.expireLeases now) := by
  apply counted.update
  intro row stored expired
  refine ⟨rfl, rfl, fun pending => ?_⟩
  rcases spared row stored expired with ⟨processBound, dispatched⟩ | left
  · simp only [processBound, dispatched] at pending
    cases pending
  · exact .inr left

/-- A claim counts the row that it leases. -/
theorem Counted.lease {row : EffectRow} (stored : row ∈ outbox.rows.rows)
    (pending : row.status = .pending) (worker : String) (now leaseMs : Int) :
    Counted config (claimed ++ [row.id]) (outbox.lease row.id worker now leaseMs) := by
  have one : ∀ id, (claimed ++ [row.id]).count id =
      claimed.count id + if row.id = id then 1 else 0 := by
    intro id
    rw [List.count_append, List.count_singleton]
    simp only [beq_iff_eq]
  have left := counted.budget row stored pending
  constructor
  · intro other other_stored
    rcases Outbox.mem_update.mp other_stored with ⟨old, old_stored, rfl⟩
    rw [one]
    split
    · rename_i same
      rw [beq_iff_eq] at same
      rw [if_pos same.symm, counted.count old old_stored]
    · rename_i other_id
      rw [beq_iff_eq] at other_id
      rw [if_neg (Ne.symm other_id), counted.count old old_stored]
      rfl
  · intro id free
    rw [Outbox.lease, Outbox.get_update, Option.map_eq_none_iff] at free
    have other : row.id ≠ id := by
      rintro rfl
      rw [show outbox.rows.get row.id = some row from Table.get_of_mem stored] at free
      cases free
    rw [one, if_neg other, counted.free id free]
  · intro other other_stored
    rcases Outbox.mem_update.mp other_stored with ⟨old, old_stored, rfl⟩
    split
    · rename_i same
      rw [beq_iff_eq] at same
      rw [outbox.rows.eq_of_mem old_stored stored same]
      exact left
    · exact counted.within old old_stored
  · intro other other_stored other_pending
    rcases Outbox.mem_update.mp other_stored with ⟨old, old_stored, rfl⟩
    split at other_pending
    · cases other_pending
    · rename_i other_id
      rw [if_neg other_id]
      exact counted.budget old old_stored other_pending

theorem Counted.beginEffect (effect : Effect) (now : Int) :
    Counted config claimed (outbox.beginEffect effect now).1 := by
  apply counted.update
  intro row _ _
  exact ⟨rfl, rfl, .inl⟩

theorem Counted.finishEffect (positive : 0 < config.maxAttempts) (effect : Effect)
    (outcome : EffectOutcome) (now : Int) :
    Counted config claimed (outbox.finishEffect effect outcome now config.maxAttempts).1 := by
  apply counted.update
  intro row _ held
  rw [Bool.and_eq_true, EffectRow.held_iff] at held
  refine ⟨rfl, rfl, fun pending => .inr ?_⟩
  rw [held.1.generation]
  split at pending
  · cases pending
  · -- Only a retry with budget left leaves the row pending.
    cases outcome with
    | retry =>
        simp only [Outbox.settlement] at pending
        split at pending
        · rename_i left
          rwa [max_eq_left positive] at left
        · cases pending
    | _ => cases pending

theorem Counted.abandonEffect {effect : Effect}
    (spared : ∀ row ∈ outbox.rows.rows, row.heldUnder effect = true → Spared config row)
    (now : Int) :
    Counted config claimed (outbox.abandonEffect effect now).1 := by
  rw [Outbox.abandonEffect]
  split
  · apply counted.update_settled
    · exact fun _ => rfl
    · exact fun _ => EffectStatus.noConfusion
  · apply counted.update
    intro row stored held
    refine ⟨rfl, rfl, fun pending => ?_⟩
    rcases spared row stored held with ⟨processBound, _⟩ | left
    · simp only [processBound] at pending
      cases pending
    · exact .inr left

theorem Counted.ofHost (positive : 0 < config.maxAttempts) {event : OutboxEvent}
    (ofHost : event.ofHost = true) :
    Counted config claimed (outbox.apply event) := by
  cases event with
  | enqueue id command thread request stopped now =>
      rw [Outbox.apply]
      cases enqueued : outbox.enqueue id command thread request stopped now with
      | none => exact counted
      | some next => exact counted.enqueue positive enqueued
  | cancelEffect id now =>
      apply counted.update_settled
      · exact fun _ => rfl
      · exact fun _ => EffectStatus.noConfusion
  | cancelProcess thread now =>
      apply counted.update_settled
      · exact fun _ => rfl
      · exact fun _ => EffectStatus.noConfusion
  | resolveUncertain id accepted now =>
      apply counted.update_settled
      · exact fun _ => rfl
      · intro row
        cases accepted <;> exact EffectStatus.noConfusion
  | confirm effect exact_ now =>
      rw [Outbox.apply, Outbox.confirm]
      split
      · have accepted : Counted config claimed
            (if effect.id ∈ outbox.acceptances then outbox
              else { outbox with acceptances := effect.id :: outbox.acceptances }) := by
          split
          · exact counted
          · exact ⟨counted.count, counted.free, counted.within, counted.budget⟩
        apply accepted.update_settled
        · exact fun _ => rfl
        · exact fun _ => EffectStatus.noConfusion
      · exact counted
  | claim _ _ _ | begin _ _ | finish _ _ _ _ | abandon _ _ | recover _ => cases ofHost

end

/-! ## Steps and runs -/

theorem Counted.claim (counted : Counted config workshop.claimed workshop.outbox)
    {worker : String} {now : Int}
    (spared : ∀ row ∈ workshop.outbox.rows.rows,
      (row.status == .running && row.leaseExpired now) = true → Spared config row) :
    Counted config (workshop.claim config worker now).claimed
      (workshop.claim config worker now).outbox := by
  have expired := counted.expireLeases spared
  rcases workshop.outbox.claimEffect_cases worker now config.leaseMs with
    none | ⟨row, stored, claimable, _, leased⟩
  · rw [Workshop.claim, none]
    exact expired
  · have pending := ((Outbox.claimable_iff _ row).mp claimable).1
    have found : (((workshop.outbox.expireLeases now).lease row.id worker now
        config.leaseMs).rows.get row.id).map EffectRow.toEffect = some { row.toEffect with
          status := .running
          attemptCount := row.attemptCount + 1
          leaseOwner := some worker
          leaseExpiresAt := some (saturatingAdd now (max config.leaseMs 1))
          dispatchStarted := false } := by
      rw [Outbox.lease, Outbox.get_update,
        show (workshop.outbox.expireLeases now).rows.get row.id = some row from
          Table.get_of_mem stored, Option.map_some, Option.map_some, if_pos (beq_self_eq_true _)]
    rw [Workshop.claim, leased, found]
    exact expired.lease stored pending worker now config.leaseMs

theorem Counted.step {next : Workshop} {event : WorkshopEvent}
    (counted : Counted config workshop.claimed workshop.outbox)
    (kept : LeaseKept config workshop event)
    (stepped : Workshop.step config workshop event = some next) :
    Counted config next.claimed next.outbox := by
  cases event with
  | claim worker now =>
      cases stepped
      exact counted.claim kept.2
  | begin index =>
      rw [Workshop.step] at stepped
      split at stepped
      · cases stepped
        exact counted.beginEffect _ _
      · cases stepped
  | cancelled index =>
      rw [Workshop.step] at stepped
      split at stepped
      · split at stepped
        · cases stepped
          exact counted
        · cases stepped
      · cases stepped
  | outcome index outcome elapsed =>
      rw [Workshop.step] at stepped
      split at stepped
      · cases stepped
        exact counted.finishEffect kept.1 _ _ _
      · cases stepped
  | timeout index elapsed =>
      rw [Workshop.step] at stepped
      split at stepped
      · split at stepped
        · cases stepped
          exact counted.finishEffect kept.1 _ _ _
        · cases stepped
      · cases stepped
  | abandon index =>
      rw [Workshop.step] at stepped
      split at stepped
      · rename_i found
        cases stepped
        rw [Workshop.abandon]
        split
        · exact counted
        · apply counted.abandonEffect
          intro row stored held
          apply kept.2 row stored
          rw [runsOut, found]
          exact held
      · cases stepped
  | host event =>
      rw [Workshop.step] at stepped
      split at stepped
      · cases stepped
        exact counted.ofHost kept.1 ‹_›
      · cases stepped

theorem counted_start (config : WorkerConfig) : Counted config start.claimed start.outbox := by
  constructor
  · intro row stored
    cases stored
  · intro id _
    rfl
  · intro row stored
    cases stored
  · intro row stored
    cases stored

/-- If no lease runs out on the last attempt of an effect, then no effect is claimed
more often than the budget allows, in any order of steps. -/
theorem claims_within_budget {events : List WorkshopEvent}
    (kept : EveryStep (step config) (LeaseKept config) start events) :
    EveryState (step config) (WithinBudget config) start events :=
  everyState_of_everyStep (fun counted guard stepped => Counted.step counted guard stepped)
    Counted.withinBudget (counted_start config) kept

/-- One attempt at the effect that is first in its lane, from `now` on. -/
def attemptAt (now : Int) (ending : List WorkshopEvent) : List WorkshopEvent :=
  .claim "worker" now :: .begin 0 :: ending

/-- A title that has to be made. -/
def title : WorkshopEvent :=
  .host (.enqueue "title" "command" "thread" (.threadTitleGenerate .regenerate) [] 0)

/-- An executor that asks for a retry each time fails with its fifth attempt. -/
theorem claims_within_budget_of_retries :
    let attempt := fun now : Int => attemptAt now [.outcome 0 .retry 10]
    let events := title :: [0, 110, 320, 730, 1540].flatMap attempt
    EveryState (step .default) (WithinBudget .default) start events ∧
      ∃ final, run (step .default) start events = some final ∧
        (final.outbox.rows.get "title").map (fun row => (row.status, row.attemptCount)) =
          some (.failed, 5) := by
  intro attempt events
  constructor
  · apply claims_within_budget
    apply everyStep_of_checkSteps (fun workshop event =>
      decide (LeaseKept .default workshop event))
    · intro workshop event
      exact of_decide_eq_true
    · decide +kernel
  · exact ⟨_, rfl, by decide +kernel⟩

/-- An executor that always times out is claimed a sixth time. -/
theorem timeouts_exceed_budget :
    let attempt := fun now : Int => attemptAt now [.timeout 0 30000, .abandon 0]
    let events := title :: [0, 30000, 60000, 90000, 120000, 150000].flatMap attempt
    ∃ final, run (step .default) start events = some final ∧
      final.claimed.count "title" = 6 ∧
      (final.outbox.rows.get "title").map (fun row => row.status) = some .pending ∧
      ¬ WithinBudget .default final := by
  intro attempt events
  refine ⟨_, rfl, by decide +kernel, by decide +kernel, ?_⟩
  intro within
  exact absurd (within.1 "title") (by decide +kernel)

end Workshop

end Zeron.Orchestration
