import Mathlib.Logic.Basic

/-!
# Runs of a partial step function

A system is a partial step function: a state and an event have a successor
exactly when the event is enabled.  A run folds the step over a list of events
and fails at the first disabled one.

The rules below are the only inductions over runs that the development needs:
an invariant kept by every step holds at the end of a run, a guard met at every
step may be assumed by the step lemma, and a property that one step keeps or
breaks exactly according to a guard is settled for whole runs by that guard.
-/

namespace Zeron.Transition

universe u v

/-- A state and an event determine the next state, if the event is enabled. -/
abbrev Step (σ : Type u) (ε : Type v) := σ → ε → Option σ

variable {σ : Type u} {ε : Type v} {step : Step σ ε}

/-- Execute the events in order.  A disabled event fails the whole run. -/
def run (step : Step σ ε) : σ → List ε → Option σ
  | state, [] => some state
  | state, event :: events => (step state event).bind fun next => run step next events

/-- Every state met along the run, both ends included, satisfies `good`. -/
def EveryState (step : Step σ ε) (good : σ → Prop) : σ → List ε → Prop
  | state, [] => good state
  | state, event :: events =>
      good state ∧ ∀ next, step state event = some next → EveryState step good next events

/-- Every event of the run meets `guard` in the state in which it is taken. -/
def EveryStep (step : Step σ ε) (guard : σ → ε → Prop) : σ → List ε → Prop
  | _, [] => True
  | state, event :: events =>
      guard state event ∧ ∀ next, step state event = some next → EveryStep step guard next events

/-- `EveryStep` as a computation. -/
def checkSteps (step : Step σ ε) (check : σ → ε → Bool) : σ → List ε → Bool
  | _, [] => true
  | state, event :: events =>
      check state event && (step state event).all fun next => checkSteps step check next events

@[simp]
theorem run_nil (state : σ) : run step state [] = some state :=
  rfl

theorem run_cons (state : σ) (event : ε) (events : List ε) :
    run step state (event :: events) =
      (step state event).bind fun next => run step next events :=
  rfl

theorem run_cons_eq_some_iff {state final : σ} {event : ε} {events : List ε} :
    run step state (event :: events) = some final ↔
      ∃ next, step state event = some next ∧ run step next events = some final := by
  rw [run_cons, Option.bind_eq_some_iff]

/-- Runs compose. -/
theorem run_append (state : σ) (first second : List ε) :
    run step state (first ++ second) =
      (run step state first).bind fun middle => run step middle second := by
  induction first generalizing state with
  | nil => rfl
  | cons event events ih =>
      simp only [List.cons_append, run_cons, Option.bind_assoc, ih]

theorem run_append_eq_some_iff {state final : σ} {first second : List ε} :
    run step state (first ++ second) = some final ↔
      ∃ middle, run step state first = some middle ∧
        run step middle second = some final := by
  rw [run_append, Option.bind_eq_some_iff]

/-- A run of steps that are always enabled succeeds. -/
theorem exists_run_of_total (total : ∀ state event, (step state event).isSome) (state : σ)
    (events : List ε) : ∃ final, run step state events = some final := by
  induction events generalizing state with
  | nil => exact ⟨state, rfl⟩
  | cons event events ih =>
      obtain ⟨next, stepped⟩ := Option.isSome_iff_exists.mp (total state event)
      obtain ⟨final, ran⟩ := ih next
      exact ⟨final, run_cons_eq_some_iff.mpr ⟨next, stepped, ran⟩⟩

variable {inv : σ → Prop}

/-- An invariant that the events of a run keep is kept by the run. -/
theorem run_invariant_of_mem {events : List ε}
    (kept : ∀ {state next event}, event ∈ events → inv state →
      step state event = some next → inv next) {state final : σ} (start : inv state)
    (ran : run step state events = some final) :
    inv final := by
  induction events generalizing state with
  | nil => cases ran; exact start
  | cons event events ih =>
      obtain ⟨next, stepped, rest⟩ := run_cons_eq_some_iff.mp ran
      exact ih (fun listed => kept (List.mem_cons_of_mem _ listed))
        (kept List.mem_cons_self start stepped) rest

/-- An invariant kept by every step is kept by every run. -/
theorem run_invariant
    (kept : ∀ {state next event}, inv state → step state event = some next → inv next)
    {state final : σ} {events : List ε} (start : inv state)
    (ran : run step state events = some final) : inv final :=
  run_invariant_of_mem (fun _ => kept) start ran

/-- An invariant kept by every guarded step is kept by every guarded run. -/
theorem run_invariant_of_everyStep {guard : σ → ε → Prop}
    (kept : ∀ {state next event}, inv state → guard state event →
      step state event = some next → inv next) {state final : σ} {events : List ε}
    (start : inv state) (guarded : EveryStep step guard state events)
    (ran : run step state events = some final) : inv final := by
  induction events generalizing state with
  | nil => cases ran; exact start
  | cons event events ih =>
      obtain ⟨next, stepped, rest⟩ := run_cons_eq_some_iff.mp ran
      exact ih (kept start guarded.1 stepped) (guarded.2 next stepped) rest

/-- A guard that every step meets is met along every run. -/
theorem everyStep_of_forall {guard : σ → ε → Prop}
    (holds : ∀ state event, guard state event) {state : σ} (events : List ε) :
    EveryStep step guard state events := by
  induction events generalizing state with
  | nil => trivial
  | cons event events ih => exact ⟨holds state event, fun next _ => ih⟩

variable {good : σ → Prop}

/-- What an invariant of guarded steps implies holds in every state of a guarded run. -/
theorem everyState_of_everyStep {guard : σ → ε → Prop}
    (kept : ∀ {state next event}, inv state → guard state event →
      step state event = some next → inv next) (implies : ∀ {state}, inv state → good state)
    {state : σ} {events : List ε} (start : inv state)
    (guarded : EveryStep step guard state events) :
    EveryState step good state events := by
  induction events generalizing state with
  | nil => exact implies start
  | cons event events ih =>
      exact ⟨implies start, fun next stepped =>
        ih (kept start guarded.1 stepped) (guarded.2 next stepped)⟩

/-- What an invariant implies holds in every state of a run. -/
theorem everyState_of_invariant
    (kept : ∀ {state next event}, inv state → step state event = some next → inv next)
    (implies : ∀ {state}, inv state → good state) {state : σ} (start : inv state)
    (events : List ε) : EveryState step good state events :=
  everyState_of_everyStep (fun holds (_ : True) => kept holds) implies start
    (everyStep_of_forall (fun _ _ => trivial) events)

/-- A guard that follows from another under an invariant is met by the same runs. -/
theorem EveryStep.imp {first second : σ → ε → Prop}
    (kept : ∀ {state next event}, inv state → step state event = some next → inv next)
    (follows : ∀ {state event}, inv state → first state event → second state event) {state : σ}
    {events : List ε} (start : inv state) (guarded : EveryStep step first state events) :
    EveryStep step second state events := by
  induction events generalizing state with
  | nil => trivial
  | cons event events ih =>
      exact ⟨follows start guarded.1, fun next stepped =>
        ih (kept start stepped) (guarded.2 next stepped)⟩

/-- A guard that a check implies is met where the check succeeds. -/
theorem everyStep_of_checkSteps {guard : σ → ε → Prop} (check : σ → ε → Bool)
    (sound : ∀ state event, check state event = true → guard state event) {state : σ}
    {events : List ε} (checked : checkSteps step check state events = true) :
    EveryStep step guard state events := by
  induction events generalizing state with
  | nil => trivial
  | cons event events ih =>
      obtain ⟨now, later⟩ := Bool.and_eq_true_iff.mp checked
      refine ⟨sound state event now, fun next stepped => ih ?_⟩
      rw [stepped] at later
      exact later

/-- A guard met along a run is met along its first part. -/
theorem EveryStep.left {guard : σ → ε → Prop} {state : σ} {first second : List ε}
    (guarded : EveryStep step guard state (first ++ second)) :
    EveryStep step guard state first := by
  induction first generalizing state with
  | nil => trivial
  | cons event events ih =>
      exact ⟨guarded.1, fun next stepped => ih (guarded.2 next stepped)⟩

/-- A guard met along a run is met along its second part. -/
theorem EveryStep.right {guard : σ → ε → Prop} {state middle : σ} {first second : List ε}
    (guarded : EveryStep step guard state (first ++ second))
    (ran : run step state first = some middle) :
    EveryStep step guard middle second := by
  induction first generalizing state with
  | nil => cases ran; exact guarded
  | cons event events ih =>
      obtain ⟨next, stepped, rest⟩ := run_cons_eq_some_iff.mp ran
      exact ih (guarded.2 next stepped) rest

/-- A property of all states of a run holds of the last one. -/
theorem EveryState.final {state final : σ} {events : List ε}
    (always : EveryState step good state events) (ran : run step state events = some final) :
    good final := by
  induction events generalizing state with
  | nil => cases ran; exact always
  | cons event events ih =>
      obtain ⟨next, stepped, rest⟩ := run_cons_eq_some_iff.mp ran
      exact ih (always.2 next stepped) rest

/-- If a step after which `good` holds meets the guard, and a step that meets it keeps an
invariant that implies `good`, then a run is good throughout exactly when all its steps meet
the guard. -/
theorem everyState_iff_of_inv {guard : σ → ε → Prop} (implies : ∀ {state}, inv state → good state)
    (meets : ∀ {state next event}, inv state → step state event = some next →
      good next → guard state event)
    (kept : ∀ {state next event}, inv state → step state event = some next →
      guard state event → inv next) {state final : σ} {events : List ε} (start : inv state)
    (ran : run step state events = some final) :
    EveryState step good state events ↔ EveryStep step guard state events := by
  induction events generalizing state with
  | nil => exact iff_of_true (implies start) trivial
  | cons event events ih =>
      obtain ⟨next, stepped, rest⟩ := run_cons_eq_some_iff.mp ran
      have onlyNext : ∀ {p : σ → Prop},
          (∀ other, step state event = some other → p other) ↔ p next := by
        intro p
        constructor
        · intro all
          exact all next stepped
        · intro holds other otherStep
          obtain rfl : next = other := Option.some.inj (stepped.symm.trans otherStep)
          exact holds
      simp only [EveryState, EveryStep, onlyNext]
      constructor
      · rintro ⟨_, later⟩
        have nextGood : good next := by
          cases events with
          | nil => exact later
          | cons _ _ => exact later.1
        have now := meets start stepped nextGood
        exact ⟨now, (ih (kept start stepped now) rest).mp later⟩
      · rintro ⟨now, later⟩
        exact ⟨implies start, (ih (kept start stepped now) rest).mpr later⟩

/-- If, under an invariant, one step keeps `good` exactly when it meets
`guard`, then a run stays good throughout exactly when all its steps meet the
guard. -/
theorem everyState_iff_everyStep {guard : σ → ε → Prop}
    (kept : ∀ {state next event}, inv state → step state event = some next → inv next)
    (exact_step : ∀ {state next event}, inv state → good state →
      step state event = some next → (good next ↔ guard state event)) {state final : σ}
    {events : List ε} (start : inv state) (startGood : good state)
    (ran : run step state events = some final) :
    EveryState step good state events ↔ EveryStep step guard state events :=
  @everyState_iff_of_inv σ ε step (fun state => inv state ∧ good state) good guard
    (fun both => both.2)
    (fun both stepped nextGood => (exact_step both.1 both.2 stepped).mp nextGood)
    (fun both stepped now => ⟨kept both.1 stepped, (exact_step both.1 both.2 stepped).mpr now⟩)
    _ _ _ ⟨start, startGood⟩ ran

/-- A run that loses a property contains a step that may lose it. -/
theorem exists_breaking_step {breaks : σ → ε → Prop}
    (kept : ∀ {state next event}, good state → step state event = some next →
      good next ∨ breaks state event) {state final : σ} {events : List ε} (start : good state)
    (ran : run step state events = some final) (lost : ¬ good final) :
    ∃ first event rest middle, events = first ++ event :: rest ∧
      run step state first = some middle ∧ good middle ∧ breaks middle event := by
  induction events generalizing state with
  | nil =>
      cases ran
      exact absurd start lost
  | cons event events ih =>
      obtain ⟨next, stepped, later⟩ := run_cons_eq_some_iff.mp ran
      obtain nextGood | broken := kept start stepped
      · obtain ⟨first, other, rest, middle, rfl, reached, good, broken⟩ := ih nextGood later
        exact ⟨event :: first, other, rest, middle, rfl,
          run_cons_eq_some_iff.mpr ⟨next, stepped, reached⟩, good, broken⟩
      · exact ⟨[], event, events, state, rfl, rfl, start, broken⟩

/-- Guards that agree under an invariant are met by the same runs. -/
theorem everyStep_congr {first second : σ → ε → Prop}
    (kept : ∀ {state next event}, inv state → step state event = some next → inv next)
    (same : ∀ {state event}, inv state → (first state event ↔ second state event)) {state : σ}
    (events : List ε) (start : inv state) :
    EveryStep step first state events ↔ EveryStep step second state events :=
  ⟨EveryStep.imp kept (fun holds => (same holds).mp) start,
    EveryStep.imp kept (fun holds => (same holds).mpr) start⟩

end Zeron.Transition
