import Mathlib.Logic.Basic

/-!
# Fallible edits

An edit runs on a state and may fail part of the way.  A run that succeeds is
taken apart step by step: `Gives` relates its start, its result and its end.
-/

namespace Zeron.Transition

universe u

section Checks

variable {ε α β : Type u}

theorem except_bind_eq_ok_iff {first : Except ε α} {rest : α → Except ε β} {result : β} :
    (first >>= rest) = .ok result ↔ ∃ value, first = .ok value ∧ rest value = .ok result := by
  cases first with
  | error error => simp [bind, Except.bind]
  | ok value => simp [bind, Except.bind]

/-- A check, and the error if it fails. -/
def check (condition : Bool) (error : ε) : Except ε PUnit.{u + 1} :=
  if condition then .ok ⟨⟩ else .error error

@[simp]
theorem check_eq_ok_iff {condition : Bool} {error : ε} {done : PUnit} :
    check condition error = .ok done ↔ condition = true := by
  cases condition <;> simp [check]

/-- A fold that succeeds, one item at a time. -/
theorem foldlM_cons_eq_ok_iff {γ : Type*} {step : β → γ → Except ε β} {start result : β} {item : γ}
    {rest : List γ} :
    (item :: rest).foldlM step start = .ok result ↔
      ∃ next, step start item = .ok next ∧ rest.foldlM step next = .ok result := by
  rw [List.foldlM_cons, except_bind_eq_ok_iff]

/-- What each item of a successful fold has been checked for, with a state that accumulates. -/
theorem foldlM_induction {γ : Type*} {step : β → γ → Except ε β} (reached : List γ → β → Prop)
    {items : List γ} {start result : β} (nothing : reached [] start)
    (more : ∀ {done item state next}, item ∈ items → reached done state →
      step state item = .ok next → reached (done ++ [item]) next)
    (ran : items.foldlM step start = .ok result) : reached items result := by
  have general : ∀ (rest done : List γ) (state : β), done ++ rest = items → reached done state →
      rest.foldlM step state = .ok result → reached items result := by
    intro rest
    induction rest with
    | nil =>
        intro done state all holds ended
        cases ended
        rwa [← all, List.append_nil]
    | cons item rest ih =>
        intro done state all holds ended
        obtain ⟨next, stepped, later⟩ := foldlM_cons_eq_ok_iff.mp ended
        refine ih (done ++ [item]) next (by rw [← all]; simp) (more ?_ holds stepped) later
        rw [← all]
        simp
  exact general items [] start rfl nothing ran

end Checks

variable {ε σ α β : Type u}

/-- The run of an edit succeeds. -/
def Gives (edit : EStateM ε σ α) (state : σ) (result : α) (next : σ) : Prop :=
  edit.run state = .ok result next

section Runs

variable {state next : σ} {result : α} {rest : α → EStateM ε σ β}

theorem gives_bind {edit : EStateM ε σ α} {last : β} :
    Gives (edit >>= rest) state last next ↔
      ∃ value middle, Gives edit state value middle ∧ Gives (rest value) middle last next := by
  unfold Gives
  rw [EStateM.run_bind]
  cases edit.run state with
  | ok value middle =>
      constructor
      · intro ran
        exact ⟨value, middle, rfl, ran⟩
      · rintro ⟨_, _, same, ran⟩
        cases same
        exact ran
  | error error middle => simp

theorem gives_pure {value : α} :
    Gives (pure value : EStateM ε σ α) state result next ↔ value = result ∧ state = next := by
  simp [Gives]

theorem gives_get {result : σ} :
    Gives (get : EStateM ε σ σ) state result next ↔ state = result ∧ state = next := by
  simp [Gives]

theorem gives_modify {change : σ → σ} {done : PUnit} :
    Gives (modify change : EStateM ε σ PUnit) state done next ↔ change state = next := by
  change (EStateM.Result.ok (⟨⟩ : PUnit) (change state) : EStateM.Result ε σ PUnit) = .ok done next ↔ _
  simp

theorem not_gives_throw {error : ε} :
    ¬ Gives (throw error : EStateM ε σ α) state result next :=
  nofun

/-- A check, and the error if it fails. -/
def ensure (condition : Bool) (error : ε) : EStateM ε σ PUnit :=
  if condition then pure ⟨⟩ else throw error

theorem gives_ensure {condition : Bool} {error : ε} {done : PUnit} :
    Gives (ensure condition error : EStateM ε σ PUnit) state done next ↔
      condition = true ∧ state = next := by
  cases condition <;> simp [Gives, ensure]

/-- `ok_or`: a value that is to be there. -/
def require (value : Option α) (error : ε) : EStateM ε σ α :=
  match value with
  | some value => pure value
  | none => throw error

theorem gives_require {value : Option α} {error : ε} :
    Gives (require value error : EStateM ε σ α) state result next ↔
      value = some result ∧ state = next := by
  cases value with
  | some value => simp [Gives, require]
  | none => exact iff_of_false not_gives_throw (fun found => nomatch found.1)

/-- A fallible computation that leaves the state alone. -/
def attempt (outcome : Except ε α) : EStateM ε σ α :=
  match outcome with
  | .ok value => pure value
  | .error error => throw error

theorem gives_attempt {outcome : Except ε α} :
    Gives (attempt outcome : EStateM ε σ α) state result next ↔
      outcome = .ok result ∧ state = next := by
  cases outcome with
  | ok value => simp [Gives, attempt]
  | error error => exact iff_of_false not_gives_throw (fun found => nomatch found.1)

/-! ### A first step, and the rest -/

variable {last : β}

theorem gives_bind_get {rest : σ → EStateM ε σ β} :
    Gives (get >>= rest) state last next ↔ Gives (rest state) state last next := by
  rw [gives_bind]
  constructor
  · rintro ⟨_, _, got, later⟩
    obtain ⟨rfl, rfl⟩ := gives_get.mp got
    exact later
  · intro later
    exact ⟨state, state, gives_get.mpr ⟨rfl, rfl⟩, later⟩

theorem gives_bind_modify {change : σ → σ} {rest : PUnit → EStateM ε σ β} :
    Gives (modify change >>= rest) state last next ↔
      Gives (rest ⟨⟩) (change state) last next := by
  rw [gives_bind]
  constructor
  · rintro ⟨_, _, changed, later⟩
    obtain rfl := gives_modify.mp changed
    exact later
  · intro later
    exact ⟨⟨⟩, _, gives_modify.mpr rfl, later⟩

theorem gives_bind_ensure {condition : Bool} {error : ε} {rest : PUnit → EStateM ε σ β} :
    Gives (ensure condition error >>= rest) state last next ↔
      condition = true ∧ Gives (rest ⟨⟩) state last next := by
  rw [gives_bind]
  constructor
  · rintro ⟨_, _, checked, later⟩
    obtain ⟨holds, rfl⟩ := gives_ensure.mp checked
    exact ⟨holds, later⟩
  · rintro ⟨holds, later⟩
    exact ⟨⟨⟩, state, gives_ensure.mpr ⟨holds, rfl⟩, later⟩

theorem gives_bind_require {value : Option α} {error : ε} :
    Gives (require value error >>= rest) state last next ↔
      ∃ found, value = some found ∧ Gives (rest found) state last next := by
  rw [gives_bind]
  constructor
  · rintro ⟨found, _, required, later⟩
    obtain ⟨there, rfl⟩ := gives_require.mp required
    exact ⟨found, there, later⟩
  · rintro ⟨found, there, later⟩
    exact ⟨found, state, gives_require.mpr ⟨there, rfl⟩, later⟩

theorem gives_bind_attempt {outcome : Except ε α} :
    Gives (attempt outcome >>= rest) state last next ↔
      ∃ value, outcome = .ok value ∧ Gives (rest value) state last next := by
  rw [gives_bind]
  constructor
  · rintro ⟨value, _, attempted, later⟩
    obtain ⟨done, rfl⟩ := gives_attempt.mp attempted
    exact ⟨value, done, later⟩
  · rintro ⟨value, done, later⟩
    exact ⟨value, state, gives_attempt.mpr ⟨done, rfl⟩, later⟩

end Runs

end Zeron.Transition
