import Mathlib.Logic.Basic

/-!
# Transactions that may be cut short

A transaction is a program over a state which passes named boundaries on its
way.  A fault is a boundary and the number of the visit at which the program is
cut short there; the state is then thrown away.  A program that gets through in
spite of a fault does what it does without one, so an interrupted program never
leaves anything half done, and what is left of a run are the programs that got
through.
-/

namespace Zeron.Data

universe u v

/-- Why a program does not get through. -/
inductive Failure (β ε : Type u) where
  /-- It was cut short at a boundary. -/
  | injected (boundary : β)
  | error (error : ε)

/-- A boundary and the visit at which the program is cut short there. -/
abbrev Fault (β : Type u) := Option (β × Nat)

/-- A program over a state; a fault can stop it but not change what it does. -/
structure Tx (σ β ε α : Type u) where
  run : σ → Fault β → Except (Failure β ε) (α × σ × Fault β)
  steady : ∀ {state final : σ} {fault left : Fault β} {result : α},
    run state fault = .ok (result, final, left) → run state none = .ok (result, final, none)

namespace Tx

variable {σ β ε α γ : Type u}

/-- Give a value. -/
def give (value : α) : Tx σ β ε α where
  run state fault := .ok (value, state, fault)
  steady := by
    intro state final fault left result ran
    cases ran
    rfl

/-- One program after another. -/
def andThen (first : Tx σ β ε α) (next : α → Tx σ β ε γ) : Tx σ β ε γ where
  run state fault :=
    match first.run state fault with
    | .error failure => .error failure
    | .ok (value, middle, left) => (next value).run middle left
  steady := by
    intro state final fault left result ran
    cases first_ran : first.run state fault with
    | error failure =>
        rw [first_ran] at ran
        cases ran
    | ok outcome =>
        obtain ⟨value, middle, rest⟩ := outcome
        rw [first_ran] at ran
        rw [first.steady first_ran]
        exact (next value).steady ran

instance : Monad (Tx σ β ε) where
  pure := give
  bind := andThen

/-- Read the state. -/
def look : Tx σ β ε σ where
  run state fault := .ok (state, state, fault)
  steady := by
    intro state final fault left result ran
    cases ran
    rfl

/-- Write the state. -/
def change (write : σ → σ) : Tx σ β ε PUnit where
  run state fault := .ok (⟨⟩, write state, fault)
  steady := by
    intro state final fault left result ran
    cases ran
    rfl

/-- Give up; the caller rolls back. -/
def raise (error : ε) : Tx σ β ε α where
  run _ _ := .error (.error error)
  steady := by
    intro state final fault left result ran
    cases ran

/-- A value, or giving up without one. -/
def orRaise (error : ε) : Option α → Tx σ β ε α
  | some value => give value
  | none => raise error

/-- A value that another computation may fail to give. -/
def ofExcept : Except ε α → Tx σ β ε α
  | .ok value => give value
  | .error error => raise error

/-- Give up unless a condition holds. -/
def require (condition : Bool) (error : ε) : Tx σ β ε PUnit :=
  if condition then give ⟨⟩ else raise error

section Boundary

variable [DecidableEq β]

/-- Pass a boundary, unless the fault strikes there. -/
def boundary (point : β) : Tx σ β ε PUnit where
  run state fault :=
    match fault with
    | none => .ok (⟨⟩, state, none)
    | some (target, remaining) =>
        if target = point then
          if remaining ≤ 1 then .error (.injected point)
          else .ok (⟨⟩, state, some (target, remaining - 1))
        else .ok (⟨⟩, state, some (target, remaining))
  steady := by
    intro state final fault left result ran
    cases fault with
    | none =>
        cases ran
        rfl
    | some pair =>
        obtain ⟨target, remaining⟩ := pair
        simp only at ran
        split at ran
        · split at ran
          · cases ran
          · cases ran
            rfl
        · cases ran
          rfl

end Boundary

/-- A program over a part of the state. -/
def within {τ : Type u} (part : σ → τ) (put : σ → τ → σ) (program : Tx τ β ε α) : Tx σ β ε α where
  run state fault :=
    match program.run (part state) fault with
    | .error failure => .error failure
    | .ok (value, inner, left) => .ok (value, put state inner, left)
  steady := by
    intro state final fault left result ran
    cases inner_ran : program.run (part state) fault with
    | error failure =>
        rw [inner_ran] at ran
        cases ran
    | ok outcome =>
        obtain ⟨value, inner, rest⟩ := outcome
        rw [inner_ran] at ran
        rw [program.steady inner_ran]
        cases ran
        rfl

theorem run_bind (program : Tx σ β ε α) (next : α → Tx σ β ε γ) (state : σ) (fault : Fault β) :
    (program >>= next).run state fault =
      match program.run state fault with
      | .error failure => .error failure
      | .ok (value, middle, left) => (next value).run middle left :=
  rfl

variable {program : Tx σ β ε α} {fault : Fault β} {state : σ} {next : α → Tx σ β ε γ}

/-- A sequence gets through if its parts do, one after the other. -/
theorem of_bind {final : σ} {left : Fault β} {result : γ}
    (ran : (program >>= next).run state fault = .ok (result, final, left)) :
    ∃ value middle rest, program.run state fault = .ok (value, middle, rest) ∧
      (next value).run middle rest = .ok (result, final, left) := by
  change (Tx.andThen program next).run state fault = _ at ran
  unfold Tx.andThen at ran
  simp only at ran
  cases first_ran : program.run state fault with
  | error failure =>
      rw [first_ran] at ran
      cases ran
  | ok outcome =>
      obtain ⟨value, middle, rest⟩ := outcome
      rw [first_ran] at ran
      exact ⟨value, middle, rest, rfl, ran⟩

/-- Whenever the program gets through, it relates what it started from, what it
gives and what it leaves. -/
def Ensures (program : Tx σ β ε α) (relation : σ → α → σ → Prop) : Prop :=
  ∀ (state final : σ) (fault left : Fault β) (result : α),
    program.run state fault = .ok (result, final, left) → relation state result final

/-- The program leaves a view of the state as it is. -/
def Keeps (program : Tx σ β ε α) {δ : Type v} (view : σ → δ) : Prop :=
  program.Ensures fun state _ final => view final = view state

section Rules

variable {program : Tx σ β ε α} {relation other : σ → α → σ → Prop}

theorem Ensures.of_run (ensures : program.Ensures relation) {final : σ} {left : Fault β}
    {result : α} (ran : program.run state fault = .ok (result, final, left)) :
    relation state result final :=
  ensures _ _ _ _ _ ran

theorem Ensures.imp (ensures : program.Ensures relation)
    (implies : ∀ state result final, relation state result final → other state result final) :
    program.Ensures other := by
  intro state final fault left result ran
  exact implies state result final (ensures state final fault left result ran)

theorem ensures_give (value : α) :
    (give value : Tx σ β ε α).Ensures fun state result final => result = value ∧ final = state := by
  intro state final fault left result ran
  cases ran
  exact ⟨rfl, rfl⟩

theorem ensures_look :
    (look : Tx σ β ε σ).Ensures fun state result final => result = state ∧ final = state := by
  intro state final fault left result ran
  cases ran
  exact ⟨rfl, rfl⟩

theorem ensures_change (write : σ → σ) :
    (change write : Tx σ β ε PUnit).Ensures fun state _ final => final = write state := by
  intro state final fault left result ran
  cases ran
  rfl

theorem ensures_raise (error : ε) (relation : σ → α → σ → Prop) :
    (raise error : Tx σ β ε α).Ensures relation := by
  intro state final fault left result ran
  cases ran

theorem ensures_orRaise (error : ε) (value : Option α) :
    (orRaise error value : Tx σ β ε α).Ensures fun state result final =>
      value = some result ∧ final = state := by
  cases value with
  | none => exact ensures_raise error _
  | some value =>
      intro state final fault left result ran
      cases ran
      exact ⟨rfl, rfl⟩

theorem ensures_ofExcept (value : Except ε α) :
    (ofExcept value : Tx σ β ε α).Ensures fun state result final =>
      value = .ok result ∧ final = state := by
  cases value with
  | error error => exact ensures_raise error _
  | ok value =>
      intro state final fault left result ran
      cases ran
      exact ⟨rfl, rfl⟩

theorem ensures_require (condition : Bool) (error : ε) :
    (require condition error : Tx σ β ε PUnit).Ensures fun state _ final =>
      condition = true ∧ final = state := by
  cases condition with
  | false => exact ensures_raise error _
  | true =>
      intro state final fault left result ran
      cases ran
      exact ⟨rfl, rfl⟩

theorem ensures_boundary [DecidableEq β] (point : β) :
    (boundary point : Tx σ β ε PUnit).Ensures fun state _ final => final = state := by
  intro state final fault left result ran
  have calm := (boundary point).steady ran
  cases calm
  rfl

/-- What two programs ensure one after the other. -/
theorem Ensures.bind {later : α → σ → γ → σ → Prop} (first : program.Ensures relation)
    (second : ∀ value, (next value).Ensures (later value)) :
    (program >>= next).Ensures fun state result final =>
      ∃ value middle, relation state value middle ∧ later value middle result final := by
  intro state final fault left result ran
  obtain ⟨value, middle, rest, first_ran, second_ran⟩ := of_bind ran
  exact ⟨value, middle, first _ _ _ _ _ first_ran, second value _ _ _ _ _ second_ran⟩

/-- The part is left as the inner program leaves it, undisturbed. -/
theorem ensures_within_run {τ : Type u} (part : σ → τ) (put : σ → τ → σ) (inner : Tx τ β ε α) :
    (within part put inner).Ensures fun state result final =>
      ∃ left, inner.run (part state) none = .ok (result, left, none) ∧ final = put state left := by
  intro state final fault left result ran
  unfold within at ran
  simp only at ran
  cases inner_ran : inner.run (part state) fault with
  | error failure =>
      rw [inner_ran] at ran
      cases ran
  | ok outcome =>
      obtain ⟨value, inner_left, rest⟩ := outcome
      rw [inner_ran] at ran
      cases ran
      exact ⟨inner_left, inner.steady inner_ran, rfl⟩

theorem ensures_within {τ : Type u} (part : σ → τ) (put : σ → τ → σ) (inner : Tx τ β ε α) :
    (within part put inner).Ensures fun state _ final => ∃ left, final = put state left := by
  refine (ensures_within_run part put inner).imp ?_
  rintro state _ final ⟨left, _, same⟩
  exact ⟨left, same⟩

end Rules

section Frame

variable {δ : Type v} {view : σ → δ}

theorem Keeps.of_run (kept : program.Keeps view) {final : σ} {left : Fault β} {result : α}
    (ran : program.run state fault = .ok (result, final, left)) :
    view final = view state :=
  kept _ _ _ _ _ ran

theorem keeps_of_ensures {relation : α → Prop}
    (ensures : program.Ensures fun state result final => relation result ∧ final = state) :
    program.Keeps view :=
  ensures.imp fun _ _ _ same => by rw [same.2]

theorem keeps_give (value : α) : (give value : Tx σ β ε α).Keeps view :=
  (ensures_give value).imp fun _ _ _ same => by rw [same.2]

theorem keeps_look : (look : Tx σ β ε σ).Keeps view :=
  ensures_look.imp fun _ _ _ same => by rw [same.2]

theorem keeps_change {write : σ → σ} (same : ∀ state, view (write state) = view state) :
    (change write : Tx σ β ε PUnit).Keeps view :=
  (ensures_change write).imp fun state _ _ written => by rw [written, same]

theorem keeps_orRaise (error : ε) (value : Option α) :
    (orRaise error value : Tx σ β ε α).Keeps view :=
  keeps_of_ensures (ensures_orRaise error value)

theorem keeps_ofExcept (value : Except ε α) : (ofExcept value : Tx σ β ε α).Keeps view :=
  keeps_of_ensures (ensures_ofExcept value)

theorem keeps_require (condition : Bool) (error : ε) :
    (require condition error : Tx σ β ε PUnit).Keeps view :=
  (ensures_require condition error).imp fun _ _ _ same => by rw [same.2]

theorem keeps_boundary [DecidableEq β] (point : β) :
    (boundary point : Tx σ β ε PUnit).Keeps view :=
  (ensures_boundary point).imp fun _ _ _ same => by rw [same]

theorem keeps_within {τ : Type u} {part : σ → τ} {put : σ → τ → σ}
    (same : ∀ state left, view (put state left) = view state) (inner : Tx τ β ε α) :
    (within part put inner).Keeps view := by
  refine (ensures_within part put inner).imp ?_
  rintro state _ _ ⟨left, rfl⟩
  exact same state left

/-- A part of a view that is kept is kept. -/
theorem Keeps.part (kept : program.Keeps view) {δ' : Type v} (part : δ → δ') :
    program.Keeps fun state => part (view state) :=
  Ensures.imp kept fun _ _ _ same => congrArg part same

theorem Keeps.bind (first : program.Keeps view) (second : ∀ value, (next value).Keeps view) :
    (program >>= next).Keeps view := by
  refine (Ensures.bind first second).imp ?_
  rintro state _ _ ⟨_, middle, kept, kept_again⟩
  rw [kept_again, kept]

end Frame

section Commit

variable [DecidableEq β]

/-- What a caller gets and what the store holds afterwards. -/
structure Committed (σ β ε α : Type u) where
  answer : Except (Failure β ε) α
  state : σ

/-- The program up to its commit. -/
def sealed (before : β) (program : Tx σ β ε α) : Tx σ β ε α :=
  program >>= fun value => boundary before >>= fun _ => give value

/-- Run a program as a transaction: a failure before the commit rolls it back,
one after the commit only loses the answer. -/
def commit (before after : β) (program : Tx σ β ε α) (state : σ) (fault : Fault β) :
    Committed σ β ε α :=
  match (program.sealed before).run state fault with
  | .error failure => { answer := .error failure, state }
  | .ok (value, final, left) =>
      match (boundary after : Tx σ β ε PUnit).run final left with
      | .error failure => { answer := .error failure, state := final }
      | .ok _ => { answer := .ok value, state := final }

/-- The program gets to its commit. -/
def commits (before : β) (program : Tx σ β ε α) (state : σ) (fault : Fault β) : Bool :=
  match (program.sealed before).run state fault with
  | .error _ => false
  | .ok _ => true

/-- A transaction that commits in spite of a fault leaves what it leaves without
one. -/
theorem commit_of_commits {before : β} (after : β) (through : program.commits before state fault) :
    ∃ value final, (program.sealed before).run state none = .ok (value, final, none) ∧
      (program.commit before after state fault).state = final ∧
      program.commit before after state none = { answer := .ok value, state := final } := by
  unfold commits at through
  cases ran : (program.sealed before).run state fault with
  | error failure =>
      rw [ran] at through
      cases through
  | ok outcome =>
      obtain ⟨value, final, left⟩ := outcome
      have calm := (program.sealed before).steady ran
      refine ⟨value, final, calm, ?_, ?_⟩
      · unfold commit
        rw [ran]
        simp only
        split <;> rfl
      · unfold commit
        rw [calm]
        rfl

theorem commit_of_not_commits {before : β} (after : β)
    (cut : program.commits before state fault = false) :
    (program.commit before after state fault).state = state := by
  unfold commits at cut
  unfold commit
  split at cut
  · rename_i ran
    rw [ran]
  · cases cut

/-- A transaction leaves what it started from or what its program leaves. -/
theorem commit_state (before after : β) (program : Tx σ β ε α) (state : σ) (fault : Fault β) :
    (program.commit before after state fault).state = state ∨
      ∃ value left, (program.sealed before).run state fault =
        .ok (value, (program.commit before after state fault).state, left) := by
  unfold commit
  cases ran : (program.sealed before).run state fault with
  | error failure => exact .inl rfl
  | ok outcome =>
      obtain ⟨value, final, left⟩ := outcome
      right
      refine ⟨value, left, ?_⟩
      simp only
      split <;> rfl

/-- An answer is that of the program, and its state is left. -/
theorem sealed_of_answer {before after : β} {value : α}
    (answered : (program.commit before after state fault).answer = .ok value) :
    ∃ left, (program.sealed before).run state fault =
      .ok (value, (program.commit before after state fault).state, left) := by
  unfold commit at answered ⊢
  cases ran : (program.sealed before).run state fault with
  | error failure =>
      rw [ran] at answered
      cases answered
  | ok outcome =>
      obtain ⟨given, final, left⟩ := outcome
      rw [ran] at answered
      simp only at answered ⊢
      split at answered
      · cases answered
      · cases answered
        exact ⟨left, rfl⟩

/-- What a program ensures, it ensures up to its commit. -/
theorem Ensures.sealed {before : β} {relation : σ → α → σ → Prop}
    (ensures : program.Ensures relation) : (program.sealed before).Ensures relation := by
  refine (ensures.bind fun value =>
    (ensures_boundary before).bind fun _ => ensures_give value).imp ?_
  rintro state result final ⟨value, middle, related, _, _, rfl, rfl, rfl⟩
  exact related

end Commit

end Tx

end Zeron.Data
