import Zeron.Threads.Rows

/-!
# What a plan writes

The rows that the events of a plan bring to each table, and what the tables are once
the plan is applied.
-/

namespace Zeron.Threads

open Data

namespace Event

def run? : Event → Option Run
  | .runCreated run | .runUpdated run => some run
  | _ => none

def attempt? : Event → Option Attempt
  | .attemptUpdated attempt => some attempt
  | _ => none

def node? : Event → Option Node
  | .nodeUpdated node => some node
  | _ => none

def message? : Event → Option Message
  | .messageUpdated message => some message
  | _ => none

def providerThread? : Event → Option ProviderThread
  | .providerThreadUpdated provider => some provider
  | _ => none

def thread? : Event → Option AppThread
  | Event.thread row => some row
  | _ => none

/-- The event brings the roster of a run alone. -/
def bringsRoster : Event → Bool
  | .runBackgroundWorkCancelled _ _ => true
  | _ => false

end Event

namespace ThreadProjection

variable {p q : ThreadProjection} {now : Int} {event : Event} {events : List Event}

/-- What events do to a table, one after the other. -/
theorem read_applyAll {ρ κ : Type} [DecidableEq κ] {key : ρ → κ}
    (read : ThreadProjection → Table key) (written : Event → Option ρ)
    (step : ∀ p event next, p.apply now event = some next →
      read next = (read p).touchAll (written event).toList)
    (applied : p.applyAll now events = some q) :
    read q = (read p).touchAll (events.filterMap written) := by
  induction events generalizing p with
  | nil =>
      cases applied
      rfl
  | cons event events ih =>
      rcases Option.bind_eq_some_iff.mp applied with ⟨middle, first, rest⟩
      rw [ih rest, step p event middle first, ← Table.touchAll_append]
      congr 1
      rw [List.filterMap_cons]
      cases written event <;> rfl

/-- The tables other than the runs', after one event. -/
theorem tables_of_apply {next : ThreadProjection} (applied : p.apply now event = some next) :
    next.attempts = p.attempts.touchAll event.attempt?.toList ∧
      next.nodes = p.nodes.touchAll event.node?.toList ∧
      next.messages = p.messages.touchAll event.message?.toList ∧
      next.providerThreads = p.providerThreads.touchAll event.providerThread?.toList := by
  cases event
  case runBackgroundWorkCancelled runId work =>
    rcases Option.map_eq_some_iff.mp applied with ⟨run, _, rfl⟩
    exact ⟨rfl, rfl, rfl, rfl⟩
  case providerThreadUpdated provider =>
    cases applied
    rw [bind]
    split <;> exact ⟨rfl, rfl, rfl, rfl⟩
  all_goals
    cases applied
    exact ⟨rfl, rfl, rfl, rfl⟩

section

variable (applied : p.applyAll now events = some q)
include applied

theorem attempts_of_applyAll : q.attempts = p.attempts.touchAll (events.filterMap Event.attempt?) :=
  read_applyAll ThreadProjection.attempts Event.attempt?
    (fun _ _ _ first => (tables_of_apply first).1) applied

theorem nodes_of_applyAll : q.nodes = p.nodes.touchAll (events.filterMap Event.node?) :=
  read_applyAll ThreadProjection.nodes Event.node?
    (fun _ _ _ first => (tables_of_apply first).2.1) applied

theorem messages_of_applyAll : q.messages = p.messages.touchAll (events.filterMap Event.message?) :=
  read_applyAll ThreadProjection.messages Event.message?
    (fun _ _ _ first => (tables_of_apply first).2.2.1) applied

theorem providerThreads_of_applyAll :
    q.providerThreads = p.providerThreads.touchAll (events.filterMap Event.providerThread?) :=
  read_applyAll ThreadProjection.providerThreads Event.providerThread?
    (fun _ _ _ first => (tables_of_apply first).2.2.2) applied

end

/-- A plan without rosters is applied to its end. -/
theorem isSome_applyAll (p : ThreadProjection) (now : Int)
    (rows : ∀ event ∈ events, event.bringsRoster = false) :
    ∃ q, p.applyAll now events = some q := by
  induction events generalizing p with
  | nil => exact ⟨p, rfl⟩
  | cons event events ih =>
      have first : ∃ middle, p.apply now event = some middle := by
        have plain := rows event List.mem_cons_self
        cases event
        case runBackgroundWorkCancelled runId work => cases plain
        all_goals exact ⟨_, rfl⟩
      rcases first with ⟨middle, first⟩
      rcases ih middle fun other listed => rows other (List.mem_cons_of_mem _ listed) with
        ⟨q, rest⟩
      exact ⟨q, by rw [applyAll, first, Option.bind_some, rest]⟩

/-- What no thread and no binding of a plan changes stays as it is. -/
theorem thread_of_applyAll {α : Type} (read : AppThread → α) (value : α)
    (untimed : ∀ thread now, read { thread with updatedAt := now } = read thread)
    (threads : ∀ event ∈ events, ∀ thread ∈ event.thread?, read thread = value)
    (bindings : ∀ event ∈ events, ∀ provider ∈ event.providerThread?,
      provider.placeholder = false → ∀ thread, read thread = value →
        provider.appThreadId = some thread.id →
          read { thread with activeProviderThreadId := some provider.id } = value)
    (applied : p.applyAll now events = some q) (same : read p.thread = value) :
    read q.thread = value := by
  induction events generalizing p with
  | nil =>
      cases applied
      exact same
  | cons event events ih =>
      rcases Option.bind_eq_some_iff.mp applied with ⟨middle, step, rest⟩
      apply ih (fun other listed => threads other (List.mem_cons_of_mem _ listed))
        (fun other listed => bindings other (List.mem_cons_of_mem _ listed)) rest
      have told := threads event List.mem_cons_self
      have bound := bindings event List.mem_cons_self
      cases event
      case thread thread =>
        cases step
        exact told thread rfl
      case runBackgroundWorkCancelled runId work =>
        rcases Option.map_eq_some_iff.mp step with ⟨run, _, rfl⟩
        exact (untimed _ _).trans same
      case providerThreadUpdated provider =>
        cases step
        refine (untimed _ _).trans ?_
        rw [bind]
        split
        · rename_i becomes
          exact bound provider rfl becomes.2 p.thread same becomes.1
        · exact same
      all_goals
        cases step
        exact (untimed _ _).trans same

/-- The runs that a plan brings, each once and as it is recorded. -/
structure Records (p : ThreadProjection) (runs : List Run) : Prop where
  distinct : (runs.map Run.id).Nodup
  recorded : ∀ run ∈ runs, run.preserving (p.runs.get run.id) = run

theorem runs_of_applyAll (records : p.Records (events.filterMap Event.run?))
    (rows : ∀ event ∈ events, event.bringsRoster = false)
    (applied : p.applyAll now events = some q) :
    q.runs = p.runs.touchAll (events.filterMap Event.run?) := by
  rcases records with ⟨distinct, recorded⟩
  induction events generalizing p with
  | nil =>
      cases applied
      rfl
  | cons event events ih =>
      rcases Option.bind_eq_some_iff.mp applied with ⟨middle, step, rest⟩
      have rows_rest : ∀ other ∈ events, other.bringsRoster = false := fun other listed =>
        rows other (List.mem_cons_of_mem _ listed)
      cases brought : event.run? with
      | none =>
          rw [List.filterMap_cons_none brought] at distinct recorded ⊢
          have same : middle.runs = p.runs := by
            cases event
            case runCreated run => cases brought
            case runUpdated run => cases brought
            case runBackgroundWorkCancelled runId work => cases rows _ List.mem_cons_self
            case providerThreadUpdated provider =>
              cases step
              rw [bind]
              split <;> rfl
            all_goals
              cases step
              rfl
          rw [ih rows_rest rest distinct (by rwa [same]), same]
      | some run =>
          rw [List.filterMap_cons_some brought] at distinct recorded ⊢
          rw [List.map_cons, List.nodup_cons] at distinct
          have same : middle.runs = p.runs.touch run := by
            have kept := recorded run List.mem_cons_self
            cases event <;> cases brought <;> cases step <;>
              exact congrArg p.runs.touch kept
          rw [Table.touchAll_cons, ← same]
          apply ih rows_rest rest distinct.2
          intro other listed
          rw [same, Table.get_touch, if_neg]
          · exact recorded other (List.mem_cons_of_mem _ listed)
          · intro taken
            exact distinct.1 (taken ▸ List.mem_map_of_mem listed)

end ThreadProjection

end Zeron.Threads
