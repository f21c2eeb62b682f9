import Zeron.Sessions.Journal
import Zeron.Transition.Run

/-!
# Observing a run

A runner subscribes to the events of a chat before it dispatches a run.  A receiver
that lags is replaced by a new one, and the journal is replayed from the cursor.
-/

namespace Zeron.Sessions

open Transition

universe u

variable {ε : Type u}

/-- The capacity of a chat's hub. -/
def hubCapacity : Nat := 1024

/-- A receiver of the chat's hub. -/
structure Receiver (ε : Type u) where
  queue : List (Journaled ε)
  /-- The oldest events were overwritten. -/
  lagged : Bool
  deriving DecidableEq

namespace Receiver

def new : Receiver ε where
  queue := []
  lagged := false

/-- `send`: a full channel overwrites its oldest event. -/
def push (receiver : Receiver ε) (event : Journaled ε) : Receiver ε :=
  if receiver.queue.length < hubCapacity then
    { receiver with queue := receiver.queue ++ [event] }
  else { queue := receiver.queue.tail ++ [event], lagged := true }

end Receiver

/-- The loop of `observe`. -/
structure Observer (ε : Type u) where
  sequence : Nat
  pending : List (Journaled ε)
  receiver : Receiver ε
  /-- The receiver is new, and the journal is still to be replayed. -/
  replaying : Bool
  /-- The runner does not wait for events any more. -/
  stopped : Bool
  /-- What `record_event` was given. -/
  handed : List (Journaled ε)
  deriving DecidableEq

/-- A chat whose run is observed. -/
structure Observed (ε : Type u) where
  journal : Journal ε
  /-- `publish` has appended an event and has not sent it yet. -/
  unsent : Option (Journaled ε)
  observer : Option (Observer ε)
  /-- What was sent after the observer had subscribed. -/
  sent : List (Journaled ε)
  deriving DecidableEq

inductive ObservedStep (ε : Type u) where
  /-- The first half of `publish`; one task publishes for a chat. -/
  | append (event : ε) (write : Write)
  /-- The second half of `publish`. -/
  | send
  | evict
  | subscribe
  /-- One turn of the loop in `observe`. -/
  | receive
  /-- The second half of `subscribe`, in a turn of the loop that has lagged. -/
  | replay
  /-- `observe` returns. -/
  | stop

namespace Observer

/-- An observer that has subscribed. -/
def new : Observer ε where
  sequence := 0
  pending := []
  receiver := .new
  replaying := false
  stopped := false
  handed := []

/-- An event that is not ahead of the cursor is passed over. -/
def take (observer : Observer ε) (event : Journaled ε) : Observer ε :=
  if event.seq ≤ observer.sequence then observer
  else { observer with sequence := event.seq, handed := observer.handed ++ [event] }

/-- One turn of the loop; `none` while it waits. -/
def receive (observer : Observer ε) : Option (Observer ε) :=
  if observer.stopped || observer.replaying then none
  else
    match observer.pending with
    | event :: pending => some ({ observer with pending }.take event)
    | [] =>
        if observer.receiver.lagged then
          some { observer with receiver := .new, replaying := true }
        else
          match observer.receiver.queue with
          | event :: queue =>
              some ({ observer with receiver := { observer.receiver with queue } }.take event)
          | [] => none

/-- The loop waits for the next event. -/
def waiting (observer : Observer ε) : Bool :=
  !observer.stopped && !observer.replaying && observer.pending.isEmpty &&
    !observer.receiver.lagged && observer.receiver.queue.isEmpty

end Observer

namespace Observed

/-- A chat that was never used. -/
def initial : Observed ε where
  journal := .empty
  unsent := none
  observer := none
  sent := []

def step (state : Observed ε) : ObservedStep ε → Option (Observed ε)
  | .append event write =>
      if state.unsent.isSome then none
      else
        let appended := state.journal.append event write
        some { state with
          journal := appended.1
          unsent := some { seq := appended.2, event } }
  | .send =>
      state.unsent.map fun event => { state with
        unsent := none
        observer := state.observer.map fun observer =>
          { observer with receiver := observer.receiver.push event }
        sent := if state.observer.isSome then state.sent ++ [event] else state.sent }
  | .evict => some { state with journal := state.journal.evict }
  | .subscribe =>
      if state.observer.isSome then none else some { state with observer := some .new }
  | .receive =>
      state.observer.bind fun observer => observer.receive.map fun observer =>
        { state with observer := some observer }
  | .replay =>
      state.observer.bind fun observer =>
        if observer.replaying && !observer.stopped then
          some { state with observer := some { observer with
            pending := state.journal.replay observer.sequence, replaying := false } }
        else none
  | .stop =>
      state.observer.map fun observer =>
        { state with observer := some { observer with stopped := true } }

/-- What was handed over are the events that were published since the subscription, in
their order and once each; a loop that waits has handed over all that was sent. -/
def ObservesExactly (state : Observed ε) : Prop :=
  ∀ observer, state.observer = some observer →
    observer.handed <+: state.sent ++ state.unsent.toList ∧
      (observer.waiting = true → state.sent <+: observer.handed)

/-- What a step has to meet for the observation to stay exact. -/
def Sound (state : Observed ε) : ObservedStep ε → Prop
  | .append _ write =>
      state.observer.isSome → write = .whole ∧ state.journal.readable = true
  | .subscribe => ∀ event ∈ state.unsent, event ∈ state.journal.records
  | .replay => ∀ observer ∈ state.observer, 0 < observer.sequence ∨
      ∀ record ∈ state.journal.records, record ∈ state.sent ++ state.unsent.toList
  | _ => True

/-- Where a loop stands in the events that were published since it has subscribed. -/
structure Follows (state : Observed ε) (observer : Observer ε) : Prop where
  recorded : ∃ old, state.journal.records = old ++ (state.sent ++ state.unsent.toList)
  queued : ∀ event ∈ observer.receiver.queue, event ∈ state.sent ++ state.unsent.toList
  replaying : observer.replaying = true → observer.pending = []
  reached : ∀ event ∈ observer.handed, event.seq ≤ observer.sequence
  cursor : observer.sequence = 0 ∨ ∃ event ∈ observer.handed, event.seq = observer.sequence
  position : ∃ later,
    state.sent ++ state.unsent.toList = observer.handed ++ observer.pending ++ later ∧
      (observer.receiver.lagged = false → observer.replaying = false →
        ∃ again, observer.receiver.queue ++ state.unsent.toList = again ++ later ∧
          ∀ event ∈ again, event ∈ observer.handed ++ observer.pending)

/-- The chat between two steps. -/
structure Consistent (state : Observed ε) : Prop where
  ordered : state.journal.Ordered
  latest : ∀ event ∈ state.unsent, event ∈ state.journal.records →
    ∀ record ∈ state.journal.records, record.seq ≤ event.seq
  unobserved : state.observer = none → state.sent = []
  follows : ∀ observer, state.observer = some observer → state.Follows observer

variable {state next : Observed ε} {observer : Observer ε}

/-- A loop that follows the events hands them over exactly. -/
theorem Consistent.observesExactly (consistent : state.Consistent) : state.ObservesExactly := by
  intro observer observed
  have follows := consistent.follows observer observed
  obtain ⟨later, published, queue⟩ := follows.position
  constructor
  · rw [published, List.append_assoc]
    exact List.prefix_append _ _
  · intro waiting
    unfold Observer.waiting at waiting
    simp only [Bool.and_eq_true, Bool.not_eq_true', List.isEmpty_iff] at waiting
    obtain ⟨⟨⟨⟨_, replayed⟩, none_pending⟩, current⟩, none_queued⟩ := waiting
    obtain ⟨again, rest, _⟩ := queue current replayed
    rw [none_queued, List.nil_append] at rest
    rw [none_pending, List.append_nil, rest, ← List.append_assoc] at published
    exact ⟨again, List.append_cancel_right published⟩

/-- The numbers of the events from the cursor on. -/
theorem Follows.ahead (follows : state.Follows observer) (ordered : state.journal.Ordered)
    {later : List (Journaled ε)}
    (published : state.sent ++ state.unsent.toList = observer.handed ++ later) :
    ∀ event ∈ later, observer.sequence < event.seq := by
  intro event listed
  obtain ⟨old, records⟩ := follows.recorded
  have recorded : event ∈ state.journal.records := by
    rw [records, published]
    exact List.mem_append_right _ (List.mem_append_right _ listed)
  obtain none_handed | ⟨last, last_handed, same⟩ := follows.cursor
  · rw [none_handed]
    exact ordered.positive event recorded
  · have increasing := ordered.increasing
    rw [records, published] at increasing
    rw [← same]
    exact (List.pairwise_append.mp (List.pairwise_append.mp increasing).2.1).2.2 last last_handed
      event listed

/-- The events that are replayed are those that were not handed over yet. -/
theorem Follows.replay_eq (follows : state.Follows observer) (ordered : state.journal.Ordered)
    (sound : 0 < observer.sequence ∨
      ∀ record ∈ state.journal.records, record ∈ state.sent ++ state.unsent.toList)
    {later : List (Journaled ε)}
    (published : state.sent ++ state.unsent.toList = observer.handed ++ later) :
    state.journal.replay observer.sequence = later := by
  obtain ⟨old, records⟩ := follows.recorded
  have increasing := ordered.increasing
  rw [records] at increasing
  have known : observer.sequence ≤ state.journal.lastSeq := by
    obtain none_handed | ⟨last, last_handed, same⟩ := follows.cursor
    · rw [none_handed]
      exact Nat.zero_le _
    · rw [← same]
      apply Journal.seq_le_lastSeq ordered.increasing
      rw [records, published]
      exact List.mem_append_right _ (List.mem_append_left _ last_handed)
  have passed : ∀ record ∈ old ++ observer.handed, record.seq ≤ observer.sequence := by
    intro record listed
    obtain before | handed := List.mem_append.mp listed
    · obtain some_handed | all_new := sound
      · obtain none_handed | ⟨last, last_handed, same⟩ := follows.cursor
        · omega
        · rw [← same]
          refine ((List.pairwise_append.mp increasing).2.2 record before last ?_).le
          rw [published]
          exact List.mem_append_left _ last_handed
      · have new : record ∈ state.sent ++ state.unsent.toList := by
          apply all_new
          rw [records]
          exact List.mem_append_left _ before
        exact absurd ((List.pairwise_append.mp increasing).2.2 record before record new)
          (Nat.lt_irrefl _)
    · exact follows.reached record handed
  rw [Journal.replay_of_known known, records, published, ← List.append_assoc, List.filter_append,
    List.filter_eq_nil_iff.mpr, List.filter_eq_self.mpr, List.nil_append]
  · intro record listed
    exact decide_eq_true (follows.ahead ordered published record listed)
  · intro record listed behind
    exact Nat.not_lt.mpr (passed record listed) (of_decide_eq_true behind)

theorem consistent_initial : (initial : Observed ε).Consistent where
  ordered := Journal.ordered_empty
  latest := nofun
  unobserved _ := rfl
  follows := nofun

/-! ## The publisher -/

/-- An event that was recorded is the last record. -/
theorem latest_append (ordered : state.journal.Ordered) {event : ε} {write : Write} :
    let appended := state.journal.append event write
    ({ seq := appended.2, event } : Journaled ε) ∈ appended.1.records →
      ∀ record ∈ appended.1.records, record.seq ≤ appended.2 := by
  intro appended recorded record listed
  have after := (ordered.append event write).increasing
  obtain ⟨rfl, _, records⟩ | same := state.journal.append_cases event write
  · rw [records] at listed
    obtain old | rfl := (List.mem_append.mp listed).imp_right List.mem_singleton.mp
    · exact (ordered.below record old).le
    · exact le_rfl
  · rw [same] at recorded
    cases write with
    | fails => exact absurd (ordered.positive _ recorded) (Nat.lt_irrefl 0)
    | torn => exact absurd (ordered.positive _ recorded) (Nat.lt_irrefl 0)
    | whole => exact absurd (ordered.below _ recorded) (Nat.lt_irrefl _)

theorem Consistent.append (consistent : state.Consistent) {event : ε} {write : Write}
    (sound : state.Sound (.append event write))
    (stepped : state.step (.append event write) = some next) : next.Consistent := by
  simp only [step] at stepped
  split at stepped
  · cases stepped
  · rename_i all_sent
    cases stepped
    have none_unsent : state.unsent = none := by simpa using all_sent
    refine ⟨consistent.ordered.append event write, ?_, consistent.unobserved, ?_⟩
    · intro other unsent
      cases unsent
      exact latest_append consistent.ordered
    · intro observer observed
      have follows := consistent.follows observer observed
      have watched : state.observer.isSome = true := by
        rw [observed]
        rfl
      obtain ⟨rfl, readable⟩ := sound watched
      obtain ⟨old, records⟩ := follows.recorded
      obtain ⟨later, published, queue⟩ := follows.position
      rw [none_unsent, Option.toList_none, List.append_nil] at records published
      have queued := follows.queued
      rw [none_unsent, Option.toList_none, List.append_nil] at queued
      refine ⟨⟨old, ?_⟩, fun event listed => List.mem_append_left _ (queued event listed),
        follows.replaying, follows.reached, follows.cursor, ?_⟩
      · rw [Journal.records_append_of_readable readable, records, List.append_assoc]
        rfl
      · refine ⟨later ++ [{ seq := state.journal.opened.nextSeq, event }], ?_, ?_⟩
        · rw [← List.append_assoc, ← published]
          rfl
        · intro current replayed
          obtain ⟨again, rest, handed⟩ := queue current replayed
          rw [none_unsent, Option.toList_none, List.append_nil] at rest
          refine ⟨again, ?_, handed⟩
          rw [← List.append_assoc, ← rest]
          rfl

variable {event : Journaled ε}

theorem Receiver.mem_push {receiver : Receiver ε} {other : Journaled ε}
    (listed : other ∈ (receiver.push event).queue) : other ∈ receiver.queue ∨ other = event := by
  unfold Receiver.push at listed
  split at listed
  · exact (List.mem_append.mp listed).imp_right List.mem_singleton.mp
  · exact (List.mem_append.mp listed).imp List.mem_of_mem_tail List.mem_singleton.mp

theorem Receiver.push_of_current {receiver : Receiver ε}
    (current : (receiver.push event).lagged = false) :
    receiver.lagged = false ∧ (receiver.push event).queue = receiver.queue ++ [event] := by
  unfold Receiver.push at current ⊢
  split at current
  · rename_i fits
    rw [if_pos fits]
    exact ⟨current, rfl⟩
  · cases current

theorem Consistent.send (consistent : state.Consistent)
    (stepped : state.step .send = some next) : next.Consistent := by
  obtain ⟨event, unsent, rfl⟩ := Option.map_eq_some_iff.mp stepped
  refine ⟨consistent.ordered, nofun, ?_, ?_⟩
  · intro unobserved
    have none_before : state.observer = none := Option.map_eq_none_iff.mp unobserved
    simp only [none_before]
    exact consistent.unobserved none_before
  · intro observer' observed
    obtain ⟨observer, watched, rfl⟩ := Option.map_eq_some_iff.mp observed
    have follows := consistent.follows observer watched
    have published : (if state.observer.isSome then state.sent ++ [event] else state.sent) ++
        (none : Option (Journaled ε)).toList = state.sent ++ state.unsent.toList := by
      rw [watched, unsent]
      exact List.append_nil _
    obtain ⟨old, records⟩ := follows.recorded
    obtain ⟨later, split_at, queue⟩ := follows.position
    refine ⟨⟨old, ?_⟩, ?_, follows.replaying, follows.reached, follows.cursor, later, ?_, ?_⟩
    · exact records.trans (congrArg (old ++ ·) published.symm)
    · intro other listed
      refine published ▸ ?_
      obtain before | rfl := Receiver.mem_push listed
      · exact follows.queued other before
      · rw [unsent]
        exact List.mem_concat_self
    · exact published.trans split_at
    · intro current replayed
      obtain ⟨current_before, pushed⟩ := Receiver.push_of_current current
      obtain ⟨again, rest, handed⟩ := queue current_before replayed
      refine ⟨again, ?_, handed⟩
      rw [unsent] at rest
      rw [← rest]
      exact (List.append_nil _).trans pushed

/-! ## The observer -/

/-- The last record of a journal is the one with the greatest number. -/
theorem exists_old_records {journal : Journal ε} (ordered : journal.Ordered)
    (recorded : event ∈ journal.records)
    (latest : ∀ record ∈ journal.records, record.seq ≤ event.seq) :
    ∃ old, journal.records = old ++ [event] := by
  obtain ⟨before, after, records⟩ := List.append_of_mem recorded
  cases after with
  | nil => exact ⟨before, records⟩
  | cons other after =>
      have increasing := ordered.increasing
      rw [records] at increasing latest
      have apart := (List.pairwise_cons.mp (List.pairwise_append.mp increasing).2.1).1 other
        List.mem_cons_self
      have behind := latest other (List.mem_append_right _ (List.mem_cons_of_mem _
        List.mem_cons_self))
      omega

theorem Consistent.subscribe (consistent : state.Consistent) (sound : state.Sound .subscribe)
    (stepped : state.step .subscribe = some next) : next.Consistent := by
  simp only [step] at stepped
  split at stepped
  · cases stepped
  · rename_i free
    cases stepped
    have unobserved : state.observer = none := by simpa using free
    have none_sent := consistent.unobserved unobserved
    refine ⟨consistent.ordered, consistent.latest, nofun, ?_⟩
    intro observer observed
    cases observed
    refine ⟨?_, nofun, fun _ => rfl, nofun, .inl rfl, state.unsent.toList, ?_, ?_⟩
    · rw [none_sent]
      cases unsent : state.unsent with
      | none => exact ⟨_, (List.append_nil _).symm⟩
      | some event =>
          exact exists_old_records consistent.ordered (sound event unsent)
            (consistent.latest event unsent (sound event unsent))
    · exact congrArg (· ++ state.unsent.toList) none_sent
    · exact fun _ _ => ⟨[], rfl, nofun⟩

/-- An event behind the cursor is passed over, and any other is handed over. -/
theorem Observer.take_cases (observer : Observer ε) (event : Journaled ε) :
    (event.seq ≤ observer.sequence ∧ observer.take event = observer) ∨
      observer.sequence < event.seq ∧ observer.take event =
        { observer with sequence := event.seq, handed := observer.handed ++ [event] } := by
  unfold Observer.take
  split
  · exact .inl ⟨‹_›, rfl⟩
  · exact .inr ⟨Nat.lt_of_not_le ‹_›, rfl⟩

/-- The loop after it has handed over the next event. -/
theorem Follows.handOver (follows : state.Follows observer) {observer' : Observer ε}
    (receiver : ∀ other ∈ observer'.receiver.queue, other ∈ observer.receiver.queue)
    (replaying : observer'.replaying = observer.replaying) (ahead : observer.sequence < event.seq)
    (sequence : observer'.sequence = event.seq)
    (handed : observer'.handed = observer.handed ++ [event])
    (pending : observer.replaying = true → observer'.pending = [])
    (position : ∃ later,
      state.sent ++ state.unsent.toList = observer'.handed ++ observer'.pending ++ later ∧
        (observer'.receiver.lagged = false → observer'.replaying = false →
          ∃ again, observer'.receiver.queue ++ state.unsent.toList = again ++ later ∧
            ∀ event ∈ again, event ∈ observer'.handed ++ observer'.pending)) :
    state.Follows observer' := by
  refine ⟨follows.recorded, fun other listed => follows.queued other (receiver other listed),
    fun replays => pending (replaying ▸ replays), ?_, .inr ⟨event, ?_, sequence.symm⟩, position⟩
  · intro other listed
    rw [handed] at listed
    rw [sequence]
    obtain before | rfl := (List.mem_append.mp listed).imp_right List.mem_singleton.mp
    · exact (follows.reached other before).trans ahead.le
    · exact le_rfl
  · rw [handed]
    exact List.mem_concat_self

/-- A turn of the loop that takes an event which was replayed. -/
theorem Follows.take_pending (follows : state.Follows observer) (ordered : state.journal.Ordered)
    {pending : List (Journaled ε)} (next_pending : observer.pending = event :: pending) :
    state.Follows ({ observer with pending }.take event) := by
  obtain ⟨later, published, queue⟩ := follows.position
  rw [next_pending] at published queue
  have ahead : observer.sequence < event.seq := by
    refine follows.ahead ordered (published.trans (List.append_assoc _ _ _)) event ?_
    exact List.mem_append_left _ List.mem_cons_self
  have moved : observer.handed ++ event :: pending = observer.handed ++ [event] ++ pending := by
    rw [List.append_assoc]
    rfl
  obtain ⟨behind, _⟩ | ⟨_, taken⟩ := Observer.take_cases { observer with pending } event
  · exact absurd behind (Nat.not_le.mpr ahead)
  · rw [taken]
    refine follows.handOver (fun _ => id) rfl ahead rfl rfl ?_ ⟨later, ?_, ?_⟩
    · intro replays
      have none_pending := follows.replaying replays
      rw [next_pending] at none_pending
      cases none_pending
    · exact published.trans (congrArg (· ++ later) moved)
    · intro current replayed
      obtain ⟨again, rest, handed⟩ := queue current replayed
      exact ⟨again, rest, fun other listed => moved ▸ handed other listed⟩

/-- A turn of the loop that takes an event from its receiver. -/
theorem Follows.take_queue (follows : state.Follows observer) (ordered : state.journal.Ordered)
    {queue : List (Journaled ε)} (none_pending : observer.pending = [])
    (current : observer.receiver.lagged = false) (replayed : observer.replaying = false)
    (next_queue : observer.receiver.queue = event :: queue) :
    state.Follows ({ observer with receiver := { observer.receiver with queue } }.take event) := by
  obtain ⟨later, published, waiting⟩ := follows.position
  obtain ⟨again, rest, handed⟩ := waiting current replayed
  have fewer : ∀ other ∈ queue, other ∈ observer.receiver.queue := by
    intro other listed
    rw [next_queue]
    exact List.mem_cons_of_mem _ listed
  rw [none_pending, List.append_nil] at published handed
  rw [next_queue] at rest
  have turn := Observer.take_cases { observer with receiver := { observer.receiver with queue } }
    event
  cases again with
  | cons first again =>
      obtain ⟨rfl, tail⟩ := List.cons.inj rest
      have behind := follows.reached event (handed event List.mem_cons_self)
      obtain ⟨_, taken⟩ | ⟨ahead, _⟩ := turn
      · rw [taken]
        refine ⟨follows.recorded, fun other listed => follows.queued other (fewer other listed),
          follows.replaying, follows.reached, follows.cursor, later, ?_, fun _ _ =>
            ⟨again, tail, fun other listed => List.mem_append_left _ ?_⟩⟩
        · rw [none_pending, List.append_nil]
          exact published
        · exact handed other (List.mem_cons_of_mem _ listed)
      · exact absurd behind (Nat.not_le.mpr ahead)
  | nil =>
      rw [List.nil_append] at rest
      rw [← rest] at published
      have ahead := follows.ahead ordered published event List.mem_cons_self
      obtain ⟨behind, _⟩ | ⟨_, taken⟩ := turn
      · exact absurd behind (Nat.not_le.mpr ahead)
      · rw [taken]
        refine follows.handOver fewer rfl ahead rfl rfl follows.replaying
          ⟨queue ++ state.unsent.toList, ?_, fun _ _ => ⟨[], rfl, nofun⟩⟩
        rw [none_pending, List.append_nil, published, List.append_assoc]
        rfl

theorem Consistent.receive (consistent : state.Consistent)
    (stepped : state.step .receive = some next) : next.Consistent := by
  simp only [step, Option.bind_eq_some_iff, Option.map_eq_some_iff] at stepped
  obtain ⟨observer, observed, turned, received, rfl⟩ := stepped
  have follows := consistent.follows observer observed
  refine ⟨consistent.ordered, consistent.latest, nofun, ?_⟩
  intro other same
  cases same
  suffices after : state.Follows turned from
    ⟨after.recorded, after.queued, after.replaying, after.reached, after.cursor, after.position⟩
  unfold Observer.receive at received
  split at received
  · cases received
  · rename_i running
    have replayed : observer.replaying = false := by
      simp only [Bool.or_eq_true, not_or, Bool.not_eq_true] at running
      exact running.2
    split at received
    · rename_i event pending next_pending
      cases received
      exact follows.take_pending consistent.ordered next_pending
    · rename_i none_pending
      split at received
      · cases received
        obtain ⟨later, published, _⟩ := follows.position
        exact ⟨follows.recorded, nofun, fun _ => none_pending, follows.reached, follows.cursor,
          later, published, nofun⟩
      · rename_i current
        split at received
        · rename_i event queue next_queue
          cases received
          exact follows.take_queue consistent.ordered none_pending (by simpa using current)
            replayed next_queue
        · cases received

theorem Consistent.replay (consistent : state.Consistent) (sound : state.Sound .replay)
    (stepped : state.step .replay = some next) : next.Consistent := by
  simp only [step, Option.bind_eq_some_iff] at stepped
  obtain ⟨observer, observed, stepped⟩ := stepped
  split at stepped
  · rename_i replays
    simp only [Bool.and_eq_true] at replays
    cases stepped
    have follows := consistent.follows observer observed
    refine ⟨consistent.ordered, consistent.latest, nofun, ?_⟩
    intro other same
    cases same
    obtain ⟨later, published, _⟩ := follows.position
    rw [follows.replaying replays.1, List.append_nil] at published
    have replayed := follows.replay_eq consistent.ordered (sound observer observed) published
    refine ⟨follows.recorded, follows.queued, nofun, follows.reached, follows.cursor, [], ?_, ?_⟩
    · rw [replayed, List.append_nil]
      exact published
    · intro _ _
      refine ⟨observer.receiver.queue ++ state.unsent.toList, (List.append_nil _).symm, ?_⟩
      intro event listed
      rw [replayed, ← published]
      obtain queued | unsent := List.mem_append.mp listed
      · exact follows.queued event queued
      · exact List.mem_append_right _ unsent
  · cases stepped

/-- Every sound step keeps the observation where it is. -/
theorem Consistent.step (consistent : state.Consistent) {event : ObservedStep ε}
    (sound : state.Sound event) (stepped : state.step event = some next) : next.Consistent := by
  cases event with
  | append event write => exact consistent.append sound stepped
  | send => exact consistent.send stepped
  | evict =>
      cases stepped
      exact ⟨consistent.ordered.evict, consistent.latest, consistent.unobserved,
        fun observer observed =>
          let follows := consistent.follows observer observed
          ⟨follows.recorded, follows.queued, follows.replaying, follows.reached, follows.cursor,
            follows.position⟩⟩
  | subscribe => exact consistent.subscribe sound stepped
  | receive => exact consistent.receive stepped
  | replay => exact consistent.replay sound stepped
  | stop =>
      obtain ⟨observer, observed, rfl⟩ := Option.map_eq_some_iff.mp stepped
      refine ⟨consistent.ordered, consistent.latest, nofun, ?_⟩
      intro other same
      cases same
      have follows := consistent.follows observer observed
      exact ⟨follows.recorded, follows.queued, follows.replaying, follows.reached,
        follows.cursor, follows.position⟩

/-- In every run whose appends since the subscription are recorded, and in which no
replay reaches behind the subscription, the observation is exact in every state. -/
theorem observation_is_exact {events : List (ObservedStep ε)}
    (sound : EveryStep step Sound (initial : Observed ε) events) :
    EveryState step ObservesExactly (initial : Observed ε) events :=
  everyState_of_everyStep (fun consistent => Consistent.step consistent)
    Consistent.observesExactly consistent_initial sound

instance [DecidableEq ε] (state : Observed ε) :
    (event : ObservedStep ε) → Decidable (state.Sound event)
  | .append _ _ => inferInstanceAs (Decidable (_ → _ ∧ _))
  | .subscribe => inferInstanceAs (Decidable (∀ event ∈ state.unsent, _))
  | .replay => inferInstanceAs (Decidable (∀ observer ∈ state.observer, _))
  | .send => .isTrue trivial
  | .evict => .isTrue trivial
  | .receive => .isTrue trivial
  | .stop => .isTrue trivial

/-- An event of an earlier run, and two of the run that is observed. -/
def secondTurn : List (ObservedStep Nat) := [
  .append 0 .whole, .send, .subscribe, .append 1 .whole, .send, .receive, .append 2 .whole,
  .send, .receive]

theorem observation_is_exact_of_second_turn :
    EveryState step ObservesExactly (initial : Observed Nat) secondTurn :=
  observation_is_exact
    (everyStep_of_checkSteps (fun state event => decide (state.Sound event))
      (fun _ _ checked => of_decide_eq_true checked) (by decide +kernel))

/-- An event whose append fails is sent with the number 0, and is passed over. -/
theorem unrecorded_event_is_lost :
    ¬ EveryState step ObservesExactly (initial : Observed Nat)
      [.subscribe, .append 0 .fails, .send, .receive] := by
  intro every
  let last := (run step (initial : Observed Nat)
    [.subscribe, .append 0 .fails, .send, .receive]).getD initial
  have ran : run step (initial : Observed Nat)
      [.subscribe, .append 0 .fails, .send, .receive] = some last := by decide +kernel
  have handed_all := ((every.final ran) { Observer.new with handed := [] } (by decide +kernel)).2
  exact absurd (handed_all rfl) (by decide +kernel)

end Observed

end Zeron.Sessions
