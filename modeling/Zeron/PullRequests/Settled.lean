import Zeron.PullRequests.Planner
import Zeron.Transition.Run

/-!
# Settling is safe

A sweep examines a thread and then settles it with an operation that is planned again in
the state in which it is committed.  What the thread has been doing meanwhile decides.
-/

namespace Zeron.PullRequests

open Transition

variable {ended : List Ended}

/-! ## The latest end -/

theorem latestOf_eq_none : latestOf ended = none ↔ ended = [] := by
  cases ended <;> simp [latestOf]

theorem foldl_latest (ended : List Ended) (first : Ended) :
    (∀ other ∈ first :: ended,
        other.2 ≤ (ended.foldl (fun best next => if best.2 ≤ next.2 then next else best) first).2) ∧
      ended.foldl (fun best next => if best.2 ≤ next.2 then next else best) first ∈
        first :: ended := by
  induction ended generalizing first with
  | nil => simp
  | cons next rest ih =>
      simp only [List.foldl_cons]
      by_cases later : first.2 ≤ next.2
      · rw [if_pos later]
        obtain ⟨most, among⟩ := ih next
        refine ⟨fun other listed => ?_, List.mem_cons_of_mem _ among⟩
        obtain rfl | listed := List.mem_cons.mp listed
        · exact later.trans (most next List.mem_cons_self)
        · exact most other listed
      · rw [if_neg later]
        obtain ⟨most, among⟩ := ih first
        refine ⟨fun other listed => ?_, ?_⟩
        · obtain rfl | listed := List.mem_cons.mp listed
          · exact most other List.mem_cons_self
          obtain rfl | listed := List.mem_cons.mp listed
          · exact (le_of_not_ge later).trans (most first List.mem_cons_self)
          · exact most other (List.mem_cons_of_mem _ listed)
        · obtain same | listed := List.mem_cons.mp among
          · exact List.mem_cons.mpr (Or.inl same)
          · exact List.mem_cons_of_mem _ (List.mem_cons_of_mem _ listed)

/-- The latest end is one of them, and none is later. -/
theorem latestOf_spec {latest : Ended} (found : latestOf ended = some latest) :
    latest ∈ ended ∧ ∀ other ∈ ended, other.2 ≤ latest.2 := by
  cases ended with
  | nil => cases found
  | cons first rest =>
      cases found
      exact (foldl_latest rest first).symm

/-- Of the latest ones, the last one counts. -/
theorem latestOf_concat {latest : Ended} (most : ∀ other ∈ ended, other.2 ≤ latest.2) :
    latestOf (ended ++ [latest]) = some latest := by
  cases ended with
  | nil => rfl
  | cons first rest =>
      simp only [List.cons_append, latestOf, List.foldl_append, List.foldl_cons, List.foldl_nil]
      rw [if_pos (most _ (foldl_latest rest first).2)]

/-! ## One decision -/

variable {c : Candidate} {links other : List ThreadPullRequestLink} {now : Int} {autoMerge : Bool}
  {afterDays : Option Int}

/-- The ends of the links that can be seen. -/
def endsOf (links : List ThreadPullRequestLink) : List Ended :=
  (links.filter fun link => link.visible).filterMap fun link =>
    link.snapshot.map fun snapshot => snapshot.ended

/-- A link that can be seen is open or has never been synced. -/
def someOpen (links : List ThreadPullRequestLink) : Bool :=
  links.any fun link =>
    link.visible && link.snapshot.all fun snapshot => decide (snapshot.state = .opened)

theorem resolve_eq (c : Candidate) (links : List ThreadPullRequestLink) (now : Int)
    (autoMerge : Bool) (afterDays : Option Int) :
    resolve c links now autoMerge afterDays =
      if someOpen links then none
      else if eligible c now then
        (anchor c).bind fun since =>
          settleBy c now autoMerge afterDays since (latestOf (endsOf links))
      else none := by
  simp only [resolve, List.any_filter]
  rfl

theorem someOpen_eq_of_perm (same : other.Perm links) : someOpen other = someOpen links := by
  rw [Bool.eq_iff_iff, someOpen, someOpen, List.any_eq_true, List.any_eq_true]
  simp only [same.mem_iff]

theorem perm_endsOf (same : other.Perm links) : (endsOf other).Perm (endsOf links) :=
  (same.filter _).filterMap _

theorem endsOf_append (first second : List ThreadPullRequestLink) :
    endsOf (first ++ second) = endsOf first ++ endsOf second := by
  simp [endsOf]

theorem mem_endsOf {ended : Ended} : ended ∈ endsOf links ↔
    ∃ link ∈ links, link.visible = true ∧
      ∃ snapshot, link.snapshot = some snapshot ∧ snapshot.ended = ended := by
  simp only [endsOf, List.mem_filterMap, List.mem_filter, Option.map_eq_some_iff, and_assoc]

theorem ended_of_not_someOpen {ended : Ended} (settled : someOpen links = false)
    (listed : ended ∈ endsOf links) : ended.1 = .closed ∨ ended.1 = .merged := by
  obtain ⟨link, there, seen, snapshot, found, rfl⟩ := mem_endsOf.mp listed
  have terminal := List.any_eq_false.mp settled link there
  simp only [seen, found, Option.all_some, Bool.true_and, decide_eq_true_eq] at terminal
  change snapshot.state = .closed ∨ snapshot.state = .merged
  cases state : snapshot.state with
  | opened => exact absurd state terminal
  | closed => exact Or.inl rfl
  | merged => exact Or.inr rfl

/-- Every end may be the one that counts, if none is later. -/
theorem exists_perm_latest {ended : Ended} (listed : ended ∈ endsOf links)
    (most : ∀ other ∈ endsOf links, other.2 ≤ ended.2) :
    ∃ other, other.Perm links ∧ latestOf (endsOf other) = some ended := by
  obtain ⟨link, there, seen, snapshot, found, rfl⟩ := mem_endsOf.mp listed
  have last : endsOf [link] = [snapshot.ended] := by
    simp [endsOf, seen, found]
  refine ⟨links.erase link ++ [link],
    (List.perm_append_singleton _ _).trans (List.perm_cons_erase there).symm, ?_⟩
  rw [endsOf_append, last]
  refine latestOf_concat fun other before => most other ?_
  exact (((List.erase_sublist (a := link)).filter _).filterMap _).subset before

/-- A closed and a merged pull request are both the latest, merging alone does not settle
the thread, and closing does. -/
def Contested (c : Candidate) (links : List ThreadPullRequestLink) (now : Int) (autoMerge : Bool)
    (afterDays : Option Int) : Prop :=
  someOpen links = false ∧ eligible c now = true ∧ autoMerge = false ∧
    (activity c).or c.createdAt ≠ inactiveSince c now afterDays ∧
    ∃ time : Int, (∃ since, anchor c = some since ∧ since ≤ time) ∧
      (.closed, some time) ∈ endsOf links ∧ (.merged, some time) ∈ endsOf links ∧
      ∀ other ∈ endsOf links, other.2 ≤ (time : WithBot Int)

variable {since : Int}

theorem settleBy_closed {time : Int} (after : since ≤ time) :
    settleBy c now autoMerge afterDays since (some (.closed, some time)) =
      (activity c).or c.createdAt :=
  if_pos ⟨after, Or.inl rfl⟩

theorem settleBy_merged {time : Int} :
    settleBy c now false afterDays since (some (.merged, some time)) =
      inactiveSince c now afterDays :=
  if_neg fun settles => by
    obtain ⟨-, closed | ⟨-, merges⟩⟩ := settles
    · cases closed
    · cases merges

/-- Which end counts makes no difference unless the thread is contested. -/
theorem settleBy_latest_congr (decided : ¬ Contested c links now autoMerge afterDays)
    (settled : someOpen links = false) (rests : eligible c now = true)
    (touched : anchor c = some since) {first second : Ended} (first_listed : first ∈ endsOf links)
    (second_listed : second ∈ endsOf links)
    (first_most : ∀ other ∈ endsOf links, other.2 ≤ first.2)
    (second_most : ∀ other ∈ endsOf links, other.2 ≤ second.2) :
    settleBy c now autoMerge afterDays since (some first) =
      settleBy c now autoMerge afterDays since (some second) := by
  have times : first.2 = second.2 :=
    le_antisymm (second_most first first_listed) (first_most second second_listed)
  obtain ⟨first_state, time⟩ := first
  obtain ⟨second_state, second_time⟩ := second
  obtain rfl : time = second_time := times
  cases time with
  | bot => rfl
  | coe time =>
      by_cases after : since ≤ time
      · have agree : (.closed, (time : WithBot Int)) ∈ endsOf links →
            (.merged, (time : WithBot Int)) ∈ endsOf links → autoMerge = false →
              (activity c).or c.createdAt = inactiveSince c now afterDays := by
          intro closed merged off
          by_contra differ
          exact decided ⟨settled, rests, off, differ, time, ⟨since, touched, after⟩, closed, merged,
            first_most⟩
        cases autoMerge with
        | true =>
            have settles : ∀ {state : PullRequestState}, state = .closed ∨ state = .merged →
                settleBy c now true afterDays since (some (state, some time)) =
                  (activity c).or c.createdAt := by
              rintro state (rfl | rfl)
              · exact settleBy_closed after
              · exact if_pos ⟨after, Or.inr ⟨rfl, rfl⟩⟩
            exact (settles (ended_of_not_someOpen settled first_listed)).trans
              (settles (ended_of_not_someOpen settled second_listed)).symm
        | false =>
            obtain rfl | rfl : first_state = .closed ∨ first_state = .merged :=
              ended_of_not_someOpen settled first_listed
            · obtain rfl | rfl : second_state = .closed ∨ second_state = .merged :=
                ended_of_not_someOpen settled second_listed
              · rfl
              · exact (settleBy_closed after).trans
                  ((agree first_listed second_listed rfl).trans settleBy_merged.symm)
            · obtain rfl | rfl : second_state = .closed ∨ second_state = .merged :=
                ended_of_not_someOpen settled second_listed
              · exact settleBy_merged.trans
                  ((agree second_listed first_listed rfl).symm.trans
                    (settleBy_closed after).symm)
              · rfl
      · have early : ∀ state, settleBy c now autoMerge afterDays since (some (state, some time)) =
            inactiveSince c now afterDays := fun state => if_neg fun settles => after settles.1
        exact (early first_state).trans (early second_state).symm

/-- The order of the links makes no difference exactly if the thread is not contested. -/
theorem resolve_perm_iff (c : Candidate) (links : List ThreadPullRequestLink) (now : Int)
    (autoMerge : Bool) (afterDays : Option Int) :
    (∀ other : List ThreadPullRequestLink, other.Perm links →
        resolve c other now autoMerge afterDays = resolve c links now autoMerge afterDays) ↔
      ¬ Contested c links now autoMerge afterDays := by
  constructor
  · rintro same ⟨settled, rests, rfl, differ, time, ⟨since, touched, after⟩, closed, merged, most⟩
    obtain ⟨first, first_perm, first_latest⟩ := exists_perm_latest closed most
    obtain ⟨second, second_perm, second_latest⟩ := exists_perm_latest merged most
    have answers : ∀ {other : List ThreadPullRequestLink}, other.Perm links →
        resolve c other now false afterDays =
          settleBy c now false afterDays since (latestOf (endsOf other)) := by
      intro other perm
      rw [resolve_eq, someOpen_eq_of_perm perm, settled, rests, touched]
      rfl
    refine differ ?_
    calc (activity c).or c.createdAt
        = resolve c first now false afterDays := by
          rw [answers first_perm, first_latest]
          exact (settleBy_closed after).symm
      _ = resolve c second now false afterDays := (same first first_perm).trans
          (same second second_perm).symm
      _ = inactiveSince c now afterDays := by
          rw [answers second_perm, second_latest]
          exact settleBy_merged
  · intro decided other perm
    rw [resolve_eq, resolve_eq, someOpen_eq_of_perm perm]
    cases settled : someOpen links with
    | true => rfl
    | false =>
        cases rests : eligible c now with
        | false => rfl
        | true =>
            cases touched : anchor c with
            | none => rfl
            | some since =>
                have ends := perm_endsOf perm
                cases first : latestOf (endsOf other) with
                | none =>
                    rw [latestOf_eq_none] at first
                    rw [first] at ends
                    rw [List.nil_perm.mp ends]
                    rfl
                | some latest =>
                    cases second : latestOf (endsOf links) with
                    | none =>
                        rw [latestOf_eq_none.mp second] at ends
                        rw [List.perm_nil.mp ends] at first
                        cases first
                    | some other_latest =>
                        obtain ⟨listed, most⟩ := latestOf_spec first
                        obtain ⟨other_listed, other_most⟩ := latestOf_spec second
                        exact settleBy_latest_congr decided settled rests touched
                          (ends.mem_iff.mp listed) other_listed
                          (fun ended there => most ended (ends.mem_iff.mpr there)) other_most

/-! ## What a settled thread is like -/

/-- Nothing in the thread is going on. -/
structure AtRest (projection : ThreadProjection) : Prop where
  runs : ∀ run ∈ projection.runs, run.status.terminal = true ∨ run.status = .queued
  requests : ∀ pending ∈ projection.pendingRequests, pending = false
  background : ∀ tasks ∈ projection.backgroundTasks, tasks = []
  subagents : ∀ status ∈ projection.subagents, status.terminal = true
  unpinned : projection.thread.pinnedAt = none
  unarchived : projection.thread.archivedAt = none ∧ projection.thread.deletedAt = none
  unset : projection.thread.settledOverride = none
  optedIn : projection.thread.autoSettleDisabledAt = none

/-- The times at which a user or the last run has done something. -/
def touchedAt (projection : ThreadProjection) (time : Int) : Prop :=
  (∃ message ∈ projection.messages, message.user = true ∧ message.notification = false ∧
      message.createdAt = some time) ∨
    ∃ run, projection.runs.getLast? = some run ∧ run.requestedAt = some time

def activeAt (projection : ThreadProjection) (time : Int) : Prop :=
  touchedAt projection time ∨
    ∃ run, projection.runs.getLast? = some run ∧
      (run.startedAt = some time ∨ run.completedAt = some time)

/-- The last pull request was closed, or merged with auto-merge on, and no user has
touched the thread since. -/
def EndedBy (projection : ThreadProjection) (links : List ThreadPullRequestLink)
    (autoMerge : Bool) : Prop :=
  ∃ link ∈ links, link.visible = true ∧ ∃ snapshot, link.snapshot = some snapshot ∧
    ∃ time, snapshot.endedAt = some time ∧
      (snapshot.state = .closed ∨ snapshot.state = .merged ∧ autoMerge = true) ∧
      (∀ touched, touchedAt projection touched → touched ≤ time) ∧
      ∀ other ∈ links, other.visible = true → ∀ otherSnapshot, other.snapshot = some otherSnapshot →
        ∀ otherTime, otherSnapshot.endedAt = some otherTime → otherTime ≤ time

/-- Nobody has touched the thread for longer than the days. -/
def InactiveFor (projection : ThreadProjection) (now : Int) (afterDays : Option Int) : Prop :=
  ∃ days, afterDays = some days ∧ (∃ time, activeAt projection time) ∧
    ∀ time, activeAt projection time → time < now - days * 86400000

/-- The thread may settle. -/
structure MaySettle (projection : ThreadProjection) (links : List ThreadPullRequestLink)
    (now : Int) (autoMerge : Bool) (afterDays : Option Int) : Prop extends AtRest projection where
  ended : ∀ link ∈ links, link.visible = true →
    ∃ snapshot, link.snapshot = some snapshot ∧ snapshot.state ≠ .opened
  cause : EndedBy projection links autoMerge ∨ InactiveFor projection now afterDays

variable {projection : ThreadProjection}

variable {latest : Int}

theorem latestTime_spec {times : List (Option Int)} (found : latestTime times = some latest) :
    some latest ∈ times ∧ ∀ time, some time ∈ times → time ≤ latest := by
  obtain ⟨listed, most⟩ := List.max?_eq_some_iff.mp found
  refine ⟨by simpa using listed, fun time there => most time ?_⟩
  simpa using there

variable {time : Int}

theorem exists_latestTime {times : List (Option Int)} (there : some time ∈ times) :
    ∃ latest, latestTime times = some latest ∧ time ≤ latest := by
  cases found : latestTime times with
  | none =>
      have empty := List.max?_eq_none_iff.mp found
      have listed : time ∈ times.filterMap id := by simpa using there
      rw [empty] at listed
      cases listed
  | some latest => exact ⟨latest, rfl, (latestTime_spec found).2 time there⟩

theorem userAt_spec (found : (candidate projection).userAt = some time) :
    touchedAt projection time := by
  obtain ⟨message, listed, same⟩ := List.mem_map.mp (latestTime_spec found).1
  obtain ⟨there, sent⟩ := List.mem_filter.mp listed
  simp only [Bool.and_eq_true, Bool.not_eq_true'] at sent
  exact Or.inl ⟨message, there, sent.1, sent.2, same⟩

theorem le_userAt {message : Message} (listed : message ∈ projection.messages)
    (user : message.user = true) (notification : message.notification = false)
    (created : message.createdAt = some time) :
    ∃ latest, (candidate projection).userAt = some latest ∧ time ≤ latest :=
  exists_latestTime (List.mem_map.mpr
    ⟨message, List.mem_filter.mpr ⟨listed, by simp [user, notification]⟩, created⟩)

/-- The anchor is not before what a user has done. -/
theorem touchedAt_le_anchor (found : anchor (candidate projection) = some since)
    (touched : touchedAt projection time) : time ≤ since := by
  obtain ⟨message, listed, user, notification, created⟩ | ⟨run, last, requested⟩ := touched
  · obtain ⟨latest, sent, before⟩ := le_userAt listed user notification created
    exact before.trans ((latestTime_spec found).2 latest (by simp [sent]))
  · refine (latestTime_spec found).2 time ?_
    simp [candidate, last, requested]

theorem activeAt_le_activity (found : activity (candidate projection) = some latest)
    (active : activeAt projection time) : time ≤ latest := by
  obtain (⟨message, listed, user, notification, created⟩ | ⟨run, last, requested⟩) |
    ⟨run, last, started | completed⟩ := active
  · obtain ⟨newest, sent, before⟩ := le_userAt listed user notification created
    exact before.trans ((latestTime_spec found).2 newest (by simp [sent]))
  · exact (latestTime_spec found).2 time (by simp [candidate, last, requested])
  · exact (latestTime_spec found).2 time (by simp [candidate, last, started])
  · exact (latestTime_spec found).2 time (by simp [candidate, last, completed])

theorem activeAt_activity (found : activity (candidate projection) = some latest) :
    activeAt projection latest := by
  have listed := (latestTime_spec found).1
  simp only [List.mem_cons, List.not_mem_nil, or_false] at listed
  obtain sent | requested | started | completed := listed
  · exact Or.inl (userAt_spec sent.symm)
  · obtain ⟨run, last, requested⟩ := Option.bind_eq_some_iff.mp requested.symm
    exact Or.inl (Or.inr ⟨run, last, requested⟩)
  · obtain ⟨run, last, started⟩ := Option.bind_eq_some_iff.mp started.symm
    exact Or.inr ⟨run, last, Or.inl started⟩
  · obtain ⟨run, last, completed⟩ := Option.bind_eq_some_iff.mp completed.symm
    exact Or.inr ⟨run, last, Or.inr completed⟩

theorem atRest_of_eligible (rests : eligible (candidate projection) now = true) :
    AtRest projection := by
  have calm : ((candidate projection).archived || (candidate projection).overridePresent ||
      (candidate projection).pinned || (candidate projection).autoDisabled ||
      (candidate projection).pendingRequest || (candidate projection).active ||
      (candidate projection).background || queuedStart (candidate projection) now) = false := by
    by_contra busy
    rw [Bool.not_eq_false] at busy
    rw [eligible, if_pos busy] at rests
    cases rests
  simp only [Bool.or_eq_false_iff] at calm
  obtain ⟨⟨⟨⟨⟨⟨⟨archived, unset⟩, pinned⟩, optedIn⟩, requests⟩, active⟩, background⟩, -⟩ := calm
  simp only [candidate, Bool.or_eq_false_iff, List.any_eq_false, Option.isSome_eq_false_iff,
    Option.isNone_iff_eq_none, hasActiveRun] at archived unset pinned optedIn requests active background
  exact
    { runs := fun run listed => by
        have idle := active run listed
        simp only [Bool.and_eq_true, Bool.not_eq_true', decide_eq_true_eq, not_and, not_not] at idle
        cases status : run.status.terminal with
        | true => exact Or.inl rfl
        | false => exact Or.inr (idle status)
      requests := fun pending listed => by simpa using requests pending listed
      background := fun tasks listed => by simpa using background.1 tasks listed
      subagents := fun status listed => by simpa using background.2 status listed
      unpinned := pinned
      unarchived := archived
      unset := unset
      optedIn := optedIn }

theorem inactiveFor_of_inactiveSince
    (found : inactiveSince (candidate projection) now afterDays = some time) :
    InactiveFor projection now afterDays := by
  obtain ⟨latest, long⟩ := Option.filter_eq_some_iff.mp found
  cases afterDays with
  | none => cases long
  | some days =>
      exact ⟨days, rfl, ⟨time, activeAt_activity latest⟩, fun other active =>
        (activeAt_le_activity latest active).trans_lt (of_decide_eq_true long)⟩

/-- What `resolve` finds may settle. -/
theorem maySettle_of_resolve (projection : ThreadProjection) (links : List ThreadPullRequestLink)
    (now : Int) (autoMerge : Bool) (afterDays : Option Int)
    (found : (resolve (candidate projection) links now autoMerge afterDays).isSome = true) :
    MaySettle projection links now autoMerge afterDays := by
  obtain ⟨settledAt, found⟩ := Option.isSome_iff_exists.mp found
  rw [resolve_eq] at found
  cases settled : someOpen links with
  | true =>
      rw [settled] at found
      cases found
  | false =>
      rw [settled, if_neg Bool.false_ne_true] at found
      split at found
      · rename_i rests
        obtain ⟨since, touched, found⟩ := Option.bind_eq_some_iff.mp found
        refine
          { atRest_of_eligible rests with
            ended := fun link listed seen => ?_
            cause := ?_ }
        · have terminal := List.any_eq_false.mp settled link listed
          cases snapshot : link.snapshot with
          | none => simp [seen, snapshot] at terminal
          | some snapshot' => exact ⟨snapshot', rfl, by simpa [seen, snapshot] using terminal⟩
        · unfold settleBy at found
          split at found
          · rename_i latest state time counts
            split at found
            · rename_i ends
              obtain ⟨listed, most⟩ := latestOf_spec counts
              obtain ⟨link, there, seen, snapshot, synced, same⟩ := mem_endsOf.mp listed
              obtain ⟨rfl, at_time⟩ := Prod.mk.inj same
              refine Or.inl ⟨link, there, seen, snapshot, synced, time, at_time, ends.2,
                fun other acted => (touchedAt_le_anchor touched acted).trans ends.1, ?_⟩
              intro other other_there other_seen other_snapshot other_synced other_time other_end
              have before := most other_snapshot.ended
                (mem_endsOf.mpr ⟨other, other_there, other_seen, other_snapshot, other_synced, rfl⟩)
              rw [ThreadPullRequestSnapshot.ended, other_end] at before
              exact WithBot.coe_le_coe.mp before
            · exact Or.inr (inactiveFor_of_inactiveSince found)
          · exact Or.inr (inactiveFor_of_inactiveSince found)
      · cases found

/-! ## Runs of a sweep -/

/-- `Settle`, as the sweep has made it. -/
structure SettleCommand where
  expectedSequence : Nat
  settledAt : Int
  autoMerge : Bool
  afterDays : Option Int

/-- A thread has settled in a state. -/
structure Settlement where
  projection : ThreadProjection
  now : Int
  autoMerge : Bool
  afterDays : Option Int

/-- The thread with the commands that sweeps have made for it; `settlements` is history
only. -/
structure Sweeps where
  projection : ThreadProjection
  commands : List SettleCommand
  settlements : List Settlement

inductive SweepEvent where
  /-- Any other command on the thread. -/
  | command (next : ThreadProjection)
  /-- `settle_entries` up to its command.  The branch may be open again, or the host may
  not tell. -/
  | examine (now : Int) (autoMerge : Bool) (afterDays : Option Int) (branchIsOpen : Bool)
  | settle (k : Nat) (now : Int)

variable (lib : Library)

def sweepStep : Step Sweeps SweepEvent
  | sweeps, .command next => some { sweeps with projection := next }
  | sweeps, .examine now autoMerge afterDays branchIsOpen =>
      match resolve (candidate sweeps.projection) (linksOf lib sweeps.projection.thread) now
          autoMerge afterDays with
      | none => some sweeps
      | some settledAt =>
          if branchIsOpen then some sweeps
          else
            some { sweeps with
              commands := sweeps.commands ++
                [{ expectedSequence := sweeps.projection.throughSequence
                   settledAt, autoMerge, afterDays }] }
  | sweeps, .settle k now =>
      (sweeps.commands[k]?).map fun command =>
        match plan lib sweeps.projection now
            (.settle command.expectedSequence command.settledAt command.autoMerge
              command.afterDays) with
        | none => { sweeps with commands := sweeps.commands.eraseIdx k }
        | some planned =>
            { projection := { sweeps.projection with
                throughSequence := sweeps.projection.throughSequence + 1
                thread := planned.thread }
              commands := sweeps.commands.eraseIdx k
              settlements :=
                { projection := sweeps.projection, now, autoMerge := command.autoMerge
                  afterDays := command.afterDays } :: sweeps.settlements }

/-- Every settlement was one that may be. -/
def Sweeps.Safe (sweeps : Sweeps) : Prop :=
  ∀ settlement ∈ sweeps.settlements,
    MaySettle settlement.projection (linksOf lib settlement.projection.thread) settlement.now
      settlement.autoMerge settlement.afterDays

theorem maySettle_of_plan {expectedSequence : Nat} {settledAt : Int} {planned : Planned}
    (committed : plan lib projection now (.settle expectedSequence settledAt autoMerge afterDays) =
      some planned) :
    MaySettle projection (linksOf lib projection.thread) now autoMerge afterDays := by
  simp only [plan] at committed
  split at committed
  · cases committed
  · split at committed
    · cases committed
    · rename_i found
      exact maySettle_of_resolve _ _ _ _ _ (by simpa [Option.isSome_iff_ne_none] using found)

theorem Sweeps.Safe.step {sweeps next : Sweeps} {event : SweepEvent} (safe : sweeps.Safe lib)
    (stepped : sweepStep lib sweeps event = some next) : next.Safe lib := by
  cases event with
  | command projection =>
      cases stepped
      exact safe
  | examine now autoMerge afterDays branchIsOpen =>
      simp only [sweepStep] at stepped
      split at stepped
      · cases stepped
        exact safe
      · split at stepped
        · cases stepped
          exact safe
        · cases stepped
          exact safe
  | settle k now =>
      obtain ⟨command, -, rfl⟩ := Option.map_eq_some_iff.mp stepped
      split
      · exact safe
      · rename_i planned committed
        intro settlement listed
        obtain rfl | listed := List.mem_cons.mp listed
        · exact maySettle_of_plan lib committed
        · exact safe settlement listed

/-- Every thread that settles by itself may settle, in every state of every run; and the
order of its links makes no difference exactly if no closed and no merged pull request
contest its end. -/
theorem settlement_is_safe_and_ordered_iff (projection : ThreadProjection)
    (events : List SweepEvent) :
    EveryState (sweepStep lib) (fun sweeps => sweeps.Safe lib)
        { projection, commands := [], settlements := [] } events ∧
      ∀ (c : Candidate) (links : List ThreadPullRequestLink) (now : Int) (autoMerge : Bool)
        (afterDays : Option Int),
        (∀ other : List ThreadPullRequestLink, other.Perm links →
          resolve c other now autoMerge afterDays = resolve c links now autoMerge afterDays) ↔
            ¬ Contested c links now autoMerge afterDays :=
  ⟨everyState_of_invariant (fun safe stepped => safe.step lib stepped) (fun safe => safe)
    (fun _ listed => by cases listed) events, resolve_perm_iff⟩

/-- A link to a pull request that has ended. -/
def endedLink (number : Int) (state : PullRequestState) : ThreadPullRequestLink where
  host := "github.com"
  repository := "a/b"
  number := number
  url := ""
  source := .manual
  linkedAt := 0
  snapshot := some
    { state, headBranch := "feature", baseBranch := "main", closedAt := some 5000
      mergedAt := some 5000 }
  stack := none
  watch := none

/-- A thread in which nothing has happened. -/
def quietThread : ThreadProjection where
  throughSequence := 0
  thread :=
    { createdAt := some 1000, archivedAt := none, deletedAt := none, settledAt := none
      settledOverride := none, pinnedAt := none, autoSettleDisabledAt := none
      snoozedUntil := none, snoozedAt := none, providerSubagent := false, pullRequests := none
      linkedPullRequest := none, branchPullRequest := none }
  runs := []
  messages := []
  pendingRequests := []
  backgroundTasks := []
  subagents := []

/-- A pull request closed and another merged at one time: the last one in the list
decides. -/
theorem last_of_equal_ends_decides :
    ¬ ∀ (c : Candidate) (links other : List ThreadPullRequestLink) (now : Int) (autoMerge : Bool)
      (afterDays : Option Int), other.Perm links →
        resolve c other now autoMerge afterDays = resolve c links now autoMerge afterDays := by
  intro same
  have swapped := same (candidate quietThread) [endedLink 1 .merged, endedLink 2 .closed]
    [endedLink 2 .closed, endedLink 1 .merged] 10000 false none (List.Perm.swap _ _ _)
  exact absurd swapped (by decide +kernel)

end Zeron.PullRequests
