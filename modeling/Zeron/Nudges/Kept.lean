import Zeron.Nudges.Room

/-!
# Nudges stay pending until they are received

A receipt leaves the table in two ways: a host acknowledges its own token, or
the token is sent to a host that does not acknowledge.
-/

namespace Zeron.Nudges

open Zeron.Data
open Zeron.Transition

variable {token : String}

namespace DeviceRoom

variable {room : DeviceRoom}

/-! ## Replays -/

/-- What a replay leaves alone. -/
structure Replayed (room : DeviceRoom) (nudgeAck : Bool) (after : DeviceRoom)
    (frames : List PendingNudge) : Prop where
  reconcile_eq : after.nudgeReconcile = room.nudgeReconcile
  kept : ∀ row ∈ room.pendingNudges.rows, row ∈ after.pendingNudges.rows ∨
    nudgeAck = false ∧ row.token ∈ frames.map PendingNudge.token
  there : ∀ row ∈ after.pendingNudges.rows, row ∈ room.pendingNudges.rows

theorem mem_acknowledgeNudge {chatId : String} {row : Receipt} :
    row ∈ (room.acknowledgeNudge chatId token).pendingNudges.rows ↔
      row ∈ room.pendingNudges.rows ∧
        (chatId ≠ "*" → ¬(row.chatId = chatId ∧ row.token = token)) := by
  unfold acknowledgeNudge
  split
  · rename_i marker
    simp [marker]
  · rename_i named
    simp only [Table.remove, List.mem_filter, Bool.not_eq_true', Bool.and_eq_false_imp,
      decide_eq_true_eq, decide_eq_false_iff_not, ne_eq, named, not_false_eq_true, forall_const,
      not_and]

theorem replayRows_acking (row : PendingNudge) (rest : List PendingNudge) (replay : Replay) :
    replayRows true (row :: rest) replay =
      if row.token ∈ replay.inflight then replayRows true rest replay
      else if nudgePage ≤ replay.inflight.length then replay
      else replayRows true rest
        { replay with
          inflight := replay.inflight ++ [row.token], sent := replay.sent ++ [row] } := by
  simp [replayRows]

theorem replayRows_older (row : PendingNudge) (rest : List PendingNudge) (replay : Replay) :
    replayRows false (row :: rest) replay =
      if nudgePage ≤ replay.sent.length then replay
      else if row.chatId = "*" then replayRows false rest replay
      else replayRows false rest
        { replay with
          room := replay.room.acknowledgeNudge row.chatId row.token
          sent := replay.sent ++ [row] } := by
  simp [replayRows]

theorem mem_tokens_append {sent : List PendingNudge} (row : PendingNudge)
    (listed : token ∈ sent.map PendingNudge.token) :
    token ∈ (sent ++ [row]).map PendingNudge.token := by
  rw [List.map_append]
  exact List.mem_append_left _ listed

theorem replayRows_replayed {nudgeAck : Bool} (rows : List PendingNudge) (replay : Replay)
    (before : Replayed room nudgeAck replay.room replay.sent) :
    Replayed room nudgeAck (replayRows nudgeAck rows replay).room
      (replayRows nudgeAck rows replay).sent := by
  induction rows generalizing replay with
  | nil => exact before
  | cons row rest ih =>
      cases nudgeAck with
      | true =>
          rw [replayRows_acking]
          split
          · exact ih _ before
          · split
            · exact before
            · refine ih _ ⟨before.reconcile_eq, fun other listed => ?_, before.there⟩
              exact (before.kept other listed).imp_right (And.imp_right (mem_tokens_append row))
      | false =>
          rw [replayRows_older]
          split
          · exact before
          · split
            · exact ih _ before
            · rename_i named
              refine ih _ ⟨?_, fun other listed => ?_, fun other listed => ?_⟩
              · rw [← before.reconcile_eq, acknowledgeNudge, if_neg named]
              · rcases before.kept other listed with still | gone
                · by_cases retired : other.chatId = row.chatId ∧ other.token = row.token
                  · exact Or.inr ⟨rfl, by simp [retired.2]⟩
                  · exact Or.inl (mem_acknowledgeNudge.mpr ⟨still, fun _ => retired⟩)
                · exact Or.inr (gone.imp_right (mem_tokens_append row))
              · exact before.there other (mem_acknowledgeNudge.mp listed).1

theorem replayNudges_replayed (room : DeviceRoom) (host : HostSocket) :
    Replayed room (room.replayNudges host).nudgeAck (room.replayNudges host).room
      (room.replayNudges host).frames := by
  have start : Replayed room host.nudgeAck room [] :=
    ⟨rfl, fun row listed => Or.inl listed, fun row listed => listed⟩
  have replayed := replayRows_replayed room.page ⟨room, host.nudgeInflight, []⟩ start
  exact ⟨replayed.reconcile_eq, replayed.kept, replayed.there⟩

/-- What has been sent stays sent. -/
theorem sent_of_sent (rows : List PendingNudge) {replay : Replay}
    (listed : token ∈ replay.sent.map PendingNudge.token) :
    token ∈ (replayRows true rows replay).sent.map PendingNudge.token := by
  induction rows generalizing replay with
  | nil => exact listed
  | cons row rest ih =>
      rw [replayRows_acking]
      split
      · exact ih listed
      · split
        · exact listed
        · exact ih (mem_tokens_append row listed)

variable {row : PendingNudge}

/-- A window that has room for everything in front of a row has room for the row. -/
theorem sent_of_near {rows : List PendingNudge} (replay : Replay)
    (tracked : ∀ token ∈ replay.inflight, token ∈ replay.sent.map PendingNudge.token)
    {index : Nat} (found : rows[index]? = some row)
    (near : replay.inflight.length + index < nudgePage) :
    row.token ∈ (replayRows true rows replay).sent.map PendingNudge.token := by
  induction rows generalizing replay index with
  | nil => cases found
  | cons first rest ih =>
      rw [replayRows_acking]
      split
      · rename_i inflight
        cases index with
        | zero =>
            cases found
            exact sent_of_sent rest (tracked _ inflight)
        | succ index => exact ih _ tracked found (by omega)
      · rw [if_neg (by omega)]
        have tracked_first : ∀ token ∈ replay.inflight ++ [first.token],
            token ∈ (replay.sent ++ [first]).map PendingNudge.token := by
          intro token listed
          rcases List.mem_append.mp listed with before | last
          · exact mem_tokens_append first (tracked token before)
          · simp [List.mem_singleton.mp last]
        cases index with
        | zero =>
            cases found
            exact sent_of_sent rest (by simp)
        | succ index =>
            refine ih _ tracked_first found ?_
            rw [List.length_append, List.length_singleton]
            omega

/-- The front of the backlog is on the page that is read. -/
theorem page_of_backlog {index : Nat} (found : room.backlog[index]? = some row)
    (near : index < nudgePage) : room.page[index]? = some row := by
  have same : room.page.take nudgePage = room.backlog.take nudgePage := by
    unfold page backlog
    rw [List.map_take, List.take_append, List.take_append, List.take_take]
    congr 2
    omega
  rw [← List.getElem?_take_of_lt near, same, List.getElem?_take_of_lt near, found]

/-! ## Events -/

theorem quiet_replayed (room : DeviceRoom) :
    Replayed room room.quiet.nudgeAck room.quiet.room room.quiet.frames :=
  ⟨rfl, fun _ listed => Or.inl listed, fun _ listed => listed⟩

theorem nudge_replayed (room : DeviceRoom) (chatId token : String) (now : Nat) :
    (room.nudge chatId token now).2 = (room.enqueueNudge chatId token now).2 ∧
      Replayed (room.enqueueNudge chatId token now).1 (room.nudge chatId token now).1.nudgeAck
        (room.nudge chatId token now).1.room (room.nudge chatId token now).1.frames := by
  unfold nudge
  simp only
  cases (room.enqueueNudge chatId token now).1.liveHost now with
  | none => exact ⟨rfl, quiet_replayed _⟩
  | some host => exact ⟨rfl, replayNudges_replayed _ host⟩

/-- A replay sees the receipts of a room, whatever its sockets. -/
theorem Replayed.of_same {other : DeviceRoom} {nudgeAck : Bool} {after : DeviceRoom}
    {frames : List PendingNudge} (replayed : Replayed other nudgeAck after frames)
    (pending_eq : other.pendingNudges = room.pendingNudges)
    (reconcile_eq : other.nudgeReconcile = room.nudgeReconcile) :
    Replayed room nudgeAck after frames where
  reconcile_eq := replayed.reconcile_eq.trans reconcile_eq
  kept := pending_eq ▸ replayed.kept
  there := pending_eq ▸ replayed.there

theorem join_replayed (room : DeviceRoom) (id now : Nat) (nudgeAck : Bool) :
    Replayed room (room.join id now nudgeAck).nudgeAck (room.join id now nudgeAck).room
      (room.join id now nudgeAck).frames :=
  (replayNudges_replayed _ _).of_same rfl rfl

theorem alarm_replayed (room : DeviceRoom) (now : Nat) :
    Replayed room (room.alarm now).nudgeAck (room.alarm now).room (room.alarm now).frames := by
  unfold alarm
  cases room.liveHost now with
  | none => exact quiet_replayed room
  | some host => exact (replayNudges_replayed _ _).of_same rfl rfl

/-- An acknowledgement retires its receipt, if it comes from a host that acknowledges. -/
theorem nudgeAck_replayed (room : DeviceRoom) (id : Nat) (chatId token : String) :
    (room.nudgeAck id chatId token).nudgeAck = true ∧
      ∃ base, (base = room ∨ base = room.acknowledgeNudge chatId token) ∧
        Replayed base true (room.nudgeAck id chatId token).room
          (room.nudgeAck id chatId token).frames := by
  unfold nudgeAck
  cases found : room.hosts.find? fun host => decide (host.id = id) && host.nudgeAck with
  | none => exact ⟨rfl, room, Or.inl rfl, quiet_replayed room⟩
  | some host =>
      have acks : host.nudgeAck = true := by
        have picked := List.find?_some found
        simp only [Bool.and_eq_true] at picked
        exact picked.2
      refine ⟨acks, _, Or.inr rfl, ?_⟩
      have replayed := replayNudges_replayed ((room.acknowledgeNudge chatId token).attach id
        (host.nudgeInflight.filter (· ≠ token)))
        { host with nudgeInflight := host.nudgeInflight.filter (· ≠ token) }
      have acks_eq : ∀ other : DeviceRoom, ∀ inflight,
          (other.replayNudges { host with nudgeInflight := inflight }).nudgeAck = true :=
        fun _ _ => acks
      rw [acks_eq] at replayed
      exact replayed.of_same rfl rfl

/-- An alarm with a live host that acknowledges sends the front of the backlog. -/
theorem alarm_sends {now index : Nat} (live : (room.liveHost now).any HostSocket.nudgeAck = true)
    (found : room.backlog[index]? = some row) (near : index < nudgePage) :
    row.token ∈ (room.alarm now).frames.map PendingNudge.token := by
  cases isLive : room.liveHost now with
  | none => simp [isLive] at live
  | some host =>
      have acks : host.nudgeAck = true := by simpa [isLive] using live
      have page : (room.attach host.id []).page[index]? = some row := page_of_backlog found near
      have sent := sent_of_near ⟨room.attach host.id [], [], []⟩
        (fun _ listed => nomatch listed) page (by simpa using near)
      unfold alarm
      rw [isLive]
      change row.token ∈ (replayRows host.nudgeAck (room.attach host.id []).page
        ⟨room.attach host.id [], [], []⟩).sent.map PendingNudge.token
      rw [acks]
      exact sent

end DeviceRoom

namespace NudgeRecord

variable {record next : NudgeRecord} {event : Event}

/-- The last 200 for a chat stands in the table, or its token has reached a host or was sent to
one that does not acknowledge. -/
def Kept (record : NudgeRecord) : Prop :=
  ∀ chatId token, record.issued.lookup chatId = some token →
    (∃ row ∈ record.room.pendingNudges.rows, row.chatId = chatId ∧ row.token = token) ∨
      token ∈ record.received ∨ token ∈ record.unacknowledged

/-- What is pending is the last nudge of its chat. -/
structure Sound (record : NudgeRecord) : Prop where
  kept : Kept record
  latest : ∀ row ∈ record.room.pendingNudges.rows,
    record.issued.lookup row.chatId = some row.token

theorem sound_start : start.Sound :=
  ⟨nofun, fun _ listed => nomatch listed⟩

theorem Sound.deliver (sound : record.Sound) {outcome : DeviceRoom.Outcome}
    (replayed : DeviceRoom.Replayed record.room outcome.nudgeAck outcome.room outcome.frames)
    (arrives : String → Bool) : (record.deliver outcome arrives).Sound := by
  refine ⟨fun chatId token issued => ?_, fun row listed => sound.latest row (replayed.there row listed)⟩
  rcases sound.kept chatId token issued with ⟨row, listed, rfl, rfl⟩ | received | sentOnce
  · rcases replayed.kept row listed with still | ⟨older, sent⟩
    · exact Or.inl ⟨row, still, rfl, rfl⟩
    · refine Or.inr (Or.inr ?_)
      simp only [NudgeRecord.deliver, older]
      exact List.mem_append_right _ sent
  · exact Or.inr (Or.inl (List.mem_append_left _ received))
  · refine Or.inr (Or.inr ?_)
    unfold NudgeRecord.deliver
    split
    · exact sentOnce
    · exact List.mem_append_left _ sentOnce

/-- A queued nudge takes the place of an older one of its chat. -/
theorem Sound.enqueue (sound : record.Sound) (chatId token : String) (now : Nat) :
    ({ record with
      room := (record.room.enqueueNudge chatId token now).1
      made := token :: record.made
      issued := if (record.room.enqueueNudge chatId token now).2 then
        (chatId, token) :: record.issued else record.issued } : NudgeRecord).Sound := by
  unfold DeviceRoom.enqueueNudge
  split
  · exact ⟨sound.kept, sound.latest⟩
  · refine ⟨fun other last issued => ?_, fun row listed => ?_⟩
    · simp only [if_true, List.lookup_cons] at issued
      split at issued
      · rename_i same
        cases issued
        refine Or.inl ⟨⟨chatId, now, token⟩, Table.mem_put_iff.mpr (Or.inl rfl), ?_, rfl⟩
        exact (beq_iff_eq.mp same).symm
      · rename_i different
        rcases sound.kept other last issued with ⟨row, listed, rfl, rfl⟩ | elsewhere
        · refine Or.inl ⟨row, Table.mem_put_iff.mpr (Or.inr ⟨listed, ?_⟩), rfl, rfl⟩
          exact fun same => by simp [same] at different
        · exact Or.inr elsewhere
    · simp only [if_true, List.lookup_cons]
      rcases Table.mem_put_iff.mp listed with rfl | ⟨old, different⟩
      · simp
      · have other : (row.chatId == chatId) = false := by simpa using different
        rw [other]
        exact sound.latest row old

/-- A receipt that is acknowledged has reached a host. -/
theorem Sound.acknowledge (sound : record.Sound) (chatId : String)
    (received : token ∈ record.received) :
    ({ record with room := record.room.acknowledgeNudge chatId token } : NudgeRecord).Sound := by
  refine ⟨fun other last issued => ?_, fun row listed =>
    sound.latest row (DeviceRoom.mem_acknowledgeNudge.mp listed).1⟩
  rcases sound.kept other last issued with ⟨row, listed, rfl, rfl⟩ | elsewhere
  · by_cases retired : row.chatId = chatId ∧ row.token = token
    · exact Or.inr (Or.inl (retired.2 ▸ received))
    · exact Or.inl ⟨row, DeviceRoom.mem_acknowledgeNudge.mpr ⟨listed, fun _ => retired⟩, rfl, rfl⟩
  · exact Or.inr elsewhere

theorem Sound.step (sound : record.Sound) (stepped : step record event = some next) :
    next.Sound := by
  cases event with
  | nudge chatId token now arrives =>
      simp only [NudgeRecord.step, Option.ite_none_left_eq_some, Option.some.injEq] at stepped
      obtain ⟨-, rfl⟩ := stepped
      obtain ⟨answer, replayed⟩ := record.room.nudge_replayed chatId token now
      rw [answer]
      exact (sound.enqueue chatId token now).deliver replayed arrives
  | join id now nudgeAck arrives =>
      simp only [NudgeRecord.step, Option.ite_none_left_eq_some, Option.some.injEq] at stepped
      obtain ⟨-, rfl⟩ := stepped
      exact sound.deliver (record.room.join_replayed id now nudgeAck) arrives
  | pong id now =>
      cases stepped
      exact ⟨sound.kept, sound.latest⟩
  | gone id =>
      cases stepped
      exact ⟨sound.kept, sound.latest⟩
  | alarm now arrives =>
      cases stepped
      exact sound.deliver (record.room.alarm_replayed now) arrives
  | nudgeAck id chatId token arrives =>
      simp only [NudgeRecord.step, Option.ite_none_right_eq_some, Option.some.injEq] at stepped
      obtain ⟨received, rfl⟩ := stepped
      obtain ⟨acks, base, from_room, replayed⟩ := record.room.nudgeAck_replayed id chatId token
      rw [← acks] at replayed
      rcases from_room with rfl | rfl
      · exact sound.deliver replayed arrives
      · exact (sound.acknowledge chatId received).deliver replayed arrives

/-! ## The law of each event -/

/-- What an event guarantees besides. -/
structure Law (record : NudgeRecord) (event : Event) (next : NudgeRecord) : Prop where
  /-- The overflow marker is retired by its own token only. -/
  marker : ∀ marker, record.room.nudgeReconcile = some marker →
    next.room.nudgeReconcile.isSome = true ∨ ∃ id arrives, event = .nudgeAck id "*" marker arrives
  /-- A 503 leaves a marker. -/
  refused : ∀ chatId token now arrives, event = .nudge chatId token now arrives →
    (record.room.nudge chatId token now).2 = false → next.room.nudgeReconcile = some token
  /-- A 200 is the last one of its chat. -/
  accepted : ∀ chatId token now arrives, event = .nudge chatId token now arrives →
    (record.room.nudge chatId token now).2 = true → next.issued.lookup chatId = some token
  /-- An acknowledgement leaves every receipt with another token. -/
  stale : ∀ id chatId token arrives, event = .nudgeAck id chatId token arrives →
    ∀ row ∈ record.room.pendingNudges.rows, row.token ≠ token → row ∈ next.room.pendingNudges.rows
  /-- An alarm with a live host that acknowledges sends what has less than a window in front. -/
  alarm : ∀ now arrives, event = .alarm now arrives →
    (record.room.liveHost now).any HostSocket.nudgeAck = true →
      ∀ index row, record.room.backlog[index]? = some row → index < nudgePage →
        row.token ∈ next.sent

theorem law (stepped : step record event = some next) : Law record event next := by
  cases event with
  | nudge chatId token now arrives =>
      simp only [NudgeRecord.step, Option.ite_none_left_eq_some, Option.some.injEq] at stepped
      obtain ⟨-, rfl⟩ := stepped
      obtain ⟨answer, replayed⟩ := record.room.nudge_replayed chatId token now
      refine ⟨fun marker marked => Or.inl ?_, ?_, ?_, by rintro _ _ _ _ ⟨⟩, by rintro _ _ ⟨⟩⟩
      · change (record.room.nudge chatId token now).1.room.nudgeReconcile.isSome = true
        rw [replayed.reconcile_eq, DeviceRoom.enqueueNudge]
        split <;> simp [marked]
      · rintro _ _ _ _ ⟨⟩ full
        change (record.room.nudge chatId token now).1.room.nudgeReconcile = some token
        rw [answer] at full
        rw [replayed.reconcile_eq]
        unfold DeviceRoom.enqueueNudge at full ⊢
        split
        · rfl
        · rename_i room_left
          rw [if_neg room_left] at full
          cases full
      · rintro _ _ _ _ ⟨⟩ ok
        simp [NudgeRecord.deliver, ok]
  | join id now nudgeAck arrives =>
      simp only [NudgeRecord.step, Option.ite_none_left_eq_some, Option.some.injEq] at stepped
      obtain ⟨-, rfl⟩ := stepped
      refine ⟨fun marker marked => Or.inl ?_, by rintro _ _ _ _ ⟨⟩, by rintro _ _ _ _ ⟨⟩,
        by rintro _ _ _ _ ⟨⟩, by rintro _ _ ⟨⟩⟩
      change (record.room.join id now nudgeAck).room.nudgeReconcile.isSome = true
      rw [(record.room.join_replayed id now nudgeAck).reconcile_eq, marked]
      rfl
  | pong id now =>
      cases stepped
      exact ⟨fun marker marked => Or.inl (Option.isSome_of_eq_some marked), by rintro _ _ _ _ ⟨⟩,
        by rintro _ _ _ _ ⟨⟩, by rintro _ _ _ _ ⟨⟩, by rintro _ _ ⟨⟩⟩
  | gone id =>
      cases stepped
      exact ⟨fun marker marked => Or.inl (Option.isSome_of_eq_some marked), by rintro _ _ _ _ ⟨⟩,
        by rintro _ _ _ _ ⟨⟩, by rintro _ _ _ _ ⟨⟩, by rintro _ _ ⟨⟩⟩
  | alarm now arrives =>
      cases stepped
      refine ⟨fun marker marked => Or.inl ?_, by rintro _ _ _ _ ⟨⟩, by rintro _ _ _ _ ⟨⟩,
        by rintro _ _ _ _ ⟨⟩, ?_⟩
      · change (record.room.alarm now).room.nudgeReconcile.isSome = true
        rw [(record.room.alarm_replayed now).reconcile_eq, marked]
        rfl
      · rintro _ _ ⟨⟩ live index row found near
        exact List.mem_append_right _ (DeviceRoom.alarm_sends live found near)
  | nudgeAck id chatId token arrives =>
      simp only [NudgeRecord.step, Option.ite_none_right_eq_some, Option.some.injEq] at stepped
      obtain ⟨received, rfl⟩ := stepped
      obtain ⟨-, base, from_room, replayed⟩ := record.room.nudgeAck_replayed id chatId token
      refine ⟨fun marker marked => ?_, by rintro _ _ _ _ ⟨⟩, by rintro _ _ _ _ ⟨⟩, ?_,
        by rintro _ _ ⟨⟩⟩
      · change (record.room.nudgeAck id chatId token).room.nudgeReconcile.isSome = true ∨ _
        rw [replayed.reconcile_eq]
        rcases from_room with rfl | rfl
        · exact Or.inl (by rw [marked]; rfl)
        · unfold DeviceRoom.acknowledgeNudge
          split
          · rename_i isMarker
            subst isMarker
            by_cases own : marker = token
            · exact Or.inr ⟨id, arrives, by rw [own]⟩
            · exact Or.inl (by simp [marked, own])
          · exact Or.inl (by rw [marked]; rfl)
      · rintro _ _ _ _ ⟨⟩ row listed different
        have inBase : row ∈ base.pendingNudges.rows := by
          rcases from_room with rfl | rfl
          · exact listed
          · exact DeviceRoom.mem_acknowledgeNudge.mpr ⟨listed, fun _ same => different same.2⟩
        exact (replayed.kept row inBase).resolve_right fun retired => Bool.noConfusion retired.1

/-! ## Runs -/

/-- In every run, a nudge answered 200 is pending until its token has reached a host, or was
sent to a host that does not acknowledge; and every event obeys its law. -/
theorem nudges_stay_pending (events : List Event) :
    EveryState step Kept start events ∧
      EveryStep step (fun record event => ∀ next, step record event = some next →
        Law record event next) start events :=
  ⟨everyState_of_invariant Sound.step Sound.kept sound_start events,
    everyStep_of_forall (fun _ _ _ => law) events⟩

/-- Sixty-five nudges before a host joins that acknowledges none of them. -/
def sixtyFive : List Event :=
  (List.range 65).map (fun index =>
    .nudge ("c" ++ toString index) ("t" ++ toString index) index fun _ => true) ++
      [.join 1 100 true fun _ => true]

/-- Alarms that leave a room as it is send the same receipts each time. -/
theorem not_sent_of_fixed {now : Nat} {arrives : String → Bool}
    (fixed : (record.room.alarm now).room = record.room)
    (outside : token ∉ (record.room.alarm now).frames.map PendingNudge.token) {count : Nat}
    {final : NudgeRecord} (unsent : token ∉ record.sent)
    (ran : run NudgeRecord.step record (List.replicate count (.alarm now arrives)) = some final) :
    token ∉ final.sent := by
  induction count generalizing record with
  | zero =>
      cases ran
      exact unsent
  | succ count ih =>
      obtain ⟨next, stepped, later⟩ := run_cons_eq_some_iff.mp ran
      cases stepped
      have same : (record.deliver (record.room.alarm now) arrives).room = record.room := fixed
      refine ih ?_ ?_ ?_ later
      · rw [same]
        exact fixed
      · rw [same]
        exact outside
      · exact fun sent => (List.mem_append.mp sent).elim unsent outside

/-- A receipt that a host without acknowledgements never got is gone; and behind a window of
receipts that are not acknowledged, the last one is not sent at any number of alarms. -/
theorem nudges_lost_and_stuck :
    (∃ record, run step start [.join 1 0 false (fun _ => true),
        .nudge "chat" "token" 5 (fun _ => false)] = some record ∧
      record.issued.lookup "chat" = some "token" ∧
      record.room.pendingNudges.rows = [] ∧ record.received = []) ∧
    ∃ stuck, run step start sixtyFive = some stuck ∧
      ⟨"c64", "t64"⟩ ∈ stuck.room.backlog ∧
      (stuck.room.liveHost 100).any HostSocket.nudgeAck = true ∧
      ∀ count final, run step stuck (List.replicate count (.alarm 100 fun _ => true)) = some final →
        "t64" ∉ final.sent := by
  constructor
  · refine ⟨_, rfl, ?_⟩
    decide +kernel
  · have facts : ((run step start sixtyFive).any fun stuck =>
        decide (⟨"c64", "t64"⟩ ∈ stuck.room.backlog) &&
        (stuck.room.liveHost 100).any HostSocket.nudgeAck &&
        decide ((stuck.room.alarm 100).room = stuck.room) &&
        decide ("t64" ∉ (stuck.room.alarm 100).frames.map PendingNudge.token) &&
        decide ("t64" ∉ stuck.sent)) = true := by decide +kernel
    cases ran : run step start sixtyFive with
    | none => simp [ran] at facts
    | some stuck =>
        simp only [ran, Option.any_some, Bool.and_eq_true, decide_eq_true_eq] at facts
        obtain ⟨⟨⟨⟨listed, live⟩, fixed⟩, outside⟩, unsent⟩ := facts
        exact ⟨stuck, rfl, listed, live, fun count final later =>
          not_sent_of_fixed fixed outside unsent later⟩

end NudgeRecord

end Zeron.Nudges
