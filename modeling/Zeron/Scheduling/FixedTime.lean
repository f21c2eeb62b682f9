import Mathlib.Data.Int.Interval
import Zeron.Scheduling.WallClock

/-!
# Fixed times

A schedule of a fixed time of day fires once on every matching day, where the clock is not shifted
over midnight in the way of it.
-/

namespace Zeron.Scheduling

/-- The weekdays that the contract accepts. -/
def AcceptedWeekdays (weekdays : List Int) : Prop :=
  ∀ weekday ∈ weekdays, 0 ≤ weekday ∧ weekday ≤ 6

/-- A schedule is for every day if it lists no weekday. -/
def Matches (weekdays : List Int) (day : Int) : Prop :=
  weekdays = [] ∨ weekdayOf day ∈ weekdays

instance (weekdays : List Int) (day : Int) : Decidable (Matches weekdays day) :=
  inferInstanceAs (Decidable (_ ∨ _))

theorem weekdayKey_iff {weekdays : List Int} (accepted : AcceptedWeekdays weekdays) (day : Int) :
    weekdayKey weekdays = ∅ ∨ weekdayOf day ∈ weekdayKey weekdays ↔ Matches weekdays day := by
  have within : weekdays.toFinset ⊆ Finset.Icc 0 6 := by
    intro weekday listed
    exact Finset.mem_Icc.mpr (accepted weekday (List.mem_toFinset.mp listed))
  unfold weekdayKey Matches
  split
  · rename_i all
    have every : weekdays.toFinset = Finset.Icc 0 6 :=
      Finset.eq_of_subset_of_card_le within (by rw [all]; decide)
    have listed : weekdayOf day ∈ weekdays.toFinset := by
      rw [every, Finset.mem_Icc, weekdayOf]
      omega
    simp [List.mem_toFinset.mp listed]
  · rw [List.toFinset_eq_empty_iff, List.mem_toFinset]

namespace TimeZone

variable (zone : TimeZone) (hour minute : Nat) (weekdays : List Int)

/-- The schedule is to fire for a matching day at an instant. -/
def FiresFor (day instant : Int) : Prop :=
  Matches weekdays day ∧ zone.Occurs (wall day hour minute) instant

/-- The next firing: no matching day between is skipped. -/
def IsNext (fromMs next : Int) : Prop :=
  (∃ day, zone.FiresFor hour minute weekdays day next) ∧ fromMs < next ∧
    ∀ day instant, zone.FiresFor hour minute weekdays day instant → fromMs < instant →
      next ≤ instant

/-- The calendar reaches from three days before an instant to ten days after it. -/
def Covers (fromMs : Int) : Prop :=
  ∀ instant, fromMs - 259200000 ≤ instant → instant ≤ fromMs + 864000000 →
    zone.inCalendar instant = true

/-- The matching day is found in the eight days from now on: the time of the day before is not still
to come, as it is if it was shifted over midnight; the time of a matching day among the eight is
still to come, and is not shifted to a day that does not match; and the times before it are past, or
neither their days nor the days to which they are shifted match. -/
structure Foreseen (fromMs : Int) : Prop where
  begun : ∀ instant, zone.FiresFor hour minute weekdays (zone.date fromMs - 1) instant →
    instant ≤ fromMs
  within : ∃ days : Nat, days < 8 ∧
    (∃ next, zone.Occurs (wall (zone.date fromMs + days) hour minute) next ∧ fromMs < next ∧
      Matches weekdays (zone.date fromMs + days) ∧ Matches weekdays (zone.date next)) ∧
    ∀ earlier : Nat, earlier < days → ∀ instant,
      zone.Occurs (wall (zone.date fromMs + earlier) hour minute) instant → fromMs < instant →
        ¬Matches weekdays (zone.date fromMs + earlier) ∧ ¬Matches weekdays (zone.date instant)

/-- `next_in_zone` of a schedule of a fixed time. -/
def next (timeOfDay : String) (weekdays : List Int) (fromMs : Int) : Option Int :=
  nextInZone zone.calendar fromMs (.fixedTime timeOfDay weekdays)

/-- The results of `next_in_zone` from its own results. -/
def firings (timeOfDay : String) : Nat → Int → List Int
  | 0, _ => []
  | n + 1, fromMs =>
      match zone.next timeOfDay weekdays fromMs with
      | none => []
      | some fired => fired :: firings timeOfDay n fired

/-- Every step of the iteration is foreseen, and within the calendar. -/
def ForeseenAlong (timeOfDay : String) : Nat → Int → Prop
  | 0, _ => True
  | n + 1, fromMs => zone.Covers fromMs ∧ zone.Foreseen hour minute weekdays fromMs ∧
      ∀ fired, zone.next timeOfDay weekdays fromMs = some fired →
        ForeseenAlong timeOfDay n fired

/-- The firings are those for the matching days from some time on, in order, each day once. -/
def EachOnce (fromMs : Int) (fired : List Int) : Prop :=
  ∃ days : List Int, List.Forall₂ (zone.FiresFor hour minute weekdays) days fired ∧
    days.Pairwise (· < ·) ∧ (∀ instant ∈ fired, fromMs < instant) ∧
      ∀ day instant, zone.FiresFor hour minute weekdays day instant → fromMs < instant →
        (∃ last ∈ fired, instant ≤ last) → day ∈ days

variable {zone hour minute weekdays} {fromMs instant other next day dayToo : Int}

/-! ## One call -/

theorem timeOn_eq_some (found : zone.timeOn day hour minute = some instant) :
    zone.Occurs (wall day hour minute) instant := by
  rcases Option.bind_eq_some_iff.mp found with ⟨reading, checks, resolved⟩
  rw [checked_eq_some checks] at resolved
  exact occurs_of_resolve resolved

/-- Later days fire later. -/
theorem Occurs.lt_of_day (occurs : zone.Occurs (wall day hour minute) instant)
    (later : zone.Occurs (wall dayToo hour minute) other) (lt : day < dayToo) :
    instant < other := by
  apply occurs.lt_of_day_past
  have reads := later.reading_ge
  unfold wall at reads ⊢
  omega

/-- The loop of `next_in_zone` returns the first time that it accepts. -/
theorem nextDay_eq_some_iff (zone : TimeZone) (fromMs next day : Int) (hour minute : Nat)
    (key : Finset Int) (start count : Nat) :
    nextDay zone.calendar fromMs hour minute key day (List.range' start count) = some next ↔
      ∃ days, start ≤ days ∧ days < start + count ∧
        (zone.timeOn (day + days) hour minute = some next ∧ fromMs < next ∧
          (key = ∅ ∨ weekdayOf (zone.date next) ∈ key)) ∧
        ∀ earlier, start ≤ earlier → earlier < days →
          ∃ instant, zone.timeOn (day + earlier) hour minute = some instant ∧
            ¬(fromMs < instant ∧ (key = ∅ ∨ weekdayOf (zone.date instant) ∈ key)) := by
  induction count generalizing start with
  | zero =>
      constructor
      · rintro ⟨⟩
      · rintro ⟨days, least, most, -⟩
        omega
  | succ count ih =>
      change (match zone.timeOn (day + start) hour minute with
        | none => none
        | some candidate => if fromMs < candidate ∧
            (key = ∅ ∨ weekdayOf (zone.date candidate) ∈ key) then some candidate
          else nextDay zone.calendar fromMs hour minute key day (List.range' (start + 1) count)) =
        some next ↔ _
      cases time : zone.timeOn (day + start) hour minute with
      | none =>
          constructor
          · rintro ⟨⟩
          · rintro ⟨days, least, most, ⟨found, -⟩, others⟩
            rcases Nat.eq_or_lt_of_le least with rfl | after
            · rw [time] at found
              cases found
            · rcases others start (le_refl _) after with ⟨instant, found, -⟩
              rw [time] at found
              cases found
      | some candidate =>
          dsimp only
          split
          · rename_i accepts
            constructor
            · rintro ⟨⟩
              exact ⟨start, le_refl _, by omega, ⟨time, accepts⟩, by omega⟩
            · rintro ⟨days, least, most, ⟨found, -⟩, others⟩
              rcases Nat.eq_or_lt_of_le least with rfl | after
              · exact time.symm.trans found
              · rcases others start (le_refl _) after with ⟨instant, found, refuses⟩
                cases time.symm.trans found
                exact absurd accepts refuses
          · rename_i refuses
            rw [ih]
            constructor
            · rintro ⟨days, least, most, found, others⟩
              refine ⟨days, by omega, by omega, found, fun earlier since before => ?_⟩
              rcases Nat.eq_or_lt_of_le since with rfl | after
              · exact ⟨candidate, time, refuses⟩
              · exact others earlier after before
            · rintro ⟨days, least, most, found, others⟩
              rcases Nat.eq_or_lt_of_le least with rfl | after
              · cases time.symm.trans found.1
                exact absurd found.2 refuses
              · exact ⟨days, after, by omega, found, fun earlier since before =>
                  others earlier (by omega) before⟩

theorem wall_bounds (early : hour < 24) (minutes : minute < 60) (day : Int) :
    day * 86400000 ≤ wall day hour minute ∧ wall day hour minute < (day + 1) * 86400000 := by
  unfold wall
  omega

theorem reading_date (zone : TimeZone) (instant : Int) :
    zone.date instant * 86400000 ≤ zone.reading instant ∧
      zone.reading instant < (zone.date instant + 1) * 86400000 := by
  unfold date
  omega

/-- The times of the days before yesterday are past. -/
theorem le_of_day_lt (early : hour < 24) (minutes : minute < 60)
    (fires : zone.FiresFor hour minute weekdays day instant) (lt : day < zone.date fromMs - 1) :
    instant < fromMs := by
  apply fires.2.lt_of_day_past
  have bounds := wall_bounds early minutes day
  have reads := zone.reading_date fromMs
  omega

/-- A time is that of one day. -/
theorem Occurs.day_eq (occurs : zone.Occurs (wall day hour minute) instant)
    (again : zone.Occurs (wall dayToo hour minute) instant) : day = dayToo := by
  rcases lt_trichotomy day dayToo with less | same | more
  · exact absurd (occurs.lt_of_day again less) (lt_irrefl _)
  · exact same
  · exact absurd (again.lt_of_day occurs more) (lt_irrefl _)

theorem FiresFor.day_lt (fires : zone.FiresFor hour minute weekdays day instant)
    (later : zone.FiresFor hour minute weekdays dayToo other) (lt : instant < other) :
    day < dayToo := by
  rcases lt_trichotomy day dayToo with less | rfl | more
  · exact less
  · exact absurd (fires.2.unique later.2) lt.ne
  · exact absurd (later.2.lt_of_day fires.2 more) lt.asymm

variable {timeOfDay : String}

/-- What the loop of `next_in_zone` accepts, in the words of the schedule. -/
theorem next_eq_some_iff (time : parseTime timeOfDay = some (hour, minute))
    (accepted : AcceptedWeekdays weekdays) :
    zone.next timeOfDay weekdays fromMs = some next ↔
      zone.inCalendar fromMs = true ∧ ∃ days : Nat, days < 8 ∧
        (zone.timeOn (zone.date fromMs + days) hour minute = some next ∧ fromMs < next ∧
          Matches weekdays (zone.date next)) ∧
        ∀ earlier : Nat, earlier < days →
          ∃ instant, zone.timeOn (zone.date fromMs + earlier) hour minute = some instant ∧
            ¬(fromMs < instant ∧ Matches weekdays (zone.date instant)) := by
  have looped := nextDay_eq_some_iff zone fromMs next (zone.date fromMs) hour minute
    (weekdayKey weekdays) 0 8
  simp only [weekdayKey_iff accepted, Nat.zero_le, true_and, forall_const]
    at looped
  rw [← looped, TimeZone.next, nextInZone, time]
  change (if zone.inCalendar fromMs then some (zone.date fromMs) else none).bind _ = _ ↔ _
  split
  · rename_i now
    exact (and_iff_right now).symm
  · rename_i never
    exact ⟨fun found => absurd found (by simp), fun found => absurd found.1 never⟩

theorem lt_of_parseTime (time : parseTime timeOfDay = some (hour, minute)) :
    hour < 24 ∧ minute < 60 := by
  unfold parseTime at time
  dsimp only at time
  split at time
  · split at time
    · split at time
      · rename_i bounds
        cases time
        exact bounds
      · cases time
    · cases time
  · cases time

/-- Within the calendar every one of the eight days has its time. -/
theorem exists_timeOn (early : hour < 24) (minutes : minute < 60) (covers : zone.Covers fromMs)
    {days : Nat} (few : days < 8) :
    ∃ instant, zone.timeOn (zone.date fromMs + days) hour minute = some instant ∧
      zone.Occurs (wall (zone.date fromMs + days) hour minute) instant := by
  have bounds := wall_bounds early minutes (zone.date fromMs + days)
  have reads := zone.reading_date fromMs
  have near := zone.reading_near fromMs
  rcases @exists_resolved zone (wall (zone.date fromMs + days) hour minute)
    fun other low high => covers other (by omega) (by omega) with ⟨instant, found⟩
  have inside := covers (wall (zone.date fromMs + days) hour minute) (by omega) (by omega)
  refine ⟨instant, ?_, occurs_of_resolve found⟩
  rw [timeOn, checked, if_pos inside, Option.bind_some, found]

/-- One call returns the next firing exactly if that is foreseen. -/
theorem next_iff_foreseen (time : parseTime timeOfDay = some (hour, minute))
    (accepted : AcceptedWeekdays weekdays) (covers : zone.Covers fromMs) :
    (∃ next, zone.next timeOfDay weekdays fromMs = some next ∧
        zone.IsNext hour minute weekdays fromMs next) ↔
      zone.Foreseen hour minute weekdays fromMs := by
  rcases lt_of_parseTime time with ⟨early, minutes⟩
  constructor
  · rintro ⟨next, found, ⟨day, fires⟩, later, least⟩
    rcases (next_eq_some_iff time accepted).mp found with
      ⟨-, days, few, ⟨at_next, -, shown⟩, others⟩
    have there := timeOn_eq_some at_next
    cases fires.2.day_eq there
    refine ⟨fun instant yesterday => ?_, days, few, ⟨next, there, later, fires.1, shown⟩,
      fun earlier before instant occurs to_come => ⟨fun matching => ?_, fun matching => ?_⟩⟩
    · by_contra to_come
      have before := yesterday.2.lt_of_day there (by omega)
      have after := least _ _ yesterday (by omega)
      omega
    · have before := occurs.lt_of_day there (by omega)
      have after := least _ _ ⟨matching, occurs⟩ to_come
      omega
    · rcases others earlier before with ⟨other, at_other, refused⟩
      cases occurs.unique (timeOn_eq_some at_other)
      exact refused ⟨to_come, matching⟩
  · rintro ⟨begun, days, few, ⟨next, there, later, matching, shown⟩, others⟩
    rcases exists_timeOn early minutes covers few with ⟨found, at_next, occurs⟩
    cases there.unique occurs
    refine ⟨next, ?_, ⟨_, matching, there⟩, later, fun day instant fires to_come => ?_⟩
    · apply (next_eq_some_iff time accepted).mpr
      refine ⟨covers fromMs (by omega) (by omega), days, few, ⟨at_next, later, shown⟩,
        fun earlier before => ?_⟩
      rcases exists_timeOn early minutes covers (before.trans few) with
        ⟨instant, at_instant, occurs⟩
      exact ⟨instant, at_instant, fun accepts =>
        (others earlier before instant occurs accepts.1).2 accepts.2⟩
    · by_contra not_after
      have before : day < zone.date fromMs + days := by
        by_contra not_before
        rcases (not_lt.mp not_before).eq_or_lt with same | more
        · rw [← same] at fires
          exact not_after (there.unique fires.2).le
        · exact not_after (there.lt_of_day fires.2 more).le
      rcases lt_trichotomy day (zone.date fromMs - 1) with less | rfl | more
      · exact absurd (le_of_day_lt early minutes fires less) to_come.asymm
      · exact absurd (begun instant fires) to_come.not_ge
      · have same_day : zone.date fromMs + ((day - zone.date fromMs).toNat : Int) = day := by
          omega
        rw [← same_day] at fires
        exact (others (day - zone.date fromMs).toNat (by omega) instant fires.2 to_come).1 fires.1

/-! ## The iteration -/

/-- An iteration of which every step is foreseen fires for each matching day once. -/
theorem each_once (time : parseTime timeOfDay = some (hour, minute))
    (accepted : AcceptedWeekdays weekdays) (n : Nat)
    (foreseen : zone.ForeseenAlong hour minute weekdays timeOfDay n fromMs) :
    (zone.firings weekdays timeOfDay n fromMs).length = n ∧
      zone.EachOnce hour minute weekdays fromMs (zone.firings weekdays timeOfDay n fromMs) := by
  induction n generalizing fromMs with
  | zero => exact ⟨rfl, [], .nil, .nil, by simp [firings], by simp [firings]⟩
  | succ n ih =>
      rcases (next_iff_foreseen time accepted foreseen.1).mpr foreseen.2.1 with
        ⟨next, found, ⟨day, fires⟩, later, least⟩
      rcases ih (foreseen.2.2 next found) with ⟨length, days, each, ordered, after, all⟩
      have fired : zone.firings weekdays timeOfDay (n + 1) fromMs =
          next :: zone.firings weekdays timeOfDay n next := by
        simp only [firings, found]
      rw [fired]
      refine ⟨congrArg Nat.succ length, day :: days, .cons fires each,
        List.pairwise_cons.mpr ⟨fun other listed => ?_, ordered⟩,
        List.forall_mem_cons.mpr ⟨later, fun instant listed => later.trans (after instant listed)⟩,
        fun other instant fires_too to_come before => ?_⟩
      · rcases List.forall₂_iff_get.mp each with ⟨same_length, fires_at⟩
        rcases List.get_of_mem listed with ⟨index, rfl⟩
        have inside : index.1 < (zone.firings weekdays timeOfDay n next).length :=
          same_length ▸ index.2
        exact fires.day_lt (fires_at index.1 index.2 inside) (after _ (List.get_mem _ _))
      · rcases (least other instant fires_too to_come).eq_or_lt with rfl | more
        · exact List.mem_cons.mpr (.inl (fires_too.2.day_eq fires.2))
        · rcases before with ⟨last, listed, le⟩
          rcases List.mem_cons.mp listed with rfl | listed
          · exact absurd le more.not_ge
          · exact List.mem_cons_of_mem _ (all other instant fires_too more ⟨last, listed, le⟩)

/-- A schedule of a fixed time fires once on every matching day. -/
theorem fixed_time_fires_once (zone : TimeZone) {timeOfDay : String} {hour minute : Nat}
    (time : parseTime timeOfDay = some (hour, minute)) {weekdays : List Int}
    (accepted : AcceptedWeekdays weekdays) :
    (∀ fromMs, zone.Covers fromMs → ((∃ next, zone.next timeOfDay weekdays fromMs = some next ∧
        zone.IsNext hour minute weekdays fromMs next) ↔
      zone.Foreseen hour minute weekdays fromMs)) ∧
    ∀ fromMs n, zone.ForeseenAlong hour minute weekdays timeOfDay n fromMs →
      (zone.firings weekdays timeOfDay n fromMs).length = n ∧
        zone.EachOnce hour minute weekdays fromMs (zone.firings weekdays timeOfDay n fromMs) :=
  ⟨fun _ covers => next_iff_foreseen time accepted covers, fun _ n => each_once time accepted n⟩

/-- Two hours behind until 01:00 UTC of 31 March 2024, and one hour from then on. -/
def aheadOffset (instant : Int) : Int :=
  if instant < 1711846800000 then -7200 else -3600

def aheadReadings (reading : Int) : LocalResult :=
  if reading < 1711839600000 then .single (reading + 7200000)
  else if reading < 1711843200000 then .none
  else .single (reading + 3600000)

theorem mem_aheadReadings (reading instant : Int) :
    instant ∈ (aheadReadings reading).instants ↔
      instant + 1000 * aheadOffset instant = reading := by
  unfold aheadReadings aheadOffset
  split
  · rw [LocalResult.instants, List.mem_singleton]
    split <;> omega
  · split
    · rw [LocalResult.instants]
      simp only [List.not_mem_nil, false_iff]
      split <;> omega
    · rw [LocalResult.instants, List.mem_singleton]
      split <;> omega

theorem aheadOffset_bounded (instant : Int) :
    -86400 < aheadOffset instant ∧ aheadOffset instant < 86400 := by
  unfold aheadOffset
  split <;> omega

theorem aheadOffset_apart (first second : Int) (once : aheadOffset first ≠ aheadOffset (first - 1))
    (again : aheadOffset second ≠ aheadOffset (second - 1)) (later : first < second) :
    first + 345600000 ≤ second := by
  unfold aheadOffset at once again
  split at once <;> split at once <;> split at again <;> split at again <;> omega

theorem aheadOffset_slight (instant : Int) :
    -86400 < aheadOffset instant - aheadOffset (instant - 1) ∧
      aheadOffset instant - aheadOffset (instant - 1) < 86400 := by
  unfold aheadOffset
  split <;> split <;> omega

/-- A zone that goes an hour ahead there: 23:00 of the Saturday is followed by the Sunday. -/
def aheadAtMidnight : TimeZone where
  offset := aheadOffset
  fromLocal := aheadReadings
  inCalendar _ := true
  mem_fromLocal := mem_aheadReadings
  bounded := aheadOffset_bounded
  apart := aheadOffset_apart
  slight := aheadOffset_slight

/-- From that Saturday morning the next half past nine of a Wednesday is found. -/
theorem fixed_time_fires_on_wednesday :
    ∃ next, aheadAtMidnight.next "09:30" [3] 1711800000000 = some next ∧
      aheadAtMidnight.IsNext 9 30 [3] 1711800000000 next := by
  have accepted : AcceptedWeekdays [3] := by
    intro weekday listed
    cases List.mem_singleton.mp listed
    decide
  apply ((fixed_time_fires_once aheadAtMidnight (by decide) accepted).1 1711800000000
    fun _ _ _ => rfl).mpr
  constructor
  · rintro instant ⟨friday, -⟩
    exact absurd friday (by decide)
  · refine ⟨4, by decide, ⟨1712140200000, timeOn_eq_some (by decide), by decide, by decide,
      by decide⟩, fun earlier before instant occurs to_come => ?_⟩
    have cases_of : earlier = 0 ∨ earlier = 1 ∨ earlier = 2 ∨ earlier = 3 := by
      omega
    rcases cases_of with rfl | rfl | rfl | rfl
    · have same : instant = 1711798200000 := occurs.unique (timeOn_eq_some (by decide))
      exact same ▸ by decide
    · have same : instant = 1711881000000 := occurs.unique (timeOn_eq_some (by decide))
      exact same ▸ by decide
    · have same : instant = 1711967400000 := occurs.unique (timeOn_eq_some (by decide))
      exact same ▸ by decide
    · have same : instant = 1712053800000 := occurs.unique (timeOn_eq_some (by decide))
      exact same ▸ by decide

/-- Half past eleven is shifted to the Sunday, and the schedule for Saturdays skips a week. -/
theorem saturday_is_skipped :
    ¬∃ next, aheadAtMidnight.next "23:30" [6] 1711800000000 = some next ∧
      aheadAtMidnight.IsNext 23 30 [6] 1711800000000 next := by
  rintro ⟨next, found, -, -, least⟩
  have returned : aheadAtMidnight.next "23:30" [6] 1711800000000 = some 1712449800000 := by
    decide +kernel
  cases returned.symm.trans found
  have gap : aheadAtMidnight.InGap (wall 19812 23 30) 1711846800000 := by
    constructor
    · unfold Shifts
      decide
    · decide
    · decide
  have saturday : aheadAtMidnight.FiresFor 23 30 [6] 19812 1711848600000 :=
    ⟨.inr (by decide), .inr ⟨1711846800000, gap, by decide⟩⟩
  exact absurd (least _ _ saturday (by decide)) (by decide)

end TimeZone

end Zeron.Scheduling
