import Mathlib.Data.Finset.Card
import Mathlib.Data.Int.Basic
import Zeron.Data.Text

/-!
# Times of day

When a time of day comes in a zone whose clock is shifted now and then.  Instants and the
readings of the local clock are in milliseconds, offsets in seconds.
-/

namespace Zeron.Scheduling

/-! ## Schedules -/

/-- What the host's calendar tells, in milliseconds since the epoch and days. -/
structure Zone where
  /-- The instant is one that the calendar can represent. -/
  representable : Int → Bool
  /-- The local day of an instant. -/
  dateOf : Int → Option Int
  /-- The instant of a wall-clock time on a day, shifted over a gap. -/
  resolve : Int → Nat → Nat → Option Int
  /-- The local weekday of an instant, counted from Sunday. -/
  weekday : Int → Int

inductive Schedule where
  | interval (everyMs : Int)
  | fixedTime (timeOfDay : String) (weekdays : List Int)
  deriving DecidableEq

/-- `MIN_INTERVAL_MS`. -/
def minIntervalMs : Int := 60000

/-- `trim`. -/
def trimmed (chars : List Char) : List Char :=
  Data.trimEnd (Data.trimStart chars)

def decimal (digits : List Char) : Nat :=
  digits.foldl (fun value digit => 10 * value + (digit.toNat - '0'.toNat)) 0

/-- `parse_time`: one or two digits, a colon and two digits. -/
def parseTime (value : String) : Option (Nat × Nat) :=
  let chars := trimmed value.toList
  match chars.takeWhile (· != ':'), chars.dropWhile (· != ':') with
  | hour, ':' :: minute =>
      if (hour.length = 1 ∨ hour.length = 2) ∧ minute.length = 2 ∧
          (hour ++ minute).all Char.isDigit = true then
        if decimal hour < 24 ∧ decimal minute < 60 then some (decimal hour, decimal minute)
        else none
      else none
  | _, _ => none

/-- `weekday_key`: all seven days are no restriction. -/
def weekdayKey (weekdays : List Int) : Finset Int :=
  if weekdays.toFinset.card = 7 then ∅ else weekdays.toFinset

/-- The first day whose time is after `fromMs`. -/
def nextDay (zone : Zone) (fromMs : Int) (hour minute : Nat) (weekdays : Finset Int) (day : Int) :
    List Nat → Option Int
  | [] => none
  | offset :: offsets =>
      match zone.resolve (day + offset) hour minute with
      | none => none
      | some candidate =>
          if fromMs < candidate ∧ (weekdays = ∅ ∨ zone.weekday candidate ∈ weekdays) then
            some candidate
          else nextDay zone fromMs hour minute weekdays day offsets

/-- `next_in_zone`. -/
def nextInZone (zone : Zone) (fromMs : Int) : Schedule → Option Int
  | .interval everyMs =>
      let next := fromMs + max everyMs minIntervalMs
      if zone.representable next then some next else none
  | .fixedTime timeOfDay weekdays => do
      let (hour, minute) ← parseTime timeOfDay
      let day ← zone.dateOf fromMs
      nextDay zone fromMs hour minute (weekdayKey weekdays) day (List.range 8)

example : parseTime " 9:05 " = some (9, 5) := by decide

/-! ## Zones -/

/-- `LocalResult`: the instants of a reading. -/
inductive LocalResult where
  | none
  | single (instant : Int)
  | ambiguous (earliest latest : Int)

def LocalResult.instants : LocalResult → List Int
  | .none => []
  | .single instant => [instant]
  | .ambiguous earliest latest => [earliest, latest]

def LocalResult.earliest (result : LocalResult) : Option Int :=
  result.instants.head?

/-- A zone has a piecewise constant offset.  It is shifted by less than a day, and not twice within
four days. -/
structure TimeZone where
  /-- The seconds that the clock is ahead at an instant. -/
  offset : Int → Int
  /-- `from_local_datetime`. -/
  fromLocal : Int → LocalResult
  /-- The calendar can represent the reading. -/
  inCalendar : Int → Bool
  mem_fromLocal : ∀ reading instant,
    instant ∈ (fromLocal reading).instants ↔ instant + 1000 * offset instant = reading
  bounded : ∀ instant, -86400 < offset instant ∧ offset instant < 86400
  apart : ∀ first second, offset first ≠ offset (first - 1) →
    offset second ≠ offset (second - 1) → first < second → first + 345600000 ≤ second
  slight : ∀ instant, -86400 < offset instant - offset (instant - 1) ∧
    offset instant - offset (instant - 1) < 86400

/-- The reading of a time of day. -/
def wall (day : Int) (hour minute : Nat) : Int :=
  day * 86400000 + hour * 3600000 + minute * 60000

def weekdayOf (day : Int) : Int :=
  (day + 4) % 7

namespace TimeZone

variable (zone : TimeZone)

def reading (instant : Int) : Int :=
  instant + 1000 * zone.offset instant

/-- `date_naive`. -/
def date (instant : Int) : Int :=
  zone.reading instant / 86400000

/-- `checked_add_signed`. -/
def checked (reading : Int) : Option Int :=
  if zone.inCalendar reading then some reading else none

/-- The first of 48 readings, a step apart, that has an instant. -/
def nearby (reading step : Int) : Option Int :=
  (List.range' 1 48).findSome? fun (hours : Nat) => do
    (zone.fromLocal (← zone.checked (reading + step * hours))).earliest

def resolve (reading : Int) : Option Int :=
  match zone.fromLocal reading with
  | .single instant => some instant
  | .ambiguous first second => some (min first second)
  | .none => do
      let before ← zone.nearby reading (-3600000)
      let after ← zone.nearby reading 3600000
      let gap := zone.offset after - zone.offset before
      if gap ≤ 0 then none
      else (zone.fromLocal (← zone.checked (reading + 1000 * gap))).earliest

/-- The instant of a time of day, or none if the calendar ends before. -/
def timeOn (day : Int) (hour minute : Nat) : Option Int :=
  (zone.checked (wall day hour minute)).bind zone.resolve

/-- The zone as the schedules see it. -/
def calendar : Zone where
  representable := zone.inCalendar
  dateOf instant := if zone.inCalendar instant then some (zone.date instant) else none
  resolve := zone.timeOn
  weekday instant := weekdayOf (zone.date instant)

/-! ## Shifts -/

/-- The clock is shifted at an instant. -/
def Shifts (instant : Int) : Prop :=
  zone.offset instant ≠ zone.offset (instant - 1)

/-- The clock leaves a reading out when it is shifted. -/
structure InGap (reading shift : Int) : Prop where
  shifts : zone.Shifts shift
  opens : shift + 1000 * zone.offset (shift - 1) ≤ reading
  closes : reading < shift + 1000 * zone.offset shift

/-- A reading comes at an instant: the first one that reads so or, if it is left out, as long after
the shift as the clock would have taken without it. -/
def Occurs (reading instant : Int) : Prop :=
  (zone.reading instant = reading ∧ ∀ other, zone.reading other = reading → instant ≤ other) ∨
    ∃ shift, zone.InGap reading shift ∧ instant = reading - 1000 * zone.offset (shift - 1)

variable {zone} {first last shift instant other reading : Int}

theorem offset_eq_of_not_shifts (le : first ≤ last)
    (steady : ∀ instant, first < instant → instant ≤ last → ¬zone.Shifts instant) :
    zone.offset last = zone.offset first := by
  induction last, le using Int.leInduction with
  | base => rfl
  | succ last le ih =>
      have here := not_not.mp (steady (last + 1) (by omega) (le_refl _))
      rw [Int.add_sub_cancel] at here
      exact here.trans (ih fun instant after before => steady instant after (by omega))

theorem offset_after (shifts : zone.Shifts shift) (after : shift ≤ instant)
    (near : instant < shift + 345600000) : zone.offset instant = zone.offset shift := by
  apply offset_eq_of_not_shifts after
  intro other later before again
  have far := zone.apart shift other shifts again later
  omega

theorem offset_before (shifts : zone.Shifts shift) (before : instant < shift)
    (near : shift ≤ instant + 345600000) :
    zone.offset instant = zone.offset (shift - 1) := by
  apply Eq.symm
  apply offset_eq_of_not_shifts (by omega)
  intro other later earlier again
  have far := zone.apart other shift again shifts (by omega)
  omega

/-- Within four days the clock loses less than a day. -/
theorem reading_drift (first last : Int) (le : first ≤ last) (near : last < first + 345600000) :
    last - first - 86400000 < zone.reading last - zone.reading first := by
  unfold TimeZone.reading
  by_cases steady : ∀ instant, first < instant → instant ≤ last → ¬zone.Shifts instant
  · rw [offset_eq_of_not_shifts le steady]
    omega
  · push Not at steady
    rcases steady with ⟨shift, later, before, shifts⟩
    have same := offset_after shifts before (by omega)
    have earlier := offset_before shifts later (by omega)
    have slight := zone.slight shift
    omega

/-- A clock that passes a reading without showing it leaves it out. -/
theorem exists_passed (le : first ≤ last) (before : zone.reading first < reading)
    (after : reading < zone.reading last) (never : ∀ instant, zone.reading instant ≠ reading) :
    ∃ shift, first < shift ∧ shift ≤ last ∧ zone.reading (shift - 1) < reading ∧
      reading < zone.reading shift := by
  induction last, le using Int.leInduction with
  | base => omega
  | succ last le ih =>
      rcases lt_trichotomy (zone.reading last) reading with earlier | same | later
      · refine ⟨last + 1, by omega, le_refl _, ?_, after⟩
        rwa [Int.add_sub_cancel]
      · exact absurd same (never last)
      · rcases ih later with ⟨shift, since, until_, passes⟩
        exact ⟨shift, since, by omega, passes⟩

theorem reading_near (instant : Int) : instant - 86400000 < zone.reading instant ∧
    zone.reading instant < instant + 86400000 := by
  have bounded := zone.bounded instant
  unfold TimeZone.reading
  omega

theorem exists_gap (never : ∀ instant, zone.reading instant ≠ reading) :
    ∃ shift, zone.InGap reading shift := by
  have low := (zone.reading_near (reading - 86400000)).2
  have high := (zone.reading_near (reading + 86400000)).1
  have le : reading - 86400000 ≤ reading + 86400000 := by
    omega
  rcases exists_passed le (by omega) (by omega) never with ⟨shift, -, -, before, after⟩
  unfold TimeZone.reading at before after
  refine ⟨shift, ?_, by omega, after⟩
  intro same
  omega

section

variable (gap : zone.InGap reading shift)
include gap

theorem InGap.near : shift - 86400000 < reading ∧ reading < shift + 86400000 := by
  have opens := gap.opens
  have closes := gap.closes
  have first := zone.bounded (shift - 1)
  have second := zone.bounded shift
  omega

/-- Around a gap every instant within three days is on the one side or on the other. -/
theorem InGap.sides (instant : Int)
    (near : reading - 259200000 < instant ∧ instant < reading + 259200000) :
    (instant < shift ∧ zone.offset instant = zone.offset (shift - 1) ∧
        zone.reading instant < reading) ∨
      (shift ≤ instant ∧ zone.offset instant = zone.offset shift ∧
        reading < zone.reading instant) := by
  have around := gap.near
  have opens := gap.opens
  have closes := gap.closes
  unfold TimeZone.reading
  rcases lt_or_ge instant shift with before | after
  · have same := offset_before gap.shifts before (by omega)
    exact .inl ⟨before, same, by omega⟩
  · have same := offset_after gap.shifts after (by omega)
    exact .inr ⟨after, same, by omega⟩

/-- A reading in a gap is never shown. -/
theorem InGap.never (instant : Int) : zone.reading instant ≠ reading := by
  intro shown
  have near := zone.reading_near instant
  rcases gap.sides instant (by omega) with ⟨-, -, less⟩ | ⟨-, -, more⟩
  · omega
  · omega

theorem InGap.unique (again : zone.InGap reading other) : shift = other := by
  have near := gap.near
  have nearToo := again.near
  rcases lt_trichotomy shift other with less | same | more
  · have far := zone.apart shift other gap.shifts again.shifts less
    omega
  · exact same
  · have far := zone.apart other shift again.shifts gap.shifts more
    omega

end

/-! ## The instant of a reading -/

theorem Occurs.near (occurs : zone.Occurs reading instant) :
    reading - 86400000 < instant ∧ instant < reading + 86400000 := by
  rcases occurs with ⟨shown, -⟩ | ⟨shift, -, rfl⟩
  · have near := zone.reading_near instant
    omega
  · have bounded := zone.bounded (shift - 1)
    omega

/-- What the clock shows at the instant of a reading that it leaves out. -/
theorem InGap.shifted (gap : zone.InGap reading shift) :
    shift ≤ reading - 1000 * zone.offset (shift - 1) ∧
      zone.reading (reading - 1000 * zone.offset (shift - 1)) =
        reading + 1000 * (zone.offset shift - zone.offset (shift - 1)) := by
  have opens := gap.opens
  have closes := gap.closes
  have slight := zone.slight shift
  have after : shift ≤ reading - 1000 * zone.offset (shift - 1) := by
    omega
  have same := offset_after gap.shifts after (by omega)
  unfold TimeZone.reading
  omega

theorem Occurs.reading_ge (occurs : zone.Occurs reading instant) :
    reading ≤ zone.reading instant := by
  rcases occurs with ⟨shown, -⟩ | ⟨shift, gap, rfl⟩
  · exact shown.ge
  · have shifted := gap.shifted.2
    have opens := gap.opens
    have closes := gap.closes
    omega

theorem Occurs.unique (occurs : zone.Occurs reading instant) (again : zone.Occurs reading other) :
    instant = other := by
  rcases occurs with ⟨shown, first⟩ | ⟨shift, gap, rfl⟩
  · rcases again with ⟨shownToo, firstToo⟩ | ⟨shift, gap, -⟩
    · exact le_antisymm (first other shownToo) (firstToo instant shown)
    · exact absurd shown (gap.never instant)
  · rcases again with ⟨shown, -⟩ | ⟨shiftToo, gapToo, rfl⟩
    · exact absurd shown (gap.never other)
    · rw [gap.unique gapToo]

/-- A clock that is a day past a reading has shown it before. -/
theorem Occurs.lt_of_day_past (occurs : zone.Occurs reading instant)
    (past : reading + 86400000 ≤ zone.reading other) : instant < other := by
  have near := occurs.near
  have nearToo := zone.reading_near other
  by_contra not_before
  rcases occurs with ⟨shown, -⟩ | ⟨shift, gap, rfl⟩
  · have drift := zone.reading_drift other instant (by omega) (by omega)
    omega
  · have shifted := gap.shifted.2
    have opens := gap.opens
    have slight := zone.slight shift
    rcases gap.sides other (by omega) with ⟨before, -, less⟩ | ⟨after, same, -⟩
    · omega
    · have shown : zone.reading other = other + 1000 * zone.offset shift := by
        rw [← same]
        rfl
      omega

theorem mem_of_earliest {result : LocalResult} (found : result.earliest = some instant) :
    instant ∈ result.instants :=
  List.mem_of_head? found

theorem checked_eq_some {found : Int} (checks : zone.checked reading = some found) :
    found = reading := by
  unfold checked at checks
  split at checks
  · exact (Option.some.inj checks).symm
  · cases checks

/-- The instant nearby has a reading within two days. -/
theorem reading_of_nearby {step : Int} (found : zone.nearby reading step = some instant) :
    ∃ hours : Nat, 1 ≤ hours ∧ hours ≤ 48 ∧ zone.reading instant = reading + step * hours := by
  rcases List.exists_of_findSome?_eq_some found with ⟨hours, listed, probed⟩
  rcases Option.bind_eq_some_iff.mp probed with ⟨there, checks, earliest⟩
  have shown := (zone.mem_fromLocal there instant).mp (mem_of_earliest earliest)
  rcases List.mem_range'_1.mp listed with ⟨least, most⟩
  refine ⟨hours, least, by omega, ?_⟩
  rw [← checked_eq_some checks]
  exact shown

/-- The readings that are probed around a gap tell the offsets before it and after it. -/
theorem InGap.offset_of_nearby (gap : zone.InGap reading shift) :
    (∀ before, zone.nearby reading (-3600000) = some before →
        zone.offset before = zone.offset (shift - 1)) ∧
      ∀ after, zone.nearby reading 3600000 = some after →
        zone.offset after = zone.offset shift := by
  constructor
  · intro before found
    rcases reading_of_nearby found with ⟨hours, some_hours, few_hours, earlier⟩
    have near := zone.reading_near before
    rcases gap.sides before (by omega) with ⟨-, same, -⟩ | ⟨-, -, more⟩
    · exact same
    · omega
  · intro after found
    rcases reading_of_nearby found with ⟨hours, some_hours, few_hours, later⟩
    have near := zone.reading_near after
    rcases gap.sides after (by omega) with ⟨-, -, less⟩ | ⟨-, same, -⟩
    · omega
    · exact same

/-- `resolve` finds the instant of a reading. -/
theorem occurs_of_resolve (found : zone.resolve reading = some instant) :
    zone.Occurs reading instant := by
  have shown := zone.mem_fromLocal reading
  unfold resolve at found
  split at found
  · rename_i single
    cases found
    rw [single] at shown
    exact .inl ⟨(shown instant).mp (List.mem_singleton_self _), fun other same =>
      (List.mem_singleton.mp ((shown other).mpr same)).ge⟩
  · rename_i first second ambiguous
    cases found
    rw [ambiguous] at shown
    constructor
    constructor
    · rcases min_choice first second with least | least
      · rw [least]
        exact (shown first).mp (by simp [LocalResult.instants])
      · rw [least]
        exact (shown second).mp (by simp [LocalResult.instants])
    · intro other same
      rcases List.mem_pair.mp ((shown other).mpr same) with rfl | rfl
      · exact min_le_left _ _
      · exact min_le_right _ _
  · rename_i none
    rw [none] at shown
    have never : ∀ other, zone.reading other ≠ reading := fun other same =>
      List.not_mem_nil ((shown other).mpr same)
    rcases exists_gap never with ⟨shift, gap⟩
    rcases Option.bind_eq_some_iff.mp found with ⟨before, found_before, rest⟩
    rcases Option.bind_eq_some_iff.mp rest with ⟨after, found_after, rest⟩
    rw [gap.offset_of_nearby.1 before found_before, gap.offset_of_nearby.2 after found_after] at rest
    dsimp only at rest
    split at rest
    · cases rest
    · rcases Option.bind_eq_some_iff.mp rest with ⟨shifted, checks, earliest⟩
      have shows := (zone.mem_fromLocal shifted instant).mp (mem_of_earliest earliest)
      rw [checked_eq_some checks] at shows
      have slight := zone.slight shift
      have near := zone.reading_near instant
      have shown_there : zone.reading instant =
          reading + 1000 * (zone.offset shift - zone.offset (shift - 1)) := shows
      rcases gap.sides instant (by omega) with ⟨-, -, less⟩ | ⟨-, same, -⟩
      · omega
      · exact .inr ⟨shift, gap, by omega⟩

theorem isSome_earliest (shown : zone.reading instant = reading) :
    ∃ found, (zone.fromLocal reading).earliest = some found := by
  have listed := (zone.mem_fromLocal reading instant).mpr shown
  cases instants : (zone.fromLocal reading).instants with
  | nil =>
      rw [instants] at listed
      cases listed
  | cons found others => exact ⟨found, by rw [LocalResult.earliest, instants, List.head?_cons]⟩

/-- A reading that is shown a day before or after is found nearby. -/
theorem exists_nearby {step : Int} (inside : zone.inCalendar (reading + step * 24) = true)
    (shown : zone.reading instant = reading + step * 24) :
    ∃ found, zone.nearby reading step = some found := by
  rcases isSome_earliest shown with ⟨found, earliest⟩
  apply Option.isSome_iff_exists.mp
  apply List.findSome?_isSome_iff.mpr
  refine ⟨24, by decide, ?_⟩
  have checks : zone.checked (reading + step * (24 : Nat)) = some (reading + step * 24) :=
    if_pos inside
  rw [checks]
  exact Option.isSome_iff_exists.mpr ⟨found, earliest⟩

/-- `resolve` finds an instant of every reading that the calendar covers with a day before and
after it. -/
theorem exists_resolved (covers : ∀ other, reading - 86400000 ≤ other →
      other ≤ reading + 86400000 → zone.inCalendar other = true) :
    ∃ instant, zone.resolve reading = some instant := by
  have shown := zone.mem_fromLocal reading
  unfold resolve
  split
  · exact ⟨_, rfl⟩
  · exact ⟨_, rfl⟩
  · rename_i none
    rw [none] at shown
    have never : ∀ other, zone.reading other ≠ reading := fun other same =>
      List.not_mem_nil ((shown other).mpr same)
    rcases exists_gap never with ⟨shift, gap⟩
    have opens := gap.opens
    have closes := gap.closes
    have slight := zone.slight shift
    have first := zone.bounded (shift - 1)
    have second := zone.bounded shift
    have day_before : zone.reading (reading - 1000 * zone.offset (shift - 1) - 86400000) =
        reading + -3600000 * 24 := by
      have before : reading - 1000 * zone.offset (shift - 1) - 86400000 < shift := by
        omega
      have same := offset_before gap.shifts before (by omega)
      unfold TimeZone.reading
      omega
    have day_after : zone.reading (reading - 1000 * zone.offset shift + 86400000) =
        reading + 3600000 * 24 := by
      have after : shift ≤ reading - 1000 * zone.offset shift + 86400000 := by
        omega
      have same := offset_after gap.shifts after (by omega)
      unfold TimeZone.reading
      omega
    rcases exists_nearby (covers _ (by omega) (by omega)) day_before with ⟨before, found_before⟩
    rcases exists_nearby (covers _ (by omega) (by omega)) day_after with ⟨after, found_after⟩
    rcases isSome_earliest gap.shifted.2 with ⟨found, earliest⟩
    refine ⟨found, ?_⟩
    simp only [found_before, found_after, Option.bind_eq_bind, Option.bind_some,
      gap.offset_of_nearby.1 before found_before, gap.offset_of_nearby.2 after found_after]
    rw [if_neg (by omega), checked, if_pos (covers _ (by omega) (by omega)), Option.bind_some,
      earliest]

end TimeZone

end Zeron.Scheduling
