import CyranoAgent.Contracts.Canonical
import CyranoAgent.Lib.Outcome
import Mathlib.Order.Bounds.Basic

/-!
# Cron schedules

Instants and local times are whole seconds within the years 1 to 9999, and arithmetic that leaves
them raises. A schedule is an interval, a local time of one date, or one of every day; its kind says
whether it repeats, and is independent of that. What the zone database and the printing of times do
is the host's.
-/

namespace CyranoAgent

open Lib

namespace Cron

/-- What the code raises: a `CronJobError` with its text, or an error of the language. -/
inductive CronError
  | cronJobError (message : String)
  | overflowError
  | valueError
  deriving DecidableEq

/-! ### Dates and times -/

/-- A `datetime` of whole seconds, in UTC or without a zone: the seconds since 1970. -/
structure Datetime where
  seconds : ℤ
  inRange : -62135596800 ≤ seconds ∧ seconds ≤ 253402300799
  deriving DecidableEq

/-- A sum of a `datetime` and a duration. -/
def Datetime.add (t : Datetime) (seconds : ℤ) : Except CronError Datetime :=
  if h : -62135596800 ≤ t.seconds + seconds ∧ t.seconds + seconds ≤ 253402300799 then
    .ok ⟨t.seconds + seconds, h⟩
  else .error .overflowError

/-- A `timedelta` of whole seconds. -/
def timedelta (seconds : ℤ) : Except CronError ℤ :=
  if -86399999913600 ≤ seconds ∧ seconds ≤ 86399999999999 then .ok seconds
  else .error .overflowError

/-- A day of the calendar: its number, counted from 1970-01-01. -/
structure Day where
  number : ℤ
  inRange : -719162 ≤ number ∧ number ≤ 2932896

/-- `day + timedelta(days=days)`. -/
def Day.addDays (day : Day) (days : ℤ) : Except CronError Day :=
  if h : -719162 ≤ day.number + days ∧ day.number + days ≤ 2932896 then .ok ⟨_, h⟩
  else .error .overflowError

/-- `t.date()`. -/
def Datetime.date (t : Datetime) : Day :=
  ⟨t.seconds / 86400, by have h := t.inRange; omega⟩

/-- A time of a day, to the minute. -/
structure Clock where
  hour : ℤ
  minute : ℤ
  inRange : (0 ≤ hour ∧ hour ≤ 23) ∧ 0 ≤ minute ∧ minute ≤ 59

/-- `datetime.combine(day, time(hour, minute))`. -/
def Day.combine (day : Day) (clock : Clock) : Datetime :=
  ⟨day.number * 86400 + clock.hour * 3600 + clock.minute * 60, by
    have hday := day.inRange
    have hclock := clock.inRange
    omega⟩

/-- Whether a year is a leap year. -/
def isLeap (year : ℤ) : Bool := year % 4 = 0 ∧ (year % 100 ≠ 0 ∨ year % 400 = 0)

/-- The days of a month. -/
def daysInMonth (year month : ℤ) : ℤ :=
  if month = 2 then if isLeap year then 29 else 28
  else if month ∈ [4, 6, 9, 11] then 30 else 31

/-- A calendar date. -/
structure Date where
  year : ℤ
  month : ℤ
  day : ℤ
  year_inRange : 1 ≤ year ∧ year ≤ 9999
  month_inRange : 1 ≤ month ∧ month ≤ 12
  day_inRange : 1 ≤ day ∧ day ≤ daysInMonth year month

/-- The days of a year before a month. -/
def daysBeforeMonth (year month : ℤ) : ℤ :=
  [0, 31, 59, 90, 120, 151, 181, 212, 243, 273, 304, 334].getD (month - 1).toNat 0 +
    if 2 < month ∧ isLeap year then 1 else 0

/-- The days before a year, counted from 0001-01-01. -/
def daysBeforeYear (year : ℤ) : ℤ :=
  (year - 1) * 365 + (year - 1) / 4 - (year - 1) / 100 + (year - 1) / 400

/-- A year has room for its months. -/
theorem daysBeforeMonth_add_le (year : ℤ) {month : ℤ} (h : 1 ≤ month ∧ month ≤ 12) :
    0 ≤ daysBeforeMonth year month ∧ daysBeforeMonth year month + daysInMonth year month ≤
      365 + if isLeap year then 1 else 0 := by
  obtain ⟨hlow, hhigh⟩ := h
  rcases hleap : isLeap year <;> interval_cases month <;>
    simp [daysBeforeMonth, daysInMonth, hleap]

/-- The day of a date. -/
def Date.toDay (date : Date) : Day :=
  ⟨daysBeforeYear date.year + daysBeforeMonth date.year date.month + date.day - 719163, by
    have hmonth := daysBeforeMonth_add_le date.year date.month_inRange
    have hyear := date.year_inRange
    have hday := date.day_inRange
    rw [daysBeforeYear]
    by_cases hlast : date.year = 9999
    · rw [hlast, show isLeap 9999 = false from rfl] at hmonth
      rw [hlast] at hday ⊢
      simp only [Bool.false_eq_true, if_false] at hmonth
      omega
    · split at hmonth <;> omega⟩

/-! ### Zones -/

/-- A `ZoneInfo`: the offset at a local time, the earlier one where there are two, and at an
instant. -/
structure Zone where
  key : String
  localOffset : Datetime → ℤ
  offsetAt : Datetime → ℤ

/-- `naive.replace(tzinfo=zone).astimezone(UTC)`. -/
def Zone.toUtc (zone : Zone) (naive : Datetime) : Except CronError Datetime :=
  naive.add (-zone.localOffset naive)

/-- `t.astimezone(zone).replace(tzinfo=None)`. -/
def Zone.fromUtc (zone : Zone) (t : Datetime) : Except CronError Datetime := t.add (zone.offsetAt t)

/-- What the code takes from the language and its host: the zone database, the texts of strings and
times in messages, and what compares equal to the version number. -/
structure Host where
  zoneInfo : String → Option Zone
  repr : String → String
  isoformat : Datetime → String
  naiveIsoformat : Datetime → String
  isVersion : PyValue → Bool
  isVersion_int : ∀ n, isVersion (.int n) = decide (n = 1)

section

variable (H : Host)

/-- `_resolve_zone`, with `resolve_zone` in it. -/
def resolveZone (name : String) : Except String Zone :=
  if name ≠ "UTC" ∧ '/' ∉ name.toList then
    .error ("timezone must be an IANA region name such as 'America/New_York', or 'UTC', not " ++
      H.repr name)
  else
    match H.zoneInfo name with
    | some zone => .ok zone
    | none =>
      .error ("unknown timezone " ++ H.repr name ++ "; use an IANA name such as 'America/New_York'")

/-- `_local_time_exists`. -/
def localTimeExists (naive : Datetime) (zone : Zone) : Except CronError Bool := do
  let utc ← zone.toUtc naive
  let back ← zone.fromUtc utc
  return back = naive

/-- The loop of `_localize`, with the probes that are left. -/
def localizeFrom (zone : Zone) (naive : Datetime) : ℕ → Datetime → Except CronError Datetime
  | 0, _ =>
    .error (.cronJobError
      ("no valid local time near " ++ H.naiveIsoformat naive ++ " in " ++ zone.key))
  | n + 1, probe => do
    if ← localTimeExists probe zone then return probe
    else
      let next ← probe.add 60
      localizeFrom zone naive n next

/-- `_localize`. -/
def localize (naive : Datetime) (zone : Zone) : Except CronError Datetime :=
  localizeFrom H zone naive 1440 naive

/-- `_localize(naive, zone).astimezone(UTC)`. -/
def localInstant (naive : Datetime) (zone : Zone) : Except CronError Datetime := do
  zone.toUtc (← localize H naive zone)

/-- The loop of `_next_daily_instant`, over the days to look at. -/
def nextDailyFrom (now : Datetime) (zone : Zone) (clock : Clock) (localDate : Day) :
    List ℤ → Except CronError Datetime
  | [] =>
    .error (.cronJobError
      ("could not find a daily run after " ++ H.isoformat now ++ " in " ++ zone.key))
  | offset :: offsets => do
    let date ← localDate.addDays offset
    let instant ← localInstant H (date.combine clock) zone
    if now.seconds < instant.seconds then return instant
    else nextDailyFrom now zone clock localDate offsets

/-- `_next_daily_instant`. -/
def nextDailyInstant (now : Datetime) (zone : Zone) (clock : Clock) :
    Except CronError Datetime := do
  let there ← zone.fromUtc now
  nextDailyFrom H now zone clock there.date [0, 1, 2]

/-! ### Schedules -/

/-- `ScheduleKind`. -/
inductive ScheduleKind
  | oneShot
  | recurring
  deriving DecidableEq

/-- `ScheduleForm`. -/
inductive ScheduleForm
  | interval
  | atDate
  | daily
  deriving DecidableEq

/-- What the form of a schedule computes from: the fields of that form, which are valid. -/
inductive Timing
  | interval (minutes : ℤ) (atLeast : 1 ≤ minutes)
  | atDate (timezone : String) (zone : Zone) (resolved : resolveZone H timezone = .ok zone)
      (clock : Clock) (localDate : Date)
  | daily (timezone : String) (zone : Zone) (resolved : resolveZone H timezone = .ok zone)
      (clock : Clock)

/-- `CronSchedule`. -/
structure CronSchedule where
  kind : ScheduleKind
  display : String
  short : display.length ≤ 200
  timing : Timing H

/-- The arguments of `CronSchedule`. -/
structure ScheduleFields where
  kind : ScheduleKind
  minutes : Option ℤ
  display : String
  form : ScheduleForm := .interval
  timezone : Option String := none
  hour : Option ℤ := none
  minute : Option ℤ := none
  localDate : Option Date := none

/-- `_validate_interval`. -/
def validateInterval (fields : ScheduleFields) : Except String (Timing H) :=
  match fields.minutes with
  | none => .error "interval schedules require a minute count"
  | some minutes =>
    if h : minutes < 1 then .error "cron schedules must be at least 1 minute"
    else if fields.timezone.isSome ∨ fields.hour.isSome ∨ fields.minute.isSome ∨
        fields.localDate.isSome then
      .error "interval schedules cannot carry wall-clock fields"
    else .ok (.interval minutes (not_lt.mp h))

/-- `_validate_wall_clock`. -/
def validateWallClock (fields : ScheduleFields) : Except String (Timing H) :=
  if fields.minutes.isSome then .error "wall-clock schedules cannot carry a minute count"
  else
    match fields.timezone, fields.hour, fields.minute with
    | some timezone, some hour, some minute =>
      match hzone : resolveZone H timezone with
      | .error e => .error e
      | .ok zone =>
        if hclock : (0 ≤ hour ∧ hour ≤ 23) ∧ 0 ≤ minute ∧ minute ≤ 59 then
          if fields.form = .atDate then
            match fields.localDate with
            | none => .error "one-shot wall-clock schedules require a local date"
            | some localDate => .ok (.atDate timezone zone hzone ⟨hour, minute, hclock⟩ localDate)
          else if fields.localDate.isSome then
            .error "daily schedules cannot carry a local date"
          else .ok (.daily timezone zone hzone ⟨hour, minute, hclock⟩)
        else
          .error (toString hour ++ ":" ++ toString minute ++ " is not a valid 24-hour local time")
    | _, _, _ => .error "wall-clock schedules require a timezone, an hour, and a minute"

/-- `CronSchedule.__post_init__`. -/
def CronSchedule.postInit (fields : ScheduleFields) : Except String (CronSchedule H) :=
  if h : 200 < fields.display.length then
    .error "schedule text must be at most 200 characters"
  else
    let timing := if fields.form = .interval then validateInterval H fields
      else validateWallClock H fields
    timing.map fun timing => ⟨fields.kind, fields.display, not_lt.mp h, timing⟩

/-- `_next_interval`. -/
def nextInterval (minutes : ℤ) (now : Datetime) (previous : Option Datetime) :
    Except CronError Datetime := do
  let interval ← timedelta (minutes * 60)
  match previous with
  | none => now.add interval
  | some previous =>
    if now.seconds < previous.seconds then now.add interval
    else
      let elapsed ← timedelta (interval * ((now.seconds - previous.seconds) / interval + 1))
      previous.add elapsed

/-- `CronSchedule.next_after`. -/
def CronSchedule.nextAfter (schedule : CronSchedule H) (now : Datetime)
    (previous : Option Datetime) : Except CronError Datetime :=
  match schedule.timing with
  | .interval minutes _ => nextInterval minutes now previous
  | .atDate _ zone _ clock localDate => localInstant H (localDate.toDay.combine clock) zone
  | .daily _ zone _ clock => nextDailyInstant H now zone clock

/-- The form of a schedule. -/
def CronSchedule.form (schedule : CronSchedule H) : ScheduleForm :=
  match schedule.timing with
  | .interval .. => .interval
  | .atDate .. => .atDate
  | .daily .. => .daily

end

/-! ### The next run -/

section

variable {H : Host} {now t : Datetime} {minutes : ℤ} {zone : Zone} {clock : Clock}

theorem Datetime.add_eq_ok {t' : Datetime} {seconds : ℤ} :
    t.add seconds = .ok t' ↔ t.seconds + seconds = t'.seconds := by
  rw [Datetime.add]
  split
  next => rw [Except.ok.injEq, Datetime.mk.injEq]
  next h =>
    refine ⟨fun h' => (by cases h'), fun h' => absurd ?_ h⟩
    rw [h']
    exact t'.inRange

theorem timedelta_eq_ok {seconds duration : ℤ} : timedelta seconds = .ok duration ↔
    (-86399999913600 ≤ seconds ∧ seconds ≤ 86399999999999) ∧ seconds = duration := by
  rw [timedelta]
  split
  next h => rw [Except.ok.injEq, and_iff_right h]
  next h => exact ⟨fun h' => (by cases h'), fun h' => absurd h'.1 h⟩

/-- **The next run of an interval** that is due: the intervals that have passed and one more are
added to the previous run, as far as the calendar reaches. -/
theorem nextInterval_eq_ok (hminutes : 1 ≤ minutes) {previous : Datetime}
    (hdue : previous.seconds ≤ now.seconds) :
    nextInterval minutes now (some previous) = .ok t ↔ t.seconds = previous.seconds +
      minutes * 60 * ((now.seconds - previous.seconds) / (minutes * 60) + 1) := by
  rw [nextInterval, except_bind_eq_ok]
  simp only [timedelta_eq_ok, not_lt.mpr hdue, if_false, except_bind_eq_ok, Datetime.add_eq_ok]
  constructor
  · rintro ⟨_, ⟨-, rfl⟩, _, ⟨-, rfl⟩, h⟩
    exact h.symm
  · intro h
    have hprevious := previous.inRange
    have ht := t.inRange
    have hcount : 0 ≤ (now.seconds - previous.seconds) / (minutes * 60) :=
      Int.ediv_nonneg (by omega) (by omega)
    -- one interval is no longer than all of them, and these fit between two instants
    have hone : minutes * 60 ≤
        minutes * 60 * ((now.seconds - previous.seconds) / (minutes * 60) + 1) :=
      le_mul_of_one_le_right (by omega) (by omega)
    exact ⟨_, ⟨by omega, rfl⟩, _, ⟨by omega, rfl⟩, h.symm⟩

/-- **The next run of an interval keeps its phase**: it is the least instant after `now` that is a
number of intervals from the previous run. -/
theorem isLeast_nextInterval (hminutes : 1 ≤ minutes) {previous : Datetime}
    (hdue : previous.seconds ≤ now.seconds)
    (h : nextInterval minutes now (some previous) = .ok t) :
    IsLeast {x : ℤ | now.seconds < x ∧ ∃ k : ℤ, x = previous.seconds + k * (minutes * 60)}
      t.seconds := by
  have hpos : 0 < minutes * 60 := by omega
  rw [nextInterval_eq_ok hminutes hdue] at h
  rw [h]
  refine ⟨⟨?_, _, by rw [mul_comm]⟩, ?_⟩
  · have hlt := Int.lt_ediv_add_one_mul_self (now.seconds - previous.seconds) hpos
    rw [mul_comm] at hlt
    omega
  · rintro x ⟨hx, k, rfl⟩
    have hk : (now.seconds - previous.seconds) / (minutes * 60) < k :=
      Int.ediv_lt_of_lt_mul hpos (by omega)
    have hle := mul_le_mul_of_nonneg_left (show _ + 1 ≤ k from hk) hpos.le
    rw [mul_comm k]
    omega

/-- The instant of a daily schedule on the day `offset` days from another. -/
def dailyCandidate (H : Host) (zone : Zone) (clock : Clock) (localDate : Day) (offset : ℤ) :
    Except CronError Datetime := do
  let date ← localDate.addDays offset
  localInstant H (date.combine clock) zone

theorem nextDailyFrom_cons {localDate : Day} {offset : ℤ} {offsets : List ℤ} :
    nextDailyFrom H now zone clock localDate (offset :: offsets) = .ok t ↔
      ∃ instant, dailyCandidate H zone clock localDate offset = .ok instant ∧
        if now.seconds < instant.seconds then t = instant
        else nextDailyFrom H now zone clock localDate offsets = .ok t := by
  rw [nextDailyFrom, ← bind_assoc, ← dailyCandidate, except_bind_eq_ok]
  refine exists_congr fun instant => and_congr_right fun _ => ?_
  split
  next => exact ⟨fun h => (Except.ok.inj h).symm, fun h => h ▸ rfl⟩
  next => exact Iff.rfl

/-- **The next run of a daily schedule** is after `now`. -/
theorem lt_of_nextDailyFrom {localDate : Day} {offsets : List ℤ}
    (h : nextDailyFrom H now zone clock localDate offsets = .ok t) : now.seconds < t.seconds := by
  induction offsets with
  | nil => cases h
  | cons offset offsets ih =>
    obtain ⟨instant, -, hinstant⟩ := nextDailyFrom_cons.mp h
    split at hinstant
    next hlt => exact hinstant ▸ hlt
    next => exact ih hinstant

theorem lt_of_nextDailyInstant (h : nextDailyInstant H now zone clock = .ok t) :
    now.seconds < t.seconds := by
  obtain ⟨there, -, hthere⟩ := except_bind_eq_ok.mp h
  exact lt_of_nextDailyFrom hthere

/-- A daily schedule finds a run when some day to look at has an instant after `now`, and the days
before it have one too. -/
theorem exists_nextDailyFrom_iff {localDate : Day} {offsets : List ℤ} :
    (∃ t, nextDailyFrom H now zone clock localDate offsets = .ok t) ↔
      ∃ before offset after, offsets = before ++ offset :: after ∧
        (∃ t, dailyCandidate H zone clock localDate offset = .ok t ∧ now.seconds < t.seconds) ∧
        ∀ offset' ∈ before, ∃ t, dailyCandidate H zone clock localDate offset' = .ok t := by
  induction offsets with
  | nil =>
    refine ⟨fun ⟨t, h⟩ => (by cases h), fun ⟨before, offset, after, h, _⟩ => ?_⟩
    simp at h
  | cons first offsets ih =>
    simp only [nextDailyFrom_cons]
    constructor
    · rintro ⟨t, instant, hfirst, hinstant⟩
      split at hinstant
      next hlt => exact ⟨[], first, offsets, rfl, ⟨instant, hfirst, hlt⟩, by simp⟩
      next =>
        obtain ⟨before, offset, after, rfl, hoffset, hbefore⟩ := ih.mp ⟨t, hinstant⟩
        refine ⟨first :: before, offset, after, rfl, hoffset, ?_⟩
        exact List.forall_mem_cons.mpr ⟨⟨instant, hfirst⟩, hbefore⟩
    · rintro ⟨_ | ⟨_, before⟩, offset, after, hoffsets, hoffset, hbefore⟩
      · obtain ⟨rfl, rfl⟩ := List.cons.inj hoffsets
        obtain ⟨t, ht, hlt⟩ := hoffset
        exact ⟨t, t, ht, by rw [if_pos hlt]⟩
      · obtain ⟨rfl, rfl⟩ := List.cons.inj hoffsets
        obtain ⟨⟨instant, hfirst⟩, hbefore⟩ := List.forall_mem_cons.mp hbefore
        by_cases hlt : now.seconds < instant.seconds
        · exact ⟨instant, instant, hfirst, by rw [if_pos hlt]⟩
        · obtain ⟨t, ht⟩ := ih.mpr ⟨before, offset, after, rfl, hoffset, hbefore⟩
          exact ⟨t, instant, hfirst, by rwa [if_neg hlt]⟩

end

end Cron

end CyranoAgent
