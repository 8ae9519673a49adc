import CyranoAgent.Cron.Schedules
import CyranoAgent.Lib.WallClock

/-!
# The next run of a daily schedule

A zone shows the readings of a wall clock that is moved by less than a day, at whole minutes, and
not twice in three days. What `_localize` makes of a local time is then the first instant at which
the clock reads that time or a later one (`localInstant_eq_ok`), and `_next_daily_instant` finds the
first of these after `now` among today, tomorrow and the day after (`nextDaily_isNext`). These are
whole seconds, so that what `now` has beyond its whole seconds changes nothing.
-/

namespace CyranoAgent

open Lib

namespace Cron

/-- A zone shows the readings of a clock: instants have its offset, a local time that it reads has
the offset of the first reading, and one that it is moved over the offset before. -/
structure Zone.Shows (zone : Zone) (wall : WallClock 86400) : Prop where
  offsetAt : ∀ t : Datetime, zone.offsetAt t = wall.offset t.seconds
  minutes : ∀ u, 60 ∣ wall.offset u
  moves : ∀ u, wall.Moved u → 60 ∣ u
  earlier : ∀ (naive : Datetime) (u : ℤ), wall.reads u = naive.seconds →
    IsLeast {u | wall.reads u = naive.seconds} (naive.seconds - zone.localOffset naive)
  gap : ∀ (naive : Datetime) (u : ℤ), wall.reads (u - 1) < naive.seconds →
    naive.seconds < wall.reads u → (∀ v, wall.reads v ≠ naive.seconds) →
      zone.localOffset naive = wall.offset (u - 1)

/-- The instant of a local time: the earliest reading of it or, if the clock never reads it, of the
first minute after it that the clock does read. -/
def Scheduled (wall : WallClock 86400) (naive : Datetime) (t : ℤ) : Prop :=
  ∃ k : ℕ, (∀ j < k, ∀ u, wall.reads u ≠ naive.seconds + 60 * j) ∧
    IsLeast {u | wall.reads u = naive.seconds + 60 * k} t

/-- A week away from the ends of the years 1 to 9999. -/
def AwayFromEnds (seconds : ℤ) : Prop :=
  -62135596800 + 604800 ≤ seconds ∧ seconds ≤ 253402300799 - 604800

/-! ### Localising a time -/

section

variable {H : Host} {zone : Zone} {wall : WallClock 86400} {naive probe y t now : Datetime}
  {clock : Clock}

theorem Day.dvd_combine (day : Day) (clock : Clock) : 60 ∣ (day.combine clock).seconds := by
  simp only [Day.combine]
  omega

section

variable {h : ℤ} (hzone : zone.Shows wall) (hnaive : 60 ∣ naive.seconds)
  (hfirst : IsLeast {u | naive.seconds ≤ wall.reads u} h)

include hzone hnaive hfirst

/-- At the first instant at which it reads the time or a later one, the clock reads a whole
minute. -/
theorem dvd_reads : 60 ∣ wall.reads h := by
  obtain heq | ⟨hmoved, -⟩ := WallClock.reads_eq_or_moved hfirst
  · rwa [heq]
  · exact dvd_add (hzone.moves _ hmoved) (hzone.minutes _)

/-- **This is the scheduled instant**, and the only one. -/
theorem scheduled_iff {u : ℤ} : Scheduled wall naive u ↔ u = h := by
  have hle : naive.seconds ≤ wall.reads h := hfirst.1
  have hdvd := dvd_reads hzone hnaive hfirst
  have hleast := WallClock.isLeast_reads hfirst
  obtain ⟨m, hm⟩ : ∃ m : ℕ, naive.seconds + 60 * m = wall.reads h :=
    ⟨((wall.reads h - naive.seconds) / 60).toNat, by omega⟩
  have hnone : ∀ j < m, ∀ v, wall.reads v ≠ naive.seconds + 60 * j := fun j hj =>
    WallClock.not_reads hfirst (by omega) (by omega)
  rw [← hm] at hleast
  constructor
  · rintro ⟨k, hbefore, hk⟩
    obtain hlt | rfl | hlt := lt_trichotomy k m
    · exact absurd hk.1 (hnone k hlt u)
    · exact hk.unique hleast
    · exact absurd hleast.1 (hbefore m hlt h)
  · rintro rfl
    exact ⟨m, hnone, hleast⟩

end

section

variable (hzone : zone.Shows wall) (hfirst : IsLeast {u | naive.seconds ≤ wall.reads u} t.seconds)

include hzone hfirst

/-- The time that the clock then reads exists, and is of that instant. -/
theorem toUtc_eq_ok (hy : y.seconds = wall.reads t.seconds) :
    zone.toUtc y = .ok t ∧ localTimeExists y zone = .ok true := by
  have hleast := WallClock.isLeast_reads hfirst
  rw [← hy] at hleast
  have hearlier := (hzone.earlier y _ hy.symm).unique hleast
  have hutc : zone.toUtc y = .ok t := Datetime.add_eq_ok.mpr hearlier
  have hback : zone.fromUtc t = .ok y := by
    refine Datetime.add_eq_ok.mpr ?_
    rw [hzone.offsetAt, hy, WallClock.reads]
  refine ⟨hutc, except_bind_eq_ok.mpr ⟨t, hutc, except_bind_eq_ok.mpr ⟨y, hback, ?_⟩⟩⟩
  simp [pure, Except.pure]

/-- A time between does not exist: through UTC it comes back as a later one. -/
theorem localTimeExists_eq_false (ht : t.seconds + 86400 ≤ 253402300799)
    (hreads : wall.reads t.seconds + 86400 ≤ 253402300799)
    (hprobe : naive.seconds ≤ probe.seconds) (hlt : probe.seconds < wall.reads t.seconds) :
    localTimeExists probe zone = .ok false := by
  have hnever := WallClock.not_reads hfirst hprobe hlt
  obtain heq | ⟨hmoved, -⟩ := WallClock.reads_eq_or_moved hfirst
  · omega
  have hpred := WallClock.reads_pred_lt hfirst
  have hoffset := hzone.gap probe t.seconds (by omega) hlt hnever
  have hshort := abs_lt.mp (wall.short t.seconds)
  have htRange := t.inRange
  have hprobeRange := probe.inRange
  -- the probe is taken for less than a day after the move, when the clock runs evenly
  have hsame : ∀ u, t.seconds ≤ u → u < t.seconds + 86400 →
      wall.offset u = wall.offset t.seconds := fun u htu hut =>
    WallClock.offset_eq htu fun v htv hvu hv => by
      have hapart := wall.apart t.seconds v htv hmoved hv
      omega
  rw [WallClock.reads] at hpred hlt hreads
  obtain ⟨u, hu⟩ : ∃ u : Datetime, u.seconds = probe.seconds - zone.localOffset probe :=
    ⟨⟨probe.seconds - zone.localOffset probe, by omega⟩, rfl⟩
  have hoffsetAt := hzone.offsetAt u
  rw [hsame _ (by omega) (by omega)] at hoffsetAt
  obtain ⟨back, hback⟩ : ∃ back : Datetime, back.seconds = u.seconds + wall.offset t.seconds :=
    ⟨⟨u.seconds + wall.offset t.seconds, by omega⟩, rfl⟩
  have hutc : zone.toUtc probe = .ok u := Datetime.add_eq_ok.mpr (by omega)
  have hfrom : zone.fromUtc u = .ok back := Datetime.add_eq_ok.mpr (by omega)
  refine except_bind_eq_ok.mpr ⟨u, hutc, except_bind_eq_ok.mpr ⟨back, hfrom, ?_⟩⟩
  have hne : back ≠ probe := by
    rintro rfl
    omega
  simp [pure, Except.pure, hne]

/-- The loop of `_localize` reaches the time that exists, if it has the probes for it. -/
theorem localizeFrom_eq_ok (hy : y.seconds = wall.reads t.seconds)
    (ht : t.seconds + 86400 ≤ 253402300799)
    (hreads : wall.reads t.seconds + 86400 ≤ 253402300799) {k n : ℕ} (hkn : k < n)
    (hprobe : naive.seconds ≤ probe.seconds) (hk : probe.seconds + 60 * k = y.seconds) :
    localizeFrom H zone naive n probe = .ok y := by
  obtain ⟨n, rfl⟩ : ∃ m, n = m + 1 := ⟨n - 1, by omega⟩
  induction k generalizing n probe with
  | zero =>
    obtain rfl : probe = y := by
      rw [Datetime.mk.injEq]
      omega
    have hexists := (toUtc_eq_ok hzone hfirst hy).2
    rw [localizeFrom, hexists]
    rfl
  | succ k ih =>
    have hyRange := y.inRange
    have hprobeRange := probe.inRange
    have hexists := localTimeExists_eq_false hzone hfirst ht hreads hprobe (by omega)
    have hnext : probe.add 60 = .ok ⟨probe.seconds + 60, by omega⟩ := Datetime.add_eq_ok.mpr rfl
    rw [localizeFrom, hexists]
    simp only [Except.bind, bind, hnext]
    obtain ⟨m, rfl⟩ : ∃ m, n = m + 1 := ⟨n - 1, by omega⟩
    exact ih (by simp only; omega) (by push_cast at hk; simp only; omega) m (by omega)

/-- **`_localize` finds the scheduled instant** of a local time. -/
theorem localInstant_eq_ok (hnaive : 60 ∣ naive.seconds) (ht : t.seconds + 86400 ≤ 253402300799)
    (hreads : wall.reads t.seconds + 86400 ≤ 253402300799) :
    localInstant H naive zone = .ok t := by
  have hle : naive.seconds ≤ wall.reads t.seconds := hfirst.1
  have hnaiveRange := naive.inRange
  obtain ⟨y, hy⟩ : ∃ y : Datetime, y.seconds = wall.reads t.seconds :=
    ⟨⟨wall.reads t.seconds, by omega⟩, rfl⟩
  have hdvd := dvd_reads hzone hnaive hfirst
  have hlt := WallClock.reads_lt_of_isLeast hfirst
  refine except_bind_eq_ok.mpr ⟨y, ?_, (toUtc_eq_ok hzone hfirst hy).1⟩
  exact localizeFrom_eq_ok hzone hfirst hy ht hreads
    (k := ((y.seconds - naive.seconds) / 60).toNat) (by omega) le_rfl (by omega)

end

/-! ### The next of the days -/

theorem Day.seconds_combine (day : Day) (clock : Clock) :
    day.number * 86400 ≤ (day.combine clock).seconds ∧
      (day.combine clock).seconds < day.number * 86400 + 86400 := by
  have hclock := clock.inRange
  simp only [Day.combine]
  omega

/-- Later days are scheduled later, or at the same instant. -/
theorem combine_le {day day' : Day} (h : day.number ≤ day'.number) :
    (day.combine clock).seconds ≤ (day'.combine clock).seconds := by
  simp only [Day.combine]
  omega

section

variable (hzone : zone.Shows wall)

include hzone

theorem isLeast_of_scheduled {day : Day} {u : ℤ} (h : Scheduled wall (day.combine clock) u) :
    IsLeast {v | (day.combine clock).seconds ≤ wall.reads v} u := by
  obtain ⟨first, hfirst⟩ := wall.exists_isLeast (day.combine clock).seconds
  rwa [(scheduled_iff hzone (day.dvd_combine clock) hfirst).mp h]

/-- A day is next if its instant is after `now` and the days before it have theirs by then. -/
theorem isNext_of_first {day : Day}
    (hfirst : IsLeast {u | (day.combine clock).seconds ≤ wall.reads u} t.seconds)
    (hbefore : ∀ day' : Day, day'.number < day.number →
      ∃ v ≤ now.seconds, (day'.combine clock).seconds ≤ wall.reads v) :
    (∃ day : Day, Scheduled wall (day.combine clock) t.seconds) ∧
      ∀ (day : Day) (u : ℤ), Scheduled wall (day.combine clock) u →
        ¬(now.seconds < u ∧ u < t.seconds) := by
  refine ⟨⟨day, (scheduled_iff hzone (day.dvd_combine clock) hfirst).mpr rfl⟩, ?_⟩
  rintro day' u hscheduled ⟨hnow, ht⟩
  have hu := isLeast_of_scheduled hzone hscheduled
  obtain hlt | hle := lt_or_ge day'.number day.number
  · obtain ⟨v, hv, hread⟩ := hbefore day' hlt
    have huv : u ≤ v := hu.2 hread
    omega
  · have htu : t.seconds ≤ u := hfirst.2 ((combine_le hle).trans hu.1)
    omega

variable (hnow : AwayFromEnds now.seconds) (hthere : AwayFromEnds (wall.reads now.seconds))

include hnow hthere

/-- Today, tomorrow and the day after each have their instant within the calendar. -/
theorem exists_dailyCandidate {there : Datetime} (h : there.seconds = wall.reads now.seconds)
    {offset : ℤ} (hoffset : 0 ≤ offset ∧ offset ≤ 2) (clock : Clock) :
    ∃ (day : Day) (t : Datetime), day.number = there.date.number + offset ∧
      dailyCandidate H zone clock there.date offset = .ok t ∧
      IsLeast {u | (day.combine clock).seconds ≤ wall.reads u} t.seconds := by
  obtain ⟨hnowLow, hnowHigh⟩ := hnow
  obtain ⟨hthereLow, hthereHigh⟩ := hthere
  have hdate : there.date.number = there.seconds / 86400 := rfl
  obtain ⟨day, hday⟩ : ∃ day : Day, day.number = there.date.number + offset :=
    ⟨⟨there.date.number + offset, by omega⟩, rfl⟩
  have hadd : there.date.addDays offset = .ok day := by
    have hrange := day.inRange
    rw [Day.addDays, dif_pos (by omega)]
    exact congrArg Except.ok (by rw [Day.mk.injEq, hday])
  have hcombine := day.seconds_combine clock
  obtain ⟨first, hfirst⟩ := wall.exists_isLeast (day.combine clock).seconds
  have hreads := WallClock.reads_lt_of_isLeast hfirst
  have hread : (day.combine clock).seconds ≤ wall.reads first := hfirst.1
  -- the clock reads more than that in six days, and did not in the last three
  have hsoon := wall.reads_near (u := now.seconds) (v := now.seconds + 3 * 86400) (by omega) le_rfl
  have hlater := wall.reads_near (u := now.seconds + 3 * 86400)
    (v := now.seconds + 3 * 86400 + 3 * 86400) (by omega) le_rfl
  have hhigh : first ≤ now.seconds + 3 * 86400 + 3 * 86400 := hfirst.2 (by
    rw [Set.mem_ofPred_eq]
    omega)
  have hlow : now.seconds - 3 * 86400 < first := by
    by_contra hle
    have hgrows := wall.reads_add_lt (u := first) (v := now.seconds) (by omega)
    omega
  refine ⟨day, ⟨first, by omega⟩, hday, ?_, hfirst⟩
  refine except_bind_eq_ok.mpr ⟨day, hadd, ?_⟩
  exact localInstant_eq_ok hzone hfirst (day.dvd_combine clock) (by simp only; omega)
    (by simp only; omega)

/-- **The next run of a daily schedule**: it is found, lies after `now`, is the scheduled instant of
some day, and no day has one in between. -/
theorem nextDaily_isNext :
    ∃ t : Datetime, nextDailyInstant H now zone clock = .ok t ∧ now.seconds < t.seconds ∧
      (∃ day : Day, Scheduled wall (day.combine clock) t.seconds) ∧
      ∀ (day : Day) (u : ℤ), Scheduled wall (day.combine clock) u →
        ¬(now.seconds < u ∧ u < t.seconds) := by
  obtain ⟨there, hread⟩ : ∃ there : Datetime, there.seconds = wall.reads now.seconds := by
    obtain ⟨hlow, hhigh⟩ := hthere
    exact ⟨⟨wall.reads now.seconds, by omega⟩, rfl⟩
  have hfrom : zone.fromUtc now = .ok there := Datetime.add_eq_ok.mpr (by
    rw [hzone.offsetAt, hread, WallClock.reads])
  obtain ⟨day₀, t₀, hday₀, hcandidate₀, hfirst₀⟩ :=
    exists_dailyCandidate (H := H) hzone hnow hthere hread ⟨le_refl 0, by decide⟩ clock
  obtain ⟨day₁, t₁, hday₁, hcandidate₁, hfirst₁⟩ :=
    exists_dailyCandidate (H := H) hzone hnow hthere hread ⟨zero_le_one, by decide⟩ clock
  obtain ⟨day₂, t₂, hday₂, hcandidate₂, hfirst₂⟩ :=
    exists_dailyCandidate (H := H) hzone hnow hthere hread ⟨by decide, le_refl 2⟩ clock
  have hnumber : there.date.number = there.seconds / 86400 := rfl
  rw [nextDailyInstant]
  simp only [except_bind_eq_ok, hfrom, Except.ok.injEq, exists_eq_left', nextDailyFrom_cons,
    hcandidate₀, hcandidate₁, hcandidate₂]
  by_cases h₀ : now.seconds < t₀.seconds
  · refine ⟨t₀, ?_, h₀, isNext_of_first hzone hfirst₀ fun day hday => ?_⟩
    · rw [if_pos h₀]
    · have hcombine := day.seconds_combine clock
      exact ⟨now.seconds, le_rfl, by omega⟩
  by_cases h₁ : now.seconds < t₁.seconds
  · refine ⟨t₁, ?_, h₁, isNext_of_first hzone hfirst₁ fun day hday => ?_⟩
    · rw [if_neg h₀, if_pos h₁]
    · exact ⟨t₀.seconds, by omega, (combine_le (by omega)).trans hfirst₀.1⟩
  -- the clock falls by less than a day, so that it has not read the day after tomorrow
  have h₂ : now.seconds < t₂.seconds := by
    by_contra hle
    have hfall := wall.reads_lt_add (u := t₂.seconds) (v := now.seconds) (by omega)
    have hcombine := day₂.seconds_combine clock
    have hread₂ : (day₂.combine clock).seconds ≤ wall.reads t₂.seconds := hfirst₂.1
    omega
  refine ⟨t₂, ?_, h₂, isNext_of_first hzone hfirst₂ fun day hday => ?_⟩
  · rw [if_neg h₀, if_neg h₁, if_pos h₂]
  · exact ⟨t₁.seconds, by omega, (combine_le (by omega)).trans hfirst₁.1⟩

end

end

/-- A clock that is moved from midnight to one o'clock on the eleventh day. -/
def midnightClock : WallClock 86400 where
  offset u := if u < 864000 then 0 else 3600
  short u := by split_ifs <;> simp
  apart u v huv hu hv := by
    have heq : ∀ t : ℤ, (if t < 864000 then (0 : ℤ) else 3600) ≠
        (if t - 1 < 864000 then 0 else 3600) → t = 864000 := by
      intro t
      split_ifs <;> omega
    have hu' := heq u hu
    have hv' := heq v hv
    omega

/-- The zone of that clock. -/
def midnightZone : Zone where
  key := "Etc/Midnight"
  localOffset naive := if naive.seconds < 867600 then 0 else 3600
  offsetAt t := if t.seconds < 864000 then 0 else 3600

theorem midnightZone_shows : midnightZone.Shows midnightClock where
  offsetAt _ := rfl
  minutes u := by
    simp only [midnightClock]
    split_ifs <;> simp
  moves u hu := by
    simp only [WallClock.Moved, midnightClock] at hu
    split_ifs at hu <;> omega
  earlier naive u hu := by
    have hunique : ∀ v, midnightClock.reads v = naive.seconds ↔
        v = naive.seconds - midnightZone.localOffset naive := by
      intro v
      simp only [WallClock.reads, midnightClock, midnightZone] at hu ⊢
      split_ifs at hu ⊢ <;> omega
    simp only [hunique]
    exact isLeast_singleton
  gap naive u hpred hlt hnever := by
    simp only [WallClock.reads, midnightClock, midnightZone] at hpred hlt ⊢
    split_ifs at hpred hlt ⊢ <;> omega

/-- A host that knows this zone. -/
def midnightHost : Host where
  zoneInfo name := if name = "Etc/Midnight" then some midnightZone else none
  repr s := s
  isoformat _ := ""
  naiveIsoformat _ := ""
  isVersion
    | .int n => n = 1
    | _ => false
  isVersion_int n := Eq.refl (decide (n = 1))

/-- Half past midnight, which that day does not have. -/
theorem nextDaily_isNext_midnight :
    ∃ t : Datetime,
      nextDailyInstant midnightHost ⟨860400, by decide⟩ midnightZone ⟨0, 30, by decide⟩ = .ok t ∧
      860400 < t.seconds ∧
      (∃ day : Day, Scheduled midnightClock (day.combine ⟨0, 30, by decide⟩) t.seconds) ∧
      ∀ (day : Day) (u : ℤ), Scheduled midnightClock (day.combine ⟨0, 30, by decide⟩) u →
        ¬(860400 < u ∧ u < t.seconds) :=
  nextDaily_isNext midnightZone_shows (by rw [AwayFromEnds]; decide)
    (by rw [AwayFromEnds]; decide)

example : nextDailyInstant midnightHost ⟨860400, by decide⟩ midnightZone ⟨0, 30, by decide⟩ =
    .ok ⟨864000, by decide⟩ := by decide

end Cron

end CyranoAgent
