import CyranoAgent.Cron.Claims

/-!
# The cron store as a trust boundary

The decoder checks the fields of a record one by one, and a claim computes with all of them.
`exists_advanceClaimedJob_iff` says for which due records a claim succeeds and leaves them past
`now`, and `settled_iff` is that for every record of a file; a file can have records for which
neither holds (`not_settled`).
-/

namespace CyranoAgent

open Lib

namespace Cron

section

variable {H : Host} {data data' : StoreData} {job claimed other : CronJob H} {now : Datetime}
  {n : ℤ}

/-! ### What is asked of the file -/

/-- `advance_next_run` does not raise for an id, the job that it returns is no longer due, and no
record of that id is left to be claimed again. -/
def Settled (H : Host) (data : StoreData) (jobId : String) (now : Moment) : Prop :=
  ∃ reply data', advanceNextRun H jobId now data = .ok (reply, data') ∧
    (∀ claimed ∈ reply, claimed.due (coerceUtc now) = false) ∧
    ∀ job ∈ decodeStore H data', job.id = jobId → job.due (coerceUtc now) = false

/-- The next run of a job is within the calendar, and after `now`: for an interval the instant in
phase, for a single date its instant, and for a daily schedule one of the next three local days,
the days before it having an instant too. -/
def CronJob.Reaches (job : CronJob H) (now : Datetime) : Prop :=
  match job.schedule.timing with
  | .interval minutes _ => ∀ t ∈ job.nextRunAt, t.seconds +
      minutes * 60 * ((now.seconds - t.seconds) / (minutes * 60) + 1) ≤ 253402300799
  | .atDate _ zone _ clock localDate =>
    ∃ t, localInstant H (localDate.toDay.combine clock) zone = .ok t ∧ now.seconds < t.seconds
  | .daily _ zone _ clock =>
    ∃ there, zone.fromUtc now = .ok there ∧
      ∃ before offset after, [0, 1, 2] = before ++ offset :: after ∧
        (∃ t, dailyCandidate H zone clock there.date offset = .ok t ∧ now.seconds < t.seconds) ∧
        ∀ offset' ∈ before, ∃ t, dailyCandidate H zone clock there.date offset' = .ok t

/-- A claim of a due job can be made and settles it: a one-shot job, one whose cap it reaches, or
one with a next run. -/
def CronJob.Settles (job : CronJob H) (now : Datetime) : Prop :=
  job.schedule.kind = .oneShot ∨ (∃ n ∈ job.repetition.times, n ≤ job.repetition.completed + 1) ∨
    job.Reaches now

/-- The count of a job can be printed once it is claimed. -/
def CronJob.Counts (job : CronJob H) : Prop :=
  job.schedule.kind ≠ .oneShot → Cron.printable (job.repetition.completed + 1) = true

/-! ### One record -/

/-- The next run of a job that is due. -/
theorem exists_nextAfter_iff {t : Datetime} (hnext : job.nextRunAt = some t)
    (hdue : t.seconds ≤ now.seconds) :
    (∃ next, job.schedule.nextAfter H now job.nextRunAt = .ok next ∧ now.seconds < next.seconds) ↔
      job.Reaches now := by
  rw [CronJob.Reaches, hnext, CronSchedule.nextAfter]
  rcases job.schedule.timing with ⟨minutes, hminutes⟩ | ⟨_, _, _, _, _⟩ | ⟨_, zone, _, clock⟩
  · dsimp only
    constructor
    · rintro ⟨next, h, -⟩ t' ht'
      obtain rfl := Option.some.inj ht'
      rw [← (nextInterval_eq_ok hminutes hdue).mp h]
      exact next.inRange.2
    · intro h
      have hcount : 0 ≤ (now.seconds - t.seconds) / (minutes * 60) :=
        Int.ediv_nonneg (by omega) (by omega)
      have helapsed : 0 ≤ minutes * 60 * ((now.seconds - t.seconds) / (minutes * 60) + 1) :=
        mul_nonneg (by omega) (by omega)
      have hlow := t.inRange.1
      have hnextInterval : nextInterval minutes now (some t) = .ok ⟨_, by omega, h t rfl⟩ :=
        (nextInterval_eq_ok hminutes hdue).mpr rfl
      exact ⟨_, hnextInterval, (isLeast_nextInterval hminutes hdue hnextInterval).1.1⟩
  · exact Iff.rfl
  · dsimp only
    constructor
    · rintro ⟨next, h, hlt⟩
      obtain ⟨there, hthere, h⟩ := except_bind_eq_ok.mp h
      exact ⟨there, hthere, exists_nextDailyFrom_iff.mp ⟨next, h⟩⟩
    · rintro ⟨there, hthere, h⟩
      obtain ⟨next, h⟩ := exists_nextDailyFrom_iff.mpr h
      have hnextDaily : nextDailyInstant H now zone clock = .ok next :=
        except_bind_eq_ok.mpr ⟨there, hthere, h⟩
      exact ⟨next, hnextDaily, lt_of_nextDailyInstant hnextDaily⟩

/-- **A claim settles a due job** exactly under the condition. -/
theorem exists_advanceClaimedJob_iff (hdue : job.due now = true) :
    (∃ claimed, advanceClaimedJob H job now = .ok claimed ∧ claimed.due now = false) ↔
      job.Settles now := by
  obtain ⟨henabled, t, hnext, hle⟩ := CronJob.due_iff.mp hdue
  rw [CronJob.Settles, ← CronRepeat.exhausted_claim_iff, ← exists_nextAfter_iff hnext hle]
  constructor
  · rintro ⟨claimed, hclaimed, hsettled⟩
    rcases advanceClaimedJob_cases hclaimed with
      ⟨hkind, -⟩ | ⟨-, hexhausted, -⟩ | ⟨-, -, next, hafter, rfl⟩
    · exact .inl hkind
    · exact .inr (.inl hexhausted)
    · refine .inr (.inr ⟨next, hafter, not_le.mp fun hle => ?_⟩)
      exact Bool.eq_false_iff.mp hsettled (CronJob.due_iff.mpr ⟨henabled, next, rfl, hle⟩)
  · intro h
    rw [advanceClaimedJob]
    split
    next => exact ⟨_, rfl, rfl⟩
    next hkind =>
      split
      next => exact ⟨_, rfl, rfl⟩
      next hexhausted =>
        obtain ⟨next, hafter, hlt⟩ := (h.resolve_left hkind).resolve_left hexhausted
        refine ⟨_, except_bind_eq_ok.mpr ⟨next, hafter, rfl⟩, Bool.eq_false_iff.mpr fun hdue => ?_⟩
        obtain ⟨-, next', hnext', hle⟩ := CronJob.due_iff.mp hdue
        obtain rfl := Option.some.inj hnext'
        exact not_lt.mpr hle hlt

/-- A smaller number has no more digits. -/
theorem length_toDigits_le {m n k : ℕ} (hk : 0 < k) (hmn : m ≤ n)
    (hn : (Nat.toDigits 10 n).length ≤ k) : (Nat.toDigits 10 m).length ≤ k := by
  rw [Nat.length_toDigits_le_iff (by norm_num) hk] at hn ⊢
  exact hmn.trans_lt hn

theorem printable_of_succ (hn : 0 ≤ n) (h : printable (n + 1) = true) : printable n = true :=
  decide_eq_true (length_toDigits_le (by norm_num) (by omega) (of_decide_eq_true h))

/-- A job can be written after a claim when it can be before, and its count can. -/
theorem printable_of_advanceClaimedJob (h : advanceClaimedJob H job now = .ok claimed) :
    claimed.printable = true ↔ job.printable = true ∧ job.Counts := by
  have hcounts (hkind : job.schedule.kind ≠ .oneShot) : job.Counts ↔
      printable (job.repetition.completed + 1) = true := ⟨fun h => h hkind, fun h _ => h⟩
  have hsucc := printable_of_succ job.repetition.completed_nonneg
  rcases advanceClaimedJob_cases h with
    ⟨hkind, rfl⟩ | ⟨hkind, -, rfl⟩ | ⟨hkind, -, next, -, rfl⟩
  · exact (and_iff_left fun hne => absurd hkind hne).symm
  · rw [hcounts hkind]
    simp only [CronJob.printable, CronRepeat.claim, Bool.and_eq_true]
    tauto
  · rw [hcounts hkind]
    simp only [CronJob.printable, CronRepeat.claim, Bool.and_eq_true]
    tauto

theorem id_of_advanceClaimedJob (h : advanceClaimedJob H job now = .ok claimed) :
    claimed.id = job.id := by
  rcases advanceClaimedJob_cases h with ⟨-, rfl⟩ | ⟨-, -, rfl⟩ | ⟨-, -, _, -, rfl⟩ <;> rfl

/-! ### The file -/

/-- A call that settles the records of an id was able to claim each of them that was due, and to
write the file. -/
theorem Settled.of_due {now : Moment} (h : Settled H data job.id now)
    (hjob : job ∈ decodeStore H data) (hdue : job.due (coerceUtc now) = true) :
    job.Settles (coerceUtc now) ∧ job.Counts ∧
      ∀ other ∈ decodeStore H data, other.printable = true := by
  obtain ⟨reply, data', hadvance, -, hsettled⟩ := h
  obtain ⟨result, hresult, ⟨-, -, hnone⟩ | ⟨hwritten, -⟩⟩ := advanceNextRun_cases hadvance
  · exact absurd ⟨rfl, hdue⟩ (hnone job hjob)
  rw [decodeStore_of_writeJobs hwritten] at hsettled
  have hprintable : ∀ claimed ∈ result, claimed.printable = true := by
    rw [writeJobs] at hwritten
    split at hwritten
    next hall => exact List.all_eq_true.mp hall
    next => cases hwritten
  have hrelated := mapM_eq_ok.mp hresult
  have hclaim (other : CronJob H) (hother : other ∈ decodeStore H data)
      (hid : other.id = job.id ∧ other.due (coerceUtc now) = true) :
      ∃ claimed ∈ result, advanceClaimedJob H other (coerceUtc now) = .ok claimed := by
    obtain ⟨claimed, hclaimed, hother⟩ := exists_of_mem_left hrelated hother
    rw [advanceJob, if_pos hid] at hother
    exact ⟨claimed, hclaimed, hother⟩
  obtain ⟨claimed, hclaimed, hadvanced⟩ := hclaim job hjob ⟨rfl, hdue⟩
  have hafter := hsettled claimed hclaimed (id_of_advanceClaimedJob hadvanced)
  refine ⟨(exists_advanceClaimedJob_iff hdue).mp ⟨claimed, hadvanced, hafter⟩,
    ((printable_of_advanceClaimedJob hadvanced).mp (hprintable claimed hclaimed)).2,
    fun other hother => ?_⟩
  by_cases hid : other.id = job.id ∧ other.due (coerceUtc now) = true
  · obtain ⟨claimed, hclaimed, hadvanced⟩ := hclaim other hother hid
    exact ((printable_of_advanceClaimedJob hadvanced).mp (hprintable claimed hclaimed)).1
  · obtain ⟨kept, hkept, heq⟩ := exists_of_mem_left hrelated hother
    rw [advanceJob, if_neg hid] at heq
    obtain rfl := Except.ok.inj heq
    exact hprintable other hkept

/-- What is made of a record that is settled by a claim when it is due: nothing that is due, and
what can be written if the record can. -/
theorem exists_advanceJob {jobId : String}
    (h : job.id = jobId → job.due now = true → job.Settles now ∧ job.Counts) :
    ∃ claimed, advanceJob H jobId now job = .ok claimed ∧ claimed.id = job.id ∧
      (claimed.id = jobId → claimed.due now = false) ∧
      (job.printable = true → claimed.printable = true) := by
  rw [advanceJob]
  split
  next hdue =>
    obtain ⟨hsettles, hcounts⟩ := h hdue.1 hdue.2
    obtain ⟨claimed, hclaimed, hafter⟩ := (exists_advanceClaimedJob_iff hdue.2).mpr hsettles
    exact ⟨claimed, hclaimed, id_of_advanceClaimedJob hclaimed, fun _ => hafter, fun hprintable =>
      (printable_of_advanceClaimedJob hclaimed).mpr ⟨hprintable, hcounts⟩⟩
  next hdue =>
    exact ⟨job, rfl, rfl, fun hid => Bool.eq_false_iff.mpr fun h => hdue ⟨hid, h⟩, id⟩

/-- A call settles the records of an id when each of them that is due can be claimed and counted,
and the file can be written. -/
theorem settled_of_due {jobId : String} {now : Moment}
    (h : ∀ job ∈ decodeStore H data, job.id = jobId → job.due (coerceUtc now) = true →
      job.Settles (coerceUtc now) ∧ job.Counts ∧
        ∀ other ∈ decodeStore H data, other.printable = true) :
    Settled H data jobId now := by
  have hadvance (job : CronJob H) (hjob : job ∈ decodeStore H data) :=
    exists_advanceJob fun hid hdue => (h job hjob hid hdue).imp_right And.left
  obtain ⟨result, hresult⟩ := exists_mapM_eq_ok.mpr fun job hjob =>
    (hadvance job hjob).imp fun _ => And.left
  have hrelated := mapM_eq_ok.mp hresult
  have hmade {claimed : CronJob H} (hclaimed : claimed ∈ result) :
      ∃ job ∈ decodeStore H data, (claimed.id = jobId → claimed.due (coerceUtc now) = false) ∧
        (job.printable = true → claimed.printable = true) := by
    obtain ⟨job, hjob, heq⟩ := exists_of_mem_right hrelated hclaimed
    obtain ⟨claimed', hclaimed', -, hmade⟩ := hadvance job hjob
    obtain rfl := Except.ok.inj (heq.symm.trans hclaimed')
    exact ⟨job, hjob, hmade⟩
  have hsettled (claimed : CronJob H) (hclaimed : claimed ∈ result) (hid : claimed.id = jobId) :
      claimed.due (coerceUtc now) = false := by
    obtain ⟨-, -, hafter, -⟩ := hmade hclaimed
    exact hafter hid
  have hprintable (job : CronJob H) (hjob : job ∈ decodeStore H data) (hid : job.id = jobId)
      (hdue : job.due (coerceUtc now) = true) (claimed : CronJob H) (hclaimed : claimed ∈ result) :
      claimed.printable = true := by
    obtain ⟨other, hother, -, hprintable⟩ := hmade hclaimed
    exact hprintable ((h job hjob hid hdue).2.2 other hother)
  obtain ⟨reply, data', hnext⟩ := exists_advanceNextRun hresult hprintable
  have hdecoded : decodeStore H data' = result :=
    Except.ok.inj ((decodeStore_of_advanceNextRun hnext).symm.trans hresult)
  refine ⟨reply, data', hnext, ?_, by rwa [hdecoded]⟩
  rintro claimed rfl
  obtain ⟨result', hresult', ⟨hnone, -⟩ | ⟨-, i, job, claimed', hreply, hjob, hi, hid⟩⟩ :=
    advanceNextRun_cases hnext
  · cases hnone
  · obtain rfl := Option.some.inj hreply
    obtain rfl := Except.ok.inj (hresult.symm.trans hresult')
    -- the record that is returned stands where the one that was due did
    obtain ⟨made, hmade, heq⟩ := exists_of_getElem? hrelated hjob
    obtain rfl := Option.some.inj (hi.symm.trans hmade)
    obtain ⟨made, hmade, hsame, -⟩ := hadvance job (List.mem_of_getElem? hjob)
    obtain rfl := Except.ok.inj (heq.symm.trans hmade)
    exact hsettled _ (List.mem_of_getElem? hi) (hsame.trans hid.1)

/-- **The store file is a sound boundary** for the records of a file at a time exactly when each of
them that is due can be claimed and settled by that, and counted. -/
theorem settled_iff (H : Host) (data : StoreData) (now : Moment) :
    (∀ job ∈ decodeStore H data, Settled H data job.id now) ↔
      ∀ job ∈ decodeStore H data, job.due (coerceUtc now) = true →
        job.Settles (coerceUtc now) ∧ job.Counts ∧
          ∀ other ∈ decodeStore H data, other.printable = true :=
  ⟨fun h job hjob hdue => (h job hjob).of_due hjob hdue,
    fun h _ _ => settled_of_due fun job hjob _ hdue => h job hjob hdue⟩

end

/-- A job whose interval is longer than the calendar, due in 1970. -/
def hugeInterval : CronJob plainHost where
  id := "0"
  assistantId := "assistant"
  name := ""
  prompt := "prompt"
  schedule := ⟨.recurring, "every 10000000000m", by decide, .interval 10000000000 (by decide)⟩
  repetition := ⟨none, 0, by simp, le_rfl⟩
  enabled := true
  createdAt := ⟨0, by decide⟩
  nextRunAt := some ⟨0, by decide⟩
  lastRunAt := none
  lastStatus := none
  lastError := none
  origin := { conversationId := "conversation" }

theorem not_settled : ¬ ∀ (H : Host) (data : StoreData) (now : Moment),
    ∀ job ∈ decodeStore H data, Settled H data job.id now := by
  intro hall
  obtain ⟨data, hdata⟩ : ∃ data, writeJobs [hugeInterval] = .ok data := ⟨_, rfl⟩
  have hdecoded : decodeStore plainHost data = [hugeInterval] := decodeStore_of_writeJobs hdata
  have hmem : hugeInterval ∈ decodeStore plainHost data := by
    rw [hdecoded]
    exact List.mem_cons_self
  obtain ⟨reply, data', hadvance, -⟩ := hall plainHost data ⟨0, by decide⟩ hugeInterval hmem
  have hresult := decodeStore_of_advanceNextRun hadvance
  rw [hdecoded] at hresult
  -- the claim raises: the next run is not on the calendar
  cases hresult

end Cron

end CyranoAgent
