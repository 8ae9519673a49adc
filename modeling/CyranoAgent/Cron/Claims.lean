import CyranoAgent.Cron.Jobs

/-!
# Claims of a job

A claim is a call of `advance_next_run` that takes a due record past its scheduled instant.
`Tracked` is what every run keeps of a record and its claims so far: they count towards its cap, and
the next run of the record is after all of them. So the claims of a job that was created are at most
once (`claimedOnce`), unless it repeats a single date: then it stays at one instant
(`not_claimedOnce`).
-/

namespace CyranoAgent

open Lib

namespace Cron

/-- A claim of a record: when it is made, and the record before and after. -/
structure Claim (H : Host) where
  now : Moment
  job : CronJob H
  claimed : CronJob H

section

variable {H : Host}

/-- The claim of the record at a place of the file by a call that succeeds. -/
def claimOf (i : ℕ) (e : CallEntry H) : Option (Claim H) :=
  match e.op, e.reply with
  | .advanceNextRun jobId now, .ok _ =>
    match (decodeStore H e.before)[i]?, (decodeStore H e.after)[i]? with
    | some job, some claimed =>
      if job.id = jobId ∧ job.due (coerceUtc now) then some ⟨now, job, claimed⟩ else none
    | _, _ => none
  | _, _ => none

/-- The claims of a record in a history. -/
def claims (i : ℕ) (h : List (CallEntry H)) : List (Claim H) := h.filterMap (claimOf i)

/-- Claims are at most once: each is made when its instant has come and leaves a next run that is
later than the instant and than `now`, no instant is claimed twice, the kind and the cap of the job
bound their number, and an interval keeps its phase. -/
structure ClaimedOnce (schedule : CronSchedule H) (times : Option ℤ) (claims : List (Claim H)) :
    Prop where
  due : ∀ c ∈ claims, ∃ t, c.job.nextRunAt = some t ∧ t.seconds * 1000000 ≤ c.now.micros
  later : ∀ c ∈ claims, ∀ t ∈ c.job.nextRunAt, ∀ next ∈ c.claimed.nextRunAt,
    t.seconds < next.seconds ∧ c.now.micros < next.seconds * 1000000
  increasing : claims.Pairwise fun c c' =>
    ∀ t ∈ c.job.nextRunAt, ∀ t' ∈ c'.job.nextRunAt, t.seconds < t'.seconds
  oneShot : schedule.kind = .oneShot → claims.length ≤ 1
  capped : ∀ n ∈ times, (claims.length : ℤ) ≤ n
  phase : ∀ minutes h, schedule.timing = .interval minutes h → ∀ c ∈ claims,
    ∀ t ∈ c.job.nextRunAt, ∀ next ∈ c.claimed.nextRunAt,
      IsLeast {x : ℤ | c.now.micros < x * 1000000 ∧ ∃ k : ℤ, x = t.seconds + k * (minutes * 60)}
        next.seconds

variable {data data' : StoreData} {job claimed job' : CronJob H} {i : ℕ} {call : Call H}
  {now : Moment} {t : Datetime} {schedule : CronSchedule H} {times : Option ℤ}
  {cs : List (Claim H)}

/-! ### One record -/

/-- A record that is not claimed: its schedule, count and next run stay. -/
structure Kept (job job' : CronJob H) : Prop where
  schedule : job'.schedule = job.schedule
  repetition : job'.repetition = job.repetition
  nextRunAt : job'.nextRunAt = job.nextRunAt

theorem Kept.refl (job : CronJob H) : Kept job job := ⟨rfl, rfl, rfl⟩

/-- **What a call does to a record**: it claims it, or keeps it. -/
theorem claimOf_cases (hjob : (decodeStore H data)[i]? = some job) (call : Call H) :
    ∃ job', (decodeStore H (call.act data).2)[i]? = some job' ∧
      ((claimOf i (Entry.perform Call.act data call) = none ∧ Kept job job') ∨
        ∃ now, claimOf i (Entry.perform Call.act data call) = some ⟨now, job, job'⟩ ∧
          job.due (coerceUtc now) ∧ advanceClaimedJob H job (coerceUtc now) = .ok job') := by
  rcases houtcome : call.outcome data with e | ⟨reply, data'⟩
  · have hact : call.act data = (.error e, data) := by rw [Call.act, houtcome]
    refine ⟨job, by rw [hact, hjob], .inl ⟨?_, .refl job⟩⟩
    cases call <;> simp [claimOf, hact]
  · have hact : call.act data = (.ok reply, data') := by rw [Call.act, houtcome]
    cases call with
    | createJob new =>
      obtain ⟨⟨created, data''⟩, hcreate, hreply⟩ := except_bind_eq_ok.mp houtcome
      cases hreply
      have hlength := (List.getElem?_eq_some_iff.mp hjob).1
      refine ⟨job, ?_, .inl ⟨rfl, .refl job⟩⟩
      rw [hact, (decodeStore_of_createJob hcreate).1, List.getElem?_append_left hlength, hjob]
    | advanceNextRun jobId now =>
      have hresult := mapM_eq_ok.mp (decodeStore_of_advanceNextRun houtcome)
      obtain ⟨job', hjob', hadvance⟩ := exists_of_getElem? hresult hjob
      refine ⟨job', by rw [hact, hjob'], ?_⟩
      rw [advanceJob] at hadvance
      have hclaim : claimOf i (Entry.perform Call.act data (.advanceNextRun jobId now)) =
          if job.id = jobId ∧ job.due (coerceUtc now) then some ⟨now, job, job'⟩ else none := by
        simp [claimOf, hact, hjob, hjob']
      rw [hclaim]
      split at hadvance
      next hdue => exact .inr ⟨now, if_pos hdue, hdue.2, hadvance⟩
      next hdue =>
        obtain rfl := Except.ok.inj hadvance
        exact .inl ⟨if_neg hdue, .refl job⟩
    | markJobRun jobId status error now =>
      have hresult := decodeStore_of_markJobRun houtcome
      refine ⟨_, by rw [hact, hresult, List.getElem?_map, hjob, Option.map_some], .inl ⟨rfl, ?_⟩⟩
      split
      · exact ⟨rfl, rfl, rfl⟩
      · exact .refl job

/-- Every job that `advance_next_run` returns is the claim of a record. -/
theorem exists_claimOf_of_reply {jobId : String}
    (hreply : ((Call.advanceNextRun jobId now).act data).1 = .ok (some claimed)) :
    ∃ i job, claimOf i (Entry.perform Call.act data (.advanceNextRun jobId now)) =
      some ⟨now, job, claimed⟩ ∧ job.id = jobId := by
  rcases houtcome : advanceNextRun H jobId now data with e | ⟨reply, data'⟩
  · rw [Call.act, Call.outcome, houtcome] at hreply
    cases hreply
  · have hact : (Call.advanceNextRun jobId now).act data = (.ok reply, data') := by
      rw [Call.act, Call.outcome, houtcome]
    rw [hact] at hreply
    cases hreply
    obtain ⟨result, -, ⟨hnone, -⟩ | ⟨hwritten, i, job, claimed', hreply, hjob, hclaimed, hdue⟩⟩ :=
      advanceNextRun_cases houtcome
    · cases hnone
    obtain rfl := Option.some.inj hreply
    obtain ⟨hid, hdue⟩ := hdue
    rw [← decodeStore_of_writeJobs hwritten] at hclaimed
    refine ⟨i, job, ?_, hid⟩
    simp [claimOf, hact, hjob, hclaimed, hid, hdue]

/-- A schedule of another form than a single date has its next run after `now`. -/
theorem lt_of_nextAfter (hform : schedule.form ≠ .atDate) {now previous : Datetime}
    (hdue : previous.seconds ≤ now.seconds)
    (h : schedule.nextAfter H now (some previous) = .ok t) : now.seconds < t.seconds := by
  rw [CronSchedule.nextAfter] at h
  rcases htiming : schedule.timing with ⟨minutes, hminutes⟩ | ⟨_, _, _, _, _⟩ | ⟨_, zone, _, clock⟩
  · rw [htiming] at h
    exact (isLeast_nextInterval hminutes hdue h).1.1
  · exact absurd (by rw [CronSchedule.form, htiming]) hform
  · rw [htiming] at h
    exact lt_of_nextDailyInstant h

/-- What every run keeps of a record and its claims: they are at most once, they count towards the
cap, and where there is a next run, it is after all of them and leaves room for another. -/
structure Tracked (schedule : CronSchedule H) (times : Option ℤ) (cs : List (Claim H))
    (job : CronJob H) : Prop extends ClaimedOnce schedule times cs where
  schedule_eq : job.schedule = schedule
  times_eq : job.repetition.times = times
  completed : schedule.kind = .recurring → job.repetition.completed = cs.length
  once : schedule.kind = .oneShot → job.nextRunAt.isSome → cs = []
  room : ∀ n ∈ times, job.nextRunAt.isSome → (cs.length : ℤ) < n
  after : ∀ t ∈ job.nextRunAt, ∀ c ∈ cs, ∀ t' ∈ c.job.nextRunAt, t'.seconds < t.seconds

theorem Tracked.keep (h : Tracked schedule times cs job) (hkept : Kept job job') :
    Tracked schedule times cs job' := by
  refine { h with
    schedule_eq := hkept.schedule.trans h.schedule_eq
    times_eq := ?_, completed := ?_, once := ?_, room := ?_, after := ?_ }
  · rw [hkept.repetition, h.times_eq]
  · rw [hkept.repetition]
    exact h.completed
  · rw [hkept.nextRunAt]
    exact h.once
  · rw [hkept.nextRunAt]
    exact h.room
  · rw [hkept.nextRunAt]
    exact h.after

/-- Another claim, of a record that is due. -/
theorem Tracked.claimedOnce_append (h : Tracked schedule times cs job)
    (hnext : job.nextRunAt = some t) (hdue : t.seconds ≤ (coerceUtc now).seconds)
    (hlater : ∀ next ∈ claimed.nextRunAt, (coerceUtc now).seconds < next.seconds)
    (hphase : ∀ minutes h, schedule.timing = .interval minutes h → ∀ next ∈ claimed.nextRunAt,
      nextInterval minutes (coerceUtc now) (some t) = .ok next) :
    ClaimedOnce schedule times (cs ++ [⟨now, job, claimed⟩]) := by
  have hisSome : job.nextRunAt.isSome := by rw [hnext]; rfl
  have hfloor (x : ℤ) : (coerceUtc now).seconds < x ↔ now.micros < x * 1000000 :=
    Int.ediv_lt_iff_lt_mul (by norm_num)
  refine ⟨?_, ?_, ?_, ?_, ?_, ?_⟩
  · refine List.forall_mem_append.mpr ⟨h.due, List.forall_mem_singleton.mpr ⟨t, hnext, ?_⟩⟩
    exact (Int.le_ediv_iff_mul_le (by norm_num)).mp hdue
  · refine List.forall_mem_append.mpr ⟨h.later, List.forall_mem_singleton.mpr ?_⟩
    intro t' ht' next hclaimed
    obtain rfl : t' = t := Option.some.inj (ht'.symm.trans hnext)
    have hlt := hlater next hclaimed
    exact ⟨hdue.trans_lt hlt, (hfloor _).mp hlt⟩
  · refine List.pairwise_append.mpr ⟨h.increasing, List.pairwise_singleton _ _, ?_⟩
    intro c hc c' hc' t' ht' t'' ht''
    obtain rfl := List.mem_singleton.mp hc'
    exact h.after t'' ht'' c hc t' ht'
  · intro hkind
    rw [h.once hkind hisSome]
    exact le_rfl
  · intro n hn
    rw [List.length_append, List.length_singleton]
    exact_mod_cast h.room n hn hisSome
  · intro minutes hminutes htiming
    refine List.forall_mem_append.mpr
      ⟨h.phase minutes hminutes htiming, List.forall_mem_singleton.mpr ?_⟩
    intro t' ht' next hclaimed
    obtain rfl : t' = t := Option.some.inj (ht'.symm.trans hnext)
    have hnextInterval := hphase minutes hminutes htiming next hclaimed
    simpa only [hfloor] using isLeast_nextInterval hminutes hdue hnextInterval

/-- **A claim keeps a record tracked**, unless its schedule repeats a single date. -/
theorem Tracked.claim (h : Tracked schedule times cs job)
    (hform : ¬ (schedule.kind = .recurring ∧ schedule.form = .atDate))
    (hdue : job.due (coerceUtc now) = true)
    (hclaimed : advanceClaimedJob H job (coerceUtc now) = .ok claimed) :
    Tracked schedule times (cs ++ [⟨now, job, claimed⟩]) claimed := by
  obtain ⟨-, t, hnext, hdue⟩ := CronJob.due_iff.mp hdue
  have hcompleted (hkind : schedule.kind = .recurring) :
      job.repetition.claim.completed = (cs ++ [⟨now, job, claimed⟩] : List (Claim H)).length := by
    rw [List.length_append, List.length_singleton, Nat.cast_add, ← h.completed hkind]
    rfl
  rcases advanceClaimedJob_cases hclaimed with
    ⟨hkind, rfl⟩ | ⟨hkind, hexhausted, rfl⟩ | ⟨hkind, hexhausted, next, hafter, rfl⟩
  · exact { h.claimedOnce_append hnext hdue (by simp) (by simp) with
      schedule_eq := h.schedule_eq
      times_eq := h.times_eq
      completed := fun hrecurring => by rw [h.schedule_eq, hrecurring] at hkind; cases hkind
      once := fun _ hsome => by cases hsome
      room := fun _ _ hsome => by cases hsome
      after := fun _ hmem => by cases hmem }
  · exact { h.claimedOnce_append hnext hdue (by simp) (by simp) with
      schedule_eq := h.schedule_eq
      times_eq := h.times_eq
      completed := hcompleted
      once := fun _ hsome => by cases hsome
      room := fun _ _ hsome => by cases hsome
      after := fun _ hmem => by cases hmem }
  · rw [h.schedule_eq] at hkind
    have hrecurring : schedule.kind = .recurring := by
      rcases hk : schedule.kind with _ | _
      · exact absurd hk hkind
      · rfl
    rw [h.schedule_eq, hnext] at hafter
    have hlt := lt_of_nextAfter (fun hdate => hform ⟨hrecurring, hdate⟩) hdue hafter
    refine { h.claimedOnce_append hnext hdue (by simpa using hlt) ?_ with
      schedule_eq := h.schedule_eq
      times_eq := h.times_eq
      completed := hcompleted
      once := fun hone => absurd hone hkind
      room := fun n hn _ => ?_
      after := ?_ }
    · intro minutes hminutes htiming next' hnext'
      obtain rfl := Option.some.inj hnext'
      rw [CronSchedule.nextAfter, htiming] at hafter
      exact hafter
    · have hcap : ¬ n ≤ job.repetition.completed + 1 := fun hle => by
        rw [CronRepeat.exhausted_claim_iff.mpr ⟨n, h.times_eq ▸ hn, hle⟩] at hexhausted
        cases hexhausted
      rw [← hcompleted hrecurring]
      exact not_le.mp hcap
    · intro t' ht'
      obtain rfl := Option.some.inj ht'
      refine List.forall_mem_append.mpr ⟨fun c hc t' ht' => ?_, List.forall_mem_singleton.mpr ?_⟩
      · exact (h.after t hnext c hc t' ht').trans (hdue.trans_lt hlt)
      · intro t' ht'
        obtain rfl := Option.some.inj (ht'.symm.trans hnext)
        exact hdue.trans_lt hlt

/-- A job that was created is tracked, with no claims. -/
theorem tracked_of_createJob {new : NewJob H} (h : createJob H new data = .ok (job, data')) :
    Tracked new.schedule new.repeatTimes [] job := by
  obtain ⟨-, hschedule, htimes, hcompleted⟩ := decodeStore_of_createJob h
  exact ⟨⟨by simp, by simp, .nil, by simp, fun n hn => zero_le_one.trans
      (job.repetition.times_pos n (htimes ▸ hn)), by simp⟩, hschedule, htimes,
    fun _ => hcompleted, fun _ _ => rfl, fun n hn _ => zero_lt_one.trans_le
      (job.repetition.times_pos n (htimes ▸ hn)), by simp⟩

/-- **A run keeps a record tracked.** -/
theorem Tracked.of_run {data₀ : StoreData} {h : List (CallEntry H)}
    (hform : ¬ (schedule.kind = .recurring ∧ schedule.form = .atDate))
    (hjob : (decodeStore H data₀)[i]? = some job) (htracked : Tracked schedule times [] job)
    (hrun : Run Call.act data₀ h data) :
    ∃ job', (decodeStore H data)[i]? = some job' ∧ Tracked schedule times (claims i h) job' := by
  induction hrun with
  | nil => exact ⟨job, hjob, htracked⟩
  | @snoc h data call hrun ih =>
    obtain ⟨job', hjob', htracked'⟩ := ih
    obtain ⟨job'', hjob'', hcases⟩ := claimOf_cases hjob' call
    refine ⟨job'', hjob'', ?_⟩
    rw [claims, List.filterMap_append]
    rcases hcases with ⟨hnone, hkept⟩ | ⟨now, hclaim, hdue, hclaimed⟩
    · rw [List.filterMap_cons_none hnone, List.filterMap_nil, List.append_nil]
      exact htracked'.keep hkept
    · rw [List.filterMap_cons_some hclaim, List.filterMap_nil]
      exact htracked'.claim hform hdue hclaimed

/-- **The claims of a job that was created are at most once** in every run, unless its schedule
repeats a single date. -/
theorem claimedOnce {new : NewJob H} {data₀ : StoreData} {h : List (CallEntry H)}
    (hcreate : createJob H new data₀ = .ok (job, data'))
    (hform : ¬ (new.schedule.kind = .recurring ∧ new.schedule.form = .atDate))
    (hrun : Run Call.act data' h data) :
    ClaimedOnce new.schedule new.repeatTimes (claims (decodeStore H data₀).length h) := by
  have hjob : (decodeStore H data')[(decodeStore H data₀).length]? = some job := by
    rw [(decodeStore_of_createJob hcreate).1, List.getElem?_concat_length]
  obtain ⟨_, -, htracked⟩ := Tracked.of_run hform hjob (tracked_of_createJob hcreate) hrun
  exact htracked.toClaimedOnce

/-- The instant of a claim. -/
def Claim.scheduled (c : Claim H) : ℤ := (c.job.nextRunAt.map Datetime.seconds).getD 0

/-- The instants of claims that are at most once increase. -/
theorem ClaimedOnce.pairwise_scheduled (h : ClaimedOnce schedule times cs) :
    (cs.map Claim.scheduled).Pairwise (· < ·) := by
  refine List.pairwise_map.mpr (h.increasing.imp_of_mem fun hc hc' hlt => ?_)
  obtain ⟨t, ht, -⟩ := h.due _ hc
  obtain ⟨t', ht', -⟩ := h.due _ hc'
  rw [Claim.scheduled, Claim.scheduled, ht, ht']
  exact hlt t ht t' ht'

end

/-- A host that knows UTC. -/
def plainHost : Host where
  zoneInfo name := if name = "UTC" then some ⟨"UTC", fun _ => 0, fun _ => 0⟩ else none
  repr s := s
  isoformat _ := ""
  naiveIsoformat _ := ""
  isVersion
    | .int n => n = 1
    | _ => false
  isVersion_int _ := rfl

/-- A job of a schedule, created in 1970. -/
def plainJob (schedule : CronSchedule plainHost) : NewJob plainHost where
  assistantId := "assistant"
  hex := "0"
  prompt := "prompt"
  schedule := schedule
  origin := { conversationId := "conversation" }
  now := ⟨0, by decide⟩

/-- Every quarter of an hour. -/
def everyQuarter : CronSchedule plainHost :=
  ⟨.recurring, "every 15m", by decide, .interval 15 (by decide)⟩

/-- Claims on time, and after two quarters were missed. -/
def quarterClaims : List (Call plainHost) :=
  [.advanceNextRun "0" ⟨900000000, by decide⟩, .markJobRun "0" .ok none ⟨900000000, by decide⟩,
    .advanceNextRun "0" ⟨3700000000, by decide⟩]

theorem claimedOnce_everyQuarter : ∃ job data',
    createJob plainHost (plainJob everyQuarter) none = .ok (job, data') ∧
      ClaimedOnce (plainJob everyQuarter).schedule (plainJob everyQuarter).repeatTimes
        (claims (decodeStore plainHost none).length (exec Call.act data' quarterClaims).1) := by
  refine ⟨_, _, rfl, claimedOnce rfl (fun h => ?_) (run_exec _ _ _)⟩
  cases h.2

/-- A date that repeats: `__post_init__` does not compare the kind with the form. -/
def repeatedDate : CronSchedule plainHost where
  kind := .recurring
  display := "at 1970-01-02 00:00 UTC"
  short := by decide
  timing := .atDate "UTC" ⟨"UTC", fun _ => 0, fun _ => 0⟩ rfl ⟨0, 0, by decide⟩
    ⟨1970, 1, 2, by decide, by decide, by decide⟩

/-- Claims when that date has come, and a minute later. -/
def dateClaims : List (Call plainHost) :=
  [.advanceNextRun "0" ⟨86400000000, by decide⟩, .advanceNextRun "0" ⟨86460000000, by decide⟩]

theorem not_claimedOnce :
    ¬ ∀ (H : Host) (new : NewJob H) (data₀ data' data : StoreData) (job : CronJob H)
      (h : List (CallEntry H)), createJob H new data₀ = .ok (job, data') →
      Run Call.act data' h data →
      ClaimedOnce new.schedule new.repeatTimes (claims (decodeStore H data₀).length h) := by
  intro hall
  have honce := hall plainHost (plainJob repeatedDate) none _ _ _ _ rfl (run_exec _ _ dateClaims)
  have hpairwise := honce.pairwise_scheduled
  revert hpairwise
  decide

end Cron

end CyranoAgent
