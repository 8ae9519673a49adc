import CyranoAgent.Sqlite.Commands
import CyranoAgent.Workflow.Execution

/-!
# Settling a job under a fence

A worker settles the job it leased: it finishes, submits or fails it, or its attempt runner
settles it for it. Each transaction that does so is a `Settlement` of a `Worker`, the job with
the owner and the fence of its lease.

Every settlement compares owner and fence with the job's row but one: the second transaction
of an unknown outcome (`lose`) marks whatever lease the job has. `settlement_leaves_iff` says
that this is the only way in which a settlement that comes too late changes the job.
-/

namespace CyranoAgent

open Lib Lib.Action

/-- A worker's lease on a job. -/
structure Worker where
  jobId : String
  owner : String
  fence : ℤ
  deriving DecidableEq, Repr

/-- The worker's lease is the job's current one. -/
def Ledger.HeldBy (L : Ledger) (w : Worker) : Prop :=
  ∃ job, L.job? w.jobId = some job ∧ job.HeldBy w.owner w.fence

instance (L : Ledger) (w : Worker) : Decidable (L.HeldBy w) :=
  decidable_of_iff ((L.job? w.jobId).any fun job => job.HeldBy w.owner w.fence)
    (by simp [Ledger.HeldBy, Option.any_eq_true])

/-- The transactions that settle a job for a worker. `bill` and `lose` are the two of an
unknown outcome. -/
inductive Settlement
  | finish (now : ℤ)
  | submit (usageUnits : ℤ)
  | fail (usageUnits : ℤ)
  | bill (usageUnits : ℤ)
  | lose
  deriving DecidableEq, Repr

/-- The call a settlement makes. -/
def Settlement.call (w : Worker) : Settlement → Call
  | .finish now => .finishOutbox w.jobId w.owner w.fence now
  | .submit usageUnits => .submitResult w.jobId w.owner w.fence usageUnits
  | .fail usageUnits => .failJob w.jobId w.owner w.fence usageUnits
  | .bill usageUnits => .recordUsage w.jobId usageUnits
  | .lose => .markJobUnknown w.jobId

/-- The transactions of `_settle`, for an outcome. -/
def settlementsOf (outcome : WorkOutcome) : List Settlement :=
  if outcome.status = "unknown" then [.bill outcome.usageUnits, .lose]
  else if outcome.status = "failed" then [.fail outcome.usageUnits]
  else [.submit outcome.usageUnits]

/-- A step of any worker: a call of the repository, or a settlement on a worker's behalf. -/
inductive WorkStep
  | repository (call : Call)
  | settlement (w : Worker) (s : Settlement)

/-- The call of a step. -/
def WorkStep.call : WorkStep → Call
  | .repository call => call
  | .settlement w s => s.call w

/-- Perform a step. -/
def WorkStep.act (P : Primitives) (step : WorkStep) (L : Ledger) :
    Except Failure Reply × Ledger := step.call.act P L

/-- One step of a history of work. -/
abbrev WorkEntry := Entry Ledger WorkStep (Except Failure Reply)

section

variable {P : Primitives} {L₀ L L' : Ledger} {g : List CallEntry} {h : List WorkEntry}
  {e : WorkEntry} {w : Worker} {s : Settlement}

/-- The settlements of an outcome are what `_settle` does to the ledger. -/
theorem settle_eq_settlements (outcome : WorkOutcome) :
    ((AttemptRunner.settle w.jobId w.owner w.fence outcome).run L).2 =
      (exec (WorkStep.act P) L ((settlementsOf outcome).map (.settlement w))).2 := by
  rw [AttemptRunner.settle, settlementsOf]
  split
  · rfl
  split
  · simp only [List.map_cons, List.map_nil, exec, WorkStep.act, WorkStep.call, Settlement.call,
      Call.act, Call.op, run_map]
    exact keeps_run_bind (f := fun L : Ledger => L) (fun _ => (readOnly_pure _).keeps) L
  · simp only [List.map_cons, List.map_nil, exec, WorkStep.act, WorkStep.call, Settlement.call,
      Call.act, Call.op, run_map]
    exact keeps_run_bind (f := fun L : Ledger => L) (fun _ => (readOnly_pure _).keeps) L

/-! ### Late settlements -/

/-- The step leaves state and fence of the job as they were. -/
def LeavesJob (e : WorkEntry) (jobId : String) : Prop :=
  (e.after.job? jobId).map (fun job => (job.state, job.fence)) =
    (e.before.job? jobId).map fun job => (job.state, job.fence)

/-- A settlement other than `lose` moves a job only for the holder of its lease. -/
theorem Moves.eq_of_not_held {job job' : Job} (h : Moves (s.call w) job job') (hs : s ≠ .lose)
    (hstale : ¬job.HeldBy w.owner w.fence) : job' = job := by
  cases s with
  | finish now =>
    cases h with
    | stays => rfl
    | finished _ hheld => exact absurd hheld hstale
  | submit usageUnits =>
    cases h with
    | stays => rfl
    | submitted _ hheld => exact absurd hheld hstale
  | fail usageUnits =>
    cases h with
    | stays => rfl
    | failed _ hheld => exact absurd hheld hstale
  | bill usageUnits =>
    cases h with
    | stays => rfl
  | lose => exact absurd rfl hs

/-- A settlement other than `lose` leaves the job when it comes too late. -/
theorem leavesJob_of_stale (h : Effect P e.before (s.call w) e.reply e.after) (hs : s ≠ .lose)
    (hstale : ¬e.before.HeldBy w) : LeavesJob e w.jobId := by
  obtain ⟨L, step, reply, L'⟩ := e
  dsimp only [LeavesJob] at *
  generalize hcall : s.call w = call at h
  cases h with
  | moved _ _ move _ _ _ hmove =>
    rw [Ledger.job?_moved hmove]
    rcases hjob : L.job? w.jobId with _ | job
    · rfl
    · have hmem : job ∈ L.outbox := List.mem_of_find?_eq_some hjob
      have hstay : move job = job :=
        Moves.eq_of_not_held (hcall ▸ hmove job hmem) hs fun hheld => hstale ⟨job, hjob, hheld⟩
      simp [hstay]
  | refused => rfl
  | _ => cases s <;> simp [Settlement.call] at hcall

/-- `lose` leaves a job exactly when it is not leased. -/
theorem leavesJob_lose_iff
    (hafter : e.after = ((Call.markJobUnknown w.jobId).act P e.before).2) :
    LeavesJob e w.jobId ↔ e.before.jobState w.jobId ≠ some .leased := by
  have hfind : e.after.job? w.jobId = (e.before.job? w.jobId).map fun job =>
      if decide (job.jobId = w.jobId ∧ job.state = .leased) = true then
        { job with state := .unknown }
      else job := by
    rw [hafter]
    exact Rows.find?_update (fun _ => rfl)
  rw [LeavesJob, hfind, Ledger.jobState]
  rcases hjob : e.before.job? w.jobId with _ | job
  · simp
  · have hid : job.jobId = w.jobId := by simpa using List.find?_some hjob
    by_cases hleased : job.state = .leased
    · simp [hid, hleased]
    · simp [hid, hleased]

/-- A run of work stays in well-formed ledgers. -/
theorem wellFormed_of_work (hL : L₀.WellFormed) (hr : Run (WorkStep.act P) L₀ h L) :
    L.WellFormed := hr.inv_state hL fun _ step hwf => hwf.act step.call

/-- **When a settlement that comes too late leaves its job alone**, in every interleaving: it
is not the marking of an unknown outcome while the job is leased. -/
theorem settlement_leaves_iff (hL : History P g L₀) (hr : Run (WorkStep.act P) L₀ h L)
    (he : e ∈ h) (hop : e.op = .settlement w s) (hstale : ¬e.before.HeldBy w) :
    LeavesJob e w.jobId ↔ ¬(s = .lose ∧ e.before.jobState w.jobId = some .leased) := by
  obtain ⟨h₁, h₂, rfl⟩ := List.append_of_mem he
  obtain ⟨hbefore, hperform, -⟩ := hr.split
  have hwf := wellFormed_of_work hL.wellFormed hbefore
  have hafter : e.after = ((s.call w).act P e.before).2 := by
    rw [hperform, hop]
    rfl
  have heff : Effect P e.before (s.call w) e.reply e.after := by
    rw [hperform, hop]
    exact Call.effect_act hwf.job_ids _
  by_cases hs : s = .lose
  · subst hs
    rw [leavesJob_lose_iff hafter]
    simp
  · exact iff_of_true (leavesJob_of_stale heff hs hstale) fun hlose => hs hlose.1

end

/-- The ledger after `ada`'s first command enqueued a job. -/
def adaJobLedger : Ledger :=
  acmeLedger.commit { adaPlans 0 with enqueue := true } adaRequestDigest adaEventId adaResponse

theorem history_adaJob :
    History .ascii (acmeHistory ++ [callOf acmeLedger { adaPlans 0 with enqueue := true }])
      adaJobLedger := by
  have hrun := history_acme.snoc (.executeCommand { adaPlans 0 with enqueue := true })
  rwa [act_adaPlans] at hrun

/-- Worker `a` leases the job until 10, and worker `b` takes it over at 20. -/
def takeover : List WorkStep :=
  [.repository (.claimJob 0 acmeScope adaEventId "worker-a" 0 10),
    .repository (.claimOutbox 10 acmeScope "worker-b" 20 300)]

/-- The ledger in which `b` holds the job under fence 2. -/
def takeoverLedger : Ledger := (exec (WorkStep.act .ascii) adaJobLedger takeover).2

/-- The lease of `a`, under fence 1. -/
def workerA : Worker := ⟨adaEventId, "worker-a", 1⟩

theorem takeoverLedger_spec : ¬takeoverLedger.HeldBy workerA ∧
    takeoverLedger.jobState adaEventId = some .leased := by
  decide

/-- A result that `a` submits too late leaves the job to `b`. -/
theorem settlement_leaves_iff_submit :
    LeavesJob (Entry.perform (WorkStep.act .ascii) takeoverLedger
        (.settlement workerA (.submit 5))) adaEventId ↔
      ¬(Settlement.submit 5 = .lose ∧ takeoverLedger.jobState adaEventId = some .leased) :=
  settlement_leaves_iff (w := workerA) (s := .submit 5) history_adaJob
    ((run_exec (WorkStep.act .ascii) adaJobLedger takeover).snoc (.settlement workerA (.submit 5)))
    List.mem_concat_self rfl takeoverLedger_spec.1

/-- **A late unknown outcome displaces the live lease**: the runner of `a` marks the job that
`b` holds. -/
theorem late_unknown_displaces :
    ¬∀ (P : Primitives) (g : List CallEntry) (h : List WorkEntry) (L₀ L : Ledger) (e : WorkEntry)
      (w : Worker) (s : Settlement), History P g L₀ → Run (WorkStep.act P) L₀ h L → e ∈ h →
      e.op = .settlement w s → ¬e.before.HeldBy w → LeavesJob e w.jobId := by
  intro hclaim
  obtain ⟨hstale, hleased⟩ := takeoverLedger_spec
  have hleaves := hclaim .ascii _ _ _ _ _ workerA .lose history_adaJob
    ((run_exec (WorkStep.act .ascii) adaJobLedger takeover).snoc (.settlement workerA .lose))
    List.mem_concat_self rfl hstale
  exact (leavesJob_lose_iff (P := .ascii) rfl).mp hleaves hleased

end CyranoAgent
