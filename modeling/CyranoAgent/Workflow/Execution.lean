import CyranoAgent.Sqlite.Repository

/-!
# The attempt runner

`AttemptRunner`: `run_work` enqueues a job, leases it, invokes the worker and settles the
job; `recover_inflight`, `reconcile_attempt` and `cancel_run` deal with the jobs that were
left behind. A runner remembers the last job of each task in memory, so its operations act on
a runner and a ledger (`RunnerOp`).

`dispatch` is `run_work` up to the call of the worker. It is a definition of its own because
"the worker is invoked" means that it returned.
-/

namespace CyranoAgent

open Lib Lib.Action

/-- `WorkOutcome`. -/
structure WorkOutcome where
  status : String
  resultRef : String := ""
  postimageDigest : Option String := none
  usageUnits : ℤ := 0
  detail : String := ""
  deriving DecidableEq, Repr

/-- What calling a worker comes to: an outcome, a `TimeoutError`, or another exception. -/
inductive WorkerResult
  | returned (outcome : WorkOutcome)
  | timedOut (text : String)
  | raised (e : Failure)
  deriving DecidableEq, Repr

/-- `AttemptReceipt`. -/
structure AttemptReceipt where
  attemptId : String
  jobId : String
  outcome : String
  resultRef : String
  postimageDigest : Option String
  usageUnits : ℤ
  detail : String
  deriving DecidableEq, Repr

/-- `CancelReport`. -/
structure CancelReport where
  streamId : String
  state : String
  cancelled : List String
  unknown : List String
  partialResults : List String
  deriving DecidableEq, Repr

/-- `AttemptRunner`: the scope it is bound to, the last job of each task, and the number of
attempts it has made. -/
structure AttemptRunner where
  scope : String
  attempts : List (String × String) := []
  seq : ℕ := 0
  deriving DecidableEq, Repr

/-- An attempt whose job is leased, as `run_work` hands it to the worker. -/
structure Attempt where
  attemptId : String
  jobId : String
  fence : ℤ
  deriving DecidableEq, Repr

/-- An action of a runner on its ledger. -/
abbrev RunnerOp (α : Type) := Lib.Action (AttemptRunner × Ledger) Failure α

/-- A job's event is on the stream: `JOIN events e ON e.event_id = o.job_id`. -/
def Ledger.JobOn (L : Ledger) (streamId : String) (job : Job) : Prop :=
  ∃ ev ∈ L.events, ev.eventId = job.jobId ∧ ev.streamId = streamId

instance (L : Ledger) (streamId : String) (job : Job) : Decidable (L.JobOn streamId job) :=
  inferInstanceAs (Decidable (∃ ev ∈ L.events, _))

/-- The ids of a scope's jobs on a stream that are in a state. -/
def Ledger.jobsIn (L : Ledger) (scopeId streamId : String) (state : JobState) : List String :=
  (L.outbox.filter fun job => job.scopeId = scopeId ∧ L.JobOn streamId job ∧
    job.state = state).map (·.jobId)

/-- The cancellation of a stream. -/
def Ledger.cancellation? (L : Ledger) (streamId : String) : Option CancellationRow :=
  L.runCancellations.find? fun row => row.streamId = streamId

namespace AttemptRunner

/-- The job a runner remembers for a task. -/
def attempt? (runner : AttemptRunner) (taskId : String) : Option String :=
  (runner.attempts.find? fun entry => entry.1 = taskId).map Prod.snd

/-- `self._attempts[task_id] = job_id`. -/
def record (runner : AttemptRunner) (taskId jobId : String) : AttemptRunner :=
  { runner with attempts := Rows.replace Prod.fst (taskId, jobId) runner.attempts }

/-- `{task_id}-a{seq}`. -/
def attemptId (runner : AttemptRunner) (taskId : String) : String :=
  taskId ++ "-a" ++ toString runner.seq

/-- Run an action of the ledger, leaving the runner as it is. -/
def onLedger {α : Type} (op : Op α) : RunnerOp α := fun s =>
  ((op.run s.2).1, (s.1, (op.run s.2).2))

/-- Change the runner. -/
def updateRunner (f : AttemptRunner → AttemptRunner) : RunnerOp Unit :=
  modify fun s => (f s.1, s.2)

/-! ### Running work -/

/-- `run_state`. -/
def runState (streamId : String) : Op String := do
  return (((← get).cancellation? streamId).map (·.state.text)).getD "active"

/-- `_require_dispatchable`. -/
def requireDispatchable (streamId : String) : Op Unit := do
  raiseIf ((← runState streamId) ≠ "active")
    (.cyrano "RUN_CANCELLED" "stream is reconciling a cancel; no new dispatch")

/-- The job the runner remembers for the task is not in state `unknown`. -/
def requireKnown (taskId : String) : RunnerOp Unit := do
  let (runner, L) ← get
  raiseIf ((runner.attempt? taskId).bind L.jobState = some .unknown)
    (.cyrano "UNKNOWN_OUTCOME" (taskId ++ " outcome unknown; reconcile before retry"))

/-- The command that enqueues an attempt's job. -/
def workCommand (scopeId streamId taskId attemptId : String) (revision : ℕ) : Command :=
  { scopeId, actor := "attempt_runner", command := "run_work", idempotencyKey := attemptId
    payload := [(.str "task_id", .str taskId), (.str "attempt", .str attemptId)], streamId
    expectedRevision := revision, enqueue := true }

section

variable (P : Primitives)

/-- `run_work` up to the call of the worker. -/
def dispatch (streamId taskId : String) (now leaseTtl : ℤ) : RunnerOp Attempt := do
  onLedger (requireDispatchable streamId)
  requireKnown taskId
  updateRunner fun runner => { runner with seq := runner.seq + 1 }
  let runner := (← get).1
  let attemptId := runner.attemptId taskId
  let revision ← onLedger (Repository.readScopedEntity runner.scope streamId)
  let receipt ← onLedger
    (Repository.executeCommand P (workCommand runner.scope streamId taskId attemptId revision))
  match ← onLedger
      (Repository.claimJob runner.scope receipt.eventId attemptId now leaseTtl) with
  | none => throw (.cyrano "LEASE_LOST" "job not claimable")
  | some lease => do
    updateRunner fun runner => runner.record taskId receipt.eventId
    onLedger (Repository.audit streamId
      ("run_started task=" ++ taskId ++ " job=" ++ receipt.eventId))
    return ⟨attemptId, receipt.eventId, lease.fence⟩

/-- `_settle`. An unknown outcome is billed and then marked, in two transactions, the second
of which knows neither owner nor fence. -/
def settle (jobId owner : String) (fence : ℤ) (outcome : WorkOutcome) : Op String :=
  if outcome.status = "unknown" then do
    Repository.recordUsage jobId outcome.usageUnits
    Repository.markJobUnknown jobId
    return "unknown"
  else if outcome.status = "failed" then do
    let state ← Repository.failJob jobId owner fence outcome.usageUnits
    return if state = "recorded" then "failed" else "stale"
  else do
    let state ← Repository.submitResult jobId owner fence outcome.usageUnits
    return if state = "applied" then "completed" else "stale"

/-- The outcome `run_work` takes from its worker: a timeout counts as `unknown`, and any
other exception is passed on. -/
def outcomeOf : WorkerResult → Except Failure WorkOutcome
  | .returned outcome =>
    if outcome.status ∈ ["completed", "failed", "unknown"] then .ok outcome
    else .error (.cyrano "INVALID_OUTCOME" outcome.status)
  | .timedOut text => .ok { status := "unknown", detail := text }
  | .raised e => .error e

/-- The receipt of an attempt. -/
def receiptOf (attempt : Attempt) (settled : String) (outcome : WorkOutcome) : AttemptReceipt :=
  ⟨attempt.attemptId, attempt.jobId, settled, outcome.resultRef, outcome.postimageDigest,
    outcome.usageUnits, outcome.detail⟩

/-- `run_work`. -/
def runWork (streamId taskId : String) (worker : String → WorkerResult) (now leaseTtl : ℤ) :
    RunnerOp AttemptReceipt := do
  let attempt ← dispatch P streamId taskId now leaseTtl
  let outcome ← lift (outcomeOf (worker taskId))
  let settled ← onLedger (settle attempt.jobId attempt.attemptId attempt.fence outcome)
  return receiptOf attempt settled outcome

end

/-! ### Jobs left behind -/

/-- `recover_inflight`. -/
def recoverInflight (scopeId streamId : String) : Op (List String) := do
  let jobIds := (← get).jobsIn scopeId streamId .leased
  jobIds.forM fun jobId => do
    Repository.markJobUnknown jobId
    Repository.audit streamId ("recover_unknown job=" ++ jobId ++ " reason=restart")
  return jobIds

/-- `reconcile_attempt`. -/
def reconcileAttempt (jobId disposition : String) : Op String :=
  Repository.reconcileUnknown jobId disposition

/-- `INSERT INTO run_cancellations … ON CONFLICT(stream_id) DO UPDATE`. -/
def upsertCancellation (streamId : String) (generation : ℤ) : Op Unit := do
  Repository.bindInt generation
  modify fun L => { L with
    runCancellations :=
      if (L.cancellation? streamId).isSome then
        Rows.update (fun row => row.streamId = streamId)
          (fun row => { row with state := .reconciling, generation }) L.runCancellations
      else L.runCancellations ++ [⟨streamId, generation, .reconciling, "now"⟩] }

/-- Set the state of the listed jobs. -/
def setJobStates (jobIds : List String) (state : JobState) : Op Unit :=
  modify fun L => { L with
    outbox := Rows.update (fun job => job.jobId ∈ jobIds) (fun job => { job with state }) L.outbox }

/-- The transaction of `cancel_run`: the cancelled, the unknown and the completed jobs. -/
def cancelRunIn (scopeId streamId : String) (generation : ℤ) :
    Op (List String × List String × List String) :=
  transaction do
    let _ ← Repository.readScopedEntity scopeId streamId
    let L ← get
    setJobStates (L.jobsIn scopeId streamId .pending) .cancelled
    setJobStates (L.jobsIn scopeId streamId .leased) .unknown
    upsertCancellation streamId generation
    return (L.jobsIn scopeId streamId .pending, L.jobsIn scopeId streamId .leased,
      (← get).jobsIn scopeId streamId .completed)

/-- `cancel_run`. -/
def cancelRun (scopeId streamId : String) (generation : ℤ) : Op CancelReport := do
  let (cancelled, unknown, partialResults) ← cancelRunIn scopeId streamId generation
  Repository.audit streamId ("cancel_run cancelled=" ++ toString cancelled.length ++
    " unknown=" ++ toString unknown.length)
  return ⟨streamId, "reconciling", cancelled.insertionSort (· ≤ ·),
    unknown.insertionSort (· ≤ ·), partialResults.insertionSort (· ≤ ·)⟩

/-- `mark_reconciled`. -/
def markReconciled (scopeId streamId : String) : Op Unit := do
  let unknown := (← get).jobsIn scopeId streamId .unknown
  raiseIf (unknown ≠ [])
    (.cyrano "UNKNOWN_OUTCOME" (toString unknown.length ++ " jobs still unknown"))
  transaction (modify fun L => { L with
    runCancellations := Rows.update (fun row => row.streamId = streamId)
      (fun row => { row with state := .reconciled }) L.runCancellations })

end AttemptRunner

end CyranoAgent
