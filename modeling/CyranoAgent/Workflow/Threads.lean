import CyranoAgent.Workflow.ExecutionSpec

/-!
# Calls of `run_work` that interleave

`run_work` reads and writes its ledger in separate transactions, and other connections may
come in between any two. A `Phase` is a point between two of them; `Phase.step` makes the next
access. Steps of any number of such calls, together with the other transactions that dispatch
or stop work, make up the runs of a `System`.

`finish_eq_runWork` connects the steps with the code: a call that is not interrupted does what
`runWork` does.
-/

namespace CyranoAgent

open Lib Lib.Action AttemptRunner

/-- How far a call of `run_work` has come. -/
inductive Phase
  /-- Before the check for a cancellation. -/
  | entered
  /-- Past that check. -/
  | dispatchable
  /-- Past the check of the remembered job, with the attempt's id. -/
  | numbered (attemptId : String)
  /-- With the revision that the command will expect. -/
  | positioned (attemptId : String) (revision : ℕ)
  /-- The job is in the outbox. -/
  | enqueued (attemptId jobId : String)
  /-- With the lease floor. -/
  | floored (attemptId jobId : String) (floor : ℤ)
  /-- The job is leased. -/
  | leased (attempt : Attempt)
  /-- The start is audited; the worker comes next. -/
  | started (attempt : Attempt)
  /-- The worker has been invoked. -/
  | working (attempt : Attempt)
  /-- The usage of an unknown outcome is billed. -/
  | billed (attempt : Attempt) (outcome : WorkOutcome)
  | ended (result : Except Failure AttemptReceipt)

/-- A call of `run_work` on runner number `runner`. -/
structure Thread where
  runner : ℕ
  streamId : String
  taskId : String
  now : ℤ
  leaseTtl : ℤ
  phase : Phase := .entered

section

variable (P : Primitives)

/-- The next access of a call. `result` is what the worker comes to, if it is running. -/
def Phase.step (streamId taskId : String) (now leaseTtl : ℤ) (result : WorkerResult) :
    Phase → RunnerOp Phase
  | .entered => do
    onLedger (requireDispatchable streamId)
    return .dispatchable
  | .dispatchable => do
    requireKnown taskId
    updateRunner fun runner => { runner with seq := runner.seq + 1 }
    return .numbered ((← get).1.attemptId taskId)
  | .numbered attemptId => do
    return .positioned attemptId
      (← onLedger (Repository.readScopedEntity (← get).1.scope streamId))
  | .positioned attemptId revision => do
    let receipt ← onLedger (Repository.executeCommand P
      (workCommand (← get).1.scope streamId taskId attemptId revision))
    return .enqueued attemptId receipt.eventId
  | .enqueued attemptId jobId => do
    return .floored attemptId jobId (← onLedger Repository.monotonicFloor)
  | .floored attemptId jobId floor => do
    match ← onLedger
        (Repository.claimJobFrom floor (← get).1.scope jobId attemptId now leaseTtl) with
    | none => throw (.cyrano "LEASE_LOST" "job not claimable")
    | some lease => do
      updateRunner fun runner => runner.record taskId jobId
      return .leased ⟨attemptId, jobId, lease.fence⟩
  | .leased attempt => do
    onLedger (Repository.audit streamId
      ("run_started task=" ++ taskId ++ " job=" ++ attempt.jobId))
    return .started attempt
  | .started attempt => return .working attempt
  | .working attempt => do
    let outcome ← lift (outcomeOf result)
    if outcome.status = "unknown" then do
      onLedger (Repository.recordUsage attempt.jobId outcome.usageUnits)
      return .billed attempt outcome
    else do
      let settled ← onLedger (settle attempt.jobId attempt.attemptId attempt.fence outcome)
      return .ended (.ok (receiptOf attempt settled outcome))
  | .billed attempt outcome => do
    onLedger (Repository.markJobUnknown attempt.jobId)
    return .ended (.ok (receiptOf attempt "unknown" outcome))
  | .ended result => return .ended result

/-- The phase after an access that may have raised. -/
def Phase.after : Except Failure Phase → Phase
  | .ok phase => phase
  | .error e => .ended (.error e)

/-- At most `n` steps of a call that nothing interrupts. -/
def Phase.finish (streamId taskId : String) (now leaseTtl : ℤ) (result : WorkerResult) :
    ℕ → Phase → RunnerOp Phase
  | 0, phase => return phase
  | n + 1, phase => do
    Phase.finish streamId taskId now leaseTtl result n
      (← phase.step P streamId taskId now leaseTtl result)

end

/-- A ledger, the runners bound to it, and the calls of `run_work` made on them. -/
structure System where
  ledger : Ledger
  runners : List AttemptRunner := []
  threads : List Thread := []

/-- A ledger that no runner is bound to yet. -/
def System.on (L : Ledger) : System := { ledger := L }

/-- The steps of a system: a runner is bound, a call of `run_work` is made or makes its next
access, or another connection performs a transaction. -/
inductive SystemStep
  | bind (scopeId : String)
  | begin (runner : ℕ) (streamId taskId : String) (now leaseTtl : ℤ)
  | advance (k : ℕ) (result : WorkerResult)
  | cancelRun (scopeId streamId : String) (generation : ℤ)
  | reconcileAttempt (jobId disposition : String)
  | claimOutbox (floor : ℤ) (scopeId owner : String) (now ttlSeconds : ℤ)
  | claimJob (floor : ℤ) (scopeId jobId owner : String) (now ttlSeconds : ℤ)
  | audit (streamId detail : String)

/-- Perform a transaction of the ledger. -/
def System.onLedger {α : Type} (S : System) (op : Op α) : Except Failure Unit × System :=
  ((op.run S.ledger).1.map fun _ => (), { S with ledger := (op.run S.ledger).2 })

/-- The next access of thread `k`; a thread that raised has ended. -/
def System.advance (P : Primitives) (S : System) (k : ℕ) (result : WorkerResult) :
    Except Failure Unit × System :=
  match S.threads[k]? with
  | none => (.ok (), S)
  | some thread =>
    match S.runners[thread.runner]? with
    | none => (.ok (), S)
    | some runner =>
      let out := (thread.phase.step P thread.streamId thread.taskId thread.now thread.leaseTtl
        result).run (runner, S.ledger)
      (out.1.map fun _ => (), ⟨out.2.2, S.runners.set thread.runner out.2.1,
        S.threads.set k { thread with phase := .after out.1 }⟩)

/-- Perform a step. -/
def SystemStep.act (P : Primitives) (step : SystemStep) (S : System) :
    Except Failure Unit × System :=
  match step with
  | .bind scopeId => (.ok (), { S with runners := S.runners ++ [{ scope := scopeId }] })
  | .begin runner streamId taskId now leaseTtl =>
    (.ok (), { S with
      threads := S.threads ++ [{ runner, streamId, taskId, now, leaseTtl }] })
  | .advance k result => S.advance P k result
  | .cancelRun scopeId streamId generation =>
    S.onLedger (AttemptRunner.cancelRunIn scopeId streamId generation)
  | .reconcileAttempt jobId disposition =>
    S.onLedger (AttemptRunner.reconcileAttempt jobId disposition)
  | .claimOutbox floor scopeId owner now ttlSeconds =>
    S.onLedger (Repository.claimOutboxFrom floor scopeId owner now ttlSeconds)
  | .claimJob floor scopeId jobId owner now ttlSeconds =>
    S.onLedger (Repository.claimJobFrom floor scopeId jobId owner now ttlSeconds)
  | .audit streamId detail => S.onLedger (Repository.audit streamId detail)

/-- One step of a history of a system. -/
abbrev SystemEntry := Entry System SystemStep (Except Failure Unit)

section

variable {P : Primitives}

/-! ### A call on its own -/

variable {streamId taskId : String} {now leaseTtl : ℤ} {worker : String → WorkerResult}

theorem finish_succ (n : ℕ) (phase : Phase) (result : WorkerResult) :
    Phase.finish P streamId taskId now leaseTtl result (n + 1) phase =
      phase.step P streamId taskId now leaseTtl result >>=
        Phase.finish P streamId taskId now leaseTtl result n := rfl

/-- From the worker on, the steps of a call are its settlement. -/
theorem finish_started (attempt : Attempt) :
    Phase.finish P streamId taskId now leaseTtl (worker taskId) 3 (.started attempt) = do
      let outcome ← lift (outcomeOf (worker taskId))
      let settled ← onLedger (settle attempt.jobId attempt.attemptId attempt.fence outcome)
      return .ended (.ok (receiptOf attempt settled outcome)) := by
  simp only [Phase.finish, Phase.step, pure_then, then_assoc]
  refine congrArg (lift (outcomeOf (worker taskId)) >>= ·) (funext fun outcome => ?_)
  split
  · next hunknown =>
    simp only [settle, hunknown, if_true, onLedger_then, onLedger_pure, pure_then, then_assoc]
  · simp only [pure_then, then_assoc]

/-- Up to the worker, they are its dispatch. -/
theorem finish_entered :
    Phase.finish P streamId taskId now leaseTtl (worker taskId) 10 .entered =
      dispatch P streamId taskId now leaseTtl >>= fun attempt =>
        Phase.finish P streamId taskId now leaseTtl (worker taskId) 3 (.started attempt) := by
  refine run_ext fun (runner, L) => ?_
  simp only [finish_succ 9, Phase.step, dispatch, Repository.claimJob, onLedger_then, pure_then,
    then_assoc, run_onLedger_then]
  rcases (requireDispatchable streamId).run L with ⟨_ | _, L⟩
  · rfl
  simp only [finish_succ 8, Phase.step, pure_then, then_assoc, run_requireKnown_then]
  split
  · rfl
  simp only [run_updateRunner_then, run_get_then, finish_succ 7, Phase.step, pure_then,
    then_assoc, run_onLedger_then]
  rcases (Repository.readScopedEntity runner.scope streamId).run L with ⟨_ | revision, L⟩
  · rfl
  simp only [run_get_then, finish_succ 6, Phase.step, pure_then, then_assoc, run_onLedger_then]
  generalize Repository.executeCommand P _ = command
  rcases command.run L with ⟨_ | receipt, L⟩
  · rfl
  simp only [finish_succ 5, Phase.step, pure_then, then_assoc, run_onLedger_then]
  rcases Repository.monotonicFloor.run L with ⟨_ | floor, L⟩
  · rfl
  simp only [run_get_then, finish_succ 4, Phase.step, then_assoc, run_onLedger_then]
  generalize Repository.claimJobFrom _ _ _ _ _ _ = claim
  rcases claim.run L with ⟨_ | _ | lease, L⟩
  · rfl
  · rfl
  simp only [run_updateRunner_then, finish_succ 3, Phase.step, pure_then, then_assoc]

/-- **A call that nothing interrupts is `run_work`.** -/
theorem finish_eq_runWork :
    Phase.finish P streamId taskId now leaseTtl (worker taskId) 10 .entered =
      (fun receipt => .ended (.ok receipt)) <$>
        runWork P streamId taskId worker now leaseTtl := by
  simp only [finish_entered, finish_started, runWork, map_eq_then, then_assoc, pure_then]

/-! ### What an access does -/

/-- What an access of a call does, on a runner bound to `scopeId`: the phase it leads to, and
the ledger it leaves. -/
inductive Advances (P : Primitives) (scopeId streamId taskId : String) (L : Ledger) :
    Phase → Phase → Ledger → Prop
  | raised (phase : Phase) (e : Failure) :
      Advances P scopeId streamId taskId L phase (.ended (.error e)) L
  | checked : L.cancellation? streamId = none →
      Advances P scopeId streamId taskId L .entered .dispatchable L
  | known (attemptId : String) :
      Advances P scopeId streamId taskId L .dispatchable (.numbered attemptId) L
  | read (attemptId : String) (revision : ℕ) :
      Advances P scopeId streamId taskId L (.numbered attemptId) (.positioned attemptId revision) L
  | enqueued (attemptId : String) (revision : ℕ) (receipt : Receipt) (L' : Ledger) :
      Effect P L (.executeCommand (workCommand scopeId streamId taskId attemptId revision))
        (.ok (.receipt receipt)) L' →
      Advances P scopeId streamId taskId L (.positioned attemptId revision)
        (.enqueued attemptId receipt.eventId) L'
  | floored (attemptId jobId : String) (floor : ℤ) :
      Advances P scopeId streamId taskId L (.enqueued attemptId jobId)
        (.floored attemptId jobId floor) L
  | leased (attemptId jobId : String) (floor now leaseTtl : ℤ) (lease : Lease) (L' : Ledger) :
      (∃ job ∈ L.outbox, job.jobId = jobId ∧ job.state = .pending) →
      Effect P L (.claimJob floor scopeId jobId attemptId now leaseTtl)
        (.ok (.lease (some lease))) L' →
      Advances P scopeId streamId taskId L (.floored attemptId jobId floor)
        (.leased ⟨attemptId, jobId, lease.fence⟩) L'
  | audited (attempt : Attempt) (detail : String) (L' : Ledger) :
      Effect P L (.audit streamId detail) (.ok .done) L' →
      Advances P scopeId streamId taskId L (.leased attempt) (.started attempt) L'
  | invoked (attempt : Attempt) :
      Advances P scopeId streamId taskId L (.started attempt) (.working attempt) L
  | billed (attempt : Attempt) (outcome : WorkOutcome) (L' : Ledger) :
      Effect P L (.recordUsage attempt.jobId outcome.usageUnits) (.ok .done) L' →
      Advances P scopeId streamId taskId L (.working attempt) (.billed attempt outcome) L'
  | settled (phase : Phase) (call : Call) (reply : Reply) (receipt : AttemptReceipt)
      (L' : Ledger) :
      call.Settles → Effect P L call (.ok reply) L' →
      Advances P scopeId streamId taskId L phase (.ended (.ok receipt)) L'
  | rests (result : Except Failure AttemptReceipt) :
      Advances P scopeId streamId taskId L (.ended result) (.ended result) L

variable {L L' : Ledger} {runner runner' : AttemptRunner}

/-- **Every access of a call of `run_work` is one of these.** -/
theorem Phase.advances (hL : L.UniqueJobs) {phase : Phase} {result : WorkerResult}
    {x : Except Failure Phase}
    (h : (phase.step P streamId taskId now leaseTtl result).run (runner, L) = (x, (runner', L'))) :
    Advances P runner.scope streamId taskId L phase (.after x) L' := by
  cases phase with
  | entered =>
    obtain ⟨e, hrun, rfl⟩ | ⟨_, hrun, rfl⟩ := onLedger_last h
    · obtain rfl : L' = L := by
        have hread := readOnly_requireDispatchable streamId L
        rwa [hrun] at hread
      exact .raised _ e
    · obtain ⟨hnone, rfl⟩ := requireDispatchable_eq_ok.mp hrun
      exact .checked hnone
  | dispatchable =>
    rw [Phase.step, run_requireKnown_then] at h
    split at h
    · obtain ⟨rfl, -, rfl⟩ := by simpa only [Prod.mk.injEq] using h
      exact .raised _ _
    · rw [run_updateRunner_then, run_get_then, run_pure] at h
      obtain ⟨rfl, -, rfl⟩ := by simpa only [Prod.mk.injEq] using h
      exact .known _
  | numbered attemptId =>
    rw [Phase.step, run_get_then] at h
    obtain ⟨e, hrun, rfl⟩ | ⟨revision, hrun, rfl⟩ := onLedger_last h
    all_goals
      have hread := readOnly_readScopedEntity runner.scope streamId L
      rw [hrun] at hread
      obtain rfl : L' = L := hread
    · exact .raised _ e
    · exact .read attemptId revision
  | positioned attemptId revision =>
    rw [Phase.step, run_get_then] at h
    have hop (c : Command) : (Call.executeCommand c).op P = Reply.receipt <$> _ := rfl
    obtain ⟨e, hrun, rfl⟩ | ⟨receipt, hrun, rfl⟩ := onLedger_last h
    · obtain rfl := eq_of_run_error hL (hop _) hrun
      exact .raised _ e
    · exact .enqueued attemptId revision receipt L' (effect_of_run_op hL (hop _) hrun)
  | enqueued attemptId jobId =>
    obtain ⟨e, hrun, rfl⟩ | ⟨floor, hrun, rfl⟩ := onLedger_last h
    all_goals
      simp only [Repository.monotonicFloor, run_bind, run_get, run_pure,
        Prod.mk.injEq, reduceCtorEq, false_and] at hrun
    obtain ⟨-, rfl⟩ := hrun
    exact .floored attemptId jobId floor
  | floored attemptId jobId floor =>
    rw [Phase.step, run_get_then, run_onLedger_then] at h
    have hop : (Call.claimJob floor runner.scope jobId attemptId now leaseTtl).op P =
      Reply.lease <$> _ := rfl
    rcases hrun : (Repository.claimJobFrom floor runner.scope jobId attemptId now leaseTtl).run L
      with ⟨e | _ | lease, L₁⟩
    all_goals simp only [hrun] at h
    · obtain ⟨rfl, -, rfl⟩ := by simpa only [Prod.mk.injEq] using h
      obtain rfl := eq_of_run_error hL hop hrun
      exact .raised _ e
    · rw [run_throw] at h
      obtain ⟨rfl, -, rfl⟩ := by simpa only [Prod.mk.injEq] using h
      obtain ⟨-, ⟨-, -, rfl⟩ | ⟨_, -, hnone, -⟩⟩ := Repository.claimJobFrom_eq_ok.mp hrun
      · exact .raised _ _
      · simp at hnone
    · rw [run_updateRunner_then, run_pure] at h
      obtain ⟨rfl, -, rfl⟩ := by simpa only [Prod.mk.injEq] using h
      obtain ⟨-, ⟨-, hnone, -⟩ | ⟨job, hpending, -, -⟩⟩ := Repository.claimJobFrom_eq_ok.mp hrun
      · simp at hnone
      obtain ⟨hid, -, hstate⟩ : job.jobId = jobId ∧ _ ∧ job.state = .pending := by
        simpa using List.find?_some hpending
      exact .leased attemptId jobId floor now leaseTtl lease L₁
        ⟨job, List.mem_of_find?_eq_some hpending, hid, hstate⟩ (effect_of_run_op hL hop hrun)
  | leased attempt =>
    have hop (detail : String) : (Call.audit streamId detail).op P =
      (fun _ => Reply.done) <$> _ := rfl
    obtain ⟨e, hrun, rfl⟩ | ⟨_, hrun, rfl⟩ := onLedger_last h
    · obtain rfl := eq_of_run_error hL (hop _) hrun
      exact .raised _ e
    · exact .audited attempt _ L' (effect_of_run_op hL (hop _) hrun)
  | started attempt =>
    obtain ⟨rfl, -, rfl⟩ := by simpa only [Phase.step, run_pure, Prod.mk.injEq] using h
    exact .invoked attempt
  | working attempt =>
    rw [Phase.step, run_bind] at h
    rcases houtcome : outcomeOf result with e | outcome
    all_goals simp only [houtcome, run_lift_error, run_lift_ok] at h
    · obtain ⟨rfl, -, rfl⟩ := by simpa only [Prod.mk.injEq] using h
      exact .raised _ e
    split at h
    · have hop : (Call.recordUsage attempt.jobId outcome.usageUnits).op P =
        (fun _ => Reply.done) <$> _ := rfl
      obtain ⟨e, hrun, rfl⟩ | ⟨_, hrun, rfl⟩ := onLedger_last h
      · obtain rfl := eq_of_run_error hL hop hrun
        exact .raised _ e
      · exact .billed attempt outcome L' (effect_of_run_op hL hop hrun)
    · next hknown =>
      obtain ⟨call, op, settled, hcall, hop, hsettle⟩ := settle_eq_call P attempt hknown
      rw [hsettle, onLedger_then, then_assoc] at h
      simp only [onLedger_pure, pure_then] at h
      obtain ⟨e, hrun, rfl⟩ | ⟨state, hrun, rfl⟩ := onLedger_last h
      · obtain rfl := eq_of_run_error hL hop hrun
        exact .raised _ e
      · exact .settled _ call _ _ L' hcall (effect_of_run_op hL hop hrun)
  | billed attempt outcome =>
    have hop : (Call.markJobUnknown attempt.jobId).op P = (fun _ => Reply.done) <$> _ := rfl
    obtain ⟨e, hrun, rfl⟩ | ⟨_, hrun, rfl⟩ := onLedger_last h
    · obtain rfl := eq_of_run_error hL hop hrun
      exact .raised _ e
    · exact .settled _ (.markJobUnknown _) _ _ L' trivial (effect_of_run_op hL hop hrun)
  | ended result =>
    obtain ⟨rfl, -, rfl⟩ := by simpa only [Phase.step, run_pure, Prod.mk.injEq] using h
    exact .rests result

end

end CyranoAgent
