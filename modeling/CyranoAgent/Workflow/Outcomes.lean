import CyranoAgent.Workflow.Cancellation
import CyranoAgent.Workflow.Settlement

/-!
# Observed outcomes

A completed, failed or cancelled job has its outcome. Every operation that writes the state
column asks for the state a job is in, but one: `cancel_job` cancels the job of its scope
whatever became of it. `outcomes_kept_iff` is about every sequence of the repository's calls
other than deletions, and of `cancel_run`: outcomes are kept exactly when no `cancel_job` comes
for a job that is already completed or failed.
-/

namespace CyranoAgent

open Lib Lib.Action AttemptRunner

/-- A state that is a job's outcome. -/
def JobState.Terminal : JobState → Prop
  | .completed | .failed | .cancelled => True
  | .pending | .leased | .unknown => False

instance : DecidablePred JobState.Terminal := fun state => by
  cases state <;> simp only [JobState.Terminal] <;> infer_instance

/-- A call of `delete_stream`. -/
def Call.isDeletion : Call → Bool
  | .deleteStream .. => true
  | _ => false

/-- The operations on the outbox: the calls that delete no stream, and `cancel_run`. -/
inductive OutboxStep
  | repository (call : {call : Call // call.isDeletion = false})
  | cancelRun (scopeId streamId : String) (generation : ℤ)

/-- Perform an operation. -/
def OutboxStep.act (P : Primitives) (step : OutboxStep) (L : Ledger) :
    Except Failure Reply × Ledger :=
  match step with
  | .repository call => call.1.act P L
  | .cancelRun scopeId streamId generation =>
    ((fun _ => Reply.done) <$> AttemptRunner.cancelRun scopeId streamId generation).run L

/-- One operation of a history of the outbox. -/
abbrev OutboxEntry := Entry Ledger OutboxStep (Except Failure Reply)

/-- A job that has its outcome is in the same state ever after. -/
def OutcomesKept (h : List OutboxEntry) : Prop :=
  ∀ h₁ e h₂ jobId job, h = h₁ ++ e :: h₂ → e.before.job? jobId = some job →
    job.state.Terminal → ∀ d ∈ e :: h₂, d.after.jobState jobId = some job.state

/-- The operation cancels a job that is completed or failed. -/
def CancelsOutcome (e : OutboxEntry) : Prop :=
  ∃ scopeId jobId job, e.op = .repository ⟨.cancelJob scopeId jobId, rfl⟩ ∧
    e.before.job? jobId = some job ∧ job.scopeId = scopeId ∧
    (job.state = .completed ∨ job.state = .failed)

section

variable {P : Primitives} {L₀ L L' : Ledger} {g : List CallEntry} {h : List OutboxEntry}
  {e : OutboxEntry} {call : Call} {jobId : String} {job job' : Job}

/-! ### One operation -/

/-- A job with an outcome moves only when it is cancelled. -/
theorem Moves.of_terminal (h : Moves call job job') (hterm : job.state.Terminal) :
    job'.state = job.state ∨ call = .cancelJob job.scopeId job.jobId ∧ job'.state = .cancelled := by
  cases h with
  | stays => exact .inl rfl
  | claimed _ hclaim =>
    simp only [Repository.claimable, decide_eq_true_eq] at hclaim
    rcases hclaim.2 with hstate | ⟨hstate, -⟩
    · exact absurd hterm (by simp [hstate, JobState.Terminal])
    · exact absurd hterm (by simp [hstate, JobState.Terminal])
  | picked _ _ _ hstate => exact absurd hterm (by simp [hstate, JobState.Terminal])
  | finished _ hheld => exact absurd hterm (by simp [hheld.1, JobState.Terminal])
  | submitted _ hheld => exact absurd hterm (by simp [hheld.1, JobState.Terminal])
  | failed _ hheld => exact absurd hterm (by simp [hheld.1, JobState.Terminal])
  | cancelled hid hscope => exact .inr ⟨by rw [hid, hscope], rfl⟩
  | lost _ hstate => exact absurd hterm (by simp [hstate, JobState.Terminal])
  | requeued _ hstate => exact absurd hterm (by simp [hstate, JobState.Terminal])
  | discarded _ hstate => exact absurd hterm (by simp [hstate, JobState.Terminal])

/-- A call that deletes no stream keeps a job's outcome, unless it cancels the job. -/
theorem Effect.jobState_of_terminal {reply : Except Failure Reply} (h : Effect P L call reply L')
    (hcall : call.isDeletion = false) (hjob : L.job? jobId = some job)
    (hterm : job.state.Terminal)
    (hno : call = .cancelJob job.scopeId jobId → job.state = .cancelled) :
    L'.jobState jobId = some job.state := by
  have hsame : L.jobState jobId = some job.state := by rw [Ledger.jobState, hjob]; rfl
  cases h with
  | committed c requestDigest eventId body hacc =>
    have hkept : (L.commit c requestDigest eventId body).job? jobId = some job := by
      rw [Ledger.job?] at hjob ⊢
      rw [Ledger.commit]
      split
      · rw [List.find?_append, hjob, Option.some_or]
      · exact hjob
    rw [Ledger.jobState, hkept]
    rfl
  | moved _ _ move _ _ _ hmove =>
    have hid : job.jobId = jobId := by simpa using List.find?_some hjob
    have hmoves := hmove job (List.mem_of_find?_eq_some hjob)
    rw [Ledger.jobState, Ledger.job?_moved hmove, hjob]
    rcases hmoves.of_terminal hterm with hstay | ⟨hcancel, hcancelled⟩
    · simp [hstay]
    · simp [hcancelled, hno (hid ▸ hcancel)]
  | deleted => exact absurd hcall (by simp [Call.isDeletion])
  | _ => exact hsame

/-- A job that is not in the list is found as before. -/
theorem job?_setJobStates {jobIds : List String} {state : JobState}
    (hjob : L.job? jobId = some job) (hnot : job.jobId ∉ jobIds) :
    ({ L with
        outbox := Rows.update (fun job => job.jobId ∈ jobIds) (fun job => { job with state })
          L.outbox } : Ledger).job? jobId = some job := by
  have hfind : (Rows.update (fun job : Job => job.jobId ∈ jobIds)
      (fun job => { job with state }) L.outbox).find? (fun job => job.jobId = jobId) =
      (L.job? jobId).map fun job =>
        if decide (job.jobId ∈ jobIds) = true then { job with state } else job :=
    Rows.find?_update fun _ => rfl
  rw [Ledger.job?, hfind, hjob]
  simp [hnot]

/-- The jobs `cancel_run` stops are the pending and the leased ones: a job with an outcome is
found as before. -/
theorem cancelRunIn_job? (hL : L.UniqueJobs) {scopeId streamId : String} {generation : ℤ}
    {r : List String × List String × List String}
    (h : (cancelRunIn scopeId streamId generation).run L = (.ok r, L'))
    (hjob : L.job? jobId = some job) (hterm : job.state.Terminal) : L'.job? jobId = some job := by
  obtain ⟨hmem, hid⟩ := (Ledger.job?_eq_some hL).mp hjob
  have hnot (state : JobState) (hstate : ¬state.Terminal) :
      job.jobId ∉ L.jobsIn scopeId streamId state := by
    intro hin
    obtain ⟨job', hsel, hid'⟩ := List.mem_map.mp hin
    obtain ⟨hmem', hcond⟩ := List.mem_filter.mp hsel
    obtain rfl := Rows.eq_of_key_eq hL hmem' hmem hid'
    obtain ⟨-, -, rfl⟩ := of_decide_eq_true hcond
    exact hstate hterm
  have hpending := hnot .pending id
  have hleased := hnot .leased id
  simp only [cancelRunIn, transaction_eq_ok, bind_eq_ok, Repository.readScopedEntity_eq_ok,
    run_get, run_pure, setJobStates_eq_ok, Prod.mk.injEq, Except.ok.injEq] at h
  obtain ⟨_, _, ⟨-, -, rfl⟩, _, _, ⟨rfl, rfl⟩, _, _, rfl, _, _, rfl, _, _, hupsert, _, _,
    ⟨rfl, rfl⟩, -, rfl⟩ := h
  obtain ⟨-, houtbox, -⟩ := upsertCancellation_spec hupsert
  rw [Ledger.job?, houtbox]
  exact job?_setJobStates (job?_setJobStates hjob hpending) hleased

/-- `cancel_run` keeps a job's outcome. -/
theorem cancelRun_jobState (hL : L.UniqueJobs) {scopeId streamId : String} {generation : ℤ}
    (hjob : L.job? jobId = some job) (hterm : job.state.Terminal) :
    ((cancelRun scopeId streamId generation).run L).2.jobState jobId = some job.state := by
  have hsame : L.jobState jobId = some job.state := by rw [Ledger.jobState, hjob]; rfl
  rcases hrun : (cancelRunIn scopeId streamId generation).run L with ⟨err | r, L₁⟩
  · obtain rfl := run_transaction_error hrun
    rw [cancelRun, run_bind_error hrun]
    exact hsame
  · have hkept := cancelRunIn_job? hL hrun hjob hterm
    rw [cancelRun, run_bind_ok hrun]
    -- the audit entry that follows is not in the outbox
    change L₁.jobState jobId = some job.state
    rw [Ledger.jobState, hkept]
    rfl

/-! ### Runs -/

/-- An operation keeps the ledger well formed. -/
theorem OutboxStep.wellFormed_act (hL : L.WellFormed) (step : OutboxStep) :
    (step.act P L).2.WellFormed := by
  cases step with
  | repository call => exact hL.act call.1
  | cancelRun scopeId streamId generation =>
    exact Preserves.map ((preserves_cancelRunIn scopeId streamId generation).bind fun _ =>
      (preserves_audit _ _).bind fun _ => (readOnly_pure _).preserves) L hL

/-- **An operation keeps a job's outcome** unless it cancels the job. -/
theorem OutboxStep.jobState_of_terminal (hL : L.UniqueJobs) (step : OutboxStep)
    (hjob : L.job? jobId = some job) (hterm : job.state.Terminal)
    (hno : ¬CancelsOutcome (Entry.perform (OutboxStep.act P) L step)) :
    (step.act P L).2.jobState jobId = some job.state := by
  cases step with
  | repository call =>
    refine (Call.effect_act hL call.1).jobState_of_terminal call.2 hjob hterm fun hcancel => ?_
    -- a job with an outcome that is neither completed nor failed is cancelled already
    by_contra hstate
    refine hno ⟨job.scopeId, jobId, job, ?_, hjob, rfl, ?_⟩
    · exact congrArg OutboxStep.repository (Subtype.ext hcancel)
    · revert hterm hstate
      cases job.state <;> simp [JobState.Terminal]
  | cancelRun scopeId streamId generation =>
    rw [OutboxStep.act, run_map]
    exact cancelRun_jobState hL hjob hterm

/-- The operation that cancels a completed or failed job changes its outcome. -/
theorem CancelsOutcome.changes
    (hperform : e = Entry.perform (OutboxStep.act P) e.before e.op) (hcancel : CancelsOutcome e) :
    ∃ jobId job, e.before.job? jobId = some job ∧ job.state.Terminal ∧
      e.after.jobState jobId ≠ some job.state := by
  obtain ⟨scopeId, jobId, job, hop, hjob, rfl, hstate⟩ := hcancel
  have hid : job.jobId = jobId := by simpa using List.find?_some hjob
  have hfind : e.after.job? jobId = (e.before.job? jobId).map fun job' =>
      if decide (job'.jobId = jobId ∧ job'.scopeId = job.scopeId) = true then
        { job' with state := .cancelled }
      else job' := by
    rw [hperform, hop]
    exact Rows.find?_update fun _ => rfl
  refine ⟨jobId, job, hjob, ?_, ?_⟩
  · rcases hstate with hstate | hstate <;> simp [hstate, JobState.Terminal]
  · rw [Ledger.jobState, hfind, hjob]
    rcases hstate with hstate | hstate <;> simp [hid, hstate]

/-- Every state of a run is well formed. -/
theorem wellFormed_of_outbox (hL : L₀.WellFormed) (hr : Run (OutboxStep.act P) L₀ h L) :
    L.WellFormed :=
  hr.inv_state hL fun _ step hwf => step.wellFormed_act hwf

/-- **When outcomes are kept**, in every sequence of the operations: no completed or failed job
is cancelled. -/
theorem outcomes_kept_iff (hL : History P g L₀) (hr : Run (OutboxStep.act P) L₀ h L) :
    OutcomesKept h ↔ ∀ e ∈ h, ¬CancelsOutcome e := by
  constructor
  · intro hkept e he hcancel
    obtain ⟨h₁, h₂, rfl⟩ := List.append_of_mem he
    obtain ⟨jobId, job, hjob, hterm, hchanged⟩ := hcancel.changes (hr.eq_perform he)
    exact hchanged (hkept h₁ e h₂ jobId job rfl hjob hterm e List.mem_cons_self)
  · rintro hno h₁ e h₂ jobId job rfl hjob hterm
    obtain ⟨hbefore, hperform, hrest⟩ := hr.split
    have hwf := wellFormed_of_outbox hL.wellFormed hbefore
    have hfirst : e.after.jobState jobId = some job.state := by
      rw [hperform]
      refine e.op.jobState_of_terminal hwf.job_ids hjob hterm ?_
      rw [← hperform]
      exact hno e (by simp)
    have hafter : e.after.WellFormed := by
      rw [hperform]
      exact e.op.wellFormed_act hwf
    -- from `e` on, every state a step leaves has the job in the state it had
    have hall := hrest.inv (I := fun h L => (∀ d ∈ h, ¬CancelsOutcome d) →
      L.jobState jobId = some job.state ∧ ∀ d ∈ h, d.after.jobState jobId = some job.state)
      (fun _ => ⟨hfirst, by simp⟩) ?_
    · intro d hd
      rcases List.mem_cons.mp hd with rfl | hd
      · exact hfirst
      · exact (hall fun d hd => hno d (by simp [hd])).2 d hd
    · intro h' L' step hr' ih hno'
      rw [List.forall_mem_append, List.forall_mem_singleton] at hno'
      obtain ⟨hstate, hpast⟩ := ih hno'.1
      obtain ⟨job', hjob', hsame⟩ := Option.map_eq_some_iff.mp hstate
      have hnext : (step.act P L').2.jobState jobId = some job.state := by
        rw [← hsame]
        exact step.jobState_of_terminal (wellFormed_of_outbox hafter hr').job_ids hjob'
          (hsame ▸ hterm) hno'.2
      refine ⟨hnext, ?_⟩
      rw [List.forall_mem_append, List.forall_mem_singleton]
      exact ⟨hpast, hnext⟩

end

/-- Worker `a` claims its job and completes it. -/
def completion : List OutboxStep :=
  [.repository ⟨.claimJob 0 acmeScope adaEventId "worker-a" 0 10, rfl⟩,
    .repository ⟨.submitResult adaEventId "worker-a" 1 5, rfl⟩]

/-- When the run is cancelled after that, outcomes are kept exactly as said. -/
theorem outcomes_kept_iff_completion :
    OutcomesKept (exec (OutboxStep.act .ascii) adaJobLedger
        (completion ++ [.cancelRun acmeScope "s" 1])).1 ↔
      ∀ e ∈ (exec (OutboxStep.act .ascii) adaJobLedger
        (completion ++ [.cancelRun acmeScope "s" 1])).1, ¬CancelsOutcome e :=
  outcomes_kept_iff history_adaJob (run_exec (OutboxStep.act .ascii) adaJobLedger _)

/-- **A late cancellation rewrites an outcome**: the completed job becomes cancelled. -/
theorem cancel_rewrites_outcome :
    ¬∀ (P : Primitives) (g : List CallEntry) (h : List OutboxEntry) (L₀ L : Ledger),
      History P g L₀ → Run (OutboxStep.act P) L₀ h L → OutcomesKept h := by
  intro hclaim
  have hrun := (run_exec (OutboxStep.act .ascii) adaJobLedger completion).snoc
    (.repository ⟨.cancelJob acmeScope adaEventId, rfl⟩)
  have hkept := hclaim .ascii _ _ _ _ history_adaJob hrun
  obtain ⟨job, hjob, hstate⟩ : ∃ job,
      (exec (OutboxStep.act .ascii) adaJobLedger completion).2.job? adaEventId = some job ∧
        job.state = .completed := by
    refine Option.map_eq_some_iff.mp ?_
    decide
  have hlast := hkept _ _ [] adaEventId job rfl hjob (by simp [hstate, JobState.Terminal]) _
    List.mem_cons_self
  have hcancelled : ((Call.cancelJob acmeScope adaEventId).act .ascii
      (exec (OutboxStep.act .ascii) adaJobLedger completion).2).2.jobState adaEventId =
        some .cancelled := by
    decide
  rw [hstate] at hlast
  exact absurd (hlast.symm.trans hcancelled) (by decide)

end CyranoAgent
