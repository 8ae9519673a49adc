import CyranoAgent.Sqlite.History
import CyranoAgent.Workflow.Threads

/-!
# Dispatch after a cancellation

`cancel_run` records the cancellation of a stream and stops the jobs it finds; `run_work` asks
for the cancellation once, before it enqueues. `cancelled_stays` is about every interleaving
of their transactions: once a cancellation has committed, no job on the stream is leased and no
worker is invoked for it, provided no call of `run_work` was on its way past the check, and no
unknown job of the stream is requeued.

The invariant has a part for the ledger (`Ledger.Stopped`) and one for the calls
(`System.Halted`); `System.Consistent` ties the job a call has enqueued to its stream.
-/

namespace CyranoAgent

open Lib Lib.Action AttemptRunner

/-! ### Stopped streams -/

/-- The stream is cancelled, and no job on it is pending or leased. -/
structure Ledger.Stopped (L : Ledger) (streamId : String) : Prop where
  cancelled : (L.cancellation? streamId).isSome
  idle : ∀ job ∈ L.outbox, L.JobOn streamId job → job.state ≠ .pending ∧ job.state ≠ .leased

/-- The call puts a job on the stream up for a lease. -/
def Call.Restarts (L : Ledger) (streamId : String) : Call → Prop
  | .executeCommand c => c.streamId = streamId ∧ c.enqueue = true
  | .reconcileUnknown jobId disposition =>
    disposition = "requeue" ∧
      ∃ job ∈ L.outbox, job.jobId = jobId ∧ job.state = .unknown ∧ L.JobOn streamId job
  | _ => False

section

variable {P : Primitives} {L L' : Ledger} {call : Call} {reply : Except Failure Reply}
  {s : String}

/-- A job that is there before an event with a fresh id is not on that event's stream. -/
theorem Ledger.WellFormed.jobOn_append (hL : L.WellFormed) {ev : Event} {job : Job}
    (hevents : L'.events = L.events ++ [ev]) (hfresh : ∀ ev' ∈ L.events, ev'.eventId ≠ ev.eventId)
    (hjob : job ∈ L.outbox) (hon : L'.JobOn s job) : L.JobOn s job := by
  obtain ⟨ev', hev', hid, hs⟩ := hon
  rw [hevents, List.mem_append, List.mem_singleton] at hev'
  rcases hev' with hev' | rfl
  · exact ⟨ev', hev', hid, hs⟩
  · obtain ⟨heid, ev₀, hev₀, hid₀, -⟩ := hL.job_event job hjob
    exact absurd (hid₀.trans (heid.symm.trans hid.symm)) (hfresh ev₀ hev₀)

/-- A job that is neither pending nor leased stays so until it is requeued. -/
theorem Moves.idle {job job' : Job} (h : Moves call job job')
    (hidle : job.state ≠ .pending ∧ job.state ≠ .leased)
    (hcall : call = .reconcileUnknown job.jobId "requeue" → job.state ≠ .unknown) :
    job'.state ≠ .pending ∧ job'.state ≠ .leased := by
  cases h with
  | stays => exact hidle
  | claimed _ hclaim =>
    have hstate : job.state = .pending ∨ job.state = .leased := by
      simp only [Repository.claimable, decide_eq_true_eq] at hclaim
      exact hclaim.2.imp_right And.left
    exact absurd hstate (by simp [hidle])
  | picked _ _ _ hpending => exact absurd hpending hidle.1
  | requeued hid hunknown => exact absurd hunknown (hcall (by rw [hid]))
  | _ => simp

/-- **A stream stays stopped** under every call that does not restart it. -/
theorem Ledger.Stopped.effect (hL : L.WellFormed) (hs : L.Stopped s)
    (h : Effect P L call reply L') (hcall : ¬call.Restarts L s) : L'.Stopped s := by
  cases h with
  | refused | replayed | repeated => exact hs
  | registered | created | audited => exact ⟨hs.cancelled, hs.idle⟩
  | committed c requestDigest eventId body hacc =>
    refine ⟨hs.cancelled, fun job hjob hon => ?_⟩
    rcases mem_outbox_commit.mp hjob with hjob | ⟨hq, rfl⟩
    · exact hs.idle job hjob (hL.jobOn_append rfl hacc.fresh_event hjob hon)
    · -- the job of the command is on the command's stream, which is another one
      obtain ⟨ev, hev, hid, rfl⟩ := hon
      rcases List.mem_append.mp hev with hev | hev
      · exact absurd hid (hacc.fresh_event ev hev)
      · obtain rfl := List.mem_singleton.mp hev
        exact absurd ⟨rfl, hq⟩ hcall
  | observed o eventId data hrec =>
    exact ⟨hs.cancelled, fun job hjob hon =>
      hs.idle job hjob (hL.jobOn_append rfl hrec.fresh_event hjob hon)⟩
  | moved call reply move leaseFloor usageLog _ hmove =>
    refine ⟨hs.cancelled, fun job' hjob' hon => ?_⟩
    obtain ⟨job, hjob, rfl⟩ := List.mem_map.mp hjob'
    have hon : L.JobOn s job := by
      obtain ⟨ev, hev, hid, hstream⟩ := hon
      exact ⟨ev, hev, hid.trans (hmove job hjob).jobId_eq, hstream⟩
    refine (hmove job hjob).idle (hs.idle job hjob hon) fun hrequeue hunknown => hcall ?_
    rw [hrequeue]
    exact ⟨rfl, job, hjob, rfl, hunknown, hon⟩
  | deleted streamId deletedAt =>
    refine ⟨hs.cancelled, fun job hjob hon => ?_⟩
    obtain ⟨ev, hev, hid, hstream⟩ := hon
    exact hs.idle job (Rows.mem_delete.mp hjob).1 ⟨ev, (Rows.mem_delete.mp hev).1, hid, hstream⟩

/-! ### The transaction of a cancellation -/

/-- What `cancel_run` leaves: it changes jobs to cancelled or unknown, and leaves none of the
scope's jobs on the stream pending or leased. -/
structure Cancelled (L : Ledger) (scopeId streamId : String) (L' : Ledger) : Prop where
  owns : L.Owns scopeId streamId
  events : L'.events = L.events
  jobs : ∀ job' ∈ L'.outbox, ∃ job ∈ L.outbox, job'.jobId = job.jobId ∧
    (job'.state = .cancelled ∨ job'.state = .unknown ∨ job' = job ∧
      (job.scopeId = scopeId → L.JobOn streamId job →
        job.state ≠ .pending ∧ job.state ≠ .leased))
  recorded : (L'.cancellation? streamId).isSome
  kept : ∀ s, (L.cancellation? s).isSome → (L'.cancellation? s).isSome

theorem setJobStates_eq_ok {jobIds : List String} {state : JobState} {u : Unit} :
    (setJobStates jobIds state).run L = (.ok u, L') ↔
      { L with
        outbox := Rows.update (fun job => job.jobId ∈ jobIds) (fun job => { job with state })
          L.outbox } = L' := by
  simp [setJobStates]

theorem upsertCancellation_spec {streamId : String} {generation : ℤ} {u : Unit}
    (h : (upsertCancellation streamId generation).run L = (.ok u, L')) :
    L'.events = L.events ∧ L'.outbox = L.outbox ∧ (L'.cancellation? streamId).isSome ∧
      ∀ s, (L.cancellation? s).isSome → (L'.cancellation? s).isSome := by
  simp only [upsertCancellation, bind_eq_ok, Repository.bindInt_eq_ok, run_modify,
    Prod.mk.injEq] at h
  obtain ⟨_, _, ⟨-, rfl⟩, -, rfl⟩ := h
  refine ⟨rfl, rfl, ?_⟩
  by_cases hsome : (L.cancellation? streamId).isSome
  · have hupdate (s : String) : (Rows.update (fun row : CancellationRow => row.streamId = streamId)
        (fun row => { row with state := .reconciling, generation }) L.runCancellations).find?
          (fun row => row.streamId = s) = (L.cancellation? s).map _ :=
      Rows.find?_update fun _ => rfl
    rw [if_pos hsome]
    dsimp only [Ledger.cancellation?] at hsome ⊢
    exact ⟨by rw [hupdate, Option.isSome_map]; exact hsome,
      fun s hs => by rw [hupdate, Option.isSome_map]; exact hs⟩
  · rw [if_neg hsome]
    dsimp only [Ledger.cancellation?]
    simp only [List.find?_append, Option.isSome_or, Bool.or_eq_true]
    exact ⟨.inr (by simp), fun _ => .inl⟩

theorem cancelRunIn_spec {scopeId streamId : String} {generation : ℤ}
    {r : List String × List String × List String}
    (h : (cancelRunIn scopeId streamId generation).run L = (.ok r, L')) :
    Cancelled L scopeId streamId L' := by
  simp only [cancelRunIn, transaction_eq_ok, bind_eq_ok, Repository.readScopedEntity_eq_ok,
    run_get, run_pure, setJobStates_eq_ok, Prod.mk.injEq, Except.ok.injEq] at h
  obtain ⟨_, _, ⟨howns, -, rfl⟩, _, _, ⟨rfl, rfl⟩, _, _, rfl, _, _, rfl, _, _, hupsert, _, _,
    ⟨rfl, rfl⟩, -, rfl⟩ := h
  obtain ⟨hevents, houtbox, hrecorded, hkept⟩ := upsertCancellation_spec hupsert
  refine ⟨howns, hevents, fun job' hjob' => ?_, hrecorded, hkept⟩
  rw [houtbox] at hjob'
  obtain ⟨job₁, hjob₁, rfl⟩ := Rows.mem_update.mp hjob'
  obtain ⟨job, hjob, rfl⟩ := Rows.mem_update.mp hjob₁
  refine ⟨job, hjob, ?_⟩
  have hmem (state : JobState) (hscope : job.scopeId = scopeId) (hon : L.JobOn streamId job)
      (hstate : job.state = state) : job.jobId ∈ L.jobsIn scopeId streamId state :=
    List.mem_map_of_mem (List.mem_filter.mpr ⟨hjob, by simp [hscope, hon, hstate]⟩)
  by_cases hpending : job.jobId ∈ L.jobsIn scopeId streamId .pending <;>
    by_cases hleased : job.jobId ∈ L.jobsIn scopeId streamId .leased
  · simp [hpending, hleased]
  · simp [hpending, hleased]
  · simp [hpending, hleased]
  · refine ⟨by simp [hpending, hleased], .inr (.inr ⟨by simp [hpending, hleased], ?_⟩)⟩
    exact fun hscope hon => ⟨fun hstate => hpending (hmem _ hscope hon hstate),
      fun hstate => hleased (hmem _ hscope hon hstate)⟩

theorem Cancelled.jobOn_iff {scopeId streamId : String} (h : Cancelled L scopeId streamId L')
    {job job' : Job} (hid : job'.jobId = job.jobId) : L'.JobOn s job' ↔ L.JobOn s job := by
  rw [Ledger.JobOn, Ledger.JobOn, h.events, hid]

/-- **A cancellation stops its stream.** -/
theorem Cancelled.stopped {scopeId : String} (hL : L.WellFormed) (h : Cancelled L scopeId s L') :
    L'.Stopped s := by
  refine ⟨h.recorded, fun job' hjob' hon => ?_⟩
  obtain ⟨job, hjob, hid, hstate | hstate | ⟨rfl, hidle⟩⟩ := h.jobs job' hjob'
  · simp [hstate]
  · simp [hstate]
  · have hon := (h.jobOn_iff hid).mp hon
    -- the job's scope owns the stream its event is on, and only one scope does
    obtain ⟨heid, ev, hev, hevid, hown⟩ := hL.job_event job' hjob
    obtain ⟨ev', hev', hevid', rfl⟩ := hon
    obtain rfl := Rows.eq_of_key_eq hL.event_ids hev hev'
      (hevid.trans (heid.symm.trans hevid'.symm))
    exact hidle (hown.unique h.owns) ⟨ev, hev, hevid', rfl⟩

/-- A stream stays stopped when another one, or the same, is cancelled. -/
theorem Ledger.Stopped.cancel {scopeId streamId : String} (hs : L.Stopped s)
    (h : Cancelled L scopeId streamId L') : L'.Stopped s := by
  refine ⟨h.kept s hs.cancelled, fun job' hjob' hon => ?_⟩
  obtain ⟨job, hjob, hid, hstate | hstate | ⟨rfl, -⟩⟩ := h.jobs job' hjob'
  · simp [hstate]
  · simp [hstate]
  · exact hs.idle job' hjob ((h.jobOn_iff hid).mp hon)

/-! ### Named events -/

/-- No event has the empty id, which `execute_command` returns for a replay. -/
def Ledger.Named (L : Ledger) : Prop := ∀ ev ∈ L.events, ev.eventId ≠ ""

theorem digest_ne_empty {value : PyValue} {d : String} (h : digest P value = .ok d) : d ≠ "" := by
  rw [digest] at h
  rcases htag : taggedBytes P value with e | data
  · simp [htag, Except.map] at h
  · rw [htag] at h
    obtain rfl : rawDigest data = d := by simpa [Except.map] using h
    simp [rawDigest]

theorem Ledger.Named.append (hL : L.Named) {ev : Event} (hevents : L'.events = L.events ++ [ev])
    (hid : ev.eventId ≠ "") : L'.Named := by
  intro ev' hev'
  rw [hevents, List.mem_append, List.mem_singleton] at hev'
  rcases hev' with hev' | rfl
  · exact hL ev' hev'
  · exact hid

theorem Ledger.Named.effect (hL : L.Named) (h : Effect P L call reply L') : L'.Named := by
  cases h with
  | refused | replayed | repeated | registered | created | moved | audited => exact hL
  | committed c requestDigest eventId body hacc =>
    exact hL.append rfl (digest_ne_empty hacc.digest_event)
  | observed o eventId data hrec => exact hL.append rfl (digest_ne_empty hrec.digest_event)
  | deleted => exact fun ev hev => hL ev (Rows.mem_delete.mp hev).1

theorem History.named {g : List CallEntry} (hL : History P g L) : L.Named := by
  have hboth : L.WellFormed ∧ L.Named := hL.inv_state (I := fun L => L.WellFormed ∧ L.Named)
    ⟨.empty, by simp [Ledger.Named, Ledger.empty]⟩
    fun _ call h => ⟨h.1.act call, h.2.effect (Call.effect_act h.1.job_ids call)⟩
  exact hboth.2

/-! ### Calls on their way -/

/-- The call is between its check for a cancellation and its enqueueing, or between its lease
and its worker. -/
def Phase.Dispatching : Phase → Prop
  | .dispatchable | .numbered _ | .positioned .. | .leased _ | .started _ => True
  | _ => False

/-- The job a call has enqueued, if it has, is on the call's stream. -/
def Phase.Placed (L : Ledger) (streamId : String) : Phase → Prop
  | .enqueued _ jobId | .floored _ jobId _ =>
    jobId = "" ∨ ∃ ev ∈ L.events, ev.eventId = jobId ∧ ev.streamId = streamId
  | _ => True

theorem Phase.Placed.mono {phase : Phase} (h : phase.Placed L s) (hsub : L.events ⊆ L'.events) :
    phase.Placed L' s := by
  cases phase with
  | enqueued | floored => exact h.imp_right fun ⟨ev, hev, hid⟩ => ⟨ev, hsub hev, hid⟩
  | _ => trivial

/-- The calls of the repository that a system makes. -/
def Call.Works : Call → Prop
  | .executeCommand _ | .claimOutbox .. | .claimJob .. | .submitResult .. | .failJob ..
  | .recordUsage .. | .markJobUnknown .. | .reconcileUnknown .. | .audit .. => True
  | _ => False

theorem Effect.events_subset (h : Effect P L call reply L') (hcall : call.Works) :
    L.events ⊆ L'.events := by
  cases h with
  | committed | observed => exact List.subset_append_left _ _
  | deleted => exact hcall.elim
  | _ => exact List.Subset.refl _

/-- The ledger an access leaves: as it was, or after a call, which restarts a stream only for
a thread that is dispatching on it. -/
theorem Advances.effect {scopeId streamId taskId : String} {phase phase' : Phase}
    (h : Advances P scopeId streamId taskId L phase phase' L') :
    L' = L ∨ ∃ call reply, Effect P L call reply L' ∧ call.Works ∧
      ∀ s, call.Restarts L s → streamId = s ∧ phase.Dispatching := by
  cases h with
  | enqueued _ _ _ _ heff => exact .inr ⟨_, _, heff, trivial, fun _ hr => ⟨hr.1, trivial⟩⟩
  | leased _ _ _ _ _ _ _ _ heff => exact .inr ⟨_, _, heff, trivial, fun _ hr => hr.elim⟩
  | audited _ _ _ heff => exact .inr ⟨_, _, heff, trivial, fun _ hr => hr.elim⟩
  | billed _ _ _ heff => exact .inr ⟨_, _, heff, trivial, fun _ hr => hr.elim⟩
  | settled _ call _ _ _ hcall heff =>
    refine .inr ⟨call, _, heff, ?_⟩
    cases call <;> first | exact hcall.elim | exact ⟨trivial, fun _ hr => hr.elim⟩
  | _ => exact .inl rfl

/-- The job an access enqueues is on the thread's stream. -/
theorem Advances.placed {scopeId streamId taskId : String} {phase phase' : Phase}
    (hplaced : phase.Placed L streamId)
    (h : Advances P scopeId streamId taskId L phase phase' L') : phase'.Placed L' streamId := by
  cases h with
  | enqueued attemptId revision receipt L' heff =>
    generalize hc : workCommand scopeId streamId taskId attemptId revision = c at heff
    have hstream : c.streamId = streamId := hc ▸ rfl
    cases heff with
    | replayed => exact .inl rfl
    | committed _ _ eventId body =>
      exact .inr ⟨_, List.mem_concat_self, rfl, hstream⟩
    | moved _ _ _ _ _ hcall => exact hcall.elim
  | floored => exact hplaced
  | _ => trivial

/-- **An access on a stopped stream dispatches nothing.** -/
theorem Advances.quiet {scopeId taskId : String} {phase phase' : Phase} (hL : L.WellFormed)
    (hnamed : L.Named) (hs : L.Stopped s) (hplaced : phase.Placed L s)
    (hquiet : ¬phase.Dispatching) (h : Advances P scopeId s taskId L phase phase' L') :
    ¬phase'.Dispatching := by
  cases h with
  | checked hnone => simpa [hnone] using hs.cancelled
  | known | read | audited | invoked => exact absurd trivial hquiet
  | leased attemptId jobId floor now leaseTtl lease L' hpending =>
    -- the job was pending, so it cannot be on the stopped stream
    obtain ⟨job, hjob, rfl, hstate⟩ := hpending
    rcases hplaced with hempty | hon
    · obtain ⟨heid, ev, hev, hid, -⟩ := hL.job_event job hjob
      exact absurd (hid.trans (heid.symm.trans hempty)) (hnamed ev hev)
    · exact absurd hstate (hs.idle job hjob hon).1
  | _ => exact id

end

/-! ### Systems -/

/-- The tables are well formed, and the jobs of the calls are where they belong. -/
structure System.Consistent (S : System) : Prop where
  wellFormed : S.ledger.WellFormed
  named : S.ledger.Named
  placed : ∀ thread ∈ S.threads, thread.phase.Placed S.ledger thread.streamId

/-- No call on the stream is on its way to a dispatch. -/
def System.Quiet (S : System) (streamId : String) : Prop :=
  ∀ thread ∈ S.threads, thread.streamId = streamId → ¬thread.phase.Dispatching

/-- The stream is stopped, and no call on it is on its way. -/
structure System.Halted (S : System) (streamId : String) : Prop where
  stopped : S.ledger.Stopped streamId
  quiet : S.Quiet streamId

/-- The call of a step that is nothing but a call. -/
def SystemStep.call? : SystemStep → Option Call
  | .reconcileAttempt jobId disposition => some (.reconcileUnknown jobId disposition)
  | .claimOutbox floor scopeId owner now ttlSeconds =>
    some (.claimOutbox floor scopeId owner now ttlSeconds)
  | .claimJob floor scopeId jobId owner now ttlSeconds =>
    some (.claimJob floor scopeId jobId owner now ttlSeconds)
  | .audit streamId detail => some (.audit streamId detail)
  | _ => none

/-- What a step does to a system. -/
inductive Proceeds (P : Primitives) (S : System) : SystemStep → System → Prop
  | still (step : SystemStep) (S' : System) :
      S'.ledger = S.ledger → S'.threads = S.threads → Proceeds P S step S'
  | begun (step : SystemStep) (thread : Thread) (S' : System) :
      thread.phase = .entered → S'.ledger = S.ledger → S'.threads = S.threads ++ [thread] →
      Proceeds P S step S'
  | advanced (k : ℕ) (result : WorkerResult) (thread : Thread) (scopeId : String) (phase : Phase)
      (S' : System) :
      S.threads[k]? = some thread →
      Advances P scopeId thread.streamId thread.taskId S.ledger thread.phase phase S'.ledger →
      S'.threads = S.threads.set k { thread with phase } →
      Proceeds P S (.advance k result) S'
  | cancelled (scopeId streamId : String) (generation : ℤ) (S' : System) :
      S'.ledger.WellFormed → Cancelled S.ledger scopeId streamId S'.ledger →
      S'.threads = S.threads →
      Proceeds P S (.cancelRun scopeId streamId generation) S'
  | called (step : SystemStep) (call : Call) (reply : Except Failure Reply) (S' : System) :
      step.call? = some call → Effect P S.ledger call reply S'.ledger →
      S'.threads = S.threads → Proceeds P S step S'

section

variable {P : Primitives} {S S' : System} {step : SystemStep} {s : String}

theorem atomic_cancelRunIn (scopeId streamId : String) (generation : ℤ) :
    Atomic (cancelRunIn scopeId streamId generation) := atomic_transaction _

/-- **Every step of a system is one of these.** -/
theorem SystemStep.proceeds (hS : S.ledger.WellFormed) (step : SystemStep) :
    Proceeds P S step (step.act P S).2 := by
  have hjobs := hS.job_ids
  cases step with
  | bind => exact .still _ _ rfl rfl
  | begin => exact .begun _ _ _ rfl rfl rfl
  | advance k result =>
    simp only [SystemStep.act, System.advance]
    split
    · exact .still _ _ rfl rfl
    · next thread hthread =>
      split
      · exact .still _ _ rfl rfl
      · exact .advanced k result thread _ _ _ hthread (Phase.advances hjobs rfl) rfl
  | cancelRun scopeId streamId generation =>
    rcases hrun : (cancelRunIn scopeId streamId generation).run S.ledger with ⟨e | r, L'⟩
    · refine .still _ _ ?_ rfl
      simpa [SystemStep.act, System.onLedger, hrun] using
        atomic_cancelRunIn scopeId streamId generation hrun
    · refine .cancelled scopeId streamId generation _ ?_ ?_ rfl
      · exact preserves_cancelRunIn scopeId streamId generation S.ledger hS
      · simpa [SystemStep.act, System.onLedger, hrun] using cancelRunIn_spec hrun
  | reconcileAttempt => exact .called _ _ _ _ rfl (effect_of_run_op hjobs rfl rfl) rfl
  | claimOutbox => exact .called _ _ _ _ rfl (effect_of_run_op hjobs rfl rfl) rfl
  | claimJob => exact .called _ _ _ _ rfl (effect_of_run_op hjobs rfl rfl) rfl
  | audit => exact .called _ _ _ _ rfl (effect_of_run_op hjobs rfl rfl) rfl

theorem SystemStep.works {call : Call} (h : step.call? = some call) : call.Works := by
  cases step <;> simp only [SystemStep.call?, reduceCtorEq, Option.some.injEq] at h <;> subst h <;>
    trivial

/-- A consistent system stays consistent when its ledger gains events and its threads keep
their jobs placed. -/
theorem System.Consistent.of_effect (hS : S.Consistent) {call : Call}
    {reply : Except Failure Reply} (h : Effect P S.ledger call reply S'.ledger)
    (hcall : call.Works)
    (hthreads : ∀ thread ∈ S'.threads, thread ∈ S.threads ∨
      thread.phase.Placed S'.ledger thread.streamId) : S'.Consistent := by
  refine ⟨hS.wellFormed.effect h, hS.named.effect h, fun thread hthread => ?_⟩
  rcases hthreads thread hthread with hold | hnew
  · exact (hS.placed thread hold).mono (h.events_subset hcall)
  · exact hnew

/-- **Every step keeps a system consistent.** -/
theorem System.Consistent.proceeds (hS : S.Consistent) (h : Proceeds P S step S') :
    S'.Consistent := by
  cases h with
  | still _ _ hledger hthreads =>
    exact ⟨hledger ▸ hS.wellFormed, hledger ▸ hS.named, hledger ▸ hthreads ▸ hS.placed⟩
  | begun _ thread _ hphase hledger hthreads =>
    refine ⟨hledger ▸ hS.wellFormed, hledger ▸ hS.named, fun thread' hthread' => ?_⟩
    rw [hthreads, List.mem_append, List.mem_singleton] at hthread'
    rcases hthread' with hthread' | rfl
    · exact hledger ▸ hS.placed thread' hthread'
    · rw [hphase]
      trivial
  | advanced k result thread scopeId phase _ hthread hadv hthreads =>
    have hplaced := hadv.placed (hS.placed thread (List.mem_of_getElem? hthread))
    have hmem : ∀ thread' ∈ S'.threads, thread' ∈ S.threads ∨
        thread'.phase.Placed S'.ledger thread'.streamId := fun thread' hthread' => by
      rw [hthreads] at hthread'
      rcases List.mem_or_eq_of_mem_set hthread' with hold | rfl
      · exact .inl hold
      · exact .inr hplaced
    rcases hadv.effect with hledger | ⟨call, reply, heff, hcall, -⟩
    · refine ⟨hledger ▸ hS.wellFormed, hledger ▸ hS.named, fun thread' hthread' => ?_⟩
      exact (hmem thread' hthread').elim (fun hold => hledger ▸ hS.placed thread' hold) id
    · exact hS.of_effect heff hcall hmem
  | cancelled scopeId streamId generation _ hwf hcancel hthreads =>
    refine ⟨hwf, fun ev hev => hS.named ev (hcancel.events ▸ hev), fun thread hthread => ?_⟩
    exact (hS.placed thread (hthreads ▸ hthread)).mono
      fun _ hev => hcancel.events.symm ▸ hev
  | called _ call reply _ hstep heff hthreads =>
    exact hS.of_effect heff (SystemStep.works hstep) fun thread hthread =>
      .inl (hthreads ▸ hthread)

/-- The step requeues an unknown job of the stream. -/
def SystemStep.Requeues (S : System) (streamId : String) (step : SystemStep) : Prop :=
  ∃ jobId, step = .reconcileAttempt jobId "requeue" ∧
    ∃ job ∈ S.ledger.outbox, job.jobId = jobId ∧ job.state = .unknown ∧
      S.ledger.JobOn streamId job

/-- **A halted stream stays halted** at every step that requeues none of its jobs. -/
theorem System.Halted.proceeds (hS : S.Consistent) (hs : S.Halted s)
    (h : Proceeds P S step S') (hstep : ¬step.Requeues S s) : S'.Halted s := by
  cases h with
  | still _ _ hledger hthreads =>
    exact ⟨hledger ▸ hs.stopped, fun thread hthread => hs.quiet thread (hthreads ▸ hthread)⟩
  | begun _ thread _ hphase hledger hthreads =>
    refine ⟨hledger ▸ hs.stopped, fun thread' hthread' => ?_⟩
    rw [hthreads, List.mem_append, List.mem_singleton] at hthread'
    rcases hthread' with hthread' | rfl
    · exact hs.quiet thread' hthread'
    · rw [hphase]
      exact fun _ => id
  | advanced k result thread scopeId phase _ hthread hadv hthreads =>
    have hmem := List.mem_of_getElem? hthread
    have hquiet : S'.Quiet s := fun thread' hthread' hstream => by
      rw [hthreads] at hthread'
      rcases List.mem_or_eq_of_mem_set hthread' with hold | rfl
      · exact hs.quiet thread' hold hstream
      · obtain rfl : thread.streamId = s := hstream
        exact hadv.quiet hS.wellFormed hS.named hs.stopped (hS.placed thread hmem)
          (hs.quiet thread hmem rfl)
    refine ⟨?_, hquiet⟩
    rcases hadv.effect with hledger | ⟨call, reply, heff, -, hrestart⟩
    · exact hledger ▸ hs.stopped
    · exact hs.stopped.effect hS.wellFormed heff fun hr =>
        hs.quiet thread hmem (hrestart s hr).1 (hrestart s hr).2
  | cancelled scopeId streamId generation _ _ hcancel hthreads =>
    exact ⟨hs.stopped.cancel hcancel, fun thread hthread => hs.quiet thread (hthreads ▸ hthread)⟩
  | called _ call reply _ hcall heff hthreads =>
    refine ⟨hs.stopped.effect hS.wellFormed heff fun hr => ?_, fun thread hthread =>
      hs.quiet thread (hthreads ▸ hthread)⟩
    cases step <;> simp only [SystemStep.call?, reduceCtorEq, Option.some.injEq] at hcall <;>
      subst hcall
    · obtain ⟨rfl, hjob⟩ := hr
      exact hstep ⟨_, rfl, hjob⟩
    all_goals exact hr

end

/-! ### After a cancellation -/

section

variable {P : Primitives} {g : List CallEntry} {L₀ : Ledger} {h h₁ h₂ : List SystemEntry}
  {S S' : System} {c : SystemEntry} {s : String}

/-- The step commits a cancellation of the stream. -/
def CancelsRun (e : SystemEntry) (streamId : String) : Prop :=
  (∃ scopeId generation, e.op = .cancelRun scopeId streamId generation) ∧ e.reply = .ok ()

/-- The step leases a job on the stream. -/
def EntersLeased (e : SystemEntry) (streamId : String) : Prop :=
  ∃ job ∈ e.after.ledger.outbox, e.after.ledger.JobOn streamId job ∧ job.state = .leased ∧
    job ∉ e.before.ledger.outbox

instance (e : SystemEntry) (streamId : String) : Decidable (EntersLeased e streamId) :=
  inferInstanceAs (Decidable (∃ job ∈ e.after.ledger.outbox, _))

/-- The step is a `run_work` on the stream that invokes its worker. -/
def InvokesOn (e : SystemEntry) (streamId : String) : Prop :=
  ∃ k result thread attempt, e.op = .advance k result ∧ e.before.threads[k]? = some thread ∧
    thread.streamId = streamId ∧ thread.phase = .started attempt

theorem consistent_of_run (hL : History P g L₀) (hr : Run (SystemStep.act P) (.on L₀) h S) :
    S.Consistent :=
  hr.inv_state (I := System.Consistent) ⟨hL.wellFormed, hL.named, fun _ hmem => by
    simp [System.on] at hmem⟩ fun _ step hS => hS.proceeds (step.proceeds hS.wellFormed)

/-- A cancellation halts a stream on which no call is on its way. -/
theorem CancelsRun.halted (hS : c.before.Consistent) (hquiet : c.before.Quiet s)
    (hperform : c = Entry.perform (SystemStep.act P) c.before c.op) (hc : CancelsRun c s) :
    c.after.Halted s := by
  obtain ⟨⟨scopeId, generation, hop⟩, hreply⟩ := hc
  rw [hperform, Entry.perform_reply, hop] at hreply
  have hafter : c.after = ((SystemStep.cancelRun scopeId s generation).act P c.before).2 := by
    rw [← hop]
    exact congrArg Entry.after hperform
  rcases hrun : (cancelRunIn scopeId s generation).run c.before.ledger with ⟨e | r, L'⟩
  · simp [SystemStep.act, System.onLedger, hrun, Except.map] at hreply
  · have hledger : c.after.ledger = L' := by
      simp [hafter, SystemStep.act, System.onLedger, hrun]
    have hthreads : c.after.threads = c.before.threads := by rw [hafter]; rfl
    refine ⟨hledger ▸ (cancelRunIn_spec hrun).stopped hS.wellFormed, fun thread hthread => ?_⟩
    exact hquiet thread (hthreads ▸ hthread)

/-- **After a cancellation nothing is dispatched**, in every interleaving: no job on the stream
is leased and no worker is invoked for it, if no call was on its way to a dispatch when the
cancellation committed and no unknown job of the stream is requeued since. -/
theorem cancelled_stays (hL : History P g L₀)
    (hr : Run (SystemStep.act P) (.on L₀) (h₁ ++ c :: h₂) S) (hc : CancelsRun c s)
    (hquiet : c.before.Quiet s) (hrequeue : ∀ e ∈ h₂, ¬e.op.Requeues e.before s) :
    ∀ e ∈ h₂, ¬EntersLeased e s ∧ ¬InvokesOn e s := by
  obtain ⟨hbefore, hperform, hafter⟩ := hr.split
  have hhalted := hc.halted (consistent_of_run hL hbefore) hquiet hperform
  have hcons := consistent_of_run hL hr.upTo
  have hinv : S.Consistent ∧ ((∀ e ∈ h₂, ¬e.op.Requeues e.before s) →
      S.Halted s ∧ ∀ e ∈ h₂, ¬EntersLeased e s ∧ ¬InvokesOn e s) := by
    refine hafter.inv (I := fun h S => S.Consistent ∧ ((∀ e ∈ h, ¬e.op.Requeues e.before s) →
      S.Halted s ∧ ∀ e ∈ h, ¬EntersLeased e s ∧ ¬InvokesOn e s))
      ⟨hcons, fun _ => ⟨hhalted, by simp⟩⟩ ?_
    rintro h S step - ⟨hS, hkept⟩
    have hproceeds := step.proceeds (P := P) hS.wellFormed
    refine ⟨hS.proceeds hproceeds, fun hrequeue => ?_⟩
    rw [List.forall_mem_append, List.forall_mem_singleton] at hrequeue
    obtain ⟨hs, hall⟩ := hkept hrequeue.1
    have hs' := hs.proceeds hS hproceeds hrequeue.2
    refine ⟨hs', List.forall_mem_append.mpr ⟨hall, List.forall_mem_singleton.mpr ⟨?_, ?_⟩⟩⟩
    · rintro ⟨job, hjob, hon, hleased, -⟩
      exact (hs'.stopped.idle job hjob hon).2 hleased
    · rintro ⟨k, result, thread, attempt, -, hthread, hstream, hphase⟩
      refine hs.quiet thread (List.mem_of_getElem? hthread) hstream ?_
      rw [hphase]
      trivial
  exact (hinv.2 hrequeue).2

end

/-! ### A cancellation that comes between check and enqueueing -/

/-- The cancellation of stream `s`. -/
def cancelAcme : SystemStep := .cancelRun acmeScope "s" 1

/-- The next access of the first call. -/
def advanceFirst : SystemStep := .advance 0 (.timedOut "")

/-- A runner is bound to the scope of `s`. -/
def boundSystem : System := ((SystemStep.bind acmeScope).act .ascii (.on acmeLedger)).2

/-- A call that is made after the cancellation. -/
def lateSystem : List SystemEntry × System :=
  exec (SystemStep.act .ascii) (cancelAcme.act .ascii boundSystem).2
    [.begin 0 "s" "task" 0 300]

/-- Its check refuses it, and nothing is dispatched. -/
theorem cancelled_stays_late :
    ¬EntersLeased (Entry.perform (SystemStep.act .ascii) lateSystem.2 advanceFirst) "s" ∧
      ¬InvokesOn (Entry.perform (SystemStep.act .ascii) lateSystem.2 advanceFirst) "s" := by
  have hbound : Run (SystemStep.act .ascii) (.on acmeLedger) _ boundSystem :=
    Run.nil.snoc (SystemStep.bind acmeScope)
  have hlate : Run (SystemStep.act .ascii) (.on acmeLedger) _ lateSystem.2 :=
    (hbound.snoc cancelAcme).append (run_exec _ _ _)
  have hrun := hlate.snoc advanceFirst
  rw [List.append_assoc, List.append_assoc] at hrun
  have hcommits : (cancelAcme.act .ascii boundSystem).1 = .ok () := by decide
  refine cancelled_stays history_acme hrun ⟨⟨acmeScope, 1, rfl⟩, hcommits⟩ ?_ ?_ _
    List.mem_concat_self
  · intro thread hthread
    exact absurd hthread List.not_mem_nil
  · -- neither step is a reconciliation
    rintro e he ⟨jobId, hop, -⟩
    have hmem : e ∈ lateSystem.1 ++
      [Entry.perform (SystemStep.act .ascii) lateSystem.2 advanceFirst] := he
    rcases List.mem_append.mp hmem with he | he
    · obtain rfl := List.mem_singleton.mp he
      exact absurd hop (by simp)
    · obtain rfl := List.mem_singleton.mp he
      exact absurd hop (by simp [advanceFirst])

/-- A call that has passed its check. -/
def checkedSystem : List SystemEntry × System :=
  exec (SystemStep.act .ascii) boundSystem [.begin 0 "s" "task" 0 300, advanceFirst]

/-- The call goes on after the cancellation, up to its lease. -/
def racingSystem : List SystemEntry × System :=
  exec (SystemStep.act .ascii) (cancelAcme.act .ascii checkedSystem.2).2
    (List.replicate 4 advanceFirst)

/-- **A call that has passed its check dispatches on a cancelled stream**: its job is enqueued
and leased after the cancellation. -/
theorem cancel_races_dispatch :
    ¬∀ (P : Primitives) (g : List CallEntry) (L₀ : Ledger) (h₁ h₂ : List SystemEntry)
      (c : SystemEntry) (S : System) (s : String), History P g L₀ →
      Run (SystemStep.act P) (.on L₀) (h₁ ++ c :: h₂) S → CancelsRun c s →
      ∀ e ∈ h₂, ¬EntersLeased e s ∧ ¬InvokesOn e s := by
  intro hclaim
  have hbound : Run (SystemStep.act .ascii) (.on acmeLedger) _ boundSystem :=
    Run.nil.snoc (SystemStep.bind acmeScope)
  have hchecked : Run (SystemStep.act .ascii) (.on acmeLedger) _ checkedSystem.2 :=
    hbound.append (run_exec _ _ _)
  have hracing : Run (SystemStep.act .ascii) (.on acmeLedger) _ racingSystem.2 :=
    (hchecked.snoc cancelAcme).append (run_exec _ _ _)
  have hrun := hracing.snoc advanceFirst
  rw [List.append_assoc, List.append_assoc] at hrun
  obtain ⟨hcommits, hleases⟩ : (cancelAcme.act .ascii checkedSystem.2).1 = .ok () ∧
      EntersLeased (Entry.perform (SystemStep.act .ascii) racingSystem.2 advanceFirst) "s" := by
    decide +kernel
  exact (hclaim .ascii _ _ _ _ _ _ "s" history_acme hrun ⟨⟨acmeScope, 1, rfl⟩, hcommits⟩ _
    List.mem_concat_self).1 hleases

end CyranoAgent
