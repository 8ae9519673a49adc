import CyranoAgent.Sqlite.RepositorySpec

/-!
# The effect of a call

`Moves call job job'` is the state machine of one outbox job: what each call may do to it.
`Effect P L call reply L'` gathers the specifications of all calls into one inversion:
whatever a call replies, the ledger after it has one of a few shapes (`Call.effect`).
Invariants are proved by cases on it and never unfold a call.

A refused call leaves the ledger as it was (`Call.atomic`). For `finishOutbox`, which is not
a transaction, this rests on the uniqueness of job ids.
-/

namespace CyranoAgent

open Lib Lib.Action

/-- What a call may do to one job: a job is claimed, settled by the holder of its lease,
cancelled, lost, or reconciled. -/
inductive Moves : Call → Job → Job → Prop
  | stays {call : Call} {job : Job} : Moves call job job
  | claimed {floor : ℤ} {scopeId owner : String} {now ttlSeconds : ℤ} {job : Job} :
      0 < ttlSeconds → Repository.claimable scopeId now job = true →
      Moves (.claimOutbox floor scopeId owner now ttlSeconds) job
        (job.lease owner (max now floor + ttlSeconds))
  | picked {floor : ℤ} {scopeId jobId owner : String} {now ttlSeconds : ℤ} {job : Job} :
      0 < ttlSeconds → job.jobId = jobId → job.scopeId = scopeId → job.state = .pending →
      Moves (.claimJob floor scopeId jobId owner now ttlSeconds) job
        (job.lease owner (max now floor + ttlSeconds))
  | finished {jobId owner : String} {fence now : ℤ} {job : Job} :
      job.jobId = jobId → job.HeldBy owner fence → job.leaseUntil.any (now < ·) = true →
      Moves (.finishOutbox jobId owner fence now) job { job with state := .completed }
  | submitted {jobId owner : String} {fence usageUnits : ℤ} {job : Job} :
      job.jobId = jobId → job.HeldBy owner fence →
      Moves (.submitResult jobId owner fence usageUnits) job { job with state := .completed }
  | failed {jobId owner : String} {fence usageUnits : ℤ} {job : Job} :
      job.jobId = jobId → job.HeldBy owner fence →
      Moves (.failJob jobId owner fence usageUnits) job { job with state := .failed }
  | cancelled {scopeId jobId : String} {job : Job} :
      job.jobId = jobId → job.scopeId = scopeId →
      Moves (.cancelJob scopeId jobId) job { job with state := .cancelled }
  | lost {jobId : String} {job : Job} :
      job.jobId = jobId → job.state = .leased →
      Moves (.markJobUnknown jobId) job { job with state := .unknown }
  | requeued {jobId : String} {job : Job} :
      job.jobId = jobId → job.state = .unknown →
      Moves (.reconcileUnknown jobId "requeue") job
        { job with state := .pending, leaseOwner := none }
  | discarded {jobId : String} {job : Job} :
      job.jobId = jobId → job.state = .unknown →
      Moves (.reconcileUnknown jobId "discard") job { job with state := .failed }

namespace Moves

variable {call : Call} {job job' : Job}

/-- A move keeps a job's identity. -/
theorem jobId_eq (h : Moves call job job') : job'.jobId = job.jobId := by
  cases h <;> rfl

theorem eventId_eq (h : Moves call job job') : job'.eventId = job.eventId := by
  cases h <;> rfl

theorem scopeId_eq (h : Moves call job job') : job'.scopeId = job.scopeId := by
  cases h <;> rfl

end Moves

/-- The calls that write the outbox and nothing of the event ledger. -/
def Call.OnOutbox : Call → Prop
  | .claimOutbox .. | .claimJob .. | .finishOutbox .. | .submitResult .. | .failJob ..
  | .recordUsage .. | .cancelJob .. | .markJobUnknown .. | .reconcileUnknown .. => True
  | _ => False

/-- The ledger with a new stream. -/
def Ledger.createStream (L : Ledger) (scopeId streamId entityType : String) : Ledger :=
  { L with streams := L.streams ++ [⟨streamId, scopeId, 0, entityType, "open"⟩] }

/-- The ledger without a stream, its events and their jobs. -/
def Ledger.deleteStream (L : Ledger) (streamId deletedAt : String) : Ledger :=
  { L with
    tombstones := Rows.replace (·.streamId) ⟨streamId, deletedAt⟩ L.tombstones
    outbox := Rows.delete
      (fun job => (L.eventsOf streamId).any fun ev => ev.eventId = job.eventId) L.outbox
    events := Rows.delete (fun ev => ev.streamId = streamId) L.events
    streams := Rows.delete (fun row => row.streamId = streamId) L.streams }

/-- What a call did: its reply, and the ledger it left. -/
inductive Effect (P : Primitives) (L : Ledger) : Call → Except Failure Reply → Ledger → Prop
  | refused (call : Call) (e : Failure) : Effect P L call (.error e) L
  | registered (tenant user workspace scopeId : String) (scopes : List ScopeRow) :
      L.scopes ⊆ scopes →
      Effect P L (.registerScope tenant user workspace) (.ok (.scope scopeId)) { L with scopes }
  | created (scopeId streamId entityType : String) :
      (∃ row ∈ L.scopes, row.scopeId = scopeId) → L.stream? streamId = none →
      Effect P L (.createStream scopeId streamId entityType) (.ok .done)
        (L.createStream scopeId streamId entityType)
  | replayed (c : Command) : Repository.Replays P L c →
      Effect P L (.executeCommand c) (.ok (.receipt ⟨L.revision c.streamId, "", true⟩)) L
  | committed (c : Command) (requestDigest eventId : String) (body : ByteArray) :
      Repository.Accepted P L c requestDigest eventId body →
      Effect P L (.executeCommand c)
        (.ok (.receipt ⟨L.revision c.streamId + 1, eventId, false⟩))
        (L.commit c requestDigest eventId body)
  | repeated (o : Observation) (n : ℕ) : Repository.Repeats P L o n →
      Effect P L (.recordObservation o) (.ok (.eventSeq n)) L
  | observed (o : Observation) (eventId : String) (data : ByteArray) :
      Repository.Recorded P L o eventId data →
      Effect P L (.recordObservation o) (.ok (.eventSeq L.nextEventSeq))
        (L.observe o eventId data)
  | moved (call : Call) (reply : Reply) (move : Job → Job) (leaseFloor : Option ℤ)
      (usageLog : List UsageRow) :
      call.OnOutbox → (∀ job ∈ L.outbox, Moves call job (move job)) →
      Effect P L call (.ok reply) { L with outbox := L.outbox.map move, leaseFloor, usageLog }
  | audited (streamId detail : String) (auditLog : List AuditRow) (nextAuditSeq : ℕ) :
      Effect P L (.audit streamId detail) (.ok .done) { L with auditLog, nextAuditSeq }
  | deleted (streamId deletedAt : String) :
      Effect P L (.deleteStream streamId deletedAt) (.ok .done)
        (L.deleteStream streamId deletedAt)

section

variable {P : Primitives} {L L' : Ledger}

/-- A refused call had no effect. -/
theorem Effect.eq_of_error {call : Call} {e : Failure} (h : Effect P L call (.error e) L') :
    L' = L := by
  cases h
  rfl

/-- A job is found after a move as before, moved. -/
theorem Ledger.job?_moved {move : Job → Job} {call : Call} {leaseFloor : Option ℤ}
    {usageLog : List UsageRow} (hmove : ∀ job ∈ L.outbox, Moves call job (move job))
    (jobId : String) :
    ({ L with outbox := L.outbox.map move, leaseFloor, usageLog } : Ledger).job? jobId =
      (L.job? jobId).map move :=
  Rows.find?_map_key (fun job hjob => (hmove job hjob).jobId_eq) jobId

/-! ### Refused calls -/

/-- A finish that is refused found no live lease, so its update wrote nothing. -/
theorem Repository.finishOutbox_atomic (hL : L.UniqueJobs) {jobId owner : String}
    {fence now : ℤ} {e : Failure}
    (h : (finishOutbox jobId owner fence now).run L = (.error e, L')) : L' = L := by
  have hle : (L.outbox.filter (liveLease jobId owner fence now)).length ≤ 1 :=
    Rows.length_filter_le_one hL fun job hjob => show job.jobId = jobId by
      simp only [liveLease, decide_eq_true_eq] at hjob
      exact hjob.1
  simp only [finishOutbox, run_bind, run_get, run_modify] at h
  by_cases hone : (L.outbox.filter (liveLease jobId owner fence now)).length = 1
  · simp [raiseIf, hone] at h
  · have hnone : L.outbox.filter (liveLease jobId owner fence now) = [] :=
      List.length_eq_zero_iff.mp (by omega)
    rw [List.filter_eq_nil_iff] at hnone
    rw [Rows.update_of_forall_not fun job hjob => by simpa using hnone job hjob] at h
    simp only [raiseIf, hone, not_false_eq_true, if_true, ne_eq, run_throw, Prod.mk.injEq] at h
    exact h.2.symm

/-- **A call that raises leaves every table as it was.** -/
theorem Call.atomic (hL : L.UniqueJobs) {call : Call} {e : Failure}
    (h : call.act P L = (.error e, L')) : L' = L := by
  cases call with
  | registerScope tenant user workspace =>
    exact Atomic.map (Atomic.bind (readOnly_raiseIf _ _) fun _ =>
      Atomic.bind (readOnly_lift _) fun _ => Atomic.bind_pure (atomic_transaction _)) h
  | executeCommand c =>
    exact Atomic.map (Atomic.bind (readOnly_raiseIf _ _) fun _ =>
      Atomic.bind (readOnly_lift _) fun _ => atomic_transaction _) h
  | claimOutbox floor scopeId owner now ttlSeconds =>
    exact Atomic.map (Atomic.bind (readOnly_raiseIf _ _) fun _ => atomic_transaction _) h
  | claimJob floor scopeId jobId owner now ttlSeconds =>
    exact Atomic.map (Atomic.bind (readOnly_raiseIf _ _) fun _ => atomic_transaction _) h
  | reconcileUnknown jobId disposition =>
    exact Atomic.map (Atomic.bind (readOnly_raiseIf _ _) fun _ => atomic_transaction _) h
  | finishOutbox jobId owner fence now =>
    exact Repository.finishOutbox_atomic hL (map_eq_error.mp h)
  | _ => exact Atomic.map (atomic_transaction _) h

/-! ### Every call -/

/-- An `UPDATE outbox` whose selected jobs move as `call` allows. -/
theorem Effect.of_update {call : Call} {reply : Reply} {p : Job → Bool} {f : Job → Job}
    {leaseFloor : Option ℤ} {usageLog : List UsageRow} (hcall : call.OnOutbox)
    (hmove : ∀ job ∈ L.outbox, p job = true → Moves call job (f job)) :
    Effect P L call (.ok reply)
      { L with outbox := Rows.update p f L.outbox, leaseFloor, usageLog } := by
  refine .moved call reply (fun job => if p job then f job else job) leaseFloor usageLog hcall ?_
  intro job hjob
  by_cases hp : p job = true
  · simpa [hp] using hmove job hjob hp
  · simpa [hp] using .stays

/-- A call that writes only the floor or the usage log. -/
theorem Effect.of_still {call : Call} {reply : Reply} {leaseFloor : Option ℤ}
    {usageLog : List UsageRow} (hcall : call.OnOutbox) :
    Effect P L call (.ok reply) { L with leaseFloor, usageLog } := by
  have h : Effect P L call (.ok reply)
      { L with outbox := L.outbox.map id, leaseFloor, usageLog } :=
    .moved call reply id leaseFloor usageLog hcall fun _ _ => .stays
  rwa [List.map_id] at h

/-- A settlement moves the job its caller holds, or only bills the usage. -/
theorem Effect.of_applyResult (hL : L.UniqueJobs) {call : Call} {reply : Reply}
    {state : JobState} {applied jobId owner r : String} {fence usageUnits : ℤ}
    (hcall : call.OnOutbox)
    (hmove : ∀ job : Job, job.jobId = jobId → job.HeldBy owner fence →
      Moves call job { job with state })
    (h : (Repository.applyResult state applied jobId owner fence usageUnits).run L = (.ok r, L')) :
    Effect P L call (.ok reply) L' := by
  obtain ⟨job, hjob, ⟨hheld, -, rfl⟩ | ⟨-, -, rfl⟩⟩ := Repository.applyResult_eq_ok.mp h
  · obtain ⟨hmem, hid⟩ := (Ledger.job?_eq_some hL).mp hjob
    refine Effect.of_update hcall fun job' hjob' hid' => ?_
    obtain rfl := Rows.eq_of_key_eq hL hjob' hmem
      ((of_decide_eq_true hid' : job'.jobId = jobId).trans hid.symm)
    exact hmove _ hid hheld
  · exact Effect.of_still hcall

/-- **Every call has one of the effects.** -/
theorem Call.effect (hL : L.UniqueJobs) {call : Call} {reply : Except Failure Reply}
    (h : call.act P L = (reply, L')) : Effect P L call reply L' := by
  rcases reply with e | reply
  · obtain rfl := Call.atomic hL h
    exact .refused call e
  rw [Call.act] at h
  cases call with
  | registerScope tenant user workspace =>
    obtain ⟨scopeId, hr, rfl⟩ := map_eq_ok.mp h
    simp only [Repository.registerScope, bind_eq_ok, raiseIf_eq_ok, lift_eq_ok,
      transaction_eq_ok, run_modify, run_pure, Prod.mk.injEq, Except.ok.injEq] at hr
    obtain ⟨_, _, ⟨-, rfl⟩, _, _, ⟨-, rfl⟩, _, _, ⟨-, rfl⟩, rfl, rfl⟩ := hr
    split
    · exact .registered tenant user workspace _ L.scopes (List.Subset.refl _)
    · exact .registered tenant user workspace _ _ (List.subset_append_left _ _)
  | createStream scopeId streamId entityType =>
    obtain ⟨_, hr, rfl⟩ := map_eq_ok.mp h
    simp only [Repository.createStream, transaction_eq_ok, bind_eq_ok, raiseIf_eq_ok, run_get,
      run_modify, Prod.mk.injEq, Except.ok.injEq] at hr
    obtain ⟨_, _, ⟨rfl, rfl⟩, _, _, ⟨hscope, rfl⟩, _, _, ⟨hfresh, rfl⟩, -, rfl⟩ := hr
    exact .created scopeId streamId entityType (by simpa using hscope)
      (by simpa [Ledger.stream?] using hfresh)
  | executeCommand c =>
    obtain ⟨r, hr, rfl⟩ := map_eq_ok.mp h
    rcases (Repository.executeCommand_eq_ok.mp hr).2 with ⟨hrep, rfl, rfl⟩ |
      ⟨requestDigest, eventId, body, hacc, rfl, rfl⟩
    · exact .replayed c hrep
    · exact .committed c requestDigest eventId body hacc
  | recordObservation o =>
    obtain ⟨n, hn, rfl⟩ := map_eq_ok.mp h
    rcases Repository.recordObservation_eq_ok.mp hn with ⟨hrep, rfl⟩ |
      ⟨eventId, data, hrec, rfl, rfl⟩
    · exact .repeated o n hrep
    · exact .observed o eventId data hrec
  | claimOutbox floor scopeId owner now ttlSeconds =>
    obtain ⟨r, hr, rfl⟩ := map_eq_ok.mp h
    obtain ⟨httl, ⟨-, rfl, rfl⟩ | ⟨job, hnext, rfl, rfl⟩⟩ :=
      Repository.claimOutboxFrom_eq_ok.mp hr
    · exact Effect.of_still trivial
    · obtain ⟨hjob, hclaim, -⟩ := Repository.nextClaim?_spec hnext
      refine Effect.of_update trivial fun job' hjob' hid => ?_
      obtain rfl := Rows.eq_of_key_eq hL hjob' hjob (of_decide_eq_true hid)
      exact .claimed httl hclaim
  | claimJob floor scopeId jobId owner now ttlSeconds =>
    obtain ⟨r, hr, rfl⟩ := map_eq_ok.mp h
    obtain ⟨httl, ⟨-, rfl, rfl⟩ | ⟨job, hpend, rfl, rfl⟩⟩ :=
      Repository.claimJobFrom_eq_ok.mp hr
    · exact Effect.of_still trivial
    · have hjob := List.mem_of_find?_eq_some hpend
      obtain ⟨hid, hscope, hstate⟩ : job.jobId = jobId ∧ job.scopeId = scopeId ∧
          job.state = .pending := by simpa using List.find?_some hpend
      refine Effect.of_update trivial fun job' hjob' hid' => ?_
      obtain rfl := Rows.eq_of_key_eq hL hjob' hjob 
        ((of_decide_eq_true hid' : job'.jobId = jobId).trans hid.symm)
      exact .picked httl hid hscope hstate
  | finishOutbox jobId owner fence now =>
    obtain ⟨_, hr, rfl⟩ := map_eq_ok.mp h
    simp only [Repository.finishOutbox, bind_eq_ok, run_get, run_modify, raiseIf_eq_ok,
      Prod.mk.injEq, Except.ok.injEq] at hr
    obtain ⟨_, _, ⟨rfl, rfl⟩, _, _, ⟨-, rfl⟩, -, rfl⟩ := hr
    refine Effect.of_update trivial fun job _ hlive => ?_
    obtain ⟨hid, howner, hfence, hstate, huntil⟩ := of_decide_eq_true hlive
    exact .finished hid ⟨hstate, howner, hfence⟩ huntil
  | submitResult jobId owner fence usageUnits =>
    obtain ⟨r, hr, rfl⟩ := map_eq_ok.mp h
    exact Effect.of_applyResult hL trivial (fun _ => .submitted) hr
  | failJob jobId owner fence usageUnits =>
    obtain ⟨r, hr, rfl⟩ := map_eq_ok.mp h
    exact Effect.of_applyResult hL trivial (fun _ => .failed) hr
  | recordUsage jobId usageUnits =>
    obtain ⟨_, hr, rfl⟩ := map_eq_ok.mp h
    obtain rfl := Repository.insertUsage_eq_ok.mp (transaction_eq_ok.mp hr)
    exact Effect.of_still trivial
  | cancelJob scopeId jobId =>
    obtain ⟨_, hr, rfl⟩ := map_eq_ok.mp h
    simp only [Repository.cancelJob, transaction_eq_ok, run_modify, Prod.mk.injEq] at hr
    obtain ⟨-, rfl⟩ := hr
    refine Effect.of_update trivial fun job _ hsel => ?_
    obtain ⟨hid, hscope⟩ := of_decide_eq_true hsel
    exact .cancelled hid hscope
  | markJobUnknown jobId =>
    obtain ⟨_, hr, rfl⟩ := map_eq_ok.mp h
    simp only [Repository.markJobUnknown, transaction_eq_ok, run_modify, Prod.mk.injEq] at hr
    obtain ⟨-, rfl⟩ := hr
    refine Effect.of_update trivial fun job _ hsel => ?_
    obtain ⟨hid, hstate⟩ := of_decide_eq_true hsel
    exact .lost hid hstate
  | reconcileUnknown jobId disposition =>
    obtain ⟨r, hr, rfl⟩ := map_eq_ok.mp h
    simp only [Repository.reconcileUnknown, bind_eq_ok, raiseIf_eq_ok, transaction_eq_ok] at hr
    obtain ⟨_, _, ⟨-, rfl⟩, hr⟩ := hr
    simp only [ite_eq_ok, bind_eq_ok, run_modify, run_pure, Prod.mk.injEq] at hr
    rcases hr with ⟨rfl, _, _, ⟨-, rfl⟩, -, rfl⟩ |
      ⟨-, ⟨rfl, _, _, ⟨-, rfl⟩, -, rfl⟩ | ⟨-, -, rfl⟩⟩
    · refine Effect.of_update trivial fun job _ hsel => ?_
      obtain ⟨hid, hstate⟩ := of_decide_eq_true hsel
      exact .requeued hid hstate
    · refine Effect.of_update trivial fun job _ hsel => ?_
      obtain ⟨hid, hstate⟩ := of_decide_eq_true hsel
      exact .discarded hid hstate
    · exact Effect.of_still trivial
  | audit streamId detail =>
    obtain ⟨_, hr, rfl⟩ := map_eq_ok.mp h
    simp only [Repository.audit, transaction_eq_ok, run_modify, Prod.mk.injEq] at hr
    obtain ⟨-, rfl⟩ := hr
    exact .audited streamId detail _ _
  | deleteStream streamId deletedAt =>
    obtain ⟨_, hr, rfl⟩ := map_eq_ok.mp h
    simp only [Repository.deleteStream, transaction_eq_ok, run_modify, Prod.mk.injEq] at hr
    obtain ⟨-, rfl⟩ := hr
    exact .deleted streamId deletedAt

/-- The effect of the call a machine performs. -/
theorem Call.effect_act (hL : L.UniqueJobs) (call : Call) :
    Effect P L call (call.act P L).1 (call.act P L).2 :=
  Call.effect hL rfl

/-! ### Floor and usage -/

/-- The calls that write nothing but the states of jobs. -/
def Call.onStates : Call → Bool
  | .finishOutbox .. | .cancelJob .. | .markJobUnknown .. | .reconcileUnknown .. => true
  | _ => false

/-- What is not in the outbox stays under a call that writes only states of jobs. -/
theorem Call.act_of_onStates {τ : Type} {f : Ledger → τ}
    (hf : ∀ (L : Ledger) (outbox : List Job), f { L with outbox } = f L) {call : Call}
    (hcall : call.onStates = true) (L : Ledger) : f (call.act P L).2 = f L := by
  have hmap {α : Type} {g : α → Reply} {op : Op α} (hop : Keeps f op) :
      f ((g <$> op).run L).2 = f L := by
    rw [run_map]
    exact hop L
  have hwrite (outbox : Ledger → List Job) :
      Keeps f (modify fun L => { L with outbox := outbox L } : Op Unit) :=
    keeps_modify fun L => hf L _
  cases call with
  | finishOutbox jobId owner fence now =>
    exact hmap (Keeps.bind readOnly_get.keeps fun _ =>
      Keeps.bind (hwrite _) fun _ => (readOnly_raiseIf _ _).keeps)
  | cancelJob scopeId jobId => exact hmap (Keeps.transaction (hwrite _))
  | markJobUnknown jobId => exact hmap (Keeps.transaction (hwrite _))
  | reconcileUnknown jobId disposition =>
    refine hmap (Keeps.bind (readOnly_raiseIf _ _).keeps fun _ => Keeps.transaction ?_)
    split
    · exact Keeps.bind (hwrite _) fun _ => (readOnly_pure _).keeps
    split
    · exact Keeps.bind (hwrite _) fun _ => (readOnly_pure _).keeps
    · exact (readOnly_pure _).keeps
  | _ => exact absurd hcall (by simp [Call.onStates])

/-- A call that is not on the outbox writes neither the floor nor the usage. -/
theorem Effect.keeps_floor_usage {call : Call} {reply : Except Failure Reply}
    (h : Effect P L call reply L') (hcall : ¬call.OnOutbox) :
    L'.leaseFloor = L.leaseFloor ∧ L'.usageLog = L.usageLog := by
  cases h with
  | moved _ _ _ _ _ hout => exact absurd hout hcall
  | _ => exact ⟨rfl, rfl⟩

end

end CyranoAgent
