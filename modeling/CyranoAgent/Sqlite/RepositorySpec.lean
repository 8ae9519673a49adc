import CyranoAgent.Sqlite.Repository

/-!
# What the repository's calls do

One specification per call: when it succeeds, with what result, and which ledger it leaves.
`Ledger.commit` and `Ledger.observe` are the ledgers a fresh command and a fresh observation
leave; `executeCommand_eq_ok` and `recordObservation_eq_ok` say exactly when each of them is
the outcome, and when the call answers from a row that is already there.

A job's lease is `Job.HeldBy`: an owner and a fence. `applyResult_eq_ok` says that
`submit_result` and `fail_job` move a job exactly for its holder.
-/

namespace CyranoAgent

open Lib Lib.Action

/-- `payload.get("approved") is True`, which no command gets past. -/
def Command.ClaimsApproval (c : Command) : Prop :=
  (c.payload.get? "approved").any PyValue.isTrue = true

instance (c : Command) : Decidable c.ClaimsApproval := inferInstanceAs (Decidable (_ = true))

/-- A job leased to `owner` until `leaseUntil`, under the next fence. -/
def Job.lease (job : Job) (owner : String) (leaseUntil : ℤ) : Job :=
  { job with
    state := .leased, leaseOwner := some owner, leaseUntil := some leaseUntil
    fence := job.fence + 1 }

/-- `owner` holds the current lease of a job under `fence`. -/
def Job.HeldBy (job : Job) (owner : String) (fence : ℤ) : Prop :=
  job.state = .leased ∧ job.leaseOwner = some owner ∧ job.fence = fence

instance (job : Job) (owner : String) (fence : ℤ) : Decidable (job.HeldBy owner fence) :=
  inferInstanceAs (Decidable (_ ∧ _ ∧ _))

namespace Ledger

/-- The event row the next insertion writes. -/
def nextEvent (L : Ledger) (eventId streamId producer : String) (producerSeq : ℤ)
    (kind payloadDigest observationKind : String) : Event :=
  ⟨L.nextEventSeq, eventId, streamId, L.nextPosition streamId, producer, producerSeq, kind, 1,
    payloadDigest, "now", "now", observationKind⟩

@[simp] theorem nextEvent_streamId (L : Ledger) (eventId streamId producer : String)
    (producerSeq : ℤ) (kind payloadDigest observationKind : String) :
    (L.nextEvent eventId streamId producer producerSeq kind payloadDigest
      observationKind).streamId = streamId := rfl

/-- The ledger with a body stored under its digest. -/
def store (L : Ledger) (scopeId : String) (body : ByteArray) : Ledger :=
  { L with
    artifacts := Rows.insertOrIgnore (·.rawDigest) (Repository.artifactRow scopeId body)
      L.artifacts
    eventBlobs := Rows.insertOrIgnore (·.rawDigest) ⟨rawDigest body, scopeId, body⟩
      L.eventBlobs }

/-- The producer sequence of a command: the one it names, or the producer's next. -/
def commandSeq (L : Ledger) (c : Command) : ℤ :=
  c.producerSeq.getD (L.nextProducerSeq c.producer)

/-- The outbox row of a job whose id is its event's. -/
def newJob (eventId scopeId payloadDigest : String) : Job :=
  ⟨eventId, eventId, scopeId, payloadDigest, .pending, 0, 0, none, none, "0", 0⟩

/-- The ledger a fresh command leaves: `body` is its stored response. -/
def commit (L : Ledger) (c : Command) (requestDigest eventId : String)
    (body : ByteArray) : Ledger :=
  { L.store c.scopeId body with
    events := L.events ++ [L.nextEvent eventId c.streamId c.producer (L.commandSeq c) c.command
      (rawDigest body) "control"]
    nextEventSeq := L.nextEventSeq + 1
    streams := Rows.update (fun row => row.streamId = c.streamId)
      (fun row => { row with revision := L.revision c.streamId + 1 }) L.streams
    requests := L.requests ++ [⟨c.scopeId, c.actor, c.command, c.idempotencyKey, requestDigest,
      rawDigest body⟩]
    outbox := if c.enqueue then L.outbox ++ [newJob eventId c.scopeId (rawDigest body)]
      else L.outbox }

/-- The ledger a fresh observation leaves: `data` is its canonical payload. -/
def observe (L : Ledger) (o : Observation) (eventId : String)
    (data : ByteArray) : Ledger :=
  { L.store o.scopeId data with
    events := L.events ++ [L.nextEvent eventId o.streamId o.producer o.producerSeq o.kind
      (rawDigest data) o.observationKind]
    nextEventSeq := L.nextEventSeq + 1 }

/-- A stream belongs to a scope. -/
def Owns (L : Ledger) (scopeId streamId : String) : Prop :=
  ∃ row, L.stream? streamId = some row ∧ row.scopeId = scopeId

instance (L : Ledger) (scopeId streamId : String) : Decidable (L.Owns scopeId streamId) :=
  decidable_of_iff ((L.stream? streamId).map (·.scopeId) = some scopeId) (by simp [Owns])

/-- The next position is past every event of the stream. -/
theorem streamRevision_lt_nextPosition {L : Ledger} {streamId : String} {ev : Event}
    (hev : ev ∈ L.events) (hs : ev.streamId = streamId) :
    ev.streamRevision < L.nextPosition streamId := by
  have hmem : ev.streamRevision ∈ (L.eventsOf streamId).map (·.streamRevision) :=
    List.mem_map_of_mem (by simp [eventsOf, hev, hs])
  exact Nat.lt_succ_of_le (Rows.le_coalesceMax hmem)

/-- The next sequence of a producer is past every one it has used. -/
theorem producerSeq_lt_nextProducerSeq {L : Ledger} {ev : Event} (hev : ev ∈ L.events) :
    ev.producerSeq < L.nextProducerSeq ev.producer := by
  have hmem : ev.producerSeq ∈
      (L.events.filter fun ev' => ev'.producer = ev.producer).map (·.producerSeq) :=
    List.mem_map_of_mem (by simp [hev])
  exact Int.lt_add_one_of_le (Rows.le_coalesceMax hmem)

theorem observed?_eq_none {L : Ledger} {producer : String} {producerSeq : ℤ} :
    L.observed? producer producerSeq = none ↔
      ∀ ev ∈ L.events, ev.producer = producer → ev.producerSeq ≠ producerSeq := by
  simp [observed?]

/-- The ledger after a claim leased a job. -/
def grant (L : Ledger) (jobId owner : String) (leaseUntil : ℤ) : Ledger :=
  { L with
    outbox := Rows.update (fun job => job.jobId = jobId) (fun job => job.lease owner leaseUntil)
      L.outbox
    leaseFloor := some leaseUntil }

/-- The ledger after the state of one job was set. -/
def setJobState (L : Ledger) (jobId : String) (state : JobState) : Ledger :=
  { L with
    outbox := Rows.update (fun job => job.jobId = jobId) (fun job => { job with state }) L.outbox }

/-- The ledger after a job's usage was billed. -/
def bill (L : Ledger) (jobId : String) (units : ℤ) : Ledger :=
  { L with usageLog := Rows.insertOrIgnore (·.jobId) ⟨jobId, units⟩ L.usageLog }

/-- The job ids of the outbox are unique, as its primary key demands. -/
def UniqueJobs (L : Ledger) : Prop := (L.outbox.map (·.jobId)).Nodup

theorem job?_eq_some {L : Ledger} (hL : L.UniqueJobs) {jobId : String} {job : Job} :
    L.job? jobId = some job ↔ job ∈ L.outbox ∧ job.jobId = jobId := by
  constructor
  · intro h
    exact ⟨List.mem_of_find?_eq_some h, by simpa using List.find?_some h⟩
  · rintro ⟨hjob, rfl⟩
    exact Rows.find?_key hL hjob

end Ledger

namespace Repository

variable {P : Primitives} {L L' : Ledger}

/-! ### The statements -/

@[simp] theorem bindInt_eq_ok {n : ℤ} {u : Unit} :
    (bindInt n).run L = (.ok u, L') ↔ Bindable n ∧ L = L' := by
  simp [bindInt]

@[simp] theorem requireScope_eq_ok {scopeId streamId : String} {u : Unit} :
    (requireScope scopeId streamId).run L = (.ok u, L') ↔ L.Owns scopeId streamId ∧ L = L' := by
  simp [requireScope, Ledger.Owns, and_comm]

@[simp] theorem readScopedEntity_eq_ok {scopeId streamId : String} {n : ℕ} :
    (readScopedEntity scopeId streamId).run L = (.ok n, L') ↔
      L.Owns scopeId streamId ∧ L.revision streamId = n ∧ L = L' := by
  simp [readScopedEntity, and_comm]

@[simp] theorem artifact_eq_ok {scopeId raw : String} {body : ByteArray} :
    (artifact scopeId body).run L = (.ok raw, L') ↔
      rawDigest body = raw ∧ L.store scopeId body = L' := by
  simp [artifact, Ledger.store, and_comm]

/-- An event is inserted, at the next position of its stream, exactly when its id and its
producer sequence are unused. -/
@[simp] theorem insertEvent_eq_ok {eventId streamId producer scopeId : String}
    {body : ByteArray} {producerSeq : ℤ} {kind payloadDigest observationKind : String}
    {u : Unit} :
    (insertEvent eventId streamId (L.nextPosition streamId) producer producerSeq kind
        payloadDigest observationKind).run (L.store scopeId body) = (.ok u, L') ↔
      Bindable producerSeq ∧ (∀ ev ∈ L.events, ev.eventId ≠ eventId) ∧
        L.observed? producer producerSeq = none ∧
        { L.store scopeId body with
          events := L.events ++ [L.nextEvent eventId streamId producer producerSeq kind
            payloadDigest observationKind]
          nextEventSeq := L.nextEventSeq + 1 } = L' := by
  have hposition : ∀ ev ∈ L.events, ev.streamId = streamId →
      ev.streamRevision ≠ L.nextPosition streamId := fun ev hev hs =>
    (Ledger.streamRevision_lt_nextPosition hev hs).ne
  simp only [insertEvent, Ledger.nextEvent, Ledger.observed?_eq_none, bind_eq_ok,
    bindInt_eq_ok, raiseIf_eq_ok, List.any_eq_true, decide_eq_true_eq, not_exists, not_and,
    Ledger.store]
  simp
  tauto

@[simp] theorem insertRequest_eq_ok {row : RequestRow} {u : Unit} :
    (insertRequest row).run L = (.ok u, L') ↔
      L.request? row.scopeId row.actor row.command row.idempotencyKey = none ∧
        { L with requests := L.requests ++ [row] } = L' := by
  simp [insertRequest]

@[simp] theorem insertJob_eq_ok {eventId scopeId payloadDigest : String} {u : Unit} :
    (insertJob eventId scopeId payloadDigest).run L = (.ok u, L') ↔
      L.job? eventId = none ∧
        { L with outbox := L.outbox ++ [Ledger.newJob eventId scopeId payloadDigest] } = L' := by
  simp [insertJob, Ledger.newJob]

/-! ### Commands -/

/-- What a command that commits was checked against, and the digests it computed. -/
structure Accepted (P : Primitives) (L : Ledger) (c : Command) (requestDigest eventId : String)
    (body : ByteArray) : Prop where
  owns : L.Owns c.scopeId c.streamId
  unused : L.request? c.scopeId c.actor c.command c.idempotencyKey = none
  current : (L.revision c.streamId : ℤ) = c.expectedRevision
  digest_request : digest P (requestValue c) = .ok requestDigest
  digest_event : digest P (eventValue c) = .ok eventId
  bytes_response : canonicalBytes P (responseValue (L.revision c.streamId + 1)) = .ok body
  bindable : Bindable (L.commandSeq c)
  fresh_event : ∀ ev ∈ L.events, ev.eventId ≠ eventId
  fresh_seq : L.observed? c.producer (L.commandSeq c) = none
  fresh_job : c.enqueue = true → L.job? eventId = none

/-- A command is answered from the request row its key already has. -/
def Replays (P : Primitives) (L : Ledger) (c : Command) : Prop :=
  L.Owns c.scopeId c.streamId ∧
    ∃ old, L.request? c.scopeId c.actor c.command c.idempotencyKey = some old ∧
      digest P (requestValue c) = .ok old.requestDigest

/-- The writes of a command succeed exactly when its three unique values are unused. -/
theorem commitCommand_eq_ok {c : Command} {requestDigest : String} {r : Receipt} :
    (commitCommand P c requestDigest (L.revision c.streamId) (L.commandSeq c)).run L
        = (.ok r, L') ↔
      ∃ eventId, digest P (eventValue c) = .ok eventId ∧
        ∃ body, canonicalBytes P (responseValue (L.revision c.streamId + 1)) = .ok body ∧
        Bindable (L.commandSeq c) ∧ (∀ ev ∈ L.events, ev.eventId ≠ eventId) ∧
        L.observed? c.producer (L.commandSeq c) = none ∧
        L.request? c.scopeId c.actor c.command c.idempotencyKey = none ∧
        (c.enqueue = true → L.job? eventId = none) ∧
        ⟨L.revision c.streamId + 1, eventId, false⟩ = r ∧
        L.commit c requestDigest eventId body = L' := by
  cases he : c.enqueue <;> simp [commitCommand, Ledger.commit, he, and_assoc] <;> rfl

/-- **When a command returns**: its payload claims no approval, its digests exist, the scope
owns the stream, and either the key is answered from its request row, or it is new, the
revision is the expected one and the event's unique values are unused. -/
theorem executeCommand_eq_ok {c : Command} {r : Receipt} :
    (executeCommand P c).run L = (.ok r, L') ↔
      ¬c.ClaimsApproval ∧
        ((Replays P L c ∧ r = ⟨L.revision c.streamId, "", true⟩ ∧ L' = L) ∨
          ∃ requestDigest eventId body, Accepted P L c requestDigest eventId body ∧
            r = ⟨L.revision c.streamId + 1, eventId, false⟩ ∧
            L' = L.commit c requestDigest eventId body) := by
  simp only [executeCommand, executeCommandIn, bind_eq_ok, raiseIf_eq_ok, lift_eq_ok,
    transaction_eq_ok, requireScope_eq_ok]
  constructor
  · rintro ⟨_, _, ⟨hap, rfl⟩, requestDigest, _, ⟨hrd, rfl⟩, _, _, ⟨howns, rfl⟩, _, _, hget, h⟩
    simp only [run_get, Prod.mk.injEq, Except.ok.injEq] at hget
    obtain ⟨rfl, rfl⟩ := hget
    refine ⟨hap, ?_⟩
    split at h
    · next old hold =>
      simp only [bind_eq_ok, raiseIf_eq_ok, not_not, run_pure, Prod.mk.injEq,
        Except.ok.injEq] at h
      obtain ⟨_, _, ⟨hdig, rfl⟩, rfl, rfl⟩ := h
      exact .inl ⟨⟨howns, old, hold, hdig ▸ hrd⟩, rfl, rfl⟩
    · next hnone =>
      obtain ⟨_, _, hrev, h⟩ := bind_eq_ok.mp h
      simp at hrev
      obtain ⟨hrev, rfl⟩ := hrev
      obtain ⟨eventId, hid, body, hbody, hbind, hev, hseq, hreq, hjob, rfl, rfl⟩ :=
        commitCommand_eq_ok.mp h
      exact .inr ⟨requestDigest, eventId, body,
        ⟨howns, hreq, hrev, hrd, hid, hbody, hbind, hev, hseq, hjob⟩, rfl, rfl⟩
  · rintro ⟨hap, ⟨⟨howns, old, hold, hrd⟩, rfl, rfl⟩ |
      ⟨requestDigest, eventId, body, hacc, rfl, rfl⟩⟩
    · refine ⟨(), L', ⟨hap, rfl⟩, _, L', ⟨hrd, rfl⟩, (), L', ⟨howns, rfl⟩, L', L', rfl, ?_⟩
      simp [hold]
    · refine ⟨(), L, ⟨hap, rfl⟩, _, L, ⟨hacc.digest_request, rfl⟩, (), L, ⟨hacc.owns, rfl⟩,
        L, L, rfl, ?_⟩
      simp only [hacc.unused]
      refine bind_eq_ok.mpr ⟨(), L, by simp [hacc.current], ?_⟩
      exact commitCommand_eq_ok.mpr ⟨eventId, hacc.digest_event, body, hacc.bytes_response,
        hacc.bindable, hacc.fresh_event, hacc.fresh_seq, hacc.unused, hacc.fresh_job, rfl, rfl⟩

/-! ### Observations -/

/-- What an observation that is recorded was checked against, with its id and its canonical
payload. -/
structure Recorded (P : Primitives) (L : Ledger) (o : Observation) (eventId : String)
    (data : ByteArray) : Prop where
  owns : L.Owns o.scopeId o.streamId
  bytes_payload : canonicalBytes P (.dict o.payload) = .ok data
  digest_event : digest P (observationValue o) = .ok eventId
  bindable : Bindable o.producerSeq
  fresh_event : ∀ ev ∈ L.events, ev.eventId ≠ eventId
  fresh_seq : L.observed? o.producer o.producerSeq = none

/-- An observation is answered from the event its producer sequence already has: `n` is the
sequence number of the event of that id. -/
def Repeats (P : Primitives) (L : Ledger) (o : Observation) (n : ℕ) : Prop :=
  L.Owns o.scopeId o.streamId ∧ Bindable o.producerSeq ∧
    ∃ data old, canonicalBytes P (.dict o.payload) = .ok data ∧
      L.observed? o.producer o.producerSeq = some old ∧
      old.payloadDigest = rawDigest data ∧
      ∃ ev, L.events.find? (fun ev => ev.eventId = old.eventId) = some ev ∧ ev.eventSeq = n

@[simp] theorem eventSeqOf_eq_ok {eventId : String} {n : ℕ} :
    (eventSeqOf eventId).run L = (.ok n, L') ↔
      ∃ ev, L.events.find? (fun ev => ev.eventId = eventId) = some ev ∧ ev.eventSeq = n ∧
        L = L' := by
  simp only [eventSeqOf, bind_eq_ok, run_get, Prod.mk.injEq, Except.ok.injEq]
  constructor
  · rintro ⟨_, _, ⟨rfl, rfl⟩, h⟩
    split at h
    · next ev hev => exact ⟨ev, hev, by simpa using h⟩
    · simp at h
  · rintro ⟨ev, hev, rfl, rfl⟩
    exact ⟨L, L, ⟨rfl, rfl⟩, by simp [hev]⟩

/-- The writes of an observation whose producer sequence is new. -/
theorem insertObservation_eq_ok {o : Observation} {eventId : String} {data : ByteArray} {n : ℕ} :
    (insertEvent eventId o.streamId (L.nextPosition o.streamId) o.producer o.producerSeq o.kind
        (rawDigest data) o.observationKind >>= fun _ => eventSeqOf eventId).run
        (L.store o.scopeId data) = (.ok n, L') ↔
      Bindable o.producerSeq ∧ (∀ ev ∈ L.events, ev.eventId ≠ eventId) ∧
        L.observed? o.producer o.producerSeq = none ∧
        n = L.nextEventSeq ∧ L' = L.observe o eventId data := by
  have hnew (ev : Event) (hid : ev.eventId = eventId)
      (hfresh : ∀ ev ∈ L.events, ev.eventId ≠ eventId) :
      (L.events ++ [ev]).find? (fun ev => ev.eventId = eventId) = some ev := by
    have hnone : L.events.find? (fun ev => ev.eventId = eventId) = none := by
      simpa using hfresh
    simp [List.find?_append, hnone, hid]
  simp only [bind_eq_ok, insertEvent_eq_ok, eventSeqOf_eq_ok]
  constructor
  · rintro ⟨_, _, ⟨hbind, hid, hseq, rfl⟩, ev, hev, rfl, rfl⟩
    rw [hnew _ rfl hid, Option.some.injEq] at hev
    exact ⟨hbind, hid, hseq, hev ▸ rfl, rfl⟩
  · rintro ⟨hbind, hid, hseq, rfl, rfl⟩
    exact ⟨(), _, ⟨hbind, hid, hseq, rfl⟩, _, hnew _ rfl hid, rfl, rfl⟩

/-- **When an observation returns**: its payload is canonical, the scope owns the stream, and
either its producer sequence is already there with this payload's digest, or the sequence and
the event's id are unused. -/
theorem recordObservation_eq_ok {o : Observation} {n : ℕ} :
    (recordObservation P o).run L = (.ok n, L') ↔
      (Repeats P L o n ∧ L' = L) ∨
        ∃ eventId data, Recorded P L o eventId data ∧ n = L.nextEventSeq ∧
          L' = L.observe o eventId data := by
  simp only [recordObservation, transaction_eq_ok, recordObservationIn, bind_eq_ok, lift_eq_ok,
    requireScope_eq_ok, bindInt_eq_ok]
  constructor
  · rintro ⟨data, _, ⟨hdata, rfl⟩, _, _, ⟨howns, rfl⟩, _, _, ⟨hbind, rfl⟩, _, _, hget, h⟩
    simp only [run_get, Prod.mk.injEq, Except.ok.injEq] at hget
    obtain ⟨rfl, rfl⟩ := hget
    split at h
    · next old hold =>
      simp only [bind_eq_ok, raiseIf_eq_ok, not_not, eventSeqOf_eq_ok] at h
      obtain ⟨_, _, ⟨hdig, rfl⟩, ev, hev, hn, rfl⟩ := h
      exact .inl ⟨⟨howns, hbind, data, old, hdata, hold, hdig, ev, hev, hn⟩, rfl⟩
    · next hnone =>
      obtain ⟨_, _, hart, h⟩ := bind_eq_ok.mp h
      obtain ⟨rfl, rfl⟩ := artifact_eq_ok.mp hart
      obtain ⟨_, _, hget, h⟩ := bind_eq_ok.mp h
      simp only [run_get, Prod.mk.injEq, Except.ok.injEq] at hget
      obtain ⟨rfl, rfl⟩ := hget
      obtain ⟨eventId, _, hlift, h⟩ := bind_eq_ok.mp h
      obtain ⟨hid, rfl⟩ := lift_eq_ok.mp hlift
      obtain ⟨_, hev, hseq, rfl, rfl⟩ := insertObservation_eq_ok.mp h
      exact .inr ⟨eventId, data, ⟨howns, hdata, hid, hbind, hev, hseq⟩, rfl, rfl⟩
  · rintro (⟨⟨howns, hbind, data, old, hdata, hold, hdig, ev, hev, hn⟩, rfl⟩ |
      ⟨eventId, data, hrec, rfl, rfl⟩)
    · refine ⟨data, L', ⟨hdata, rfl⟩, (), L', ⟨howns, rfl⟩, (), L', ⟨hbind, rfl⟩, L', L', rfl, ?_⟩
      simp only [hold]
      exact bind_eq_ok.mpr ⟨(), L', by simp [hdig], eventSeqOf_eq_ok.mpr ⟨ev, hev, hn, rfl⟩⟩
    · refine ⟨data, L, ⟨hrec.bytes_payload, rfl⟩, (), L, ⟨hrec.owns, rfl⟩, (), L,
        ⟨hrec.bindable, rfl⟩, L, L, rfl, ?_⟩
      simp only [hrec.fresh_seq]
      refine bind_eq_ok.mpr ⟨_, _, artifact_eq_ok.mpr ⟨rfl, rfl⟩, bind_eq_ok.mpr ⟨_, _, rfl,
        bind_eq_ok.mpr ⟨eventId, _, lift_eq_ok.mpr ⟨hrec.digest_event, rfl⟩, ?_⟩⟩⟩
      exact insertObservation_eq_ok.mpr
        ⟨hrec.bindable, hrec.fresh_event, hrec.fresh_seq, rfl, rfl⟩

/-! ### Outbox -/

@[simp] theorem insertUsage_eq_ok {jobId : String} {units : ℤ} {u : Unit} :
    (insertUsage jobId units).run L = (.ok u, L') ↔ L.bill jobId units = L' := by
  simp [insertUsage, Ledger.bill]

@[simp] theorem setJobState_eq_ok {jobId : String} {state : JobState} {u : Unit} :
    (setJobState jobId state).run L = (.ok u, L') ↔ L.setJobState jobId state = L' := by
  simp [setJobState, Ledger.setJobState]

@[simp] theorem grantLease_eq_ok {jobId owner : String} {fence leaseUntil : ℤ}
    {r : Option Lease} :
    (grantLease jobId owner fence leaseUntil).run L = (.ok r, L') ↔
      some ⟨jobId, fence + 1, leaseUntil⟩ = r ∧ L.grant jobId owner leaseUntil = L' := by
  simp [grantLease, Ledger.grant, Job.lease, and_comm]

/-- The job a claim takes is claimable, and no claimable job has a smaller id. -/
theorem nextClaim?_spec {scopeId : String} {now : ℤ} {job : Job}
    (h : nextClaim? L scopeId now = some job) :
    job ∈ L.outbox ∧ claimable scopeId now job = true ∧
      ∀ job' ∈ L.outbox, claimable scopeId now job' = true → job.jobId ≤ job'.jobId := by
  obtain ⟨rest, hsort⟩ := List.head?_eq_some_iff.mp h
  have hperm := List.perm_insertionSort (fun a b : Job => a.jobId ≤ b.jobId)
    (L.outbox.filter (claimable scopeId now))
  have hsorted := List.pairwise_insertionSort (fun a b : Job => a.jobId ≤ b.jobId)
    (L.outbox.filter (claimable scopeId now))
  rw [hsort] at hperm hsorted
  have hmem : job ∈ L.outbox.filter (claimable scopeId now) :=
    hperm.mem_iff.mp List.mem_cons_self
  refine ⟨List.mem_of_mem_filter hmem, by simpa using (List.mem_filter.mp hmem).2, ?_⟩
  intro job' hjob' hclaim
  rcases List.mem_cons.mp (hperm.mem_iff.mpr (List.mem_filter.mpr ⟨hjob', hclaim⟩)) with
    rfl | hrest
  · exact le_rfl
  · exact List.rel_of_pairwise_cons hsorted hrest

/-- **When a claim of any job returns**: it grants the next claimable job, or nothing when
there is none. -/
theorem claimOutboxFrom_eq_ok {floor : ℤ} {scopeId owner : String} {now ttlSeconds : ℤ}
    {r : Option Lease} :
    (claimOutboxFrom floor scopeId owner now ttlSeconds).run L = (.ok r, L') ↔
      0 < ttlSeconds ∧
        ((nextClaim? L scopeId now = none ∧ none = r ∧ L = L') ∨
          ∃ job, nextClaim? L scopeId now = some job ∧
            some ⟨job.jobId, job.fence + 1, max now floor + ttlSeconds⟩ = r ∧
            L.grant job.jobId owner (max now floor + ttlSeconds) = L') := by
  simp only [claimOutboxFrom, bind_eq_ok, raiseIf_eq_ok, not_le, transaction_eq_ok, run_get,
    Prod.mk.injEq, Except.ok.injEq]
  rcases hnext : nextClaim? L scopeId now with _ | job
  · simp [hnext]
  · simp [hnext]

/-- **When a claim of one job returns**: it grants the job if it is pending in the scope. -/
theorem claimJobFrom_eq_ok {floor : ℤ} {scopeId jobId owner : String} {now ttlSeconds : ℤ}
    {r : Option Lease} :
    (claimJobFrom floor scopeId jobId owner now ttlSeconds).run L = (.ok r, L') ↔
      0 < ttlSeconds ∧
        ((pendingJob? L scopeId jobId = none ∧ none = r ∧ L = L') ∨
          ∃ job, pendingJob? L scopeId jobId = some job ∧
            some ⟨jobId, job.fence + 1, max now floor + ttlSeconds⟩ = r ∧
            L.grant jobId owner (max now floor + ttlSeconds) = L') := by
  simp only [claimJobFrom, bind_eq_ok, raiseIf_eq_ok, not_le, transaction_eq_ok, run_get,
    Prod.mk.injEq, Except.ok.injEq]
  rcases hnext : pendingJob? L scopeId jobId with _ | job
  · simp [hnext]
  · simp [hnext]

/-- **When a settlement returns**: the usage is billed, and the job moves exactly when the
caller holds its lease under the fence it was given. -/
theorem applyResult_eq_ok {state : JobState} {applied jobId owner : String}
    {fence usageUnits : ℤ} {r : String} :
    (applyResult state applied jobId owner fence usageUnits).run L = (.ok r, L') ↔
      ∃ job, L.job? jobId = some job ∧
        ((job.HeldBy owner fence ∧ applied = r ∧
            (L.bill jobId usageUnits).setJobState jobId state = L') ∨
          (¬job.HeldBy owner fence ∧ "stale" = r ∧ L.bill jobId usageUnits = L')) := by
  simp only [applyResult, transaction_eq_ok, bind_eq_ok, insertUsage_eq_ok, run_get,
    Prod.mk.injEq, Except.ok.injEq]
  have hjob : (L.bill jobId usageUnits).job? jobId = L.job? jobId := rfl
  rcases hj : L.job? jobId with _ | job
  · simp [hjob, hj]
  · by_cases hheld : job.HeldBy owner fence
    · obtain ⟨hstate, howner, hfence⟩ := hheld
      simp [hjob, hj, hstate, howner, hfence, Job.HeldBy, and_comm]
    · have hstale : job.fence ≠ fence ∨ job.state ≠ .leased ∨ job.leaseOwner ≠ some owner := by
        simp only [Job.HeldBy] at hheld
        tauto
      simp [hjob, hj, hstale, hheld]

end Repository

end CyranoAgent
