import CyranoAgent.Sqlite.Schema

/-!
# The scoped repository

The calls of `ScopedRepository` that write the event ledger and the outbox, statement by
statement: streams and scopes, idempotent commands, telemetry observations, the outbox with
its leases and fences, and stream deletion. Each runs in one `Action.transaction`, except
`finishOutbox`, which is a single autocommitted `UPDATE`.

A claim first reads the lease floor and then runs its transaction; the two are separate
steps to any other connection, so the transaction is a definition of its own
(`claimOutboxFrom`, `claimJobFrom`) that takes the floor it was handed.

`Call` lists the transactions, and `Call.act` performs one: the machine whose runs are the
interleavings of any number of connections to one ledger.
-/

namespace CyranoAgent

open Lib Lib.Action

/-- `Receipt`. -/
structure Receipt where
  revision : ℕ
  eventId : String
  idempotentReplay : Bool
  deriving DecidableEq, Repr

/-- `Lease`. -/
structure Lease where
  jobId : String
  fence : ℤ
  leaseUntil : ℤ
  deriving DecidableEq, Repr

/-- The arguments of `execute_command`. -/
structure Command where
  scopeId : String
  actor : String
  command : String
  idempotencyKey : String
  payload : PyMapping
  streamId : String
  expectedRevision : ℤ
  enqueue : Bool := false
  producer : String := "cli"
  producerSeq : Option ℤ := none

/-- The arguments of `record_observation`. -/
structure Observation where
  scopeId : String
  streamId : String
  producer : String
  producerSeq : ℤ
  payload : PyMapping
  kind : String := "metric"
  observationKind : String := "telemetry"

namespace Ledger

variable (L : Ledger)

/-- `_revision`. -/
def revision (streamId : String) : ℕ := ((L.stream? streamId).map (·.revision)).getD 0

/-- `_next_position`. -/
def nextPosition (streamId : String) : ℕ :=
  Rows.coalesceMax 0 ((L.eventsOf streamId).map (·.streamRevision)) + 1

/-- The next sequence of a producer, over every stream of the ledger. -/
def nextProducerSeq (producer : String) : ℤ :=
  Rows.coalesceMax (-1) ((L.events.filter fun ev => ev.producer = producer).map (·.producerSeq))
    + 1

/-- The event recorded under a producer's sequence number. -/
def observed? (producer : String) (producerSeq : ℤ) : Option Event :=
  L.events.find? fun ev => ev.producer = producer ∧ ev.producerSeq = producerSeq

/-- `job_state`, `none` when the job is missing. -/
def jobState (jobId : String) : Option JobState := (L.job? jobId).map (·.state)

end Ledger

namespace Repository

/-! ### Scopes, streams, events -/

/-- An integer fits the 64 bits of a SQLite `INTEGER`. -/
def Bindable (n : ℤ) : Prop := -2 ^ 63 ≤ n ∧ n < 2 ^ 63

instance (n : ℤ) : Decidable (Bindable n) := inferInstanceAs (Decidable (_ ∧ _))

/-- Bind an integer parameter of a statement. -/
def bindInt (n : ℤ) : Op Unit := raiseIf (¬Bindable n) Failure.overflow

/-- `_require_scope`. -/
def requireScope (scopeId streamId : String) : Op Unit := do
  let L ← get
  raiseIf ((L.stream? streamId).map (·.scopeId) ≠ some scopeId)
    (.cyrano "SCOPE_DENIED" "entity not readable in this scope")

/-- `read_scoped_entity`. -/
def readScopedEntity (scopeId streamId : String) : Op ℕ := do
  requireScope scopeId streamId
  let L ← get
  return L.revision streamId

/-- `create_stream`. -/
def createStream (scopeId streamId entityType : String) : Op Unit :=
  transaction do
    let L ← get
    raiseIf (L.scopes.all fun row => row.scopeId ≠ scopeId)
      (.cyrano "SCOPE_DENIED" "unknown scope")
    raiseIf (L.streams.any fun row => row.streamId = streamId)
      (Failure.unique "streams.stream_id")
    modify fun L => { L with
      streams := L.streams ++ [⟨streamId, scopeId, 0, entityType, "open"⟩] }

/-- `INSERT INTO events`, with the uniqueness constraints of the table. -/
def insertEvent (eventId streamId : String) (streamRevision : ℕ) (producer : String)
    (producerSeq : ℤ) (kind payloadDigest observationKind : String) : Op Unit := do
  bindInt producerSeq
  let L ← get
  raiseIf (L.events.any fun ev => ev.eventId = eventId) (Failure.unique "events.event_id")
  raiseIf (L.events.any fun ev => ev.streamId = streamId ∧ ev.streamRevision = streamRevision)
    (Failure.unique "events.stream_id, events.stream_revision")
  raiseIf (L.events.any fun ev => ev.producer = producer ∧ ev.producerSeq = producerSeq)
    (Failure.unique "events.producer, events.producer_seq")
  modify fun L => { L with
    events := L.events ++ [⟨L.nextEventSeq, eventId, streamId, streamRevision, producer,
      producerSeq, kind, 1, payloadDigest, "now", "now", observationKind⟩]
    nextEventSeq := L.nextEventSeq + 1 }

/-- `INSERT INTO requests`. -/
def insertRequest (row : RequestRow) : Op Unit := do
  let L ← get
  raiseIf (L.request? row.scopeId row.actor row.command row.idempotencyKey).isSome
    (Failure.unique
      "requests.scope_id, requests.actor, requests.command, requests.idempotency_key")
  modify fun L => { L with requests := L.requests ++ [row] }

/-- `INSERT INTO outbox` of a pending job whose id is its event's. -/
def insertJob (eventId scopeId payloadDigest : String) : Op Unit := do
  let L ← get
  raiseIf (L.job? eventId).isSome (Failure.unique "outbox.job_id")
  modify fun L => { L with
    outbox := L.outbox ++ [⟨eventId, eventId, scopeId, payloadDigest, .pending, 0, 0, none,
      none, "0", 0⟩] }

section

variable (P : Primitives)

/-- `register_scope`. -/
def registerScope (tenant user workspace : String) : Op String := do
  raiseIf ([tenant, user, workspace].any fun field => field = "" ∨ field = "*")
    (.cyrano "INVALID_SCOPE" "scope fields must be exact")
  let scopeId ← lift (digest P (.dict
    [(.str "tenant", .str tenant), (.str "user", .str user), (.str "workspace", .str workspace)]))
  transaction do
    modify fun L =>
      if L.scopes.any fun row => row.scopeId = scopeId ∨
          (row.tenant = tenant ∧ row.userId = user ∧ row.workspace = workspace) then L
      else { L with scopes := L.scopes ++ [⟨scopeId, tenant, user, workspace, 0⟩] }
  return scopeId

/-- The `artifacts` row of a stored body. -/
def artifactRow (scopeId : String) (body : ByteArray) : ArtifactRow :=
  let raw := rawDigest body
  ⟨raw, scopeId, "blobs/" ++ String.ofList ((raw.toList.drop 7).take 8), "application/json",
    body.size, "internal", "derived", 0⟩

/-- `_artifact`: content is stored once per digest, under the scope that stored it first. -/
def artifact (scopeId : String) (body : ByteArray) : Op String := do
  modify fun L => { L with
    artifacts := Rows.insertOrIgnore (·.rawDigest) (artifactRow scopeId body) L.artifacts
    eventBlobs := Rows.insertOrIgnore (·.rawDigest) ⟨rawDigest body, scopeId, body⟩
      L.eventBlobs }
  return rawDigest body

/-! ### Commands -/

/-- The value whose digest identifies a request. -/
def requestValue (c : Command) : PyValue :=
  .dict [(.str "actor", .str c.actor), (.str "command", .str c.command),
    (.str "payload", .dict c.payload), (.str "expected", .int c.expectedRevision)]

/-- The value whose digest is the id of a command's event. -/
def eventValue (c : Command) : PyValue :=
  .dict [(.str "stream", .str c.streamId), (.str "payload", .dict c.payload),
    (.str "key", .str c.idempotencyKey)]

/-- The response stored for a command, `{"revision": …}`. -/
def responseValue (revision : ℕ) : PyValue := .dict [(.str "revision", .int revision)]

/-- The writes of a command that is not a replay, once its revision has been checked. -/
def commitCommand (c : Command) (requestDigest : String) (revision : ℕ) (producerSeq : ℤ) :
    Op Receipt := do
  let eventId ← lift (digest P (eventValue c))
  let position := (← get).nextPosition c.streamId
  let response ← lift (canonicalBytes P (responseValue (revision + 1)))
  let artifact ← artifact c.scopeId response
  insertEvent eventId c.streamId position c.producer producerSeq c.command artifact "control"
  modify fun L => { L with
    streams := Rows.update (fun row => row.streamId = c.streamId)
      (fun row => { row with revision := revision + 1 }) L.streams }
  insertRequest ⟨c.scopeId, c.actor, c.command, c.idempotencyKey, requestDigest, artifact⟩
  if c.enqueue then insertJob eventId c.scopeId artifact
  return ⟨revision + 1, eventId, false⟩

/-- The transaction of `execute_command`. -/
def executeCommandIn (c : Command) (requestDigest : String) : Op Receipt := do
  requireScope c.scopeId c.streamId
  let L ← get
  match L.request? c.scopeId c.actor c.command c.idempotencyKey with
  | some old =>
    raiseIf (old.requestDigest ≠ requestDigest)
      (.cyrano "IDEMPOTENCY_CONFLICT" c.idempotencyKey)
    return ⟨L.revision c.streamId, "", true⟩
  | none =>
    let revision := L.revision c.streamId
    raiseIf ((revision : ℤ) ≠ c.expectedRevision) (.cyrano "STALE_REVISION" c.streamId)
    commitCommand P c requestDigest revision (c.producerSeq.getD (L.nextProducerSeq c.producer))

/-- `execute_command`. -/
def executeCommand (c : Command) : Op Receipt := do
  raiseIf ((c.payload.get? "approved").any PyValue.isTrue)
    (.cyrano "WRONG_PURPOSE" "payload fields never grant approval")
  let requestDigest ← lift (digest P (requestValue c))
  transaction (executeCommandIn P c requestDigest)

/-! ### Observations -/

/-- `SELECT event_seq FROM events WHERE event_id=?`. -/
def eventSeqOf (eventId : String) : Op ℕ := do
  let L ← get
  match L.events.find? fun ev => ev.eventId = eventId with
  | some ev => return ev.eventSeq
  | none => throw (.python "TypeError" "'NoneType' object is not subscriptable")

/-- The value whose digest is the id of an observation's event. -/
def observationValue (o : Observation) : PyValue :=
  .dict [(.str "producer", .str o.producer), (.str "seq", .int o.producerSeq),
    (.str "payload", .dict o.payload)]

/-- `record_observation_in`. -/
def recordObservationIn (o : Observation) : Op ℕ := do
  let data ← lift (canonicalBytes P (.dict o.payload))
  requireScope o.scopeId o.streamId
  bindInt o.producerSeq
  let L ← get
  match L.observed? o.producer o.producerSeq with
  | some old =>
    raiseIf (old.payloadDigest ≠ rawDigest data)
      (.cyrano "IDEMPOTENCY_CONFLICT" "same producer_seq, different payload")
    eventSeqOf old.eventId
  | none =>
    let artifact ← artifact o.scopeId data
    let position := (← get).nextPosition o.streamId
    let eventId ← lift (digest P (observationValue o))
    insertEvent eventId o.streamId position o.producer o.producerSeq o.kind artifact
      o.observationKind
    eventSeqOf eventId

/-- `record_observation`. -/
def recordObservation (o : Observation) : Op ℕ := transaction (recordObservationIn P o)

end

/-- `read_artifact`. -/
def readArtifact (L : Ledger) (scopeId digest : String) : Option ByteArray :=
  match L.eventBlobs.find? fun row => row.rawDigest = digest with
  | some row => if row.scopeId = scopeId then some row.body else none
  | none => none

/-! ### Outbox, fencing, cancel -/

/-- `_monotonic_floor`. -/
def monotonicFloor : Op ℤ := do return (← get).leaseFloor.getD 0

/-- The job a claim grants is leased to its owner under the next fence. -/
def grantLease (jobId owner : String) (fence leaseUntil : ℤ) : Op (Option Lease) := do
  modify fun L => { L with
    outbox := Rows.update (fun job => job.jobId = jobId)
      (fun job => { job with
        state := .leased, leaseOwner := some owner, leaseUntil := some leaseUntil
        fence := job.fence + 1 }) L.outbox
    leaseFloor := some leaseUntil }
  return some ⟨jobId, fence + 1, leaseUntil⟩

/-- The jobs `claim_outbox` may take: pending, or leased with an expired lease. -/
def claimable (scopeId : String) (now : ℤ) (job : Job) : Bool :=
  job.scopeId = scopeId ∧
    (job.state = .pending ∨ (job.state = .leased ∧ job.leaseUntil.any (· ≤ now)))

/-- The claimable job of the least id. -/
def nextClaim? (L : Ledger) (scopeId : String) (now : ℤ) : Option Job :=
  ((L.outbox.filter (claimable scopeId now)).insertionSort fun a b => a.jobId ≤ b.jobId).head?

/-- `claim_outbox` after its read of the lease floor. -/
def claimOutboxFrom (floor : ℤ) (scopeId owner : String) (now ttlSeconds : ℤ) :
    Op (Option Lease) := do
  raiseIf (ttlSeconds ≤ 0) (.cyrano "INVALID_LEASE" "ttl must be positive")
  transaction do
    let L ← get
    match nextClaim? L scopeId now with
    | none => return none
    | some job => grantLease job.jobId owner job.fence (max now floor + ttlSeconds)

/-- `claim_outbox`. -/
def claimOutbox (scopeId owner : String) (now ttlSeconds : ℤ) : Op (Option Lease) := do
  claimOutboxFrom (← monotonicFloor) scopeId owner now ttlSeconds

/-- The job `claim_job` may take: it must still be pending. -/
def pendingJob? (L : Ledger) (scopeId jobId : String) : Option Job :=
  L.outbox.find? fun job => job.jobId = jobId ∧ job.scopeId = scopeId ∧ job.state = .pending

/-- `claim_job` after its read of the lease floor. -/
def claimJobFrom (floor : ℤ) (scopeId jobId owner : String) (now ttlSeconds : ℤ) :
    Op (Option Lease) := do
  raiseIf (ttlSeconds ≤ 0) (.cyrano "INVALID_LEASE" "ttl must be positive")
  transaction do
    let L ← get
    match pendingJob? L scopeId jobId with
    | none => return none
    | some job => grantLease jobId owner job.fence (max now floor + ttlSeconds)

/-- `claim_job`. -/
def claimJob (scopeId jobId owner : String) (now ttlSeconds : ℤ) : Op (Option Lease) := do
  claimJobFrom (← monotonicFloor) scopeId jobId owner now ttlSeconds

/-- The condition of `finish_outbox`'s update: the lease is the caller's and has not expired. -/
def liveLease (jobId owner : String) (fence now : ℤ) (job : Job) : Bool :=
  job.jobId = jobId ∧ job.leaseOwner = some owner ∧ job.fence = fence ∧
    job.state = .leased ∧ job.leaseUntil.any (now < ·)

/-- `finish_outbox`. -/
def finishOutbox (jobId owner : String) (fence now : ℤ) : Op Unit := do
  let L ← get
  modify fun L => { L with
    outbox := Rows.update (liveLease jobId owner fence now)
      (fun job => { job with state := .completed }) L.outbox }
  raiseIf ((L.outbox.filter (liveLease jobId owner fence now)).length ≠ 1)
    (.cyrano "STALE_LEASE" jobId)

/-- `INSERT OR IGNORE INTO usage_log`. -/
def insertUsage (jobId : String) (units : ℤ) : Op Unit :=
  modify fun L => { L with usageLog := Rows.insertOrIgnore (·.jobId) ⟨jobId, units⟩ L.usageLog }

/-- Set the state of one job. -/
def setJobState (jobId : String) (state : JobState) : Op Unit :=
  modify fun L => { L with
    outbox := Rows.update (fun job => job.jobId = jobId) (fun job => { job with state }) L.outbox }

/-- `submit_result` and `fail_job`: bill the usage, then move the job to `state` for the
holder of its lease. -/
def applyResult (state : JobState) (applied : String) (jobId owner : String) (fence : ℤ)
    (usageUnits : ℤ) : Op String :=
  transaction do
    insertUsage jobId usageUnits
    let L ← get
    match L.job? jobId with
    | none => throw (.cyrano "MISSING_JOB" jobId)
    | some job =>
      if job.fence ≠ fence ∨ job.state ≠ .leased ∨ job.leaseOwner ≠ some owner then
        return "stale"
      setJobState jobId state
      return applied

/-- `submit_result`. -/
def submitResult : String → String → ℤ → ℤ → Op String := applyResult .completed "applied"

/-- `fail_job`. -/
def failJob : String → String → ℤ → ℤ → Op String := applyResult .failed "recorded"

/-- `record_usage`. -/
def recordUsage (jobId : String) (usageUnits : ℤ) : Op Unit :=
  transaction (insertUsage jobId usageUnits)

/-- `cancel_job`. -/
def cancelJob (scopeId jobId : String) : Op Unit :=
  transaction (modify fun L => { L with
    outbox := Rows.update (fun job => job.jobId = jobId ∧ job.scopeId = scopeId)
      (fun job => { job with state := .cancelled }) L.outbox })

/-- `mark_job_unknown`. -/
def markJobUnknown (jobId : String) : Op Unit :=
  transaction (modify fun L => { L with
    outbox := Rows.update (fun job => job.jobId = jobId ∧ job.state = .leased)
      (fun job => { job with state := .unknown }) L.outbox })

/-- `reconcile_unknown`. -/
def reconcileUnknown (jobId disposition : String) : Op String := do
  raiseIf (disposition ∉ ["requeue", "discard", "kept_unknown"])
    (.cyrano "INVALID_DISPOSITION" disposition)
  transaction do
    if disposition = "requeue" then
      modify fun L => { L with
        outbox := Rows.update (fun job => job.jobId = jobId ∧ job.state = .unknown)
          (fun job => { job with state := .pending, leaseOwner := none }) L.outbox }
    else if disposition = "discard" then
      modify fun L => { L with
        outbox := Rows.update (fun job => job.jobId = jobId ∧ job.state = .unknown)
          (fun job => { job with state := .failed }) L.outbox }
    return disposition

/-! ### Audit and deletion -/

/-- `audit`. -/
def audit (streamId detail : String) : Op Unit :=
  transaction (modify fun L => { L with
    auditLog := L.auditLog ++ [⟨L.nextAuditSeq, streamId, detail, "now"⟩]
    nextAuditSeq := L.nextAuditSeq + 1 })

/-- `delete_stream`. -/
def deleteStream (streamId deletedAt : String) : Op Unit :=
  transaction (modify fun L => { L with
    tombstones := Rows.replace (·.streamId) ⟨streamId, deletedAt⟩ L.tombstones
    outbox := Rows.delete
      (fun job => (L.eventsOf streamId).any fun ev => ev.eventId = job.eventId) L.outbox
    events := Rows.delete (fun ev => ev.streamId = streamId) L.events
    streams := Rows.delete (fun row => row.streamId = streamId) L.streams })

end Repository

/-! ### The repository as a machine -/

/-- The transactions of the repository, with their arguments. A claim carries the lease
floor its caller read before. -/
inductive Call
  | registerScope (tenant user workspace : String)
  | createStream (scopeId streamId entityType : String)
  | executeCommand (c : Command)
  | recordObservation (o : Observation)
  | claimOutbox (floor : ℤ) (scopeId owner : String) (now ttlSeconds : ℤ)
  | claimJob (floor : ℤ) (scopeId jobId owner : String) (now ttlSeconds : ℤ)
  | finishOutbox (jobId owner : String) (fence now : ℤ)
  | submitResult (jobId owner : String) (fence usageUnits : ℤ)
  | failJob (jobId owner : String) (fence usageUnits : ℤ)
  | recordUsage (jobId : String) (usageUnits : ℤ)
  | cancelJob (scopeId jobId : String)
  | markJobUnknown (jobId : String)
  | reconcileUnknown (jobId disposition : String)
  | audit (streamId detail : String)
  | deleteStream (streamId deletedAt : String)

/-- What a call returns. -/
inductive Reply
  | done
  | scope (scopeId : String)
  | receipt (r : Receipt)
  | eventSeq (n : ℕ)
  | lease (granted : Option Lease)
  | text (s : String)
  deriving DecidableEq, Repr

/-- The action of a call. -/
def Call.op (P : Primitives) : Call → Op Reply
  | .registerScope tenant user workspace =>
    Reply.scope <$> Repository.registerScope P tenant user workspace
  | .createStream scopeId streamId entityType =>
    (fun _ => Reply.done) <$> Repository.createStream scopeId streamId entityType
  | .executeCommand c => Reply.receipt <$> Repository.executeCommand P c
  | .recordObservation o => Reply.eventSeq <$> Repository.recordObservation P o
  | .claimOutbox floor scopeId owner now ttlSeconds =>
    Reply.lease <$> Repository.claimOutboxFrom floor scopeId owner now ttlSeconds
  | .claimJob floor scopeId jobId owner now ttlSeconds =>
    Reply.lease <$> Repository.claimJobFrom floor scopeId jobId owner now ttlSeconds
  | .finishOutbox jobId owner fence now =>
    (fun _ => Reply.done) <$> Repository.finishOutbox jobId owner fence now
  | .submitResult jobId owner fence usageUnits =>
    Reply.text <$> Repository.submitResult jobId owner fence usageUnits
  | .failJob jobId owner fence usageUnits =>
    Reply.text <$> Repository.failJob jobId owner fence usageUnits
  | .recordUsage jobId usageUnits =>
    (fun _ => Reply.done) <$> Repository.recordUsage jobId usageUnits
  | .cancelJob scopeId jobId => (fun _ => Reply.done) <$> Repository.cancelJob scopeId jobId
  | .markJobUnknown jobId => (fun _ => Reply.done) <$> Repository.markJobUnknown jobId
  | .reconcileUnknown jobId disposition =>
    Reply.text <$> Repository.reconcileUnknown jobId disposition
  | .audit streamId detail => (fun _ => Reply.done) <$> Repository.audit streamId detail
  | .deleteStream streamId deletedAt =>
    (fun _ => Reply.done) <$> Repository.deleteStream streamId deletedAt

/-- Perform a call: its reply or exception, and the ledger it leaves. -/
def Call.act (P : Primitives) (call : Call) (L : Ledger) : Except Failure Reply × Ledger :=
  (call.op P).run L

end CyranoAgent
