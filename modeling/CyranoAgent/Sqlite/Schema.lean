import CyranoAgent.Contracts.Canonical
import CyranoAgent.Lib.Action
import CyranoAgent.Lib.Rows

/-!
# The ledger's tables

One structure per table of the target schema and of the repository's extension tables, with
the columns the modelled calls read or write, and `Ledger`, the database they form. Rows are
in insertion order. `nextEventSeq` and `nextAuditSeq` are the `AUTOINCREMENT` counters: an
identifier they have handed out is never handed out again, also after its row is deleted.

Timestamps the code writes as the text `'now'` are kept as that text. A lease's expiry is
stored as text and read back through `CAST(… AS INTEGER)`; the model keeps the integer.
-/

namespace CyranoAgent

/-- A row of `scopes`. -/
structure ScopeRow where
  scopeId : String
  tenant : String
  userId : String
  workspace : String
  aclRevision : ℕ
  deriving DecidableEq, Repr

/-- A row of `streams`. -/
structure StreamRow where
  streamId : String
  scopeId : String
  revision : ℕ
  entityType : String
  status : String
  deriving DecidableEq, Repr

/-- A row of `artifacts`. -/
structure ArtifactRow where
  rawDigest : String
  scopeId : String
  relativeBlobPath : String
  mediaType : String
  byteLength : ℕ
  sensitivity : String
  originKind : String
  isSealed : ℕ
  deriving DecidableEq

/-- A row of `event_blobs`. -/
structure BlobRow where
  rawDigest : String
  scopeId : String
  body : ByteArray
  deriving DecidableEq

/-- A row of `events`. -/
structure Event where
  eventSeq : ℕ
  eventId : String
  streamId : String
  streamRevision : ℕ
  producer : String
  producerSeq : ℤ
  kind : String
  schemaVersion : ℕ
  payloadDigest : String
  observedAt : String
  ingestedAt : String
  observationKind : String
  deriving DecidableEq, Repr

/-- A row of `requests`. -/
structure RequestRow where
  scopeId : String
  actor : String
  command : String
  idempotencyKey : String
  requestDigest : String
  responseDigest : String
  deriving DecidableEq, Repr

/-- The states of an outbox job. -/
inductive JobState
  | pending | leased | completed | failed | cancelled | unknown
  deriving DecidableEq, Repr

/-- The text of a job state in the `state` column. -/
def JobState.text : JobState → String
  | .pending => "pending"
  | .leased => "leased"
  | .completed => "completed"
  | .failed => "failed"
  | .cancelled => "cancelled"
  | .unknown => "unknown"

/-- A row of `outbox`. -/
structure Job where
  jobId : String
  eventId : String
  scopeId : String
  payloadDigest : String
  state : JobState
  attempts : ℕ
  fence : ℤ
  leaseOwner : Option String
  leaseUntil : Option ℤ
  deadline : String
  metaDepth : ℕ
  deriving DecidableEq, Repr

/-- A row of `usage_log`. -/
structure UsageRow where
  jobId : String
  units : ℤ
  deriving DecidableEq, Repr

/-- A row of `audit_log`. -/
structure AuditRow where
  auditSeq : ℕ
  streamId : String
  detail : String
  writtenAt : String
  deriving DecidableEq, Repr

/-- A row of `tombstones`. -/
structure TombstoneRow where
  streamId : String
  deletedAt : String
  deriving DecidableEq, Repr

/-- The states of a task on the team board. -/
inductive TaskState
  | ready | leased | completed | failed | recoveryCheck | cancelled
  deriving DecidableEq, Repr

/-- The text of a task state in the `state` column. -/
def TaskState.text : TaskState → String
  | .ready => "ready"
  | .leased => "leased"
  | .completed => "completed"
  | .failed => "failed"
  | .recoveryCheck => "recovery_check"
  | .cancelled => "cancelled"

/-- A row of `coord_tasks`. The path and dependency lists are stored as JSON arrays. -/
structure TaskRow where
  streamId : String
  taskId : String
  revision : ℤ
  state : TaskState
  workerId : Option String
  fence : ℤ
  writePaths : List String
  dependsOn : List String
  parentTask : Option String
  lastHeartbeat : ℤ
  progressMark : ℤ
  leaseUntil : ℤ
  resultDigest : Option String
  deriving DecidableEq, Repr

/-- The states of a run cancellation. -/
inductive CancellationState
  | cancelling | reconciling | reconciled
  deriving DecidableEq, Repr

/-- The text of a cancellation state in the `state` column. -/
def CancellationState.text : CancellationState → String
  | .cancelling => "cancelling"
  | .reconciling => "reconciling"
  | .reconciled => "reconciled"

/-- A row of `run_cancellations`. -/
structure CancellationRow where
  streamId : String
  generation : ℤ
  state : CancellationState
  writtenAt : String
  deriving DecidableEq, Repr

/-- The database. `leaseFloor` is the `lease_floor` entry of `meta`. -/
structure Ledger where
  scopes : List ScopeRow := []
  streams : List StreamRow := []
  artifacts : List ArtifactRow := []
  eventBlobs : List BlobRow := []
  events : List Event := []
  nextEventSeq : ℕ := 1
  requests : List RequestRow := []
  outbox : List Job := []
  leaseFloor : Option ℤ := none
  usageLog : List UsageRow := []
  auditLog : List AuditRow := []
  nextAuditSeq : ℕ := 1
  tombstones : List TombstoneRow := []
  coordTasks : List TaskRow := []
  runCancellations : List CancellationRow := []
  deriving DecidableEq

/-- A fresh database, as `create` leaves it. -/
def Ledger.empty : Ledger := {}

/-- What a call on the ledger is: reads and writes of its tables, ending in a value or an
exception. -/
abbrev Op (α : Type) := Lib.Action Ledger Failure α

namespace Ledger

variable (L : Ledger)

/-- The row of a stream. -/
def stream? (streamId : String) : Option StreamRow :=
  L.streams.find? fun row => row.streamId = streamId

/-- The events of a stream, in insertion order. -/
def eventsOf (streamId : String) : List Event :=
  L.events.filter fun ev => ev.streamId = streamId

/-- The outbox row of a job. -/
def job? (jobId : String) : Option Job := L.outbox.find? fun job => job.jobId = jobId

/-- The board row of a task. -/
def task? (streamId taskId : String) : Option TaskRow :=
  L.coordTasks.find? fun row => row.streamId = streamId ∧ row.taskId = taskId

/-- The request recorded under a key. -/
def request? (scopeId actor command idempotencyKey : String) : Option RequestRow :=
  L.requests.find? fun row =>
    row.scopeId = scopeId ∧ row.actor = actor ∧ row.command = command ∧
      row.idempotencyKey = idempotencyKey

end Ledger

end CyranoAgent
