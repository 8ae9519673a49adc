import CyranoAgent.Lib.Session
import CyranoAgent.Sqlite.Store
import CyranoAgent.Sqlite.Repository

/-!
# Guarded schema migration

`plan_migration` reads a database and says how it would be migrated; `apply_migration` backs it
up, renames the tables of a foundation database, executes the plan's DDL, copies the foundation
rows, and verifies the outcome. It works on a connection in autocommit mode: what a statement
writes is durable before the next one begins, unless the DDL itself opens a transaction.

A `Database` is what a migration sees: its version, and its tables by name. A `Table` has one of
the layouts of the foundation store or of the target schema, or any other.
-/

namespace CyranoAgent

open Lib Lib.Action

/-! ### Databases -/

/-- A value of a column. -/
inductive SqlValue
  | null
  | integer (n : ℤ)
  | real (bits : BitVec 64)
  | text (s : String)
  | blob (data : ByteArray)

/-- A table, by its layout. The events of the foundation keep their `rowid`. -/
inductive Table
  | foundationStreams (rows : List EventStore.StreamRow)
  | foundationEvents (rows : List (ℤ × EventStore.EventRow))
  | foundationRequests (rows : List EventStore.RequestRow)
  | foundationOutbox (rows : List EventStore.JobRow)
  | scopes (rows : List ScopeRow)
  | streams (rows : List StreamRow)
  | artifacts (rows : List ArtifactRow)
  | events (rows : List Event) (nextEventSeq : ℕ)
  | requests (rows : List RequestRow)
  | outbox (rows : List Job)
  | other (columns : List String) (rows : List (List SqlValue))

/-- The columns of a table. -/
def Table.columns : Table → List String
  | .foundationStreams _ => ["stream", "revision"]
  | .foundationEvents _ => ["stream", "revision", "payload", "payload_digest"]
  | .foundationRequests _ => ["stream", "request_key", "request_digest", "revision"]
  | .foundationOutbox _ =>
    ["job_key", "stream", "revision", "state", "owner", "lease_until", "fence"]
  | .scopes _ => ["scope_id", "tenant", "user_id", "workspace", "acl_revision"]
  | .streams _ => ["stream_id", "scope_id", "revision", "entity_type", "status"]
  | .artifacts _ =>
    ["raw_digest", "scope_id", "relative_blob_path", "media_type", "byte_length", "sensitivity",
      "origin_kind", "sealed"]
  | .events _ _ =>
    ["event_seq", "event_id", "stream_id", "stream_revision", "producer", "producer_seq", "kind",
      "schema_version", "payload_digest", "observed_at", "ingested_at", "observation_kind"]
  | .requests _ =>
    ["scope_id", "actor", "command", "idempotency_key", "request_digest", "response_digest"]
  | .outbox _ =>
    ["job_id", "event_id", "scope_id", "payload_digest", "state", "attempts", "fence",
      "lease_owner", "lease_until", "deadline", "meta_depth"]
  | .other columns _ => columns

/-- A database: `user_version`, the tables by name in the order of their creation, and whether
`integrity_check` finds it in order. -/
structure Database where
  userVersion : ℤ := 0
  tables : List (String × Table) := []
  integrityOk : Bool := true

namespace Database

variable (D : Database)

/-- The table of a name. -/
def table? (name : String) : Option Table :=
  (D.tables.find? fun entry => entry.1 = name).map (·.2)

/-- The database with other rows under a name. -/
def set (name : String) (table : Table) : Database :=
  { D with tables := D.tables.map fun entry => if entry.1 = name then (name, table) else entry }

/-- The names in `sqlite_master`, in order. -/
def tableNames : List String := (D.tables.map (·.1)).mergeSort (· ≤ ·)

end Database

/-- What SQLite raises for a statement it cannot carry out. -/
def Failure.operational (text : String) : Failure := .python "OperationalError" text

/-- What transaction control raises. -/
def sqliteControl : Session.Control Failure where
  nested := .operational "cannot start a transaction within a transaction"
  noCommit := .operational "cannot commit - no transaction is active"
  noRollback := .operational "cannot rollback - no transaction is active"

namespace Migrations

/-- `SUPPORTED_SCHEMA_VERSION`. -/
def supportedSchemaVersion : ℤ := 1

/-- `FOUNDATION_TABLES`. -/
def foundationTables : List String := ["streams", "events", "requests", "outbox"]

/-- `DatabaseInfo`. -/
structure DatabaseInfo where
  userVersion : ℤ
  tables : List String
  integrityOk : Bool

/-- `MigrationPlan`. The DDL is the list of its statements. -/
structure MigrationPlan where
  fromVersion : ℤ
  toVersion : ℤ
  ddl : List (Session.Statement Database Failure)
  fieldMapping : List (String × String)
  requiresBackup : Bool

/-! ### Planning -/

/-- `_is_foundation`. -/
def isFoundation (D : Database) : Bool :=
  (D.table? "streams").any fun table =>
    table.columns.contains "stream" && !table.columns.contains "stream_id"

/-- The mapping of a foundation database. -/
def foundationMapping : List (String × String) :=
  [("streams.stream", "streams.stream_id"), ("streams.revision", "streams.revision"),
    ("events.revision", "events.stream_revision"),
    ("requests.request_key", "requests.idempotency_key"), ("outbox.job_key", "outbox.job_id")]

/-- The text of a refusal of a version. -/
def exceeds (version : ℤ) : String :=
  s!"database version {version} exceeds supported {supportedSchemaVersion}"

/-- `plan_migration`. -/
def planMigration (D : Database) (targetDdl : List (Session.Statement Database Failure)) :
    Except Failure MigrationPlan :=
  if ¬D.integrityOk then .error (.cyrano "CORRUPT_DATABASE" "integrity_check failed")
  else if supportedSchemaVersion < D.userVersion then
    .error (.cyrano "FUTURE_SCHEMA" (exceeds D.userVersion))
  else if ¬(D.userVersion = 0 ∧ isFoundation D) ∧ D.userVersion = 0 ∧ D.tables ≠ [] then
    .error (.cyrano "MIGRATION_MAPPING_REQUIRED" "unversioned layout needs an explicit mapping")
  else .ok
    { fromVersion := D.userVersion
      toVersion := supportedSchemaVersion
      ddl := targetDdl
      fieldMapping := if D.userVersion = 0 ∧ isFoundation D then foundationMapping else []
      requiresBackup := !D.tables.isEmpty }

/-! ### Statements -/

/-- What a statement raises that names a table the database does not have. -/
def noSuchTable (name : String) : Failure := .operational s!"no such table: {name}"

/-- What a statement raises on a table of another layout. -/
def wrongLayout (name : String) : Failure := .operational s!"table {name} has other columns"

/-- Change the rows of a table. -/
def onTable (name : String) (f : Table → Except Failure Table) (D : Database) :
    Except Failure Database :=
  match D.table? name with
  | none => .error (noSuchTable name)
  | some table => (f table).map (D.set name)

/-- `ALTER TABLE … RENAME TO …`. -/
def renameTable (name newName : String) (D : Database) : Except Failure Database :=
  if (D.table? name).isNone then .error (noSuchTable name)
  else if (D.table? newName).isSome then
    .error (.operational s!"there is already another table or index with this name: {newName}")
  else .ok { D with
    tables := D.tables.map fun entry => if entry.1 = name then (newName, entry.2) else entry }

/-- `CREATE TABLE`. -/
def createTable (name : String) (table : Table) (D : Database) : Except Failure Database :=
  if (D.table? name).isSome then .error (.operational s!"table {name} already exists")
  else .ok { D with tables := D.tables ++ [(name, table)] }

/-- `PRAGMA user_version=…`. -/
def setUserVersion (version : ℤ) (D : Database) : Except Failure Database :=
  .ok { D with userVersion := version }

/-- `INSERT OR IGNORE INTO scopes`. -/
def insertScope (row : ScopeRow) : Database → Except Failure Database :=
  onTable "scopes" fun
    | .scopes rows => .ok (.scopes (
        if rows.any fun r => r.scopeId = row.scopeId ∨
            (r.tenant = row.tenant ∧ r.userId = row.userId ∧ r.workspace = row.workspace) then rows
        else rows ++ [row]))
    | _ => .error (wrongLayout "scopes")

/-- The `streams` row of a migrated stream. -/
def migratedStream (scopeId : String) (row : EventStore.StreamRow) : StreamRow :=
  ⟨row.stream, scopeId, row.revision, "migrated", "open"⟩

/-- `INSERT INTO streams … SELECT … FROM foundation_streams`. -/
def copyStreams (scopeId : String) (D : Database) : Except Failure Database :=
  match D.table? "foundation_streams" with
  | some (.foundationStreams rows) =>
    onTable "streams" (fun
      | .streams old =>
        let new := old ++ rows.map (migratedStream scopeId)
        if (new.map (·.streamId)).Nodup then .ok (.streams new)
        else .error (Failure.unique "streams.stream_id")
      | _ => .error (wrongLayout "streams")) D
  | some _ => .error (wrongLayout "foundation_streams")
  | none => .error (noSuchTable "foundation_streams")

/-- `SELECT … FROM foundation_events ORDER BY stream,revision`. -/
def foundationEvents (D : Database) : Except Failure (List (ℤ × EventStore.EventRow)) :=
  match D.table? "foundation_events" with
  | some (.foundationEvents rows) =>
    .ok (rows.mergeSort fun a b => a.2.stream < b.2.stream ∨
      (a.2.stream = b.2.stream ∧ a.2.revision ≤ b.2.revision))
  | some _ => .error (wrongLayout "foundation_events")
  | none => .error (noSuchTable "foundation_events")

/-- `INSERT OR IGNORE INTO artifacts`. -/
def insertArtifact (row : ArtifactRow) : Database → Except Failure Database :=
  onTable "artifacts" fun
    | .artifacts rows => .ok (.artifacts (Rows.insertOrIgnore (·.rawDigest) row rows))
    | _ => .error (wrongLayout "artifacts")

/-- `INSERT INTO events`. The table numbers the row. -/
def insertEvent (row : ℕ → Event) : Database → Except Failure Database :=
  onTable "events" fun
    | .events rows next =>
      let ev := row next
      if rows.any fun r => r.eventId = ev.eventId then .error (Failure.unique "events.event_id")
      else if rows.any fun r => r.streamId = ev.streamId ∧ r.streamRevision = ev.streamRevision then
        .error (Failure.unique "events.stream_id, events.stream_revision")
      else if rows.any fun r => r.producer = ev.producer ∧ r.producerSeq = ev.producerSeq then
        .error (Failure.unique "events.producer, events.producer_seq")
      else .ok (.events (rows ++ [ev]) (next + 1))
    | _ => .error (wrongLayout "events")

/-! ### Applying a plan -/

/-- What a migration does on its connection. -/
abbrev SqlOp (α : Type) := Lib.Action (Session Database Failure) Failure α

/-- The number of characters of a text, from its UTF-8 bytes. -/
def characters (text : ByteArray) : ℕ :=
  text.toList.countP fun byte => byte.toNat / 64 ≠ 2

section

variable (P : Primitives)

/-- The `artifacts` row of a migrated payload. -/
def migratedArtifact (scopeId : String) (rowid : ℤ) (ev : EventStore.EventRow) : ArtifactRow :=
  ⟨ev.payloadDigest, scopeId, s!"migrated/{rowid}", "application/json", characters ev.payload,
    "internal", "migrated", 0⟩

/-- The `events` row of a migrated event. -/
def migratedEvent (eventId : String) (ev : EventStore.EventRow) (index eventSeq : ℕ) : Event :=
  ⟨eventSeq, eventId, ev.stream, ev.revision, "migration", index, "migrated", 1, ev.payloadDigest,
    "migrated", "migrated", "control"⟩

/-- Copy one foundation event. -/
def copyEvent (scopeId : String) (row : (ℤ × EventStore.EventRow) × ℕ) : SqlOp Unit := do
  Session.statement (insertArtifact (migratedArtifact scopeId row.1.1 row.1.2))
  let eventId ← lift (digest P (.dict [(.str "migrated", .int row.1.1),
    (.str "stream", .str row.1.2.stream), (.str "revision", .int row.1.2.revision)]))
  Session.statement (insertEvent (migratedEvent eventId row.1.2 row.2))

/-- `_copy_foundation_rows`. -/
def copyFoundationRows (scopeId : String) : SqlOp Unit := do
  Session.statement (copyStreams scopeId)
  let rows ← Session.select foundationEvents
  let rows ← lift rows
  rows.zipIdx.forM (copyEvent P scopeId)

/-- The renaming of the foundation tables, for a plan that maps them. -/
def renameFoundation (plan : MigrationPlan) : SqlOp Unit :=
  if plan.fieldMapping = [] then pure ()
  else foundationTables.forM fun table =>
    Session.statement (renameTable table s!"foundation_{table}")

/-- The copying of the foundation rows, for a plan that maps them. -/
def copyFoundation (plan : MigrationPlan) : Option (String × String × String) → SqlOp Unit
  | none =>
    if plan.fieldMapping = [] then pure ()
    else throw (.cyrano "MIGRATION_SCOPE_REQUIRED" "scope-less rows need a default scope")
  | some (tenant, user, workspace) =>
    if plan.fieldMapping = [] then pure ()
    else do
      let scopeId ← lift (digest P (.dict [(.str "tenant", .str tenant),
        (.str "user", .str user), (.str "workspace", .str workspace)]))
      Session.statement (insertScope ⟨scopeId, tenant, user, workspace, 0⟩)
      copyFoundationRows P scopeId

/-- The statements of a migration that write. -/
def migrate (plan : MigrationPlan) (scope : Option (String × String × String)) : SqlOp Unit := do
  renameFoundation plan
  Session.script sqliteControl plan.ddl
  copyFoundation P plan scope
  Session.statement (setUserVersion plan.toVersion)

/-- `inspect_database`. -/
def inspectDatabase : SqlOp DatabaseInfo := do
  let userVersion ← Session.select (·.userVersion)
  let tables ← Session.select Database.tableNames
  let integrityOk ← Session.select (·.integrityOk)
  return ⟨userVersion, tables, integrityOk⟩

/-- The verification after the migration. -/
def verify (plan : MigrationPlan) : SqlOp DatabaseInfo := do
  let info ← inspectDatabase
  raiseIf (info.integrityOk = false ∨ info.userVersion ≠ plan.toVersion)
    (.cyrano "MIGRATION_CHECKSUM" "post-migration verify failed")
  return info

/-- The check of the scope, and the backup of a plan that requires one. -/
def prepare (plan : MigrationPlan) (scope : Option (String × String × String)) :
    SqlOp (Option Database) := do
  raiseIf (plan.fieldMapping ≠ [] ∧ scope = none) (.cyrano "MIGRATION_SCOPE_REQUIRED"
    "scope-less foundation rows need an explicit default scope")
  if plan.requiresBackup then some <$> Session.select id else pure none

/-- Copy the backup over the database, on a connection of its own. -/
def recover (backup : Option Database) (fault : Option Failure) : SqlOp Unit :=
  match backup with
  | none => pure ()
  | some B => do
    modify fun s => { s with fault := fault.map fun e => (0, e) }
    Session.statement fun _ => .ok B

/-- The part of `apply_migration` whose failure is recovered from. -/
def attempt (plan : MigrationPlan) (scope : Option (String × String × String)) :
    SqlOp DatabaseInfo := do
  tryCatch (migrate P plan scope) fun e => do
    Session.rollback
    throw e
  verify plan

/-- `apply_migration`. Closing the connection drops the transaction that is open, if there is
one; `recoveryFault` is the failure of the recovery, if it fails as well. -/
def applyMigration (plan : MigrationPlan) (scope : Option (String × String × String))
    (recoveryFault : Option Failure) : SqlOp DatabaseInfo := do
  let backup ← prepare plan scope
  let info ← tryCatch (attempt P plan scope) fun e => do
    Session.rollback
    recover backup recoveryFault
    throw e
  Session.rollback
  return info

/-- The database on a connection whose fault is to come. -/
def connect (D : Database) (fault : Option (ℕ × Failure)) : Session Database Failure :=
  { durable := D, fault }

end

end Migrations

end CyranoAgent
