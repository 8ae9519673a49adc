import CyranoAgent.Sqlite.Migrations
import CyranoAgent.Sqlite.Documents

/-!
# What a migration carries over

The foundation database of an event store, migrated to the target schema. The streams arrive
with their revisions and the events in order (`carried_over`); the bodies of the events, the
requests and the outbox stay behind in the renamed tables, so that everything is carried over
only from a database that has none of them (`preserved_iff`).
-/

namespace CyranoAgent

open Lib Lib.Action

namespace Migrations

/-! ### The foundation and the target -/

/-- The database of an event store, with the `rowid` of each event. -/
def foundation (S : EventStore.Store) (rowid : ℕ → ℤ) : Database where
  tables :=
    [("streams", .foundationStreams S.streams),
      ("events", .foundationEvents (S.events.zipIdx.map fun entry => (rowid entry.2, entry.1))),
      ("requests", .foundationRequests S.requests), ("outbox", .foundationOutbox S.outbox)]

/-- The tables of the target schema before those that a migration fills. -/
def targetTables : List (String × Table) :=
  [("scopes", .scopes []), ("streams", .streams []), ("artifacts", .artifacts []),
    ("subjects", .other
      ["subject_digest", "schema_type", "projection_version", "scope_id", "raw_digest"] []),
    ("events", .events [] 1),
    ("entity_versions", .other ["stream_id", "version", "subject_digest"] []),
    ("requests", .requests []), ("outbox", .outbox []),
    ("dependency_edges", .other ["source_subject", "dependent_subject", "relation"] []),
    ("approvals", .other
      ["approval_id", "subject_digest", "scope_id", "purpose", "issuer", "audience", "nonce",
        "issued_at", "expires_at", "signature_ref", "revoked_revision",
        "source_user_event_id"] []),
    ("releases", .other
      ["release_digest", "parent_digest", "approval_id", "status", "minimum_schema_version"] []),
    ("active_releases", .other ["scope_id", "release_digest", "revision"] []),
    ("runs", .other
      ["run_id", "scope_id", "release_digest", "snapshot_digest", "runtime_digest", "status",
        "context_epoch"] []),
    ("attempts", .other
      ["attempt_id", "run_id", "parent_attempt", "input_signature", "input_snapshot",
        "output_snapshot", "execution_status", "correctness_status", "acceptance_status",
        "external_request_id", "receipt_digest"] []),
    ("experiments", .other
      ["experiment_id", "plan_subject", "permit_id", "planned_pairs", "candidate_subject",
        "state"] []),
    ("experiment_pairs", .other
      ["experiment_id", "pair_id", "family_id", "split", "baseline_attempt", "candidate_attempt",
        "status", "exclusion_reason"] []),
    ("memories", .other
      ["memory_id", "version", "scope_id", "subject_digest", "status", "valid_from",
        "valid_until", "title"] []),
    ("memory_fts", .other ["memory_id", "scope_id", "title", "content"] [])]

/-- `target-schema.sql`: the tables, the full-text table, four indexes and the version. -/
def targetDdl : List (Database → Except Failure Database) :=
  .ok :: (targetTables.map fun entry => createTable entry.1 entry.2) ++
    [.ok, .ok, .ok, .ok, setUserVersion 1]

/-- The plan for a foundation database. -/
def foundationPlan : MigrationPlan where
  fromVersion := 0
  toVersion := 1
  ddl := targetDdl.map .write
  fieldMapping := foundationMapping
  requiresBackup := true

theorem planMigration_foundation (S : EventStore.Store) (rowid : ℕ → ℤ) :
    planMigration (foundation S rowid) (targetDdl.map .write) = .ok foundationPlan := rfl

/-- The foundation tables under their new names. -/
def renamed (S : EventStore.Store) (rowid : ℕ → ℤ) : List (String × Table) :=
  (foundation S rowid).tables.map fun entry => ("foundation_" ++ entry.1, entry.2)

/-- A migrated database, by the rows of the tables that the migration fills. -/
def migrated (S : EventStore.Store) (rowid : ℕ → ℤ) (scopes : List ScopeRow)
    (streams : List StreamRow) (artifacts : List ArtifactRow) (events : List Event)
    (nextEventSeq : ℕ) : Database where
  userVersion := 1
  tables := renamed S rowid ++ targetTables.map fun entry =>
    (entry.1, match entry.2 with
      | .scopes _ => .scopes scopes
      | .streams _ => .streams streams
      | .artifacts _ => .artifacts artifacts
      | .events _ _ => .events events nextEventSeq
      | table => table)

theorem renameTable_foundation (S : EventStore.Store) (rowid : ℕ → ℤ) :
    (foundationTables.map fun table => renameTable table ("foundation_" ++ table)).foldlM
        (fun d f => f d) (foundation S rowid) =
      .ok { foundation S rowid with tables := renamed S rowid } := rfl

theorem Database.table?_eq_none {D : Database} {name : String} :
    D.table? name = none ↔ name ∉ D.tables.map (·.1) := by
  rw [Database.table?, Option.map_eq_none_iff, List.find?_eq_none]
  simp only [decide_eq_true_eq, List.mem_map, not_exists, not_and]

/-- Tables of fresh names are created one after the other. -/
theorem createTables {D : Database} {entries : List (String × Table)}
    (hnames : ((D.tables ++ entries).map (·.1)).Nodup) :
    (entries.map fun entry => createTable entry.1 entry.2).foldlM (fun d f => f d) D =
      .ok { D with tables := D.tables ++ entries } := by
  induction entries generalizing D with
  | nil => rw [List.append_nil]; rfl
  | cons entry rest ih =>
    have hfresh : D.table? entry.1 = none := by
      rw [Database.table?_eq_none]
      intro hmem
      rw [List.map_append, List.nodup_append] at hnames
      exact hnames.2.2 _ hmem entry.1 (by simp) rfl
    have hcreate : createTable entry.1 entry.2 D =
        .ok { D with tables := D.tables ++ [entry] } := by
      rw [createTable, hfresh]
      rfl
    rw [List.map_cons, List.foldlM_cons, hcreate]
    have happend : (D.tables ++ [entry]) ++ rest = D.tables ++ entry :: rest := by simp
    have hrest := ih (D := { D with tables := D.tables ++ [entry] }) (by rwa [happend])
    rw [happend] at hrest
    exact hrest

theorem nodup_names (S : EventStore.Store) (rowid : ℕ → ℤ) :
    ((renamed S rowid ++ targetTables).map (·.1)).Nodup := by
  have hnames : (renamed S rowid ++ targetTables).map (·.1) =
      (renamed {} 0 ++ targetTables).map (·.1) := rfl
  rw [hnames]
  decide

/-- The target tables are empty at first. -/
theorem migrated_nil (S : EventStore.Store) (rowid : ℕ → ℤ) :
    migrated S rowid [] [] [] [] 1 =
      { userVersion := 1, tables := renamed S rowid ++ targetTables } := rfl

theorem targetDdl_renamed (S : EventStore.Store) (rowid : ℕ → ℤ) :
    targetDdl.foldlM (fun d f => f d) { foundation S rowid with tables := renamed S rowid } =
      .ok (migrated S rowid [] [] [] [] 1) := by
  have hcreate := createTables (D := { foundation S rowid with tables := renamed S rowid })
    (nodup_names S rowid)
  have hthen (D : Database) (fs : List (Database → Except Failure Database)) :
      (Except.ok D >>= fun d => fs.foldlM (fun d f => f d) d) = fs.foldlM (fun d f => f d) D := rfl
  rw [targetDdl, List.cons_append, List.foldlM_cons, hthen, List.foldlM_append, hcreate, hthen,
    migrated_nil]
  rfl

variable {P : Primitives} {S : EventStore.Store} {rowid : ℕ → ℤ} {scopes : List ScopeRow}
  {streams : List StreamRow} {artifacts : List ArtifactRow} {events : List Event}
  {nextEventSeq : ℕ}

/-- A statement on a table that goes through. -/
theorem onTable_eq_ok {name : String} {f : Table → Except Failure Table} {D D' : Database}
    (h : onTable name f D = .ok D') :
    ∃ table table', D.table? name = some table ∧ f table = .ok table' ∧ D' = D.set name table' := by
  rw [onTable] at h
  split at h
  · cases h
  · next table htable =>
    rcases hf : f table with e | table'
    · rw [hf] at h
      cases h
    · rw [hf] at h
      exact ⟨table, table', htable, hf, (Except.ok.inj h).symm⟩

theorem insertScope_migrated (row : ScopeRow) :
    insertScope row (migrated S rowid [] streams artifacts events nextEventSeq) =
      .ok (migrated S rowid [row] streams artifacts events nextEventSeq) := rfl

/-- The streams arrive with their revisions, each once. -/
theorem copyStreams_migrated {scopeId : String} {D' : Database}
    (h : copyStreams scopeId (migrated S rowid scopes [] artifacts events nextEventSeq) = .ok D') :
    (S.streams.map (·.stream)).Nodup ∧
      D' = migrated S rowid scopes (S.streams.map (migratedStream scopeId)) artifacts events
        nextEventSeq := by
  have hsource : (migrated S rowid scopes [] artifacts events nextEventSeq).table?
      "foundation_streams" = some (.foundationStreams S.streams) := rfl
  rw [copyStreams, hsource] at h
  obtain ⟨table, table', htable, hf, rfl⟩ := onTable_eq_ok h
  obtain rfl : Table.streams [] = table := Option.some.inj htable
  simp only [List.nil_append] at hf
  split at hf
  · next hnodup =>
    obtain rfl := Except.ok.inj hf
    refine ⟨?_, rfl⟩
    rw [List.map_map] at hnodup
    exact hnodup
  · cases hf

theorem insertArtifact_migrated (row : ArtifactRow) :
    insertArtifact row (migrated S rowid scopes streams artifacts events nextEventSeq) =
      .ok (migrated S rowid scopes streams (Rows.insertOrIgnore (·.rawDigest) row artifacts) events
        nextEventSeq) := rfl

theorem insertEvent_migrated {row : ℕ → Event} {D' : Database}
    (h : insertEvent row (migrated S rowid scopes streams artifacts events nextEventSeq) =
      .ok D') :
    D' = migrated S rowid scopes streams artifacts (events ++ [row nextEventSeq])
      (nextEventSeq + 1) := by
  obtain ⟨table, table', htable, hf, rfl⟩ := onTable_eq_ok h
  obtain rfl : Table.events events nextEventSeq = table := Option.some.inj htable
  dsimp only at hf
  split_ifs at hf
  obtain rfl := Except.ok.inj hf
  rfl

/-- A target event is the copy of a foundation event. -/
def CopyOf (source : EventStore.EventRow) (ev : Event) : Prop :=
  ev.streamId = source.stream ∧ ev.streamRevision = source.revision ∧
    ev.payloadDigest = source.payloadDigest

/-- The events are copied in the order in which they are read. -/
theorem copyEvents_migrated {scopeId : String} {u : Unit} {s s' : Session Database Failure}
    {rows : List ((ℤ × EventStore.EventRow) × ℕ)}
    (hs : s.view = migrated S rowid scopes streams artifacts events nextEventSeq)
    (h : (rows.forM (copyEvent P scopeId)).run s = (.ok u, s')) :
    ∃ artifacts' new next', List.Forall₂ CopyOf (rows.map (·.1.2)) new ∧
      s.Wrote (migrated S rowid scopes streams artifacts' (events ++ new) next') s' := by
  induction rows generalizing s artifacts events nextEventSeq with
  | nil =>
    obtain rfl : s = s' := (Prod.mk.inj h).2
    refine ⟨artifacts, [], nextEventSeq, .nil, ?_⟩
    rw [List.append_nil, ← hs]
    exact Session.wrote_view
  | cons row rows ih =>
    obtain ⟨_, s₂, hcopy, hrest⟩ := bind_eq_ok.mp h
    rw [copyEvent] at hcopy
    obtain ⟨_, s₁, hartifact, hcopy⟩ := bind_eq_ok.mp hcopy
    obtain ⟨eventId, _, hid, hevent⟩ := bind_eq_ok.mp hcopy
    obtain ⟨-, rfl⟩ := lift_eq_ok.mp hid
    obtain ⟨d₁, hd₁, hwrote₁⟩ := Session.statement_eq_ok hartifact
    rw [hs, insertArtifact_migrated] at hd₁
    obtain rfl := Except.ok.inj hd₁
    obtain ⟨d₂, hd₂, hwrote₂⟩ := Session.statement_eq_ok hevent
    rw [hwrote₁.view] at hd₂
    obtain rfl := insertEvent_migrated hd₂
    obtain ⟨artifacts', new, next', hnew, hwrote⟩ := ih hwrote₂.view hrest
    have hcopyOf : CopyOf row.1.2 (migratedEvent eventId row.1.2 row.2 nextEventSeq) :=
      ⟨rfl, rfl, rfl⟩
    refine ⟨artifacts', _ :: new, next', .cons hcopyOf hnew, ?_⟩
    rw [List.append_assoc] at hwrote
    exact (hwrote₁.trans hwrote₂).trans hwrote

/-! ### A migration that returns -/

theorem wrote_prepare {plan : MigrationPlan} {scope : Option (String × String × String)}
    {backup : Option Database} {s s' : Session Database Failure}
    (h : (prepare plan scope).run s = (.ok backup, s')) : s.Wrote s.view s' := by
  obtain ⟨_, _, hcheck, hbackup⟩ := bind_eq_ok.mp h
  obtain ⟨-, rfl⟩ := raiseIf_eq_ok.mp hcheck
  rcases ite_eq_ok.mp hbackup with ⟨-, hselect⟩ | ⟨-, hnone⟩
  · obtain ⟨B, hselect, -⟩ := map_eq_ok.mp hselect
    exact (Session.select_eq_ok hselect).2
  · obtain rfl := (Prod.mk.inj hnone).2
    exact Session.wrote_view

theorem wrote_verify {plan : MigrationPlan} {info : DatabaseInfo} {s s' : Session Database Failure}
    (h : (verify plan).run s = (.ok info, s')) : s.Wrote s.view s' := by
  simp only [verify, inspectDatabase, bind_eq_ok, raiseIf_eq_ok, run_pure, Prod.mk.injEq,
    Except.ok.injEq] at h
  obtain ⟨_, _, ⟨_, s₁, hversion, _, s₂, htables, _, s₃, hintegrity, rfl, rfl⟩, _, _, ⟨-, rfl⟩,
    -, rfl⟩ := h
  have hfirst := (Session.select_eq_ok hversion).2
  have hsecond := (Session.select_eq_ok htables).2
  have hthird := (Session.select_eq_ok hintegrity).2
  rw [hfirst.view] at hsecond
  rw [hsecond.view] at hthird
  exact (hfirst.trans hsecond).trans hthird

/-- The foundation events in the order in which they are copied. -/
def inOrder (S : EventStore.Store) (rowid : ℕ → ℤ) : List (ℤ × EventStore.EventRow) :=
  (S.events.zipIdx.map fun entry => (rowid entry.2, entry.1)).mergeSort fun a b =>
    a.2.stream < b.2.stream ∨ (a.2.stream = b.2.stream ∧ a.2.revision ≤ b.2.revision)

/-- The copying into empty target tables. -/
theorem copyFoundation_eq_ok {scope : Option (String × String × String)} {u : Unit}
    {s s' : Session Database Failure} (hs : s.view = migrated S rowid [] [] [] [] 1)
    (h : (copyFoundation P foundationPlan scope).run s = (.ok u, s')) :
    ∃ scopeId scopes artifacts events nextEventSeq, (S.streams.map (·.stream)).Nodup ∧
      List.Forall₂ CopyOf ((inOrder S rowid).map (·.2)) events ∧
      s.Wrote (migrated S rowid scopes (S.streams.map (migratedStream scopeId)) artifacts events
        nextEventSeq) s' := by
  rcases scope with _ | ⟨tenant, user, workspace⟩
  · cases (Prod.mk.inj h).1
  obtain ⟨scopeId, _, hid, h⟩ := bind_eq_ok.mp h
  obtain ⟨-, rfl⟩ := lift_eq_ok.mp hid
  obtain ⟨_, s₁, hscope, h⟩ := bind_eq_ok.mp h
  obtain ⟨_, s₂, hstreams, h⟩ := bind_eq_ok.mp h
  obtain ⟨_, s₃, hselect, h⟩ := bind_eq_ok.mp h
  obtain ⟨rows, _, hrows, hevents⟩ := bind_eq_ok.mp h
  obtain ⟨rfl, rfl⟩ := lift_eq_ok.mp hrows
  obtain ⟨d₁, hd₁, hwrote₁⟩ := Session.statement_eq_ok hscope
  rw [hs, insertScope_migrated] at hd₁
  obtain rfl := Except.ok.inj hd₁
  obtain ⟨d₂, hd₂, hwrote₂⟩ := Session.statement_eq_ok hstreams
  rw [hwrote₁.view] at hd₂
  obtain ⟨hnodup, rfl⟩ := copyStreams_migrated hd₂
  obtain ⟨hread, hwrote₃⟩ := Session.select_eq_ok hselect
  rw [hwrote₂.view] at hread hwrote₃
  obtain rfl : inOrder S rowid = rows := (Except.ok.inj hread).symm
  obtain ⟨artifacts, new, next, hnew, hwrote₄⟩ := copyEvents_migrated hwrote₃.view hevents
  refine ⟨scopeId, _, artifacts, new, next, hnodup, ?_,
    ((hwrote₁.trans hwrote₂).trans hwrote₃).trans hwrote₄⟩
  have hzip : ((inOrder S rowid).zipIdx.map (·.1.2)) = (inOrder S rowid).map (·.2) := by
    rw [← List.zipIdx_map_fst 0 (inOrder S rowid), List.map_map]
    simp
  rwa [hzip] at hnew

/-- The statements of a migration of a foundation database, when they all go through. -/
theorem migrate_eq_ok {scope : Option (String × String × String)} {u : Unit}
    {s s' : Session Database Failure} (hs : s.view = foundation S rowid)
    (h : (migrate P foundationPlan scope).run s = (.ok u, s')) :
    ∃ scopeId scopes artifacts events nextEventSeq, (S.streams.map (·.stream)).Nodup ∧
      List.Forall₂ CopyOf ((inOrder S rowid).map (·.2)) events ∧
      s.Wrote (migrated S rowid scopes (S.streams.map (migratedStream scopeId)) artifacts events
        nextEventSeq) s' := by
  obtain ⟨_, s₁, hrename, h⟩ := bind_eq_ok.mp h
  obtain ⟨_, s₂, hddl, h⟩ := bind_eq_ok.mp h
  obtain ⟨_, s₃, hcopy, hversion⟩ := bind_eq_ok.mp h
  have hscript : renameFoundation foundationPlan = Session.script sqliteControl
      ((foundationTables.map fun table => renameTable table ("foundation_" ++ table)).map
        .write) := rfl
  rw [hscript] at hrename
  obtain ⟨d₁, hd₁, hwrote₁⟩ := Session.script_eq_ok hrename
  rw [hs, renameTable_foundation] at hd₁
  obtain rfl := Except.ok.inj hd₁
  obtain ⟨d₂, hd₂, hwrote₂⟩ := Session.script_eq_ok hddl
  rw [hwrote₁.view, targetDdl_renamed] at hd₂
  obtain rfl := Except.ok.inj hd₂
  obtain ⟨scopeId, scopes, artifacts, events, nextEventSeq, hnodup, hevents, hwrote₃⟩ :=
    copyFoundation_eq_ok hwrote₂.view hcopy
  obtain ⟨d₄, hd₄, hwrote₄⟩ := Session.statement_eq_ok hversion
  rw [hwrote₃.view] at hd₄
  obtain rfl := Except.ok.inj hd₄
  exact ⟨scopeId, scopes, artifacts, events, nextEventSeq, hnodup, hevents,
    ((hwrote₁.trans hwrote₂).trans hwrote₃).trans hwrote₄⟩

/-- The recovery ends in the exception that it recovers from, or in its own. -/
theorem raises_recover {backup : Option Database} {recoveryFault : Option Failure} {e : Failure}
    {t : Session Database Failure} :
    ∃ e', ((do
      Session.rollback
      recover backup recoveryFault
      throw e : SqlOp DatabaseInfo).run t).1 = .error e' := by
  have hclose : (Session.rollback : SqlOp Unit).run t = (.ok (), { t with pending := none }) := rfl
  rw [run_bind_ok hclose]
  rcases hrecover : (recover backup recoveryFault).run { t with pending := none } with ⟨e' | u, t'⟩
  · exact ⟨e', by rw [run_bind_error hrecover]⟩
  · exact ⟨e, by rw [run_bind_ok hrecover, run_throw]⟩

/-- **What a migration that returns leaves.** -/
theorem applyMigration_eq_ok {scope : Option (String × String × String)}
    {recoveryFault : Option Failure} {fault : Option (ℕ × Failure)} {info : DatabaseInfo}
    {s : Session Database Failure}
    (h : (applyMigration P foundationPlan scope recoveryFault).run
      (connect (foundation S rowid) fault) = (.ok info, s)) :
    ∃ scopeId scopes artifacts events nextEventSeq, (S.streams.map (·.stream)).Nodup ∧
      List.Forall₂ CopyOf ((inOrder S rowid).map (·.2)) events ∧
      s.durable = migrated S rowid scopes (S.streams.map (migratedStream scopeId)) artifacts
        events nextEventSeq := by
  obtain ⟨backup, s₁, hprepare, h⟩ := bind_eq_ok.mp h
  have hwrote₁ := wrote_prepare hprepare
  obtain ⟨info', s₂, hattempt, hclose⟩ := bind_eq_ok.mp h
  obtain ⟨hinfo, hdurable⟩ : info' = info ∧ s.durable = s₂.durable := by
    obtain ⟨hreply, rfl⟩ := Prod.mk.inj hclose
    exact ⟨Except.ok.inj hreply, rfl⟩
  -- what the handlers catch is raised again
  have hattempt := eq_ok_of_reraise (fun e t => raises_recover) hattempt
  obtain ⟨_, s₃, hmigrate, hverify⟩ := bind_eq_ok.mp hattempt
  have hmigrate := eq_ok_of_reraise (fun e t => ⟨e, rfl⟩) hmigrate
  obtain ⟨scopeId, scopes, artifacts, events, nextEventSeq, hnodup, hevents, hwrote₂⟩ :=
    migrate_eq_ok hwrote₁.view hmigrate
  have hwrote₃ := wrote_verify hverify
  rw [hwrote₂.view] at hwrote₃
  refine ⟨scopeId, scopes, artifacts, events, nextEventSeq, hnodup, hevents, ?_⟩
  rw [hdurable]
  exact ((hwrote₁.trans hwrote₂).trans hwrote₃).durable rfl

/-! ### Reading the target -/

/-- The ledger that `open` finds: the extension tables are created empty. -/
def ledger (D : Database) : Ledger where
  scopes := match D.table? "scopes" with
    | some (.scopes rows) => rows
    | _ => []
  streams := match D.table? "streams" with
    | some (.streams rows) => rows
    | _ => []
  artifacts := match D.table? "artifacts" with
    | some (.artifacts rows) => rows
    | _ => []
  events := match D.table? "events" with
    | some (.events rows _) => rows
    | _ => []
  nextEventSeq := match D.table? "events" with
    | some (.events _ nextEventSeq) => nextEventSeq
    | _ => 1
  requests := match D.table? "requests" with
    | some (.requests rows) => rows
    | _ => []
  outbox := match D.table? "outbox" with
    | some (.outbox rows) => rows
    | _ => []

/-- The target state of a foundation job. -/
def targetState : EventStore.JobState → JobState
  | .pending => .pending
  | .leased => .leased
  | .done => .completed

/-- Everything of the store is in the ledger: the streams with their revisions, the events in
order and with a body that a scope can read, the requests, and the jobs with their state, fence
and lease. -/
structure Preserved (S : EventStore.Store) (L : Ledger) : Prop where
  streams : ∀ row ∈ S.streams, ∃ target, L.stream? row.stream = some target ∧
    target.revision = row.revision
  events : ∀ source ∈ S.events, ∃ ev ∈ L.events, CopyOf source ev ∧
    ∃ scopeId, Repository.readArtifact L scopeId ev.payloadDigest = some source.payload
  order : ∀ stream, ((L.eventsOf stream).map (·.streamRevision)).Pairwise (· ≤ ·)
  requests : ∀ row ∈ S.requests, ∃ target ∈ L.requests,
    target.idempotencyKey = row.requestKey ∧ target.requestDigest = row.requestDigest
  outbox : ∀ row ∈ S.outbox, ∃ job ∈ L.outbox, job.jobId = row.jobKey ∧
    job.state = targetState row.state ∧ job.fence = row.fence ∧ job.leaseOwner = row.owner ∧
      job.leaseUntil.getD 0 = row.leaseUntil

/-- Every event has its copy. -/
theorem exists_copyOf {sources : List EventStore.EventRow} {events : List Event}
    (h : List.Forall₂ CopyOf sources events) {source : EventStore.EventRow}
    (hsource : source ∈ sources) : ∃ ev ∈ events, CopyOf source ev := by
  induction h with
  | nil => cases hsource
  | @cons source' ev sources events hcopy _ ih =>
    rcases List.mem_cons.mp hsource with rfl | hrest
    · exact ⟨ev, List.mem_cons_self, hcopy⟩
    · obtain ⟨ev', hev', hcopy'⟩ := ih hrest
      exact ⟨ev', List.mem_cons_of_mem _ hev', hcopy'⟩

/-- Copies of events in order are in order. -/
theorem order_of_copies {sources : List EventStore.EventRow} {events : List Event}
    (h : List.Forall₂ CopyOf sources events)
    (hsorted : sources.Pairwise fun a b => a.stream = b.stream → a.revision ≤ b.revision) :
    events.Pairwise fun a b => a.streamId = b.streamId → a.streamRevision ≤ b.streamRevision := by
  have hkeys : events.map (fun ev => (ev.streamId, ev.streamRevision)) =
      sources.map fun source => (source.stream, source.revision) := by
    clear hsorted
    induction h with
    | nil => rfl
    | cons hcopy _ ih => rw [List.map_cons, List.map_cons, ih, hcopy.1, hcopy.2.1]
  have hpairs : (events.map fun ev => (ev.streamId, ev.streamRevision)).Pairwise
      fun a b => a.1 = b.1 → a.2 ≤ b.2 := by
    rw [hkeys, List.pairwise_map]
    exact hsorted
  rwa [List.pairwise_map] at hpairs

/-- The events of a stream are copied by revision. -/
theorem pairwise_inOrder (S : EventStore.Store) (rowid : ℕ → ℤ) :
    ((inOrder S rowid).map (·.2)).Pairwise
      fun a b => a.stream = b.stream → a.revision ≤ b.revision := by
  have hsorted : (inOrder S rowid).Pairwise _ := List.pairwise_mergeSort ?_ ?_ _
  · rw [List.pairwise_map]
    refine hsorted.imp fun {a b} hle heq => ?_
    rcases of_decide_eq_true hle with hlt | ⟨-, hrev⟩
    · rw [heq] at hlt
      exact absurd hlt (String.lt_irrefl _)
    · exact hrev
  · intro a b c hab hbc
    have hfirst := of_decide_eq_true hab
    have hsecond := of_decide_eq_true hbc
    refine decide_eq_true ?_
    rcases hfirst with hlt | ⟨heq, hle⟩
    · rcases hsecond with hlt' | ⟨heq', -⟩
      · exact .inl (String.lt_trans hlt hlt')
      · exact .inl (heq' ▸ hlt)
    · rcases hsecond with hlt' | ⟨heq', hle'⟩
      · exact .inl (heq ▸ hlt')
      · exact .inr ⟨heq.trans heq', hle.trans hle'⟩
  · intro a b
    by_cases hlt : a.2.stream < b.2.stream
    · simp [hlt]
    by_cases hgt : b.2.stream < a.2.stream
    · simp [hgt]
    have heq : a.2.stream = b.2.stream :=
      String.le_antisymm (String.not_lt.mp hgt) (String.not_lt.mp hlt)
    have htotal : a.2.revision ≤ b.2.revision ∨ b.2.revision ≤ a.2.revision := Nat.le_total _ _
    simpa [heq] using htotal

/-- **What the migration carries over**: the streams with their revisions, and the events in
order, without their bodies; no request and no job. -/
theorem carried_over {scopeId : String} {scopes : List ScopeRow} {artifacts : List ArtifactRow}
    {events : List Event} {nextEventSeq : ℕ} {L : Ledger}
    (hL : L = ledger (migrated S rowid scopes (S.streams.map (migratedStream scopeId)) artifacts
      events nextEventSeq))
    (hnodup : (S.streams.map (·.stream)).Nodup)
    (hevents : List.Forall₂ CopyOf ((inOrder S rowid).map (·.2)) events) :
    (∀ row ∈ S.streams, ∃ target, L.stream? row.stream = some target ∧
        target.revision = row.revision) ∧
      (∀ source ∈ S.events, ∃ ev ∈ L.events, CopyOf source ev) ∧
      (∀ stream, ((L.eventsOf stream).map (·.streamRevision)).Pairwise (· ≤ ·)) ∧
      L.eventBlobs = [] ∧ L.requests = [] ∧ L.outbox = [] := by
  have hstreams : L.streams = S.streams.map (migratedStream scopeId) := by rw [hL]; rfl
  have hsame : L.events = events := by rw [hL]; rfl
  have hrest : L.eventBlobs = [] ∧ L.requests = [] ∧ L.outbox = [] := by
    rw [hL]
    exact ⟨rfl, rfl, rfl⟩
  refine ⟨fun row hrow => ?_, fun source hsource => ?_, fun stream => ?_, hrest⟩
  · refine ⟨migratedStream scopeId row, ?_, rfl⟩
    have hkeys : (L.streams.map (·.streamId)).Nodup := by
      rw [hstreams, List.map_map]
      exact hnodup
    have hmem : migratedStream scopeId row ∈ L.streams := by
      rw [hstreams]
      exact List.mem_map_of_mem hrow
    exact Rows.find?_key hkeys hmem
  · have hmem : source ∈ (inOrder S rowid).map (·.2) := by
      rw [← List.zipIdx_map_fst 0 S.events] at hsource
      obtain ⟨⟨_, i⟩, hi, rfl⟩ := List.mem_map.mp hsource
      exact List.mem_map.mpr ⟨_, List.mem_mergeSort.mpr (List.mem_map_of_mem hi), rfl⟩
    rw [hsame]
    exact exists_copyOf hevents hmem
  · have hsorted := order_of_copies hevents (pairwise_inOrder S rowid)
    rw [Ledger.eventsOf, hsame, List.pairwise_map, List.pairwise_filter]
    refine hsorted.imp fun hle hleft hright => hle ?_
    rw [of_decide_eq_true hleft, of_decide_eq_true hright]

/-- **When everything is carried over**: from a foundation database that holds no event, no
request and no job. -/
theorem preserved_iff {plan : MigrationPlan} {scope : Option (String × String × String)}
    {recoveryFault : Option Failure} {fault : Option (ℕ × Failure)} {info : DatabaseInfo}
    {s : Session Database Failure}
    (hplan : planMigration (foundation S rowid) (targetDdl.map .write) = .ok plan)
    (hrun : (applyMigration P plan scope recoveryFault).run (connect (foundation S rowid) fault) =
      (.ok info, s)) :
    Preserved S (ledger s.durable) ↔ S.events = [] ∧ S.requests = [] ∧ S.outbox = [] := by
  obtain rfl : foundationPlan = plan := Except.ok.inj hplan
  obtain ⟨scopeId, scopes, artifacts, events, nextEventSeq, hnodup, hevents, hdurable⟩ :=
    applyMigration_eq_ok hrun
  obtain ⟨hstreams, -, horder, hblobs, hrequests, houtbox⟩ :=
    carried_over (congrArg ledger hdurable) hnodup hevents
  constructor
  · intro hkept
    refine ⟨List.eq_nil_iff_forall_not_mem.mpr fun source hsource => ?_,
      List.eq_nil_iff_forall_not_mem.mpr fun row hrow => ?_,
      List.eq_nil_iff_forall_not_mem.mpr fun row hrow => ?_⟩
    · obtain ⟨ev, -, -, scope, hbody⟩ := hkept.events source hsource
      rw [Repository.readArtifact, hblobs] at hbody
      cases hbody
    · obtain ⟨target, htarget, -⟩ := hkept.requests row hrow
      rw [hrequests] at htarget
      cases htarget
    · obtain ⟨job, hjob, -⟩ := hkept.outbox row hrow
      rw [houtbox] at hjob
      cases hjob
  · rintro ⟨hnoEvent, hnoRequest, hnoJob⟩
    exact ⟨hstreams, by simp [hnoEvent], horder, by simp [hnoRequest], by simp [hnoJob]⟩

/-- The scope of the migrated rows. -/
def acmeDefault : Option (String × String × String) := some ("acme", "ada", "lab")

/-- Of a store that holds streams only, everything is carried over. -/
theorem preserved_iff_streams :
    ∃ info s, (applyMigration .ascii foundationPlan acmeDefault none).run
        (connect (foundation { streams := [⟨"s", 3⟩] } fun i => i + 1) none) = (.ok info, s) ∧
      Preserved { streams := [⟨"s", 3⟩] } (ledger s.durable) := by
  rcases hrun : (applyMigration .ascii foundationPlan acmeDefault none).run
    (connect (foundation { streams := [⟨"s", 3⟩] } fun i => i + 1) none) with ⟨e | info, s⟩
  · have hok : ((applyMigration .ascii foundationPlan acmeDefault none).run
        (connect (foundation { streams := [⟨"s", 3⟩] } fun i => i + 1) none)).1.toBool = true := by
      decide +kernel
    rw [hrun] at hok
    cases hok
  · exact ⟨info, s, rfl, (preserved_iff (planMigration_foundation _ _) hrun).mpr ⟨rfl, rfl, rfl⟩⟩

/-- A command of an old client. -/
def oldCommand : EventStore.Append where
  stream := "s"
  expectedRevision := 0
  key := "k"
  payload := []
  enqueue := true

/-- A store with one event. -/
def oneAppend : EventStore.Store := ((EventStore.Call.append oldCommand).act .ascii {}).2

/-- **A migration leaves the request and the body of an event behind.** -/
theorem migration_loses_request :
    ¬∀ (P : Primitives) (S : EventStore.Store) (rowid : ℕ → ℤ) (plan : MigrationPlan)
      (scope : Option (String × String × String)) (info : DatabaseInfo)
      (s : Session Database Failure),
      planMigration (foundation S rowid) (targetDdl.map .write) = .ok plan →
      (applyMigration P plan scope none).run (connect (foundation S rowid) none) = (.ok info, s) →
      Preserved S (ledger s.durable) := by
  intro hclaim
  rcases hrun : (applyMigration .ascii foundationPlan acmeDefault none).run
    (connect (foundation oneAppend fun i => i + 1) none) with ⟨e | info, s⟩
  · have hok : ((applyMigration .ascii foundationPlan acmeDefault none).run
        (connect (foundation oneAppend fun i => i + 1) none)).1.toBool = true := by
      decide +kernel
    rw [hrun] at hok
    cases hok
  · have hkept := hclaim .ascii oneAppend _ foundationPlan acmeDefault info s
      (planMigration_foundation _ _) hrun
    obtain ⟨_, _, _, _, _, hnodup, hevents, hdurable⟩ := applyMigration_eq_ok hrun
    obtain ⟨-, -, -, -, hrequests, -⟩ := carried_over (congrArg ledger hdurable) hnodup hevents
    have hrequest : oneAppend.requests.length = 1 := by decide
    obtain ⟨row, hrow⟩ := List.exists_mem_of_length_pos (hrequest ▸ Nat.one_pos)
    obtain ⟨target, htarget, -⟩ := hkept.requests row hrow
    rw [hrequests] at htarget
    cases htarget

end Migrations

end CyranoAgent
