import CyranoAgent.Lib.Session
import CyranoAgent.Sqlite.History

/-!
# Backups, and what a restore leaves of the deletions

`restore` reads the tombstones, copies the backup over the database, and deletes the tombstoned
streams again in one transaction. The copy is durable before that transaction begins, and a
fault between the two leaves the database as the backup has it, without the deletions that came
after the backup. `restore_durable` says what each fault leaves, and `deletions_survive_iff`
when the deletions are still in force then.
-/

namespace CyranoAgent

open Lib Lib.Action Repository

namespace Repository

/-- The tables of `EXTENSION_DDL`. -/
def extensionTables : List String :=
  ["meta", "audit_log", "checkpoints", "effect_reservations", "node_reservations", "responses",
    "tombstones", "usage_log", "event_blobs", "coord_tasks", "mailbox", "scope_budgets",
    "worktree_leases", "result_journal", "run_cancellations", "external_delegations"]

/-- `EXTENSION_DDL` on a ledger: each `CREATE TABLE IF NOT EXISTS` finds its table. -/
def extensionDdl : List (Ledger → Ledger) := extensionTables.map fun _ => id

/-- The four statements that delete a stream. -/
def deletion (streamId deletedAt : String) : List (Ledger → Ledger) :=
  [fun L => { L with
      tombstones := Rows.replace (·.streamId) ⟨streamId, deletedAt⟩ L.tombstones },
    fun L => { L with
      outbox := Rows.delete
        (fun job => (L.eventsOf streamId).any fun ev => ev.eventId = job.eventId) L.outbox },
    fun L => { L with events := Rows.delete (fun ev => ev.streamId = streamId) L.events },
    fun L => { L with streams := Rows.delete (fun row => row.streamId = streamId) L.streams }]

/-- The end of `restore`: the extension tables, and the deletions in one transaction. -/
def redelete (streamIds : List String) : Action (Session Ledger Failure) Failure Unit := do
  Session.writes extensionDdl
  Session.tx (.python "OperationalError" "cannot start a transaction within a transaction")
    (.python "OperationalError" "cannot commit - no transaction is active")
    (Session.writes (streamIds.flatMap fun streamId => deletion streamId "restored"))

/-- `restore`, on a session that may fail at any of its statements. -/
def restore (backup : Ledger) : Action (Session Ledger Failure) Failure Unit := do
  let tombstoned ← Session.select fun L => L.tombstones.map (·.streamId)
  Session.statement fun _ => .ok backup
  redelete tombstoned

end Repository

/-- A scope can read the stream. -/
def Ledger.Readable (L : Ledger) (streamId : String) : Prop :=
  ∃ scopeId n, ((readScopedEntity scopeId streamId).run L).1 = .ok n

/-- The stream has a tombstone. -/
def Ledger.Tombstoned (L : Ledger) (streamId : String) : Prop :=
  ∃ row ∈ L.tombstones, row.streamId = streamId

/-- The deletions of `L` are in force in `L'`. -/
structure DeletionsSurvive (L L' : Ledger) : Prop where
  unreadable : ∀ streamId, L.Tombstoned streamId → ¬L'.Readable streamId
  kept : ∀ streamId, L.Tombstoned streamId → L'.Tombstoned streamId

/-- The number of statements of a restore, with the `BEGIN` and the `COMMIT` of its
transaction. -/
def restoreLength (L : Ledger) : ℕ := 2 + extensionTables.length + (4 * L.tombstones.length + 2)

/-- The ledger with each of the streams deleted again. -/
def Ledger.redelete (L : Ledger) (streamIds : List String) : Ledger :=
  streamIds.foldl (fun L streamId => L.deleteStream streamId "restored") L

variable {P : Primitives} {L L' B : Ledger} {s : String}

/-- The four statements are `delete_stream`. -/
theorem applyAll_deletion (streamId deletedAt : String) :
    Session.applyAll (deletion streamId deletedAt) L = L.deleteStream streamId deletedAt := rfl

theorem applyAll_redelete (streamIds : List String) :
    Session.applyAll (streamIds.flatMap fun streamId => deletion streamId "restored") L =
      L.redelete streamIds := by
  induction streamIds generalizing L with
  | nil => rfl
  | cons streamId rest ih =>
    rw [List.flatMap_cons, Session.applyAll_append, applyAll_deletion]
    exact ih

theorem length_redelete (streamIds : List String) :
    (streamIds.flatMap fun streamId => deletion streamId "restored").length =
      4 * streamIds.length := by
  induction streamIds with
  | nil => rfl
  | cons streamId rest ih =>
    rw [List.flatMap_cons, List.length_append, ih, List.length_cons]
    simp [deletion]
    omega

/-! ### Deleted streams -/

theorem Ledger.readable_iff : L.Readable s ↔ (L.stream? s).isSome := by
  constructor
  · rintro ⟨scopeId, n, hread⟩
    rcases hrun : (readScopedEntity scopeId s).run L with ⟨reply, L'⟩
    rw [hrun] at hread
    subst hread
    exact (readScopedEntity_eq_ok.mp hrun).1.isSome
  · intro hsome
    obtain ⟨row, hrow⟩ := Option.isSome_iff_exists.mp hsome
    have hrun : (readScopedEntity row.scopeId s).run L = (.ok (L.revision s), L) :=
      readScopedEntity_eq_ok.mpr ⟨⟨row, hrow, rfl⟩, rfl, rfl⟩
    exact ⟨row.scopeId, L.revision s, by rw [hrun]⟩

/-- A deletion buries its stream and keeps every other one buried. -/
theorem Ledger.buried_deleteStream {streamId deletedAt : String}
    (hs : s = streamId ∨ L.Tombstoned s ∧ ¬L.Readable s) :
    (L.deleteStream streamId deletedAt).Tombstoned s ∧
      ¬(L.deleteStream streamId deletedAt).Readable s := by
  rw [readable_iff, stream?_deleteStream]
  by_cases heq : s = streamId
  · refine ⟨⟨⟨streamId, deletedAt⟩, List.mem_concat_self, heq.symm⟩, ?_⟩
    simp [heq]
  · obtain ⟨⟨row, hrow, hid⟩, hgone⟩ := hs.resolve_left heq
    refine ⟨⟨row, List.mem_append_left _ (Rows.mem_delete.mpr ⟨hrow, ?_⟩), hid⟩, ?_⟩
    · simpa [hid] using heq
    · rw [if_neg heq, ← readable_iff]
      exact hgone

/-- Streams that are deleted again are buried. -/
theorem Ledger.buried_redelete {streamIds : List String}
    (hs : s ∈ streamIds ∨ L.Tombstoned s ∧ ¬L.Readable s) :
    (L.redelete streamIds).Tombstoned s ∧ ¬(L.redelete streamIds).Readable s := by
  induction streamIds generalizing L with
  | nil => exact hs.resolve_left (List.not_mem_nil)
  | cons streamId rest ih =>
    refine ih ?_
    rcases hs with hmem | hburied
    · rcases List.mem_cons.mp hmem with heq | hrest
      · exact .inr (buried_deleteStream (.inl heq))
      · exact .inl hrest
    · exact .inr (buried_deleteStream (.inr hburied))

/-- The deletions of a ledger survive when its streams are deleted again. -/
theorem deletionsSurvive_redelete :
    DeletionsSurvive L (B.redelete (L.tombstones.map (·.streamId))) := by
  have hburied (s : String) (hs : L.Tombstoned s) :
      (B.redelete (L.tombstones.map (·.streamId))).Tombstoned s ∧
        ¬(B.redelete (L.tombstones.map (·.streamId))).Readable s := by
    obtain ⟨row, hrow, rfl⟩ := hs
    exact Ledger.buried_redelete (.inl (List.mem_map_of_mem hrow))
  exact ⟨fun s hs => (hburied s hs).2, fun s hs => (hburied s hs).1⟩

/-! ### What a fault leaves -/

/-- Once the backup is copied, the deletions are made again all together or not at all. -/
theorem redelete_durable {s : Session Ledger Failure} (hs : s.pending = none)
    (streamIds : List String) :
    ((redelete streamIds).run s).2.durable =
      if s.Struck (extensionTables.length + (4 * streamIds.length + 2)) then s.durable
      else s.durable.redelete streamIds := by
  have hext : ∀ f ∈ extensionDdl, f = id := by
    intro f hf
    obtain ⟨_, -, rfl⟩ := List.mem_map.mp hf
    rfl
  have hview : s.view = s.durable := by rw [Session.view, hs, Option.getD_none]
  have hlength : extensionTables.length = extensionDdl.length := (List.length_map _).symm
  rw [redelete, hlength, ← length_redelete]
  by_cases hddl : s.Struck extensionDdl.length
  · obtain ⟨n, -, e, hrun⟩ := Session.run_writes_of_struck hddl
    rw [if_pos (hddl.mono (by omega)), run_bind_error hrun,
      Session.applyAll_of_id fun f hf => hext f (List.mem_of_mem_take hf), hview]
    exact Session.durable_write_of_none (s := { s with fault := none }) hs _
  rw [run_bind_ok (Session.run_writes hddl), Session.applyAll_of_id hext, Session.write_view_pass]
  split
  · next hstruck =>
    obtain ⟨e, s', hrun, hs'⟩ := Session.durable_tx_writes_of_struck (s := s.pass _) hs
      ((Session.struck_pass hddl).mpr hstruck)
    rw [hrun]
    exact hs'
  · next hstruck =>
    rw [Session.run_tx_writes (s := s.pass _) hs ((Session.struck_pass hddl).not.mpr hstruck)]
    exact applyAll_redelete streamIds

/-- The session a restore starts from. -/
def restoring (L : Ledger) (fault : Option (ℕ × Failure)) : Session Ledger Failure :=
  { durable := L, fault }

/-- **What a restore leaves durable**: the ledger as it was when the fault strikes before the
copy is made, the backup when it strikes before the commit, and else the backup with the
deletions made again. -/
theorem restore_durable (L B : Ledger) (fault : Option (ℕ × Failure)) :
    ((restore B).run (restoring L fault)).2.durable =
      if (restoring L fault).Struck 2 then L
      else if (restoring L fault).Struck (restoreLength L) then B
      else B.redelete (L.tombstones.map (·.streamId)) := by
  by_cases hselect : (restoring L fault).Struck 1
  · obtain ⟨e, hrun⟩ := Session.run_select_of_struck
      (fun L : Ledger => L.tombstones.map (·.streamId)) hselect
    rw [if_pos (hselect.mono (by omega)), restore, run_bind_error hrun]
    rfl
  rw [restore, run_bind_ok (Session.run_select _ hselect)]
  by_cases hcopy : (restoring L fault).Struck 2
  · obtain ⟨e, hrun⟩ := Session.run_statement_of_struck (fun _ => .ok B)
      ((Session.struck_pass hselect).mpr hcopy)
    rw [if_pos hcopy, run_bind_error hrun]
    rfl
  rw [if_neg hcopy, run_bind_ok (Session.run_write _ ((Session.struck_pass hselect).not.mpr hcopy)),
    Session.pass_pass, redelete_durable rfl]
  refine if_congr ?_ rfl rfl
  rw [Session.struck_write, Session.struck_pass hcopy, restoreLength, Nat.add_assoc]
  simp [restoring, Session.view]

/-! ### Backups and restores in a run -/

/-- The ledger and the backups taken of it. -/
structure Archive where
  ledger : Ledger := .empty
  backups : List Ledger := []

/-- A call, a backup, or a restore of one of the backups that a fault may strike. -/
inductive ArchiveStep
  | call (c : Call)
  | backup
  | restore (index : ℕ) (fault : Option (ℕ × Failure))

/-- Perform a step. A restore that is interrupted leaves what is durable. -/
def ArchiveStep.act (P : Primitives) (step : ArchiveStep) (S : Archive) :
    Except Failure Reply × Archive :=
  match step with
  | .call c => ((c.act P S.ledger).1, { S with ledger := (c.act P S.ledger).2 })
  | .backup => (.ok .done, { S with backups := S.backups ++ [S.ledger] })
  | .restore index fault =>
    match S.backups[index]? with
    | none => (.ok .done, S)
    | some B =>
      let result := (Repository.restore B).run (restoring S.ledger fault)
      (result.1.map fun _ => .done, { S with ledger := result.2.durable })

/-- One step of a history with backups. -/
abbrev ArchiveEntry := Entry Archive ArchiveStep (Except Failure Reply)

/-- Where a fault may strike a restore of `B` over `L`: before the copy, when no tombstoned
stream was created again; between copy and commit, when the backup has every tombstone and none
of those streams; or not at all. -/
def SafeFault (L B : Ledger) (fault : Option (ℕ × Failure)) : Prop :=
  ((restoring L fault).Struck 2 → ∀ streamId, L.Tombstoned streamId → ¬L.Readable streamId) ∧
    (¬(restoring L fault).Struck 2 → (restoring L fault).Struck (restoreLength L) →
      ∀ streamId, L.Tombstoned streamId → B.Tombstoned streamId ∧ ¬B.Readable streamId)

theorem deletionsSurvive_iff : DeletionsSurvive L L' ↔
    ∀ streamId, L.Tombstoned streamId → L'.Tombstoned streamId ∧ ¬L'.Readable streamId :=
  ⟨fun h s hs => ⟨h.kept s hs, h.unreadable s hs⟩,
    fun h => ⟨fun s hs => (h s hs).2, fun s hs => (h s hs).1⟩⟩

/-- **When the deletions survive a restore**, in every run and wherever it is interrupted. -/
theorem deletions_survive_iff {S : Archive} {h : List ArchiveEntry} {e : ArchiveEntry} {index : ℕ}
    {fault : Option (ℕ × Failure)} (hr : Run (ArchiveStep.act P) {} h S) (he : e ∈ h)
    (hop : e.op = .restore index fault) (hbackup : e.before.backups[index]? = some B) :
    DeletionsSurvive e.before.ledger e.after.ledger ↔ SafeFault e.before.ledger B fault := by
  have hafter : e.after.ledger =
      ((restore B).run (restoring e.before.ledger fault)).2.durable := by
    rw [hr.eq_perform he, Entry.perform_after, hop]
    simp only [ArchiveStep.act, hbackup, Entry.perform_before]
  rw [hafter, restore_durable, SafeFault, deletionsSurvive_iff]
  split
  · next hearly =>
    simp only [hearly, not_true_eq_false, false_implies, and_true, true_implies]
    exact forall₂_congr fun _ hs => and_iff_right hs
  · next hcopied =>
    split
    · next hlate => simp [hcopied, hlate]
    · next hdone =>
      have hsurvive := deletionsSurvive_iff.mp
        (deletionsSurvive_redelete (L := e.before.ledger) (B := B))
      simpa [hcopied, hdone] using hsurvive

/-- A stream is backed up and then deleted. -/
def deletedSince : List ArchiveStep :=
  [.call (.registerScope "acme" "ada" "lab"), .call (.createStream acmeScope "s" "task"), .backup,
    .call (.deleteStream "s" "t")]

/-- The archive after that. -/
abbrev deletedArchive : Archive := (exec (ArchiveStep.act .ascii) {} deletedSince).2

/-- The restore of that backup, interrupted by a fault or not. -/
abbrev restoreOf (fault : Option (ℕ × Failure)) : ArchiveEntry :=
  Entry.perform (ArchiveStep.act .ascii) deletedArchive (.restore 0 fault)

theorem run_restoreOf (fault : Option (ℕ × Failure)) :
    Run (ArchiveStep.act .ascii) {}
      ((exec (ArchiveStep.act .ascii) {} deletedSince).1 ++ [restoreOf fault])
      (restoreOf fault).after :=
  (run_exec (ArchiveStep.act .ascii) {} deletedSince).snoc (.restore 0 fault)

/-- The ledger that was backed up. -/
def backedUp : Ledger :=
  { scopes := [⟨acmeScope, "acme", "ada", "lab", 0⟩]
    streams := [⟨"s", acmeScope, 0, "task", "open"⟩] }

theorem backups_deletedArchive : deletedArchive.backups[0]? = some backedUp := by
  decide +kernel

/-- The restore that is not interrupted keeps the deletion. -/
theorem deletions_survive_iff_complete :
    DeletionsSurvive deletedArchive.ledger (restoreOf none).after.ledger ↔
      SafeFault deletedArchive.ledger backedUp none :=
  deletions_survive_iff (run_restoreOf none) List.mem_concat_self rfl backups_deletedArchive

/-- **An interrupted restore brings a deleted stream back**, when the fault comes after the
copy. -/
theorem restore_loses_deletion :
    ¬∀ (P : Primitives) (h : List ArchiveEntry) (S : Archive) (e : ArchiveEntry) (index : ℕ)
      (fault : Option (ℕ × Failure)) (B : Ledger), Run (ArchiveStep.act P) {} h S → e ∈ h →
      e.op = .restore index fault → e.before.backups[index]? = some B →
      DeletionsSurvive e.before.ledger e.after.ledger := by
  intro hclaim
  have hsurvive := hclaim .ascii _ _ _ 0 _ _
    (run_restoreOf (some (2, .python "OperationalError" "disk I/O error")))
    List.mem_concat_self rfl backups_deletedArchive
  obtain ⟨hdeleted, hback⟩ :
      (∃ row ∈ deletedArchive.ledger.tombstones, row.streamId = "s") ∧
        ((restoreOf (some (2, .python "OperationalError" "disk I/O error"))).after.ledger.stream?
          "s").isSome = true := by
    decide +kernel
  exact hsurvive.unreadable "s" hdeleted (Ledger.readable_iff.mpr hback)

end CyranoAgent
