import CyranoAgent.Lib.Program
import CyranoAgent.Sqlite.Repository

/-!
# Memory records over the scoped ledger

`MemoryRepository`: the additive table `memory_records`, and the statements and transactions that
the memory service performs on it. `MemoryStep` lists them; each is one step to any other
connection. `Moves` says what a step may do to one record.

A store carries what SQLite keeps of the table: one row for each scope and id, and revisions of 64
bits.
-/

namespace CyranoAgent

open Lib Lib.Action Repository

namespace Memory

/-- `MemoryStatus`. -/
inductive MemoryStatus
  | candidate | active | stale | quarantined | deleted
  deriving DecidableEq, Repr

/-- The text of a status in the `status` column. -/
def MemoryStatus.text : MemoryStatus → String
  | .candidate => "candidate"
  | .active => "active"
  | .stale => "stale"
  | .quarantined => "quarantined"
  | .deleted => "deleted"

/-- `MemoryRecord`. -/
structure MemoryRecord where
  memoryId : String
  revision : ℤ
  scopeId : String
  kind : String
  status : MemoryStatus
  contentDigest : String
  sourceDigest : String
  evidenceRefs : List String
  createdAt : ℤ
  expiresAt : Option ℤ
  supersedes : Option String
  rank : ℤ := 0
  deriving DecidableEq

/-- A row of `memory_records`. The evidence references are stored as a JSON array. -/
structure StoredRow where
  record : MemoryRecord
  content : ByteArray

/-- The primary key. -/
def StoredRow.key (row : StoredRow) : String × String := (row.record.scopeId, row.record.memoryId)

/-- The ledger with the table of memory records. -/
structure MemoryStore where
  ledger : Ledger := {}
  rows : List StoredRow := []
  unique : (rows.map StoredRow.key).Nodup := by simp
  bindable : ∀ row ∈ rows, Bindable row.record.revision := by simp

namespace MemoryStore

variable (S : MemoryStore)

/-- The record of an id in a scope. -/
def record? (scopeId memoryId : String) : Option MemoryRecord :=
  (S.rows.find? fun row => row.key = (scopeId, memoryId)).map (·.record)

/-- The records of a scope, by id. -/
def recordsOf (scopeId : String) : List MemoryRecord :=
  ((S.rows.map (·.record)).filter (·.scopeId = scopeId)).insertionSort
    fun r r' => r.memoryId ≤ r'.memoryId

/-- The store with one more row, of a key that it does not have. -/
def insert (row : StoredRow) (hfresh : S.record? row.record.scopeId row.record.memoryId = none)
    (hbindable : Bindable row.record.revision) : MemoryStore where
  ledger := S.ledger
  rows := S.rows ++ [row]
  unique := by
    refine Rows.nodup_append S.unique fun r hr hkey => ?_
    have hnone := List.find?_eq_none.mp (Option.map_eq_none_iff.mp hfresh) r hr
    exact hnone (decide_eq_true hkey)
  bindable := by
    simp only [List.forall_mem_append, List.forall_mem_singleton]
    exact ⟨S.bindable, hbindable⟩

/-- The store after `UPDATE memory_records SET status=?, revision=?, supersedes=COALESCE(?, …)`. -/
def moved (scopeId memoryId : String) (status : MemoryStatus) (revision : ℤ)
    (hbindable : Bindable revision) (supersedes : Option String) : MemoryStore where
  ledger := S.ledger
  rows := Rows.update (fun row => row.key = (scopeId, memoryId)) (fun row => { row with
    record := { row.record with
      status, revision, supersedes := supersedes.or row.record.supersedes } }) S.rows
  unique := by
    rw [Rows.map_update]
    · exact S.unique
    · intro row
      rfl
  bindable := by
    intro row hrow
    obtain ⟨row₀, hrow₀, rfl⟩ := Rows.mem_update.mp hrow
    split
    · exact hbindable
    · exact S.bindable row₀ hrow₀

/-- The store after `UPDATE memory_records SET content=?`. -/
def restored (scopeId memoryId contentDigest : String) (blob : ByteArray) : MemoryStore where
  ledger := S.ledger
  rows := Rows.update
    (fun row => row.key = (scopeId, memoryId) ∧ row.record.contentDigest = contentDigest)
    (fun row => { row with content := blob }) S.rows
  unique := by
    rw [Rows.map_update]
    · exact S.unique
    · intro row
      rfl
  bindable := by
    intro row hrow
    obtain ⟨row₀, hrow₀, rfl⟩ := Rows.mem_update.mp hrow
    have hrevision := S.bindable row₀ hrow₀
    split
    · exact hrevision
    · exact hrevision

/-- The store after a row of `audit_log`. -/
def audited (memoryId detail : String) (atTime : ℤ) : MemoryStore :=
  { S with ledger := { S.ledger with
    auditLog := S.ledger.auditLog ++ [⟨S.ledger.nextAuditSeq, memoryId, detail, toString atTime⟩]
    nextAuditSeq := S.ledger.nextAuditSeq + 1 } }

end MemoryStore

/-! ### The repository -/

/-- What a call on the store is. -/
abbrev StoreOp (α : Type) := Action MemoryStore Failure α

/-- The statements and transactions of the repository. -/
inductive MemoryStep
  | get (scopeId memoryId : String)
  | getContent (scopeId contentDigest : String)
  | restoreContent (scopeId memoryId contentDigest : String) (blob : ByteArray)
  | listScope (scopeId : String)
  | putCandidate (record : MemoryRecord) (content : ByteArray) (atTime : ℤ)
  | transition (scopeId memoryId : String) (toStatus : MemoryStatus) (expectedRevision : ℤ)
      (newRevision : Option ℤ) (supersedes : Option String) (atTime : ℤ)
  | ghosts (scopeId : String)

/-- What a step returns. -/
def MemoryStep.Reply : MemoryStep → Type
  | .get .. => Option MemoryRecord
  | .getContent .. => Option ByteArray
  | .restoreContent .. => Bool
  | .listScope .. => List MemoryRecord
  | .putCandidate .. => Unit
  | .transition .. => Unit
  | .ghosts .. => List String

/-- The body of a digest, within the scope. -/
def contentOf (S : MemoryStore) (scopeId contentDigest : String) : Option ByteArray :=
  (S.rows.find? fun row => row.record.scopeId = scopeId ∧
    row.record.contentDigest = contentDigest).map (·.content)

/-- The active records of a scope without an audit row of their activation. -/
def ghostsOf (S : MemoryStore) (scopeId : String) : List String :=
  ((S.recordsOf scopeId).filter fun r => r.status = .active ∧
    ∀ a ∈ S.ledger.auditLog, ¬(a.streamId = r.memoryId ∧ a.detail = "status:active")).map
      (·.memoryId)

section

variable (reprText : String → String)

/-- The transaction of `put_candidate`. -/
def putCandidateIn (record : MemoryRecord) (content : ByteArray) (atTime : ℤ) : StoreOp Unit :=
  transaction do
    let S ← get
    match hfresh : S.record? record.scopeId record.memoryId with
    | some _ =>
      throw (.cyrano "IDEMPOTENCY_CONFLICT" ("memory " ++ reprText record.memoryId ++ " exists"))
    | none =>
      raiseIf (¬Bindable record.createdAt ∨ ¬(∀ t ∈ record.expiresAt, Bindable t) ∨
        ¬Bindable record.rank) Failure.overflow
      if hbindable : Bindable record.revision then
        set ((S.insert ⟨record, content⟩ hfresh hbindable).audited record.memoryId "proposed"
          atTime)
      else throw Failure.overflow

/-- The text of a lost race. -/
def staleRevision (memoryId : String) (revision expectedRevision : ℤ) : String :=
  memoryId ++ " at r" ++ toString revision ++ ", expected r" ++ toString expectedRevision

/-- The transaction of `transition`. -/
def transitionIn (scopeId memoryId : String) (toStatus : MemoryStatus) (expectedRevision : ℤ)
    (newRevision : Option ℤ) (supersedes : Option String) (atTime : ℤ) : StoreOp Unit :=
  transaction do
    let S ← get
    match S.record? scopeId memoryId with
    | none => throw (.cyrano "SCOPE_DENIED" "memory not readable in this scope")
    | some record =>
      raiseIf (record.revision ≠ expectedRevision)
        (.cyrano "STALE_REVISION" (staleRevision memoryId record.revision expectedRevision))
      -- `new_revision or int(row[0])`: a new revision of zero counts as none
      let revision := if newRevision.getD 0 = 0 then record.revision else newRevision.getD 0
      if hbindable : Bindable revision then
        set ((S.moved scopeId memoryId toStatus revision hbindable supersedes).audited memoryId
          ("status:" ++ toStatus.text) atTime)
      else throw Failure.overflow

/-- Perform a step. -/
def MemoryStep.act : (step : MemoryStep) → StoreOp step.Reply
  | .get scopeId memoryId => do return (← MonadState.get).record? scopeId memoryId
  | .getContent scopeId contentDigest => do
    return contentOf (← MonadState.get) scopeId contentDigest
  | .restoreContent scopeId memoryId contentDigest blob => do
    let S ← MonadState.get
    set (S.restored scopeId memoryId contentDigest blob)
    return S.rows.any fun row =>
      row.key = (scopeId, memoryId) ∧ row.record.contentDigest = contentDigest
  | .listScope scopeId => do return (← MonadState.get).recordsOf scopeId
  | .putCandidate record content atTime => putCandidateIn reprText record content atTime
  | .transition scopeId memoryId toStatus expectedRevision newRevision supersedes atTime =>
    transitionIn scopeId memoryId toStatus expectedRevision newRevision supersedes atTime
  | .ghosts scopeId => do return ghostsOf (← MonadState.get) scopeId

end

/-! ### What is read -/

namespace MemoryStore

variable {S : MemoryStore} {scopeId memoryId : String} {r : MemoryRecord}

theorem key_of_record? (h : S.record? scopeId memoryId = some r) :
    r.scopeId = scopeId ∧ r.memoryId = memoryId := by
  obtain ⟨row, hrow, rfl⟩ := Option.map_eq_some_iff.mp h
  have hkey : row.key = (scopeId, memoryId) := by simpa using List.find?_some hrow
  exact Prod.mk.inj hkey

/-- A record is found under its key exactly when a row holds it. -/
theorem record?_eq_some :
    S.record? scopeId memoryId = some r ↔
      (∃ row ∈ S.rows, row.record = r) ∧ r.scopeId = scopeId ∧ r.memoryId = memoryId := by
  constructor
  · intro h
    obtain ⟨row, hrow, heq⟩ := Option.map_eq_some_iff.mp h
    exact ⟨⟨row, List.mem_of_find?_eq_some hrow, heq⟩, key_of_record? h⟩
  · rintro ⟨⟨row, hrow, rfl⟩, rfl, rfl⟩
    rw [record?, show (row.record.scopeId, row.record.memoryId) = row.key from rfl,
      Rows.find?_key S.unique hrow, Option.map_some]

theorem bindable_of_record? (h : S.record? scopeId memoryId = some r) : Bindable r.revision := by
  obtain ⟨⟨row, hrow, rfl⟩, -⟩ := record?_eq_some.mp h
  exact S.bindable row hrow

/-- The records of a scope are those found in it. -/
theorem mem_recordsOf : r ∈ S.recordsOf scopeId ↔ S.record? scopeId r.memoryId = some r := by
  rw [recordsOf, List.mem_insertionSort, record?_eq_some]
  simp [and_comm]

@[simp] theorem record?_audited (detail id : String) (atTime : ℤ) :
    (S.audited id detail atTime).record? scopeId memoryId = S.record? scopeId memoryId := rfl

/-- A record after an insert. -/
theorem record?_insert {row : StoredRow}
    {hfresh : S.record? row.record.scopeId row.record.memoryId = none}
    {hbindable : Bindable row.record.revision} :
    (S.insert row hfresh hbindable).record? scopeId memoryId =
      (S.record? scopeId memoryId).or
        (if row.key = (scopeId, memoryId) then some row.record else none) := by
  rw [record?, record?, insert, List.find?_append, Option.map_or]
  congr 1
  by_cases hkey : row.key = (scopeId, memoryId) <;> simp [hkey]

/-- A record after an update of one key. -/
theorem record?_moved {status : MemoryStatus} {revision : ℤ} {hbindable : Bindable revision}
    {supersedes : Option String} {scope id : String} :
    (S.moved scope id status revision hbindable supersedes).record? scopeId memoryId =
      if (scopeId, memoryId) = (scope, id) then
        (S.record? scopeId memoryId).map fun r =>
          { r with status, revision, supersedes := supersedes.or r.supersedes }
      else S.record? scopeId memoryId := by
  have hkeys : ∀ row : StoredRow, row.key = (scopeId, memoryId) →
      (row.key = (scope, id) ↔ (scopeId, memoryId) = (scope, id)) := by
    intro row hkey
    rw [hkey]
  rw [record?, record?, moved, Rows.find?_update fun row => by rfl, Option.map_map]
  cases hrow : S.rows.find? fun row => row.key = (scopeId, memoryId) with
  | none => simp
  | some row =>
    have hkey := hkeys row (by simpa using List.find?_some hrow)
    by_cases hsame : (scopeId, memoryId) = (scope, id)
    · rw [if_pos hsame]
      simp [hkey.mpr hsame]
    · rw [if_neg hsame]
      simp [mt hkey.mp hsame]

/-- A restored body changes no record. -/
theorem record?_restored {scope id contentDigest : String} {blob : ByteArray} :
    (S.restored scope id contentDigest blob).record? scopeId memoryId =
      S.record? scopeId memoryId := by
  rw [record?, record?, restored, Rows.find?_update fun row => by rfl, Option.map_map]
  congr 1
  funext row
  by_cases hsame : row.key = (scope, id) ∧ row.record.contentDigest = contentDigest <;>
    simp [hsame]

end MemoryStore

/-! ### What a step does -/

/-- A step that was performed, with what it returned or raised. -/
abbrev MemoryAccess := Access MemoryStep MemoryStep.Reply Failure

/-- The record that a transition leaves. -/
def MemoryRecord.after (r : MemoryRecord) (status : MemoryStatus) (newRevision : Option ℤ)
    (supersedes : Option String) : MemoryRecord :=
  { r with
    status
    revision := if newRevision.getD 0 = 0 then r.revision else newRevision.getD 0
    supersedes := supersedes.or r.supersedes }

section

variable {reprText : String → String} {S S' : MemoryStore} {scopeId memoryId : String}
  {toStatus : MemoryStatus} {expectedRevision atTime : ℤ} {newRevision : Option ℤ}
  {supersedes : Option String} {r : MemoryRecord}

/-- The store that a transition of the record leaves. -/
def MemoryStore.transitioned (S : MemoryStore) (scopeId memoryId : String)
    (toStatus : MemoryStatus) (revision : ℤ) (hbindable : Bindable revision)
    (supersedes : Option String) (atTime : ℤ) : MemoryStore :=
  (S.moved scopeId memoryId toStatus revision hbindable supersedes).audited memoryId
    ("status:" ++ toStatus.text) atTime

/-- **When a transition goes through**: the record is there under the expected revision, and the
new one fits a column. -/
theorem transition_eq_ok {u : Unit} :
    (transitionIn scopeId memoryId toStatus expectedRevision newRevision supersedes atTime).run S =
        (.ok u, S') ↔
      ∃ r, S.record? scopeId memoryId = some r ∧ r.revision = expectedRevision ∧
        ∃ hbindable, S' = S.transitioned scopeId memoryId toStatus
          (r.after toStatus newRevision supersedes).revision hbindable supersedes atTime := by
  rw [transitionIn, transaction_eq_ok, run_bind_ok (run_get S)]
  cases hrecord : S.record? scopeId memoryId with
  | none => simp
  | some r =>
    dsimp only
    rw [run_raiseIf_bind]
    by_cases hrevision : r.revision = expectedRevision
    · rw [if_neg (not_not.mpr hrevision)]
      by_cases hbindable : Bindable (r.after toStatus newRevision supersedes).revision
      · rw [MemoryRecord.after] at hbindable
        rw [dif_pos hbindable]
        constructor
        · intro hrun
          exact ⟨r, rfl, hrevision, hbindable, (Prod.mk.inj hrun).2.symm⟩
        · rintro ⟨_, ⟨⟩, -, -, rfl⟩
          rfl
      · have hno := hbindable
        rw [MemoryRecord.after] at hno
        rw [dif_neg hno]
        simp [hbindable]
    · simp [hrevision]

/-- A transition moves its record and no other. -/
theorem record?_transitioned {scope id : String} {revision : ℤ} {hbindable : Bindable revision} :
    (S.transitioned scope id toStatus revision hbindable supersedes atTime).record? scopeId
        memoryId =
      if (scopeId, memoryId) = (scope, id) then
        (S.record? scopeId memoryId).map fun r =>
          { r with status := toStatus, revision, supersedes := supersedes.or r.supersedes }
      else S.record? scopeId memoryId := by
  rw [MemoryStore.transitioned, MemoryStore.record?_audited, MemoryStore.record?_moved]

/-- A proposal that goes through adds its record. -/
theorem putCandidate_eq_ok {record : MemoryRecord} {content : ByteArray} {u : Unit}
    (h : (putCandidateIn reprText record content atTime).run S = (.ok u, S')) :
    S.record? record.scopeId record.memoryId = none ∧ ∃ hfresh hbindable,
      S' = (S.insert ⟨record, content⟩ hfresh hbindable).audited record.memoryId "proposed"
        atTime := by
  rw [putCandidateIn, transaction_eq_ok, run_bind_ok (run_get S)] at h
  split at h
  · next => simp at h
  · next hfresh =>
    simp only [bind_eq_ok, raiseIf_eq_ok] at h
    obtain ⟨_, _, ⟨-, rfl⟩, h⟩ := h
    split at h
    · next hbindable =>
      exact ⟨hfresh, hfresh, hbindable, (Prod.mk.inj h).2.symm⟩
    · next => simp at h

/-- What an access may do to a record: it leaves it, proposes it, or moves it by a transition that
found the revision it expected. -/
inductive Moves (scopeId memoryId : String) (before after : Option MemoryRecord) :
    MemoryAccess → Prop
  | stay (access : MemoryAccess) (hsame : after = before) :
      Moves scopeId memoryId before after access
  | proposed (record : MemoryRecord) (content : ByteArray) (atTime : ℤ) (hnone : before = none)
      (hafter : after = some record) :
      Moves scopeId memoryId before after ⟨.putCandidate record content atTime, .ok ()⟩
  | moved (r : MemoryRecord) (toStatus : MemoryStatus) (expectedRevision : ℤ)
      (newRevision : Option ℤ) (supersedes : Option String) (atTime : ℤ) (hbefore : before = some r)
      (hrevision : r.revision = expectedRevision)
      (hafter : after = some (r.after toStatus newRevision supersedes)) :
      Moves scopeId memoryId before after
        ⟨.transition scopeId memoryId toStatus expectedRevision newRevision supersedes atTime,
          .ok ()⟩

/-- **What a step does to each record.** -/
theorem moves (reprText : String → String) (step : MemoryStep) (S : MemoryStore)
    (scopeId memoryId : String) :
    Moves scopeId memoryId (S.record? scopeId memoryId)
      (((step.act reprText).run S).2.record? scopeId memoryId)
      ⟨step, ((step.act reprText).run S).1⟩ := by
  cases step with
  | get | getContent | listScope | ghosts => exact .stay _ rfl
  | restoreContent scope id contentDigest blob => exact .stay _ MemoryStore.record?_restored
  | putCandidate record content atTime =>
    rcases hrun : ((MemoryStep.putCandidate record content atTime).act reprText).run S with
      ⟨e | _, S'⟩
    · obtain rfl := run_transaction_error hrun
      exact .stay _ rfl
    · obtain ⟨hnone, hfresh, hbindable, rfl⟩ := putCandidate_eq_ok hrun
      rw [MemoryStore.record?_audited, MemoryStore.record?_insert]
      split_ifs with hkey
      · obtain ⟨rfl, rfl⟩ := Prod.mk.inj hkey
        rw [hnone]
        exact .proposed record content atTime rfl rfl
      · rw [Option.or_none]
        exact .stay _ rfl
  | transition scope id toStatus expectedRevision newRevision supersedes atTime =>
    rcases hrun : ((MemoryStep.transition scope id toStatus expectedRevision newRevision supersedes
      atTime).act reprText).run S with ⟨e | _, S'⟩
    · obtain rfl := run_transaction_error hrun
      exact .stay _ rfl
    · obtain ⟨r, hrecord, hrevision, hbindable, rfl⟩ := transition_eq_ok.mp hrun
      rw [record?_transitioned]
      split_ifs with hkey
      · obtain ⟨rfl, rfl⟩ := Prod.mk.inj hkey
        rw [hrecord]
        exact .moved r toStatus expectedRevision newRevision supersedes atTime rfl hrevision rfl
      · exact .stay _ rfl

end

end Memory

end CyranoAgent
