import CyranoAgent.Contracts.PlainJson
import CyranoAgent.Memory.Recall
import CyranoAgent.Planning.Review

/-!
# The memory service

The calls of `MemoryService` as programs over the steps of the repository: each reads and writes
in several transactions, and other callers may come in between any two.

`MemoryCall` lists them. `dependencyClosure` is a pure function of the records that a call has
read.
-/

namespace CyranoAgent

open Lib

namespace Memory

/-- A call of the service, or a part of one. -/
abbrev MemoryProgram (α : Type) := Program MemoryStep MemoryStep.Reply Failure α

namespace MemoryRepository

/-- `get`. -/
def get (scopeId memoryId : String) : MemoryProgram (Option MemoryRecord) :=
  .perform (MemoryStep.get scopeId memoryId)

/-- `get_content`. -/
def getContent (scopeId contentDigest : String) : MemoryProgram (Option ByteArray) :=
  .perform (MemoryStep.getContent scopeId contentDigest)

/-- `restore_content`. -/
def restoreContent (scopeId memoryId contentDigest : String) (blob : ByteArray) :
    MemoryProgram Bool :=
  .perform (MemoryStep.restoreContent scopeId memoryId contentDigest blob)

/-- `list_scope`. -/
def listScope (scopeId : String) : MemoryProgram (List MemoryRecord) :=
  .perform (MemoryStep.listScope scopeId)

/-- `put_candidate`. -/
def putCandidate (record : MemoryRecord) (content : ByteArray) (atTime : ℤ) :
    MemoryProgram Unit := do
  Program.raiseIf (record.status ≠ .candidate)
    (.cyrano "INPUT_INVALID" "proposals land as candidates")
  Program.perform (MemoryStep.putCandidate record content atTime)

/-- `transition`: the transaction, and a read of the record it left. -/
def transition (scopeId memoryId : String) (toStatus : MemoryStatus) (expectedRevision : ℤ)
    (newRevision : Option ℤ) (supersedes : Option String) (atTime : ℤ) :
    MemoryProgram MemoryRecord := do
  let _ ← Program.perform (MemoryStep.transition scopeId memoryId toStatus expectedRevision
    newRevision supersedes atTime)
  match ← get scopeId memoryId with
  | some record => return record
  | none => Program.raise (.python "AssertionError" "")

/-- `reconcile_ghosts`. -/
def reconcileGhosts (scopeId : String) : MemoryProgram (List String) := do
  let ghostIds : List String ← Program.perform (MemoryStep.ghosts scopeId)
  ghostIds.forM fun memoryId => do
    match ← get scopeId memoryId with
    | none => return
    | some record =>
      -- the record is read anew, and its status not looked at again
      let _ ← transition scopeId memoryId .stale record.revision none none 0
  return ghostIds

end MemoryRepository

/-! ### Invalidation and deletion -/

/-- The records that one step of the closure adds: those that supersede `current`. -/
def derivedFrom (records : List MemoryRecord) (current : String) (closure : List String) :
    List String :=
  (records.filter fun r => r.supersedes = some current ∧ r.memoryId ∉ closure).map (·.memoryId)

/-- Records that join the closure leave fewer to join. -/
theorem length_unseen_derivedFrom (records : List MemoryRecord) (current : String)
    (closure : List String) :
    (records.filter fun r => r.memoryId ∉ closure ++ derivedFrom records current closure).length +
        (derivedFrom records current closure).length ≤
      (records.filter fun r => r.memoryId ∉ closure).length := by
  have hsplit := List.length_eq_length_filter_add
    (l := records.filter fun r => r.memoryId ∉ closure) fun r => r.supersedes = some current
  have hjoin : (derivedFrom records current closure).length =
      ((records.filter fun r => r.memoryId ∉ closure).filter
        fun r => r.supersedes = some current).length := by
    simp [derivedFrom, List.filter_filter]
  have hrest : (records.filter fun r =>
      r.memoryId ∉ closure ++ derivedFrom records current closure).length ≤
        ((records.filter fun r => r.memoryId ∉ closure).filter
          fun r => !decide (r.supersedes = some current)).length := by
    rw [List.filter_filter, ← List.countP_eq_length_filter, ← List.countP_eq_length_filter]
    refine List.countP_mono_left fun r hr hunseen => ?_
    obtain ⟨hclosure, hderived⟩ : r.memoryId ∉ closure ∧
        r.memoryId ∉ derivedFrom records current closure := by simpa using hunseen
    have hother : r.supersedes ≠ some current := fun hcurrent =>
      hderived (List.mem_map_of_mem (List.mem_filter.mpr ⟨hr, by simpa using ⟨hcurrent, hclosure⟩⟩))
    simpa using ⟨hother, hclosure⟩
  omega

/-- The loop of `dependency_closure`, with the top of the stack in front. -/
def closureFrom (records : List MemoryRecord) (closure frontier : List String) : List String :=
  match frontier with
  | [] => closure
  | current :: frontier =>
    closureFrom records (closure ++ derivedFrom records current closure)
      ((derivedFrom records current closure).reverse ++ frontier)
termination_by (records.filter fun r => r.memoryId ∉ closure).length + frontier.length
decreasing_by
  have hle := length_unseen_derivedFrom records current closure
  simp only [List.length_append, List.length_reverse, List.length_cons]
  omega

/-- `dependency_closure`. -/
def dependencyClosure (scopeId rootId : String) : MemoryProgram (List String) := do
  return closureFrom (← MemoryRepository.listScope scopeId) [] [rootId]

/-- The round of `invalidate_memory` for one record. -/
def staleIfActive (scopeId : String) (atTime : ℤ) (memoryId : String) : MemoryProgram Unit := do
  match ← MemoryRepository.get scopeId memoryId with
  | none => return
  | some current =>
    if current.status = .active then
      let _ ← MemoryRepository.transition scopeId memoryId .stale current.revision none none atTime

/-- `invalidate_memory`. -/
def invalidateMemory (scopeId memoryId : String) (atTime : ℤ) : MemoryProgram (List String) := do
  match ← MemoryRepository.get scopeId memoryId with
  | none => return []
  | some _ => do
    let affected := memoryId :: (← dependencyClosure scopeId memoryId)
    affected.forM (staleIfActive scopeId atTime)
    return affected

/-- `DeletionReceipt`. -/
structure DeletionReceipt where
  memoryId : String
  tombstoneId : String
  pendingPurge : List String

/-- The id of a tombstone: the digest of its JSON text. -/
def tombstoneId (scopeId memoryId : String) (atTime : ℤ) : String :=
  rawDigest ("\x7b\"at\": " ++ toString atTime ++ ", \"memory_id\": " ++ PlainJson.text memoryId ++
    ", \"scope\": " ++ PlainJson.text scopeId ++ "\x7d").toByteArray

/-- `delete_memory`. -/
def deleteMemory (scopeId memoryId : String) (atTime : ℤ) (pendingProjections : List String) :
    MemoryProgram DeletionReceipt := do
  match ← MemoryRepository.get scopeId memoryId with
  | none => Program.raise (.cyrano "SCOPE_DENIED" "memory not readable in this scope")
  | some record =>
    let _ ← MemoryRepository.transition scopeId memoryId .deleted record.revision none none atTime
    return ⟨memoryId, tombstoneId scopeId memoryId atTime, pendingProjections⟩

/-! ### The life of a record -/

/-- `propose_memory`. -/
def proposeMemory (scopeId memoryId kind : String) (content : ByteArray) (sourceDigest : String)
    (evidenceRefs : List String) (atTime : ℤ) (expiresAt : Option ℤ) (rank : ℤ) :
    MemoryProgram MemoryRecord := do
  let record : MemoryRecord :=
    { memoryId, revision := 1, scopeId, kind, status := .candidate,
      contentDigest := rawDigest content, sourceDigest, evidenceRefs, createdAt := atTime,
      expiresAt, supersedes := none, rank }
  MemoryRepository.putCandidate record content atTime
  return record

/-- The active records of the kind, but for the record itself and the one it supersedes. -/
def conflicts (records : List MemoryRecord) (memoryId kind : String) (supersedes : Option String) :
    List String :=
  (records.filter fun r => r.status = .active ∧ r.kind = kind ∧ r.memoryId ≠ memoryId ∧
    supersedes ≠ some r.memoryId).map (·.memoryId)

/-- The record that is to be superseded is invalidated, if it is active. -/
def supersede (scopeId : String) (supersedes : Option String) (atTime : ℤ) :
    MemoryProgram Unit := do
  match supersedes with
  | none => return
  | some old =>
    match ← MemoryRepository.get scopeId old with
    | none => return
    | some record =>
      if record.status = .active then
        let _ ← invalidateMemory scopeId old atTime

/-- `activate_memory`. -/
def activateMemory (reprText : String → String) (scopeId memoryId : String)
    (expectedRevision : ℤ) (supersedes : Option String) (atTime : ℤ) :
    MemoryProgram MemoryRecord := do
  match ← MemoryRepository.get scopeId memoryId with
  | none => Program.raise (.cyrano "SCOPE_DENIED" "memory not readable in this scope")
  | some record => do
    Program.raiseIf (record.status ≠ .candidate ∧ record.status ≠ .stale)
      (.cyrano "INPUT_INVALID" ("cannot activate status " ++ record.status.text))
    let conflict := conflicts (← MemoryRepository.listScope scopeId) memoryId record.kind supersedes
    Program.raiseIf (conflict ≠ [])
      (.cyrano "MEMORY_CONFLICT" ("active " ++ Planning.reprStrings reprText conflict ++
        " share kind " ++ reprText record.kind ++ "; explicit supersedes required"))
    supersede scopeId supersedes atTime
    MemoryRepository.transition scopeId memoryId .active expectedRevision
      (some (record.revision + 1)) supersedes atTime

/-- `mark_stale_if_source_moved`. -/
def markStaleIfSourceMoved (scopeId : String) (currentSourceDigests : List String) (atTime : ℤ) :
    MemoryProgram (List String) := do
  let moved := (← MemoryRepository.listScope scopeId).filter fun r =>
    r.status = .active ∧ r.sourceDigest ∉ currentSourceDigests
  moved.forM fun r => do
    let _ ← MemoryRepository.transition scopeId r.memoryId .stale r.revision none none atTime
  return moved.map (·.memoryId)

/-- `quarantine`, from any status. -/
def quarantine (scopeId memoryId : String) (atTime : ℤ) : MemoryProgram Unit := do
  match ← MemoryRepository.get scopeId memoryId with
  | none => Program.raise (.cyrano "SCOPE_DENIED" "memory not readable in this scope")
  | some record =>
    let _ ← MemoryRepository.transition scopeId memoryId .quarantined record.revision none none
      atTime

/-! ### Reads, exports and imports -/

/-- `query_memory`. -/
def queryMemory (scopeId : String) (now : ℤ) (availableSourceDigests : List String)
    (queryTerms : Option (List String)) (limit : ℤ) : MemoryProgram RecallResult := do
  match selectRecall (← MemoryRepository.listScope scopeId) scopeId now availableSourceDigests
      queryTerms limit with
  | .ok result => return result
  | .error e => Program.raise e

/-- `ExportManifest`. -/
structure ExportManifest where
  entries : List (String × String)
  digest : String

/-- The order of pairs of strings. -/
def pairBefore (p q : String × String) : Bool := p.1 < q.1 ∨ (p.1 = q.1 ∧ p.2 ≤ q.2)

/-- `export_corpus`. -/
def exportCorpus (scopeId : String) (refs : List String) : MemoryProgram ExportManifest := do
  let records := (← MemoryRepository.listScope scopeId).filter fun r =>
    r.status = .active ∧ r.contentDigest ∈ refs
  let entries := (records.map fun r => (r.memoryId, r.contentDigest)).insertionSort (pairBefore · ·)
  let manifest := PlainJson.list (entries.map fun entry =>
    PlainJson.list [PlainJson.text entry.1, PlainJson.text entry.2])
  return ⟨entries, rawDigest manifest.toByteArray⟩

/-- `import_index`. -/
def importIndex (scopeId : String) (manifest : ExportManifest)
    (blobs : String → Option ByteArray) : MemoryProgram Unit :=
  manifest.entries.forM fun (memoryId, contentDigest) => do
    match blobs contentDigest with
    | none => Program.raise (.cyrano "IMPORT_BLOB_MISSING" ("no blob for " ++ memoryId))
    | some blob => do
      Program.raiseIf (rawDigest blob ≠ contentDigest)
        (.cyrano "IMPORT_DIGEST_MISMATCH" ("import digest mismatch for " ++ memoryId))
      let restored : Bool ← MemoryRepository.restoreContent scopeId memoryId contentDigest blob
      Program.raiseIf (restored = false)
        (.cyrano "IMPORT_BLOB_MISSING" ("no in-scope row for " ++ memoryId))

/-- A record matches a query by its body or its kind. -/
def Hit (query : String) (body : Option ByteArray) (r : MemoryRecord) : Prop :=
  query.toByteArray.data.toList <:+: (body.getD ByteArray.empty).data.toList ∨ Within query r.kind

instance (query : String) (body : Option ByteArray) (r : MemoryRecord) :
    Decidable (Hit query body r) :=
  inferInstanceAs (Decidable (_ ∨ _))

/-- The loop of `search_documents` over the records that it may return. -/
def searchRecords (scopeId query : String) :
    List MemoryRecord → MemoryProgram (List (String × String))
  | [] => return []
  | r :: records => do
    let body ← MemoryRepository.getContent scopeId r.contentDigest
    let results ← searchRecords scopeId query records
    return if Hit query body r then (r.memoryId, r.contentDigest) :: results else results

/-- `search_documents`. -/
def searchDocuments (scopeId query : String) (now : ℤ) (availableSourceDigests : List String)
    (revalidate : Bool) : MemoryProgram (List (String × String)) := do
  let records := (← MemoryRepository.listScope scopeId).filter fun r => r.status = .active ∧
    (revalidate = true → r.sourceDigest ∈ availableSourceDigests ∧ r.Unexpired now)
  searchRecords scopeId query records

/-! ### The calls of the service -/

/-- The calls of `MemoryService`. -/
inductive MemoryCall
  | propose (scopeId memoryId kind : String) (content : ByteArray) (sourceDigest : String)
      (evidenceRefs : List String) (atTime : ℤ) (expiresAt : Option ℤ) (rank : ℤ)
  | activate (scopeId memoryId : String) (expectedRevision : ℤ) (supersedes : Option String)
      (atTime : ℤ)
  | invalidate (scopeId memoryId : String) (atTime : ℤ)
  | delete (scopeId memoryId : String) (atTime : ℤ) (pendingProjections : List String)
  | get (scopeId memoryId : String)
  | query (scopeId : String) (now : ℤ) (availableSourceDigests : List String)
      (queryTerms : Option (List String)) (limit : ℤ)
  | markStaleIfSourceMoved (scopeId : String) (currentSourceDigests : List String) (atTime : ℤ)
  | quarantine (scopeId memoryId : String) (atTime : ℤ)
  | reconcileGhosts (scopeId : String)
  | exportCorpus (scopeId : String) (refs : List String)
  | importIndex (scopeId : String) (manifest : ExportManifest) (blobs : String → Option ByteArray)
  | search (scopeId query : String) (now : ℤ) (availableSourceDigests : List String)
      (revalidate : Bool)

/-- What a call returns. -/
inductive MemoryReply
  | record (record : MemoryRecord)
  | found (record : Option MemoryRecord)
  | ids (memoryIds : List String)
  | receipt (receipt : DeletionReceipt)
  | recalled (result : RecallResult)
  | manifest (manifest : ExportManifest)
  | hits (results : List (String × String))
  | done

/-- The program of a call. -/
def MemoryCall.program (reprText : String → String) : MemoryCall → MemoryProgram MemoryReply
  | .propose scopeId memoryId kind content sourceDigest evidenceRefs atTime expiresAt rank => do
    return .record (← proposeMemory scopeId memoryId kind content sourceDigest evidenceRefs atTime
      expiresAt rank)
  | .activate scopeId memoryId expectedRevision supersedes atTime => do
    return .record (← activateMemory reprText scopeId memoryId expectedRevision supersedes atTime)
  | .invalidate scopeId memoryId atTime => do
    return .ids (← invalidateMemory scopeId memoryId atTime)
  | .delete scopeId memoryId atTime pendingProjections => do
    return .receipt (← deleteMemory scopeId memoryId atTime pendingProjections)
  | .get scopeId memoryId => do return .found (← MemoryRepository.get scopeId memoryId)
  | .query scopeId now availableSourceDigests queryTerms limit => do
    return .recalled (← queryMemory scopeId now availableSourceDigests queryTerms limit)
  | .markStaleIfSourceMoved scopeId currentSourceDigests atTime => do
    return .ids (← Memory.markStaleIfSourceMoved scopeId currentSourceDigests atTime)
  | .quarantine scopeId memoryId atTime => do
    Memory.quarantine scopeId memoryId atTime
    return .done
  | .reconcileGhosts scopeId => do return .ids (← MemoryRepository.reconcileGhosts scopeId)
  | .exportCorpus scopeId refs => do return .manifest (← Memory.exportCorpus scopeId refs)
  | .importIndex scopeId manifest blobs => do
    Memory.importIndex scopeId manifest blobs
    return .done
  | .search scopeId text now availableSourceDigests revalidate => do
    return .hits (← searchDocuments scopeId text now availableSourceDigests revalidate)

end Memory

end CyranoAgent
