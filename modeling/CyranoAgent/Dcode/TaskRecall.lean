import CyranoAgent.Memory.Invalidation
import CyranoAgent.Memory.Obligations

/-!
# Task-triggered recall

`taskRecall` resolves the recall of one task from the live store: the records that `query_memory`
returns, the bodies of the rules among them, a memory view of the scope, and the evidence of what
was returned and excluded. `taskRecall_eq_ok` says what it returns when nothing interrupts it, and
`taskRecall_later` that a later recall which selects the same records finds the same.
-/

namespace CyranoAgent

open Lib Memory

namespace Dcode

/-- `RecallContext`. -/
structure RecallContext where
  taskId : String
  scopeId : String
  pathHints : List String
  queryTerms : Option (List String)
  limit : ℤ
  now : ℤ
  epoch : Option String
  sourceDigests : List String

/-- What a query digest is taken of. -/
def RecallContext.queryValue (context : RecallContext) : PyValue :=
  .dict [(.str "task_id", .str context.taskId), (.str "scope_id", .str context.scopeId),
    (.str "path_hints", Planning.strings context.pathHints),
    (.str "query_terms", Planning.strings (Planning.sortedSet (context.queryTerms.getD []))),
    (.str "limit", .int context.limit), (.str "epoch", Planning.optionalText context.epoch)]

/-- `RecallEvidence`. -/
structure RecallEvidence where
  queryDigest : String
  viewDigest : String
  returned : List (String × ℤ)
  excluded : List (String × String)
  reason : String
  deriving DecidableEq, Repr

/-- `RecallOutcome`. -/
structure RecallOutcome where
  context : RecallContext
  records : List MemoryRecord
  ruleBodies : Dict String ByteArray
  memoryView : MemoryView
  evidence : RecallEvidence

/-- `classify_excluded`. -/
def classifyExcluded (r : MemoryRecord) (context : RecallContext) : String :=
  if r.status ≠ .active then "inactive:" ++ r.status.text
  else if ¬r.Unexpired context.now then "expired"
  else if r.sourceDigest ∉ context.sourceDigests then "stale_source"
  else if r.evidenceRefs = [] then "no_evidence"
  else "excluded"

/-- A value or an exception, in a program. -/
def outcome {α : Type} : Except Failure α → MemoryProgram α
  | .ok a => pure a
  | .error e => Program.raise e

/-- The loop of `task_recall` that reads the bodies of the rules. -/
def readBodies (scopeId : String) :
    List MemoryRecord → Dict String ByteArray → MemoryProgram (Dict String ByteArray)
  | [], bodies => return bodies
  | r :: records, bodies =>
    if ¬IsScopeRule r then readBodies scopeId records bodies
    else do
      match ← MemoryRepository.getContent scopeId r.contentDigest with
      | some body => readBodies scopeId records (bodies.set r.memoryId body)
      | none => readBodies scopeId records bodies

/-- Why each of the excluded records is excluded. An id that is not among the records ends the
search for it in an exception. -/
def classifyAll (context : RecallContext) (records : List MemoryRecord) (excluded : List String) :
    Except Failure (List (String × String)) :=
  excluded.mapM fun memoryId =>
    match records.find? fun r => r.memoryId = memoryId with
    | some r => .ok (memoryId, classifyExcluded r context)
    | none => .error (.python "RuntimeError" "generator raised StopIteration")

/-- The order of the pairs of an id and a revision. -/
def revisionBefore (p q : String × ℤ) : Bool := p.1 < q.1 ∨ (p.1 = q.1 ∧ p.2 ≤ q.2)

section

variable (P : Primitives)

/-- `task_recall`. -/
def taskRecall (context : RecallContext) : MemoryProgram RecallOutcome := do
  let result ← queryMemory context.scopeId context.now context.sourceDigests context.queryTerms
    context.limit
  let bodies ← readBodies context.scopeId result.records ∅
  let records ← MemoryRepository.listScope context.scopeId
  let revoked := Planning.sortedSet
    ((records.filter fun r => r.status ≠ .active).map (·.memoryId))
  let viewDigest ← outcome (digest P (Planning.strings revoked))
  let excluded ← outcome (classifyAll context records result.excluded)
  let queryDigest ← outcome (digest P context.queryValue)
  return {
    context
    records := result.records
    ruleBodies := bodies
    memoryView := ⟨viewDigest, "task-recall", revoked⟩
    evidence := {
      queryDigest
      viewDigest
      returned := (result.records.map fun r => (r.memoryId, r.revision)).insertionSort
        (revisionBefore · ·)
      excluded := excluded.insertionSort (pairBefore · ·)
      reason := result.reason } }

end

/-! ### What a recall returns -/

section

variable {P : Primitives} {reprText : String → String} {S S' : MemoryStore}
  {context : RecallContext} {recalled : RecallOutcome} {r : MemoryRecord} {α β : Type}

theorem runAlone_outcome (x : Except Failure α) (S : MemoryStore) :
    runAlone reprText (outcome x) S = (x, S) := by
  cases x <;> rfl

theorem runAlone_outcome_ok {x : Except Failure α} {a : α} (h : x = .ok a) :
    runAlone reprText (outcome x) S = (.ok a, S) := by
  rw [runAlone_outcome, h]

/-- A sequence of calls succeeds when both do. -/
theorem runAlone_bind_eq_ok {p : MemoryProgram α} {next : α → MemoryProgram β} {b : β} :
    runAlone reprText (p >>= next) S = (.ok b, S') ↔
      ∃ a S₁, runAlone reprText p S = (.ok a, S₁) ∧
        runAlone reprText (next a) S₁ = (.ok b, S') := by
  rw [runAlone, Program.alone_bind]
  exact Action.bind_eq_ok

/-- The bodies, and those that are stored for the rules among the records. -/
def bodiesOf (S : MemoryStore) (scopeId : String) :
    List MemoryRecord → Dict String ByteArray → Dict String ByteArray
  | [], bodies => bodies
  | r :: records, bodies =>
    if ¬IsScopeRule r then bodiesOf S scopeId records bodies
    else
      match contentOf S scopeId r.contentDigest with
      | some body => bodiesOf S scopeId records (bodies.set r.memoryId body)
      | none => bodiesOf S scopeId records bodies

variable (reprText) in
/-- Reading the bodies changes nothing. -/
theorem runAlone_readBodies (scopeId : String) (records : List MemoryRecord)
    (bodies : Dict String ByteArray) (S : MemoryStore) :
    runAlone reprText (readBodies scopeId records bodies) S =
      (.ok (bodiesOf S scopeId records bodies), S) := by
  induction records generalizing bodies with
  | nil => rfl
  | cons r records ih =>
    have hcontent : runAlone reprText (MemoryRepository.getContent scopeId r.contentDigest) S =
        (.ok (contentOf S scopeId r.contentDigest), S) := rfl
    rw [readBodies, bodiesOf]
    split_ifs
    · rw [runAlone_then_ok hcontent]
      cases contentOf S scopeId r.contentDigest with
      | none => exact ih bodies
      | some body => exact ih _
    · exact ih bodies

/-- A body is read for no other id. -/
theorem get?_bodiesOf_of_ne {scopeId memoryId : String} {records : List MemoryRecord}
    (h : ∀ r ∈ records, r.memoryId ≠ memoryId) (bodies : Dict String ByteArray) :
    (bodiesOf S scopeId records bodies).get? memoryId = bodies.get? memoryId := by
  induction records generalizing bodies with
  | nil => rfl
  | cons r records ih =>
    obtain ⟨hr, hrest⟩ := List.forall_mem_cons.mp h
    rw [bodiesOf]
    split_ifs
    · split
      · rw [ih hrest, Dict.get?_set_of_ne hr.symm]
      · exact ih hrest bodies
    · exact ih hrest bodies

/-- **The body of a rule is what is stored for it.** -/
theorem get?_bodiesOf {scopeId : String} {records : List MemoryRecord}
    (hids : (records.map (·.memoryId)).Nodup) (hr : r ∈ records) (hrule : IsScopeRule r)
    {bodies : Dict String ByteArray} (hnew : bodies.get? r.memoryId = none) :
    (bodiesOf S scopeId records bodies).get? r.memoryId =
      contentOf S scopeId r.contentDigest := by
  induction records generalizing bodies with
  | nil => exact absurd hr List.not_mem_nil
  | cons r' records ih =>
    obtain ⟨hfirst, hrest⟩ := List.nodup_cons.mp hids
    have hlater : ∀ r'' ∈ records, r''.memoryId ≠ r'.memoryId := fun r'' hr'' heq =>
      hfirst (List.mem_map.mpr ⟨r'', hr'', heq⟩)
    rw [bodiesOf]
    rcases List.mem_cons.mp hr with rfl | hr
    · rw [if_neg (not_not.mpr hrule)]
      cases hcontent : contentOf S scopeId r.contentDigest with
      | some body => exact (get?_bodiesOf_of_ne hlater _).trans Dict.get?_set_self
      | none => exact (get?_bodiesOf_of_ne hlater _).trans hnew
    · split_ifs
      · split
        · exact ih hrest hr ((Dict.get?_set_of_ne (hlater r hr)).trans hnew)
        · exact ih hrest hr hnew
      · exact ih hrest hr hnew

/-- What is classified is what was excluded. -/
theorem map_fst_classifyAll {records : List MemoryRecord} {excluded : List String}
    {pairs : List (String × String)} (h : classifyAll context records excluded = .ok pairs) :
    pairs.map Prod.fst = excluded := by
  have hrel := mapM_eq_ok.mp h
  clear h
  induction hrel with
  | nil => rfl
  | @cons memoryId pair _ _ hpair _ ih =>
    have hid : pair.1 = memoryId := by
      split at hpair
      · exact Except.ok.inj hpair ▸ rfl
      · cases hpair
    rw [List.map_cons, hid, ih]

/-- The ids of a scope are different. -/
theorem nodup_ids_recordsOf (S : MemoryStore) (scopeId : String) :
    ((S.recordsOf scopeId).map (·.memoryId)).Nodup := by
  have hkeys : (S.rows.map (·.record)).Pairwise fun r r' =>
      ¬(r.scopeId = r'.scopeId ∧ r.memoryId = r'.memoryId) := by
    rw [List.pairwise_map]
    exact (List.pairwise_map.mp S.unique).imp fun hne h => hne (Prod.ext h.1 h.2)
  have hscope : ((S.rows.map (·.record)).filter (·.scopeId = scopeId)).Pairwise fun r r' =>
      r.memoryId ≠ r'.memoryId := by
    refine (hkeys.filter _).imp_of_mem fun {r r'} hr hr' hne hid => hne ⟨?_, hid⟩
    have hr := (List.mem_filter.mp hr).2
    have hr' := (List.mem_filter.mp hr').2
    rw [decide_eq_true_eq] at hr hr'
    rw [hr, hr']
  have hperm := (List.perm_insertionSort (fun r r' : MemoryRecord => r.memoryId ≤ r'.memoryId)
    ((S.rows.map (·.record)).filter (·.scopeId = scopeId))).map (·.memoryId)
  exact hperm.nodup_iff.mpr (List.pairwise_map.mpr hscope)

/-- Whether all of the ids are classified does not depend on the context. -/
theorem exists_classifyAll {context' : RecallContext} {records : List MemoryRecord}
    {excluded : List String} {pairs : List (String × String)}
    (h : classifyAll context records excluded = .ok pairs) :
    ∃ pairs', classifyAll context' records excluded = .ok pairs' := by
  refine exists_mapM_eq_ok.mpr fun memoryId hid => ?_
  obtain ⟨pair, -, hpair⟩ := exists_of_mem_left (mapM_eq_ok.mp h) hid
  cases hfind : records.find? fun r => r.memoryId = memoryId with
  | none =>
    rw [hfind] at hpair
    cases hpair
  | some r => exact ⟨_, rfl⟩

/-- The ids of the scope that are revoked. -/
def revokedIds (S : MemoryStore) (scopeId : String) : List String :=
  Planning.sortedSet (((S.recordsOf scopeId).filter fun r => r.status ≠ .active).map (·.memoryId))

/-- What a recall has found in a store. -/
structure RecallOf (P : Primitives) (S : MemoryStore) (context : RecallContext)
    (recalled : RecallOutcome) (result : RecallResult) : Prop where
  selected : selectRecall (S.recordsOf context.scopeId) context.scopeId context.now
    context.sourceDigests context.queryTerms context.limit = .ok result
  records : recalled.records = result.records
  ruleBodies : recalled.ruleBodies = bodiesOf S context.scopeId result.records ∅
  view : ∃ viewDigest, digest P (Planning.strings (revokedIds S context.scopeId)) = .ok viewDigest ∧
    recalled.memoryView = ⟨viewDigest, "task-recall", revokedIds S context.scopeId⟩
  excluded : ∃ pairs,
    classifyAll context (S.recordsOf context.scopeId) result.excluded = .ok pairs ∧
      recalled.evidence.excluded = pairs.insertionSort (pairBefore · ·)
  query : ∃ queryDigest, digest P context.queryValue = .ok queryDigest

/-- The evidence names what the selection excluded. -/
theorem RecallOf.mem_excluded_iff {result : RecallResult} {memoryId : String}
    (h : RecallOf P S context recalled result) :
    memoryId ∈ recalled.evidence.excluded.map Prod.fst ↔ memoryId ∈ result.excluded := by
  obtain ⟨pairs, hpairs, hexcluded⟩ := h.excluded
  rw [hexcluded, ← map_fst_classifyAll hpairs]
  simp

/-- **A recall returns a selection** from the records of the scope, with their bodies, and names
what the selection excluded. -/
theorem taskRecall_eq_ok
    (h : runAlone reprText (taskRecall P context) S = (.ok recalled, S')) :
    ∃ result, RecallOf P S context recalled result := by
  obtain ⟨result, S₁, hquery, h⟩ := runAlone_bind_eq_ok.mp h
  rw [queryMemory, runAlone_then_ok (runAlone_listScope _ S)] at hquery
  cases hselect : selectRecall (S.recordsOf context.scopeId) context.scopeId context.now
      context.sourceDigests context.queryTerms context.limit with
  | error e =>
    simp only [hselect, runAlone_raise] at hquery
    cases hquery
  | ok result' =>
    simp only [hselect, runAlone_pure] at hquery
    obtain ⟨rfl, rfl⟩ : result' = result ∧ S = S₁ := by simpa using hquery
    rw [runAlone_then_ok (runAlone_readBodies reprText context.scopeId result'.records ∅ S),
      runAlone_then_ok (runAlone_listScope _ S)] at h
    obtain ⟨viewDigest, S₂, hview, h⟩ := runAlone_bind_eq_ok.mp h
    obtain ⟨pairs, S₃, hexcluded, h⟩ := runAlone_bind_eq_ok.mp h
    obtain ⟨queryDigest, S₄, hdigest, h⟩ := runAlone_bind_eq_ok.mp h
    obtain rfl := Except.ok.inj (congrArg Prod.fst h)
    rw [runAlone_outcome] at hview hexcluded hdigest
    exact ⟨result', hselect, rfl, rfl, ⟨viewDigest, congrArg Prod.fst hview, rfl⟩,
      ⟨pairs, congrArg Prod.fst hexcluded, rfl⟩, queryDigest, congrArg Prod.fst hdigest⟩

/-- **A recall that selects what an earlier one did** finds the same records, bodies and view. -/
theorem taskRecall_later {later : ℤ} {result : RecallResult}
    (h : RecallOf P S context recalled result)
    (hsame : selectRecall (S.recordsOf context.scopeId) context.scopeId later
      context.sourceDigests context.queryTerms context.limit = .ok result) :
    ∃ recalled', runAlone reprText (taskRecall P { context with now := later }) S =
        (.ok recalled', S) ∧
      recalled'.records = recalled.records ∧ recalled'.ruleBodies = recalled.ruleBodies ∧
        recalled'.memoryView = recalled.memoryView := by
  obtain ⟨viewDigest, hdigest, hview⟩ := h.view
  obtain ⟨pairs, hpairs, -⟩ := h.excluded
  obtain ⟨queryDigest, hquery⟩ := h.query
  obtain ⟨pairs', hpairs'⟩ : ∃ pairs', classifyAll { context with now := later }
      (S.recordsOf context.scopeId) result.excluded = .ok pairs' := exists_classifyAll hpairs
  have hquery' : digest P (RecallContext.queryValue { context with now := later }) =
      .ok queryDigest := hquery
  have hqueried : runAlone reprText (queryMemory context.scopeId later context.sourceDigests
      context.queryTerms context.limit) S = (.ok result, S) := by
    rw [queryMemory, runAlone_then_ok (runAlone_listScope _ S)]
    simp only [hsame, runAlone_pure]
  refine ⟨{
    context := { context with now := later }, records := result.records
    ruleBodies := bodiesOf S context.scopeId result.records ∅
    memoryView := ⟨viewDigest, "task-recall", revokedIds S context.scopeId⟩
    evidence := {
      queryDigest, viewDigest, reason := result.reason
      returned := (result.records.map fun r => (r.memoryId, r.revision)).insertionSort
        (revisionBefore · ·)
      excluded := pairs'.insertionSort (pairBefore · ·) } },
    ?_, h.records.symm, h.ruleBodies.symm, hview.symm⟩
  rw [taskRecall, runAlone_then_ok hqueried,
    runAlone_then_ok (runAlone_readBodies reprText context.scopeId result.records ∅ S),
    runAlone_then_ok (runAlone_listScope _ S)]
  refine (runAlone_then_ok (runAlone_outcome_ok hdigest)).trans ?_
  refine (runAlone_then_ok (runAlone_outcome_ok hpairs')).trans ?_
  exact runAlone_then_ok (runAlone_outcome_ok hquery')

end

end Dcode

end CyranoAgent
