import CyranoAgent.Memory.Invalidation

/-!
# The read paths

Recall, search and export each decide for themselves which records may leave the store. What each
of them returns when nothing interrupts it is a selection from the records of the scope, and
`readsAgree_iff` compares search and export with what `select_recall` admits.
-/

namespace CyranoAgent

open Lib Lib.Action

namespace Memory

section

variable {reprText : String → String} {S : MemoryStore} {scopeId query : String} {now : ℤ}
  {availableSourceDigests refs : List String} {revalidate : Bool} {r : MemoryRecord}
  {hit : String × String}

/-! ### What recall admits -/

/-- `select_recall` returns the record, when all of the scope is asked for. -/
def Admits (S : MemoryStore) (scopeId : String) (now : ℤ) (availableSourceDigests : List String)
    (r : MemoryRecord) : Prop :=
  ∃ result, selectRecall (S.recordsOf scopeId) scopeId now availableSourceDigests none
    (S.recordsOf scopeId).length = .ok result ∧ r ∈ result.records

/-- Recall admits the eligible records of the scope. -/
theorem admits_iff :
    Admits S scopeId now availableSourceDigests r ↔
      S.record? scopeId r.memoryId = some r ∧ Eligible now availableSourceDigests r := by
  have hscope : ∀ r ∈ S.recordsOf scopeId, r.scopeId = scopeId := fun r hr =>
    (MemoryStore.key_of_record? (MemoryStore.mem_recordsOf.mp hr)).1
  have hvisible : (S.recordsOf scopeId).filter (·.scopeId = scopeId) = S.recordsOf scopeId :=
    List.filter_eq_self.mpr fun r hr => decide_eq_true (hscope r hr)
  have hlimit : ¬((S.recordsOf scopeId).length : ℤ) < 0 := by omega
  have hlength : (((S.recordsOf scopeId).filter fun r =>
      Eligible now availableSourceDigests r).insertionSort (rankedBefore · ·)).length ≤
        (S.recordsOf scopeId).length := by
    rw [List.length_insertionSort]
    exact List.length_filter_le _ _
  rw [Admits, selectRecall, if_neg hlimit, hvisible]
  simp only [Except.ok.injEq, exists_eq_left', Int.toNat_natCast, List.take_of_length_le hlength,
    List.mem_insertionSort, List.mem_filter, MemoryStore.mem_recordsOf, decide_eq_true_eq]

/-! ### What search and export return -/

/-- What a search or an export returns of a record. -/
def MemoryRecord.entry (r : MemoryRecord) : String × String := (r.memoryId, r.contentDigest)

theorem runAlone_searchRecords (records : List MemoryRecord) :
    runAlone reprText (searchRecords scopeId query records) S =
      (.ok ((records.filter fun r =>
        Hit query (contentOf S scopeId r.contentDigest) r).map MemoryRecord.entry), S) := by
  induction records with
  | nil => rfl
  | cons r records ih =>
    have hcontent : runAlone reprText (MemoryRepository.getContent scopeId r.contentDigest) S =
        (.ok (contentOf S scopeId r.contentDigest), S) := rfl
    rw [searchRecords, runAlone_then_ok hcontent, runAlone_then_ok ih, List.filter_cons]
    simp only [decide_eq_true_eq]
    split_ifs <;> rfl

/-- What `search_documents` requires of a record of the scope: it looks at the source and the expiry
only if it is asked to. -/
def Searches (S : MemoryStore) (scopeId query : String) (now : ℤ)
    (availableSourceDigests : List String) (revalidate : Bool) (r : MemoryRecord) : Prop :=
  r.status = .active ∧
    (revalidate = true → r.sourceDigest ∈ availableSourceDigests ∧ r.Unexpired now) ∧
    Hit query (contentOf S scopeId r.contentDigest) r

/-- What `export_corpus` requires of a record of the scope. -/
def Exports (refs : List String) (r : MemoryRecord) : Prop :=
  r.status = .active ∧ r.contentDigest ∈ refs

theorem runAlone_searchDocuments (reprText : String → String) (S : MemoryStore)
    (scopeId query : String) (now : ℤ) (availableSourceDigests : List String) (revalidate : Bool) :
    ∃ results, runAlone reprText (searchDocuments scopeId query now availableSourceDigests
        revalidate) S = (.ok results, S) ∧
      ∀ hit, hit ∈ results ↔ ∃ r, S.record? scopeId r.memoryId = some r ∧
        Searches S scopeId query now availableSourceDigests revalidate r ∧ r.entry = hit := by
  refine ⟨_, (runAlone_then_ok (runAlone_listScope scopeId S)).trans
    (runAlone_searchRecords _), fun hit => ?_⟩
  simp only [List.mem_map, List.mem_filter, MemoryStore.mem_recordsOf, decide_eq_true_eq,
    and_assoc, Searches]

theorem runAlone_exportCorpus (reprText : String → String) (S : MemoryStore) (scopeId : String)
    (refs : List String) :
    ∃ manifest, runAlone reprText (exportCorpus scopeId refs) S = (.ok manifest, S) ∧
      ∀ hit, hit ∈ manifest.entries ↔ ∃ r, S.record? scopeId r.memoryId = some r ∧
        Exports refs r ∧ r.entry = hit := by
  refine ⟨_, runAlone_then_ok (runAlone_listScope scopeId S), fun hit => ?_⟩
  simp only [List.mem_insertionSort, List.mem_map, List.mem_filter, MemoryStore.mem_recordsOf,
    decide_eq_true_eq, and_assoc, MemoryRecord.entry, Exports]

end

/-! ### The three compared -/

/-- What the call returns is of a record that recall admits. -/
def Recallable (S : MemoryStore) (scopeId : String) (now : ℤ) (availableSourceDigests : List String)
    (hits : List (String × String)) : Prop :=
  ∀ hit ∈ hits, ∃ r, r.entry = hit ∧ Admits S scopeId now availableSourceDigests r

/-- All that a search and an export of the scope return is what recall admits. -/
def ReadsAgree (reprText : String → String) (S : MemoryStore) (scopeId : String) (now : ℤ)
    (availableSourceDigests : List String) (query : String) (revalidate : Bool)
    (refs : List String) : Prop :=
  (∀ results S', runAlone reprText (searchDocuments scopeId query now availableSourceDigests
      revalidate) S = (.ok results, S') →
    Recallable S scopeId now availableSourceDigests results) ∧
  ∀ manifest S', runAlone reprText (exportCorpus scopeId refs) S = (.ok manifest, S') →
    Recallable S scopeId now availableSourceDigests manifest.entries

/-- What is selected by `P` is recallable exactly when `P` selects eligible records only. -/
theorem recallable_iff {S : MemoryStore} {scopeId : String} {now : ℤ}
    {availableSourceDigests : List String} {hits : List (String × String)}
    {P : MemoryRecord → Prop}
    (hhits : ∀ hit, hit ∈ hits ↔
      ∃ r, S.record? scopeId r.memoryId = some r ∧ P r ∧ r.entry = hit) :
    Recallable S scopeId now availableSourceDigests hits ↔
      ∀ r, S.record? scopeId r.memoryId = some r → P r →
        Eligible now availableSourceDigests r := by
  constructor
  · intro h r hr hP
    obtain ⟨r', hentry, hadmits⟩ := h r.entry ((hhits _).mpr ⟨r, hr, hP, rfl⟩)
    obtain ⟨hr', heligible⟩ := admits_iff.mp hadmits
    -- the entry names the id, and an id names one record of the scope
    have hid : r'.memoryId = r.memoryId := congrArg Prod.fst hentry
    rw [hid] at hr'
    rwa [Option.some.inj (hr.symm.trans hr')]
  · intro h hit hmem
    obtain ⟨r, hr, hP, hentry⟩ := (hhits hit).mp hmem
    exact ⟨r, hentry, admits_iff.mpr ⟨hr, h r hr hP⟩⟩

/-- **When the read paths agree**: when each active record of the scope that the search hits has
evidence, and is unexpired and from an available source unless the search looks at that itself; and
each active record that is exported has all three, which an export never looks at. -/
theorem readsAgree_iff (reprText : String → String) (S : MemoryStore) (scopeId : String) (now : ℤ)
    (availableSourceDigests : List String) (query : String) (revalidate : Bool)
    (refs : List String) :
    ReadsAgree reprText S scopeId now availableSourceDigests query revalidate refs ↔
      ∀ r, S.record? scopeId r.memoryId = some r → r.status = .active →
        (Hit query (contentOf S scopeId r.contentDigest) r →
          (if revalidate then
              r.sourceDigest ∈ availableSourceDigests → r.Unexpired now → r.evidenceRefs ≠ []
            else
              r.sourceDigest ∈ availableSourceDigests ∧ r.Unexpired now ∧ r.evidenceRefs ≠ [])) ∧
        (r.contentDigest ∈ refs →
          r.sourceDigest ∈ availableSourceDigests ∧ r.Unexpired now ∧ r.evidenceRefs ≠ []) := by
  obtain ⟨results, hsearch, hresults⟩ := runAlone_searchDocuments reprText S scopeId query now
    availableSourceDigests revalidate
  obtain ⟨manifest, hexport, hentries⟩ := runAlone_exportCorpus reprText S scopeId refs
  have hlaw : ReadsAgree reprText S scopeId now availableSourceDigests query revalidate refs ↔
      Recallable S scopeId now availableSourceDigests results ∧
        Recallable S scopeId now availableSourceDigests manifest.entries := by
    simp only [ReadsAgree, hsearch, hexport, Prod.mk.injEq, Except.ok.injEq]
    refine ⟨fun h => ⟨h.1 results S ⟨rfl, rfl⟩, h.2 manifest S ⟨rfl, rfl⟩⟩, fun h => ⟨?_, ?_⟩⟩
    · rintro _ _ ⟨rfl, rfl⟩
      exact h.1
    · rintro _ _ ⟨rfl, rfl⟩
      exact h.2
  rw [hlaw, recallable_iff hresults, recallable_iff hentries, ← forall_and]
  refine forall_congr' fun r => ?_
  rw [← imp_and]
  refine imp_congr_right fun _ => ?_
  simp only [Searches, Exports, Eligible]
  cases revalidate
  · grind
  · grind

/-- An active record that expires at 5. -/
def expiring : MemoryRecord where
  memoryId := "m"
  revision := 2
  scopeId := "s"
  kind := "fact"
  status := .active
  contentDigest := "sha256:a"
  sourceDigest := "src"
  evidenceRefs := ["e"]
  createdAt := 1
  expiresAt := some 5
  supersedes := none

/-- An expired record is exported. -/
theorem expired_is_exported :
    ¬ReadsAgree id { rows := [⟨expiring, .empty⟩], bindable := by decide } "s" 10 ["src"] "" true
      ["sha256:a"] := by
  rintro ⟨-, hexports⟩
  obtain ⟨manifest, hrun, hentries⟩ := runAlone_exportCorpus id
    { rows := [⟨expiring, .empty⟩], bindable := by decide } "s" ["sha256:a"]
  have heligible := (recallable_iff hentries).mp (hexports manifest _ hrun) expiring rfl
    ⟨rfl, List.mem_singleton.mpr rfl⟩
  exact absurd heligible.2.1 (by decide)

end Memory

end CyranoAgent
