import CyranoAgent.Lib.Ranking
import CyranoAgent.Memory.Store

/-!
# Recall

`select_recall` filters the records it is given by scope, status, expiry, source and evidence, in
this order, and ranks what is left. `Eligible` says what passes, and `mem_selectRecall_iff` what of
it is within the limit.
-/

namespace CyranoAgent

namespace Memory

/-- `RecallResult`. -/
structure RecallResult where
  records : List MemoryRecord
  reason : String
  excluded : List String

/-- A record is not yet expired. -/
def MemoryRecord.Unexpired (r : MemoryRecord) (now : ℤ) : Prop := ∀ t ∈ r.expiresAt, now < t

instance (r : MemoryRecord) (now : ℤ) : Decidable (r.Unexpired now) :=
  inferInstanceAs (Decidable (∀ t ∈ r.expiresAt, now < t))

/-- What `select_recall` requires of a record of the scope. -/
def Eligible (now : ℤ) (availableSourceDigests : List String) (r : MemoryRecord) : Prop :=
  r.status = .active ∧ r.Unexpired now ∧ r.sourceDigest ∈ availableSourceDigests ∧
    r.evidenceRefs ≠ []

instance (now : ℤ) (availableSourceDigests : List String) (r : MemoryRecord) :
    Decidable (Eligible now availableSourceDigests r) :=
  inferInstanceAs (Decidable (_ ∧ _))

/-- `text in other`, for strings. -/
def Within (text other : String) : Prop := text.toList <:+: other.toList

instance (text other : String) : Decidable (Within text other) :=
  inferInstanceAs (Decidable (_ <:+: _))

/-- Higher ranks first, then by id. -/
def rankedBefore (r r' : MemoryRecord) : Bool :=
  r'.rank < r.rank ∨ (r.rank = r'.rank ∧ r.memoryId ≤ r'.memoryId)

/-- `select_recall`. -/
def selectRecall (records : List MemoryRecord) (scopeId : String) (now : ℤ)
    (availableSourceDigests : List String) (queryTerms : Option (List String)) (limit : ℤ) :
    Except Failure RecallResult :=
  if limit < 0 then .error (.cyrano "INVALID_LIMIT" "limit must be nonnegative")
  else
    -- a record of another scope leaves no trace, not even an id among the excluded
    let visible := records.filter (·.scopeId = scopeId)
    let eligible := visible.filter fun r => Eligible now availableSourceDigests r
    let excluded := visible.filter fun r => ¬Eligible now availableSourceDigests r
    let asked := match queryTerms with
      | none => eligible
      | some terms => eligible.filter fun r => terms.any fun term => Within term r.kind
    let chosen := (asked.insertionSort (rankedBefore · ·)).take limit.toNat
    .ok {
      records := chosen
      reason := if chosen = [] then "no_recall" else "ok"
      excluded := (excluded.map (·.memoryId)).insertionSort (· ≤ ·) }

/-! ### What is selected -/

/-- The record is of a kind that one of the terms is in, if there are terms. -/
def AskedFor (queryTerms : Option (List String)) (r : MemoryRecord) : Prop :=
  ∀ terms ∈ queryTerms, ∃ term ∈ terms, Within term r.kind

instance (queryTerms : Option (List String)) (r : MemoryRecord) :
    Decidable (AskedFor queryTerms r) :=
  inferInstanceAs (Decidable (∀ terms ∈ queryTerms, _))

/-- The record `r'` comes before `r`: by its rank, or among records of the rank by its id. -/
def Outranks (r' r : MemoryRecord) : Prop :=
  r.rank < r'.rank ∨ (r'.rank = r.rank ∧ r'.memoryId < r.memoryId)

instance (r' r : MemoryRecord) : Decidable (Outranks r' r) := inferInstanceAs (Decidable (_ ∨ _))

theorem not_rankedBefore_iff {r r' : MemoryRecord} :
    ¬rankedBefore r r' = true ↔ Outranks r' r := by
  rw [rankedBefore, decide_eq_true_eq, Outranks, not_or, not_and, not_lt, not_le]
  constructor
  · rintro ⟨hrank, hid⟩
    rcases hrank.lt_or_eq with hlt | heq
    · exact .inl hlt
    · exact .inr ⟨heq.symm, hid heq⟩
  · rintro (hlt | ⟨heq, hid⟩)
    · exact ⟨hlt.le, fun heq => absurd heq hlt.ne⟩
    · exact ⟨heq.ge, fun _ => hid⟩

instance : Std.Total fun r r' : MemoryRecord => rankedBefore r r' = true where
  total r r' := by
    by_contra! h
    have houtranks := not_rankedBefore_iff.mp h.1
    have houtranks' := not_rankedBefore_iff.mp h.2
    rcases houtranks with hlt | ⟨heq, hid⟩
    · rcases houtranks' with hlt' | ⟨heq', -⟩
      · exact lt_asymm hlt hlt'
      · exact hlt.ne heq'
    · rcases houtranks' with hlt' | ⟨-, hid'⟩
      · exact hlt'.ne heq
      · exact lt_asymm hid hid'

instance : IsTrans MemoryRecord fun r r' => rankedBefore r r' = true where
  trans r₁ r₂ r₃ h₁ h₂ := by
    simp only [rankedBefore, decide_eq_true_eq] at *
    rcases h₁ with hlt | ⟨heq, hid⟩
    · rcases h₂ with hlt' | ⟨heq', -⟩
      · exact .inl (hlt'.trans hlt)
      · exact .inl (heq' ▸ hlt)
    · rcases h₂ with hlt' | ⟨heq', hid'⟩
      · exact .inl (heq ▸ hlt')
      · exact .inr ⟨heq.trans heq', hid.trans hid'⟩

section

variable {records : List MemoryRecord} {scopeId : String} {now limit : ℤ}
  {availableSourceDigests : List String} {queryTerms : Option (List String)}
  {result : RecallResult} {r : MemoryRecord}

/-- How many of the records that recall would return without a limit come before `r`. -/
def recallRank (records : List MemoryRecord) (now : ℤ) (availableSourceDigests : List String)
    (queryTerms : Option (List String)) (r : MemoryRecord) : ℕ :=
  records.countP fun r' =>
    (Eligible now availableSourceDigests r' ∧ AskedFor queryTerms r') ∧ Outranks r' r

/-- A selection at a time when the same records are eligible. -/
theorem selectRecall_congr {later : ℤ}
    (h : ∀ r ∈ records, r.scopeId = scopeId →
      (Eligible later availableSourceDigests r ↔ Eligible now availableSourceDigests r)) :
    selectRecall records scopeId later availableSourceDigests queryTerms limit =
      selectRecall records scopeId now availableSourceDigests queryTerms limit := by
  have hvisible : ∀ r ∈ records.filter (·.scopeId = scopeId),
      (Eligible later availableSourceDigests r ↔ Eligible now availableSourceDigests r) :=
    fun r hr => h r (List.mem_of_mem_filter hr) (of_decide_eq_true (List.mem_filter.mp hr).2)
  have heligible : ((records.filter (·.scopeId = scopeId)).filter fun r =>
        Eligible later availableSourceDigests r) =
      (records.filter (·.scopeId = scopeId)).filter fun r =>
        Eligible now availableSourceDigests r :=
    List.filter_congr fun r hr => decide_eq_decide.mpr (hvisible r hr)
  have hexcluded : ((records.filter (·.scopeId = scopeId)).filter fun r =>
        ¬Eligible later availableSourceDigests r) =
      (records.filter (·.scopeId = scopeId)).filter fun r =>
        ¬Eligible now availableSourceDigests r :=
    List.filter_congr fun r hr => decide_eq_decide.mpr (not_congr (hvisible r hr))
  simp only [selectRecall, heligible, hexcluded]

/-- A selection from the records of one scope. -/
theorem selectRecall_eq_ok
    (h : selectRecall records scopeId now availableSourceDigests queryTerms limit = .ok result)
    (hscope : ∀ r ∈ records, r.scopeId = scopeId) :
    0 ≤ limit ∧
      result.records = ((records.filter fun r => Eligible now availableSourceDigests r ∧
        AskedFor queryTerms r).insertionSort (rankedBefore · ·)).take limit.toNat ∧
      result.excluded = ((records.filter fun r => ¬Eligible now availableSourceDigests r).map
        (·.memoryId)).insertionSort (· ≤ ·) := by
  have hvisible : records.filter (·.scopeId = scopeId) = records :=
    List.filter_eq_self.mpr fun r hr => decide_eq_true (hscope r hr)
  rw [selectRecall.eq_def, hvisible] at h
  split_ifs at h with hlimit
  refine ⟨not_lt.mp hlimit, ?_⟩
  rw [← Except.ok.inj h]
  refine ⟨?_, rfl⟩
  cases queryTerms with
  | none => simp [AskedFor]
  | some terms =>
    dsimp only
    rw [List.filter_filter]
    have hasked : (fun r : MemoryRecord => (terms.any fun term => Within term r.kind) &&
          decide (Eligible now availableSourceDigests r)) =
        fun r => decide (Eligible now availableSourceDigests r ∧ AskedFor (some terms) r) := by
      funext r
      rw [Bool.eq_iff_iff]
      simp [AskedFor, and_comm]
    rw [hasked]

/-- **What recall returns**, of records of one scope with different ids: what is eligible and asked
for, if fewer than the limit come before it. -/
theorem mem_selectRecall_iff
    (h : selectRecall records scopeId now availableSourceDigests queryTerms limit = .ok result)
    (hscope : ∀ r ∈ records, r.scopeId = scopeId) (hids : (records.map (·.memoryId)).Nodup) :
    r ∈ result.records ↔ (r ∈ records ∧ Eligible now availableSourceDigests r ∧
      AskedFor queryTerms r) ∧
        recallRank records now availableSourceDigests queryTerms r < limit := by
  obtain ⟨hlimit, hrecords, -⟩ := selectRecall_eq_ok h hscope
  have hantisymm : ∀ {a b : MemoryRecord}, a ∈ records → b ∈ records →
      rankedBefore a b → rankedBefore b a → a = b := by
    intro a b ha hb hab hba
    refine List.inj_on_of_nodup_map hids ha hb ?_
    simp only [rankedBefore, decide_eq_true_eq] at hab hba
    rcases hab with hlt | ⟨heq, hid⟩
    · rcases hba with hlt' | ⟨heq', -⟩
      · exact absurd hlt' hlt.asymm
      · exact absurd heq' hlt.ne
    · rcases hba with hlt' | ⟨-, hid'⟩
      · exact absurd heq hlt'.ne
      · exact le_antisymm hid hid'
  rw [hrecords]
  by_cases hr : r ∈ records
  · rw [Lib.mem_take_insertionSort_iff (hids.of_map.filter _) fun b hb hab hba =>
      hantisymm hr (List.mem_of_mem_filter hb) hab hba]
    have hcount : ((records.filter fun r => Eligible now availableSourceDigests r ∧
        AskedFor queryTerms r).countP fun r' => ¬rankedBefore r r') =
          recallRank records now availableSourceDigests queryTerms r := by
      rw [List.countP_filter, recallRank]
      refine List.countP_congr fun r' _ => ?_
      simp only [not_rankedBefore_iff, Bool.and_eq_true, decide_eq_true_eq]
      exact and_comm
    rw [hcount, Int.lt_toNat, List.mem_filter, decide_eq_true_eq]
  · exact iff_of_false (fun hmem => hr (List.mem_of_mem_filter
      ((List.mem_insertionSort _).mp (List.mem_of_mem_take hmem)))) fun h => hr h.1.1

/-- What recall returns has different ids, if the records have. -/
theorem nodup_ids_selectRecall
    (h : selectRecall records scopeId now availableSourceDigests queryTerms limit = .ok result)
    (hscope : ∀ r ∈ records, r.scopeId = scopeId) (hids : (records.map (·.memoryId)).Nodup) :
    (result.records.map (·.memoryId)).Nodup := by
  obtain ⟨-, hrecords, -⟩ := selectRecall_eq_ok h hscope
  rw [hrecords, List.map_take]
  refine List.Nodup.sublist (List.take_sublist _ _) ?_
  have hperm := (List.perm_insertionSort (fun a b => rankedBefore a b = true)
    (records.filter fun r => Eligible now availableSourceDigests r ∧
      AskedFor queryTerms r)).map (·.memoryId)
  exact hperm.nodup_iff.mpr ((List.filter_sublist.map _).nodup hids)

/-- What recall excludes: the ids of what is not eligible. -/
theorem mem_excluded_selectRecall_iff
    (h : selectRecall records scopeId now availableSourceDigests queryTerms limit = .ok result)
    (hscope : ∀ r ∈ records, r.scopeId = scopeId) {memoryId : String} :
    memoryId ∈ result.excluded ↔
      ∃ r ∈ records, ¬Eligible now availableSourceDigests r ∧ r.memoryId = memoryId := by
  rw [(selectRecall_eq_ok h hscope).2.2]
  simp [and_assoc]

end

end Memory

end CyranoAgent
