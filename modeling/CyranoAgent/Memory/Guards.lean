import CyranoAgent.Memory.Service

/-!
# What a call has seen before it writes

The calls of the service look before they write. `Allowed` says what a call has seen, in its own
past, when it proposes a record or moves one: a record that becomes stale was seen alive, and one
that becomes active passed the checks of `activate_memory`. Whether what was seen still holds is
another question, since other calls may have come in between.
-/

namespace CyranoAgent

open Lib Program

namespace Memory

/-- A record that may still come to be recalled. -/
def MemoryStatus.Live (status : MemoryStatus) : Prop :=
  status = .candidate ∨ status = .active ∨ status = .stale

instance (status : MemoryStatus) : Decidable status.Live :=
  inferInstanceAs (Decidable (_ ∨ _ ∨ _))

/-- A read that shows a record alive. -/
inductive SawLive (scopeId memoryId : String) : MemoryAccess → Prop
  | got (r : MemoryRecord) (hlive : r.status.Live) :
      SawLive scopeId memoryId ⟨.get scopeId memoryId, .ok (some r)⟩
  | listed (rows : List MemoryRecord) (r : MemoryRecord) (hr : r ∈ rows)
      (hid : r.memoryId = memoryId) (hlive : r.status.Live) :
      SawLive scopeId memoryId ⟨.listScope scopeId, .ok rows⟩
  | ghost (ids : List String) (hid : memoryId ∈ ids) :
      SawLive scopeId memoryId ⟨.ghosts scopeId, .ok ids⟩

/-- A read that shows a record not active, or a transition that makes it stale. -/
inductive SawInactive (scopeId memoryId : String) : MemoryAccess → Prop
  | missing : SawInactive scopeId memoryId ⟨.get scopeId memoryId, .ok none⟩
  | got (r : MemoryRecord) (hstatus : r.status ≠ .active) :
      SawInactive scopeId memoryId ⟨.get scopeId memoryId, .ok (some r)⟩
  | staled (expectedRevision : ℤ) (newRevision : Option ℤ) (supersedes : Option String)
      (atTime : ℤ) :
      SawInactive scopeId memoryId
        ⟨.transition scopeId memoryId .stale expectedRevision newRevision supersedes atTime, .ok ()⟩

/-- A call has passed the checks of `activate_memory`: it read the record as a candidate or as
stale, then no conflict, and since then the record to supersede as inactive. -/
def Checked (past : List MemoryAccess) (scopeId memoryId : String) (supersedes : Option String) :
    Prop :=
  ∃ looked rows since record,
    past = looked ++ ⟨.listScope scopeId, .ok rows⟩ :: since ∧
    ⟨.get scopeId memoryId, .ok (some record)⟩ ∈ looked ∧
    (record.status = .candidate ∨ record.status = .stale) ∧
    conflicts rows memoryId record.kind supersedes = [] ∧
    ∀ old ∈ supersedes, ∃ access ∈ since, SawInactive scopeId old access

/-- What a call has seen before a write. -/
def Allowed (past : List MemoryAccess) : MemoryStep → Prop
  | .putCandidate record .. => record.status = .candidate
  | .transition scopeId memoryId toStatus _ _ supersedes _ =>
    match toStatus with
    | .candidate => False
    | .active => Checked past scopeId memoryId supersedes
    | .stale => ∃ access ∈ past, SawLive scopeId memoryId access
    | .quarantined | .deleted => True
  | _ => True

section

variable {scopeId memoryId : String} {toStatus : MemoryStatus} {expectedRevision atTime : ℤ}
  {newRevision : Option ℤ} {supersedes : Option String} {past : List MemoryAccess} {α : Type}

/-! ### The repository -/

@[simp] theorem ensures_get {Q : List MemoryAccess → Option MemoryRecord → Prop} :
    Ensures Allowed Q past (MemoryRepository.get scopeId memoryId) ↔
      ∀ reply, Q (past ++ [⟨.get scopeId memoryId, .ok reply⟩]) reply :=
  and_iff_right trivial

@[simp] theorem ensures_listScope {Q : List MemoryAccess → List MemoryRecord → Prop} :
    Ensures Allowed Q past (MemoryRepository.listScope scopeId) ↔
      ∀ rows, Q (past ++ [⟨.listScope scopeId, .ok rows⟩]) rows :=
  and_iff_right trivial

/-- A transition appends itself, and a read of what it left. -/
theorem ensures_transition {Q : List MemoryAccess → MemoryRecord → Prop}
    (hallowed : Allowed past (.transition scopeId memoryId toStatus expectedRevision newRevision
      supersedes atTime))
    (hQ : ∀ r, Q (past ++ [⟨.transition scopeId memoryId toStatus expectedRevision newRevision
      supersedes atTime, .ok ()⟩, ⟨.get scopeId memoryId, .ok (some r)⟩]) r) :
    Ensures Allowed Q past (MemoryRepository.transition scopeId memoryId toStatus expectedRevision
      newRevision supersedes atTime) := by
  rw [MemoryRepository.transition, ensures_bind, ensures_perform]
  refine ⟨hallowed, fun _ => ?_⟩
  rw [ensures_bind, ensures_get]
  rintro (_ | r)
  · exact ensures_raise
  · have hpast := hQ r
    rwa [List.append_cons] at hpast

/-! ### Invalidation -/

/-- The call has gone on from this past, and in what it did since it saw the record inactive. -/
def InactiveSince (past : List MemoryAccess) (scopeId memoryId : String)
    (past' : List MemoryAccess) : Prop :=
  ∃ since, past' = past ++ since ∧ ∃ access ∈ since, SawInactive scopeId memoryId access

theorem InactiveSince.of_mem {past' : List MemoryAccess} {access : MemoryAccess}
    (since : List MemoryAccess) (hpast : past' = past ++ since) (hmem : access ∈ since)
    (hsaw : SawInactive scopeId memoryId access) : InactiveSince past scopeId memoryId past' :=
  ⟨since, hpast, access, hmem, hsaw⟩

/-- What was seen stays seen. -/
theorem InactiveSince.append {past' : List MemoryAccess}
    (h : InactiveSince past scopeId memoryId past') (more : List MemoryAccess) :
    InactiveSince past scopeId memoryId (past' ++ more) := by
  obtain ⟨since, rfl, access, hmem, hsaw⟩ := h
  exact .of_mem (since ++ more) (List.append_assoc ..) (List.mem_append_left _ hmem) hsaw

/-- What was seen inactive since a later point was seen so since an earlier one. -/
theorem InactiveSince.weaken {more past' : List MemoryAccess}
    (h : InactiveSince (past ++ more) scopeId memoryId past') :
    InactiveSince past scopeId memoryId past' := by
  obtain ⟨since, rfl, access, hmem, hsaw⟩ := h
  exact .of_mem (more ++ since) (List.append_assoc ..) (List.mem_append_right _ hmem) hsaw

/-- A round of an invalidation goes on from its past, and sees its record inactive. -/
theorem ensures_staleIfActive {Q : List MemoryAccess → Unit → Prop}
    (hQ : ∀ since, (∃ access ∈ since, SawInactive scopeId memoryId access) → Q (past ++ since) ()) :
    Ensures Allowed Q past (staleIfActive scopeId atTime memoryId) := by
  rw [staleIfActive, ensures_bind, ensures_get]
  rintro (_ | current)
  · exact hQ _ ⟨_, List.mem_singleton_self _, .missing⟩
  dsimp only
  split
  · next hactive =>
    rw [ensures_bind]
    have hlive : ∃ access ∈ past ++ [⟨.get scopeId memoryId, .ok (some current)⟩],
        SawLive scopeId memoryId access :=
      ⟨_, List.mem_append_right _ (List.mem_singleton_self _), .got current (.inr (.inl hactive))⟩
    refine ensures_transition hlive fun r => ?_
    rw [ensures_pure, List.append_assoc]
    exact hQ _ ⟨_, by simp, .staled current.revision none none atTime⟩
  · next hactive => exact hQ _ ⟨_, List.mem_singleton_self _, .got current hactive⟩

/-- **An invalidation sees its record inactive.** -/
theorem ensures_invalidateMemory {Q : List MemoryAccess → List String → Prop}
    (hQ : ∀ past' affected, InactiveSince past scopeId memoryId past' → Q past' affected) :
    Ensures Allowed Q past (invalidateMemory scopeId memoryId atTime) := by
  rw [invalidateMemory, ensures_bind, ensures_get]
  rintro (_ | r)
  · exact hQ _ _ (.of_mem _ rfl (List.mem_singleton_self _) .missing)
  dsimp only
  rw [ensures_bind, dependencyClosure, ensures_bind, ensures_listScope]
  intro rows
  rw [ensures_pure, ensures_bind]
  -- the first round is the record's own; the others only go on
  change Ensures Allowed _ _ (staleIfActive scopeId atTime memoryId >>= fun _ =>
    List.forM _ (staleIfActive scopeId atTime))
  rw [ensures_bind]
  refine ensures_staleIfActive fun since hsaw => ?_
  obtain ⟨access, hmem, hsaw⟩ := hsaw
  have hfirst : InactiveSince past scopeId memoryId
      (past ++ [⟨.get scopeId memoryId, .ok (some r)⟩] ++ [⟨.listScope scopeId, .ok rows⟩] ++
        since) :=
    (InactiveSince.of_mem since rfl hmem hsaw).weaken.weaken
  refine (ensures_forM (I := InactiveSince past scopeId memoryId) (fun id _ past' h => ?_)
    hfirst).mono fun past' _ h => hQ past' _ h
  exact ensures_staleIfActive fun since _ => h.append since

/-- After its step to supersede, an activation has seen inactive what it was to supersede. -/
theorem ensures_supersede {Q : List MemoryAccess → Unit → Prop}
    (hQ : ∀ since, (∀ old ∈ supersedes, ∃ access ∈ since, SawInactive scopeId old access) →
      Q (past ++ since) ()) :
    Ensures Allowed Q past (supersede scopeId supersedes atTime) := by
  cases supersedes with
  | none =>
    have hnothing := hQ [] (by simp)
    rw [List.append_nil] at hnothing
    exact hnothing
  | some old =>
    have hold : ∀ past', InactiveSince past scopeId old past' → Q past' () := by
      rintro _ ⟨since, rfl, access, hmem, hsaw⟩
      exact hQ since fun _ hsome => ⟨access, hmem, Option.some.inj hsome ▸ hsaw⟩
    rw [supersede, ensures_bind, ensures_get]
    rintro (_ | r)
    · exact hold _ (.of_mem _ rfl (List.mem_singleton_self _) .missing)
    dsimp only
    split
    · rw [ensures_bind]
      exact ensures_invalidateMemory fun past' _ h => hold past' h.weaken
    · next hactive => exact hold _ (.of_mem _ rfl (List.mem_singleton_self _) (.got r hactive))

/-! ### The calls -/

/-- An activation passes its checks before it moves its record. -/
theorem ensures_activateMemory (reprText : String → String) :
    Ensures Allowed (fun _ _ => True) past (activateMemory reprText scopeId memoryId
      expectedRevision supersedes atTime) := by
  rw [activateMemory, ensures_bind, ensures_get]
  rintro (_ | record)
  · exact ensures_raise
  dsimp only
  rw [ensures_bind, ensures_raiseIf]
  intro hstatus
  rw [ensures_bind, ensures_listScope]
  intro rows
  rw [ensures_bind, ensures_raiseIf]
  intro hconflict
  rw [ensures_bind]
  refine ensures_supersede fun since hsince => ensures_transition ?_ fun _ => trivial
  refine ⟨past ++ [⟨.get scopeId memoryId, .ok (some record)⟩], rows, since, record, by simp,
    by simp, ?_, not_not.mp hconflict, hsince⟩
  by_cases hcandidate : record.status = .candidate
  · exact .inl hcandidate
  · exact .inr (by simpa [hcandidate] using hstatus)

/-- Deletion and quarantine may take a record in any status. -/
theorem ensures_removal {Q : List MemoryAccess → α → Prop} {next : MemoryRecord → MemoryProgram α}
    {e : Failure} (hstatus : toStatus = .deleted ∨ toStatus = .quarantined)
    (hnext : ∀ past' r, Ensures Allowed Q past' (next r)) :
    Ensures Allowed Q past (do
      match ← MemoryRepository.get scopeId memoryId with
      | none => raise e
      | some record =>
        let r ← MemoryRepository.transition scopeId memoryId toStatus record.revision none none
          atTime
        next r) := by
  rw [ensures_bind, ensures_get]
  rintro (_ | record)
  · exact ensures_raise
  dsimp only
  rw [ensures_bind]
  refine ensures_transition ?_ fun r => hnext _ r
  rcases hstatus with rfl | rfl <;> trivial

/-- Each round of `mark_stale_if_source_moved` moves a record that the call has listed as active. -/
theorem ensures_markStaleIfSourceMoved {currentSourceDigests : List String} :
    Ensures Allowed (fun _ _ => True) past
      (markStaleIfSourceMoved scopeId currentSourceDigests atTime) := by
  rw [markStaleIfSourceMoved, ensures_bind, ensures_listScope]
  intro rows
  rw [ensures_bind]
  refine (ensures_forM (I := fun past' => ⟨.listScope scopeId, .ok rows⟩ ∈ past')
    (fun r hr past' hlisted => ?_) (by simp)).mono fun _ _ _ => trivial
  obtain ⟨hmem, hmoved⟩ := List.mem_filter.mp hr
  have hactive : r.status = .active := (of_decide_eq_true hmoved).1
  rw [ensures_bind]
  refine ensures_transition ⟨_, hlisted, .listed rows r hmem rfl (.inr (.inl hactive))⟩ fun _ => ?_
  exact List.mem_append_left _ hlisted

/-- Each round of `reconcile_ghosts` moves a record that was active when the ghosts were sought. -/
theorem ensures_reconcileGhosts :
    Ensures Allowed (fun _ _ => True) past (MemoryRepository.reconcileGhosts scopeId) := by
  rw [MemoryRepository.reconcileGhosts]
  refine ensures_bind.mpr ⟨trivial, fun (ids : List String) => ensures_bind.mpr ?_⟩
  refine (ensures_forM (I := fun past' => ⟨.ghosts scopeId, .ok ids⟩ ∈ past')
    (fun id hid past' hghosts => ?_) (by simp)).mono fun _ _ _ => trivial
  rw [ensures_bind, ensures_get]
  have hghosts' (reply : Option MemoryRecord) :
      (⟨.ghosts scopeId, .ok ids⟩ : MemoryAccess) ∈ past' ++ [⟨.get scopeId id, .ok reply⟩] :=
    List.mem_append_left _ hghosts
  rintro (_ | record)
  · exact hghosts' none
  dsimp only
  rw [ensures_bind]
  refine ensures_transition ⟨_, hghosts' _, .ghost ids hid⟩ fun _ => ?_
  exact List.mem_append_left _ (hghosts' _)

/-- An import writes no record. -/
theorem ensures_importIndex {manifest : ExportManifest} {blobs : String → Option ByteArray} :
    Ensures Allowed (fun _ _ => True) past (importIndex scopeId manifest blobs) := by
  refine ensures_forM (I := fun _ => True) (fun entry _ past' _ => ?_) trivial
  dsimp only
  cases blobs entry.2 with
  | none => exact ensures_raise
  | some blob =>
    dsimp only
    rw [ensures_bind, ensures_raiseIf]
    intro _
    rw [ensures_bind]
    exact ⟨trivial, fun (restored : Bool) => ensures_raiseIf.mpr fun _ => trivial⟩

/-- A search writes nothing. -/
theorem ensures_searchRecords {query : String} (records : List MemoryRecord) :
    Ensures Allowed (fun _ _ => True) past (searchRecords scopeId query records) := by
  induction records generalizing past with
  | nil => trivial
  | cons r records ih =>
    rw [searchRecords, ensures_bind]
    refine ⟨trivial, fun body => ensures_bind.mpr ?_⟩
    exact ih.mono fun _ _ _ => trivial

/-- **Every call looks before it writes.** -/
theorem ensures_program (reprText : String → String) (call : MemoryCall) :
    Ensures Allowed (fun _ _ => True) [] (call.program reprText) := by
  cases call with
  | propose scopeId memoryId kind content sourceDigest evidenceRefs atTime expiresAt rank =>
    rw [MemoryCall.program, ensures_bind, proposeMemory, ensures_bind,
      MemoryRepository.putCandidate]
    refine ensures_bind.mpr (ensures_raiseIf.mpr fun _ => ?_)
    exact ⟨rfl, fun _ => trivial⟩
  | activate scopeId memoryId expectedRevision supersedes atTime =>
    rw [MemoryCall.program, ensures_bind]
    exact (ensures_activateMemory reprText).mono fun _ _ _ => trivial
  | invalidate scopeId memoryId atTime =>
    rw [MemoryCall.program, ensures_bind]
    exact ensures_invalidateMemory fun _ _ _ => trivial
  | delete scopeId memoryId atTime pendingProjections =>
    rw [MemoryCall.program, ensures_bind, deleteMemory]
    exact ensures_removal (.inl rfl) fun _ _ => trivial
  | get scopeId memoryId =>
    rw [MemoryCall.program, ensures_bind, ensures_get]
    exact fun _ => trivial
  | query scopeId now availableSourceDigests queryTerms limit =>
    rw [MemoryCall.program, ensures_bind, queryMemory, ensures_bind, ensures_listScope]
    intro rows
    cases selectRecall rows scopeId now availableSourceDigests queryTerms limit <;> trivial
  | markStaleIfSourceMoved scopeId currentSourceDigests atTime =>
    rw [MemoryCall.program, ensures_bind]
    exact ensures_markStaleIfSourceMoved.mono fun _ _ _ => trivial
  | quarantine scopeId memoryId atTime =>
    rw [MemoryCall.program, ensures_bind, quarantine]
    exact ensures_removal (.inr rfl) fun _ _ => trivial
  | reconcileGhosts scopeId =>
    rw [MemoryCall.program, ensures_bind]
    exact ensures_reconcileGhosts.mono fun _ _ _ => trivial
  | exportCorpus scopeId refs =>
    rw [MemoryCall.program, ensures_bind, exportCorpus, ensures_bind, ensures_listScope]
    exact fun _ => trivial
  | importIndex scopeId manifest blobs =>
    rw [MemoryCall.program, ensures_bind]
    exact ensures_importIndex.mono fun _ _ _ => trivial
  | search scopeId text now availableSourceDigests revalidate =>
    rw [MemoryCall.program, ensures_bind, searchDocuments, ensures_bind, ensures_listScope]
    exact fun rows => (ensures_searchRecords _).mono fun _ _ _ => trivial

end

end Memory

end CyranoAgent
