import CyranoAgent.Lib.Closure
import CyranoAgent.Memory.Service

/-!
# Invalidation and deletion on their own

What `invalidate_memory` and `delete_memory` do to a store when nothing interrupts them. The closure
of a record is what is derived from it through any chain of `supersedes` links
(`mem_dependents_iff`). Invalidation takes it along and deletion does not: `removals_iff` says when
nothing derived is left active.
-/

namespace CyranoAgent

open Lib Lib.Action Relation

namespace Memory

/-- A call that nothing interrupts. -/
def runAlone {α : Type} (reprText : String → String) (p : MemoryProgram α) (S : MemoryStore) :
    Except Failure α × MemoryStore :=
  (p.alone (MemoryStep.act reprText)).run S

section

variable {reprText : String → String} {S S' : MemoryStore} {scopeId memoryId : String}
  {toStatus : MemoryStatus} {expectedRevision atTime : ℤ} {newRevision : Option ℤ}
  {supersedes : Option String} {r : MemoryRecord} {α β : Type}

/-! ### Running the repository -/

theorem runAlone_pure (a : α) : runAlone reprText (pure a) S = (.ok a, S) := rfl

theorem runAlone_raise (e : Failure) :
    runAlone reprText (Program.raise e : MemoryProgram α) S = (.error e, S) := rfl

theorem runAlone_then_ok {p : MemoryProgram α} {next : α → MemoryProgram β} {a : α}
    (h : runAlone reprText p S = (.ok a, S')) :
    runAlone reprText (p >>= next) S = runAlone reprText (next a) S' := by
  rw [runAlone, Program.alone_bind]
  exact run_bind_ok h

theorem runAlone_then_error {p : MemoryProgram α} {next : α → MemoryProgram β} {e : Failure}
    (h : runAlone reprText p S = (.error e, S')) :
    runAlone reprText (p >>= next) S = (.error e, S') := by
  rw [runAlone, Program.alone_bind]
  exact run_bind_error h

theorem runAlone_perform (step : MemoryStep) (S : MemoryStore) :
    runAlone reprText (Program.perform step) S = (step.act reprText).run S := by
  rw [runAlone, Program.alone_perform]

theorem runAlone_raiseIf {c : Prop} [Decidable c] {e : Failure} {next : Unit → MemoryProgram β} :
    runAlone reprText (Program.raiseIf c e >>= next) S =
      if c then (.error e, S) else runAlone reprText (next ()) S := by
  rw [runAlone, Program.alone_bind, Program.alone_raiseIf]
  exact run_raiseIf_bind c e _ S

theorem runAlone_get (scopeId memoryId : String) (S : MemoryStore) :
    runAlone reprText (MemoryRepository.get scopeId memoryId) S =
      (.ok (S.record? scopeId memoryId), S) := rfl

theorem runAlone_listScope (scopeId : String) (S : MemoryStore) :
    runAlone reprText (MemoryRepository.listScope scopeId) S = (.ok (S.recordsOf scopeId), S) := rfl

/-- A transition that finds what it expects. -/
theorem runAlone_transition (hrecord : S.record? scopeId memoryId = some r)
    (hrevision : r.revision = expectedRevision)
    (hbindable : Repository.Bindable (r.after toStatus newRevision supersedes).revision) :
    runAlone reprText (MemoryRepository.transition scopeId memoryId toStatus expectedRevision
        newRevision supersedes atTime) S =
      (.ok (r.after toStatus newRevision supersedes), S.transitioned scopeId memoryId toStatus
        (r.after toStatus newRevision supersedes).revision hbindable supersedes atTime) := by
  have hstep : runAlone reprText (Program.perform (MemoryStep.transition scopeId memoryId toStatus
      expectedRevision newRevision supersedes atTime)) S = (.ok (), _) :=
    (runAlone_perform _ S).trans (transition_eq_ok.mpr ⟨r, hrecord, hrevision, hbindable, rfl⟩)
  have hafter : (S.transitioned scopeId memoryId toStatus
      (r.after toStatus newRevision supersedes).revision hbindable supersedes atTime).record?
        scopeId memoryId = some (r.after toStatus newRevision supersedes) := by
    rw [record?_transitioned, if_pos rfl, hrecord]
    rfl
  rw [MemoryRepository.transition]
  refine (runAlone_then_ok hstep).trans ?_
  rw [runAlone_then_ok (runAlone_get _ _ _), hafter]
  rfl

/-- A transition that goes wrong changes nothing. -/
theorem runAlone_transition_error
    (hno : ∀ r, S.record? scopeId memoryId = some r → r.revision = expectedRevision →
      ¬Repository.Bindable (r.after toStatus newRevision supersedes).revision) :
    ∃ e, runAlone reprText (MemoryRepository.transition scopeId memoryId toStatus expectedRevision
      newRevision supersedes atTime) S = (.error e, S) := by
  rcases hrun : ((MemoryStep.transition scopeId memoryId toStatus expectedRevision newRevision
    supersedes atTime).act reprText).run S with ⟨e | _, S'⟩
  · obtain rfl : S' = S := run_transaction_error hrun
    exact ⟨e, runAlone_then_error ((runAlone_perform _ _).trans hrun)⟩
  · obtain ⟨r, hrecord, hrevision, hbindable, -⟩ := transition_eq_ok.mp hrun
    exact absurd hbindable (hno r hrecord hrevision)

/-! ### What becomes of the records -/

/-- The records of the second store are those of the first, changed by `f`. -/
def Becomes (f : MemoryRecord → MemoryRecord) (S S' : MemoryStore) : Prop :=
  ∀ scopeId memoryId, S'.record? scopeId memoryId = (S.record? scopeId memoryId).map f

/-- The record after a transition of an id that names no new revision and nothing superseded. -/
def MemoryRecord.turned (scopeId memoryId : String) (toStatus : MemoryStatus) (r : MemoryRecord) :
    MemoryRecord :=
  if r.scopeId = scopeId ∧ r.memoryId = memoryId then { r with status := toStatus } else r

/-- The record after those of `memoryIds` in the scope were made stale where they were active. -/
def MemoryRecord.staled (scopeId : String) (memoryIds : List String) (r : MemoryRecord) :
    MemoryRecord :=
  if r.scopeId = scopeId ∧ r.memoryId ∈ memoryIds ∧ r.status = .active then
    { r with status := .stale } else r

theorem Becomes.congr {f g : MemoryRecord → MemoryRecord} (h : Becomes f S S')
    (hfg : ∀ r, S.record? r.scopeId r.memoryId = some r → f r = g r) : Becomes g S S' := by
  intro scopeId memoryId
  rw [h scopeId memoryId]
  cases hrecord : S.record? scopeId memoryId with
  | none => rfl
  | some r =>
    obtain ⟨rfl, rfl⟩ := MemoryStore.key_of_record? hrecord
    rw [Option.map_some, Option.map_some, hfg r hrecord]

theorem becomes_same {f : MemoryRecord → MemoryRecord}
    (hf : ∀ r, S.record? r.scopeId r.memoryId = some r → f r = r) : Becomes f S S :=
  Becomes.congr (fun _ _ => Option.map_id'.symm) fun r hr => (hf r hr).symm

/-- A transition under the revision that was just read. -/
theorem runAlone_turn (reprText : String → String) (toStatus : MemoryStatus) (atTime : ℤ)
    (hrecord : S.record? scopeId memoryId = some r) :
    ∃ S', runAlone reprText (MemoryRepository.transition scopeId memoryId toStatus r.revision none
        none atTime) S = (.ok (r.after toStatus none none), S') ∧
      Becomes (MemoryRecord.turned scopeId memoryId toStatus) S S' := by
  have hbindable : Repository.Bindable (r.after toStatus none none).revision := by
    simpa [MemoryRecord.after] using MemoryStore.bindable_of_record? hrecord
  refine ⟨_, runAlone_transition hrecord rfl hbindable, fun scope id => ?_⟩
  rw [record?_transitioned]
  cases hother : S.record? scope id with
  | none => simp
  | some r' =>
    obtain ⟨rfl, rfl⟩ := MemoryStore.key_of_record? hother
    rw [Option.map_some, Option.map_some, MemoryRecord.turned]
    split_ifs with hkey hsame hsame
    · obtain rfl : r' = r := Option.some.inj (hother.symm.trans (hsame.1 ▸ hsame.2 ▸ hrecord))
      rfl
    · exact absurd (Prod.mk.inj hkey) hsame
    · exact absurd (Prod.ext hsame.1 hsame.2) hkey
    · rfl

/-- One round of an invalidation. -/
theorem runAlone_staleIfActive (reprText : String → String) (scopeId : String) (atTime : ℤ)
    (memoryId : String) (S : MemoryStore) :
    ∃ S', runAlone reprText (staleIfActive scopeId atTime memoryId) S = (.ok (), S') ∧
      Becomes (MemoryRecord.staled scopeId [memoryId]) S S' := by
  have hstays (hno : ∀ r, S.record? scopeId memoryId = some r → r.status ≠ .active) :
      Becomes (MemoryRecord.staled scopeId [memoryId]) S S := by
    refine becomes_same fun r hr => if_neg ?_
    rintro ⟨rfl, hmem, hactive⟩
    exact hno r (List.mem_singleton.mp hmem ▸ hr) hactive
  rw [staleIfActive, runAlone_then_ok (runAlone_get _ _ _)]
  cases hrecord : S.record? scopeId memoryId with
  | none => exact ⟨S, rfl, hstays (by simp [hrecord])⟩
  | some r =>
    dsimp only
    by_cases hactive : r.status = .active
    · rw [if_pos hactive]
      obtain ⟨S', hrun, hturned⟩ := runAlone_turn reprText .stale atTime hrecord
      rw [runAlone_then_ok hrun]
      refine ⟨S', rfl, hturned.congr fun r' hr' => ?_⟩
      -- the record of this id is the one that was read, so it is active
      have hread : r'.scopeId = scopeId ∧ r'.memoryId = memoryId → r'.status = .active := by
        rintro ⟨rfl, rfl⟩
        rwa [Option.some.inj (hr'.symm.trans hrecord)]
      simp only [MemoryRecord.turned, MemoryRecord.staled, List.mem_singleton, ← and_assoc]
      exact if_congr (iff_self_and.mpr hread) rfl rfl
    · rw [if_neg hactive]
      exact ⟨S, rfl, hstays (by simp [hrecord, hactive])⟩

/-- The rounds of an invalidation. -/
theorem runAlone_stale (reprText : String → String) (scopeId : String) (atTime : ℤ)
    (memoryIds : List String) (S : MemoryStore) :
    ∃ S', runAlone reprText (memoryIds.forM (staleIfActive scopeId atTime)) S = (.ok (), S') ∧
      Becomes (MemoryRecord.staled scopeId memoryIds) S S' := by
  induction memoryIds generalizing S with
  | nil =>
    refine ⟨S, rfl, fun scope other => ?_⟩
    have hsame : MemoryRecord.staled scopeId [] = id := by
      funext r
      simp [MemoryRecord.staled]
    rw [hsame, Option.map_id, id]
  | cons memoryId memoryIds ih =>
    obtain ⟨S₁, hrun, hfirst⟩ := runAlone_staleIfActive reprText scopeId atTime
      memoryId S
    obtain ⟨S', hrest, hothers⟩ := ih S₁
    refine ⟨S', (runAlone_then_ok hrun).trans hrest, fun scope id => ?_⟩
    rw [hothers, hfirst, Option.map_map]
    congr 1
    funext r
    by_cases hscope : r.scopeId = scopeId
    · by_cases hactive : r.status = .active
      · by_cases hid : r.memoryId = memoryId
        · simp [MemoryRecord.staled, hscope, hactive, hid]
        · simp [MemoryRecord.staled, hscope, hactive, hid]
      · simp [MemoryRecord.staled, hactive]
    · simp [MemoryRecord.staled, hscope]

/-! ### The closure of a record -/

/-- In the scope, the second record supersedes the first. -/
def MemoryStore.Derives (S : MemoryStore) (scopeId source derived : String) : Prop :=
  ∃ r, S.record? scopeId derived = some r ∧ r.supersedes = some source

/-- The records that `dependency_closure` returns. -/
def MemoryStore.dependents (S : MemoryStore) (scopeId memoryId : String) : List String :=
  closureFrom (S.recordsOf scopeId) [] [memoryId]

theorem mem_derivedFrom {current y : String} {closure : List String} :
    y ∈ derivedFrom (S.recordsOf scopeId) current closure ↔
      S.Derives scopeId current y ∧ y ∉ closure := by
  simp only [derivedFrom, List.mem_map, List.mem_filter, MemoryStore.mem_recordsOf,
    decide_eq_true_eq]
  constructor
  · rintro ⟨r, ⟨hrecord, hcurrent, hclosure⟩, rfl⟩
    exact ⟨⟨r, hrecord, hcurrent⟩, hclosure⟩
  · rintro ⟨⟨r, hrecord, hcurrent⟩, hclosure⟩
    obtain ⟨-, rfl⟩ := MemoryStore.key_of_record? hrecord
    exact ⟨r, ⟨hrecord, hcurrent, hclosure⟩, rfl⟩

/-- The loop of the closure explores what is derived. -/
theorem explored_closureFrom (closure frontier : List String)
    (h : Explored (S.Derives scopeId) memoryId closure frontier) :
    Explored (S.Derives scopeId) memoryId (closureFrom (S.recordsOf scopeId) closure frontier)
      [] := by
  induction closure, frontier using closureFrom.induct (S.recordsOf scopeId) with
  | case1 closure =>
    rw [closureFrom]
    exact h
  | case2 closure current frontier ih =>
    rw [closureFrom]
    refine ih (h.step (fun y hy => (mem_derivedFrom.mp hy).1) (fun y hy => ?_) fun y => ?_)
    · by_cases hclosure : y ∈ closure
      · exact .inl hclosure
      · exact .inr (mem_derivedFrom.mpr ⟨hy, hclosure⟩)
    · rw [List.mem_append, List.mem_reverse]

/-- **The closure of a record is what is derived from it** through any chain of links. -/
theorem mem_dependents_iff {y : String} :
    y ∈ S.dependents scopeId memoryId ↔ TransGen (S.Derives scopeId) memoryId y :=
  (explored_closureFrom [] [memoryId] (.start _ _)).mem_iff

theorem runAlone_dependencyClosure :
    runAlone reprText (dependencyClosure scopeId memoryId) S =
      (.ok (S.dependents scopeId memoryId), S) := rfl

/-- **What an invalidation does**: the record and all that is derived from it are made stale. -/
theorem runAlone_invalidateMemory (reprText : String → String) (atTime : ℤ)
    (hrecord : S.record? scopeId memoryId = some r) :
    ∃ S', runAlone reprText (invalidateMemory scopeId memoryId atTime) S =
        (.ok (memoryId :: S.dependents scopeId memoryId), S') ∧
      Becomes (MemoryRecord.staled scopeId (memoryId :: S.dependents scopeId memoryId)) S S' := by
  obtain ⟨S', hrun, hbecomes⟩ := runAlone_stale reprText scopeId atTime
    (memoryId :: S.dependents scopeId memoryId) S
  refine ⟨S', ?_, hbecomes⟩
  rw [invalidateMemory, runAlone_then_ok (runAlone_get _ _ _), hrecord]
  dsimp only
  rw [runAlone_then_ok runAlone_dependencyClosure]
  exact runAlone_then_ok hrun

/-- A deletion takes its record and leaves all others. -/
theorem runAlone_deleteMemory (reprText : String → String) (atTime : ℤ)
    (pendingProjections : List String) (hrecord : S.record? scopeId memoryId = some r) :
    ∃ receipt S', runAlone reprText (deleteMemory scopeId memoryId atTime pendingProjections) S =
        (.ok receipt, S') ∧ Becomes (MemoryRecord.turned scopeId memoryId .deleted) S S' := by
  obtain ⟨S', hrun, hturned⟩ := runAlone_turn reprText .deleted atTime hrecord
  refine ⟨⟨memoryId, tombstoneId scopeId memoryId atTime, pendingProjections⟩, S', ?_, hturned⟩
  rw [deleteMemory, runAlone_then_ok (runAlone_get _ _ _), hrecord]
  exact runAlone_then_ok hrun

/-! ### What a removal takes along -/

/-- Removals change no link. -/
theorem Becomes.derives_eq {f : MemoryRecord → MemoryRecord} (h : Becomes f S S')
    (hf : ∀ r, (f r).supersedes = r.supersedes) : S'.Derives = S.Derives := by
  funext scopeId source derived
  refine propext ⟨?_, ?_⟩
  · rintro ⟨r', hrecord, hlink⟩
    rw [h] at hrecord
    obtain ⟨r, hr, rfl⟩ := Option.map_eq_some_iff.mp hrecord
    exact ⟨r, hr, (hf r).symm.trans hlink⟩
  · rintro ⟨r, hrecord, hlink⟩
    exact ⟨f r, by rw [h, hrecord, Option.map_some], (hf r).trans hlink⟩

/-- No active record of the scope is derived from this one. -/
def MemoryStore.Withdrawn (S : MemoryStore) (scopeId memoryId : String) : Prop :=
  ∀ derived r, TransGen (S.Derives scopeId) memoryId derived →
    S.record? scopeId derived = some r → r.status ≠ .active

/-- Once the call returns, nothing derived from the record is active. -/
def Withdraws (reprText : String → String) (p : MemoryProgram α) (S : MemoryStore)
    (scopeId memoryId : String) : Prop :=
  ∀ a S', runAlone reprText p S = (.ok a, S') → S'.Withdrawn scopeId memoryId

/-- Invalidation withdraws every record. -/
theorem withdraws_invalidateMemory_iff :
    Withdraws reprText (invalidateMemory scopeId memoryId atTime) S scopeId memoryId ↔
      (S.record? scopeId memoryId = none → S.Withdrawn scopeId memoryId) := by
  cases hrecord : S.record? scopeId memoryId with
  | none =>
    have hrun : runAlone reprText (invalidateMemory scopeId memoryId atTime) S = (.ok [], S) := by
      rw [invalidateMemory, runAlone_then_ok (runAlone_get _ _ _), hrecord]
      rfl
    simp only [Withdraws, hrun, Prod.mk.injEq, forall_const]
    exact ⟨fun h => h [] S ⟨rfl, rfl⟩, fun h _ _ heq => heq.2 ▸ h⟩
  | some r =>
    refine iff_of_true (fun affected S' hrun => ?_) (by simp)
    obtain ⟨S'', hrun', hbecomes⟩ := runAlone_invalidateMemory reprText atTime hrecord
    obtain rfl := (Prod.mk.inj (hrun.symm.trans hrun')).2
    intro derived r' hderived hrecord' hactive
    rw [hbecomes.derives_eq fun r => by unfold MemoryRecord.staled; split <;> rfl] at hderived
    rw [hbecomes] at hrecord'
    obtain ⟨r₀, hr₀, rfl⟩ := Option.map_eq_some_iff.mp hrecord'
    obtain ⟨hscope, hid⟩ := MemoryStore.key_of_record? hr₀
    -- what is derived was in the closure, so it was made stale if it was active
    rw [MemoryRecord.staled] at hactive
    split at hactive
    · cases hactive
    · next hno =>
      exact hno ⟨hscope, by
        rw [hid]
        exact List.mem_cons_of_mem _ (mem_dependents_iff.mpr hderived), hactive⟩

/-- **What a deletion leaves in use**: whatever is derived from the record and was active. -/
theorem withdraws_deleteMemory_iff {pendingProjections : List String}
    (hrecord : S.record? scopeId memoryId = some r) :
    Withdraws reprText (deleteMemory scopeId memoryId atTime pendingProjections) S scopeId
        memoryId ↔
      ∀ derived r, TransGen (S.Derives scopeId) memoryId derived → derived ≠ memoryId →
        S.record? scopeId derived = some r → r.status ≠ .active := by
  obtain ⟨receipt, S', hrun, hturned⟩ := runAlone_deleteMemory reprText atTime
    pendingProjections hrecord
  have hderives : S'.Derives = S.Derives :=
    hturned.derives_eq fun r => by unfold MemoryRecord.turned; split <;> rfl
  have hlaw : Withdraws reprText (deleteMemory scopeId memoryId atTime pendingProjections) S scopeId
      memoryId ↔ S'.Withdrawn scopeId memoryId := by
    simp only [Withdraws, hrun, Prod.mk.injEq]
    exact ⟨fun h => h receipt S' ⟨rfl, rfl⟩, fun h _ _ heq => heq.2 ▸ h⟩
  rw [hlaw, MemoryStore.Withdrawn, hderives]
  refine forall_congr' fun derived => ⟨fun h r hderived hother hr => ?_, fun h r hderived hr => ?_⟩
  · refine h r hderived ?_
    obtain ⟨-, hid⟩ := MemoryStore.key_of_record? hr
    rw [hturned, hr, Option.map_some, MemoryRecord.turned, if_neg]
    rintro ⟨-, hsame⟩
    exact hother (hid.symm.trans hsame)
  · rw [hturned] at hr
    obtain ⟨r₀, hr₀, rfl⟩ := Option.map_eq_some_iff.mp hr
    obtain ⟨hscope, hid⟩ := MemoryStore.key_of_record? hr₀
    rw [MemoryRecord.turned]
    split_ifs with hsame
    · exact nofun
    · refine h r₀ hderived (fun hother => hsame ⟨hscope, hid.trans hother⟩) hr₀

end

/-! ### Both removals -/

/-- The closure of the record is computed and is what it reaches, and each removal leaves nothing
that is derived from it active. -/
def RemovalsWithdraw (reprText : String → String) (S : MemoryStore) (scopeId memoryId : String)
    (atTime : ℤ) (pendingProjections : List String) : Prop :=
  (∃ closure, runAlone reprText (dependencyClosure scopeId memoryId) S = (.ok closure, S) ∧
    ∀ derived, derived ∈ closure ↔ TransGen (S.Derives scopeId) memoryId derived) ∧
  Withdraws reprText (invalidateMemory scopeId memoryId atTime) S scopeId memoryId ∧
  Withdraws reprText (deleteMemory scopeId memoryId atTime pendingProjections) S scopeId memoryId

/-- **When the removals withdraw a record**: when nothing else that is derived from it is active,
since deletion leaves that as it is. -/
theorem removalsWithdraw_iff (reprText : String → String) (S : MemoryStore)
    (scopeId memoryId : String) (atTime : ℤ) (pendingProjections : List String) :
    RemovalsWithdraw reprText S scopeId memoryId atTime pendingProjections ↔
      ∀ derived r, TransGen (S.Derives scopeId) memoryId derived → derived ≠ memoryId →
        S.record? scopeId derived = some r → r.status ≠ .active := by
  have hclosure : ∃ closure,
      runAlone reprText (dependencyClosure scopeId memoryId) S = (.ok closure, S) ∧
        ∀ derived, derived ∈ closure ↔ TransGen (S.Derives scopeId) memoryId derived :=
    ⟨_, runAlone_dependencyClosure, fun _ => mem_dependents_iff⟩
  rw [RemovalsWithdraw, and_iff_right hclosure, withdraws_invalidateMemory_iff]
  cases hrecord : S.record? scopeId memoryId with
  | some r =>
    rw [withdraws_deleteMemory_iff hrecord]
    exact and_iff_right (by simp)
  | none =>
    -- without the record an invalidation returns at once, and a deletion raises
    have hdelete : Withdraws reprText (deleteMemory scopeId memoryId atTime pendingProjections) S
        scopeId memoryId := by
      intro receipt S' hrun
      rw [deleteMemory, runAlone_then_ok (runAlone_get _ _ _), hrecord] at hrun
      cases hrun
    rw [and_iff_left hdelete, forall_prop_of_true rfl]
    refine forall_congr' fun derived => ⟨fun h r hderived _ hr => h r hderived hr,
      fun h r hderived hr => h r hderived ?_ hr⟩
    rintro rfl
    cases hrecord.symm.trans hr

/-- A stale record, and the active one that took its place. -/
def replacedStore : MemoryStore where
  rows := [
    ⟨{ memoryId := "old", revision := 2, scopeId := "s", kind := "fact", status := .stale,
       contentDigest := "sha256:a", sourceDigest := "src", evidenceRefs := ["e"], createdAt := 1,
       expiresAt := none, supersedes := none }, .empty⟩,
    ⟨{ memoryId := "new", revision := 2, scopeId := "s", kind := "fact", status := .active,
       contentDigest := "sha256:b", sourceDigest := "src", evidenceRefs := ["e"], createdAt := 2,
       expiresAt := none, supersedes := some "old" }, .empty⟩]
  unique := by decide
  bindable := by decide

/-- After the deletion of a record, the one that was made from it is still active. -/
theorem replaced_survives_deletion : ¬RemovalsWithdraw id replacedStore "s" "old" 3 [] := by
  rintro ⟨-, -, hdelete⟩
  rw [withdraws_deleteMemory_iff rfl] at hdelete
  exact hdelete "new" _ (.single ⟨_, rfl, rfl⟩) (by decide) rfl rfl

end Memory

end CyranoAgent
