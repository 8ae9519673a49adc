import CyranoAgent.Memory.Invalidation

/-!
# Activation on its own

`activate_memory` invalidates the record it is to supersede, and only then moves its own record
under the expected revision. The two are separate transactions: `activationAtomic_iff` says when a
call that raises has changed nothing, although nothing interrupts it.
-/

namespace CyranoAgent

open Lib Lib.Action

namespace Memory

variable {reprText : String → String} {S S' : MemoryStore} {scopeId memoryId : String}
  {expectedRevision atTime : ℤ} {supersedes : Option String} {r : MemoryRecord} {e : Failure}

/-- The call names an active record of the scope to supersede. -/
def Replaces (S : MemoryStore) (scopeId : String) (supersedes : Option String) : Prop :=
  ∃ old r, supersedes = some old ∧ S.record? scopeId old = some r ∧ r.status = .active

/-- Nothing active is named, and nothing happens. -/
theorem runAlone_supersede_idle (reprText : String → String) (atTime : ℤ)
    (h : ¬Replaces S scopeId supersedes) :
    runAlone reprText (supersede scopeId supersedes atTime) S = (.ok (), S) := by
  cases supersedes with
  | none => rfl
  | some old =>
    rw [supersede, runAlone_then_ok (runAlone_get _ _ _)]
    cases hrecord : S.record? scopeId old with
    | none => rfl
    | some r =>
      dsimp only
      rw [if_neg fun hactive => h ⟨old, r, rfl, hrecord, hactive⟩]
      rfl

/-- The record that is named was active, and is made stale with all that is derived from it. -/
theorem runAlone_supersede {old : String} (reprText : String → String) (atTime : ℤ)
    (hrecord : S.record? scopeId old = some r)
    (hactive : r.status = .active) :
    ∃ S', runAlone reprText (supersede scopeId (some old) atTime) S = (.ok (), S') ∧
      Becomes (MemoryRecord.staled scopeId (old :: S.dependents scopeId old)) S S' := by
  obtain ⟨S', hrun, hbecomes⟩ := runAlone_invalidateMemory reprText atTime hrecord
  refine ⟨S', ?_, hbecomes⟩
  rw [supersede, runAlone_then_ok (runAlone_get _ _ _), hrecord]
  dsimp only
  rw [if_pos hactive]
  exact runAlone_then_ok hrun

/-- The checks of `activate_memory` before it changes anything. -/
structure Activatable (S : MemoryStore) (scopeId memoryId : String) (supersedes : Option String)
    (r : MemoryRecord) : Prop where
  record : S.record? scopeId memoryId = some r
  status : r.status = .candidate ∨ r.status = .stale
  alone : conflicts (S.recordsOf scopeId) memoryId r.kind supersedes = []

/-- The record to activate is not active, so no invalidation touches it. -/
theorem Activatable.record_staled {memoryIds : List String}
    (h : Activatable S scopeId memoryId supersedes r)
    (hbecomes : Becomes (MemoryRecord.staled scopeId memoryIds) S S') :
    S'.record? scopeId memoryId = some r := by
  rw [hbecomes, h.record, Option.map_some, MemoryRecord.staled, if_neg]
  rintro ⟨-, -, hactive⟩
  rcases h.status with hstatus | hstatus <;> simp [hstatus] at hactive

/-- What `activate_memory` requires of its record only when the old one has been invalidated. -/
def Movable (r : MemoryRecord) (expectedRevision : ℤ) : Prop :=
  r.revision = expectedRevision ∧
    Repository.Bindable (r.after .active (some (r.revision + 1)) none).revision

/-- A call that does not pass the first checks raises and changes nothing. -/
theorem runAlone_activateMemory_refused (reprText : String → String) (expectedRevision atTime : ℤ)
    (h : ∀ r, ¬Activatable S scopeId memoryId supersedes r) :
    ∃ e, runAlone reprText (activateMemory reprText scopeId memoryId expectedRevision supersedes
      atTime) S = (.error e, S) := by
  rw [activateMemory, runAlone_then_ok (runAlone_get _ _ _)]
  cases hrecord : S.record? scopeId memoryId with
  | none => exact ⟨_, rfl⟩
  | some r =>
    dsimp only
    rw [runAlone_raiseIf]
    by_cases hstatus : r.status ≠ .candidate ∧ r.status ≠ .stale
    · rw [if_pos hstatus]
      exact ⟨_, rfl⟩
    · rw [if_neg hstatus, runAlone_then_ok (runAlone_listScope _ _), runAlone_raiseIf]
      by_cases halone : conflicts (S.recordsOf scopeId) memoryId r.kind supersedes = []
      · exact absurd ⟨hrecord, by simpa [Classical.or_iff_not_imp_left] using hstatus, halone⟩ (h r)
      · rw [if_pos halone]
        exact ⟨_, rfl⟩

/-- A call that passes the first checks supersedes, and then moves its record. -/
theorem runAlone_activateMemory (h : Activatable S scopeId memoryId supersedes r)
    (hsupersede : runAlone reprText (supersede scopeId supersedes atTime) S = (.ok (), S')) :
    runAlone reprText (activateMemory reprText scopeId memoryId expectedRevision supersedes atTime)
        S =
      runAlone reprText (MemoryRepository.transition scopeId memoryId .active expectedRevision
        (some (r.revision + 1)) supersedes atTime) S' := by
  have hstatus : ¬(r.status ≠ .candidate ∧ r.status ≠ .stale) := by
    rcases h.status with hstatus | hstatus <;> simp [hstatus]
  rw [activateMemory, runAlone_then_ok (runAlone_get _ _ _), h.record]
  dsimp only
  rw [runAlone_raiseIf, if_neg hstatus, runAlone_then_ok (runAlone_listScope _ _),
    runAlone_raiseIf, if_neg (not_not.mpr h.alone), runAlone_then_ok hsupersede]

/-- The last transition of the call goes through if its record is movable, and otherwise changes
nothing. -/
theorem runAlone_activation (reprText : String → String) (expectedRevision : ℤ)
    (supersedes : Option String) (atTime : ℤ) (hrecord : S.record? scopeId memoryId = some r) :
    (Movable r expectedRevision ∧ ∃ r' S', runAlone reprText (MemoryRepository.transition scopeId
        memoryId .active expectedRevision (some (r.revision + 1)) supersedes atTime) S =
          (.ok r', S')) ∨
      (¬Movable r expectedRevision ∧ ∃ e, runAlone reprText (MemoryRepository.transition scopeId
        memoryId .active expectedRevision (some (r.revision + 1)) supersedes atTime) S =
          (.error e, S)) := by
  have hafter : (r.after .active (some (r.revision + 1)) supersedes).revision =
      (r.after .active (some (r.revision + 1)) none).revision := rfl
  by_cases hmovable : Movable r expectedRevision
  · have hbindable := hmovable.2
    rw [← hafter] at hbindable
    exact .inl ⟨hmovable, _, _, runAlone_transition hrecord hmovable.1 hbindable⟩
  · refine .inr ⟨hmovable, runAlone_transition_error fun r' hrecord' hrevision hbindable => ?_⟩
    obtain rfl : r' = r := Option.some.inj (hrecord'.symm.trans hrecord)
    rw [hafter] at hbindable
    exact hmovable ⟨hrevision, hbindable⟩

/-! ### Atomicity -/

/-- If the call raises, the status and the revision of every record are as they were. -/
def ActivationAtomic (reprText : String → String) (S : MemoryStore) (scopeId memoryId : String)
    (expectedRevision : ℤ) (supersedes : Option String) (atTime : ℤ) : Prop :=
  ∀ e S', runAlone reprText (activateMemory reprText scopeId memoryId expectedRevision supersedes
      atTime) S = (.error e, S') →
    ∀ scope id, (S'.record? scope id).map (fun r => (r.status, r.revision)) =
      (S.record? scope id).map fun r => (r.status, r.revision)

/-- A call that raises where it started is atomic. -/
theorem ActivationAtomic.of_unchanged
    (h : runAlone reprText (activateMemory reprText scopeId memoryId expectedRevision supersedes
      atTime) S = (.error e, S)) :
    ActivationAtomic reprText S scopeId memoryId expectedRevision supersedes atTime := by
  intro e' S' hrun
  obtain rfl : S = S' := (Prod.mk.inj (h.symm.trans hrun)).2
  exact fun _ _ => rfl

/-- **The record to supersede stays invalidated** when the new one turns out not to be movable. -/
theorem not_activationAtomic (h : Activatable S scopeId memoryId supersedes r)
    (hreplaces : Replaces S scopeId supersedes) (hmovable : ¬Movable r expectedRevision) :
    ¬ActivationAtomic reprText S scopeId memoryId expectedRevision supersedes atTime := by
  obtain ⟨old, o, rfl, hold, hactive⟩ := hreplaces
  obtain ⟨S₁, hsupersede, hbecomes⟩ := runAlone_supersede reprText atTime hold hactive
  have hstale : S₁.record? scopeId old = some { o with status := .stale } := by
    obtain ⟨hscope, hid⟩ := MemoryStore.key_of_record? hold
    rw [hbecomes, hold, Option.map_some, MemoryRecord.staled,
      if_pos ⟨hscope, by simp [hid], hactive⟩]
  rcases runAlone_activation reprText expectedRevision (some old) atTime
    (h.record_staled hbecomes) with ⟨hmoves, -⟩ | ⟨-, e, herror⟩
  · exact absurd hmoves hmovable
  · intro hatomic
    have hsame := hatomic e S₁ ((runAlone_activateMemory h hsupersede).trans herror) scopeId old
    rw [hstale, hold, Option.map_some, Option.map_some, hactive] at hsame
    cases hsame

/-- **When an activation is atomic**: unless its record passes the first checks, an active record
is superseded, and the expected revision or the new one is then refused. -/
theorem activationAtomic_iff (reprText : String → String) (S : MemoryStore)
    (scopeId memoryId : String) (expectedRevision : ℤ) (supersedes : Option String) (atTime : ℤ) :
    ActivationAtomic reprText S scopeId memoryId expectedRevision supersedes atTime ↔
      ∀ r, Activatable S scopeId memoryId supersedes r → Replaces S scopeId supersedes →
        Movable r expectedRevision := by
  refine ⟨fun hatomic r h hreplaces => ?_, fun hmovable => ?_⟩
  · by_contra hno
    exact not_activationAtomic h hreplaces hno hatomic
  by_cases h : ∃ r, Activatable S scopeId memoryId supersedes r
  · obtain ⟨r, h⟩ := h
    by_cases hreplaces : Replaces S scopeId supersedes
    · have hreplaces' := hreplaces
      obtain ⟨old, o, rfl, hold, hactive⟩ := hreplaces'
      obtain ⟨S₁, hsupersede, hbecomes⟩ := runAlone_supersede reprText atTime hold hactive
      rcases runAlone_activation reprText expectedRevision (some old) atTime
        (h.record_staled hbecomes) with ⟨-, r', S', hrun⟩ | ⟨hno, -⟩
      · intro e S'' herror
        rw [runAlone_activateMemory h hsupersede, hrun] at herror
        cases herror
      · exact absurd (hmovable r h hreplaces) hno
    · have hsupersede := runAlone_supersede_idle reprText atTime hreplaces
      rcases runAlone_activation reprText expectedRevision supersedes atTime h.record with
        ⟨-, r', S', hrun⟩ | ⟨-, e, hrun⟩
      · intro e S'' herror
        rw [runAlone_activateMemory h hsupersede, hrun] at herror
        cases herror
      · exact .of_unchanged ((runAlone_activateMemory h hsupersede).trans hrun)
  · obtain ⟨e, hrun⟩ := runAlone_activateMemory_refused reprText expectedRevision atTime
      (not_exists.mp h)
    exact .of_unchanged hrun

/-- An active record, and a candidate of its kind. -/
def contestedStore : MemoryStore where
  rows := [
    ⟨{ memoryId := "old", revision := 2, scopeId := "s", kind := "fact", status := .active,
       contentDigest := "sha256:a", sourceDigest := "src", evidenceRefs := ["e"], createdAt := 1,
       expiresAt := none, supersedes := none }, .empty⟩,
    ⟨{ memoryId := "new", revision := 1, scopeId := "s", kind := "fact", status := .candidate,
       contentDigest := "sha256:b", sourceDigest := "src", evidenceRefs := ["e"], createdAt := 2,
       expiresAt := none, supersedes := none }, .empty⟩]
  unique := by decide
  bindable := by decide

/-- An activation under a stale revision raises and has invalidated the record it was to
supersede. -/
theorem contested_half_applied : ¬ActivationAtomic id contestedStore "s" "new" 7 (some "old") 3 :=
  not_activationAtomic ⟨rfl, .inl rfl, by decide⟩ ⟨"old", _, rfl, rfl, rfl⟩
    fun hmovable => absurd hmovable.1 (by decide)

end Memory

end CyranoAgent
