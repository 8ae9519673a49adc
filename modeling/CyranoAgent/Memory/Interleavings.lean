import CyranoAgent.Memory.Guards

/-!
# Calls that interleave

Any number of calls of the service on one store, each performing its steps when its turn comes. A
call acts on what it has seen (`Allowed`), and the compare-and-swap of a transition is on the
revision, which no deletion or invalidation raises: what was seen may no longer hold.

`neverActiveAgain_of_unraced` and `unique_iff` say which interleavings keep a deleted record out of
use, and one active record for each kind.
-/

namespace CyranoAgent

open Lib

namespace Memory

/-- Calls on one store. -/
abbrev MemoryPool := Pool MemoryStep MemoryStep.Reply Failure MemoryStore MemoryReply

/-- One step of a history of such calls. -/
abbrev MemoryEntry := Pool.Step MemoryStep MemoryStep.Reply Failure MemoryStore MemoryReply

/-- The histories of the calls from a store, in every order of their steps. -/
def Interleaving (reprText : String → String) (calls : ℕ → MemoryCall) (S : MemoryStore)
    (h : List MemoryEntry) (P : MemoryPool) : Prop :=
  Run (Pool.step (MemoryStep.act reprText)) ⟨S, fun k => (calls k).program reprText⟩ h P

/-- The status of a record. -/
def MemoryStore.status? (S : MemoryStore) (scopeId memoryId : String) : Option MemoryStatus :=
  (S.record? scopeId memoryId).map (·.status)

/-- The step performs the access. -/
def Performs (e : MemoryEntry) (access : MemoryAccess) : Prop := e.reply = some access

/-- The step moves the record to the status. -/
def MovesTo (scopeId memoryId : String) (toStatus : MemoryStatus) (e : MemoryEntry) : Prop :=
  ∃ expectedRevision newRevision supersedes atTime, Performs e
    ⟨.transition scopeId memoryId toStatus expectedRevision newRevision supersedes atTime, .ok ()⟩

section

variable {reprText : String → String} {calls : ℕ → MemoryCall} {S : MemoryStore}
  {h h₁ h₂ : List MemoryEntry} {P P₀ : MemoryPool} {e : MemoryEntry}
  {scopeId memoryId kind : String} {access : MemoryAccess}

/-! ### Steps -/

/-- Two records that are moved by one step are one. -/
theorem MovesTo.unique {scope id : String} {toStatus status : MemoryStatus}
    (hmoves : MovesTo scopeId memoryId toStatus e) (hmoves' : MovesTo scope id status e) :
    (scopeId, memoryId) = (scope, id) := by
  obtain ⟨_, _, _, _, hperforms⟩ := hmoves
  obtain ⟨_, _, _, _, hperforms'⟩ := hmoves'
  have hop := congrArg Access.op (Option.some.inj (hperforms.symm.trans hperforms'))
  injection hop with hscope hid
  rw [hscope, hid]

/-- **What a step of a history does to each record.** -/
theorem moves_of_mem (hr : Run (Pool.step (MemoryStep.act reprText)) P₀ h P) (he : e ∈ h)
    (scopeId memoryId : String) :
    e.after.state.record? scopeId memoryId = e.before.state.record? scopeId memoryId ∨
      ∃ access, Performs e access ∧ Moves scopeId memoryId
        (e.before.state.record? scopeId memoryId) (e.after.state.record? scopeId memoryId)
        access := by
  cases hreply : e.reply with
  | none =>
    rw [Pool.after_of_none hr he hreply]
    exact .inl rfl
  | some access =>
    have hrun := Pool.run_of_mem hr he hreply
    have hmoves := moves reprText access.op e.before.state scopeId memoryId
    rw [hrun] at hmoves
    exact .inr ⟨access, hreply, hmoves⟩

/-- A read shows what the store holds. -/
theorem record?_of_got (hr : Run (Pool.step (MemoryStep.act reprText)) P₀ h P) (he : e ∈ h)
    {reply : Option MemoryRecord} (hperforms : Performs e ⟨.get scopeId memoryId, .ok reply⟩) :
    e.before.state.record? scopeId memoryId = reply ∧ e.after.state = e.before.state := by
  have hrun := Pool.run_of_mem hr he hperforms
  obtain ⟨hreply, hafter⟩ := Prod.mk.inj hrun
  exact ⟨Except.ok.inj hreply, hafter.symm⟩

theorem recordsOf_of_listed (hr : Run (Pool.step (MemoryStep.act reprText)) P₀ h P) (he : e ∈ h)
    {rows : List MemoryRecord} (hperforms : Performs e ⟨.listScope scopeId, .ok rows⟩) :
    e.before.state.recordsOf scopeId = rows ∧ e.after.state = e.before.state := by
  have hrun := Pool.run_of_mem hr he hperforms
  obtain ⟨hreply, hafter⟩ := Prod.mk.inj hrun
  exact ⟨Except.ok.inj hreply, hafter.symm⟩

theorem ghostsOf_of_listed (hr : Run (Pool.step (MemoryStep.act reprText)) P₀ h P) (he : e ∈ h)
    {ids : List String} (hperforms : Performs e ⟨.ghosts scopeId, .ok ids⟩) :
    ghostsOf e.before.state scopeId = ids := by
  have hrun := Pool.run_of_mem hr he hperforms
  exact Except.ok.inj (Prod.mk.inj hrun).1

/-- A record that is moved has its new status afterwards. -/
theorem MovesTo.status? {toStatus : MemoryStatus}
    (hr : Run (Pool.step (MemoryStep.act reprText)) P₀ h P) (he : e ∈ h)
    (hmoves : MovesTo scopeId memoryId toStatus e) :
    e.after.state.status? scopeId memoryId = some toStatus := by
  obtain ⟨_, _, _, _, hperforms⟩ := hmoves
  obtain ⟨r, hrecord, -, hbindable, hafter⟩ :=
    transition_eq_ok.mp (Pool.run_of_mem hr he hperforms)
  rw [hafter, MemoryStore.status?, record?_transitioned, if_pos rfl, hrecord]
  rfl

/-- A read that shows a record alive was performed when it was. -/
theorem SawLive.status? (hr : Run (Pool.step (MemoryStep.act reprText)) P₀ h P) (he : e ∈ h)
    (hperforms : Performs e access) (hsaw : SawLive scopeId memoryId access) :
    ∃ status, e.before.state.status? scopeId memoryId = some status ∧ status.Live := by
  cases hsaw with
  | got r hlive =>
    refine ⟨r.status, ?_, hlive⟩
    rw [MemoryStore.status?, (record?_of_got hr he hperforms).1, Option.map_some]
  | listed rows r hmem hid hlive =>
    obtain ⟨rfl, -⟩ := recordsOf_of_listed hr he hperforms
    refine ⟨r.status, ?_, hlive⟩
    rw [MemoryStore.status?, ← hid, MemoryStore.mem_recordsOf.mp hmem, Option.map_some]
  | ghost ids hid =>
    obtain rfl := ghostsOf_of_listed hr he hperforms
    obtain ⟨r, hr, rfl⟩ := List.mem_map.mp hid
    obtain ⟨hmem, hghost⟩ := List.mem_filter.mp hr
    have hactive : r.status = .active := (of_decide_eq_true hghost).1
    refine ⟨r.status, ?_, .inr (.inl hactive)⟩
    rw [MemoryStore.status?, MemoryStore.mem_recordsOf.mp hmem, Option.map_some]

/-- What was seen inactive is inactive after the step. -/
theorem SawInactive.status? (hr : Run (Pool.step (MemoryStep.act reprText)) P₀ h P) (he : e ∈ h)
    (hperforms : Performs e access) (hsaw : SawInactive scopeId memoryId access) :
    e.after.state.status? scopeId memoryId ≠ some .active := by
  cases hsaw with
  | missing =>
    obtain ⟨hrecord, hafter⟩ := record?_of_got hr he hperforms
    rw [hafter, MemoryStore.status?, hrecord]
    exact nofun
  | got r hstatus =>
    obtain ⟨hrecord, hafter⟩ := record?_of_got hr he hperforms
    rw [hafter, MemoryStore.status?, hrecord]
    exact fun hactive => hstatus (Option.some.inj hactive)
  | staled =>
    rw [MovesTo.status? hr he ⟨_, _, _, _, hperforms⟩]
    exact nofun

/-- A step of an interleaving is one that its call's own past allows. -/
theorem allowed_of_run (hr : Interleaving reprText calls S (h₁ ++ e :: h₂) P)
    (hperforms : Performs e access) : Allowed (Pool.pastOf e.op h₁) access.op :=
  Pool.guarded hr (fun k => ensures_program reprText (calls k)) hperforms

/-! ### Deleted records -/

/-- A deleted record, or one that was quarantined since. -/
def Buried (scopeId memoryId : String) (P : MemoryPool) : Prop :=
  P.state.status? scopeId memoryId = some .deleted ∨
    P.state.status? scopeId memoryId = some .quarantined

/-- In every state after one in which a record is deleted, it is not active. -/
def NeverActiveAgain (h : List MemoryEntry) : Prop :=
  ∀ scopeId memoryId h₁ d h₂, h = h₁ ++ d :: h₂ →
    d.before.state.status? scopeId memoryId = some .deleted →
    ∀ e ∈ d :: h₂, e.after.state.status? scopeId memoryId ≠ some .active

/-- In every state after one in which a record is deleted, it is deleted or quarantined. -/
def StaysBuried (h : List MemoryEntry) : Prop :=
  ∀ scopeId memoryId h₁ d h₂, h = h₁ ++ d :: h₂ →
    d.before.state.status? scopeId memoryId = some .deleted →
    ∀ e ∈ d :: h₂, Buried scopeId memoryId e.after

/-- A call has seen a record alive, and makes it active or stale, although it was deleted in
between. -/
def Raced (h : List MemoryEntry) : Prop :=
  ∃ scopeId memoryId h₁ look h₂ e h₃ d access toStatus,
    h = h₁ ++ look :: (h₂ ++ e :: h₃) ∧ look.op = e.op ∧
    Performs look access ∧ SawLive scopeId memoryId access ∧
    MovesTo scopeId memoryId toStatus e ∧ (toStatus = .active ∨ toStatus = .stale) ∧
    d ∈ h₂ ++ [e] ∧ d.before.state.status? scopeId memoryId = some .deleted

/-- A buried record was not seen alive. -/
theorem Buried.not_sawLive (hr : Run (Pool.step (MemoryStep.act reprText)) P₀ h P) (he : e ∈ h)
    (hburied : Buried scopeId memoryId e.before) (hperforms : Performs e access) :
    ¬SawLive scopeId memoryId access := by
  intro hsaw
  obtain ⟨status, hstatus, hlive⟩ := hsaw.status? hr he hperforms
  rcases hburied with hdead | hdead
  · obtain rfl := Option.some.inj (hstatus.symm.trans hdead)
    rcases hlive with hlive | hlive | hlive <;> cases hlive
  · obtain rfl := Option.some.inj (hstatus.symm.trans hdead)
    rcases hlive with hlive | hlive | hlive <;> cases hlive

/-- A call that makes a record active or stale has seen it alive before. -/
theorem exists_sawLive (hr : Interleaving reprText calls S (h₁ ++ e :: h₂) P)
    {toStatus : MemoryStatus} (hmoves : MovesTo scopeId memoryId toStatus e)
    (hstatus : toStatus = .active ∨ toStatus = .stale) :
    ∃ look ∈ h₁, ∃ access, look.op = e.op ∧ Performs look access ∧
      SawLive scopeId memoryId access := by
  obtain ⟨expectedRevision, newRevision, supersedes, atTime, hperforms⟩ := hmoves
  have hallowed := allowed_of_run hr hperforms
  have hsaw : ∃ access ∈ Pool.pastOf e.op h₁, SawLive scopeId memoryId access := by
    rcases hstatus with rfl | rfl
    · obtain ⟨looked, rows, since, record, hpast, hlooked, hlive, -⟩ := hallowed
      rw [hpast]
      exact ⟨_, List.mem_append_left _ hlooked, .got record (by tauto)⟩
    · exact hallowed
  obtain ⟨access, hmem, hsaw⟩ := hsaw
  obtain ⟨look, hlook, hop, hreply⟩ := Pool.mem_pastOf.mp hmem
  exact ⟨look, hlook, access, hop, hreply, hsaw⟩

/-- A step that does not make the record active or stale leaves it buried. -/
theorem Buried.step (hr : Interleaving reprText calls S (h₁ ++ e :: h₂) P)
    (hburied : Buried scopeId memoryId e.before)
    (hno : ∀ toStatus, toStatus = .active ∨ toStatus = .stale →
      ¬MovesTo scopeId memoryId toStatus e) :
    Buried scopeId memoryId e.after := by
  have hmem : e ∈ h₁ ++ e :: h₂ := by simp
  rcases moves_of_mem hr hmem scopeId memoryId with hsame | ⟨access, hperforms, hmoves⟩
  · rwa [Buried, MemoryStore.status?, hsame]
  cases hmoves with
  | stay access hsame => rwa [Buried, MemoryStore.status?, hsame]
  | proposed record content atTime hnone hafter =>
    -- a proposal finds no record, and a buried one is there
    rw [Buried, MemoryStore.status?, hnone] at hburied
    rcases hburied with hdead | hdead <;> cases hdead
  | moved r toStatus expectedRevision newRevision supersedes atTime hbefore hrevision hafter =>
    have hmovesTo : MovesTo scopeId memoryId toStatus e := ⟨_, _, _, _, hperforms⟩
    have hstatus := hmovesTo.status? hr hmem
    have hallowed := allowed_of_run hr hperforms
    cases toStatus with
    | candidate => exact hallowed.elim
    | active => exact absurd hmovesTo (hno _ (.inl rfl))
    | stale => exact absurd hmovesTo (hno _ (.inr rfl))
    | quarantined => exact .inr hstatus
    | deleted => exact .inl hstatus

/-- **Which interleavings keep deleted records buried**: those in which no record is deleted between
a call's look at it and its move. -/
theorem staysBuried_iff (hr : Interleaving reprText calls S h P) : StaysBuried h ↔ ¬Raced h := by
  constructor
  · rintro hburied ⟨scopeId, memoryId, h₁, look, h₂, e, h₃, d, access, toStatus, rfl, -, -, -,
      hmoves, hstatus, hd, hdeleted⟩
    have hafter := hmoves.status? hr (by simp)
    obtain ⟨g₁, g₂, hcut⟩ := List.append_of_mem hd
    have hwhole : h₁ ++ look :: (h₂ ++ e :: h₃) = (h₁ ++ look :: g₁) ++ d :: (g₂ ++ h₃) := by
      have happend : h₂ ++ e :: h₃ = (h₂ ++ [e]) ++ h₃ := by simp
      rw [happend, hcut]
      simp
    have hlater : e ∈ d :: (g₂ ++ h₃) := by
      have hlast : e ∈ d :: g₂ := by
        rcases List.eq_nil_or_concat g₂ with rfl | ⟨g₃, e', rfl⟩
        · obtain ⟨-, heq⟩ := List.append_inj' hcut rfl
          simpa using heq
        · rw [List.concat_eq_append, ← List.cons_append, ← List.append_assoc] at hcut
          obtain ⟨-, heq⟩ := List.append_inj' hcut rfl
          obtain rfl : e = e' := by simpa using heq
          simp
      rw [← List.cons_append]
      exact List.mem_append_left _ hlast
    have hdead := hburied scopeId memoryId _ d _ hwhole hdeleted e hlater
    rcases hstatus with rfl | rfl <;> rcases hdead with hdead | hdead <;>
      cases hafter.symm.trans hdead
  · intro hraced scopeId memoryId g₁ d g₂ hcut hdeleted
    subst hcut
    have hrest := hr.onFrom
    refine fun e he => ((hrest.inv_entries (I := Buried scopeId memoryId) (.inl hdeleted) ?_).2 e
      he).2
    intro a e b hsplit hbefore hburied
    have hrun : Interleaving reprText calls S ((g₁ ++ a) ++ e :: b) P := by
      rw [List.append_assoc, ← hsplit]
      exact hr
    refine hburied.step hrun fun toStatus hstatus hmoves => ?_
    obtain ⟨look, hlook, access, hop, hperforms, hsaw⟩ := exists_sawLive hrun hmoves hstatus
    rcases List.mem_append.mp hlook with hlook | hlook
    · -- the look came before the deletion
      obtain ⟨x, y, rfl⟩ := List.append_of_mem hlook
      refine hraced ⟨scopeId, memoryId, x, look, y ++ a, e, b, d, access, toStatus, ?_, hop,
        hperforms, hsaw, hmoves, hstatus, ?_, hdeleted⟩
      · rw [hsplit]
        simp
      · cases a with
        | nil =>
          obtain rfl : d = e := by simpa using (List.cons.inj hsplit).1
          simp
        | cons d' a =>
          obtain rfl : d = d' := by simpa using (List.cons.inj hsplit).1
          simp
    · -- the look came after it, and saw the record buried
      have hmem : look ∈ (g₁ ++ a) ++ e :: b :=
        List.mem_append_left _ (List.mem_append_right _ hlook)
      exact (hbefore look hlook).not_sawLive hrun hmem hperforms hsaw

/-- A record that stays buried is never active. -/
theorem StaysBuried.neverActiveAgain (hburied : StaysBuried h) : NeverActiveAgain h := by
  intro scopeId memoryId h₁ d h₂ hcut hdeleted e he hactive
  rcases hburied scopeId memoryId h₁ d h₂ hcut hdeleted e he with hdead | hdead <;>
    cases hactive.symm.trans hdead

/-- **A deleted record is never active again** in an interleaving where no record is deleted between
a call's look at it and its move; and only there does it stay deleted or quarantined. -/
theorem neverActiveAgain_of_unraced (hr : Interleaving reprText calls S h P) :
    (¬Raced h → NeverActiveAgain h) ∧ (StaysBuried h ↔ ¬Raced h) :=
  ⟨fun hunraced => ((staysBuried_iff hr).mpr hunraced).neverActiveAgain, staysBuried_iff hr⟩

end

/-- A record is proposed, one call activates it, and another deletes it. -/
def proposeActivateDelete : ℕ → MemoryCall
  | 0 => .propose "s" "m" "fact" .empty "src" ["e"] 1 none 0
  | 1 => .activate "s" "m" 1 none 5
  | 2 => .delete "s" "m" 6 []
  | _ => .get "s" "m"

/-- The steps of the calls, in an order, from the empty table. -/
def ordered (calls : ℕ → MemoryCall) (order : List ℕ) : List MemoryEntry × MemoryPool :=
  exec (Pool.step (MemoryStep.act id)) ⟨{}, fun k => (calls k).program id⟩ order

theorem interleaving_ordered (calls : ℕ → MemoryCall) (order : List ℕ) :
    Interleaving id calls {} (ordered calls order).1 (ordered calls order).2 :=
  run_exec _ _ _

theorem deletion_after_activation :
    let h := (ordered proposeActivateDelete [0, 1, 1, 1, 1, 2, 2]).1
    (¬Raced h → NeverActiveAgain h) ∧ (StaysBuried h ↔ ¬Raced h) :=
  neverActiveAgain_of_unraced (interleaving_ordered proposeActivateDelete _)

/-- The deletion comes in between the reads of the activation and its transition. -/
def deletedInBetween : List MemoryEntry × MemoryPool :=
  ordered proposeActivateDelete [0, 1, 2, 2, 1, 1]

/-- The activation goes through after the deletion, under the revision that it read before. -/
theorem activated_after_deletion :
    Interleaving id proposeActivateDelete {} deletedInBetween.1 deletedInBetween.2 ∧
      ¬NeverActiveAgain deletedInBetween.1 := by
  refine ⟨interleaving_ordered _ _, fun hnever => ?_⟩
  have hcut : deletedInBetween.1 = deletedInBetween.1.take 4 ++
      deletedInBetween.1.get ⟨4, by decide⟩ :: [deletedInBetween.1.get ⟨5, by decide⟩] := rfl
  -- the record is deleted before the fifth step, and active after the sixth
  exact hnever "s" "m" _ _ _ hcut rfl _ (List.mem_cons_of_mem _ (List.mem_singleton_self _)) rfl

end Memory

end CyranoAgent
