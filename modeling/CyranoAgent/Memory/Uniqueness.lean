import CyranoAgent.Memory.Interleavings

/-!
# One active record for each kind

`activate_memory` refuses a record when another of its kind is active, unless that one is the one
to supersede, which it invalidates first. The check and the transition are separate steps:
`oneActive_iff` says that two activations which overlap are the only way to two active records of
one kind.
-/

namespace CyranoAgent

open Lib

namespace Memory

/-- The kind of a record. -/
def MemoryStore.kind? (S : MemoryStore) (scopeId memoryId : String) : Option String :=
  (S.record? scopeId memoryId).map (·.kind)

/-- The record is there and active, and of the kind. -/
def ActiveOf (S : MemoryStore) (scopeId kind memoryId : String) : Prop :=
  S.status? scopeId memoryId = some .active ∧ S.kind? scopeId memoryId = some kind

/-- At most one record of each scope and kind is active. -/
def OneActive (S : MemoryStore) : Prop :=
  ∀ scopeId kind memoryId other, ActiveOf S scopeId kind memoryId → ActiveOf S scopeId kind other →
    memoryId = other

theorem oneActive_empty : OneActive {} := by
  rintro scopeId kind memoryId other ⟨hactive, -⟩
  cases hactive

/-- A call has looked for conflicts, another record of the kind becomes active, and while it is
active the call makes its own record active. -/
def Overlapped (h : List MemoryEntry) : Prop :=
  ∃ scopeId kind memoryId other rows h₁ check h₂ f h₃ e h₄,
    h = h₁ ++ check :: (h₂ ++ f :: (h₃ ++ e :: h₄)) ∧ check.op = e.op ∧
    Performs check ⟨.listScope scopeId, .ok rows⟩ ∧
    MovesTo scopeId other .active f ∧ MovesTo scopeId memoryId .active e ∧ memoryId ≠ other ∧
    e.before.state.kind? scopeId memoryId = some kind ∧
    ActiveOf e.before.state scopeId kind other

section

variable {reprText : String → String} {calls : ℕ → MemoryCall} {S : MemoryStore}
  {h h₁ h₂ : List MemoryEntry} {P P₀ : MemoryPool} {e : MemoryEntry}
  {scopeId memoryId other kind : String}

/-! ### Kinds and turns -/

/-- No step changes the kind of a record. -/
theorem kind?_of_run (kind : String) (hr : Run (Pool.step (MemoryStep.act reprText)) P₀ h P)
    (h0 : P₀.state.kind? scopeId memoryId = some kind) :
    P.state.kind? scopeId memoryId = some kind := by
  refine (hr.inv_entries (I := fun P => P.state.kind? scopeId memoryId = some kind) h0 ?_).1
  rintro h₁ e h₂ rfl - hbefore
  have hmem : e ∈ h₁ ++ e :: h₂ := by simp
  rcases moves_of_mem hr hmem scopeId memoryId with hsame | ⟨access, -, hmoves⟩
  · rwa [MemoryStore.kind?, hsame]
  cases hmoves with
  | stay access hsame => rwa [MemoryStore.kind?, hsame]
  | proposed record content atTime hnone hafter =>
    rw [MemoryStore.kind?, hnone] at hbefore
    cases hbefore
  | moved r toStatus expectedRevision newRevision supersedes atTime hr hrevision hafter =>
    rw [MemoryStore.kind?, hr] at hbefore
    rw [MemoryStore.kind?, hafter]
    exact hbefore

/-- A record becomes active by a transition to active. -/
theorem movesTo_active_of_turn (hr : Interleaving reprText calls S (h₁ ++ e :: h₂) P)
    (hbefore : e.before.state.status? scopeId memoryId ≠ some .active)
    (hafter : e.after.state.status? scopeId memoryId = some .active) :
    MovesTo scopeId memoryId .active e := by
  have hmem : e ∈ h₁ ++ e :: h₂ := by simp
  rcases moves_of_mem hr hmem scopeId memoryId with hsame | ⟨access, hperforms, hmoves⟩
  · rw [MemoryStore.status?, hsame] at hafter
    exact absurd hafter hbefore
  cases hmoves with
  | stay access hsame =>
    rw [MemoryStore.status?, hsame] at hafter
    exact absurd hafter hbefore
  | proposed record content atTime hnone hrecord =>
    have hcandidate : record.status = .candidate := allowed_of_run hr hperforms
    rw [MemoryStore.status?, hrecord, Option.map_some, hcandidate] at hafter
    cases hafter
  | moved r toStatus expectedRevision newRevision supersedes atTime =>
    have hmovesTo : MovesTo scopeId memoryId toStatus e := ⟨_, _, _, _, hperforms⟩
    obtain rfl : toStatus = .active :=
      Option.some.inj ((hmovesTo.status? hr hmem).symm.trans hafter)
    exact hmovesTo

/-- A step that moves one record leaves the others. -/
theorem MovesTo.record?_of_ne {toStatus : MemoryStatus}
    (hr : Run (Pool.step (MemoryStep.act reprText)) P₀ h P) (he : e ∈ h)
    (hmoves : MovesTo scopeId memoryId toStatus e) (hother : memoryId ≠ other) :
    e.after.state.record? scopeId other = e.before.state.record? scopeId other := by
  obtain ⟨_, _, _, _, hperforms⟩ := hmoves
  obtain ⟨r, -, -, hbindable, hafter⟩ := transition_eq_ok.mp (Pool.run_of_mem hr he hperforms)
  rw [hafter, record?_transitioned, if_neg]
  exact fun hkey => hother (Prod.mk.inj hkey).2.symm

/-! ### Overlapping activations -/

/-- A record that was active at the check, and is not to be superseded, is a conflict. -/
theorem supersedes_of_conflicts {rows : List MemoryRecord} {supersedes : Option String}
    {r : MemoryRecord} (hconflict : conflicts rows memoryId kind supersedes = []) (hr : r ∈ rows)
    (hactive : r.status = .active) (hkind : r.kind = kind) (hother : memoryId ≠ r.memoryId) :
    supersedes = some r.memoryId := by
  by_contra hno
  have hmem : r.memoryId ∈ conflicts rows memoryId kind supersedes :=
    List.mem_map_of_mem
      (List.mem_filter.mpr ⟨hr, decide_eq_true ⟨hactive, hkind, hother.symm, hno⟩⟩)
  rw [hconflict] at hmem
  exact List.not_mem_nil hmem

/-- A record that is active when the call makes its own active was not so at some point since the
call's check: either at the check itself, or when the call saw it superseded. -/
theorem exists_inactive {rows : List MemoryRecord} {supersedes : Option String}
    {record : MemoryRecord} {check : MemoryEntry} {k : ℕ}
    (hr : Run (Pool.step (MemoryStep.act reprText)) P₀ (h₁ ++ check :: h₂) P)
    (hlooked : ⟨.get scopeId memoryId, .ok (some record)⟩ ∈ Pool.pastOf k h₁)
    (hcheck : Performs check ⟨.listScope scopeId, .ok rows⟩)
    (hconflict : conflicts rows memoryId record.kind supersedes = [])
    (hsince : ∀ old ∈ supersedes, ∃ access ∈ Pool.pastOf k h₂, SawInactive scopeId old access)
    (hother : memoryId ≠ other) (hkind : P.state.kind? scopeId memoryId = some kind)
    (hactive : ActiveOf P.state scopeId kind other) :
    ∃ u v t, h₂ = u ++ v ∧ Run (Pool.step (MemoryStep.act reprText)) t v P ∧
      t.state.status? scopeId other ≠ some .active := by
  obtain ⟨-, -, hrest⟩ := hr.split
  by_cases hthen : check.after.state.status? scopeId other = some .active
  swap
  · exact ⟨[], h₂, check.after, rfl, hrest, hthen⟩
  obtain ⟨rfl, hsame⟩ := recordsOf_of_listed hr (by simp) hcheck
  obtain ⟨r, hrecord, hstatus⟩ := Option.map_eq_some_iff.mp hthen
  obtain ⟨-, rfl⟩ := MemoryStore.key_of_record? hrecord
  -- both records had their kinds at the check already
  have hrkind : r.kind = kind := by
    have hlater := kind?_of_run r.kind hrest (by rw [MemoryStore.kind?, hrecord]; rfl)
    exact Option.some.inj (hlater.symm.trans hactive.2)
  have hrecordkind : record.kind = kind := by
    obtain ⟨look, hlook, -, hgot⟩ := Pool.mem_pastOf.mp hlooked
    obtain ⟨x, y, rfl⟩ := List.append_of_mem hlook
    have hread := (record?_of_got hr (by simp) hgot).1
    rw [List.append_assoc] at hr
    have hlater := kind?_of_run record.kind hr.onFrom (by rw [MemoryStore.kind?, hread]; rfl)
    exact Option.some.inj (hlater.symm.trans hkind)
  have hlisted : r ∈ check.before.state.recordsOf scopeId := by
    rw [hsame] at hrecord
    exact MemoryStore.mem_recordsOf.mpr hrecord
  have hsupersedes := supersedes_of_conflicts hconflict hlisted hstatus
    (hrkind.trans hrecordkind.symm) hother
  obtain ⟨access, hmem, hsaw⟩ := hsince r.memoryId hsupersedes
  obtain ⟨g, hg, -, hperforms⟩ := Pool.mem_pastOf.mp hmem
  obtain ⟨u, v, rfl⟩ := List.append_of_mem hg
  refine ⟨u ++ [g], v, g.after, by simp, hrest.split.2.2, ?_⟩
  exact hsaw.status? hrest (by simp) hperforms

/-- **Where two records of a kind come to be active, two activations overlap.** -/
theorem overlapped_of_active (hr : Interleaving reprText calls S (h₁ ++ e :: h₂) P)
    (hmoves : MovesTo scopeId memoryId .active e) (hother : memoryId ≠ other)
    (hkind : e.before.state.kind? scopeId memoryId = some kind)
    (hactive : ActiveOf e.before.state scopeId kind other) : Overlapped (h₁ ++ e :: h₂) := by
  have hmoves' := hmoves
  obtain ⟨expectedRevision, newRevision, supersedes, atTime, hperforms⟩ := hmoves'
  obtain ⟨looked, rows, since, record, hpast, hlooked, -, hconflict, hsince⟩ :=
    allowed_of_run hr hperforms
  obtain ⟨g₁, check, g₂, rfl, hop, hcheck, rfl, rfl⟩ := Pool.exists_of_pastOf_eq hpast
  obtain ⟨hbefore, -, -⟩ := hr.split
  obtain ⟨u, v, t, rfl, hrun, hno⟩ := exists_inactive hbefore hlooked hcheck hconflict hsince hother
    hkind hactive
  -- so it became active in between
  obtain ⟨v₁, f, v₂, rfl, hfbefore, hfafter⟩ := hrun.exists_turn
    (I := fun P => P.state.status? scopeId other = some .active) hno hactive.1
  have hrun' : Interleaving reprText calls S ((g₁ ++ check :: (u ++ v₁)) ++ f :: (v₂ ++ e :: h₂))
      P := by
    simpa using hr
  exact ⟨scopeId, kind, memoryId, other, rows, g₁, check, u ++ v₁, f, v₂, e, h₂, by simp, hop,
    hcheck, movesTo_active_of_turn hrun' hfbefore hfafter, hmoves, hother, hkind, hactive⟩

/-! ### The invariant -/

/-- A record that is active after a step was so before it, or the step makes it active; its kind is
the same. -/
theorem ActiveOf.before (hr : Interleaving reprText calls S (h₁ ++ e :: h₂) P)
    (hactive : ActiveOf e.after.state scopeId kind memoryId) :
    ActiveOf e.before.state scopeId kind memoryId ∨
      (MovesTo scopeId memoryId .active e ∧
        e.before.state.kind? scopeId memoryId = some kind) := by
  have hkind {r : MemoryRecord} (hrecord : e.before.state.record? scopeId memoryId = some r) :
      e.before.state.kind? scopeId memoryId = some kind := by
    have hbefore : e.before.state.kind? scopeId memoryId = some r.kind := by
      rw [MemoryStore.kind?, hrecord, Option.map_some]
    have hstep : Interleaving reprText calls S (h₁ ++ [e]) e.after := Run.upTo hr
    have hafter := kind?_of_run r.kind (Run.onFrom hstep) hbefore
    rw [hbefore, ← hafter, hactive.2]
  by_cases hbefore : e.before.state.status? scopeId memoryId = some .active
  · obtain ⟨r, hrecord, -⟩ := Option.map_eq_some_iff.mp hbefore
    exact .inl ⟨hbefore, hkind hrecord⟩
  · have hmoves := movesTo_active_of_turn hr hbefore hactive.1
    obtain ⟨_, _, _, _, hperforms⟩ := hmoves
    obtain ⟨r, hrecord, -⟩ := transition_eq_ok.mp (Pool.run_of_mem hr (by simp) hperforms)
    exact .inr ⟨⟨_, _, _, _, hperforms⟩, hkind hrecord⟩

/-- In every state of the history at most one record of each scope and kind is active. -/
def AlwaysOneActive (h : List MemoryEntry) (P : MemoryPool) : Prop :=
  OneActive P.state ∧ ∀ e ∈ h, OneActive e.before.state ∧ OneActive e.after.state

/-- **Which interleavings keep one active record for each kind**: those in which no two activations
of the kind overlap. -/
theorem alwaysOneActive_iff (hS : OneActive S) (hr : Interleaving reprText calls S h P) :
    AlwaysOneActive h P ↔ ¬Overlapped h := by
  constructor
  · rintro ⟨-, hone⟩ ⟨scopeId, kind, memoryId, other, rows, h₁, check, h₂, f, h₃, e, h₄, rfl, -, -,
      -, hmoves, hother, hkind, hactive⟩
    have hmem : e ∈ h₁ ++ check :: (h₂ ++ f :: (h₃ ++ e :: h₄)) := by simp
    have hcut : Interleaving reprText calls S ((h₁ ++ check :: (h₂ ++ f :: h₃)) ++ e :: h₄) P := by
      simpa using hr
    have hafter : ActiveOf e.after.state scopeId kind memoryId :=
      ⟨hmoves.status? hr hmem, kind?_of_run kind (Run.onFrom (Run.upTo hcut)) hkind⟩
    have hotherAfter : ActiveOf e.after.state scopeId kind other := by
      rw [ActiveOf, MemoryStore.status?, MemoryStore.kind?, hmoves.record?_of_ne hr hmem hother]
      exact hactive
    exact hother ((hone e hmem).2 scopeId kind memoryId other hafter hotherAfter)
  · intro hno
    refine hr.inv_entries (I := fun P => OneActive P.state) hS ?_
    rintro h₁ e h₂ rfl - hbefore scopeId kind memoryId other hactive hactive'
    by_contra hne
    rcases hactive.before hr with hfirst | ⟨hmoves, hkind⟩
    · rcases hactive'.before hr with hsecond | ⟨hmoves', hkind'⟩
      · exact hne (hbefore scopeId kind memoryId other hfirst hsecond)
      · exact hno (overlapped_of_active hr hmoves' (Ne.symm hne) hkind' hfirst)
    · rcases hactive'.before hr with hsecond | ⟨hmoves', -⟩
      · exact hno (overlapped_of_active hr hmoves hne hkind hsecond)
      · exact hne (Prod.mk.inj (hmoves.unique hmoves')).2

end

theorem alwaysOneActive_of_one_activation :
    let run := ordered proposeActivateDelete [0, 1, 1, 1, 1, 2, 2]
    AlwaysOneActive run.1 run.2 ↔ ¬Overlapped run.1 :=
  alwaysOneActive_iff oneActive_empty (interleaving_ordered proposeActivateDelete _)

/-- Two candidates of one kind are proposed, and each is activated. -/
def proposeActivateTwo : ℕ → MemoryCall
  | 0 => .propose "s" "a" "fact" .empty "src" ["e"] 1 none 0
  | 1 => .propose "s" "b" "fact" .empty "src" ["e"] 1 none 0
  | 2 => .activate "s" "a" 1 none 5
  | 3 => .activate "s" "b" 1 none 5
  | _ => .get "s" "a"

/-- Both activations look for conflicts before either has made its record active. -/
theorem both_activated :
    let run := ordered proposeActivateTwo [0, 1, 2, 2, 3, 3, 2, 3]
    Interleaving id proposeActivateTwo {} run.1 run.2 ∧ ¬AlwaysOneActive run.1 run.2 := by
  refine ⟨interleaving_ordered _ _, fun hone => ?_⟩
  have hsame := hone.1 "s" "fact" "a" "b" ⟨rfl, rfl⟩ ⟨rfl, rfl⟩
  exact absurd hsame (by decide)

end Memory

end CyranoAgent
