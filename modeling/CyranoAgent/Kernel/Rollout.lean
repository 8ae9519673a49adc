import CyranoAgent.Events.Orphans
import CyranoAgent.Kernel.Releases

/-!
# Rollout

`bind_dispatch` says which release a run may use, from the lane as it is when the run asks.
`bindDispatch_spec` says what a binding means over a history of the lane: a run that is bound has a
release that the lane took in and never revoked, and a run that uses a revoked one is paused, then
and at any later time. `bindDispatch_stable`: a run that started before a promotion keeps its
release whatever is promoted or rolled back, until that release or the one it uses is revoked.
`revoked_stopDispatch_iff` says the same of the runs that are new: `stop_dispatch` reports a revoked
release exactly when no new run can be bound.
-/

namespace CyranoAgent

open Lib Lib.Action
open DomainSink (stringBuiltins)

namespace Kernel

namespace ReleaseLane

instance (lane : ReleaseLane) (releaseId : String) : Decidable (lane.isRevoked releaseId) :=
  inferInstanceAs (Decidable (_ ∈ _))

/-- The ids in the history. -/
def knownIds (lane : ReleaseLane) : List String := lane.history.map (·.releaseId)

/-! ### The history of a lane grows -/

section

variable {P : Primitives} {initial : Release} {lane lane' : ReleaseLane} {h : List LaneEntry}

theorem history_promote (subject : ReleaseSubject) (evaluatedDigest : String) :
    lane.history <+: ((promote P subject evaluatedDigest).run lane).2.history ∧
      (((promote P subject evaluatedDigest).run lane).2.live = lane.live ∨
        ((promote P subject evaluatedDigest).run lane).2.live ∈
          ((promote P subject evaluatedDigest).run lane).2.history) := by
  rcases hrun : (promote P subject evaluatedDigest).run lane with ⟨failure | release, lane'⟩
  · have hatomic : Atomic (promote P subject evaluatedDigest) :=
      Atomic.bind (readOnly_raiseIf _ _) fun _ => Atomic.bind readOnly_get fun _ =>
        Atomic.bind (readOnly_raiseIf _ _) fun _ => Atomic.bind (readOnly_lift _) fun _ => by
          intro s s' e hfail
          cases hfail
    obtain rfl := hatomic hrun
    exact ⟨List.prefix_rfl, .inl rfl⟩
  · simp only [promote, bind_eq_ok, raiseIf_eq_ok, run_get, lift_eq_ok, run_modify, run_pure,
      Prod.mk.injEq, Except.ok.injEq] at hrun
    obtain ⟨_, _, ⟨-, rfl⟩, _, _, ⟨rfl, rfl⟩, _, _, ⟨-, rfl⟩, _, _, ⟨-, rfl⟩, _, _, ⟨-, rfl⟩, -,
      rfl⟩ := hrun
    exact ⟨List.prefix_append _ _, .inr (by simp)⟩

theorem history_rollback (targetId : String) :
    ((rollback targetId).run lane).2.history = lane.history ∧
      (((rollback targetId).run lane).2.live = lane.live ∨
        ((rollback targetId).run lane).2.live ∈ lane.history) := by
  rw [run_rollback]
  cases hrelease : lane.release? targetId with
  | none => exact ⟨rfl, .inl rfl⟩
  | some release => exact ⟨rfl, .inr (List.mem_of_find?_eq_some hrelease)⟩

theorem history_recover (targetRelease revokeRelease : Option String)
    (runningRuns : List RunningRun) :
    ((rollbackOrRevoke targetRelease revokeRelease runningRuns).run lane).2.history =
        lane.history ∧
      (((rollbackOrRevoke targetRelease revokeRelease runningRuns).run lane).2.live = lane.live ∨
        ((rollbackOrRevoke targetRelease revokeRelease runningRuns).run lane).2.live ∈
          lane.history) := by
  have hafter : (lane.afterRevoking revokeRelease).history = lane.history := by
    cases revokeRelease <;> rfl
  by_cases hknown : lane.CanRevoke revokeRelease
  · cases hfound : (lane.recoveryTarget targetRelease revokeRelease).bind lane.release? with
    | none =>
      obtain ⟨failure, hrun⟩ := recover_lost hknown runningRuns hfound
      rw [hrun]
      exact ⟨hafter, .inl live_afterRevoking⟩
    | some release =>
      obtain ⟨target, htarget, hrelease⟩ := Option.bind_eq_some_iff.mp hfound
      obtain ⟨report, hrun⟩ := recover_moves hknown runningRuns htarget hrelease
      rw [hrun]
      exact ⟨hafter, .inr (List.mem_of_find?_eq_some hrelease)⟩
  · obtain ⟨failure, hrun⟩ := recover_refused hknown runningRuns
    rw [hrun]
    exact ⟨rfl, .inl rfl⟩

/-- **A call keeps the history**, behind which it may put a release, and moves the pointer within
it. -/
theorem history_act (call : LaneCall) :
    lane.history <+: (call.act P lane).2.history ∧
      ((call.act P lane).2.live = lane.live ∨
        (call.act P lane).2.live ∈ (call.act P lane).2.history) := by
  cases call with
  | promote subject evaluatedDigest =>
    rw [LaneCall.act, run_map]
    exact history_promote subject evaluatedDigest
  | revoke releaseId =>
    rw [LaneCall.act, run_map, run_revoke]
    cases lane.release? releaseId with
    | none => exact ⟨List.prefix_rfl, .inl rfl⟩
    | some release => exact ⟨List.prefix_rfl, .inl rfl⟩
  | rollback targetId =>
    rw [LaneCall.act, run_map]
    obtain ⟨hsame, hlive⟩ := @history_rollback lane targetId
    dsimp only
    rw [hsame]
    exact ⟨List.prefix_rfl, hlive⟩
  | rollbackOrRevoke targetRelease revokeRelease runningRuns =>
    rw [LaneCall.act, run_map]
    obtain ⟨hsame, hlive⟩ := @history_recover lane targetRelease revokeRelease runningRuns
    dsimp only
    rw [hsame]
    exact ⟨List.prefix_rfl, hlive⟩

/-- The live release is in the history. -/
theorem live_mem_history (hr : Run (LaneCall.act P) (start initial) h lane) :
    lane.live ∈ lane.history := by
  refine hr.inv_state (I := fun lane => lane.live ∈ lane.history) (by simp [start])
    fun lane call hlive => ?_
  obtain ⟨hkept, hsame | hmem⟩ := @history_act P lane call
  · rw [hsame]
    exact hkept.subset hlive
  · exact hmem

theorem history_grows (hr : Run (LaneCall.act P) lane h lane') :
    lane.history <+: lane'.history :=
  hr.inv_state (I := fun lane' => lane.history <+: lane'.history) List.prefix_rfl
    fun _ call hlane => hlane.trans (history_act call).1

end

end ReleaseLane

/-! ### Bindings -/

/-- `CanaryCohort`. -/
structure CanaryCohort where
  cohortId : String
  releaseId : String
  memberIds : List String
  deriving DecidableEq, Repr

/-- `assign_canary`; the members are the texts of the given ones. -/
def assignCanary (lane : ReleaseLane) (memberIds : List String) (cohortId : String) :
    Except Failure CanaryCohort :=
  let members := memberIds.dedup.mergeSort (· ≤ ·)
  if members = [] then .error (.cyrano "INPUT_INVALID" "a cohort needs members")
  else .ok ⟨cohortId, lane.live.releaseId, members⟩

/-- The states of a binding. -/
inductive BindingState
  | bound | paused
  deriving DecidableEq, Repr

/-- `DispatchBinding`. -/
structure DispatchBinding where
  runId : String
  releaseId : String
  state : BindingState
  reason : String
  deriving DecidableEq, Repr

section

variable (B : Builtins)

/-- The release that a run uses: `str(run.get("release_id", ""))`. -/
def usedRelease (run : PyMapping) : String := B.text (run.getD "release_id" (.str ""))

/-- The release that a run pinned when it started: `str(run.get("pinned_release_id"))`. -/
def pinnedRelease (run : PyMapping) : String := B.text (run.getD "pinned_release_id" .none)

/-- The run started after the promotion. -/
def startedAfter (run : PyMapping) : Bool :=
  (run.getD "started_after_promotion" (.bool false)).truth B

/-- `bind_dispatch`. -/
def bindDispatch (lane : ReleaseLane) (run : PyMapping) : DispatchBinding :=
  let runId := B.text (run.getD "run_id" (.str ""))
  let used := usedRelease B run
  if lane.isRevoked used then ⟨runId, used, .paused, "REVOKED_RELEASE"⟩
  else if startedAfter B run then
    if lane.isRevoked lane.live.releaseId then
      ⟨runId, lane.live.releaseId, .paused, "REVOKED_RELEASE"⟩
    else ⟨runId, lane.live.releaseId, .bound, "live_release"⟩
  else if pinnedRelease B run ∉ lane.knownIds then
    ⟨runId, used, .paused, "UNKNOWN_PINNED_RELEASE"⟩
  else if lane.isRevoked (pinnedRelease B run) then
    ⟨runId, pinnedRelease B run, .paused, "REVOKED_RELEASE"⟩
  else ⟨runId, pinnedRelease B run, .bound, "pinned_release"⟩

/-- The report of `stop_dispatch`. -/
structure StoppedDispatch where
  newDispatch : String
  liveRelease : String
  revoked : Bool
  deriving DecidableEq, Repr

/-- `stop_dispatch`. -/
def stopDispatch (lane : ReleaseLane) : StoppedDispatch :=
  ⟨"stopped", lane.live.releaseId, lane.isRevoked lane.live.releaseId⟩

end

/-- A cohort is one of a set of members: neither their order nor how often they are given
matters. -/
theorem assignCanary_congr (lane : ReleaseLane) {memberIds memberIds' : List String}
    (cohortId : String) (hsame : ∀ memberId, memberId ∈ memberIds ↔ memberId ∈ memberIds') :
    assignCanary lane memberIds cohortId = assignCanary lane memberIds' cohortId := by
  have hperm : List.Perm (memberIds.dedup.mergeSort (· ≤ ·))
      (memberIds'.dedup.mergeSort (· ≤ ·)) := by
    refine (List.mergeSort_perm _ _).trans (List.Perm.trans ?_ (List.mergeSort_perm _ _).symm)
    rw [List.perm_ext_iff_of_nodup (List.nodup_dedup _) (List.nodup_dedup _)]
    simpa using hsame
  have hmembers : memberIds.dedup.mergeSort (· ≤ ·) = memberIds'.dedup.mergeSort (· ≤ ·) :=
    hperm.eq_of_pairwise (fun _ _ _ _ => le_antisymm) (List.pairwise_mergeSort' _ _)
      (List.pairwise_mergeSort' _ _)
  simp only [assignCanary, hmembers]

namespace ReleaseLane

variable {B : Builtins} {P : Primitives} {initial : Release} {lane lane' : ReleaseLane}
  {h h' : List LaneEntry} {run : PyMapping}

/-- **What a binding means.** A run is bound to a release that the lane took in and that no call
revoked, and neither was the one it uses; and a run whose own release was revoked at any time is
paused for that. -/
theorem bindDispatch_spec (hr : Run (LaneCall.act P) (start initial) h lane) (run : PyMapping) :
    ((bindDispatch B lane run).state = .bound →
        (bindDispatch B lane run).releaseId ∈ lane.knownIds ∧
          ∀ e ∈ h, ¬Revokes e (bindDispatch B lane run).releaseId ∧
            ¬Revokes e (usedRelease B run)) ∧
      ∀ e ∈ h, Revokes e (usedRelease B run) →
        (bindDispatch B lane run).state = .paused ∧
          (bindDispatch B lane run).reason = "REVOKED_RELEASE" := by
  have hnever {releaseId : String} (hid : ¬lane.isRevoked releaseId) :
      ∀ e ∈ h, ¬Revokes e releaseId := fun e he hrevokes =>
    hid ((isRevoked_iff hr releaseId).mpr ⟨e, he, hrevokes⟩)
  refine ⟨fun hbound => ?_, fun e he hrevokes => ?_⟩
  · rw [bindDispatch] at hbound ⊢
    split_ifs at hbound ⊢ with hused hafter hlive hknown hpinned
    · exact ⟨List.mem_map_of_mem (live_mem_history hr), fun e he =>
        ⟨hnever hlive e he, hnever hused e he⟩⟩
    · exact ⟨hknown, fun e he => ⟨hnever hpinned e he, hnever hused e he⟩⟩
  · rw [bindDispatch, if_pos ((isRevoked_iff hr _).mpr ⟨e, he, hrevokes⟩)]
    exact ⟨rfl, rfl⟩

/-- When a run that started before is bound: to its pin, which is known and not revoked. -/
theorem bindDispatch_bound_iff (hpin : startedAfter B run = false) :
    (bindDispatch B lane run).state = .bound ↔
      ¬lane.isRevoked (usedRelease B run) ∧ pinnedRelease B run ∈ lane.knownIds ∧
        ¬lane.isRevoked (pinnedRelease B run) := by
  simp only [bindDispatch, hpin, Bool.false_eq_true, if_false]
  split_ifs <;> simp_all

theorem bindDispatch_of_bound (hpin : startedAfter B run = false)
    (hbound : (bindDispatch B lane run).state = .bound) :
    bindDispatch B lane run =
      ⟨B.text (run.getD "run_id" (.str "")), pinnedRelease B run, .bound, "pinned_release"⟩ := by
  obtain ⟨hused, hknown, hpinned⟩ := (bindDispatch_bound_iff hpin).mp hbound
  simp [bindDispatch, hused, hpin, hknown, hpinned]

/-- **A pinned run stays bound** through promotions, rollbacks and the revocation of other releases:
its binding is the same exactly as long as neither its pin nor the release that it uses is
revoked. -/
theorem bindDispatch_stable (hr : Run (LaneCall.act P) (start initial) h lane)
    (hr' : Run (LaneCall.act P) lane h' lane') (hpin : startedAfter B run = false)
    (hbound : (bindDispatch B lane run).state = .bound) :
    bindDispatch B lane' run = bindDispatch B lane run ↔
      ∀ e ∈ h', ¬Revokes e (pinnedRelease B run) ∧ ¬Revokes e (usedRelease B run) := by
  have hrevoked {releaseId : String} (hbefore : ¬lane.isRevoked releaseId) :
      lane'.isRevoked releaseId ↔ ∃ e ∈ h', Revokes e releaseId := by
    rw [isRevoked_iff hr] at hbefore
    rw [isRevoked_iff (hr.append hr')]
    simp only [List.mem_append, or_and_right, exists_or, hbefore, false_or]
  obtain ⟨hused, hknown, hpinned⟩ := (bindDispatch_bound_iff hpin).mp hbound
  have hknown' : pinnedRelease B run ∈ lane'.knownIds :=
    List.map_subset _ (history_grows hr').subset hknown
  have hsame : bindDispatch B lane' run = bindDispatch B lane run ↔
      (bindDispatch B lane' run).state = .bound := by
    refine ⟨fun heq => by rw [heq, hbound], fun hbound' => ?_⟩
    rw [bindDispatch_of_bound hpin hbound, bindDispatch_of_bound hpin hbound']
  rw [hsame, bindDispatch_bound_iff hpin, hrevoked hused, hrevoked hpinned]
  simp only [hknown', true_and, not_exists, not_and]
  exact ⟨fun h e he => ⟨h.2 e he, h.1 e he⟩,
    fun h => ⟨fun e he => (h e he).2, fun e he => (h e he).1⟩⟩

/-- **Dispatch is stopped** exactly when no run that started after the promotion can be bound. -/
theorem revoked_stopDispatch_iff :
    (stopDispatch lane).revoked = true ↔
      ∀ run, startedAfter B run = true → (bindDispatch B lane run).state = .paused := by
  rw [stopDispatch, decide_eq_true_iff]
  constructor
  · intro hlive run hafter
    simp only [bindDispatch, hafter, if_true, hlive]
    split_ifs <;> rfl
  · intro hpaused
    by_contra hlive
    -- a new run that uses the live release
    let run : PyMapping := [(.str "release_id", .str lane.live.releaseId),
      (.str "started_after_promotion", .bool true)]
    have hused : usedRelease B run = lane.live.releaseId := B.text_str _
    have hafter : startedAfter B run = true := rfl
    have hbound : (bindDispatch B lane run).state = .bound := by
      simp [bindDispatch, hused, hafter, hlive]
    rw [hpaused run hafter] at hbound
    cases hbound

/-! ### A promotion and a revocation -/

/-- A run that is pinned to the first release. -/
def pinnedRun : PyMapping :=
  [(.str "run_id", .str "run1"), (.str "release_id", .str "r0"),
    (.str "pinned_release_id", .str "r0")]

/-- The first release is revoked after a promotion. -/
theorem bindDispatch_spec_revoked :
    let h := (exec (LaneCall.act .ascii) (start firstRelease) (backToRevoked.take 2)).1
    let lane := (exec (LaneCall.act .ascii) (start firstRelease) (backToRevoked.take 2)).2
    ((bindDispatch stringBuiltins lane pinnedRun).state = .bound →
        (bindDispatch stringBuiltins lane pinnedRun).releaseId ∈ lane.knownIds ∧
          ∀ e ∈ h, ¬Revokes e (bindDispatch stringBuiltins lane pinnedRun).releaseId ∧
            ¬Revokes e (usedRelease stringBuiltins pinnedRun)) ∧
      ∀ e ∈ h, Revokes e (usedRelease stringBuiltins pinnedRun) →
        (bindDispatch stringBuiltins lane pinnedRun).state = .paused ∧
          (bindDispatch stringBuiltins lane pinnedRun).reason = "REVOKED_RELEASE" :=
  bindDispatch_spec (run_exec _ _ _) _

/-- Before the promotion the run is bound. -/
theorem pinnedRun_bound : startedAfter stringBuiltins pinnedRun = false ∧
    (bindDispatch stringBuiltins (start firstRelease) pinnedRun).state = .bound := by
  decide

/-- The run was bound before the promotion. -/
theorem bindDispatch_stable_pinned :
    let h := (exec (LaneCall.act .ascii) (start firstRelease) backToRevoked).1
    let lane := (exec (LaneCall.act .ascii) (start firstRelease) backToRevoked).2
    bindDispatch stringBuiltins lane pinnedRun =
        bindDispatch stringBuiltins (start firstRelease) pinnedRun ↔
      ∀ e ∈ h, ¬Revokes e (pinnedRelease stringBuiltins pinnedRun) ∧
        ¬Revokes e (usedRelease stringBuiltins pinnedRun) :=
  bindDispatch_stable .nil (run_exec _ _ _) pinnedRun_bound.1 pinnedRun_bound.2

end ReleaseLane

end Kernel

end CyranoAgent
