import CyranoAgent.Contracts.Canonical
import CyranoAgent.Lib.Action
import CyranoAgent.Lib.Run
import Mathlib.Data.Finset.Insert

/-!
# The release lane and its recovery

`ReleaseLane` promotes releases by compare-and-swap on the live pointer, revokes them, and moves the
pointer back. The revoked ids are kept and asked for by `is_revoked`; no move of the pointer asks.
`revocationLaw_iff` says when a revoked release stays out: exactly when no promotion and no rollback
that the lane admits leads to a release that is revoked.
-/

namespace CyranoAgent

open Lib Lib.Action

namespace Kernel

/-- `ReleaseSubject`. -/
structure ReleaseSubject where
  subjectId : String
  parentId : String
  patchDigest : String
  evidenceRefs : List String
  approvalRef : String
  deriving DecidableEq

/-- `Release`. The first release of a lane may have no parent. -/
structure Release where
  releaseId : String
  parentId : Option String
  patchDigest : String
  evidenceRefs : List String
  deriving DecidableEq

/-- `ReleaseLane`. -/
structure ReleaseLane where
  live : Release
  history : List Release
  revoked : Finset String

/-- The actions of a recovery report. -/
inductive RecoveryAction
  | rollback | revoke
  deriving DecidableEq, Repr

/-- `RecoveryReport`. -/
structure RecoveryReport where
  action : RecoveryAction
  newLive : String
  impactedSessions : List String
  newDispatchStopped : Bool
  userCodeReverted : Bool
  deriving DecidableEq, Repr

/-- A run, as a recovery reads it. -/
structure RunningRun where
  runId : String
  releaseId : String

namespace ReleaseLane

/-- What a call on the lane is. -/
abbrev LaneOp (α : Type) := Action ReleaseLane Failure α

/-- `ReleaseLane(initial)`. -/
def start (initial : Release) : ReleaseLane := ⟨initial, [initial], ∅⟩

/-- `is_revoked`. -/
def isRevoked (lane : ReleaseLane) (releaseId : String) : Prop := releaseId ∈ lane.revoked

/-- The first release of an id in the history. -/
def release? (lane : ReleaseLane) (releaseId : String) : Option Release :=
  lane.history.find? fun release => release.releaseId = releaseId

/-- What the id of a promoted release is taken of. -/
def promotedValue (subjectId liveId : String) : PyValue := .list [.str subjectId, .str liveId]

/-- `promote`. -/
def promote (P : Primitives) (subject : ReleaseSubject) (evaluatedDigest : String) :
    LaneOp Release := do
  raiseIf (evaluatedDigest ≠ subject.patchDigest)
    (.cyrano "APPROVAL_INVALID" "evaluated digest differs from the subject")
  let lane ← get
  raiseIf (subject.parentId ≠ lane.live.releaseId)
    (.cyrano "STALE_REVISION" ("parent " ++ subject.parentId ++ " is not live"))
  let releaseId ← lift (digest P (promotedValue subject.subjectId lane.live.releaseId))
  let release : Release :=
    ⟨releaseId, some lane.live.releaseId, subject.patchDigest, subject.evidenceRefs⟩
  modify fun lane => { lane with live := release, history := lane.history ++ [release] }
  return release

/-- `revoke`. -/
def revoke (releaseId : String) : LaneOp Release := do
  match (← get).release? releaseId with
  | none => throw (.cyrano "MISSING_RELEASE" releaseId)
  | some release => do
    modify fun lane => { lane with revoked := insert releaseId lane.revoked }
    return release

/-- `rollback`. -/
def rollback (targetId : String) : LaneOp Release := do
  match (← get).release? targetId with
  | none => throw (.cyrano "MISSING_RELEASE" targetId)
  | some release => do
    modify fun lane => { lane with live := release }
    return release

/-- The release that `rollback_or_revoke` goes to: the one it is given, else the parent of the live
one, or the live one when another is revoked. -/
def recoveryTarget (lane : ReleaseLane) (targetRelease revokeRelease : Option String) :
    Option String :=
  match targetRelease with
  | some target => some target
  | none =>
    if revokeRelease = none ∨ revokeRelease = some lane.live.releaseId then lane.live.parentId
    else some lane.live.releaseId

/-- `if revoke_release is not None: lane.revoke(revoke_release)`. -/
def revokeGiven : Option String → LaneOp Unit
  | none => pure ()
  | some releaseId => (fun _ => ()) <$> revoke releaseId

/-- The sessions that a recovery lists: the runs on another release than the new live one. -/
def impactedSessions (newLive : String) (runningRuns : List RunningRun) : List String :=
  ((runningRuns.filter (·.releaseId ≠ newLive)).map (·.runId)).mergeSort (· ≤ ·)

/-- `rollback_or_revoke`. -/
def rollbackOrRevoke (targetRelease revokeRelease : Option String)
    (runningRuns : List RunningRun) : LaneOp RecoveryReport := do
  let liveBefore := (← get).live.releaseId
  revokeGiven revokeRelease
  match (← get).recoveryTarget targetRelease revokeRelease with
  | none => throw (.cyrano "MISSING_RELEASE" "no parent to roll back to")
  | some target => do
    let newLive := (← rollback target).releaseId
    return {
      action := if revokeRelease.any (· ≠ "") then .revoke else .rollback
      newLive
      impactedSessions := impactedSessions newLive runningRuns
      newDispatchStopped := revokeRelease = some liveBefore ∨ newLive ≠ liveBefore
      userCodeReverted := false }

/-! ### The lane as a machine -/

/-- The calls on a lane. -/
inductive LaneCall
  | promote (subject : ReleaseSubject) (evaluatedDigest : String)
  | revoke (releaseId : String)
  | rollback (targetId : String)
  | rollbackOrRevoke (targetRelease revokeRelease : Option String) (runningRuns : List RunningRun)

/-- What a call returns. -/
inductive LaneReply
  | release (release : Release)
  | report (report : RecoveryReport)

/-- Perform a call. -/
def LaneCall.act (P : Primitives) (call : LaneCall) (lane : ReleaseLane) :
    Except Failure LaneReply × ReleaseLane :=
  match call with
  | .promote subject evaluatedDigest =>
    (LaneReply.release <$> ReleaseLane.promote P subject evaluatedDigest).run lane
  | .revoke releaseId => (LaneReply.release <$> ReleaseLane.revoke releaseId).run lane
  | .rollback targetId => (LaneReply.release <$> ReleaseLane.rollback targetId).run lane
  | .rollbackOrRevoke targetRelease revokeRelease runningRuns =>
    (LaneReply.report <$> ReleaseLane.rollbackOrRevoke targetRelease revokeRelease
      runningRuns).run lane

/-- The id that a call asks to revoke. -/
def LaneCall.revokes? : LaneCall → Option String
  | .revoke releaseId => some releaseId
  | .rollbackOrRevoke _ revokeRelease _ => revokeRelease
  | _ => none

/-- One call of a history of the lane. -/
abbrev LaneEntry := Entry ReleaseLane LaneCall (Except Failure LaneReply)

/-- The entry revoked a release: one that the lane knows. -/
def Revokes (e : LaneEntry) (releaseId : String) : Prop :=
  e.op.revokes? = some releaseId ∧ (e.before.release? releaseId).isSome

/-- A revoked release stays out over a history. -/
structure RevocationLaw (h : List LaneEntry) : Prop where
  /-- What was revoked before the pointer moves does not become the live release. -/
  neverAgain : ∀ h₁ e h₂, h = h₁ ++ e :: h₂ → ∀ e' ∈ h₁ ++ [e],
    Revokes e' e.after.live.releaseId → e.before.live.releaseId = e.after.live.releaseId
  /-- A recovery that returns leaves a live release that was not revoked. -/
  recovered : ∀ h₁ e h₂, h = h₁ ++ e :: h₂ → ∀ report, e.reply = .ok (.report report) →
    ∀ e' ∈ h₁ ++ [e], ¬Revokes e' e.after.live.releaseId

/-- A move of the pointer is good: it does not make a revoked release live, and a recovery that
returns leaves none. -/
structure MovesWell (lane : ReleaseLane) (reply : Except Failure LaneReply)
    (lane' : ReleaseLane) : Prop where
  neverAgain : lane'.isRevoked lane'.live.releaseId → lane.live.releaseId = lane'.live.releaseId
  recovered : ∀ report, reply = .ok (.report report) → ¬lane'.isRevoked lane'.live.releaseId

/-- A call that the lane admits does not move the pointer to a revoked release: not with the id of
the release it promotes, nor with the known target of a rollback. A recovery does not return to a
revoked release at all, and not to the one it revokes itself. -/
def LaneCall.Spares (P : Primitives) (lane : ReleaseLane) : LaneCall → Prop
  | .promote subject evaluatedDigest =>
    evaluatedDigest = subject.patchDigest → subject.parentId = lane.live.releaseId →
      ∀ releaseId, digest P (promotedValue subject.subjectId lane.live.releaseId) = .ok releaseId →
        lane.isRevoked releaseId → releaseId = lane.live.releaseId
  | .revoke _ => True
  | .rollback targetId =>
    (lane.release? targetId).isSome → lane.isRevoked targetId → targetId = lane.live.releaseId
  | .rollbackOrRevoke targetRelease revokeRelease _ =>
    (∀ releaseId, revokeRelease = some releaseId → (lane.release? releaseId).isSome) →
      ∀ target, lane.recoveryTarget targetRelease revokeRelease = some target →
        (lane.release? target).isSome → ¬lane.isRevoked target ∧ revokeRelease ≠ some target

/-! ### What a call does -/

section

variable {P : Primitives} {lane lane' : ReleaseLane} {releaseId targetId : String}
  {release : Release} {targetRelease revokeRelease : Option String}

theorem releaseId_eq (h : lane.release? releaseId = some release) :
    release.releaseId = releaseId := by
  simpa using List.find?_some h

/-- The lane with one more revoked id. -/
def withRevoked (lane : ReleaseLane) (releaseId : String) : ReleaseLane :=
  { lane with revoked := insert releaseId lane.revoked }

theorem run_revoke (releaseId : String) (lane : ReleaseLane) :
    (revoke releaseId).run lane =
      match lane.release? releaseId with
      | none => (.error (.cyrano "MISSING_RELEASE" releaseId), lane)
      | some release => (.ok release, lane.withRevoked releaseId) := by
  rw [revoke, run_bind_ok (run_get lane)]
  cases lane.release? releaseId with
  | none => rfl
  | some release => rfl

theorem run_rollback (targetId : String) (lane : ReleaseLane) :
    (rollback targetId).run lane =
      match lane.release? targetId with
      | none => (.error (.cyrano "MISSING_RELEASE" targetId), lane)
      | some release => (.ok release, { lane with live := release }) := by
  rw [rollback, run_bind_ok (run_get lane)]
  cases lane.release? targetId with
  | none => rfl
  | some release => rfl

/-- A call that keeps the lane as it is, but for revoked ids. -/
theorem movesWell_of_live (hlive : lane'.live = lane.live) {failure : Failure} :
    MovesWell lane (.error failure) lane' :=
  ⟨fun _ => by rw [hlive], fun report hreport => by cases hreport⟩

/-- A promotion that is admitted. -/
theorem run_promote_ok {subject : ReleaseSubject} {evaluatedDigest : String}
    (hdigest : evaluatedDigest = subject.patchDigest)
    (hparent : subject.parentId = lane.live.releaseId)
    (hid : digest P (promotedValue subject.subjectId lane.live.releaseId) = .ok releaseId) :
    (promote P subject evaluatedDigest).run lane =
      let release : Release :=
        ⟨releaseId, some lane.live.releaseId, subject.patchDigest, subject.evidenceRefs⟩
      (.ok release, { lane with live := release, history := lane.history ++ [release] }) := by
  rw [promote, run_raiseIf_skip (not_not.mpr hdigest), run_bind_ok (run_get lane),
    run_raiseIf_skip (not_not.mpr hparent), hid, run_bind_ok (run_lift_ok releaseId lane),
    run_bind_ok (run_modify _ lane), run_pure]

/-- **A promotion moves the pointer well** exactly when it spares the revoked releases. -/
theorem movesWell_promote (subject : ReleaseSubject) (evaluatedDigest : String) :
    MovesWell lane ((LaneCall.promote subject evaluatedDigest).act P lane).1
        ((LaneCall.promote subject evaluatedDigest).act P lane).2 ↔
      (LaneCall.promote subject evaluatedDigest).Spares P lane := by
  simp only [LaneCall.act, run_map, LaneCall.Spares]
  by_cases hdigest : evaluatedDigest = subject.patchDigest
  · by_cases hparent : subject.parentId = lane.live.releaseId
    · cases hid : digest P (promotedValue subject.subjectId lane.live.releaseId) with
      | error failure =>
        rw [promote, run_raiseIf_skip (not_not.mpr hdigest), run_bind_ok (run_get lane),
          run_raiseIf_skip (not_not.mpr hparent), hid,
          run_bind_error (run_lift_error failure lane)]
        exact ⟨fun _ _ _ _ h => (by cases h), fun _ => movesWell_of_live rfl⟩
      | ok releaseId =>
        rw [run_promote_ok hdigest hparent hid]
        constructor
        · rintro ⟨hmoves, -⟩ - - _ ⟨⟩ hrevoked
          exact (hmoves hrevoked).symm
        · intro hspares
          refine ⟨fun hrevoked => (hspares hdigest hparent _ rfl hrevoked).symm, ?_⟩
          rintro report ⟨⟩
    · rw [promote, run_raiseIf_skip (not_not.mpr hdigest), run_bind_ok (run_get lane),
        run_raiseIf_bind, if_pos hparent]
      exact ⟨fun _ _ h => absurd h hparent, fun _ => movesWell_of_live rfl⟩
  · rw [promote, run_raiseIf_bind, if_pos hdigest]
    exact ⟨fun _ h => absurd h hdigest, fun _ => movesWell_of_live rfl⟩

/-- **A rollback moves the pointer well** exactly when it spares the revoked releases. -/
theorem movesWell_rollback (targetId : String) :
    MovesWell lane ((LaneCall.rollback targetId).act P lane).1
        ((LaneCall.rollback targetId).act P lane).2 ↔
      (LaneCall.rollback targetId).Spares P lane := by
  simp only [LaneCall.act, run_map, LaneCall.Spares, run_rollback]
  cases htarget : lane.release? targetId with
  | none => exact ⟨fun _ h => (by cases h), fun _ => movesWell_of_live rfl⟩
  | some release =>
    obtain rfl := releaseId_eq htarget
    constructor
    · rintro ⟨hmoves, -⟩ - hrevoked
      exact (hmoves hrevoked).symm
    · intro hspares
      refine ⟨fun hrevoked => (hspares rfl hrevoked).symm, ?_⟩
      rintro report ⟨⟩

/-- The lane after the revocation that a recovery asks for. -/
def afterRevoking (lane : ReleaseLane) (revokeRelease : Option String) : ReleaseLane :=
  (revokeRelease.map lane.withRevoked).getD lane

theorem live_afterRevoking : (lane.afterRevoking revokeRelease).live = lane.live := by
  cases revokeRelease with
  | none => rfl
  | some releaseId => rfl

theorem release?_afterRevoking (releaseId : String) :
    (lane.afterRevoking revokeRelease).release? releaseId = lane.release? releaseId := by
  cases revokeRelease with
  | none => rfl
  | some releaseId => rfl

theorem isRevoked_afterRevoking :
    (lane.afterRevoking revokeRelease).isRevoked releaseId ↔
      lane.isRevoked releaseId ∨ revokeRelease = some releaseId := by
  cases revokeRelease with
  | none => simp [afterRevoking]
  | some revoked =>
    simp [afterRevoking, withRevoked, isRevoked, eq_comm, or_comm]

theorem recoveryTarget_afterRevoking :
    (lane.afterRevoking revokeRelease).recoveryTarget targetRelease revokeRelease =
      lane.recoveryTarget targetRelease revokeRelease := by
  simp only [recoveryTarget, live_afterRevoking]

/-- A recovery can revoke the release that it is given: the lane knows it. -/
def CanRevoke (lane : ReleaseLane) (revokeRelease : Option String) : Prop :=
  ∀ releaseId, revokeRelease = some releaseId → (lane.release? releaseId).isSome

theorem run_revokeGiven_ok (hknown : lane.CanRevoke revokeRelease) :
    (revokeGiven revokeRelease).run lane = (.ok (), lane.afterRevoking revokeRelease) := by
  cases revokeRelease with
  | none => rfl
  | some releaseId =>
    obtain ⟨release, hrelease⟩ := Option.isSome_iff_exists.mp (hknown releaseId rfl)
    simp only [revokeGiven, run_map, run_revoke, hrelease]
    rfl

theorem run_revokeGiven_error (hunknown : ¬lane.CanRevoke revokeRelease) :
    ∃ failure, (revokeGiven revokeRelease).run lane = (.error failure, lane) := by
  cases revokeRelease with
  | none => exact absurd (fun _ h => by cases h) hunknown
  | some releaseId =>
    cases hrelease : lane.release? releaseId with
    | none =>
      refine ⟨.cyrano "MISSING_RELEASE" releaseId, ?_⟩
      simp only [revokeGiven, run_map, run_revoke, hrelease]
      rfl
    | some release =>
      refine absurd (fun id hid => ?_) hunknown
      cases hid
      simp [hrelease]

/-- A recovery that cannot revoke leaves the lane. -/
theorem recover_refused (hunknown : ¬lane.CanRevoke revokeRelease)
    (runningRuns : List RunningRun) :
    ∃ failure, (rollbackOrRevoke targetRelease revokeRelease runningRuns).run lane =
      (.error failure, lane) := by
  obtain ⟨failure, hrun⟩ := run_revokeGiven_error hunknown
  refine ⟨failure, ?_⟩
  rw [rollbackOrRevoke, run_bind_ok (run_get lane), run_bind_error hrun]

/-- A recovery with no known target ends after its revocation. -/
theorem recover_lost (hknown : lane.CanRevoke revokeRelease) (runningRuns : List RunningRun)
    (hlost : (lane.recoveryTarget targetRelease revokeRelease).bind lane.release? = none) :
    ∃ failure, (rollbackOrRevoke targetRelease revokeRelease runningRuns).run lane =
      (.error failure, lane.afterRevoking revokeRelease) := by
  rw [rollbackOrRevoke, run_bind_ok (run_get lane), run_bind_ok (run_revokeGiven_ok hknown),
    run_bind_ok (run_get _), recoveryTarget_afterRevoking]
  cases htarget : lane.recoveryTarget targetRelease revokeRelease with
  | none => exact ⟨_, rfl⟩
  | some target =>
    rw [htarget] at hlost
    refine ⟨.cyrano "MISSING_RELEASE" target, ?_⟩
    have hrun : (rollback target).run (lane.afterRevoking revokeRelease) =
        (.error (.cyrano "MISSING_RELEASE" target), lane.afterRevoking revokeRelease) := by
      rw [run_rollback, release?_afterRevoking, show lane.release? target = none from hlost]
    exact run_bind_error hrun

/-- A recovery with a known target goes there and reports. -/
theorem recover_moves (hknown : lane.CanRevoke revokeRelease) (runningRuns : List RunningRun)
    {target : String} (htarget : lane.recoveryTarget targetRelease revokeRelease = some target)
    (hrelease : lane.release? target = some release) :
    ∃ report, (rollbackOrRevoke targetRelease revokeRelease runningRuns).run lane =
      (.ok report, { lane.afterRevoking revokeRelease with live := release }) := by
  have hrun : (rollback target).run (lane.afterRevoking revokeRelease) =
      (.ok release, { lane.afterRevoking revokeRelease with live := release }) := by
    rw [run_rollback, release?_afterRevoking, hrelease]
  rw [rollbackOrRevoke, run_bind_ok (run_get lane), run_bind_ok (run_revokeGiven_ok hknown),
    run_bind_ok (run_get _), recoveryTarget_afterRevoking, htarget]
  exact ⟨_, run_bind_ok hrun⟩

/-- **A recovery moves the pointer well** exactly when it spares the revoked releases. -/
theorem movesWell_recover (runningRuns : List RunningRun) :
    MovesWell lane
        ((LaneCall.rollbackOrRevoke targetRelease revokeRelease runningRuns).act P lane).1
        ((LaneCall.rollbackOrRevoke targetRelease revokeRelease runningRuns).act P lane).2 ↔
      (LaneCall.rollbackOrRevoke targetRelease revokeRelease runningRuns).Spares P lane := by
  simp only [LaneCall.act, run_map]
  by_cases hknown : lane.CanRevoke revokeRelease
  · cases hfound : (lane.recoveryTarget targetRelease revokeRelease).bind lane.release? with
    | none =>
      obtain ⟨failure, hrun⟩ := recover_lost hknown runningRuns hfound
      rw [hrun]
      refine ⟨fun _ _ target htarget hsome => ?_, fun _ => movesWell_of_live live_afterRevoking⟩
      rw [htarget] at hfound
      rw [show lane.release? target = none from hfound] at hsome
      cases hsome
    | some release =>
      obtain ⟨target, htarget, hrelease⟩ := Option.bind_eq_some_iff.mp hfound
      obtain ⟨report, hrun⟩ := recover_moves hknown runningRuns htarget hrelease
      obtain rfl := releaseId_eq hrelease
      rw [hrun]
      have hrevoked : ¬(lane.afterRevoking revokeRelease).isRevoked release.releaseId ↔
          ¬lane.isRevoked release.releaseId ∧ revokeRelease ≠ some release.releaseId := by
        rw [isRevoked_afterRevoking, not_or]
      constructor
      · rintro ⟨-, hrecovered⟩ - target htarget' -
        obtain rfl := Option.some.inj (htarget.symm.trans htarget')
        exact hrevoked.mp (hrecovered report rfl)
      · intro hspares
        have hspared := hrevoked.mpr (hspares hknown _ htarget (by simp [hrelease]))
        exact ⟨fun h => absurd h hspared, fun _ _ => hspared⟩
  · obtain ⟨failure, hrun⟩ := recover_refused hknown runningRuns
    rw [hrun]
    exact ⟨fun _ h => absurd h hknown, fun _ => movesWell_of_live rfl⟩

/-- **What spares the revoked releases**, call by call. -/
theorem movesWell_iff (call : LaneCall) :
    MovesWell lane (call.act P lane).1 (call.act P lane).2 ↔ call.Spares P lane := by
  cases call with
  | promote subject evaluatedDigest => exact movesWell_promote subject evaluatedDigest
  | rollback targetId => exact movesWell_rollback targetId
  | rollbackOrRevoke targetRelease revokeRelease runningRuns => exact movesWell_recover runningRuns
  | revoke releaseId =>
    refine iff_of_true ?_ trivial
    simp only [LaneCall.act, run_map, run_revoke]
    cases lane.release? releaseId with
    | none => exact movesWell_of_live rfl
    | some release => exact ⟨fun _ => rfl, fun report hreport => by cases hreport⟩

/-- **What a call revokes**: the release that it asks for, when the lane knows it. -/
theorem isRevoked_act (call : LaneCall) :
    (call.act P lane).2.isRevoked releaseId ↔
      lane.isRevoked releaseId ∨
        call.revokes? = some releaseId ∧ (lane.release? releaseId).isSome := by
  cases call with
  | promote subject evaluatedDigest =>
    have hkeeps : Keeps ReleaseLane.revoked (promote P subject evaluatedDigest) := by
      refine (readOnly_raiseIf _ _).keeps.bind fun _ => readOnly_get.keeps.bind fun lane => ?_
      refine (readOnly_raiseIf _ _).keeps.bind fun _ => (readOnly_lift _).keeps.bind fun _ => ?_
      exact (keeps_modify (by intro _; rfl)).bind fun _ => (readOnly_pure _).keeps
    simp [LaneCall.act, LaneCall.revokes?, isRevoked, hkeeps lane]
  | rollback targetId =>
    simp only [LaneCall.act, run_map, run_rollback, LaneCall.revokes?]
    cases lane.release? targetId <;> simp [isRevoked]
  | revoke targetId =>
    simp only [LaneCall.act, run_map, run_revoke, LaneCall.revokes?, Option.some.injEq]
    cases hrelease : lane.release? targetId with
    | none =>
      refine ⟨.inl, ?_⟩
      rintro (hrevoked | ⟨rfl, hsome⟩)
      · exact hrevoked
      · simp [hrelease] at hsome
    | some release =>
      have hknown : targetId = releaseId → (lane.release? releaseId).isSome := by
        rintro rfl
        simp [hrelease]
      simp only [isRevoked, withRevoked, Finset.mem_insert, and_iff_left_of_imp hknown]
      rw [or_comm, eq_comm]
  | rollbackOrRevoke targetRelease revokeRelease runningRuns =>
    simp only [LaneCall.act, run_map, LaneCall.revokes?]
    by_cases hknown : lane.CanRevoke revokeRelease
    · have hafter : ((rollbackOrRevoke targetRelease revokeRelease runningRuns).run
          lane).2.revoked = (lane.afterRevoking revokeRelease).revoked := by
        cases hfound : (lane.recoveryTarget targetRelease revokeRelease).bind lane.release? with
        | none =>
          obtain ⟨failure, hrun⟩ := recover_lost hknown runningRuns hfound
          rw [hrun]
        | some release =>
          obtain ⟨target, htarget, hrelease⟩ := Option.bind_eq_some_iff.mp hfound
          obtain ⟨report, hrun⟩ := recover_moves hknown runningRuns htarget hrelease
          rw [hrun]
      rw [isRevoked, hafter, ← isRevoked, isRevoked_afterRevoking]
      exact or_congr_right (and_iff_left_of_imp (hknown releaseId)).symm
    · obtain ⟨failure, hrun⟩ := recover_refused hknown runningRuns
      rw [hrun]
      refine ⟨.inl, ?_⟩
      rintro (hrevoked | ⟨rfl, hsome⟩)
      · exact hrevoked
      · exact absurd (fun id hid => by cases hid; exact hsome) hknown

end

/-! ### Runs of the lane -/

section

variable {P : Primitives} {initial : Release} {lane : ReleaseLane} {h : List LaneEntry}

/-- **The revoked ids of a lane are those that its history revoked.** -/
theorem isRevoked_iff (hr : Run (LaneCall.act P) (start initial) h lane) (releaseId : String) :
    lane.isRevoked releaseId ↔ ∃ e ∈ h, Revokes e releaseId := by
  refine hr.inv (I := fun h lane => lane.isRevoked releaseId ↔ ∃ e ∈ h, Revokes e releaseId) ?_ ?_
  · simp [start, isRevoked]
  · intro h lane call _ ih
    rw [isRevoked_act, ih]
    simp only [List.mem_append, List.mem_singleton, or_and_right, exists_or, exists_eq_left,
      Revokes, Entry.perform_op, Entry.perform_before]

/-- **When a revoked release stays out**, over every history of promotions, revocations, rollbacks
and recoveries: exactly when every call spares the releases that are revoked. -/
theorem revocationLaw_iff (hr : Run (LaneCall.act P) (start initial) h lane) :
    RevocationLaw h ↔ ∀ e ∈ h, e.op.Spares P e.before := by
  have hstep : ∀ h₁ e h₂, h = h₁ ++ e :: h₂ → (e.op.Spares P e.before ↔
      ((∃ e' ∈ h₁ ++ [e], Revokes e' e.after.live.releaseId) →
        e.before.live.releaseId = e.after.live.releaseId) ∧
      ∀ report, e.reply = .ok (.report report) →
        ¬∃ e' ∈ h₁ ++ [e], Revokes e' e.after.live.releaseId) := by
    rintro h₁ e h₂ rfl
    obtain ⟨-, hperform, -⟩ := hr.split
    have hrevoked := isRevoked_iff hr.upTo e.after.live.releaseId
    have hafter : (e.op.act P e.before).2 = e.after := by rw [hperform]; rfl
    have hreply : (e.op.act P e.before).1 = e.reply := by rw [hperform]; rfl
    rw [← movesWell_iff, hafter, hreply, ← hrevoked]
    exact ⟨fun hmoves => ⟨hmoves.neverAgain, hmoves.recovered⟩, fun hmoves => ⟨hmoves.1, hmoves.2⟩⟩
  constructor
  · intro hlaw e he
    obtain ⟨h₁, h₂, heq⟩ := List.append_of_mem he
    refine (hstep h₁ e h₂ heq).mpr ⟨?_, fun report hreport => ?_⟩
    · rintro ⟨e', he', hrevokes⟩
      exact hlaw.neverAgain h₁ e h₂ heq e' he' hrevokes
    · rintro ⟨e', he', hrevokes⟩
      exact hlaw.recovered h₁ e h₂ heq report hreport e' he' hrevokes
  · intro hspares
    have hwell := fun h₁ e h₂ heq => (hstep h₁ e h₂ heq).mp (hspares e (by simp [heq]))
    exact ⟨fun h₁ e h₂ heq e' he' hrevokes => (hwell h₁ e h₂ heq).1 ⟨e', he', hrevokes⟩,
      fun h₁ e h₂ heq report hreport e' he' hrevokes =>
        (hwell h₁ e h₂ heq).2 report hreport ⟨e', he', hrevokes⟩⟩

end

/-! ### Back to a revoked parent -/

/-- The first release of a lane. -/
def firstRelease : Release := ⟨"r0", some "genesis", "p0", ["e0"]⟩

/-- A patch of the first release. -/
def firstPatch : ReleaseSubject := ⟨"s1", "r0", "p1", ["e1"], "ap1"⟩

/-- A promotion, a revocation of the new parent, and a recovery without arguments. -/
def backToRevoked : List LaneCall :=
  [.promote firstPatch "p1", .revoke "r0", .rollbackOrRevoke none none []]

/-- Before its recovery the lane has revoked a release that is not live. -/
theorem revocationLaw_iff_revoked :
    let h := (exec (LaneCall.act .ascii) (start firstRelease) (backToRevoked.take 2)).1
    RevocationLaw h ↔ ∀ e ∈ h, e.op.Spares .ascii e.before :=
  revocationLaw_iff (run_exec _ _ _)

/-- The lane after the promotion, under the id that it got. -/
def promotedLane (releaseId : String) : ReleaseLane :=
  let release : Release := ⟨releaseId, some "r0", "p1", ["e1"]⟩
  ⟨release, [firstRelease, release], ∅⟩

/-- A promoted release gets an id. -/
theorem exists_digest_promoted (P : Primitives) (subjectId liveId : String) :
    ∃ d, digest P (promotedValue subjectId liveId) = .ok d := by
  rw [digest_isOk, promotedValue, normalize]
  exact ⟨.arr [.str _, .str _], by simp only [normalizeItems, normalize, Except.map]; rfl⟩

/-- The patch is promoted, under some id. -/
theorem promote_firstPatch : ∃ releaseId,
    ((LaneCall.promote firstPatch "p1").act .ascii (start firstRelease)).2 =
      promotedLane releaseId := by
  obtain ⟨releaseId, hid⟩ := exists_digest_promoted .ascii "s1" "r0"
  refine ⟨releaseId, ?_⟩
  have hdigest : "p1" = firstPatch.patchDigest := rfl
  have hparent : firstPatch.parentId = (start firstRelease).live.releaseId := rfl
  rw [LaneCall.act, run_map, run_promote_ok hdigest hparent hid]
  rfl

/-- **A recovery returns to the revoked parent** of the live release. -/
theorem revoked_live_again : ¬∀ (P : Primitives) (initial : Release) (h : List LaneEntry)
    (lane : ReleaseLane), Run (LaneCall.act P) (start initial) h lane → RevocationLaw h := by
  intro hclaim
  obtain ⟨releaseId, hpromoted⟩ := promote_firstPatch
  have hrun : Run (LaneCall.act .ascii) (start firstRelease) _ _ :=
    Run.nil.snoc (.promote firstPatch "p1")
  rw [hpromoted] at hrun
  have hrevoked : (LaneCall.act .ascii (.revoke "r0") (promotedLane releaseId)).2 =
      (promotedLane releaseId).withRevoked "r0" := rfl
  have hrun' := hrun.snoc (.revoke "r0")
  rw [hrevoked] at hrun'
  have hlaw := hclaim _ _ _ _ (hrun'.snoc (.rollbackOrRevoke none none []))
  refine hlaw.recovered _ _ [] rfl _ rfl
    (Entry.perform (LaneCall.act .ascii) (promotedLane releaseId) (.revoke "r0")) ?_ ⟨rfl, rfl⟩
  simp

end ReleaseLane

end Kernel

end CyranoAgent
