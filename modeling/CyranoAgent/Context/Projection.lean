import CyranoAgent.Contracts.Types
import CyranoAgent.Lib.Action
import CyranoAgent.Lib.Dict
import CyranoAgent.Lib.Run
import Mathlib.Data.List.Sort
import Mathlib.Data.String.Basic

/-!
# Release projection

`ReleaseProjection` pins the resolved skills of releases, and freezes for an attempt what its
release has pinned. After any history an attempt resumes with the view that it got last
(`resume_eq`), whatever release is offered, and two views of a release never disagree on a skill
(`views_agree`): a release only ever gains pins.
-/

namespace CyranoAgent

open Lib Lib.Action

namespace Context

/-- `PinnedSkill`. -/
structure PinnedSkill where
  skillId : String
  resolvedPath : String
  digest : String
  deriving DecidableEq, Repr

/-- `AttemptPin`. -/
structure AttemptPin where
  attemptId : String
  releaseId : String
  skills : List PinnedSkill
  deriving DecidableEq, Repr

/-- `ReleaseProjection`. -/
structure ReleaseProjection where
  releases : Dict String (Dict String PinnedSkill) := ∅
  attempts : Dict String AttemptPin := ∅

namespace ReleaseProjection

/-- What a call on the projection is. -/
abbrev ProjectionOp (α : Type) := Action ReleaseProjection Failure α

/-- The pins of a release: `self._releases.get(release_id, {})`. -/
def pins (R : ReleaseProjection) (releaseId : String) : Dict String PinnedSkill :=
  (R.releases.get? releaseId).getD ∅

/-- `self._releases[release_id] = …`. -/
def setPins (R : ReleaseProjection) (releaseId : String) (pins : Dict String PinnedSkill) :
    ReleaseProjection :=
  { R with releases := R.releases.set releaseId pins }

/-- The skill is pinned to another resolution. -/
def Diverges (existing : Option PinnedSkill) (resolvedPath digest : String) : Prop :=
  ∃ pin ∈ existing, pin.digest ≠ digest ∨ pin.resolvedPath ≠ resolvedPath

instance (existing : Option PinnedSkill) (resolvedPath digest : String) :
    Decidable (Diverges existing resolvedPath digest) :=
  inferInstanceAs (Decidable (∃ pin ∈ existing, _))

/-- `pin_skill`. -/
def pinSkill (releaseId skillId resolvedPath digest : String) : ProjectionOp PinnedSkill := do
  modify fun R => R.setPins releaseId (R.pins releaseId)
  let existing := ((← get).pins releaseId).get? skillId
  raiseIf (Diverges existing resolvedPath digest)
    (.cyrano "RELEASE_MIX" (skillId ++ " resolved twice inside " ++ releaseId))
  let pin : PinnedSkill := ⟨skillId, resolvedPath, digest⟩
  modify fun R => R.setPins releaseId ((R.pins releaseId).set skillId pin)
  return pin

/-- What an attempt sees of a release. -/
def view (R : ReleaseProjection) (attemptId releaseId : String) : AttemptPin :=
  ⟨attemptId, releaseId, (R.pins releaseId).values.mergeSort fun p q => p.skillId ≤ q.skillId⟩

/-- `pin_attempt`. -/
def pinAttempt (attemptId releaseId : String) : ProjectionOp AttemptPin := do
  let pin := (← get).view attemptId releaseId
  modify fun R => { R with attempts := R.attempts.set attemptId pin }
  return pin

/-- `resume`. -/
def resume (attemptId offeredRelease : String) (explicitRestart : Bool) :
    ProjectionOp AttemptPin := do
  match (← get).attempts.get? attemptId with
  | none => throw (.cyrano "UNKNOWN_ATTEMPT" attemptId)
  | some pin =>
    if offeredRelease ≠ pin.releaseId ∧ ¬explicitRestart then return pin
    else if explicitRestart then pinAttempt attemptId offeredRelease
    else return pin

end ReleaseProjection

/-! ### The projection as a machine -/

/-- A call on the projection. -/
inductive ProjectionCall
  | pinSkill (releaseId skillId resolvedPath digest : String)
  | pinAttempt (attemptId releaseId : String)
  | resume (attemptId offeredRelease : String) (explicitRestart : Bool)

/-- What a call returns. -/
inductive ProjectionReply
  | skill (pin : PinnedSkill)
  | attempt (pin : AttemptPin)

/-- Performing a call. -/
def ProjectionCall.act (call : ProjectionCall) (R : ReleaseProjection) :
    Except Failure ProjectionReply × ReleaseProjection :=
  match call with
  | .pinSkill releaseId skillId resolvedPath digest =>
    (ProjectionReply.skill <$>
      ReleaseProjection.pinSkill releaseId skillId resolvedPath digest).run R
  | .pinAttempt attemptId releaseId =>
    (ProjectionReply.attempt <$> ReleaseProjection.pinAttempt attemptId releaseId).run R
  | .resume attemptId offeredRelease explicitRestart =>
    (ProjectionReply.attempt <$>
      ReleaseProjection.resume attemptId offeredRelease explicitRestart).run R

/-- An entry of a history of the projection. -/
abbrev ProjectionEntry := Entry ReleaseProjection ProjectionCall (Except Failure ProjectionReply)

/-- The view that an entry froze for an attempt: the attempt is pinned, or restarted. -/
def frozen? (attemptId : String) (e : ProjectionEntry) : Option AttemptPin :=
  match e.op, e.reply with
  | .pinAttempt id _, .ok (.attempt pin) => if id = attemptId then some pin else none
  | .resume id _ true, .ok (.attempt pin) => if id = attemptId then some pin else none
  | _, _ => none

/-- The entry returned a view. -/
def Returns (e : ProjectionEntry) (pin : AttemptPin) : Prop := e.reply = .ok (.attempt pin)

namespace ReleaseProjection

variable {R R' : ReleaseProjection} {h : List ProjectionEntry} {releaseId : String}

/-! ### Single calls -/

@[simp] theorem pins_setPins (pins : Dict String PinnedSkill) (releaseId' : String) :
    (R.setPins releaseId' pins).pins releaseId =
      if releaseId = releaseId' then pins else R.pins releaseId := by
  rw [ReleaseProjection.pins, setPins, Dict.get?_set]
  split_ifs <;> rfl

/-- A skill is pinned, unless it is pinned to another resolution. -/
theorem run_pinSkill (releaseId skillId resolvedPath digest : String) :
    (pinSkill releaseId skillId resolvedPath digest).run R =
      if Diverges ((R.pins releaseId).get? skillId) resolvedPath digest then
        (.error (.cyrano "RELEASE_MIX" (skillId ++ " resolved twice inside " ++ releaseId)),
          R.setPins releaseId (R.pins releaseId))
      else (.ok ⟨skillId, resolvedPath, digest⟩,
        (R.setPins releaseId (R.pins releaseId)).setPins releaseId
          ((R.pins releaseId).set skillId ⟨skillId, resolvedPath, digest⟩)) := by
  rw [pinSkill, run_bind_ok (run_modify _ R), run_bind_ok (run_get _), run_raiseIf_bind]
  simp only [pins_setPins, if_true]
  split_ifs
  · rfl
  · rw [run_bind_ok (run_modify _ _)]
    simp only [pins_setPins, if_true, run_pure]

theorem run_pinAttempt (attemptId releaseId : String) :
    (pinAttempt attemptId releaseId).run R = (.ok (R.view attemptId releaseId),
      { R with attempts := R.attempts.set attemptId (R.view attemptId releaseId) }) := rfl

/-- An attempt that was pinned resumes with its view, or with a new one. -/
theorem run_resume_some {attemptId : String} {pin : AttemptPin}
    (hpin : R.attempts.get? attemptId = some pin) (offeredRelease : String)
    (explicitRestart : Bool) :
    (resume attemptId offeredRelease explicitRestart).run R =
      if explicitRestart then (pinAttempt attemptId offeredRelease).run R else (.ok pin, R) := by
  rw [resume, run_bind_ok (run_get R)]
  simp only [hpin, run_ite, run_pure]
  cases explicitRestart <;> simp

theorem run_resume_none {attemptId : String} (hpin : R.attempts.get? attemptId = none)
    (offeredRelease : String) (explicitRestart : Bool) :
    (resume attemptId offeredRelease explicitRestart).run R =
      (.error (.cyrano "UNKNOWN_ATTEMPT" attemptId), R) := by
  rw [resume, run_bind_ok (run_get R)]
  simp only [hpin, run_throw]

/-! ### Views stay -/

/-- **What one call does to the view of an attempt.** -/
theorem attempts_act (attemptId : String) (call : ProjectionCall) :
    (call.act R).2.attempts.get? attemptId =
      (frozen? attemptId (Entry.perform ProjectionCall.act R call)).or
        (R.attempts.get? attemptId) := by
  have hpinned (id releaseId : String) :
      (R.attempts.set id (R.view id releaseId)).get? attemptId =
        (if id = attemptId then some (R.view id releaseId) else none).or
          (R.attempts.get? attemptId) := by
    rw [Dict.get?_set]
    split_ifs with hid hid' hid'
    · rfl
    · exact absurd hid.symm hid'
    · exact absurd hid'.symm hid
    · rfl
  cases call with
  | pinSkill releaseId skillId resolvedPath digest =>
    rw [ProjectionCall.act, run_map, run_pinSkill]
    split_ifs <;> rfl
  | pinAttempt id releaseId =>
    exact hpinned id releaseId
  | resume id offeredRelease explicitRestart =>
    simp only [frozen?, Entry.perform_op, Entry.perform_reply, ProjectionCall.act, run_map]
    rcases hpin : R.attempts.get? id with _ | pin
    · rw [run_resume_none hpin]
      cases explicitRestart <;> rfl
    · rw [run_resume_some hpin]
      cases explicitRestart with
      | false => rfl
      | true => exact hpinned id offeredRelease

/-- **An attempt resumes with the view that it got last**, whatever release is offered and whatever
was pinned since; it keeps it, and an attempt without a view is unknown. -/
theorem resume_eq (hr : Run ProjectionCall.act {} h R) (attemptId offeredRelease : String) :
    (resume attemptId offeredRelease false).run R =
      match (h.filterMap (frozen? attemptId)).getLast? with
      | none => (.error (.cyrano "UNKNOWN_ATTEMPT" attemptId), R)
      | some pin => (.ok pin, R) := by
  have hview : R.attempts.get? attemptId = (h.filterMap (frozen? attemptId)).getLast? :=
    @Run.part_eq_getLast? _ _ _ _ _ _ _ _ (fun R => R.attempts.get? attemptId) _ rfl
      (fun _ call => attempts_act attemptId call) hr
  rw [← hview]
  rcases hpin : R.attempts.get? attemptId with _ | pin
  · exact run_resume_none hpin offeredRelease false
  · exact run_resume_some hpin offeredRelease false

/-! ### Releases are not mixed -/

/-- Pins are kept under their skills. -/
def Keyed (R : ReleaseProjection) : Prop :=
  ∀ releaseId skillId pin, (R.pins releaseId).get? skillId = some pin → pin.skillId = skillId

/-- Every pin is kept. -/
def Grows (R R' : ReleaseProjection) : Prop :=
  ∀ releaseId skillId pin, (R.pins releaseId).get? skillId = some pin →
    (R'.pins releaseId).get? skillId = some pin

/-- The skills of a view are pinned in its release as it saw them. -/
def Agrees (R : ReleaseProjection) (pin : AttemptPin) : Prop :=
  ∀ skill ∈ pin.skills, (R.pins pin.releaseId).get? skill.skillId = some skill

theorem Agrees.grows {pin : AttemptPin} (hagrees : Agrees R pin) (hgrows : Grows R R') :
    Agrees R' pin := fun skill hskill => hgrows _ _ _ (hagrees skill hskill)

/-- What a release has pinned, a view of it agrees with. -/
theorem agrees_view (hkeyed : Keyed R) (attemptId releaseId : String) :
    Agrees R (R.view attemptId releaseId) := by
  intro skill hskill
  have hvalue : skill ∈ (R.pins releaseId).values := by simpa [view] using hskill
  obtain ⟨skillId, hpin⟩ := Dict.mem_values_iff.mp hvalue
  rw [hkeyed _ _ _ hpin]
  exact hpin

theorem pins_setPins_self (releaseId' : String) :
    (R.setPins releaseId' (R.pins releaseId')).pins releaseId = R.pins releaseId := by
  rw [pins_setPins]
  split_ifs with heq
  · rw [heq]
  · rfl

/-- What a pin does to the pins. -/
theorem get?_pin {releaseId' skillId resolvedPath digest : String} (skillId' : String) :
    ((((pinSkill releaseId' skillId resolvedPath digest).run R).2).pins releaseId).get? skillId' =
      if releaseId = releaseId' ∧ skillId' = skillId ∧
          ¬Diverges ((R.pins releaseId').get? skillId) resolvedPath digest then
        some ⟨skillId, resolvedPath, digest⟩
      else (R.pins releaseId).get? skillId' := by
  rw [run_pinSkill]
  by_cases hdiverges : Diverges ((R.pins releaseId').get? skillId) resolvedPath digest
  · rw [if_pos hdiverges, if_neg fun h => h.2.2 hdiverges]
    dsimp only
    rw [pins_setPins_self]
  · rw [if_neg hdiverges]
    dsimp only
    rw [pins_setPins, pins_setPins_self]
    by_cases hrelease : releaseId = releaseId'
    · obtain rfl := hrelease
      rw [if_pos rfl, Dict.get?_set]
      by_cases hskill : skillId' = skillId
      · rw [if_pos hskill, if_pos ⟨rfl, hskill, hdiverges⟩]
      · rw [if_neg hskill, if_neg fun h => hskill h.2.1]
    · rw [if_neg hrelease, if_neg fun h => hrelease h.1]

/-- A call keeps the pins that there are, and the keys. -/
theorem grows_act (hkeyed : Keyed R) (call : ProjectionCall) :
    Grows R (call.act R).2 ∧ Keyed (call.act R).2 := by
  have hsame {R' : ReleaseProjection} (h : R'.releases = R.releases) : Grows R R' ∧ Keyed R' := by
    have hpins : R'.pins = R.pins := by
      funext releaseId
      rw [pins, pins, h]
    refine ⟨fun _ _ _ hpin => by rwa [hpins], fun _ _ _ hpin => ?_⟩
    rw [hpins] at hpin
    exact hkeyed _ _ _ hpin
  cases call with
  | pinSkill releaseId skillId resolvedPath digest =>
    rw [ProjectionCall.act, run_map]
    refine ⟨fun releaseId' skillId' pin hpin => ?_, fun releaseId' skillId' pin hpin => ?_⟩
    · rw [get?_pin]
      split_ifs with hnew
      · obtain ⟨rfl, rfl, hdiverges⟩ := hnew
        -- what was pinned already is what is pinned now
        simp only [Diverges, hpin, Option.mem_some_iff, exists_eq_left', not_or,
          not_not] at hdiverges
        rw [← hdiverges.1, ← hdiverges.2, ← hkeyed _ _ _ hpin]
      · exact hpin
    · rw [get?_pin] at hpin
      split_ifs at hpin with hnew
      · rw [← Option.some.inj hpin, hnew.2.1]
      · exact hkeyed _ _ _ hpin
  | pinAttempt attemptId releaseId => exact hsame rfl
  | resume attemptId offeredRelease explicitRestart =>
    refine hsame ?_
    rw [ProjectionCall.act, run_map]
    rcases hpin : R.attempts.get? attemptId with _ | pin
    · rw [run_resume_none hpin]
    · rw [run_resume_some hpin]
      cases explicitRestart <;> rfl

theorem keyed (hr : Run ProjectionCall.act {} h R) : Keyed R :=
  hr.inv_state (I := Keyed) (fun _ _ _ hpin => by cases hpin) fun _ call hkeyed =>
    (grows_act hkeyed call).2

theorem grows (hkeyed : Keyed R) (hr : Run ProjectionCall.act R h R') : Grows R R' := by
  refine And.left (hr.inv_state (I := fun R' => Grows R R' ∧ Keyed R')
    ⟨fun _ _ _ hpin => hpin, hkeyed⟩ fun R' call hR' => ?_)
  obtain ⟨hgrows, hkeyed'⟩ := grows_act hR'.2 call
  exact ⟨fun _ _ _ hpin => hgrows _ _ _ (hR'.1 _ _ _ hpin), hkeyed'⟩

/-- The views that a projection keeps agree with its pins. -/
structure Sound (R : ReleaseProjection) : Prop where
  keyed : Keyed R
  kept : ∀ attemptId pin, R.attempts.get? attemptId = some pin → Agrees R pin

theorem Sound.start : Sound {} where
  keyed _ _ _ hpin := by cases hpin
  kept _ _ hpin := by cases hpin

/-- A call returns a new view, or one that is kept. -/
theorem returns_cases {call : ProjectionCall} {pin : AttemptPin}
    (hreturns : Returns (Entry.perform ProjectionCall.act R call) pin) :
    (∃ attemptId releaseId, pin = R.view attemptId releaseId) ∨
      ∃ attemptId, R.attempts.get? attemptId = some pin := by
  rw [Returns, Entry.perform_reply] at hreturns
  cases call with
  | pinSkill releaseId skillId resolvedPath digest =>
    rw [ProjectionCall.act, run_map, run_pinSkill] at hreturns
    split_ifs at hreturns <;> cases hreturns
  | pinAttempt attemptId releaseId =>
    cases hreturns
    exact .inl ⟨attemptId, releaseId, rfl⟩
  | resume attemptId offeredRelease explicitRestart =>
    rw [ProjectionCall.act, run_map] at hreturns
    rcases hpin : R.attempts.get? attemptId with _ | kept
    · rw [run_resume_none hpin] at hreturns
      cases hreturns
    · rw [run_resume_some hpin] at hreturns
      cases explicitRestart
      · cases hreturns
        exact .inr ⟨attemptId, hpin⟩
      · cases hreturns
        exact .inl ⟨attemptId, offeredRelease, rfl⟩

theorem returns_of_frozen {attemptId : String} {e : ProjectionEntry} {pin : AttemptPin}
    (hfrozen : frozen? attemptId e = some pin) : Returns e pin := by
  unfold frozen? at hfrozen
  split at hfrozen
  · next hreply =>
    split_ifs at hfrozen
    exact hreply.trans (by rw [Option.some.inj hfrozen])
  · next hreply =>
    split_ifs at hfrozen
    exact hreply.trans (by rw [Option.some.inj hfrozen])
  · cases hfrozen

/-- **The view that a call returns agrees with the pins**, and what is kept goes on to. -/
theorem Sound.act (hsound : Sound R) (call : ProjectionCall) :
    Sound (call.act R).2 ∧
      ∀ pin, Returns (Entry.perform ProjectionCall.act R call) pin → Agrees (call.act R).2 pin := by
  obtain ⟨hgrows, hkeyed⟩ := grows_act hsound.keyed call
  have hreturned : ∀ pin, Returns (Entry.perform ProjectionCall.act R call) pin →
      Agrees (call.act R).2 pin := by
    intro pin hreturns
    rcases returns_cases hreturns with ⟨attemptId, releaseId, rfl⟩ | ⟨attemptId, hpin⟩
    · exact (agrees_view hsound.keyed attemptId releaseId).grows hgrows
    · exact (hsound.kept attemptId pin hpin).grows hgrows
  refine ⟨⟨hkeyed, fun attemptId pin hpin => ?_⟩, hreturned⟩
  rw [attempts_act] at hpin
  rcases Option.or_eq_some_iff.mp hpin with hfrozen | ⟨-, hpin⟩
  · exact hreturned pin (returns_of_frozen hfrozen)
  · exact (hsound.kept attemptId pin hpin).grows hgrows

/-- A view that was returned agrees with the pins from then on. -/
theorem agrees_of_returns (hr : Run ProjectionCall.act {} h R) {e : ProjectionEntry} (he : e ∈ h)
    {pin : AttemptPin} (hreturns : Returns e pin) : Agrees R pin := by
  obtain ⟨h₁, h₂, rfl⟩ := List.append_of_mem he
  obtain ⟨hbefore, heq, hafter⟩ := hr.split
  have hsound : Sound e.before := hbefore.inv_state (I := Sound) .start fun R call hR =>
    (hR.act call).1
  obtain ⟨hsound', hagrees⟩ := hsound.act e.op
  have hstate : (e.op.act e.before).2 = e.after := (congrArg Entry.after heq).symm
  rw [heq] at hreturns
  rw [hstate] at hsound' hagrees
  exact (hagrees pin hreturns).grows (grows hsound'.keyed hafter)

/-- **A release is never mixed**: any two views of one release that any two calls returned, to
whichever attempts and however far apart, have the same resolution of every skill that both have. -/
theorem views_agree (hr : Run ProjectionCall.act {} h R) {e e' : ProjectionEntry} (he : e ∈ h)
    (he' : e' ∈ h) {pin pin' : AttemptPin} (hreturns : Returns e pin) (hreturns' : Returns e' pin')
    (hrelease : pin.releaseId = pin'.releaseId) {skill skill' : PinnedSkill}
    (hskill : skill ∈ pin.skills) (hskill' : skill' ∈ pin'.skills)
    (hid : skill.skillId = skill'.skillId) : skill = skill' := by
  have hpin := agrees_of_returns hr he hreturns skill hskill
  have hpin' := agrees_of_returns hr he' hreturns' skill' hskill'
  rw [hrelease, hid, hpin', Option.some.injEq] at hpin
  exact hpin.symm

/-! ### A release that moves on -/

/-- An attempt is pinned, its release gains a skill, and another attempt is pinned; the first one is
offered another release. -/
def pinnedTwice : List ProjectionCall :=
  [.pinSkill "r1" "lint" "/a" "d1", .pinAttempt "a1" "r1", .pinSkill "r1" "docs" "/b" "d2",
    .pinSkill "r1" "lint" "/c" "d3", .pinAttempt "a2" "r1"]

/-- The first attempt resumes with one skill. -/
theorem resume_eq_pinned :
    let run := exec ProjectionCall.act {} pinnedTwice
    (resume "a1" "r2" false).run run.2 =
      match (run.1.filterMap (frozen? "a1")).getLast? with
      | none => (.error (.cyrano "UNKNOWN_ATTEMPT" "a1"), run.2)
      | some pin => (.ok pin, run.2) :=
  resume_eq (run_exec _ _ _) "a1" "r2"

/-- What the release had pinned when the first attempt was pinned. -/
def lintPinned : ReleaseProjection := (exec ProjectionCall.act {} (pinnedTwice.take 1)).2

/-- What it had pinned when the second was. -/
def docsPinned : ReleaseProjection := (exec ProjectionCall.act {} (pinnedTwice.take 4)).2

/-- Both attempts see one resolution of the skill that was pinned first. -/
theorem views_agree_pinned :
    let skill : PinnedSkill := ⟨"lint", "/a", "d1"⟩
    skill ∈ (lintPinned.view "a1" "r1").skills ∧ skill ∈ (docsPinned.view "a2" "r1").skills ∧
      skill = skill := by
  have hskill : (⟨"lint", "/a", "d1"⟩ : PinnedSkill) ∈ (lintPinned.view "a1" "r1").skills := by
    rw [view, List.mem_mergeSort]
    decide
  have hskill' : (⟨"lint", "/a", "d1"⟩ : PinnedSkill) ∈ (docsPinned.view "a2" "r1").skills := by
    rw [view, List.mem_mergeSort]
    decide
  have hrun := run_exec ProjectionCall.act {} pinnedTwice
  refine ⟨hskill, hskill', ?_⟩
  exact views_agree hrun (List.getElem_mem (n := 1) (by decide))
    (List.getElem_mem (n := 4) (by decide)) rfl rfl rfl hskill hskill' rfl

end ReleaseProjection

end Context

end CyranoAgent
