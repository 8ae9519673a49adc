import CyranoAgent.Improvement.Replay

/-!
# What a policy learns of a tape

Two tapes that differ in hidden scores and in the results of actions that never become visible are
the same to a policy: every sequence of calls has the same replies and the same visible results
(`noninterference`). A score is given only for a complete tape whose planned actions are visible.
-/

namespace CyranoAgent

open Lib Lib.Action

namespace Improvement

variable {F : Type} {P : Primitives} {reprText : String → String} {W : WorldReplay F}
  {world world' : WorldTape F} {Shown : String → Prop} {s : ReplayState}

/-! ### Tapes that differ where nobody looks -/

/-- The transitions differ at most in their hidden scores, and in their results if the action is not
shown. -/
structure SameShown (Shown : String → Prop) (t t' : TapeTransition F) : Prop where
  actionId : t.actionId = t'.actionId
  inputDigest : t.inputDigest = t'.inputDigest
  dependencies : t.dependencies = t'.dependencies
  isTerminal : t.isTerminal = t'.isTerminal
  publicResult : Shown t.actionId → t.publicResult = t'.publicResult

/-- The tapes differ at most in hidden scores and in the results of actions that are not shown. -/
structure SameTape (Shown : String → Prop) (world world' : WorldTape F) : Prop where
  signature : world.signature = world'.signature
  complete : world.complete = world'.complete
  transitions : List.Forall₂ (SameShown Shown) world.transitions world'.transitions

/-- The action becomes visible in the run of the calls. -/
def BecomesVisible (P : Primitives) (reprText : String → String) (W : WorldReplay F)
    (calls : List ReplayCall) (action : String) : Prop :=
  ∃ e ∈ (exec (ReplayCall.act P reprText W) {} calls).1, action ∈ e.after.visible.keys

namespace SameTape

theorem byKey_rel (hsame : SameTape Shown world world') (key : String × String) :
    Option.Rel (SameShown Shown) (world.byKey.get? key) (world'.byKey.get? key) := by
  refine Dict.get?_ofList_rel ?_
  rw [List.forall₂_map_left_iff, List.forall₂_map_right_iff]
  exact hsame.transitions.imp fun t t' h => ⟨Prod.ext h.actionId h.inputDigest, h⟩

theorem byAction_rel (hsame : SameTape Shown world world') (action : String) :
    Option.Rel (SameShown Shown) (world.byAction.get? action) (world'.byAction.get? action) := by
  refine Dict.get?_ofList_rel ?_
  rw [List.forall₂_map_left_iff, List.forall₂_map_right_iff]
  exact hsame.transitions.imp fun t t' h => ⟨h.actionId, h⟩

theorem known_iff (hsame : SameTape Shown world world') (action : String) :
    (∃ t ∈ world.transitions, t.actionId = action) ↔
      ∃ t ∈ world'.transitions, t.actionId = action := by
  have hids : world.transitions.map (·.actionId) = world'.transitions.map (·.actionId) := by
    refine List.forall₂_eq_eq_eq ▸ ?_
    rw [List.forall₂_map_left_iff, List.forall₂_map_right_iff]
    exact hsame.transitions.imp fun _ _ h => h.actionId
  rw [← List.mem_map, ← List.mem_map, hids]

end SameTape

/-! ### Calls that read no result -/

/-- The replay of another tape under the same policy. -/
def WorldReplay.on (W : WorldReplay F) (world' : WorldTape F) : WorldReplay F :=
  { W with world := world' }

theorem on_world : (W.on world').world = world' := rfl

theorem step_on (hsame : SameTape Shown W.world world') (visible : Dict String String)
    (action inputDigest : String) :
    (W.on world').step visible action inputDigest = W.step visible action inputDigest := by
  rw [WorldReplay.step, WorldReplay.step]
  by_cases hlegal : action ∉ W.legal ∨ action ∈ visible.keys
  · rw [if_pos hlegal, if_pos (show action ∉ (W.on world').legal ∨ _ from hlegal)]
  rw [if_neg hlegal, if_neg (show ¬(action ∉ (W.on world').legal ∨ _) from hlegal), on_world]
  have hrel := hsame.byKey_rel (action, inputDigest)
  generalize W.world.byKey.get? (action, inputDigest) = found at hrel ⊢
  generalize world'.byKey.get? (action, inputDigest) = found' at hrel ⊢
  cases hrel with
  | none => simp only [hsame.known_iff action]
  | some ht => simp only [ht.dependencies]

theorem steps_on (hsame : SameTape Shown W.world world') (visible actions : Dict String String) :
    (W.on world').steps visible actions = W.steps visible actions := by
  have hstep : (fun entry : String × String => (W.on world').step visible entry.1 entry.2) =
      fun entry => W.step visible entry.1 entry.2 :=
    funext fun entry => step_on hsame visible entry.1 entry.2
  rw [WorldReplay.steps, WorldReplay.steps, hstep, hsame.complete, hsame.signature]
  rfl

theorem outcomeOf_on (hsame : SameTape Shown W.world world') :
    (W.on world').outcomeOf P = W.outcomeOf P := by
  funext status steps
  have hon : (W.on world').outcomeOf P status steps =
      (digest P world'.signature.value).map fun recordedSignature =>
        { status, steps, recordedSignature
          dataCollectionRequired := steps.any fun s => s.status = .outOfSupport } := rfl
  rw [hon, WorldReplay.outcomeOf, hsame.signature]

/-- **Opening a batch reads no result.** -/
theorem openBatch_on (hsame : SameTape Shown W.world world') (actions : Dict String String) :
    openBatch P (W.on world') actions = openBatch P W actions := by
  have houtcome : (W.on world').outcome P = W.outcome P := by
    funext opened
    rw [WorldReplay.outcome, WorldReplay.outcome, outcomeOf_on hsame]
  have hsteps : (W.on world').steps = W.steps := by
    funext visible actions
    exact steps_on hsame visible actions
  have hcap : (W.on world').cap = W.cap := rfl
  rw [openBatch, openBatch, houtcome, hsteps, hcap]

/-! ### Closing a batch -/

/-- What is visible stays visible. -/
theorem mem_keys_showResults_of_visible {visible : Dict String String} {action : String}
    (h : action ∈ visible.keys) (revealed : List StepState) :
    action ∈ (showResults visible revealed).keys := by
  induction revealed generalizing visible with
  | nil => exact h
  | cons step rest ih =>
    rcases hresult : step.result with _ | shown
    · rw [showResults_cons_none hresult]
      exact ih h
    · rw [showResults_cons_some hresult]
      refine ih (Dict.mem_keys_iff.mpr ?_)
      obtain ⟨value, hvalue⟩ := Dict.mem_keys_iff.mp h
      rw [Dict.get?_set]
      split_ifs
      · exact ⟨shown, rfl⟩
      · exact ⟨value, hvalue⟩

/-- The action of a revealed step becomes visible. -/
theorem mem_keys_showResults {visible : Dict String String} {revealed : List StepState}
    {step : StepState} {result : String} (hstep : step ∈ revealed)
    (hresult : step.result = some result) :
    step.actionId ∈ (showResults visible revealed).keys := by
  obtain ⟨before, after, rfl⟩ := List.append_of_mem hstep
  have happend : showResults visible (before ++ step :: after) =
      showResults (showResults visible before) (step :: after) := List.foldl_append
  rw [happend, showResults_cons_some hresult]
  exact mem_keys_showResults_of_visible (Dict.mem_keys_iff.mpr ⟨result, Dict.get?_set_self⟩) after

variable (reprText) in
/-- A step is revealed on both tapes or on neither, with one result if its action is shown. -/
theorem reveal_on_cases (hsame : SameTape Shown W.world world') (step : StepState) :
    (∃ failure, W.reveal reprText step = .error failure ∧
        (W.on world').reveal reprText step = .error failure) ∨
      ∃ shown shown', W.reveal reprText step = .ok shown ∧
        (W.on world').reveal reprText step = .ok shown' ∧
          (Shown step.actionId → shown' = shown) := by
  have hrel := hsame.byAction_rel step.actionId
  have hlast := byAction_get? W.world step.actionId
  rw [WorldReplay.reveal, WorldReplay.reveal, on_world]
  generalize W.world.byAction.get? step.actionId = found at hrel hlast ⊢
  generalize world'.byAction.get? step.actionId = found' at hrel ⊢
  cases hrel with
  | none => exact .inl ⟨_, rfl, rfl⟩
  | @some t t' ht =>
    have hfound := List.find?_some (show W.world.transitions.reverse.find? _ = some t from
      hlast.symm)
    have haction : t.actionId = step.actionId := of_decide_eq_true hfound
    refine .inr ⟨_, _, rfl, rfl, fun hshown => ?_⟩
    rw [ht.publicResult (haction ▸ hshown)]

/-- The revealed steps are the same, if their actions are shown. -/
theorem mapM_reveal_on (hsame : SameTape Shown W.world world') {steps : List StepState}
    (hshown : ∀ revealed, steps.mapM (W.reveal reprText) = .ok revealed →
      ∀ step ∈ steps, Shown step.actionId) :
    steps.mapM ((W.on world').reveal reprText) = steps.mapM (W.reveal reprText) := by
  rcases hmap : steps.mapM (W.reveal reprText) with failure | revealed
  · refine mapM_eq_error (fun step _ failure hfailure => ?_) (fun step _ shown hok => ?_) hmap
    · obtain ⟨failure', hleft, hright⟩ | ⟨shown, _, hleft, -⟩ :=
        reveal_on_cases reprText hsame step
      · rwa [hright, ← hleft]
      · rw [hleft] at hfailure
        cases hfailure
    · obtain ⟨failure', hleft, -⟩ | ⟨_, shown', -, hright, -⟩ :=
        reveal_on_cases reprText hsame step
      · rw [hleft] at hok
        cases hok
      · exact ⟨shown', hright⟩
  · refine mapM_eq_ok.mpr ?_
    have hboth := (List.forall₂_and_left _ _).mpr ⟨hshown revealed hmap, mapM_eq_ok.mp hmap⟩
    refine hboth.imp fun step shown ⟨hstep, hok⟩ => ?_
    obtain ⟨failure, hleft, -⟩ | ⟨shown₁, shown₂, hleft, hright, hsame'⟩ :=
      reveal_on_cases reprText hsame step
    · rw [hleft] at hok
      cases hok
    · rw [hleft] at hok
      obtain rfl := Except.ok.inj hok
      rw [hright, hsame' hstep]

theorem withhold_on (hsame : SameTape Shown W.world world') (steps : List StepState) :
    (W.on world').withhold P steps = W.withhold P steps := by
  rw [WorldReplay.withhold, WorldReplay.withhold, outcomeOf_on hsame]

theorem release_on (hsame : SameTape Shown W.world world') {steps : List StepState}
    (hshown : ∀ revealed, steps.mapM (W.reveal reprText) = .ok revealed →
      ∀ step ∈ steps, Shown step.actionId) :
    (W.on world').release P reprText steps = W.release P reprText steps := by
  have hsignature : (W.on world').world.signature = W.world.signature := hsame.signature.symm
  rw [WorldReplay.release, WorldReplay.release, mapM_reveal_on hsame hshown, hsignature]

/-- **Closing a batch reads only results that become visible.** -/
theorem closeBatch_on (hsame : SameTape Shown W.world world')
    (hshown : ∀ action ∈ ((closeBatch P reprText W).run s).2.visible.keys, Shown action) :
    (closeBatch P reprText (W.on world')).run s = (closeBatch P reprText W).run s := by
  rcases hopened : s.opened with _ | batch
  · rw [closeBatch, closeBatch, run_bind_ok (run_get s), run_bind_ok (run_get s), hopened]
  -- once all steps are supported, their actions become visible
  have hsteps (hsupported : ∀ step ∈ batch.values, step.status = .supported) (revealed)
      (hrevealed : batch.values.mapM (W.reveal reprText) = .ok revealed) :
      ∀ step ∈ batch.values, Shown step.actionId := by
    intro step hstep
    obtain ⟨recordedSignature, hrun⟩ :=
      run_closeBatch_released (P := P) hopened hsupported hrevealed
    obtain ⟨shown, hmem, hid, t, -, hresult⟩ :=
      exists_of_mem_right (forall₂_of_revealed hrevealed).flip hstep
    have hvisible := hshown shown.actionId (by
      rw [hrun]
      exact mem_keys_showResults hmem hresult)
    rwa [hid] at hvisible
  rw [closeBatch, closeBatch, run_bind_ok (run_get s), run_bind_ok (run_get s), hopened]
  dsimp only
  rw [run_raiseIf_bind, run_raiseIf_bind]
  split_ifs with hpending hsupported
  · rfl
  · rw [release_on hsame (hsteps hsupported)]
  · rw [withhold_on hsame]

/-! ### Whole runs -/

/-- **A call cannot tell two tapes apart** whose results agree on what it shows. -/
theorem act_on (hsame : SameTape Shown W.world world') (call : ReplayCall)
    (hshown : ∀ action ∈ (call.act P reprText W s).2.visible.keys, Shown action) :
    call.act P reprText (W.on world') s = call.act P reprText W s := by
  cases call with
  | commitSlots actionIds => rfl
  | openBatch actions => rw [ReplayCall.act, ReplayCall.act, openBatch_on hsame]
  | settleStep actionId timedOut => rfl
  | closeBatch =>
    rw [ReplayCall.act, run_map] at hshown
    rw [ReplayCall.act, ReplayCall.act, run_map, run_map, closeBatch_on hsame hshown]
  | selectNext => rfl

theorem exec_on (hsame : SameTape Shown W.world world') (calls : List ReplayCall)
    (hshown : ∀ e ∈ (exec (ReplayCall.act P reprText W) s calls).1,
      ∀ action ∈ e.after.visible.keys, Shown action) :
    exec (ReplayCall.act P reprText (W.on world')) s calls =
      exec (ReplayCall.act P reprText W) s calls := by
  induction calls generalizing s with
  | nil => rfl
  | cons call calls ih =>
    rw [exec] at hshown
    rw [List.forall_mem_cons] at hshown
    have hact : call.act P reprText (W.on world') s = call.act P reprText W s :=
      act_on hsame call hshown.1
    rw [exec, exec, Entry.perform, Entry.perform, hact, ih hshown.2]

/-- **A score needs a complete tape**, all of whose planned actions are visible. -/
theorem complete_of_worldScore {mean : List F → F} (h : worldScore W mean s ≠ none) :
    W.world.complete = true ∧
      ∀ t ∈ W.world.transitions, t.isTerminal = false → t.actionId ∈ s.visible.keys := by
  rw [worldScore] at h
  by_cases hcomplete : W.world.complete = false
  · rw [if_pos hcomplete] at h
    exact absurd rfl h
  rw [if_neg hcomplete] at h
  dsimp only at h
  by_cases hplanned : ∀ t ∈ W.world.transitions.filter fun t => !t.isTerminal,
      t.actionId ∈ s.visible.keys
  · refine ⟨by simpa using hcomplete, fun t ht hterminal => hplanned t ?_⟩
    exact List.mem_filter.mpr ⟨ht, by simp [hterminal]⟩
  · rw [if_pos hplanned] at h
    exact absurd rfl h

/-- **A policy learns nothing of what stays hidden.** On two tapes that differ at most in hidden
scores and in the results of actions that never become visible, a sequence of calls has the same
history: the same replies and errors, the same visible results. And a score is given only for a
complete tape whose planned actions are all visible. -/
theorem noninterference (P : Primitives) (reprText : String → String) (W : WorldReplay F)
    (world' : WorldTape F) (calls : List ReplayCall)
    (hsame : SameTape (BecomesVisible P reprText W calls) W.world world') :
    exec (ReplayCall.act P reprText (W.on world')) {} calls =
        exec (ReplayCall.act P reprText W) {} calls ∧
      ∀ (mean : List F → F) (s : ReplayState), worldScore W mean s ≠ none →
        W.world.complete = true ∧
          ∀ t ∈ W.world.transitions, t.isTerminal = false → t.actionId ∈ s.visible.keys :=
  ⟨exec_on hsame calls fun e he _ hmem => ⟨e, he, hmem⟩,
    fun _ _ => complete_of_worldScore⟩

/-- The calls that show action `a`. -/
def showCalls : List ReplayCall := submitCalls ++ [.closeBatch, .selectNext]

/-- A tape with an action `a` that is shown and an action `b` that is not. -/
def hidingTape (score : Option Float) (hidden : String) : List (TapeTransition Float) :=
  [⟨"a", "i", ∅, "r", score, false⟩, ⟨"b", "i", {"a"}, hidden, none, false⟩]

/-- The result of `b` and the score of `a` make no difference while `b` is hidden. -/
theorem noninterference_hiding :
    exec (ReplayCall.act .ascii id ((replayOf (hidingTape none "x")).on
        (replayOf (hidingTape (some 1) "y")).world)) {} showCalls =
      exec (ReplayCall.act .ascii id (replayOf (hidingTape none "x"))) {} showCalls := by
  have hhidden : ∀ e ∈ (exec (ReplayCall.act .ascii id (replayOf (hidingTape none "x"))) {}
      showCalls).1, "b" ∉ e.after.visible.keys := by decide
  have hsame : SameTape (BecomesVisible .ascii id (replayOf (hidingTape none "x")) showCalls)
      (replayOf (hidingTape none "x")).world (replayOf (hidingTape (some 1) "y")).world := by
    refine ⟨rfl, rfl, .cons ⟨rfl, rfl, rfl, rfl, fun _ => rfl⟩
      (.cons ⟨rfl, rfl, rfl, rfl, ?_⟩ .nil)⟩
    rintro ⟨e, he, hmem⟩
    exact absurd hmem (hhidden e he)
  obtain ⟨hexec, -⟩ := noninterference .ascii id _ _ showCalls hsame
  exact hexec

end Improvement

end CyranoAgent
