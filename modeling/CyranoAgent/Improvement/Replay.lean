import CyranoAgent.Contracts.Canonical
import CyranoAgent.Lib.Action
import CyranoAgent.Lib.Dict
import CyranoAgent.Lib.Run

/-!
# World replay

A `WorldReplay` replays a sealed tape for one policy: the policy commits slots, opens a batch of
actions with their inputs, settles its steps and closes it, and the results of the batch become
visible when every step was supported. `Call.act` is one call of the policy; a step is in one of
the cases of `Step`.

A batch is supported by the transitions of its actions *and inputs*; the result revealed is the one
of the last transition of the *action*. `lawful_of_run` says what every run keeps to when the two
are the same transition.
-/

namespace CyranoAgent

open Lib Lib.Action

namespace Improvement

/-! ### Tapes -/

/-- The inputs that must match before a recorded result may stand in. -/
structure ExecutionSignature where
  modelId : String
  endpoint : String
  runtimeDigest : String
  toolInventoryDigest : String
  skillDigest : String
  deriving DecidableEq, Repr

/-- The value that seals a signature. -/
def ExecutionSignature.value (signature : ExecutionSignature) : PyValue :=
  .dict [(.str "model", .str signature.modelId), (.str "endpoint", .str signature.endpoint),
    (.str "runtime", .str signature.runtimeDigest),
    (.str "tools", .str signature.toolInventoryDigest), (.str "skill", .str signature.skillDigest)]

/-- What a replay reads of a `TapeTransition`; `F` are the floating-point numbers. -/
structure TapeTransition (F : Type) where
  actionId : String
  inputDigest : String
  dependencies : Finset String
  publicResult : String
  hiddenScore : Option F
  isTerminal : Bool

/-- What a replay reads of a `WorldTape`. -/
structure WorldTape (F : Type) where
  signature : ExecutionSignature
  transitions : List (TapeTransition F)
  complete : Bool

inductive StepStatus
  | supported
  | outOfSupport
  | inputMismatch
  | signatureMismatch
  | dependencyNotObserved
  | incomplete
  | timeout
  | pending
  deriving DecidableEq, Repr

/-- One step of a batch; the result is there only past the barrier. -/
structure StepState where
  actionId : String
  status : StepStatus
  result : Option String := none
  deriving DecidableEq, Repr

structure BatchOutcome where
  status : StepStatus
  steps : List StepState
  dataCollectionRequired : Bool
  recordedSignature : String
  deriving DecidableEq, Repr

/-- `_signature_status`: how the signature drifted, if it did. -/
def signatureStatus (recorded current : ExecutionSignature) : Option StepStatus :=
  if (recorded.modelId, recorded.endpoint, recorded.runtimeDigest, recorded.toolInventoryDigest) ≠
      (current.modelId, current.endpoint, current.runtimeDigest, current.toolInventoryDigest) then
    some .signatureMismatch
  else if recorded.skillDigest ≠ current.skillDigest then some .inputMismatch
  else none

/-- What a `WorldReplay` is bound to. -/
structure WorldReplay (F : Type) where
  world : WorldTape F
  signature : ExecutionSignature
  legal : Finset String
  cap : ℤ := 4

/-- What its calls change. -/
structure ReplayState where
  visible : Dict String String := ∅
  opened : Option (Dict String StepState) := none
  committed : Finset String := ∅

/-- A call on a replay. -/
abbrev ReplayOp (α : Type) := Action ReplayState Failure α

/-! ### The calls -/

section

variable {F : Type} (P : Primitives) (reprText : String → String) (W : WorldReplay F)

/-- `commit_slots`. -/
def commitSlots (actionIds : List String) : ReplayOp (List String) := do
  let s ← get
  raiseIf s.opened.isSome (.cyrano "BATCH_INCOMPLETE" "slots bind between batches")
  modify fun s => { s with committed := s.committed ∪ actionIds.toFinset }
  return actionIds.map fun a => "slot:" ++ a

/-- The transitions by action and input: the last one of a key counts. -/
def WorldTape.byKey (world : WorldTape F) : Dict (String × String) (TapeTransition F) :=
  .ofList (world.transitions.map fun t => ((t.actionId, t.inputDigest), t))

/-- The transitions by action: the last one of an action counts. -/
def WorldTape.byAction (world : WorldTape F) : Dict String (TapeTransition F) :=
  .ofList (world.transitions.map fun t => (t.actionId, t))

/-- The step of an action and its input, over the visible results. -/
def WorldReplay.step (visible : Dict String String) (action inputDigest : String) :
    Except Failure StepState :=
  if action ∉ W.legal ∨ action ∈ visible.keys then .error (.cyrano "ILLEGAL_ACTION" action)
  else
    match W.world.byKey.get? (action, inputDigest) with
    | none =>
      if ∃ t ∈ W.world.transitions, t.actionId = action then .ok ⟨action, .inputMismatch, none⟩
      else .ok ⟨action, .outOfSupport, none⟩
    | some transition =>
      if ∀ d ∈ transition.dependencies, d ∈ visible.keys then .ok ⟨action, .pending, none⟩
      else .ok ⟨action, .dependencyNotObserved, none⟩

/-- The steps of a batch. -/
def WorldReplay.steps (visible : Dict String String) (actions : Dict String String) :
    Except Failure (List StepState) :=
  if W.world.complete then
    match signatureStatus W.world.signature W.signature with
    | some status => .ok (actions.keys.map fun a => ⟨a, status, none⟩)
    | none => actions.entries.mapM fun entry => W.step visible entry.1 entry.2
  else .ok (actions.keys.map fun a => ⟨a, .incomplete, none⟩)

/-- The status of a batch whose steps are neither all pending nor all supported: the one of its
first step that is neither. -/
def firstDrift (steps : List StepState) : Except Failure StepStatus :=
  match steps.find? fun s => s.status ∉ [StepStatus.pending, .supported] with
  | some s => .ok s.status
  | none => .error (.python "StopIteration" "")

/-- The outcome of steps under a status. -/
def WorldReplay.outcomeOf (status : StepStatus) (steps : List StepState) :
    Except Failure BatchOutcome :=
  (digest P W.world.signature.value).map fun recordedSignature =>
    { status, steps, recordedSignature
      dataCollectionRequired := steps.any fun s => s.status = .outOfSupport }

/-- `_outcome`. -/
def WorldReplay.outcome (opened : Option (Dict String StepState)) :
    Except Failure BatchOutcome := do
  let steps := opened.elim [] Dict.values
  let status ←
    if steps = [] then .ok .supported
    else if ∀ s ∈ steps, s.status = .pending then .ok .pending
    else if ∀ s ∈ steps, s.status = .supported then .ok .supported
    else firstDrift steps
  W.outcomeOf P status steps

/-- The open batch: its steps by their actions. -/
def openedBatch (steps : List StepState) : Dict String StepState :=
  .ofList (steps.map fun step => (step.actionId, step))

/-- `open_batch`. -/
def openBatch (actions : Dict String String) : ReplayOp BatchOutcome := do
  let s ← get
  raiseIf s.opened.isSome (.cyrano "BATCH_INCOMPLETE" "settle the open batch first")
  raiseIf (actions.keys = [] ∨ actions.keys.length > W.cap)
    (.cyrano "INVALID_BATCH" "nonempty batch must fit capacity")
  match (actions.keys.filter (· ∉ s.committed)).min? with
  | some action => throw (.cyrano "SLOTS_NOT_COMMITTED" action)
  | none => do
    let steps ← lift (W.steps s.visible actions)
    modify fun s => { s with opened := some (openedBatch steps) }
    lift (W.outcome P (some (openedBatch steps)))

/-- `settle_step`. -/
def settleStep (actionId : String) (timedOut : Bool) : ReplayOp Unit := do
  let s ← get
  match s.opened.bind fun opened => (opened.get? actionId).map fun step => (opened, step) with
  | none => throw (.cyrano "INPUT_INVALID" actionId)
  | some (opened, step) => do
    raiseIf (step.status ≠ .pending) (.cyrano "INPUT_INVALID" "step already terminal")
    let status := if timedOut then StepStatus.timeout else .supported
    modify fun s => { s with opened := some (opened.set actionId ⟨actionId, status, none⟩) }

/-- A supported step with the result recorded for its action. -/
def WorldReplay.reveal (step : StepState) : Except Failure StepState :=
  match W.world.byAction.get? step.actionId with
  | some transition => .ok ⟨step.actionId, .supported, some transition.publicResult⟩
  | none => .error (.python "KeyError" (reprText step.actionId))

/-- The visible results and those of the revealed steps. -/
def showResults (visible : Dict String String) (revealed : List StepState) : Dict String String :=
  revealed.foldl (fun visible step =>
    match step.result with
    | some result => visible.set step.actionId result
    | none => visible) visible

/-- The outcome of a batch that is released, after its results became visible. -/
def WorldReplay.release (steps : List StepState) : ReplayOp BatchOutcome := do
  let revealed ← lift (steps.mapM (W.reveal reprText))
  modify fun s => { s with visible := showResults s.visible revealed }
  let recordedSignature ← lift (digest P W.world.signature.value)
  return ⟨.supported, revealed, false, recordedSignature⟩

/-- The outcome of a batch that is withheld. -/
def WorldReplay.withhold (steps : List StepState) : Except Failure BatchOutcome :=
  match steps.find? fun s => s.status ≠ .supported with
  | some s => W.outcomeOf P s.status steps
  | none => .error (.python "StopIteration" "")

/-- `close_batch`. -/
def closeBatch : ReplayOp BatchOutcome := do
  let s ← get
  match s.opened with
  | none => throw (.cyrano "INPUT_INVALID" "no open batch")
  | some opened => do
    let steps := opened.values
    raiseIf (∃ step ∈ steps, step.status = .pending)
      (.cyrano "BATCH_INCOMPLETE" "unsettled steps remain")
    let outcome ←
      if ∀ step ∈ steps, step.status = .supported then W.release P reprText steps
      else lift (W.withhold P steps)
    modify fun s => { s with opened := none }
    return outcome

/-- `select_next`. -/
def selectNext : ReplayOp (Dict String String) := do
  let s ← get
  match s.opened with
  | some opened => do
    raiseIf (∃ step ∈ opened.values, step.status = .pending)
      (.cyrano "BATCH_INCOMPLETE" "barrier not reached")
    throw (.cyrano "BATCH_INCOMPLETE" "close the batch first")
  | none => return s.visible

/-- `world_score`; `mean` is `sum(scores) / len(scores)` on a nonempty list. -/
def worldScore (mean : List F → F) (s : ReplayState) : Option F :=
  if W.world.complete = false then none
  else
    let planned := W.world.transitions.filter fun t => !t.isTerminal
    if ¬∀ t ∈ planned, t.actionId ∈ s.visible.keys then none
    else
      let scores := planned.filterMap (·.hiddenScore)
      if scores = [] then none else some (mean scores)

end

/-- A call of the policy. -/
inductive ReplayCall
  | commitSlots (actionIds : List String)
  | openBatch (actions : Dict String String)
  | settleStep (actionId : String) (timedOut : Bool)
  | closeBatch
  | selectNext

/-- What a call returns. -/
inductive ReplayReply
  | slots (slots : List String)
  | outcome (outcome : BatchOutcome)
  | settled
  | view (visible : Dict String String)

/-- Perform a call. -/
def ReplayCall.act {F : Type} (P : Primitives) (reprText : String → String) (W : WorldReplay F)
    (call : ReplayCall) (s : ReplayState) : Except Failure ReplayReply × ReplayState :=
  match call with
  | .commitSlots actionIds => (ReplayReply.slots <$> Improvement.commitSlots actionIds).run s
  | .openBatch actions => (ReplayReply.outcome <$> Improvement.openBatch P W actions).run s
  | .settleStep actionId timedOut =>
    ((fun _ => ReplayReply.settled) <$> Improvement.settleStep actionId timedOut).run s
  | .closeBatch => (ReplayReply.outcome <$> Improvement.closeBatch P reprText W).run s
  | .selectNext => (ReplayReply.view <$> Improvement.selectNext).run s

variable {F : Type} {P : Primitives} {reprText : String → String} {W : WorldReplay F}
  {s s' : ReplayState}

/-! ### The steps of a batch -/

/-- What a batch knows of one of its steps when it opens: it has no result, it is not supported yet,
and if it is pending its action is not visible, and a transition of its action and input has its
dependencies visible. -/
structure Planned (W : WorldReplay F) (visible : Dict String String) (entry : String × String)
    (step : StepState) : Prop where
  actionId : step.actionId = entry.1
  result : step.result = none
  status : step.status ∉ [StepStatus.supported, .timeout]
  pending : step.status = .pending → entry.1 ∉ visible.keys ∧
    ∃ t, W.world.byKey.get? entry = some t ∧ ∀ d ∈ t.dependencies, d ∈ visible.keys

theorem planned_idle {visible : Dict String String} {entry : String × String} {status : StepStatus}
    (h : status ∉ [StepStatus.supported, .timeout, .pending]) :
    Planned W visible entry ⟨entry.1, status, none⟩ := by
  simp only [List.mem_cons, List.not_mem_nil, or_false, not_or] at h
  exact ⟨rfl, rfl, by simp [h.1, h.2.1], fun hpending => absurd hpending h.2.2⟩

theorem signatureStatus_of_some {recorded current : ExecutionSignature} {status : StepStatus}
    (h : signatureStatus recorded current = some status) :
    status ∉ [StepStatus.supported, .timeout, .pending] := by
  rw [signatureStatus] at h
  split_ifs at h <;> cases h <;> decide

theorem planned_of_step {visible : Dict String String} {entry : String × String} {step : StepState}
    (h : W.step visible entry.1 entry.2 = .ok step) : Planned W visible entry step := by
  rw [WorldReplay.step] at h
  by_cases hlegal : entry.1 ∉ W.legal ∨ entry.1 ∈ visible.keys
  · rw [if_pos hlegal] at h
    cases h
  rw [if_neg hlegal] at h
  rw [not_or] at hlegal
  rcases hkey : W.world.byKey.get? (entry.1, entry.2) with _ | t
  · rw [hkey] at h
    dsimp only at h
    split_ifs at h <;> cases h <;> exact planned_idle (by decide)
  · rw [hkey] at h
    dsimp only at h
    split_ifs at h with hdeps <;> cases h
    · exact ⟨rfl, rfl, by simp, fun _ => ⟨hlegal.2, t, hkey, hdeps⟩⟩
    · exact planned_idle (by decide)

/-- **The steps of a batch are planned**, one for each of its actions. -/
theorem planned_of_steps {visible actions : Dict String String} {steps : List StepState}
    (h : W.steps visible actions = .ok steps) :
    List.Forall₂ (Planned W visible) actions.entries steps := by
  have hidle (status : StepStatus) (hstatus : status ∉ [StepStatus.supported, .timeout, .pending]) :
      List.Forall₂ (Planned W visible) actions.entries
        (actions.keys.map fun a => ⟨a, status, none⟩) := by
    rw [Dict.keys, List.map_map, List.forall₂_map_right_iff, List.forall₂_same]
    exact fun entry _ => planned_idle hstatus
  rw [WorldReplay.steps] at h
  split_ifs at h
  · rcases hdrift : signatureStatus W.world.signature W.signature with _ | status
    · rw [hdrift] at h
      exact (mapM_eq_ok.mp h).imp fun _ _ => planned_of_step
    · rw [hdrift] at h
      obtain rfl := Except.ok.inj h
      exact hidle status (signatureStatus_of_some hdrift)
  · obtain rfl := Except.ok.inj h
    exact hidle .incomplete (by decide)

/-- A signature always has a digest. -/
theorem exists_digest (signature : ExecutionSignature) :
    ∃ recordedSignature, digest P signature.value = .ok recordedSignature := by
  have hascii : asciiKeys ["model", "endpoint", "runtime", "tools", "skill"] = true := by decide
  refine (digest_isOk P).mpr ((normalize_record_isOk (P := P) hascii
    [("model", .str signature.modelId), ("endpoint", .str signature.endpoint),
      ("runtime", .str signature.runtimeDigest), ("tools", .str signature.toolInventoryDigest),
      ("skill", .str signature.skillDigest)] (by simp) (List.Subset.refl _)).mpr ?_)
  simp

theorem outcomeOf_eq_ok (status : StepStatus) (steps : List StepState) :
    ∃ outcome, W.outcomeOf P status steps = .ok outcome ∧ outcome.steps = steps := by
  obtain ⟨recordedSignature, hdigest⟩ := exists_digest (P := P) W.world.signature
  exact ⟨_, by rw [WorldReplay.outcomeOf, hdigest]; rfl, rfl⟩

theorem map_actionId_of_planned {visible actions : Dict String String} {steps : List StepState}
    (h : List.Forall₂ (Planned W visible) actions.entries steps) :
    steps.map (·.actionId) = actions.keys := by
  refine List.forall₂_eq_eq_eq ▸ ?_
  rw [Dict.keys, List.forall₂_map_left_iff, List.forall₂_map_right_iff]
  exact h.flip.imp fun _ _ hplanned => hplanned.actionId

theorem entries_openedBatch {visible actions : Dict String String} {steps : List StepState}
    (h : List.Forall₂ (Planned W visible) actions.entries steps) :
    (openedBatch steps).entries = steps.map fun step => (step.actionId, step) := by
  refine Dict.entries_ofList ?_
  rw [List.map_map]
  exact (map_actionId_of_planned h).symm ▸ actions.nodup

/-- The open batch has the actions submitted, in their order. -/
theorem keys_openedBatch {visible actions : Dict String String} {steps : List StepState}
    (h : List.Forall₂ (Planned W visible) actions.entries steps) :
    (openedBatch steps).keys = actions.keys ∧ (openedBatch steps).values = steps := by
  rw [Dict.keys, Dict.values, entries_openedBatch h, List.map_map, List.map_map]
  exact ⟨map_actionId_of_planned h, List.map_id _⟩

/-- **The outcome of a batch that opens** has its steps. -/
theorem outcome_openedBatch {visible actions : Dict String String} {steps : List StepState}
    (h : List.Forall₂ (Planned W visible) actions.entries steps) :
    ∃ outcome, W.outcome P (some (openedBatch steps)) = .ok outcome ∧ outcome.steps = steps := by
  have hvalues : (some (openedBatch steps)).elim [] Dict.values = steps := (keys_openedBatch h).2
  rw [WorldReplay.outcome, hvalues]
  dsimp only
  split_ifs with hnil hpending hsupported
  · exact outcomeOf_eq_ok _ _
  · exact outcomeOf_eq_ok _ _
  · exact outcomeOf_eq_ok _ _
  · -- some step is not pending, and none is supported yet
    obtain ⟨step, hstep, hnot⟩ : ∃ step ∈ steps, step.status ≠ .pending := by
      simpa using hpending
    obtain ⟨entry, -, hplanned⟩ := exists_of_mem_right h hstep
    have hdrifts : step.status ∉ [StepStatus.pending, .supported] := by
      have hstatus := hplanned.status
      simp only [List.mem_cons, List.not_mem_nil, or_false, not_or] at hstatus ⊢
      exact ⟨hnot, hstatus.1⟩
    rcases hfind : steps.find? fun step => step.status ∉ [StepStatus.pending, .supported]
      with _ | drifted
    · exact absurd hdrifts (by simpa using List.find?_eq_none.mp hfind step hstep)
    · have hfirst : firstDrift steps = .ok drifted.status := by rw [firstDrift, hfind]
      rw [hfirst]
      exact outcomeOf_eq_ok _ _

/-! ### What a call does -/

/-- **The cases of a call.** A refused call changes nothing; the results of a batch become visible
when it is released. -/
inductive Step (P : Primitives) (reprText : String → String) (W : WorldReplay F) (s : ReplayState) :
    ReplayCall → Except Failure ReplayReply → ReplayState → Prop
  | refused {call : ReplayCall} (failure : Failure) : Step P reprText W s call (.error failure) s
  | committed (actionIds : List String) (hclosed : s.opened = none) :
    Step P reprText W s (.commitSlots actionIds)
      (.ok (.slots (actionIds.map fun a => "slot:" ++ a)))
      { s with committed := s.committed ∪ actionIds.toFinset }
  | opened (actions : Dict String String) (steps : List StepState) (outcome : BatchOutcome)
    (hclosed : s.opened = none) (hcommitted : ∀ a ∈ actions.keys, a ∈ s.committed)
    (hsteps : W.steps s.visible actions = .ok steps) (houtcome : outcome.steps = steps) :
    Step P reprText W s (.openBatch actions) (.ok (.outcome outcome))
      { s with opened := some (openedBatch steps) }
  | settled (actionId : String) (timedOut : Bool) (batch : Dict String StepState)
    (step : StepState) (hopened : s.opened = some batch) (hstep : batch.get? actionId = some step)
    (hpending : step.status = .pending) :
    Step P reprText W s (.settleStep actionId timedOut) (.ok .settled)
      { s with opened := some (batch.set actionId
          ⟨actionId, if timedOut then .timeout else .supported, none⟩) }
  | released (batch : Dict String StepState) (revealed : List StepState)
    (recordedSignature : String) (hopened : s.opened = some batch)
    (hsupported : ∀ step ∈ batch.values, step.status = .supported)
    (hrevealed : batch.values.mapM (W.reveal reprText) = .ok revealed) :
    Step P reprText W s .closeBatch
      (.ok (.outcome ⟨.supported, revealed, false, recordedSignature⟩))
      { s with visible := showResults s.visible revealed, opened := none }
  | withheld (batch : Dict String StepState) (outcome : BatchOutcome)
    (hopened : s.opened = some batch) (houtcome : outcome.steps = batch.values) :
    Step P reprText W s .closeBatch (.ok (.outcome outcome)) { s with opened := none }
  | viewed (hclosed : s.opened = none) : Step P reprText W s .selectNext (.ok (.view s.visible)) s

theorem step_commitSlots (actionIds : List String) :
    Step P reprText W s (.commitSlots actionIds)
      ((ReplayCall.commitSlots actionIds).act P reprText W s).1
      ((ReplayCall.commitSlots actionIds).act P reprText W s).2 := by
  rw [ReplayCall.act, commitSlots, run_map, run_bind_ok (run_get s), run_raiseIf_bind]
  split_ifs with hopened
  · exact .refused _
  · exact .committed actionIds (by simpa using hopened)

theorem step_openBatch (actions : Dict String String) :
    Step P reprText W s (.openBatch actions) ((ReplayCall.openBatch actions).act P reprText W s).1
      ((ReplayCall.openBatch actions).act P reprText W s).2 := by
  rw [ReplayCall.act, openBatch, run_map, run_bind_ok (run_get s), run_raiseIf_bind]
  split_ifs with hopened
  · exact .refused _
  rw [run_raiseIf_bind]
  split_ifs with hinvalid
  · exact .refused _
  rcases hmin : (actions.keys.filter (· ∉ s.committed)).min? with _ | action
  · have hcommitted : ∀ a ∈ actions.keys, a ∈ s.committed := by simpa using hmin
    rcases hsteps : W.steps s.visible actions with failure | steps
    · exact .refused _
    · obtain ⟨outcome, houtcome, hin⟩ := outcome_openedBatch (P := P) (planned_of_steps hsteps)
      have hrun : (lift (W.outcome P (some (openedBatch steps)))).run
          { s with opened := some (openedBatch steps) } =
          (.ok outcome, { s with opened := some (openedBatch steps) }) := by
        rw [houtcome, run_lift_ok]
      rw [run_bind_ok (run_lift_ok steps s), run_bind_ok (run_modify _ s)]
      rw [hrun]
      exact .opened actions steps outcome (by simpa using hopened) hcommitted hsteps hin
  · exact .refused _

theorem step_settleStep (actionId : String) (timedOut : Bool) :
    Step P reprText W s (.settleStep actionId timedOut)
      ((ReplayCall.settleStep actionId timedOut).act P reprText W s).1
      ((ReplayCall.settleStep actionId timedOut).act P reprText W s).2 := by
  rw [ReplayCall.act, settleStep, run_map, run_bind_ok (run_get s)]
  rcases hopened : s.opened with _ | batch
  · exact .refused _
  rcases hstep : batch.get? actionId with _ | step
  · rw [Option.bind_some, hstep]
    exact .refused _
  · rw [Option.bind_some, hstep, Option.map_some]
    dsimp only
    rw [run_raiseIf_bind]
    by_cases hpending : step.status = .pending
    · rw [if_neg (not_not.mpr hpending)]
      exact .settled actionId timedOut batch step hopened hstep hpending
    · rw [if_pos hpending]
      exact .refused _

/-- A batch is released when its steps are supported and their results are found. -/
theorem run_closeBatch_released {batch : Dict String StepState} {revealed : List StepState}
    (hopened : s.opened = some batch) (hsupported : ∀ step ∈ batch.values, step.status = .supported)
    (hrevealed : batch.values.mapM (W.reveal reprText) = .ok revealed) :
    ∃ recordedSignature, (closeBatch P reprText W).run s =
      (.ok ⟨.supported, revealed, false, recordedSignature⟩,
        { s with visible := showResults s.visible revealed, opened := none }) := by
  obtain ⟨recordedSignature, hdigest⟩ := exists_digest (P := P) W.world.signature
  have hrelease : (W.release P reprText batch.values).run s =
      (.ok ⟨.supported, revealed, false, recordedSignature⟩,
        { s with visible := showResults s.visible revealed }) := by
    rw [WorldReplay.release, hrevealed, hdigest]
    rfl
  have hsettled : ¬∃ step ∈ batch.values, step.status = .pending := by
    rintro ⟨step, hstep, hpending⟩
    rw [hsupported step hstep] at hpending
    cases hpending
  refine ⟨recordedSignature, ?_⟩
  rw [closeBatch, run_bind_ok (run_get s), hopened]
  dsimp only
  rw [run_raiseIf_skip hsettled, if_pos hsupported, run_bind_ok hrelease]
  rfl

theorem step_closeBatch :
    Step P reprText W s .closeBatch (ReplayCall.closeBatch.act P reprText W s).1
      (ReplayCall.closeBatch.act P reprText W s).2 := by
  rcases hopened : s.opened with _ | batch
  · rw [ReplayCall.act, closeBatch, run_map, run_bind_ok (run_get s), hopened]
    exact .refused _
  by_cases hsupported : ∀ step ∈ batch.values, step.status = .supported
  · rcases hrevealed : batch.values.mapM (W.reveal reprText) with failure | revealed
    · have hrelease : (W.release P reprText batch.values).run s = (.error failure, s) := by
        rw [WorldReplay.release, hrevealed]
        rfl
      rw [ReplayCall.act, closeBatch, run_map, run_bind_ok (run_get s), hopened]
      dsimp only
      rw [run_raiseIf_bind]
      split_ifs
      · exact .refused _
      · rw [run_bind_error hrelease]
        exact .refused _
    · obtain ⟨recordedSignature, hrun⟩ :=
        run_closeBatch_released (P := P) hopened hsupported hrevealed
      rw [ReplayCall.act, run_map, hrun]
      exact .released batch revealed recordedSignature hopened hsupported hrevealed
  · rw [ReplayCall.act, closeBatch, run_map, run_bind_ok (run_get s), hopened]
    dsimp only
    rw [run_raiseIf_bind, if_neg hsupported]
    split_ifs
    · exact .refused _
    rcases hfind : batch.values.find? fun step => step.status ≠ .supported with _ | step
    · rw [WorldReplay.withhold, hfind]
      exact .refused _
    · obtain ⟨outcome, houtcome, hin⟩ :=
        outcomeOf_eq_ok (P := P) (W := W) step.status batch.values
      rw [WorldReplay.withhold, hfind]
      dsimp only
      rw [houtcome]
      exact .withheld batch outcome hopened hin

theorem step_selectNext :
    Step P reprText W s .selectNext (ReplayCall.selectNext.act P reprText W s).1
      (ReplayCall.selectNext.act P reprText W s).2 := by
  rw [ReplayCall.act, selectNext, run_map, run_bind_ok (run_get s)]
  rcases hopened : s.opened with _ | batch
  · exact .viewed hopened
  dsimp only
  rw [run_raiseIf_bind]
  split_ifs <;> exact .refused _

/-- **Every call is in one of the cases.** -/
theorem step_act (call : ReplayCall) (s : ReplayState) :
    Step P reprText W s call (call.act P reprText W s).1 (call.act P reprText W s).2 := by
  cases call with
  | commitSlots actionIds => exact step_commitSlots actionIds
  | openBatch actions => exact step_openBatch actions
  | settleStep actionId timedOut => exact step_settleStep actionId timedOut
  | closeBatch => exact step_closeBatch
  | selectNext => exact step_selectNext

/-! ### Looking a transition up -/

/-- The last transition of an action on the tape. -/
def WorldTape.lastOf (world : WorldTape F) (action : String) : Option (TapeTransition F) :=
  world.transitions.reverse.find? fun t => t.actionId = action

theorem byAction_get? (world : WorldTape F) (action : String) :
    world.byAction.get? action = world.lastOf action := by
  rw [WorldTape.byAction, Dict.get?_ofList, ← List.map_reverse, List.find?_map, Option.map_map]
  exact Option.map_id'

theorem byKey_get? (world : WorldTape F) (action inputDigest : String) :
    world.byKey.get? (action, inputDigest) = world.transitions.reverse.find? fun t =>
      (t.actionId, t.inputDigest) = (action, inputDigest) := by
  rw [WorldTape.byKey, Dict.get?_ofList, ← List.map_reverse, List.find?_map, Option.map_map]
  exact Option.map_id'

theorem mem_of_byKey {world : WorldTape F} {action inputDigest : String} {t : TapeTransition F}
    (h : world.byKey.get? (action, inputDigest) = some t) :
    t ∈ world.transitions ∧ t.actionId = action ∧ t.inputDigest = inputDigest := by
  rw [byKey_get?] at h
  have hfound := List.find?_some h
  exact ⟨List.mem_reverse.mp (List.mem_of_find?_eq_some h),
    Prod.mk.inj (of_decide_eq_true hfound)⟩

/-- The last transition of an action, if it has the input, is the last one of action and input. -/
theorem byKey_of_lastOf {world : WorldTape F} {action : String} {t : TapeTransition F}
    (h : world.lastOf action = some t) : world.byKey.get? (action, t.inputDigest) = some t := by
  rw [WorldTape.lastOf, List.find?_eq_some_iff_append] at h
  obtain ⟨haction, before, after, heq, hbefore⟩ := h
  rw [byKey_get?, List.find?_eq_some_iff_append]
  refine ⟨?_, before, after, heq, fun t' ht' => ?_⟩
  · rw [of_decide_eq_true haction]
    exact decide_eq_true rfl
  · have hother := hbefore t' ht'
    rw [Bool.not_eq_true', decide_eq_false_iff_not] at hother ⊢
    exact fun hkey => hother (Prod.mk.inj hkey).1

/-! ### What becomes visible -/

theorem showResults_cons_none {step : StepState} (h : step.result = none)
    (visible : Dict String String) (rest : List StepState) :
    showResults visible (step :: rest) = showResults visible rest := by
  rw [showResults, List.foldl_cons, h]
  rfl

theorem showResults_cons_some {step : StepState} {result : String} (h : step.result = some result)
    (visible : Dict String String) (rest : List StepState) :
    showResults visible (step :: rest) =
      showResults (visible.set step.actionId result) rest := by
  rw [showResults, List.foldl_cons, h]
  rfl

theorem get?_showResults {visible : Dict String String} {revealed : List StepState}
    {action result : String} (hnodup : (revealed.map (·.actionId)).Nodup)
    (hnew : ∀ step ∈ revealed, visible.get? step.actionId = none) :
    (showResults visible revealed).get? action = some result ↔
      visible.get? action = some result ∨
        ∃ step ∈ revealed, step.actionId = action ∧ step.result = some result := by
  induction revealed generalizing visible with
  | nil => simp [showResults]
  | cons step rest ih =>
    rw [List.map_cons, List.nodup_cons] at hnodup
    rw [List.forall_mem_cons] at hnew
    rw [List.exists_mem_cons_iff]
    rcases hresult : step.result with _ | shown
    · rw [showResults_cons_none hresult, ih hnodup.2 hnew.2]
      simp
    · have hrest : ∀ step' ∈ rest, step'.actionId ≠ step.actionId := fun step' hstep' heq =>
        hnodup.1 (heq ▸ List.mem_map_of_mem hstep')
      rw [showResults_cons_some hresult, ih hnodup.2 fun step' hstep' => by
        rw [Dict.get?_set_of_ne (hrest step' hstep')]
        exact hnew.2 step' hstep', Dict.get?_set]
      by_cases hkey : action = step.actionId
      · rw [if_pos hkey, hkey, hnew.1]
        simp
      · rw [if_neg hkey]
        simp [Ne.symm hkey]

/-- What a revealed step says: its action and the result of the last transition of the action. -/
theorem forall₂_of_revealed {batch : Dict String StepState} {revealed : List StepState}
    (h : batch.values.mapM (W.reveal reprText) = .ok revealed) :
    List.Forall₂ (fun step shown => shown.actionId = step.actionId ∧
      ∃ t, W.world.lastOf step.actionId = some t ∧ shown.result = some t.publicResult)
      batch.values revealed := by
  refine (mapM_eq_ok.mp h).imp fun step shown hshown => ?_
  rw [WorldReplay.reveal, byAction_get?] at hshown
  rcases hlast : W.world.lastOf step.actionId with _ | t
  · rw [hlast] at hshown
    cases hshown
  · rw [hlast] at hshown
    obtain rfl := Except.ok.inj hshown
    exact ⟨rfl, t, rfl, rfl⟩

/-! ### Batches over a whole run -/

/-- A call with the states around it. -/
abbrev ReplayEntry := Entry ReplayState ReplayCall (Except Failure ReplayReply)

/-- The call opens a batch of these actions. -/
def Opens (e : ReplayEntry) (actions : Dict String String) : Prop :=
  e.op = .openBatch actions ∧ ∃ outcome, e.reply = .ok (.outcome outcome)

/-- The last batch that was opened in a history, after `h₁`, by the call `o`. -/
def LastOpened (h h₁ : List ReplayEntry) (o : ReplayEntry) (actions : Dict String String) : Prop :=
  ∃ h₂, h = h₁ ++ o :: h₂ ∧ Opens o actions ∧ ∀ e ∈ h₂, ∀ actions', ¬Opens e actions'

/-- The slot of an action was committed in a history. -/
def CommittedIn (h : List ReplayEntry) (action : String) : Prop :=
  ∃ e ∈ h, ∃ actionIds slots, e.op = .commitSlots actionIds ∧ e.reply = .ok (.slots slots) ∧
    action ∈ actionIds

/-- The call returns a result of an action. -/
def Reveals (e : ReplayEntry) (action result : String) : Prop :=
  ∃ outcome, e.reply = .ok (.outcome outcome) ∧
    ∃ step ∈ outcome.steps, step.actionId = action ∧ step.result = some result

/-- The transition is one of the action and the input, and its dependencies are visible. -/
def Supports (world : WorldTape F) (visible : Dict String String) (action inputDigest : String)
    (t : TapeTransition F) : Prop :=
  t ∈ world.transitions ∧ t.actionId = action ∧ t.inputDigest = inputDigest ∧
    ∀ d ∈ t.dependencies, d ∈ visible.keys

/-- What every call of a run keeps to, `h` being the calls before it. The results it returns become
visible, each for the first time; they are results of the batch opened last, all of whose actions
had their slots committed before and are supported; and each is the result of a transition of the
submitted action and input, whose dependencies were visible when the batch opened. -/
structure Lawful (W : WorldReplay F) (h : List ReplayEntry) (e : ReplayEntry) : Prop where
  visible : ∀ action result, e.after.visible.get? action = some result ↔
    e.before.visible.get? action = some result ∨ Reveals e action result
  once : ∀ action result, Reveals e action result → e.before.visible.get? action = none
  batch : ∀ action result, Reveals e action result → ∃ h₁ o actions, LastOpened h h₁ o actions ∧
    (∀ a ∈ actions.keys, CommittedIn h₁ a) ∧
    (∀ a input, actions.get? a = some input →
      (∃ batch step, e.before.opened = some batch ∧ batch.get? a = some step ∧
        step.status = .supported) ∧ ∃ t, Supports W.world o.before.visible a input t) ∧
    ∃ input t, actions.get? action = some input ∧
      Supports W.world o.before.visible action input t ∧ t.publicResult = result

/-- Every action of a batch that the call submits with an input on the tape has this input in its
last transition. -/
def LastInputs (W : WorldReplay F) (call : ReplayCall) : Prop :=
  ∀ actions, call = .openBatch actions → ∀ action input, actions.get? action = some input →
    (∃ t ∈ W.world.transitions, t.actionId = action ∧ t.inputDigest = input) →
    ∀ t, W.world.lastOf action = some t → t.inputDigest = input

/-- What a history leaves behind: committed slots, and an open batch whose pending and supported
steps have transitions that support them. -/
structure Kept (W : WorldReplay F) (h : List ReplayEntry) (s : ReplayState) : Prop where
  committed : ∀ a ∈ s.committed, CommittedIn h a
  batch : ∀ batch, s.opened = some batch → ∃ h₁ o actions, LastOpened h h₁ o actions ∧
    s.visible = o.before.visible ∧ (∀ a ∈ actions.keys, CommittedIn h₁ a) ∧
    batch.keys = actions.keys ∧
    ∀ a step, batch.get? a = some step → step.actionId = a ∧ step.result = none ∧
      (step.status ∈ [StepStatus.pending, .supported] → a ∉ s.visible.keys ∧
        ∃ input t, actions.get? a = some input ∧ W.world.byKey.get? (a, input) = some t ∧
          ∀ d ∈ t.dependencies, d ∈ s.visible.keys)

variable {h h₁ h₂ : List ReplayEntry} {e o : ReplayEntry} {actions : Dict String String}

theorem CommittedIn.snoc {a : String} (hc : CommittedIn h a) (e : ReplayEntry) :
    CommittedIn (h ++ [e]) a := by
  obtain ⟨e', he', hrest⟩ := hc
  exact ⟨e', List.mem_append_left _ he', hrest⟩

theorem LastOpened.snoc (hlast : LastOpened h h₁ o actions) (he : ∀ actions', ¬Opens e actions') :
    LastOpened (h ++ [e]) h₁ o actions := by
  obtain ⟨h₂, rfl, hopens, hrest⟩ := hlast
  refine ⟨h₂ ++ [e], by simp, hopens, fun e' he' => ?_⟩
  rcases List.mem_append.mp he' with hold | hnew
  · exact hrest e' hold
  · obtain rfl := List.mem_singleton.mp hnew
    exact he

theorem kept_empty : Kept W [] {} where
  committed := by simp
  batch := by simp

/-- A call that opens no batch keeps what was left behind, as far as the slots, the batch and the
visible results stay. -/
theorem Kept.snoc_same (hk : Kept W h s) (he : ∀ actions', ¬Opens e actions')
    (hcommitted : ∀ a ∈ s'.committed, a ∈ s.committed ∨ CommittedIn (h ++ [e]) a)
    (hopened : ∀ batch, s'.opened = some batch → s.opened = some batch ∧ s'.visible = s.visible) :
    Kept W (h ++ [e]) s' where
  committed a ha := by
    rcases hcommitted a ha with hold | hnew
    · exact (hk.committed a hold).snoc e
    · exact hnew
  batch batch hbatch := by
    obtain ⟨hold, hvisible⟩ := hopened batch hbatch
    obtain ⟨h₁, o, actions, hlast, hrest⟩ := hk.batch batch hold
    rw [hvisible]
    exact ⟨h₁, o, actions, hlast.snoc he, hrest⟩

/-- A batch that opens is kept: its steps are planned. -/
theorem Kept.snoc_opened {steps : List StepState} {outcome : BatchOutcome} (hk : Kept W h s)
    (hcommitted : ∀ a ∈ actions.keys, a ∈ s.committed)
    (hsteps : W.steps s.visible actions = .ok steps) :
    Kept W (h ++ [⟨s, .openBatch actions, .ok (.outcome outcome),
      { s with opened := some (openedBatch steps) }⟩])
      { s with opened := some (openedBatch steps) } where
  committed a ha := (hk.committed a ha).snoc _
  batch batch hbatch := by
    obtain rfl := Option.some.inj hbatch
    have hplanned := planned_of_steps hsteps
    obtain ⟨hkeys, hvalues⟩ := keys_openedBatch hplanned
    refine ⟨h, ⟨s, .openBatch actions, .ok (.outcome outcome),
      { s with opened := some (openedBatch steps) }⟩, actions, ⟨[], rfl, ⟨rfl, outcome, rfl⟩,
        by simp⟩, rfl, fun a ha => hk.committed a (hcommitted a ha), hkeys, fun a step hstep => ?_⟩
    have hentry : (a, step) ∈ steps.map fun step => (step.actionId, step) := by
      have hmem := Dict.get?_eq_some_iff.mp hstep
      rwa [entries_openedBatch hplanned] at hmem
    obtain ⟨step', hstep', heq⟩ := List.mem_map.mp hentry
    obtain ⟨rfl, rfl⟩ := Prod.mk.inj heq
    obtain ⟨entry, hentry', hplan⟩ := exists_of_mem_right hplanned hstep'
    refine ⟨rfl, hplan.result, fun hstatus => ?_⟩
    have hpending : step'.status = .pending := by
      have hnot := hplan.status
      simp only [List.mem_cons, List.not_mem_nil, or_false, not_or] at hstatus hnot
      exact hstatus.resolve_right hnot.1
    obtain ⟨hnew, t, ht, hdeps⟩ := hplan.pending hpending
    rw [hplan.actionId]
    exact ⟨hnew, entry.2, t, Dict.get?_eq_some_iff.mpr hentry', ht, hdeps⟩

/-- Settling a pending step keeps what the batch knows. -/
theorem Kept.snoc_settled {actionId : String} {timedOut : Bool} {batch : Dict String StepState}
    {step : StepState} {status : StepStatus} (hk : Kept W h s) (hopened : s.opened = some batch)
    (hstep : batch.get? actionId = some step) (hpending : step.status = .pending)
    (he : e = ⟨s, .settleStep actionId timedOut, .ok .settled,
      { s with opened := some (batch.set actionId ⟨actionId, status, none⟩) }⟩) :
    Kept W (h ++ [e]) { s with opened := some (batch.set actionId ⟨actionId, status, none⟩) } where
  committed a ha := (hk.committed a ha).snoc _
  batch batch' hbatch := by
    obtain rfl := Option.some.inj hbatch
    have hno : ∀ actions', ¬Opens e actions' := by
      rintro actions' ⟨hop, -⟩
      rw [he] at hop
      cases hop
    obtain ⟨h₁, o, actions, hlast, hvisible, hslots, hkeys, hbatch'⟩ := hk.batch batch hopened
    have hmem : actionId ∈ batch.keys := Dict.mem_keys_iff.mpr ⟨step, hstep⟩
    refine ⟨h₁, o, actions, hlast.snoc hno, hvisible, hslots,
      (Dict.keys_set_of_mem hmem).trans hkeys, fun a step' hstep' => ?_⟩
    rw [Dict.get?_set] at hstep'
    split_ifs at hstep' with ha
    · obtain rfl := Option.some.inj hstep'
      refine ⟨ha.symm, rfl, fun _ => ?_⟩
      rw [ha]
      exact (hbatch' actionId step hstep).2.2 (by simp [hpending])
    · exact hbatch' a step' hstep'

/-- **Every call keeps what is left behind.** -/
theorem Kept.snoc {call : ReplayCall} {reply : Except Failure ReplayReply} (hk : Kept W h s)
    (hstep : Step P reprText W s call reply s') : Kept W (h ++ [⟨s, call, reply, s'⟩]) s' := by
  cases hstep with
  | refused failure =>
    refine hk.snoc_same ?_ (fun a ha => .inl ha) fun batch hbatch => ⟨hbatch, rfl⟩
    rintro actions' ⟨-, outcome, hreply⟩
    cases hreply
  | committed actionIds hclosed =>
    refine hk.snoc_same ?_ (fun a ha => ?_) fun batch hbatch => ⟨hbatch, rfl⟩
    · rintro actions' ⟨hop, -⟩
      cases hop
    · rcases Finset.mem_union.mp ha with hold | hnew
      · exact .inl hold
      · exact .inr ⟨_, List.mem_concat_self, actionIds, _, rfl, rfl, List.mem_toFinset.mp hnew⟩
  | opened actions steps outcome hclosed hcommitted hsteps houtcome =>
    exact hk.snoc_opened hcommitted hsteps
  | settled actionId timedOut batch step hopened hbatch hpending =>
    exact hk.snoc_settled hopened hbatch hpending rfl
  | released | withheld =>
    refine hk.snoc_same ?_ (fun a ha => .inl ha) fun batch hbatch => by cases hbatch
    rintro actions' ⟨hop, -⟩
    cases hop
  | viewed hclosed =>
    refine hk.snoc_same ?_ (fun a ha => .inl ha) fun batch hbatch => ⟨hbatch, rfl⟩
    rintro actions' ⟨hop, -⟩
    cases hop

/-- Along every run, what is left behind is kept. -/
theorem kept_of_run (hr : Run (ReplayCall.act P reprText W) {} h s) : Kept W h s :=
  hr.inv kept_empty fun _ s call _ hk => hk.snoc (step_act call s)

/-! ### The law of a run -/

/-- A call that returns no result and changes no visible one is lawful. -/
theorem lawful_of_silent (hvisible : e.after.visible = e.before.visible)
    (hno : ∀ action result, ¬Reveals e action result) : Lawful W h e where
  visible action result := by
    rw [hvisible]
    exact ⟨.inl, fun h => h.resolve_right (hno action result)⟩
  once action result hreveals := absurd hreveals (hno action result)
  batch action result hreveals := absurd hreveals (hno action result)

theorem not_reveals_of_steps {outcome : BatchOutcome} (hreply : e.reply = .ok (.outcome outcome))
    (hsteps : ∀ step ∈ outcome.steps, step.result = none) (action result : String) :
    ¬Reveals e action result := by
  rintro ⟨outcome', hreply', step, hstep, -, hresult⟩
  rw [hreply] at hreply'
  cases hreply'
  rw [hsteps step hstep] at hresult
  cases hresult

/-- A released batch is lawful, if its actions have their inputs in their last transitions. -/
theorem lawful_of_released {batch : Dict String StepState} {revealed : List StepState}
    {recordedSignature : String} (hk : Kept W h s) (hlast : ∀ o ∈ h, LastInputs W o.op)
    (hopened : s.opened = some batch) (hsupported : ∀ step ∈ batch.values, step.status = .supported)
    (hrevealed : batch.values.mapM (W.reveal reprText) = .ok revealed)
    (he : e = ⟨s, .closeBatch, .ok (.outcome ⟨.supported, revealed, false, recordedSignature⟩),
      { s with visible := showResults s.visible revealed, opened := none }⟩) : Lawful W h e := by
  obtain ⟨h₁, o, actions, hbatch, hvisible, hslots, hkeys, hsteps⟩ := hk.batch batch hopened
  have hshown := forall₂_of_revealed hrevealed
  have hreveals : ∀ action result, Reveals e action result ↔
      ∃ shown ∈ revealed, shown.actionId = action ∧ shown.result = some result := by
    intro action result
    rw [he]
    exact ⟨fun ⟨outcome, hreply, hrest⟩ => by cases hreply; exact hrest,
      fun hrest => ⟨_, rfl, hrest⟩⟩
  -- each action of the batch is supported by the transition that is found under its key
  have hkey : ∀ a step, batch.get? a = some step → a ∉ s.visible.keys ∧ ∃ input t,
      actions.get? a = some input ∧ W.world.byKey.get? (a, input) = some t ∧
        ∀ d ∈ t.dependencies, d ∈ s.visible.keys := by
    intro a step hstep
    have hstatus := hsupported step (Dict.mem_values_iff.mpr ⟨a, hstep⟩)
    exact (hsteps a step hstep).2.2 (by simp [hstatus])
  have hfrom : ∀ shown ∈ revealed, ∃ step, batch.get? shown.actionId = some step ∧
      ∃ t, W.world.lastOf shown.actionId = some t ∧ shown.result = some t.publicResult := by
    intro shown hmem
    obtain ⟨step, hstep, hid, hrest⟩ := exists_of_mem_right hshown hmem
    obtain ⟨a, ha⟩ := Dict.mem_values_iff.mp hstep
    rw [hid, (hsteps a step ha).1]
    exact ⟨step, ha, (hsteps a step ha).1 ▸ hrest⟩
  have hnew : ∀ shown ∈ revealed, s.visible.get? shown.actionId = none := by
    intro shown hmem
    obtain ⟨step, hstep, -⟩ := hfrom shown hmem
    exact Dict.get?_eq_none_iff.mpr (hkey _ step hstep).1
  have hids : revealed.map (·.actionId) = batch.keys := by
    have hvalues : batch.values.map (·.actionId) = batch.keys := by
      rw [Dict.values, Dict.keys, List.map_map]
      refine List.map_congr_left fun entry hentry => ?_
      exact (hsteps entry.1 entry.2 (Dict.get?_eq_some_iff.mpr hentry)).1
    rw [← hvalues]
    refine List.forall₂_eq_eq_eq ▸ ?_
    rw [List.forall₂_map_left_iff, List.forall₂_map_right_iff]
    exact hshown.flip.imp fun _ _ hrel => hrel.1
  refine ⟨fun action result => ?_, fun action result hr => ?_, fun action result hr => ?_⟩
  · rw [hreveals, he]
    exact get?_showResults (hids ▸ batch.nodup_keys) hnew
  · obtain ⟨shown, hmem, rfl, -⟩ := (hreveals action result).mp hr
    rw [he]
    exact hnew shown hmem
  · obtain ⟨shown, hmem, rfl, hresult⟩ := (hreveals action result).mp hr
    obtain ⟨step, hstep, t, ht, htresult⟩ := hfrom shown hmem
    refine ⟨h₁, o, actions, hbatch, hslots, fun a input hinput => ?_, ?_⟩
    · have hmem' : a ∈ batch.keys := hkeys ▸ Dict.mem_keys_iff.mpr ⟨input, hinput⟩
      obtain ⟨step', hstep'⟩ := Dict.mem_keys_iff.mp hmem'
      refine ⟨⟨batch, step', by rw [he]; exact hopened, hstep',
        hsupported step' (Dict.mem_values_iff.mpr ⟨a, hstep'⟩)⟩, ?_⟩
      obtain ⟨-, input', t', hinput', ht', hdeps⟩ := hkey a step' hstep'
      obtain rfl := Option.some.inj (hinput'.symm.trans hinput)
      obtain ⟨hmem, haction, hdigest⟩ := mem_of_byKey ht'
      exact ⟨t', hmem, haction, hdigest, hvisible ▸ hdeps⟩
    · obtain ⟨-, input, t', hinput, ht', hdeps⟩ := hkey _ step hstep
      obtain ⟨hmem', haction, hdigest⟩ := mem_of_byKey ht'
      -- the last transition of the action has the submitted input, so it is the one that supports
      have hlastInput : t.inputDigest = input := by
        obtain ⟨h₂, rfl, ⟨hop, -⟩, -⟩ := hbatch
        exact hlast o (by simp) actions hop _ input hinput ⟨t', hmem', haction, hdigest⟩ t ht
      have hsame : t' = t := by
        have hkey' := byKey_of_lastOf ht
        rw [hlastInput, ht'] at hkey'
        exact Option.some.inj hkey'
      refine ⟨input, t', hinput, ⟨hmem', haction, hdigest, hvisible ▸ hdeps⟩, ?_⟩
      rw [hsame]
      exact Option.some.inj (htresult.symm.trans hresult)

/-- **Every call is lawful**, if the batch that it closes submitted the inputs of the last
transitions. -/
theorem lawful_of_step {call : ReplayCall} {reply : Except Failure ReplayReply} (hk : Kept W h s)
    (hlast : ∀ o ∈ h, LastInputs W o.op) (hstep : Step P reprText W s call reply s') :
    Lawful W h ⟨s, call, reply, s'⟩ := by
  have hquiet {reply : ReplayReply} (hreply : ∀ outcome, reply ≠ .outcome outcome)
      (action result : String) : ¬Reveals ⟨s, call, .ok reply, s'⟩ action result := by
    rintro ⟨outcome, heq, -⟩
    exact hreply outcome (Except.ok.inj heq)
  cases hstep with
  | refused failure =>
    refine lawful_of_silent rfl ?_
    rintro action result ⟨outcome, hreply, -⟩
    cases hreply
  | committed | settled | viewed => exact lawful_of_silent rfl (hquiet nofun)
  | opened actions steps outcome hclosed hcommitted hsteps houtcome =>
    refine lawful_of_silent rfl (not_reveals_of_steps rfl fun step hmem => ?_)
    obtain ⟨entry, -, hplanned⟩ :=
      exists_of_mem_right (planned_of_steps hsteps) (houtcome ▸ hmem)
    exact hplanned.result
  | released batch revealed recordedSignature hopened hsupported hrevealed =>
    exact lawful_of_released hk hlast hopened hsupported hrevealed rfl
  | withheld batch outcome hopened houtcome =>
    refine lawful_of_silent rfl (not_reveals_of_steps rfl fun step hmem => ?_)
    obtain ⟨h₁, o, actions, -, -, -, -, hsteps⟩ := hk.batch batch hopened
    obtain ⟨a, ha⟩ := Dict.mem_values_iff.mp (houtcome ▸ hmem)
    exact (hsteps a step ha).2.1

/-- **Every run of a replay is lawful**, call by call, if each batch that it opens submits the
inputs that the last transitions of its actions have. -/
theorem lawful_of_run (hr : Run (ReplayCall.act P reprText W) {} (h₁ ++ e :: h₂) s)
    (hlast : ∀ e' ∈ h₁ ++ e :: h₂, LastInputs W e'.op) : Lawful W h₁ e := by
  obtain ⟨hbefore, he, -⟩ := hr.split
  rw [he]
  exact lawful_of_step (kept_of_run hbefore) (fun o ho => hlast o (List.mem_append_left _ ho))
    (step_act e.op e.before)

/-- A transition of action `a` without dependencies. -/
def recorded (inputDigest publicResult : String) : TapeTransition Float :=
  ⟨"a", inputDigest, ∅, publicResult, none, false⟩

/-- A replay of a complete tape, under the signature of the tape. -/
def replayOf (transitions : List (TapeTransition Float)) : WorldReplay Float :=
  { world := ⟨⟨"m", "e", "r", "t", "k"⟩, transitions, true⟩, signature := ⟨"m", "e", "r", "t", "k"⟩
    legal := {"a"} }

/-- The calls that submit action `a` with input `i` and settle it. -/
def submitCalls : List ReplayCall :=
  [.commitSlots ["a"], .openBatch (.ofList [("a", "i")]), .settleStep "a" false]

/-- The calls on a tape, and what they leave. -/
def submitted (transitions : List (TapeTransition Float)) : List ReplayEntry × ReplayState :=
  exec (ReplayCall.act .ascii id (replayOf transitions)) {} submitCalls

/-- The call that closes the batch. -/
def closing (transitions : List (TapeTransition Float)) : ReplayEntry :=
  Entry.perform (ReplayCall.act .ascii id (replayOf transitions)) (submitted transitions).2
    .closeBatch

theorem run_closing (transitions : List (TapeTransition Float)) :
    Run (ReplayCall.act .ascii id (replayOf transitions)) {}
      ((submitted transitions).1 ++ [closing transitions]) (closing transitions).after :=
  (run_exec _ _ submitCalls).snoc .closeBatch

/-- On a tape with one transition the result of its input becomes visible, lawfully. -/
theorem lawful_of_run_closing :
    Lawful (replayOf [recorded "i" "r"]) (submitted [recorded "i" "r"]).1
        (closing [recorded "i" "r"]) ∧
      (closing [recorded "i" "r"]).after.visible.get? "a" = some "r" := by
  refine ⟨lawful_of_run (run_closing [recorded "i" "r"]) ?_, by decide⟩
  rintro e' - actions - action input - ⟨t, ht, -, rfl⟩ t' ht'
  have hmem := List.mem_reverse.mp (List.mem_of_find?_eq_some ht')
  rw [List.mem_singleton.mp hmem, List.mem_singleton.mp ht]

/-- **The result of another input becomes visible**, when the last transition of the action has
another input than the one submitted. -/
theorem not_lawful :
    ¬∀ (P : Primitives) (reprText : String → String) (W : WorldReplay Float)
      (h : List ReplayEntry) (e : ReplayEntry) (s : ReplayState),
      Run (ReplayCall.act P reprText W) {} (h ++ [e]) s → Lawful W h e := by
  intro hclaim
  have hlawful := hclaim .ascii id _ _ _ _ (run_closing [recorded "i" "r", recorded "j" "other"])
  have hbefore : (closing [recorded "i" "r", recorded "j" "other"]).before.visible.get? "a" =
      none := by decide
  have hafter : (closing [recorded "i" "r", recorded "j" "other"]).after.visible.get? "a" =
      some "other" := by decide
  have hreveals : Reveals (closing [recorded "i" "r", recorded "j" "other"]) "a" "other" := by
    refine ((hlawful.visible "a" "other").mp hafter).resolve_left fun hold => ?_
    rw [hbefore] at hold
    cases hold
  obtain ⟨h₁, o, actions, ⟨h₂, hsplit, ⟨hop, -⟩, -⟩, -, -, input, t, hinput,
    ⟨ht, -, hdigest, -⟩, hresult⟩ := hlawful.batch "a" "other" hreveals
  have hmem : o.op ∈ submitCalls := by
    rw [← map_op_exec (ReplayCall.act .ascii id _) {} submitCalls]
    exact List.mem_map_of_mem (hsplit ▸ List.mem_append_right _ List.mem_cons_self)
  rw [hop] at hmem
  have hactions : actions = .ofList [("a", "i")] := by simpa [submitCalls] using hmem
  rw [hactions] at hinput
  obtain rfl : "i" = input := Option.some.inj hinput
  simp only [replayOf, List.mem_cons, List.not_mem_nil, or_false] at ht
  rcases ht with rfl | rfl
  · exact absurd hresult (by decide)
  · exact absurd hdigest (by decide)

end Improvement

end CyranoAgent
