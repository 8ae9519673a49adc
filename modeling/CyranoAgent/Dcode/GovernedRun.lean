import CyranoAgent.Contracts.PlainPrinting
import CyranoAgent.Dcode.TaskRecall
import CyranoAgent.Kernel.Approvals

/-!
# Governed runs, up to the approval

`runGovernedWork` is `run_governed_work` up to the decision of the approval desk: it recalls the
records of the task, projects their obligations, attaches them to the plan, seals the subject,
validates the plan and asks for approval. The permit, the context binding and the attempts come
after it, and keep the projection and the recall evidence as they are.

What the callbacks of a run answer, and what its clock shows, are parameters: one reading for each
place where the code looks at the clock.
-/

namespace CyranoAgent

open Lib Lib.Action Memory Kernel Planning

namespace Dcode

/-- `GovernedRunConfig`, as far as it is read before an approval. -/
structure GovernedRunConfig where
  plan : GovernedWorkPlan
  scopeId : String
  requirementsDoc : PyMapping
  sourceSnapshot : PyMapping
  scope : List (String × String)
  knownRecipes : List String := []
  knownInterfaces : List (String × String) := []
  obligationTargets : Dict String (List String) := ∅
  epochId : Option String := none
  permitTtl : ℤ := 3600
  recallLimit : ℤ := 10
  runId : String := "run"

/-- `MemoryGate`. The registry is its digests by checker id. -/
structure MemoryGate where
  records : List MemoryRecord := []
  ruleBodies : Dict String ByteArray := ∅
  availableSourceDigests : List String
  registry : Dict String String
  isCurrent : String → ℤ → Bool
  memoryView : Option MemoryView := none
  liveView : Option (Option MemoryView) := none
  recallTask : Option (RecallContext → Except Failure RecallOutcome) := none
  admittedKinds : List String := []

/-- `ApprovalGate`, as far as it is read before an approval. -/
structure ApprovalGate where
  audience : String
  decide : Option (DisplayRecord → String) := none

/-- What the clock shows, where a run reads it before an approval. -/
structure Readings where
  recalled : ℤ
  projected : ℤ
  presented : ℤ
  submitted : ℤ

/-- `GovernedRunEvidence`, as far as a refusal fills it. -/
structure GovernedRunEvidence where
  refusalCode : Option String
  subjectDigest : String := ""
  requirementsDigest : String := ""
  workPlanDigest : String := ""
  obligations : List RuleObligation := []
  excluded : List (String × String) := []
  attached : List (String × String) := []
  unattached : List String := []
  checkReport : Option PlanCheckReport := none
  recallEvidence : Option RecallEvidence := none
  deriving DecidableEq

/-- What a run has sealed and checked before it asks for approval. -/
structure PreparedRun where
  projection : ObligationProjection
  plan : GovernedWorkPlan
  attached : List (String × String)
  requirementsDoc : PyMapping
  subject : PlanReviewSubject
  subjectDigest : String
  checkReport : PlanCheckReport
  recallEvidence : Option RecallEvidence

/-- A run is refused, or goes on with a value. -/
inductive Proceeding (α : Type)
  | refused (evidence : GovernedRunEvidence)
  | goesOn (value : α)

/-- The run goes on. -/
def Proceeding.GoesOn {α : Type} : Except Failure (Proceeding α) → Prop
  | .ok (.goesOn _) => True
  | _ => False

instance {α : Type} (outcome : Except Failure (Proceeding α)) :
    Decidable (Proceeding.GoesOn outcome) :=
  match outcome with
  | .ok (.goesOn _) => .isTrue trivial
  | .ok (.refused _) => .isFalse id
  | .error _ => .isFalse id

theorem Proceeding.goesOn_iff {α : Type} {outcome : Except Failure (Proceeding α)} :
    Proceeding.GoesOn outcome ↔ ∃ value, outcome = .ok (.goesOn value) := by
  rcases outcome with e | ⟨evidence⟩ | ⟨value⟩ <;> simp [GoesOn]

/-- What an approved run goes on with. -/
structure ApprovedRun extends PreparedRun where
  record : DisplayRecord
  outcome : DecisionResult

/-- What a run has recalled, or was given. -/
structure RunInputs where
  records : List MemoryRecord
  ruleBodies : Dict String ByteArray
  view : Option MemoryView
  evidence : Option RecallEvidence

section

variable (P : Primitives) (reprText : String → String) (limit : ℕ) (config : GovernedRunConfig)
  (memory : MemoryGate) (approval : ApprovalGate) (now : Readings)

/-- `recall_context`. -/
def recallContext : RecallContext where
  taskId := config.runId
  scopeId := config.scopeId
  pathHints := sortedSet (config.plan.units.flatMap (·.writePaths))
  queryTerms := none
  limit := config.recallLimit
  now := now.recalled
  epoch := config.epochId
  sourceDigests := memory.availableSourceDigests

/-- The records, the bodies, the view and the evidence that the run starts from. -/
def runInputs : Except Failure RunInputs :=
  match memory.recallTask with
  | none => .ok ⟨memory.records, memory.ruleBodies, memory.memoryView, none⟩
  | some recallTask =>
    (recallTask (recallContext config memory now)).map fun outcome =>
      ⟨outcome.records, outcome.ruleBodies, some outcome.memoryView, some outcome.evidence⟩

/-- What the obligations are projected under. -/
def projectionContext (inputs : RunInputs) : ProjectionContext where
  scopeId := config.scopeId
  now := now.projected
  availableSourceDigests := memory.availableSourceDigests
  ruleBodies := inputs.ruleBodies
  memoryView := inputs.view
  checkerDigests := memory.registry
  admittedKinds := memory.admittedKinds

/-- The registries that the plan of a run is validated under: checker ids double as recipes. -/
def runRegistries : Registries where
  knownRecipes := some (memory.registry.keys ++ config.knownRecipes)
  knownInterfaces := config.knownInterfaces

/-- What the desk shows. -/
def shownText (prepared : PreparedRun) : String :=
  PlainJson.sortedObject [("plan_id", PlainJson.text prepared.plan.planId),
    ("revision", toString prepared.plan.revision),
    ("subject_digest", PlainJson.text prepared.subjectDigest),
    ("requirements_digest", PlainJson.text prepared.subject.requirementsDigest),
    ("work_plan_digest", PlainJson.text prepared.subject.workPlanDigest),
    ("source_snapshot_digest", PlainJson.text prepared.subject.sourceSnapshotDigest),
    ("obligations", PlainJson.list ((sortedStrings
      (prepared.projection.obligations.map (·.obligationId))).map PlainJson.text))]

/-- `_refusal`, of a run that has sealed its subject. -/
def refusal (code : String) (prepared : PreparedRun) : GovernedRunEvidence where
  refusalCode := some code
  subjectDigest := prepared.subjectDigest
  requirementsDigest := prepared.subject.requirementsDigest
  workPlanDigest := prepared.subject.workPlanDigest
  obligations := prepared.projection.obligations
  excluded := prepared.projection.excluded
  attached := prepared.attached
  checkReport := some prepared.checkReport
  recallEvidence := prepared.recallEvidence

/-- The sealing of the subject, the validation of the plan and the currency of the obligations, once
these are bound. -/
def sealRun (inputs : RunInputs) (projection : ObligationProjection)
    (attachment : ObligationAttachment) : Except Failure (Proceeding PreparedRun) :=
  if (config.requirementsDoc.get? "obligations").isSome then
    .ok (.refused {
      refusalCode := some "INPUT_INVALID", obligations := projection.obligations
      excluded := projection.excluded, recallEvidence := inputs.evidence })
  else do
    let requirementsDoc :=
      config.requirementsDoc ++ obligationsRequirementsDoc projection.obligations
    let subject ← buildSubject P attachment.plan requirementsDoc config.sourceSnapshot config.scope
      "subject"
    let subjectDigest ← subjectDigest P subject
    let checkReport ← validatePlan reprText attachment.plan (runRegistries config memory) limit
    let prepared : PreparedRun := {
      projection, plan := attachment.plan, attached := attachment.attached, requirementsDoc, subject
      subjectDigest, checkReport, recallEvidence := inputs.evidence }
    if checkReport.readyForReview = false then .ok (.refused (refusal "PLAN_INVALID" prepared))
    else
      match assertObligationsCurrent memory.isCurrent (memory.liveView.getD inputs.view)
          projection.obligations with
      | .error (.cyrano code _) => .ok (.refused (refusal code prepared))
      | .error e => .error e
      | .ok () => .ok (.goesOn prepared)

/-- The run before it asks for approval. -/
def prepareRun : Except Failure (Proceeding PreparedRun) :=
  match runInputs config memory now with
  | .error (.cyrano code _) => .ok (.refused { refusalCode := some code })
  | .error e => .error e
  | .ok inputs => do
    let projection ← projectObligations P reprText (projectionContext config memory now inputs)
      inputs.records
    let attachment := attachObligations config.plan projection.obligations config.obligationTargets
    let missing := missingObligations attachment.plan projection.obligations
    if attachment.unattached ≠ [] ∨ missing ≠ [] then
      .ok (.refused {
        refusalCode := some "UNBOUND_OBLIGATION", obligations := projection.obligations
        excluded := projection.excluded, attached := attachment.attached
        unattached := sortedSet ((attachment.unattached ++ missing).map (·.obligationId))
        recallEvidence := inputs.evidence })
    else sealRun P reprText limit config memory inputs projection attachment

/-- The approval boundary: the subject is shown, opened and decided on. -/
def askApproval (subjectDigest text : String) :
    ApprovalDesk.DeskOp (DisplayRecord × DecisionResult) := do
  let record ← ApprovalDesk.present P subjectDigest text approval.audience
    (config.runId ++ "-nonce") (now.presented + config.permitTtl) "execute" []
  ApprovalDesk.openDisplay record.requestId
  let outcome ← ApprovalDesk.submit P reprText {
    requestId := record.requestId
    actor := approval.audience
    nonce := record.nonce
    decision := match approval.decide with
      | some choose => choose record
      | none => "approve"
    shownText := text
    displayRevision := record.displayRevision
    clientEventId := config.runId ++ "-decision"
    now := now.submitted }
  return (record, outcome)

/-- `run_governed_work`, up to the decision of the desk. -/
def runGovernedWork : ApprovalDesk.DeskOp (Proceeding ApprovedRun) := do
  match ← lift (prepareRun P reprText limit config memory now) with
  | .refused evidence => return .refused evidence
  | .goesOn prepared => do
    let (record, outcome) ← askApproval P reprText config approval now prepared.subjectDigest
      (shownText prepared)
    if outcome.status ≠ .approved then return .refused (refusal "APPROVAL_REQUIRED" prepared)
    else return .goesOn { prepared with record, outcome }

end

end Dcode

end CyranoAgent
