import CyranoAgent.Kernel.Transitions
import CyranoAgent.Lib.Run
import CyranoAgent.Planning.Changes
import CyranoAgent.Planning.Decisions

/-!
# The plan service

`PlanService` moves a plan through its lifecycle: a submission that passes validation commits
the plan and seals its subject, a review round brings it before a human, a decision request is
presented and answered, and a permit makes it executable. What `validate_plan` reports comes
with the submission; the nonce of a request comes with its presentation.

`ServiceCall` lists the calls, with those of the reviewer on the board and of the clock, and
`ServiceCall.act` performs one.
-/

namespace CyranoAgent

open Lib Lib.Action Planning

/-- `PlanService`. -/
structure PlanService where
  revisions : PlanRevisions := {}
  board : ReviewBoard := {}
  desk : DecisionDesk := {}
  states : String → Option PlanState := fun _ => none
  subjects : String → Option PlanReviewSubject := fun _ => none

/-- The arguments of `submit_plan`, with the verdict of the static validation. -/
structure Submission where
  plan : GovernedWorkPlan
  requirementsDoc : PyMapping
  sourceSnapshot : PyMapping
  scope : List (String × String)
  readyForReview : Bool

/-- `ExecutionPermit`, without the units it covers. -/
structure ExecutionPermit where
  permitId : String
  subjectDigest : String
  sourceSnapshotDigest : String
  generation : ℤ

namespace PlanService

/-- What a call on the service is. -/
abbrev ServiceOp (α : Type) := Lib.Action PlanService Failure α

/-- Act on the revisions. -/
def onRevisions {α : Type} : Lib.Action PlanRevisions Failure α → ServiceOp α :=
  zoom (·.revisions) fun revisions S => { S with revisions }

/-- Act on the review board. -/
def onBoard {α : Type} : Lib.Action ReviewBoard Failure α → ServiceOp α :=
  zoom (·.board) fun board S => { S with board }

/-- Act on the decision desk. -/
def onDesk {α : Type} : Lib.Action DecisionDesk Failure α → ServiceOp α :=
  zoom (·.desk) fun desk S => { S with desk }

/-- `self._states[plan_id] = state`. -/
def setState (planId : String) (state : PlanState) : ServiceOp Unit :=
  modify fun S => { S with states := Function.update S.states planId (some state) }

/-- `self._states.get(plan_id, "draft")`. -/
def state (S : PlanService) (planId : String) : PlanState := (S.states planId).getD .draft

section

variable (P : Primitives) (reprText : String → String)

/-- `submit_plan`. -/
def submitPlan (s : Submission) : ServiceOp PlanReviewSubject := do
  let subject ← lift (buildSubject P s.plan s.requirementsDoc s.sourceSnapshot s.scope "subject")
  if s.readyForReview then do
    let S ← get
    let head := S.revisions.head s.plan.planId
    let _ ← onRevisions (PlanRevisions.commit s.plan ((head.map (·.revision)).getD (-1)))
    setState s.plan.planId .staticValidated
    modify fun S => { S with
      subjects := Function.update S.subjects s.plan.planId (some subject) }
    return subject
  else do
    setState s.plan.planId .rejected
    return subject

/-- `request_review`: the place of the round on the board. -/
def requestReview (subject : PlanReviewSubject) (binding : ReviewerBinding) : ServiceOp ℕ := do
  let S ← get
  let _ ← lift (planTransition (S.state subject.planId) .inReview false true false)
  setState subject.planId .inReview
  let subjectDigest ← lift (subjectDigest P subject)
  onBoard (ReviewBoard.requestReview reprText subjectDigest binding ["subject_digest"])

/-- The plan's move after a review round. -/
def moveReviewed (record : ℕ) (planId : String) (current : PlanState) :
    ReviewOutcome → ServiceOp Unit
  | .reviewed => do
    let S ← get
    let reviewed := (S.board.reviews[record]?).any fun r => S.board.isReviewed r.subjectDigest
    let _ ← lift (planTransition current .humanReview reviewed false false)
    setState planId .humanReview
  | .changesRequired => do
    let _ ← lift (planTransition current .amendmentRequested false true false)
    setState planId .amendmentRequested
  | _ => pure ()

/-- `finish_review`. -/
def finishReview (record : ℕ) (planId : String) : ServiceOp ReviewOutcome := do
  let outcome ← onBoard (ReviewBoard.finishReview record true)
  let S ← get
  match S.states planId with
  | none => throw (.python "KeyError" (reprText planId))
  | some current => do
    moveReviewed record planId current outcome
    return outcome

/-- The id of the decision on a subject. -/
def decisionId (purpose : String) (subject : PlanReviewSubject) : String :=
  purpose ++ "-" ++ subject.planId ++ "-r" ++ toString subject.revision

/-- `present_decision`, with the nonce that is drawn. -/
def presentDecision (nonce : String) (subject : PlanReviewSubject) (purpose displayDigest : String)
    (ttl : ℤ) : ServiceOp DecisionRequest := do
  let subjectDigest ← lift (subjectDigest P subject)
  let S ← get
  lift (S.board.requireReviewed reprText subjectDigest)
  let scope := (subject.scope.find? fun entry => entry.1 = "scope_id").map (·.2)
  onDesk (DecisionDesk.present reprText nonce (decisionId purpose subject)
    (scope.getD "scope") purpose subjectDigest displayDigest subject.revision ttl none)

/-- The plan state that a settled decision leads to. -/
def moves : DecisionState → Option PlanState
  | .approved => some .approved
  | .rejected => some .rejected
  | .deferred => some .deferred
  | .cancelled => some .cancelled
  | .amendRequested => some .amendmentRequested
  | .pending | .expired => none

/-- The plan states that a decision moves a plan from. -/
def decisionStates : List PlanState := [.humanReview, .deferred, .approved]

/-- The plan's move after a decision. -/
def moveDecided (planId : String) (outcome : DecisionOutcome) : ServiceOp Unit := do
  let S ← get
  match moves outcome.state with
  | none => pure ()
  | some target =>
    if S.state planId ∈ decisionStates then do
      let _ ← lift (planTransition (S.state planId) target false true false)
      setState planId target
    else pure ()

/-- `record_decision`. -/
def recordDecision (planId : String) (r : Response) : ServiceOp DecisionOutcome := do
  let outcome ← onDesk (DecisionDesk.recordResponse r)
  if outcome.purpose = "plan_approval" then do
    moveDecided planId outcome
    return outcome
  else return outcome

/-- `make_permit`. -/
def makePermit (desk : DecisionDesk) (decisionId subjectDigest sourceSnapshotDigest : String)
    (generation : ℤ) : Except Failure ExecutionPermit :=
  match desk.load decisionId with
  | none => .error (.cyrano "APPROVAL_REQUIRED" "no approved execution decision")
  | some request =>
    if request.state ≠ .approved then
      .error (.cyrano "APPROVAL_REQUIRED" "no approved execution decision")
    else if request.purpose ≠ "execution_permission" then
      .error (.cyrano "APPROVAL_REQUIRED"
        ("purpose " ++ reprText request.purpose ++ " is not execution permission"))
    else if request.subjectDigest ≠ subjectDigest then
      .error (.cyrano "PERMIT_STALE" "decision binds a different subject")
    else .ok ⟨"permit-" ++ decisionId, subjectDigest, sourceSnapshotDigest, generation⟩

/-- `issue_permit`. -/
def issuePermit (subject : PlanReviewSubject) (decisionId sourceSnapshotDigest : String)
    (generation : ℤ) : ServiceOp ExecutionPermit := do
  let S ← get
  raiseIf ((S.revisions.head subject.planId).map (·.revision) ≠ some subject.revision)
    (.cyrano "PERMIT_STALE" "permit needs the committed subject")
  let subjectDigest ← lift (subjectDigest P subject)
  let permit ← lift (makePermit reprText S.desk decisionId subjectDigest sourceSnapshotDigest
    generation)
  let _ ← lift (planTransition (S.state subject.planId) .executable false false true)
  setState subject.planId .executable
  return permit

end

end PlanService

/-! ### The service as a machine -/

/-- The calls of the service, of the reviewer, and of the decision clock. -/
inductive ServiceCall
  | submitPlan (s : Submission)
  | requestReview (subject : PlanReviewSubject) (binding : ReviewerBinding)
  | submitFinding (record : ℕ) (finding : ReviewFinding)
  | resolveFinding (findingId resolvingRunId decision newSubjectDigest : String)
      (evidenceIds : List String) (testPlanChanged : Bool)
  | finishReview (record : ℕ) (planId : String)
  | presentDecision (nonce : String) (subject : PlanReviewSubject) (purpose displayDigest : String)
      (ttl : ℤ)
  | recordDecision (planId : String) (r : Response)
  | issuePermit (subject : PlanReviewSubject) (decisionId sourceSnapshotDigest : String)
      (generation : ℤ)
  | setClock (now : ℤ)
  | expirePending

/-- What a call returns. -/
inductive ServiceReply
  | done
  | subject (s : PlanReviewSubject)
  | record (place : ℕ)
  | finding (f : ReviewFinding)
  | outcome (o : ReviewOutcome)
  | request (r : DecisionRequest)
  | decision (o : DecisionOutcome)
  | permit (p : ExecutionPermit)
  | expired (decisionIds : List String)

open PlanService in
/-- The action of a call. -/
def ServiceCall.op (P : Primitives) (reprText : String → String) :
    ServiceCall → ServiceOp ServiceReply
  | .submitPlan s => .subject <$> PlanService.submitPlan P s
  | .requestReview subject binding =>
    .record <$> PlanService.requestReview P reprText subject binding
  | .submitFinding record finding => .finding <$> onBoard (ReviewBoard.submitFinding record finding)
  | .resolveFinding findingId resolvingRunId decision newSubjectDigest evidenceIds
      testPlanChanged =>
    .finding <$> onBoard (ReviewBoard.resolveFinding reprText findingId resolvingRunId decision
      newSubjectDigest evidenceIds testPlanChanged)
  | .finishReview record planId => .outcome <$> PlanService.finishReview reprText record planId
  | .presentDecision nonce subject purpose displayDigest ttl =>
    .request <$> PlanService.presentDecision P reprText nonce subject purpose displayDigest ttl
  | .recordDecision planId r => .decision <$> PlanService.recordDecision planId r
  | .issuePermit subject decisionId sourceSnapshotDigest generation =>
    .permit <$> PlanService.issuePermit P reprText subject decisionId sourceSnapshotDigest
      generation
  | .setClock now => (fun _ => .done) <$> onDesk (DecisionDesk.setClock now)
  | .expirePending => .expired <$> onDesk DecisionDesk.expirePending

/-- Perform a call. -/
def ServiceCall.act (P : Primitives) (reprText : String → String) (call : ServiceCall)
    (S : PlanService) : Except Failure ServiceReply × PlanService :=
  (call.op P reprText).run S

/-- One call of a history of the service. -/
abbrev ServiceEntry := Entry PlanService ServiceCall (Except Failure ServiceReply)

/-- The calls of `h` lead from a fresh service to `S`. -/
abbrev ServiceHistory (P : Primitives) (reprText : String → String) (h : List ServiceEntry)
    (S : PlanService) : Prop :=
  Run (ServiceCall.act P reprText) {} h S

end CyranoAgent
