import CyranoAgent.Contracts.Evaluation
import CyranoAgent.Workflow.Service

/-!
# What a decision does to a plan

`record_decision` settles the request on the desk first and moves the plan second. Two facts
about it are settled here: when a refused move undoes the settlement
(`recordDecision_atomic_iff`), and when the plan that becomes approved is the one that the
decision was about (`approvals_bound_iff`).
-/

namespace CyranoAgent

open Lib Lib.Action Planning

namespace PlanService

/-! ### The move after a decision -/

/-- A decision is never execution permission. -/
theorem moves_ne_executable {state : DecisionState} {target : PlanState}
    (h : moves state = some target) : target ≠ .executable := by
  rintro rfl
  cases state <;> cases h

/-- A response leads the plan somewhere. -/
theorem moves_responseState (response : String) :
    ∃ target, moves (responseState response) = some target := by
  unfold responseState
  split <;> exact ⟨_, rfl⟩

/-- No response leaves its request pending. -/
theorem responseState_ne_pending (response : String) : responseState response ≠ .pending := by
  intro h
  obtain ⟨target, htarget⟩ := moves_responseState response
  rw [h] at htarget
  cases htarget

/-- A decision that leads nowhere leaves the service alone. -/
theorem run_moveDecided_none {outcome : DecisionOutcome} (h : moves outcome.state = none)
    (planId : String) (S : PlanService) : (moveDecided planId outcome).run S = (.ok (), S) := by
  rw [moveDecided, run_bind_ok (run_get S), h]
  rfl

/-- A decision that leads to a state: the plan goes there along an arrow, or the move is refused
and leaves the service alone. -/
theorem run_moveDecided_some {outcome : DecisionOutcome} {target : PlanState}
    (h : moves outcome.state = some target) (planId : String) (S : PlanService) :
    (moveDecided planId outcome).run S =
      if S.state planId ∈ decisionStates then
        if target ∈ planTransitions (S.state planId) then
          (.ok (), { S with states := Function.update S.states planId (some target) })
        else (.error (.cyrano "INVALID_TRANSITION"
          ((S.state planId).text ++ " -> " ++ target.text)), S)
      else (.ok (), S) := by
  rw [moveDecided, run_bind_ok (run_get S), h]
  dsimp only
  by_cases hstate : S.state planId ∈ decisionStates
  · have hreview : S.state planId ≠ .inReview := by
      intro heq
      rw [heq] at hstate
      exact absurd hstate (by decide)
    rw [if_pos hstate, if_pos hstate, planTransition_decision hreview (moves_ne_executable h)]
    by_cases harrow : target ∈ planTransitions (S.state planId)
    · rw [if_pos harrow, if_pos harrow]
      rfl
    · rw [if_neg harrow, if_neg harrow]
      rfl
  · rw [if_neg hstate, if_neg hstate]
    rfl

/-- A move that raises was refused, and leaves the service alone. -/
theorem error_of_moveDecided {planId : String} {outcome : DecisionOutcome} {S S' : PlanService}
    {e : Failure} (h : (moveDecided planId outcome).run S = (.error e, S')) :
    S' = S ∧ S.state planId ∈ decisionStates ∧
      ∃ target, moves outcome.state = some target ∧ target ∉ planTransitions (S.state planId) := by
  rcases hmoves : moves outcome.state with _ | target
  · rw [run_moveDecided_none hmoves] at h
    cases h
  · rw [run_moveDecided_some hmoves] at h
    by_cases hstate : S.state planId ∈ decisionStates
    · rw [if_pos hstate] at h
      by_cases harrow : target ∈ planTransitions (S.state planId)
      · rw [if_pos harrow] at h
        cases h
      · rw [if_neg harrow] at h
        exact ⟨(Prod.mk.inj h).2.symm, hstate, target, rfl, harrow⟩
    · rw [if_neg hstate] at h
      cases h

/-! ### Whether a refused move undoes the settlement -/

/-- The response settles a plan approval, and the plan is in a state that decisions move plans
from, but not to where this one leads. -/
def Refused (S : PlanService) (planId : String) (r : Response) : Prop :=
  S.state planId ∈ decisionStates ∧
    (∃ request, S.desk.Settles r request ∧ request.purpose = "plan_approval") ∧
    ∃ target, moves (responseState r.response) = some target ∧
      target ∉ planTransitions (S.state planId)

/-- What is left of `record_decision` after the desk has answered. -/
theorem run_recordDecision {planId : String} {r : Response} {S : PlanService}
    {outcome : DecisionOutcome} {desk : DecisionDesk}
    (h : (DecisionDesk.recordResponse r).run S.desk = (.ok outcome, desk)) :
    (recordDecision planId r).run S =
      if outcome.purpose = "plan_approval" then
        (moveDecided planId outcome >>= fun _ => pure outcome : ServiceOp _).run
          { S with desk }
      else (.ok outcome, { S with desk }) := by
  have hdesk : (onDesk (DecisionDesk.recordResponse r)).run S = (.ok outcome, { S with desk }) := by
    rw [onDesk, run_zoom, h]
  rw [recordDecision, run_bind_ok hdesk, run_ite]
  rfl

/-- A refused move comes after the settlement, which stays. -/
theorem run_recordDecision_refused {S : PlanService} {planId : String} {r : Response}
    (h : S.Refused planId r) :
    ∃ e, (recordDecision planId r).run S = (.error e, { S with
      desk := S.desk.settled r.decisionId (responseState r.response) r.approvedUnits }) := by
  obtain ⟨hstate, ⟨request, hsettles, hpurpose⟩, target, htarget, harrow⟩ := h
  obtain ⟨outcome, hrun, hout, hsame, -⟩ := DecisionDesk.recordResponse_of_settles hsettles
  rw [run_recordDecision hrun, if_pos (hsame.trans hpurpose)]
  rw [← hout] at htarget
  exact ⟨_, run_bind_error ((run_moveDecided_some htarget planId _).trans
    ((if_pos hstate).trans (if_neg harrow)))⟩

/-- What follows an answered request on the desk raises only when the plan's move is refused. -/
theorem error_of_recordDecision {planId : String} {r : Response} {S S' : PlanService}
    {outcome : DecisionOutcome} {desk : DecisionDesk} {e : Failure}
    (hrun : (DecisionDesk.recordResponse r).run S.desk = (.ok outcome, desk))
    (h : (recordDecision planId r).run S = (.error e, S')) :
    S' = { S with desk } ∧ outcome.purpose = "plan_approval" ∧
      S.state planId ∈ decisionStates ∧
      ∃ target, moves outcome.state = some target ∧ target ∉ planTransitions (S.state planId) := by
  rw [run_recordDecision hrun] at h
  by_cases hpurpose : outcome.purpose = "plan_approval"
  · rw [if_pos hpurpose] at h
    have hmove : (moveDecided planId outcome).run { S with desk } = (.error e, S') :=
      map_eq_error.mp h
    obtain ⟨hsame, hstate, hrefused⟩ := error_of_moveDecided hmove
    exact ⟨hsame, hpurpose, hstate, hrefused⟩
  · rw [if_neg hpurpose] at h
    cases h

/-- **When a decision that raises changes nothing**: always, unless its response settles a plan
approval and leads where the plan cannot go from its state. -/
theorem recordDecision_atomic_iff (S : PlanService) (planId : String) (r : Response) :
    (∀ e S', (recordDecision planId r).run S = (.error e, S') → S' = S) ↔
      ¬S.Refused planId r := by
  constructor
  · intro hatomic hrefused
    obtain ⟨e, hrun⟩ := run_recordDecision_refused hrefused
    obtain ⟨-, ⟨request, hsettles, -⟩, -⟩ := hrefused
    have hdesk := congrArg PlanService.desk (hatomic e _ hrun)
    exact DecisionDesk.settled_ne hsettles _ (responseState_ne_pending r.response) _ hdesk
  · intro hadmitted e S' h
    have hanswer := DecisionDesk.answer_recordResponse S.desk r
    generalize hrun : (DecisionDesk.recordResponse r).run S.desk = result at hanswer
    obtain ⟨answer, desk⟩ := result
    dsimp only at hanswer
    cases hanswer with
    | refused e' =>
      have hdesk : (onDesk (DecisionDesk.recordResponse r)).run S = (.error e', S) := by
        rw [onDesk, run_zoom, hrun]
      rw [recordDecision, run_bind_error hdesk] at h
      exact (Prod.mk.inj h).2.symm
    | replayed request outcome hload hstate hsame hpurpose hgranted =>
      exact (error_of_recordDecision hrun h).1
    | lapsed request outcome hload hexpired hpurpose hgranted hpending hlate =>
      obtain ⟨-, -, -, target, htarget, -⟩ := error_of_recordDecision hrun h
      rw [hexpired] at htarget
      cases htarget
    | settled request outcome hsettles hstate hpurpose hgranted =>
      obtain ⟨-, happroval, hplan, target, htarget, harrow⟩ := error_of_recordDecision hrun h
      rw [hstate] at htarget
      exact absurd ⟨hplan, ⟨request, hsettles, hpurpose.symm.trans happroval⟩, target, htarget,
        harrow⟩ hadmitted

/-- The responses that a plan cannot follow from its state. -/
example : (decisionStates.map fun state => responses.filter fun response =>
      (moves (responseState response)).any (· ∉ planTransitions state)) =
    [["request_changes"], ["approve", "ask_question", "defer", "reject", "request_changes"],
      ["approve", "ask_question", "defer", "reject"]] := by decide

/-- The submission of a revision of plan `p1`, which has one unit. -/
def planOne (revision : ℤ) : Submission where
  plan := { planId := "p1", revision, requirements := ["R1"], budgetCap := some 100
            units := [{ unitId := "A", requirementIds := ["R1"], acceptanceIds := ["A1"],
                        writePaths := ["f.py"], testRecipe := some "pytest-unit",
                        testOracle := some "exit_code==0", costCap := some 10 }] }
  requirementsDoc := [(.str "R1", .str "add normalize")]
  sourceSnapshot := [(.str "files", .dict [(.str "src/service.py", .str "sha256:x")])]
  scope := [("scope_id", "sc-1")]
  readyForReview := true

/-- The subject of a revision of plan `p1`, from the digest of the plan. -/
def subjectOne (revision : ℤ) (workPlanDigest : String) : PlanReviewSubject where
  subjectId := "subject"
  planId := "p1"
  revision := revision
  scope := [("scope_id", "sc-1")]
  requirementsDigest := "sha256:a3de63fadeb40f47ddd15ffc911a475d3d4bcdbb0d00d87ecc5eaf72305acd2a"
  workPlanDigest := workPlanDigest
  sourceSnapshotDigest := "sha256:5af7763a728c7a6ed4a839d02c285fe70225554de5c39fd07dc6c83d06b5f497"
  testPlanDigest := "sha256:1e11a098782165379d541ce4f1927286aaedb886b000547637b9c1e9dd931c03"
  budgetCap := some 100
  externalEffects := []
  recoveryRef := none

/-- The subject of the first revision. -/
def firstSubject : PlanReviewSubject :=
  subjectOne 0 "sha256:3f628639ddbd3d1b950bc1213c11f4b9fc31a1b1599d11e4fc82b651b573a5be"

/-- The digest of the subject of the first revision. -/
def firstDigest : String :=
  "sha256:d20d3c4214b1174bd4cf8b99d81ecfba14f76ff3b29abb89fed4082710371b61"

theorem buildSubject_first : buildSubject .ascii (planOne 0).plan (planOne 0).requirementsDoc
    (planOne 0).sourceSnapshot (planOne 0).scope "subject" = .ok firstSubject := by
  simp only [buildSubject, digest_ascii]
  decide +kernel

/-- The subject has the revision of its plan. -/
example : firstSubject.revision = (planOne 0).plan.revision := by decide +kernel

theorem subjectDigest_first : subjectDigest .ascii firstSubject = .ok firstDigest := by
  rw [subjectDigest, digest_ascii]
  decide +kernel

/-- A revision is submitted, and its review requested and finished. -/
def reviewed (revision : ℤ) (subject : PlanReviewSubject) (record : ℕ) : List ServiceCall :=
  [.submitPlan (planOne revision),
    .requestReview subject ⟨"rev-1", "auth-1", "m1", "m1", true, true⟩,
    .finishReview record "p1"]

/-- The service with the first revision before a human. -/
def firstReviewed : PlanService where
  revisions := ({} : PlanRevisions).committed (planOne 0).plan
  board := { reviews := [{ subjectDigest := firstDigest, reviewerRunId := "rev-1",
                           verdict := .approve }] }
  states := Function.update (fun _ => none) "p1" (some .humanReview)
  subjects := Function.update (fun _ => none) "p1" (some firstSubject)

theorem history_firstReviewed : ServiceHistory .ascii id
    (exec (ServiceCall.act .ascii id) {} (reviewed 0 firstSubject 0)).1 firstReviewed := by
  have hreached :
      (exec (ServiceCall.act .ascii id) {} (reviewed 0 firstSubject 0)).2 = firstReviewed := by
    simp only [reviewed, exec, ServiceCall.act, ServiceCall.op, submitPlan, requestReview,
      buildSubject_first, subjectDigest_first]
    have hstates (first second third : Option PlanState) :
        Function.update (Function.update (Function.update (fun _ : String => none) "p1" first)
          "p1" second) "p1" third = Function.update (fun _ => none) "p1" third := by
      rw [Function.update_idem, Function.update_idem]
    exact congrArg (fun states => { firstReviewed with states }) (hstates _ _ _)
  rw [← hreached]
  exact run_exec _ _ _

/-- The approval of the first revision is presented. -/
def presentFirst : ServiceCall :=
  .presentDecision "n" firstSubject "plan_approval" "display-1" 600

/-- A response to the approval of the first revision. -/
def firstAnswer (response : String) : Response where
  decisionId := "plan_approval-p1-r0"
  response := response
  nonce := "n"
  subjectDigest := firstDigest
  displayDigest := "display-1"
  expectedRevision := 0

/-- The approval of the first revision, as it is presented. -/
def firstRequest : DecisionRequest where
  decisionId := "plan_approval-p1-r0"
  scope := "sc-1"
  purpose := "plan_approval"
  subjectDigest := firstDigest
  displayDigest := "display-1"
  requestRevision := 0
  nonce := "n"
  expiresAt := 600
  allowedResponses := responses

/-- The service with the approval of the first revision presented. -/
def firstPresented : PlanService := { firstReviewed with desk := { requests := [firstRequest] } }

theorem history_firstPresented : ServiceHistory .ascii id
    ((exec (ServiceCall.act .ascii id) {} (reviewed 0 firstSubject 0)).1 ++
      [Entry.perform (ServiceCall.act .ascii id) firstReviewed presentFirst]) firstPresented := by
  have hreviewed : firstReviewed.board.requireReviewed id firstDigest = .ok () := by
    decide
  have hpresented : (presentFirst.act .ascii id firstReviewed).2 = firstPresented := by
    rw [presentFirst, ServiceCall.act, ServiceCall.op, run_map, presentDecision,
      subjectDigest_first, run_bind_ok (run_lift_ok _ _), run_bind_ok (run_get _), hreviewed,
      run_bind_ok (run_lift_ok _ _), onDesk, run_zoom]
    refine congrArg (fun desk => { firstReviewed with desk }) ?_
    decide +kernel
  rw [← hpresented]
  exact history_firstReviewed.snoc presentFirst

/-- Any of the responses settles the approval of the first revision. -/
theorem settles_firstRequest {response : String} (hresponse : response ∈ responses) :
    firstPresented.desk.Settles (firstAnswer response) firstRequest :=
  ⟨rfl, rfl, by decide, hresponse, rfl, rfl, rfl, rfl⟩

/-- **A decision that raises is settled all the same**: changes are requested of a plan that is
before a human. -/
theorem raised_decision_settled :
    ¬∀ (P : Primitives) (reprText : String → String) (h : List ServiceEntry) (S : PlanService),
      ServiceHistory P reprText h S → ∀ planId r e S',
        (recordDecision planId r).run S = (.error e, S') → S' = S := by
  intro hclaim
  have hsettles : firstPresented.desk.Settles (firstAnswer "request_changes") firstRequest :=
    settles_firstRequest (by decide)
  have hrefused : firstPresented.Refused "p1" (firstAnswer "request_changes") :=
    ⟨by decide, ⟨firstRequest, hsettles, rfl⟩, .amendmentRequested, rfl, by decide⟩
  obtain ⟨e, hraised⟩ := run_recordDecision_refused hrefused
  have hsame := hclaim _ _ _ _ history_firstPresented _ _ _ _ hraised
  have hdesk := congrArg PlanService.desk hsame
  exact DecisionDesk.settled_ne hsettles _ (responseState_ne_pending "request_changes") _ hdesk

/-- A single response approves. -/
example : responses.filter (fun response => responseState response = .approved) = ["approve"] := by
  decide +kernel

/-! ### The subject that an approval is about -/

section

variable (P : Primitives)

/-- The subject of the plan's committed head revision. -/
structure Current (S : PlanService) (planId : String) (subject : PlanReviewSubject) : Prop where
  held : S.subjects planId = some subject
  built : ∃ s : Submission, S.revisions.head planId = some s.plan ∧
    buildSubject P s.plan s.requirementsDoc s.sourceSnapshot s.scope "subject" = .ok subject

/-- The call makes the plan approved. -/
def Approves (e : ServiceEntry) (planId : String) : Prop :=
  e.before.state planId ≠ .approved ∧ e.after.state planId = .approved

/-- The call answers a plan approval that is approved and bound to the plan's current subject. -/
def Licensed (e : ServiceEntry) (planId : String) : Prop :=
  ∃ r request subject, e.op = .recordDecision planId r ∧
    e.after.desk.load r.decisionId = some request ∧ request.purpose = "plan_approval" ∧
    request.state = .approved ∧ Current P e.after planId subject ∧
    subjectDigest P subject = .ok request.subjectDigest

/-- The response approves a plan approval, or repeats one that was approved before. -/
def Approving (S : PlanService) (r : Response) (request : DecisionRequest) : Prop :=
  S.desk.load r.decisionId = some request ∧ request.purpose = "plan_approval" ∧
    (request.state = .approved ∨ S.desk.Settles r request ∧ r.response = "approve")

/-- The request is bound to the digest of the plan's subject. -/
def BoundTo (S : PlanService) (planId : String) (request : DecisionRequest) : Prop :=
  ∃ subject, S.subjects planId = some subject ∧
    subjectDigest P subject = .ok request.subjectDigest

/-- The call answers, for a plan before a human, a plan approval bound to another subject. -/
def Misbound (e : ServiceEntry) : Prop :=
  ∃ planId r request, e.op = .recordDecision planId r ∧
    e.before.state planId = .humanReview ∧ e.before.Approving r request ∧
    ¬e.before.BoundTo P planId request

/-! ### How a plan becomes approved -/

/-- Only an approved decision leads to approval. -/
theorem moves_eq_approved {state : DecisionState} :
    moves state = some .approved ↔ state = .approved := by
  cases state <;> simp [moves]

/-- A decision approves only a plan that is before a human. -/
theorem eq_humanReview {state : PlanState} (hstate : state ∈ decisionStates)
    (harrow : .approved ∈ planTransitions state) : state = .humanReview := by
  simp only [decisionStates, List.mem_cons, List.not_mem_nil, or_false] at hstate
  obtain rfl | rfl | rfl := hstate
  · rfl
  · exact absurd harrow (by decide)
  · exact absurd harrow (by decide)

/-- The state of a plan after a move of it or of another plan. -/
theorem state_moved {S S' : PlanService} {planId : String} {target : PlanState}
    (h : S'.states = Function.update S.states planId (some target)) (planId' : String) :
    S'.state planId' = if planId' = planId then target else S.state planId' := by
  by_cases heq : planId' = planId
  · simp [state, h, heq]
  · simp [state, h, heq]

/-- A decision that makes a plan approved was approved, and found its own plan before a human. -/
theorem approved_of_moveDecided {planId planId' : String} {outcome : DecisionOutcome}
    {S : PlanService} (hbefore : S.state planId' ≠ .approved)
    (hafter : ((moveDecided planId outcome).run S).2.state planId' = .approved) :
    planId' = planId ∧ S.state planId = .humanReview ∧ outcome.state = .approved := by
  rcases hmoves : moves outcome.state with _ | target
  · rw [run_moveDecided_none hmoves] at hafter
    exact absurd hafter hbefore
  · rw [run_moveDecided_some hmoves] at hafter
    by_cases hstate : S.state planId ∈ decisionStates
    · rw [if_pos hstate] at hafter
      by_cases harrow : target ∈ planTransitions (S.state planId)
      · rw [if_pos harrow, state_moved rfl] at hafter
        by_cases heq : planId' = planId
        · rw [if_pos heq] at hafter
          subst hafter
          exact ⟨heq, eq_humanReview hstate harrow, moves_eq_approved.mp hmoves⟩
        · rw [if_neg heq] at hafter
          exact absurd hafter hbefore
      · rw [if_neg harrow] at hafter
        exact absurd hafter hbefore
    · rw [if_neg hstate] at hafter
      exact absurd hafter hbefore

/-- A call of `record_decision` that makes a plan approved names that plan, finds it before a
human, and answers a plan approval that was or is now approved. -/
theorem approved_of_recordDecision {planId planId' : String} {r : Response} {S : PlanService}
    (hbefore : S.state planId' ≠ .approved)
    (hafter : ((recordDecision planId r).run S).2.state planId' = .approved) :
    planId' = planId ∧ S.state planId = .humanReview ∧ ∃ request, S.Approving r request := by
  have hanswer := DecisionDesk.answer_recordResponse S.desk r
  generalize hrun : (DecisionDesk.recordResponse r).run S.desk = result at hanswer
  obtain ⟨answer, desk⟩ := result
  dsimp only at hanswer
  -- once the desk has answered, only the plan's move can approve
  have hmove : ∀ outcome, answer = .ok outcome → planId' = planId ∧
      S.state planId = .humanReview ∧ outcome.state = .approved ∧
        outcome.purpose = "plan_approval" := by
    rintro outcome rfl
    rw [run_recordDecision hrun] at hafter
    by_cases hpurpose : outcome.purpose = "plan_approval"
    · rw [if_pos hpurpose, ← map_eq_then, run_map] at hafter
      have hunmoved : state { S with desk } planId' ≠ .approved := hbefore
      obtain ⟨heq, hreview, happroved⟩ := approved_of_moveDecided hunmoved hafter
      exact ⟨heq, hreview, happroved, hpurpose⟩
    · rw [if_neg hpurpose] at hafter
      exact absurd hafter hbefore
  cases hanswer with
  | refused e =>
    have hdesk : (onDesk (DecisionDesk.recordResponse r)).run S = (.error e, S) := by
      rw [onDesk, run_zoom, hrun]
    rw [recordDecision, run_bind_error hdesk] at hafter
    exact absurd hafter hbefore
  | replayed request outcome hload hstate hsame hpurpose hgranted =>
    obtain ⟨heq, hreview, happroved, happroval⟩ := hmove outcome rfl
    exact ⟨heq, hreview, request, hload, hpurpose.symm.trans happroval,
      .inl (hsame.symm.trans happroved)⟩
  | lapsed request outcome hload hexpired hpurpose hgranted hpending hlate =>
    obtain ⟨-, -, happroved, -⟩ := hmove outcome rfl
    rw [hexpired] at happroved
    cases happroved
  | settled request outcome hsettles hstate hpurpose hgranted =>
    obtain ⟨heq, hreview, happroved, happroval⟩ := hmove outcome rfl
    exact ⟨heq, hreview, request, hsettles.load, hpurpose.symm.trans happroval,
      .inr ⟨hsettles, responseState_eq_approved.mp (hstate.symm.trans happroved)⟩⟩

/-- An approving response approves the plan that it is sent for. -/
theorem run_recordDecision_approving {planId : String} {r : Response} {S : PlanService}
    {request : DecisionRequest} (hstate : S.state planId = .humanReview)
    (h : S.Approving r request) :
    ∃ outcome desk approvedUnits, (recordDecision planId r).run S =
        (.ok outcome, { S with
          desk, states := Function.update S.states planId (some .approved) }) ∧
      desk.load r.decisionId = some { request with state := .approved, approvedUnits } := by
  obtain ⟨hload, hpurpose, hgranted⟩ := h
  -- either way the desk answers that the plan approval is approved
  obtain ⟨outcome, desk, approvedUnits, hrun, happroved, hsame, hdesk⟩ :
      ∃ outcome desk approvedUnits,
        (DecisionDesk.recordResponse r).run S.desk = (.ok outcome, desk) ∧
        outcome.state = .approved ∧ outcome.purpose = request.purpose ∧
        desk.load r.decisionId = some { request with state := .approved, approvedUnits } := by
    rcases hgranted with hreplayed | ⟨hsettles, happrove⟩
    · have hpending : request.state ≠ .pending := by
        rw [hreplayed]
        decide
      obtain ⟨outcome, hrun, hout, hsame⟩ := DecisionDesk.recordResponse_of_replayed hload hpending
      refine ⟨outcome, S.desk, request.approvedUnits, hrun, hout.trans hreplayed, hsame, ?_⟩
      rw [hload, ← hreplayed]
    · obtain ⟨outcome, hrun, hout, hsame, -⟩ := DecisionDesk.recordResponse_of_settles hsettles
      have hgrant : responseState r.response = .approved := responseState_eq_approved.mpr happrove
      rw [hgrant] at hrun hout
      exact ⟨outcome, _, _, hrun, hout, hsame, DecisionDesk.load_settled hload _ _⟩
  have hmoves : moves outcome.state = some .approved := moves_eq_approved.mpr happroved
  have hmove : (moveDecided planId outcome).run { S with desk } = (.ok (), { S with
      desk, states := Function.update S.states planId (some .approved) }) := by
    rw [run_moveDecided_some hmoves]
    have hstate' : state { S with desk } planId = .humanReview := hstate
    rw [hstate']
    rfl
  refine ⟨outcome, desk, approvedUnits, ?_, hdesk⟩
  rw [run_recordDecision hrun, if_pos (hsame.trans hpurpose), run_bind_ok hmove]
  rfl

/-! ### What the calls keep -/

variable (reprText : String → String)

/-- What `submit_plan` leaves: the service as it was, a rejected plan, or a plan committed with
its subject. -/
theorem submitPlan_cases (s : Submission) (S : PlanService) :
    ((submitPlan P s).run S).2 = S ∨
    ((submitPlan P s).run S).2 =
      { S with states := Function.update S.states s.plan.planId (some .rejected) } ∨
    ∃ subject,
      buildSubject P s.plan s.requirementsDoc s.sourceSnapshot s.scope "subject" = .ok subject ∧
      ((submitPlan P s).run S).2 = { S with
        revisions := S.revisions.committed s.plan
        states := Function.update S.states s.plan.planId (some .staticValidated)
        subjects := Function.update S.subjects s.plan.planId (some subject) } := by
  rw [submitPlan]
  rcases hbuild : buildSubject P s.plan s.requirementsDoc s.sourceSnapshot s.scope "subject"
    with e | subject
  · exact .inl rfl
  rw [run_bind_ok (run_lift_ok subject S)]
  by_cases hready : s.readyForReview = true
  · rw [if_pos hready, run_bind_ok (run_get S)]
    dsimp only
    generalize (((S.revisions.head s.plan.planId).map (·.revision)).getD (-1)) = expected
    rcases hcommit : (PlanRevisions.commit s.plan expected).run S.revisions with ⟨e | n, R⟩
    · have hrun : (onRevisions (PlanRevisions.commit s.plan expected)).run S = (.error e, S) := by
        rw [onRevisions, run_zoom, hcommit, PlanRevisions.atomic_commit _ _ hcommit]
      rw [run_bind_error hrun]
      exact .inl rfl
    · have hrun : (onRevisions (PlanRevisions.commit s.plan expected)).run S =
          (.ok n, { S with revisions := S.revisions.committed s.plan }) := by
        rw [onRevisions, run_zoom, hcommit, PlanRevisions.commit_eq_ok hcommit]
      rw [run_bind_ok hrun]
      exact .inr (.inr ⟨subject, rfl, rfl⟩)
  · rw [if_neg hready]
    exact .inr (.inl rfl)

/-- The invariant survives what happens on the board and on the desk, and moves that do not
approve. -/
structure Stable (I : PlanService → Prop) : Prop where
  board : ∀ S board, I S → I { S with board }
  desk : ∀ S desk, I S → I { S with desk }
  moved : ∀ S planId target, target ≠ .approved → I S →
    I { S with states := Function.update S.states planId (some target) }

/-- A call that neither submits a plan nor answers a decision keeps a stable invariant. -/
theorem Stable.preserves {I : PlanService → Prop} (hI : Stable I) {call : ServiceCall}
    (hsubmit : ∀ s, call ≠ .submitPlan s) (hrecord : ∀ planId r, call ≠ .recordDecision planId r) :
    Preserves I (call.op P reprText) := by
  have hboard : ∀ {α : Type} (act : Lib.Action ReviewBoard Failure α), Preserves I (onBoard act) :=
    fun act S hS => hI.board S _ hS
  have hdesk : ∀ {α : Type} (act : Lib.Action DecisionDesk Failure α), Preserves I (onDesk act) :=
    fun act S hS => hI.desk S _ hS
  have hlift : ∀ {α : Type} (x : Except Failure α), Preserves I (lift x : ServiceOp α) :=
    fun x => (readOnly_lift x).preserves
  have hget : Preserves I (get : ServiceOp PlanService) := readOnly_get.preserves
  have hmove : ∀ planId target, target ≠ .approved → Preserves I (setState planId target) :=
    fun planId target htarget S hS => hI.moved S planId target htarget hS
  cases call with
  | submitPlan s => exact absurd rfl (hsubmit s)
  | recordDecision planId r => exact absurd rfl (hrecord planId r)
  | requestReview subject binding =>
    refine Preserves.map (hget.bind fun S => (hlift _).bind fun _ => ?_)
    exact (hmove _ _ (by decide)).bind fun _ => (hlift _).bind fun _ => hboard _
  | submitFinding record finding => exact (hboard _).map
  | resolveFinding findingId resolvingRunId decision newSubjectDigest evidenceIds
      testPlanChanged => exact (hboard _).map
  | finishReview record planId =>
    refine Preserves.map ((hboard _).bind fun outcome => hget.bind fun S => ?_)
    rcases S.states planId with _ | current
    · exact (readOnly_throw _).preserves
    refine Preserves.bind ?_ fun _ => (readOnly_pure _).preserves
    cases outcome with
    | reviewed => exact hget.bind fun S => (hlift _).bind fun _ => hmove _ _ (by decide)
    | changesRequired => exact (hlift _).bind fun _ => hmove _ _ (by decide)
    | deferred => exact (readOnly_pure _).preserves
    | unverifiable => exact (readOnly_pure _).preserves
  | presentDecision nonce subject purpose displayDigest ttl =>
    refine Preserves.map ((hlift _).bind fun _ => hget.bind fun S => ?_)
    exact (hlift _).bind fun _ => hdesk _
  | issuePermit subject decisionId sourceSnapshotDigest generation =>
    refine Preserves.map (hget.bind fun S => (readOnly_raiseIf _ _).preserves.bind fun _ => ?_)
    refine (hlift _).bind fun _ => (hlift _).bind fun _ => (hlift _).bind fun _ => ?_
    exact (hmove _ _ (by decide)).bind fun _ => (readOnly_pure _).preserves
  | setClock now => exact (hdesk _).map
  | expirePending => exact (hdesk _).map

/-- That a plan is not approved is stable. -/
theorem stable_unapproved (planId : String) : Stable fun S => S.state planId ≠ .approved where
  board _ _ hS := hS
  desk _ _ hS := hS
  moved S planId' target htarget hS := by
    rw [state_moved rfl]
    split_ifs
    · exact htarget
    · exact hS

/-- Every plan's subject is that of its committed head. -/
def AllCurrent (S : PlanService) : Prop :=
  ∀ planId subject, S.subjects planId = some subject → Current P S planId subject

variable {P} in
/-- The subjects and the revisions decide which subject is current. -/
theorem Current.congr {S S' : PlanService} {planId : String} {subject : PlanReviewSubject}
    (h : (S'.revisions, S'.subjects) = (S.revisions, S.subjects))
    (hcurrent : Current P S planId subject) : Current P S' planId subject := by
  obtain ⟨hrevisions, hsubjects⟩ := Prod.mk.inj h
  refine ⟨?_, ?_⟩
  · rw [hsubjects]
    exact hcurrent.held
  · rw [hrevisions]
    exact hcurrent.built

variable {P} in
theorem AllCurrent.congr {S S' : PlanService}
    (h : (S'.revisions, S'.subjects) = (S.revisions, S.subjects)) (hS : AllCurrent P S) :
    AllCurrent P S' := by
  intro planId subject hheld
  have hbefore : S.subjects planId = some subject := by rwa [← (Prod.mk.inj h).2]
  exact (hS planId subject hbefore).congr h

theorem stable_allCurrent : Stable (AllCurrent P) where
  board S _ hS := hS.congr (S := S) rfl
  desk S _ hS := hS.congr (S := S) rfl
  moved S _ _ _ hS := hS.congr (S := S) rfl

/-- `record_decision` commits nothing. -/
theorem keeps_recordDecision (planId : String) (r : Response) :
    Keeps (fun S => (S.revisions, S.subjects)) (recordDecision planId r) := by
  have hdesk : Keeps (fun S : PlanService => (S.revisions, S.subjects))
      (onDesk (DecisionDesk.recordResponse r)) := fun _ => rfl
  refine hdesk.bind fun outcome => ?_
  split_ifs
  · refine Keeps.bind ?_ fun _ => (readOnly_pure _).keeps
    refine readOnly_get.keeps.bind fun S => ?_
    rcases moves outcome.state with _ | target
    · exact (readOnly_pure _).keeps
    · dsimp only
      split_ifs
      · exact (readOnly_lift _).keeps.bind fun _ => keeps_modify fun _ => rfl
      · exact (readOnly_pure _).keeps
  · exact (readOnly_pure _).keeps

/-- A submission does not approve a plan. -/
theorem unapproved_submitPlan (s : Submission) (planId : String) :
    Preserves (fun S => S.state planId ≠ .approved) (submitPlan P s) := by
  intro S hS
  rcases submitPlan_cases P s S with hsame | hrejected | ⟨subject, -, hcommitted⟩
  · rw [hsame]
    exact hS
  · rw [hrejected, state_moved rfl]
    split_ifs
    · decide
    · exact hS
  · rw [state_moved (congrArg PlanService.states hcommitted)]
    split_ifs
    · decide
    · exact hS

/-- A submission keeps every plan's subject that of its committed head. -/
theorem allCurrent_submitPlan (s : Submission) : Preserves (AllCurrent P) (submitPlan P s) := by
  intro S hS
  rcases submitPlan_cases P s S with hsame | hrejected | ⟨subject, hbuild, hcommitted⟩
  · rw [hsame]
    exact hS
  · rw [hrejected]
    exact hS.congr (S := S) rfl
  · rw [hcommitted]
    intro planId subject' hheld
    refine ⟨hheld, ?_⟩
    dsimp only at hheld ⊢
    rw [PlanRevisions.head_committed]
    by_cases heq : planId = s.plan.planId
    · rw [heq, Function.update_self] at hheld
      obtain rfl := Option.some.inj hheld
      exact ⟨s, if_pos heq, hbuild⟩
    · rw [Function.update_of_ne heq] at hheld
      rw [if_neg heq]
      exact (hS planId subject' hheld).built

variable {P reprText}

/-- **Only an answer to a decision approves a plan.** -/
theorem approves_cases {S : PlanService} {call : ServiceCall} {planId : String}
    (hbefore : S.state planId ≠ .approved)
    (hafter : (call.act P reprText S).2.state planId = .approved) :
    ∃ planId' r, call = .recordDecision planId' r := by
  by_contra hother
  have hrecord : ∀ planId' r, call ≠ .recordDecision planId' r :=
    fun planId' r heq => hother ⟨planId', r, heq⟩
  by_cases hsubmit : ∃ s, call = .submitPlan s
  · obtain ⟨s, rfl⟩ := hsubmit
    exact (unapproved_submitPlan P s planId).map S hbefore hafter
  · have hsubmit' : ∀ s, call ≠ .submitPlan s := fun s heq => hsubmit ⟨s, heq⟩
    exact (stable_unapproved planId).preserves P reprText hsubmit' hrecord S hbefore hafter

/-- **Over every run, every plan's subject is that of its committed head.** -/
theorem allCurrent_of_history {h : List ServiceEntry} {S : PlanService}
    (hr : ServiceHistory P reprText h S) : AllCurrent P S := by
  refine hr.inv_state ?_ ?_
  · intro planId subject hheld
    cases hheld
  · intro S call hS
    by_cases hsubmit : ∃ s, call = .submitPlan s
    · obtain ⟨s, rfl⟩ := hsubmit
      exact (allCurrent_submitPlan P s).map S hS
    by_cases hrecord : ∃ planId r, call = .recordDecision planId r
    · obtain ⟨planId, r, rfl⟩ := hrecord
      have hkeeps := (keeps_recordDecision planId r).preserves (I := AllCurrent P)
        fun S S' h hS => hS.congr h
      exact hkeeps.map S hS
    · exact (stable_allCurrent P).preserves P reprText (fun s heq => hsubmit ⟨s, heq⟩)
        (fun planId r heq => hrecord ⟨planId, r, heq⟩) S hS

/-! ### When approvals are about the plan they approve -/

variable (P reprText) in
/-- The service after an answer. -/
theorem after_recordDecision (S : PlanService) (planId : String) (r : Response) :
    (Entry.perform (ServiceCall.act P reprText) S (.recordDecision planId r)).after =
      ((recordDecision planId r).run S).2 := by
  rw [Entry.perform, ServiceCall.act, ServiceCall.op, run_map]

/-- A misbound answer approves a plan without a licence. -/
theorem unlicensed_of_misbound {S : PlanService} {call : ServiceCall}
    (h : Misbound P (Entry.perform (ServiceCall.act P reprText) S call)) :
    ∃ planId, Approves (Entry.perform (ServiceCall.act P reprText) S call) planId ∧
      ¬Licensed P (Entry.perform (ServiceCall.act P reprText) S call) planId := by
  obtain ⟨planId, r, request, hop, hstate, happroving, hunbound⟩ := h
  obtain rfl : call = .recordDecision planId r := hop
  obtain ⟨outcome, desk, approvedUnits, hrun, hload⟩ :=
    run_recordDecision_approving (S := S) hstate happroving
  have hafter := after_recordDecision P reprText S planId r
  rw [hrun] at hafter
  refine ⟨planId, ⟨?_, ?_⟩, ?_⟩
  · intro happroved
    have hcontra : PlanState.humanReview = .approved := hstate.symm.trans happroved
    cases hcontra
  · exact (state_moved (congrArg PlanService.states hafter) planId).trans (if_pos rfl)
  · rintro ⟨r', request', subject, hop', hload', -, -, hcurrent, hdigest⟩
    obtain rfl : r = r' := (ServiceCall.recordDecision.inj hop').2
    have hload'' : desk.load r.decisionId = some request' := by
      rw [← hload', hafter]
    rw [hload] at hload''
    obtain rfl := Option.some.inj hload''
    have hheld : S.subjects planId = some subject := by
      have hheld' := hcurrent.held
      rw [hafter] at hheld'
      exact hheld'
    exact hunbound ⟨subject, hheld, hdigest⟩

/-- An approval that is not misbound is licensed. -/
theorem licensed_of_approves {S : PlanService} {call : ServiceCall} {planId : String}
    (hS : AllCurrent P S)
    (hbound : ¬Misbound P (Entry.perform (ServiceCall.act P reprText) S call))
    (h : Approves (Entry.perform (ServiceCall.act P reprText) S call) planId) :
    Licensed P (Entry.perform (ServiceCall.act P reprText) S call) planId := by
  obtain ⟨hbefore, hafter⟩ := h
  obtain ⟨planId', r, rfl⟩ := approves_cases hbefore hafter
  have hanswered : ((recordDecision planId' r).run S).2.state planId = .approved := by
    rw [← after_recordDecision P reprText]
    exact hafter
  obtain ⟨rfl, hstate, request, happroving⟩ := approved_of_recordDecision (S := S) hbefore hanswered
  obtain ⟨subject, hheld, hdigest⟩ : S.BoundTo P planId request := by
    by_contra hunbound
    exact hbound ⟨planId, r, request, rfl, hstate, happroving, hunbound⟩
  obtain ⟨outcome, desk, approvedUnits, hrun, hload⟩ :=
    run_recordDecision_approving hstate happroving
  have hafter' := after_recordDecision P reprText S planId r
  rw [hrun] at hafter'
  refine ⟨r, { request with state := .approved, approvedUnits }, subject, rfl, ?_,
    happroving.2.1, rfl, ?_, hdigest⟩
  · rw [hafter']
    exact hload
  · rw [hafter']
    exact (hS planId subject hheld).congr (S := S) rfl

/-- **When approvals are about the plan they approve**: in the runs in which no plan before a
human is answered with an approval that is bound to another subject. -/
theorem approvals_bound_iff {h : List ServiceEntry} {S : PlanService}
    (hr : ServiceHistory P reprText h S) :
    (∀ e ∈ h, ∀ planId, Approves e planId → Licensed P e planId) ↔ ∀ e ∈ h, ¬Misbound P e := by
  constructor
  · intro hlicensed e he hmisbound
    have heq := hr.eq_perform he
    rw [heq] at hmisbound
    obtain ⟨planId, happroves, hunlicensed⟩ := unlicensed_of_misbound hmisbound
    rw [← heq] at happroves hunlicensed
    exact hunlicensed (hlicensed e he planId happroves)
  · intro hbound e he planId happroves
    obtain ⟨h₁, h₂, rfl⟩ := List.append_of_mem he
    obtain ⟨hbefore, heq, -⟩ := hr.split
    have hmisbound := hbound e he
    rw [heq] at hmisbound happroves ⊢
    exact licensed_of_approves (allCurrent_of_history hbefore) hmisbound happroves

/-- The first revision is approved while it is the head. -/
theorem approvals_bound_iff_first :
    (∀ e ∈ (exec (ServiceCall.act .ascii id) {} (reviewed 0 firstSubject 0 ++
        [presentFirst, .recordDecision "p1" (firstAnswer "approve")])).1,
      ∀ planId, Approves e planId → Licensed .ascii e planId) ↔
    ∀ e ∈ (exec (ServiceCall.act .ascii id) {} (reviewed 0 firstSubject 0 ++
        [presentFirst, .recordDecision "p1" (firstAnswer "approve")])).1,
      ¬Misbound .ascii e :=
  approvals_bound_iff (run_exec (ServiceCall.act .ascii id) {} _)

/-- The subject of the second revision. -/
def secondSubject : PlanReviewSubject :=
  subjectOne 1 "sha256:f8d17edca03e07c3b1d197f8b844e82c29c0d5c0279a2e2854c26652d6ed7dc6"

theorem buildSubject_second : buildSubject .ascii (planOne 1).plan (planOne 1).requirementsDoc
    (planOne 1).sourceSnapshot (planOne 1).scope "subject" = .ok secondSubject := by
  simp only [buildSubject, digest_ascii]
  decide +kernel

/-- The second revision is later than the first. -/
example : firstSubject.revision < secondSubject.revision := by decide +kernel

theorem subjectDigest_second : subjectDigest .ascii secondSubject =
    .ok "sha256:7e3af8ba6f8e7bbcd824af2a877b0dea648993a3838c619dab84aef419777dbb" := by
  rw [subjectDigest, digest_ascii]
  decide +kernel

/-- The second revision can be before a human while the approval of the first is pending. -/
theorem exists_secondReviewed : ∃ h S, ServiceHistory .ascii id h S ∧ S.state "p1" = .humanReview ∧
    S.desk = firstPresented.desk ∧ S.subjects "p1" = some secondSubject := by
  refine ⟨_, _, history_firstPresented.append
    (run_exec (ServiceCall.act .ascii id) firstPresented (reviewed 1 secondSubject 1)), ?_⟩
  simp only [reviewed, exec, ServiceCall.act, ServiceCall.op, submitPlan, requestReview,
    buildSubject_second, subjectDigest_second]
  exact ⟨rfl, rfl, rfl⟩

/-- There the approval of the first revision is misbound. -/
theorem misbound_firstAnswer {S : PlanService} (hstate : S.state "p1" = .humanReview)
    (hdesk : S.desk = firstPresented.desk) (hheld : S.subjects "p1" = some secondSubject) :
    Misbound .ascii (Entry.perform (ServiceCall.act .ascii id) S
      (.recordDecision "p1" (firstAnswer "approve"))) := by
  have hsettles : S.desk.Settles (firstAnswer "approve") firstRequest := by
    rw [hdesk]
    exact settles_firstRequest (by decide)
  refine ⟨"p1", firstAnswer "approve", firstRequest, rfl, hstate,
    ⟨hsettles.load, rfl, .inr ⟨hsettles, rfl⟩⟩, ?_⟩
  rintro ⟨subject, hcurrent, hdigest⟩
  obtain rfl : secondSubject = subject := Option.some.inj (hheld.symm.trans hcurrent)
  rw [subjectDigest_second] at hdigest
  exact absurd (Except.ok.inj hdigest) (by decide)

/-- **The decision about an earlier revision approves a plan.** -/
theorem earlier_revision_approves :
    ¬∀ (P : Primitives) (reprText : String → String) (h : List ServiceEntry) (S : PlanService),
      ServiceHistory P reprText h S →
        ∀ e ∈ h, ∀ planId, Approves e planId → Licensed P e planId := by
  intro hclaim
  obtain ⟨h, S, hrun, hstate, hdesk, hheld⟩ := exists_secondReviewed
  obtain ⟨planId, happroves, hunlicensed⟩ :=
    unlicensed_of_misbound (misbound_firstAnswer hstate hdesk hheld)
  exact hunlicensed (hclaim _ _ _ _ (hrun.snoc _) _ List.mem_concat_self planId happroves)

end

end PlanService

end CyranoAgent
