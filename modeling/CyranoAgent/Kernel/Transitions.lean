import CyranoAgent.Contracts.Types

/-!
# The plan lifecycle

The states of a governed plan, the transitions between them, and `planTransition`, which admits
one when its gate is open.
-/

namespace CyranoAgent

/-- The states of a governed plan. -/
inductive PlanState
  | draft | staticValidated | inReview | amendmentRequested | humanReview | deferred | approved
  | executable | executing | completed | failed | rejected | cancelled
  deriving DecidableEq, Repr

/-- The text of a plan state. -/
def PlanState.text : PlanState → String
  | .draft => "draft"
  | .staticValidated => "static_validated"
  | .inReview => "in_review"
  | .amendmentRequested => "amendment_requested"
  | .humanReview => "human_review"
  | .deferred => "deferred"
  | .approved => "approved"
  | .executable => "executable"
  | .executing => "executing"
  | .completed => "completed"
  | .failed => "failed"
  | .rejected => "rejected"
  | .cancelled => "cancelled"

/-- `PLAN_TRANSITIONS`. -/
def planTransitions : PlanState → List PlanState
  | .draft => [.staticValidated, .rejected]
  | .staticValidated => [.inReview, .rejected]
  | .inReview => [.amendmentRequested, .humanReview, .rejected]
  | .amendmentRequested => [.draft, .rejected]
  | .humanReview => [.approved, .rejected, .deferred, .cancelled]
  | .deferred => [.humanReview, .cancelled]
  | .approved => [.executable, .amendmentRequested, .cancelled]
  | .executable => [.executing, .amendmentRequested, .cancelled]
  | .executing => [.completed, .failed, .cancelled]
  | .completed => []
  | .failed => [.draft, .cancelled]
  | .rejected => []
  | .cancelled => []

/-- `plan_transition`. -/
def planTransition (current target : PlanState) (reviewed decisionReady permitReady : Bool) :
    Except Failure PlanState :=
  if target ∉ planTransitions current then
    .error (.cyrano "INVALID_TRANSITION" (current.text ++ " -> " ++ target.text))
  else if current = .inReview ∧ target = .humanReview ∧ ¬reviewed then
    .error (.cyrano "REVIEW_REQUIRED" "independent review must finish first")
  else if target = .approved ∧ ¬decisionReady then
    .error (.cyrano "APPROVAL_REQUIRED" "no approved plan decision exists")
  else if target = .executable ∧ ¬permitReady then
    .error (.cyrano "APPROVAL_REQUIRED" "plan approval is not execution permission")
  else .ok target

/-- A transition that is admitted leads to its target, along an arrow. -/
theorem planTransition_eq_ok {current target state : PlanState}
    {reviewed decisionReady permitReady : Bool}
    (h : planTransition current target reviewed decisionReady permitReady = .ok state) :
    state = target ∧ target ∈ planTransitions current := by
  unfold planTransition at h
  split_ifs at h with hmem
  exact ⟨(Except.ok.inj h).symm, by simpa using hmem⟩

/-- With a resolved decision, a transition that needs no permit is admitted along an arrow, and
refused elsewhere. -/
theorem planTransition_decision {current target : PlanState} (hreview : current ≠ .inReview)
    (hpermit : target ≠ .executable) :
    planTransition current target false true false =
      if target ∈ planTransitions current then .ok target
      else .error (.cyrano "INVALID_TRANSITION" (current.text ++ " -> " ++ target.text)) := by
  by_cases hmem : target ∈ planTransitions current
  · simp [planTransition, hmem, hreview, hpermit]
  · simp [planTransition, hmem]

end CyranoAgent
