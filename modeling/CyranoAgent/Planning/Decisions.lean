import CyranoAgent.Lib.Rows
import CyranoAgent.Planning.Review

/-!
# Human decision requests

`DecisionDesk`: a request is presented for a purpose and a subject digest, and answered once,
under its nonce, its revision and both its digests, before it expires. The nonce that `present`
draws is an argument of the model.
-/

namespace CyranoAgent

open Lib Lib.Action

namespace Planning

/-- `PURPOSES`. -/
def purposes : List String :=
  ["design_choice", "plan_approval", "execution_permission", "source_apply", "acceptance",
    "publish"]

/-- `sorted(RESPONSES)`. -/
def responses : List String :=
  ["approve", "ask_question", "cancel", "defer", "reject", "request_changes"]

/-- The states of a decision request. -/
inductive DecisionState
  | pending | approved | rejected | deferred | cancelled | amendRequested | expired
  deriving DecidableEq, Repr

/-- `DecisionRequest`. -/
structure DecisionRequest where
  decisionId : String
  scope : String
  purpose : String
  subjectDigest : String
  displayDigest : String
  requestRevision : ℤ
  nonce : String
  expiresAt : ℤ
  allowedResponses : List String
  state : DecisionState := .pending
  approvedUnits : List String := []
  deriving DecidableEq

/-- `DecisionOutcome`. -/
structure DecisionOutcome where
  granted : Bool
  state : DecisionState
  decisionId : String
  purpose : String
  reason : String := ""

/-- `DecisionDesk`. The requests are in the order in which they were presented. -/
structure DecisionDesk where
  now : ℤ := 0
  requests : List DecisionRequest := []
  deriving DecidableEq

/-- A response to a decision request. -/
structure Response where
  decisionId : String
  response : String
  nonce : String
  subjectDigest : String
  displayDigest : String
  expectedRevision : ℤ
  approvedUnits : List String := []

/-- The state a response leads to. -/
def responseState : String → DecisionState
  | "approve" => .approved
  | "reject" => .rejected
  | "defer" => .deferred
  | "cancel" => .cancelled
  | "request_changes" => .amendRequested
  | _ => .deferred

/-- Only an approval leads to approval. -/
theorem responseState_eq_approved {response : String} :
    responseState response = .approved ↔ response = "approve" := by
  constructor
  · intro h
    unfold responseState at h
    split at h
    · rfl
    all_goals cases h
  · rintro rfl
    rfl

namespace DecisionDesk

/-- `load`. -/
def load (D : DecisionDesk) (decisionId : String) : Option DecisionRequest :=
  D.requests.find? fun request => request.decisionId = decisionId

/-- What a call on the desk is. -/
abbrev DeskOp (α : Type) := Lib.Action DecisionDesk Failure α

/-- `set_clock`. -/
def setClock (now : ℤ) : DeskOp Unit := modify fun D => { D with now }

/-- `present`. -/
def present (reprText : String → String) (nonce decisionId scope purpose subjectDigest
    displayDigest : String) (revision ttl : ℤ) (allowedResponses : Option (List String)) :
    DeskOp DecisionRequest := do
  raiseIf (purpose ∉ purposes) (.cyrano "INVALID_PURPOSE" purpose)
  let D ← get
  match D.load decisionId with
  | some existing =>
    raiseIf (existing.subjectDigest ≠ subjectDigest ∨ existing.purpose ≠ purpose)
      (.cyrano "IDEMPOTENCY_CONFLICT" "same decision_id, different subject")
    return existing
  | none =>
    let allowed := allowedResponses.getD responses
    let unknown := (allowed.filter (· ∉ responses)).dedup.mergeSort (· ≤ ·)
    raiseIf (unknown ≠ []) (.cyrano "INVALID_RESPONSE_KIND" (reprStrings reprText unknown))
    let request : DecisionRequest :=
      { decisionId, scope, purpose, subjectDigest, displayDigest, requestRevision := revision,
        nonce, expiresAt := D.now + ttl, allowedResponses := allowed }
    set { D with requests := D.requests ++ [request] }
    return request

/-- `self._requests[decision_id] = replace(request, …)`. -/
def replace (decisionId : String) (f : DecisionRequest → DecisionRequest) : DeskOp Unit :=
  modify fun D => { D with
    requests := Rows.update (fun request => request.decisionId = decisionId) f D.requests }

/-- The response names the request that was displayed. -/
def Matches (r : Response) (request : DecisionRequest) : Prop :=
  r.nonce = request.nonce ∧ r.expectedRevision = request.requestRevision ∧
    r.subjectDigest = request.subjectDigest ∧ r.displayDigest = request.displayDigest

instance (r : Response) (request : DecisionRequest) : Decidable (Matches r request) :=
  inferInstanceAs (Decidable (_ ∧ _))

/-- `record_response`. -/
def recordResponse (r : Response) : DeskOp DecisionOutcome := do
  let D ← get
  match D.load r.decisionId with
  | none => throw (.cyrano "UNKNOWN_DECISION" r.decisionId)
  | some request =>
    if request.state ≠ .pending then
      return { granted := false, state := request.state, decisionId := r.decisionId,
               purpose := request.purpose, reason := "already settled; replay has no effect" }
    else if request.expiresAt < D.now then do
      replace r.decisionId fun request => { request with state := .expired }
      return { granted := false, state := .expired, decisionId := r.decisionId,
               purpose := request.purpose, reason := "decision request expired" }
    else do
      raiseIf (r.response ∉ request.allowedResponses)
        (.cyrano "INVALID_RESPONSE_KIND" r.response)
      raiseIf (¬Matches r request)
        (.cyrano "PERMIT_STALE" "response does not match the displayed request")
      let state := responseState r.response
      replace r.decisionId fun request =>
        { request with state, approvedUnits := r.approvedUnits }
      return { granted := decide (r.response = "approve"), state, decisionId := r.decisionId,
               purpose := request.purpose }

/-- `expire_pending`: the requests it expired. -/
def expirePending : DeskOp (List String) := do
  let D ← get
  let lapsed (request : DecisionRequest) : Bool :=
    request.state = .pending ∧ request.expiresAt < D.now
  set { D with
    requests := Rows.update lapsed (fun request => { request with state := .expired }) D.requests }
  return (D.requests.filter lapsed).map (·.decisionId)

/-! ### What a response does -/

/-- The response settles the request: it is pending, has not lapsed, allows the response and
matches it. -/
structure Settles (D : DecisionDesk) (r : Response) (request : DecisionRequest) : Prop where
  load : D.load r.decisionId = some request
  pending : request.state = .pending
  live : D.now ≤ request.expiresAt
  allowed : r.response ∈ request.allowedResponses
  displayed : Matches r request

/-- The desk with a settled request. -/
def settled (D : DecisionDesk) (decisionId : String) (state : DecisionState)
    (approvedUnits : List String) : DecisionDesk :=
  { D with
    requests := Rows.update (fun request => request.decisionId = decisionId)
      (fun request => { request with state, approvedUnits }) D.requests }

/-- The desk with a request that has lapsed. -/
def lapsed (D : DecisionDesk) (decisionId : String) : DecisionDesk :=
  { D with
    requests := Rows.update (fun request => request.decisionId = decisionId)
      (fun request => { request with state := .expired }) D.requests }

/-- What `record_response` can do. Only a response that settles its request may grant. -/
inductive Answer (D : DecisionDesk) (r : Response) :
    Except Failure DecisionOutcome → DecisionDesk → Prop
  | refused (e : Failure) : Answer D r (.error e) D
  | replayed (request : DecisionRequest) (outcome : DecisionOutcome)
      (hload : D.load r.decisionId = some request) (hstate : request.state ≠ .pending)
      (hsame : outcome.state = request.state) (hpurpose : outcome.purpose = request.purpose)
      (hgranted : outcome.granted = false) : Answer D r (.ok outcome) D
  | lapsed (request : DecisionRequest) (outcome : DecisionOutcome)
      (hload : D.load r.decisionId = some request) (hexpired : outcome.state = .expired)
      (hpurpose : outcome.purpose = request.purpose) (hgranted : outcome.granted = false)
      (hpending : request.state = .pending) (hlate : request.expiresAt < D.now) :
      Answer D r (.ok outcome) (D.lapsed r.decisionId)
  | settled (request : DecisionRequest) (outcome : DecisionOutcome)
      (hsettles : D.Settles r request) (hstate : outcome.state = responseState r.response)
      (hpurpose : outcome.purpose = request.purpose)
      (hgranted : outcome.granted = decide (r.response = "approve")) :
      Answer D r (.ok outcome) (D.settled r.decisionId (responseState r.response) r.approvedUnits)

/-- **A response does one of these.** -/
theorem answer_recordResponse (D : DecisionDesk) (r : Response) :
    Answer D r ((recordResponse r).run D).1 ((recordResponse r).run D).2 := by
  rw [recordResponse, run_bind_ok (run_get D)]
  rcases hload : D.load r.decisionId with _ | request
  · exact .refused _
  dsimp only
  by_cases hpending : request.state = .pending
  · rw [if_neg (not_not.mpr hpending)]
    by_cases hlive : request.expiresAt < D.now
    · rw [if_pos hlive]
      exact .lapsed request _ hload rfl rfl rfl hpending hlive
    · rw [if_neg hlive, run_raiseIf_bind]
      by_cases hallowed : r.response ∈ request.allowedResponses
      · rw [if_neg (not_not.mpr hallowed), run_raiseIf_bind]
        by_cases hmatches : Matches r request
        · rw [if_neg (not_not.mpr hmatches)]
          exact .settled request _ ⟨hload, hpending, not_lt.mp hlive, hallowed, hmatches⟩ rfl rfl
            rfl
        · rw [if_pos hmatches]
          exact .refused _
      · rw [if_pos hallowed]
        exact .refused _
  · rw [if_pos hpending]
    exact .replayed request _ hload hpending rfl rfl rfl

/-- A response that settles its request. -/
theorem recordResponse_of_settles {D : DecisionDesk} {r : Response} {request : DecisionRequest}
    (h : D.Settles r request) :
    ∃ outcome, (recordResponse r).run D = (.ok outcome,
        D.settled r.decisionId (responseState r.response) r.approvedUnits) ∧
      outcome.state = responseState r.response ∧ outcome.purpose = request.purpose ∧
      outcome.granted = decide (r.response = "approve") := by
  rw [recordResponse, run_bind_ok (run_get D), h.load]
  dsimp only
  rw [if_neg (not_not.mpr h.pending), if_neg (not_lt.mpr h.live),
    run_raiseIf_skip (not_not.mpr h.allowed), run_raiseIf_skip (not_not.mpr h.displayed)]
  exact ⟨_, rfl, rfl, rfl, rfl⟩

/-- A response to a request that is settled already. -/
theorem recordResponse_of_replayed {D : DecisionDesk} {r : Response} {request : DecisionRequest}
    (hload : D.load r.decisionId = some request) (hstate : request.state ≠ .pending) :
    ∃ outcome, (recordResponse r).run D = (.ok outcome, D) ∧ outcome.state = request.state ∧
      outcome.purpose = request.purpose := by
  rw [recordResponse, run_bind_ok (run_get D), hload]
  dsimp only
  rw [if_pos hstate]
  exact ⟨_, rfl, rfl, rfl⟩

/-- A settled request, loaded again. -/
theorem load_settled {D : DecisionDesk} {decisionId : String} {request : DecisionRequest}
    (h : D.load decisionId = some request) (state : DecisionState) (approvedUnits : List String) :
    (D.settled decisionId state approvedUnits).load decisionId =
      some { request with state, approvedUnits } := by
  have hid : request.decisionId = decisionId := by simpa using List.find?_some h
  rw [load] at h ⊢
  rw [settled, Rows.find?_update, h]
  · simp [hid]
  · intro request'
    rfl

/-- The desk does not stay as it was when a request is settled. -/
theorem settled_ne {D : DecisionDesk} {r : Response} {request : DecisionRequest}
    (h : D.Settles r request) (state : DecisionState) (hstate : state ≠ .pending)
    (approvedUnits : List String) : D.settled r.decisionId state approvedUnits ≠ D := by
  intro hsame
  have hload := load_settled h.load state approvedUnits
  rw [hsame, h.load] at hload
  have hpending := congrArg DecisionRequest.state (Option.some.inj hload)
  rw [h.pending] at hpending
  exact hstate hpending.symm

end DecisionDesk

end Planning

end CyranoAgent
