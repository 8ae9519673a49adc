import CyranoAgent.Interview.Decisions
import CyranoAgent.Sqlite.Repository

/-!
# The interview service

`InterviewService` keeps the statements, obligations and decisions of an interview over one stream
of the ledger, the current snapshot, and whether a user approved. `ReviewLedger` keeps the accepted
result of every worker role; the two meet in `apply_worker_result`.
-/

namespace CyranoAgent

open Lib Lib.Action

namespace Interview

/-! ### Sessions -/

/-- `TERMINAL_STATES`. -/
def terminalStates : List String := ["COMPLETED", "CANCELLED", "FAILED"]

/-- `Transition`. -/
structure Transition where
  fromState : String
  event : String
  toState : String
  guardId : String

/-- `Session`. -/
structure Session where
  workState : String
  candidateState : String := "proposed"
  checkpoint : Option String := none

/-- `SessionMachine`: no two explicit transitions are for one state and event. -/
structure SessionMachine where
  states : List String
  transitions : List Transition
  globalTransitions : List Transition
  distinct : (transitions.map fun t => (t.fromState, t.event)).Nodup

/-- `candidate`. -/
def SessionMachine.candidate (machine : SessionMachine) (state event : String) :
    Except Failure Transition :=
  if state ∉ machine.states then .error (.cyrano "INVALID_TRANSITION" state)
  else
    match machine.transitions.find? fun t => t.fromState = state ∧ t.event = event with
    | some t => .ok t
    | none =>
      match machine.globalTransitions.filter fun t => t.fromState = state ∧ t.event = event with
      | [t] => .ok t
      | _ => .error (.cyrano "INVALID_TRANSITION" (state ++ ":" ++ event))

/-- `resume_target`. -/
def SessionMachine.resumeTarget (machine : SessionMachine) (checkpoint : String) :
    Except Failure String :=
  if checkpoint ∈ terminalStates then .error (.cyrano "TERMINAL_RESUME" checkpoint)
  else if checkpoint ∉ machine.states then .error (.cyrano "INVALID_TRANSITION" checkpoint)
  else .ok checkpoint

/-! ### Worker bindings -/

/-- `ROLE_ALIASES`. -/
def roleAliases : List (String × String) :=
  [("facilitator", "facilitator"), ("evidence-scout", "evidence_scout"), ("critic", "critic"),
    ("blind-handoff-reviewer", "blind_reviewer")]

/-- `WorkerBinding`. -/
structure WorkerBinding where
  taskId : String
  role : String
  revision : ℤ
  inputDigest : String

/-- `re.fullmatch(r"sha256:[a-f0-9]\x7b64\x7d", text)`. -/
def isSha256 (text : String) : Bool :=
  text.toList.take 7 = "sha256:".toList && (text.toList.drop 7).length = 64 &&
    (text.toList.drop 7).all fun c => c ∈ "abcdef0123456789".toList

/-- `payload.get(key) == text`. -/
def isText (payload : PyMapping) (key text : String) : Bool :=
  match payload.get? key with
  | some (.str s) => s = text
  | _ => false

/-- `payload.get(key)` is the integer. -/
def isInt (payload : PyMapping) (key : String) (n : ℤ) : Bool :=
  match payload.get? key with
  | some (.int m) => m = n
  | _ => false

/-- `validate_worker_binding`. -/
def validateWorkerBinding {σ : Type} (payload : PyMapping) (expected : WorkerBinding) :
    Lib.Action σ Failure Unit :=
  match roleAliases.lookup expected.role with
  | none => throw (.cyrano "UNKNOWN_INTERVIEW_ROLE" expected.role)
  | some roleAlias => do
    raiseIf (isSha256 expected.inputDigest = false)
      (.cyrano "INVALID_DIGEST" "explicit SHA256 digest required")
    raiseIf (isText payload "task_id" expected.taskId = false)
      (.cyrano "WRONG_TASK" "result does not belong to this task")
    raiseIf (isText payload "role" roleAlias = false)
      (.cyrano "WRONG_ROLE" "worker role alias does not match")
    raiseIf (isInt payload "base_revision" expected.revision = false)
      (.cyrano "STALE_REVISION" "result computed from another revision")
    raiseIf (isText payload "input_digest" (String.ofList (expected.inputDigest.toList.drop 7)) =
        false)
      (.cyrano "INPUT_DIGEST_MISMATCH" "worker input changed")

/-! ### The service -/

/-- The kinds of statements. -/
inductive StatementKind
  | observation | intendedChange
  deriving DecidableEq, Repr

/-- The text of a kind. -/
def StatementKind.text : StatementKind → String
  | .observation => "observation"
  | .intendedChange => "intended_change"

/-- `Statement`. -/
structure Statement where
  statementId : String
  text : String
  kind : StatementKind
  source : String
  deriving DecidableEq, Repr

/-- `Obligation`. -/
structure Obligation where
  obligationId : String
  critical : Bool
  resolved : Bool
  deferredTo : Option String := none
  authorizedDeferral : Bool := false
  deriving DecidableEq, Repr

/-- `InterviewService`, with the ledger it writes to. -/
structure InterviewService where
  repo : Ledger
  scopeId : String
  streamId : String
  machine : SessionMachine
  session : Session := { workState := "INTAKE" }
  obligations : Dict String Obligation := ∅
  decisions : DecisionLog := {}
  statements : Dict String Statement := ∅
  snapshotDigest : String := ""
  invalidated : List String := []
  rereview : List String := []
  reviews : List String := []
  approved : Bool := false

namespace InterviewService

/-- What a call on the service is. -/
abbrev ServiceOp (α : Type) := Lib.Action InterviewService Failure α

/-- Move the session to another work state. -/
def enter (event : String) : ServiceOp Unit := do
  let S ← get
  let transition ← lift (S.machine.candidate S.session.workState event)
  set { S with session := { S.session with workState := transition.toState } }

/-- `ingest_user_event`. -/
def ingestUserEvent (P : Primitives) (payload : PyMapping) (actor idempotencyKey : String)
    (expectedRevision : ℤ) (trustedUser attested : Bool) : ServiceOp ℕ := do
  let S ← get
  raiseIf (S.session.workState ∈ terminalStates) (.cyrano "INVALID_TRANSITION" "terminal session")
  raiseIf (S.session.workState = "CANCELLING") (.cyrano "INVALID_TRANSITION" "cancelled session")
  let receipt ← zoom (·.repo) (fun L S => { S with repo := L })
    (Repository.executeCommand P
      { scopeId := S.scopeId, actor, command := "user_event", idempotencyKey, payload
        streamId := S.streamId, expectedRevision })
  if receipt.idempotentReplay then return receipt.revision
  if isText payload "type" "cancel" then enter "user_cancel"
  else if isText payload "type" "approve" && trustedUser && attested then
    modify fun S => { S with approved := true }
  return receipt.revision

/-- `normalize_statement`. -/
def normalizeStatement (statementId text source : String) : ServiceOp Statement := do
  let kind := if source = "user" then StatementKind.intendedChange else .observation
  let statement : Statement := ⟨statementId, text, kind, source⟩
  modify fun S => { S with statements := S.statements.set statementId statement }
  return statement

/-- `add_obligation`. -/
def addObligation (obligation : Obligation) : ServiceOp Unit :=
  modify fun S => { S with
    obligations := S.obligations.set obligation.obligationId obligation }

/-- `apply_obligation_change`. -/
def applyObligationChange (obligationId change : String) (authorized : Bool)
    (reason : Option String) (dependents : Dict String (List String)) : ServiceOp Obligation := do
  let S ← get
  match S.obligations.get? obligationId with
  | none => throw (.cyrano "UNKNOWN_OBLIGATION" obligationId)
  | some current =>
    if change = "not_applicable" ∨ change = "remove" then do
      raiseIf (authorized = false ∨ reason.getD "" = "")
        (.cyrano "UNAUTHORIZED_DECISION" obligationId)
      let changed :=
        if dependents.entries = [] then [] else affectedClosure [obligationId] dependents
      set { S with
        invalidated := S.invalidated ∪ changed
        obligations := S.obligations.erase obligationId }
      return current
    else if change = "resolve" then do
      let updated := { current with resolved := true }
      set { S with obligations := S.obligations.set obligationId updated }
      return updated
    else if change = "defer" then do
      let updated := { current with authorizedDeferral := authorized }
      set { S with obligations := S.obligations.set obligationId updated }
      return updated
    else throw (.cyrano "INVALID_INPUT" change)

/-- A call on the decision log of the service. -/
def decide (call : LogCall) : ServiceOp LogReply :=
  zoom (·.decisions) (fun log S => { S with decisions := log }) call.op

/-- `ingest_worker_result`: the task of a stale result is queued for another review. -/
def ingestWorkerResult (payload : PyMapping) (binding : WorkerBinding) : ServiceOp String := do
  let S ← get
  raiseIf (S.session.workState = "CANCELLING" ∨ S.session.workState = "CANCELLED")
    (.cyrano "INVALID_TRANSITION" "cancelled session")
  tryCatch (validateWorkerBinding payload binding) fun e =>
    match e with
    | .cyrano "STALE_REVISION" message => do
      modify fun S => { S with rereview := S.rereview ++ [binding.taskId] }
      throw (.cyrano "STALE_REVISION" message)
    | e => throw e
  return "accepted"

/-- `note_done`: the number of reviewers with credit. -/
def noteDone (reviewerId : String) (trusted : Bool) : ServiceOp ℕ := do
  if trusted then modify fun S => { S with reviews := S.reviews ∪ [reviewerId] }
  return (← get).reviews.length

/-- `apply_snapshot`: what is invalidated. -/
def applySnapshot (digestValue : String) (dependents : Dict String (List String)) :
    ServiceOp (List String) := do
  let S ← get
  if S.snapshotDigest ≠ "" ∧ digestValue ≠ S.snapshotDigest then
    let changed :=
      if dependents.entries = [] then ["snapshot"] else affectedClosure ["snapshot"] dependents
    modify fun S => { S with
      invalidated := S.invalidated ∪ changed
      reviews := [] }
  modify fun S => { S with snapshotDigest := digestValue }
  return (← get).invalidated

/-- `complete_work`. -/
def completeWork : ServiceOp Unit := enter "required_checks_passed"

/-- `pause`. -/
def pause (checkpoint : String) : ServiceOp Unit := do
  enter "pause_required"
  modify fun S => { S with session := { S.session with checkpoint := some checkpoint } }

/-- `resume`. -/
def resume : ServiceOp String := do
  let S ← get
  match S.session.checkpoint with
  | none => throw (.cyrano "INVALID_TRANSITION" "no checkpoint")
  | some checkpoint => do
    let target ← lift (S.machine.resumeTarget checkpoint)
    set { S with session := { S.session with workState := target, checkpoint := none } }
    return target

end InterviewService

/-! ### The ledger of reviews -/

/-- `REQUIRED_ROLES`. -/
def requiredRoles : List String := ["critic", "blind-handoff-reviewer"]

/-- `ReviewLedger`. -/
structure ReviewLedger where
  accepted : Dict String String := ∅
  requeued : List String := []

/-- `record`. -/
def ReviewLedger.record (ledger : ReviewLedger) (binding : WorkerBinding) (status : String) :
    ReviewLedger :=
  if status = "accepted" then
    { ledger with accepted := ledger.accepted.set binding.role binding.taskId }
  else { ledger with requeued := ledger.requeued ++ [binding.taskId] }

/-- `missing_required`. -/
def ReviewLedger.missingRequired (ledger : ReviewLedger) : List String :=
  requiredRoles.filter fun role => role ∉ ledger.accepted.keys

/-- A service and the ledger of its reviews. -/
structure InterviewState where
  service : InterviewService
  ledger : ReviewLedger := {}

/-- What a call on the two is. -/
abbrev InterviewOp (α : Type) := Lib.Action InterviewState Failure α

/-- A call on the service. -/
def onService {α : Type} (op : InterviewService.ServiceOp α) : InterviewOp α :=
  zoom (·.service) (fun S I => { I with service := S }) op

/-- `apply_worker_result`: the status of the result. -/
def applyWorkerResult (payload : PyMapping) (binding : WorkerBinding) : InterviewOp String := do
  let status ← tryCatch (onService (InterviewService.ingestWorkerResult payload binding)) fun e =>
    match e with
    | .cyrano "STALE_REVISION" message => do
      modify fun I => { I with ledger := I.ledger.record binding "stale_requeued" }
      throw (.cyrano "STALE_REVISION" message)
    | e => throw e
  modify fun I => { I with ledger := I.ledger.record binding status }
  return status

end Interview

end CyranoAgent
