import CyranoAgent.Kernel.Broker
import CyranoAgent.Lib.Action
import CyranoAgent.Lib.Dict
import CyranoAgent.Lib.Run

/-!
# Mediated tool calls

`GovernedObligationMiddleware` maps a tool call to an action on a path of the workspace and asks the
broker. A handler that mutates is run after the permit was verified once more, and its path counts
as touched if it returned a result that is not an error.

What the clock, the revocations, the file system, the audit and the handler do at a call is part of
the call. `mediates` says what is true of every handler that mutates, and `touchedComplete_iff` in
which runs the touched paths are all that were changed.
-/

namespace CyranoAgent

open Lib Lib.Action

namespace Dcode

/-- `PATH_ACTIONS`. -/
def pathActions : Dict String (String × String) := .ofList [
  ("read_file", ("read", "file_path")), ("write_file", ("write", "file_path")),
  ("edit_file", ("write_existing", "file_path")), ("delete", ("delete", "file_path")),
  ("ls", ("read", "path")), ("glob", ("read", "path")), ("grep", ("read", "path"))]

/-- `_MUTATING`. -/
def mutating : List String := ["create", "write_existing", "delete"]

/-- The parts of a path below the parts of another one. -/
def partsBelow : List String → List String → Option (List String)
  | [], parts => some parts
  | _ :: _, [] => none
  | part :: root, part' :: parts => if part = part' then partsBelow root parts else none

/-- The parts of `relative_to(root_posix)` for an absolute path, if it is below the root: two
leading slashes are a root of their own. -/
def relativeParts (root : List String) (raw : String) : Option (List String) :=
  match raw.toList with
  | '/' :: '/' :: '/' :: _ => partsBelow root (Kernel.pathParts raw)
  | '/' :: '/' :: _ => none
  | _ => partsBelow root (Kernel.pathParts raw)

/-- The parts of the path of a tool, below the root. -/
def workspaceParts (root : List String) (raw : String) : Option (List String) :=
  if raw.toList.head? = some '/' then relativeParts root raw else some (Kernel.pathParts raw)

/-- `_workspace_path`. -/
def workspacePath (root : List String) (raw : Option PyValue) : Except Failure String :=
  match raw with
  | some (.str raw) =>
    if raw = "" then .error (.cyrano "ACL_DENIED" "missing path argument")
    else if '\\' ∈ raw.toList then .error (.cyrano "ACL_DENIED" raw)
    else match workspaceParts root raw with
    | none => .error (.cyrano "ACL_DENIED" raw)
    | some parts =>
      if ".." ∈ parts then .error (.cyrano "ACL_DENIED" raw)
      else .ok (if parts = [] then "." else "/".intercalate parts)
  | _ => .error (.cyrano "ACL_DENIED" "missing path argument")

/-- `GovernedSession`, as far as tool calls read it. The root is resolved. -/
structure GovernedSession where
  broker : Kernel.ActionBroker
  permit : Kernel.SignedPermit
  trustRoot : Kernel.TrustRoot
  subjectDigest : String
  root : List String
  unmediated : List String := []
  pathActions : Dict String (String × String) := Dcode.pathActions

/-- What a handler returns, as far as the middleware reads it: a result without a status counts as
a success. -/
structure ToolResult where
  content : String
  status : String := "success"

/-- What surrounds a tool call. -/
structure ToolWorld where
  /-- What there is in the workspace, when the call is mapped and when the broker is asked. -/
  found : String → Bool
  preexisting : String → Bool
  /-- The clock and the revocations, when the broker is asked and when the permit is verified. -/
  decided : ℤ
  revoked : String → Bool
  applied : ℤ
  revokedLater : String → Bool
  /-- The audit raises on a text. -/
  auditRaises : String → Bool
  /-- What the handler makes of the content of the path of the call, and how it ends. -/
  change : Option ByteArray → Option ByteArray
  outcome : Except Failure ToolResult

/-- A tool call. -/
structure ToolCallRequest where
  name : String
  args : PyMapping
  world : ToolWorld

/-- What happens during a tool call, apart from the audit. -/
inductive MediationEvent
  | decided (action path : String) (decision : Kernel.Decision)
  | permitted (path : String)
  | handled (action path : String)
  | unmediated (name : String)

/-- What a middleware changes, the contents of the workspace, and the events of the last call. -/
structure Mediation where
  contents : String → Option ByteArray
  touched : List String := []
  denials : List String := []
  audits : List String := []
  events : List MediationEvent := []

/-- An action of the middleware. -/
abbrev MediationOp (α : Type) := Action Mediation Failure α

/-- What `_decide` returns. -/
inductive Mapped
  | denied (message : ToolResult)
  | unmediated
  | mapped (action path : String)

section

variable (P : Primitives) (session : GovernedSession) (request : ToolCallRequest)

/-- `_map_call`. -/
def mapCall : Except Failure (Option (String × String)) :=
  match session.pathActions.get? request.name with
  | none => .ok none
  | some (action, key) =>
    (workspacePath session.root (request.args.get? key)).map fun path =>
      some (if action = "write" then
        if request.world.found path then "write_existing" else "create"
      else action, path)

/-- `session.audit`. -/
def audit (text : String) : MediationOp Unit := do
  raiseIf (request.world.auditRaises text = true) (.python "AuditError" text)
  modify fun M => { M with audits := M.audits ++ [text] }

/-- What happens. -/
def note (event : MediationEvent) : MediationOp Unit :=
  modify fun M => { M with events := M.events ++ [event] }

/-- `_deny`. -/
def deny (code detail : String) : MediationOp ToolResult := do
  modify fun M => { M with
    denials := M.denials ++ [code ++ ":" ++ request.name ++ ":" ++ detail] }
  audit request ("denied:" ++ request.name ++ ":" ++ code ++ ":" ++ detail)
  return { content := "CYRANO " ++ code ++ ": " ++ detail, status := "error" }

/-- What the broker is asked about a call. -/
def brokerRequest (action path : String) : Kernel.BrokerRequest where
  tool := request.name
  action
  path
  permit := some session.permit
  subjectDigest := session.subjectDigest
  now := request.world.decided
  revoked := request.world.revoked
  mode := "headless"
  preexisting := request.world.preexisting path

/-- What the broker decides on a call. -/
def brokerDecision (action path : String) : Except Failure Kernel.Decision :=
  session.broker.decide P session.trustRoot (brokerRequest session request action path)

/-- `_decide`. -/
def decideCall : MediationOp Mapped :=
  match mapCall session request with
  | .error (.cyrano code message) =>
    .denied <$> deny request code (Failure.cyrano code message).text
  | .error e => throw e
  | .ok none =>
    if request.name ∉ session.unmediated then
      .denied <$> deny request "UNSUPPORTED_TOOL" request.name
    else do
      audit request ("tool:" ++ request.name ++ ":unmediated")
      return .unmediated
  | .ok (some (action, path)) => do
    let decision ← lift (brokerDecision P session request action path)
    note (.decided action path decision)
    if ¬decision.allowed then
      .denied <$> deny request decision.code
        (if decision.detail = "" then path else decision.detail)
    else return .mapped action path

/-- `_authorize_mutation`. -/
def authorizeMutation (path : String) : MediationOp Unit := do
  audit request ("apply:" ++ session.permit.permitId ++ ":" ++ path)
  lift (Kernel.verifyPermit P session.trustRoot session.permit "execute" session.subjectDigest
    request.world.applied request.world.revokedLater)
  note (.permitted path)

/-- The handler of a call on a path. -/
def handle (action path : String) : MediationOp ToolResult := do
  note (.handled action path)
  modify fun M => { M with
    contents := Function.update M.contents path (request.world.change (M.contents path)) }
  lift request.world.outcome

/-- `wrap_tool_call`. -/
def wrapToolCall : MediationOp ToolResult := do
  match ← decideCall P session request with
  | .denied message => return message
  | .unmediated => do
    note (.unmediated request.name)
    lift request.world.outcome
  | .mapped action path =>
    if action ∈ mutating then do
      authorizeMutation P session request path
      let result ← handle request action path
      if result.status ≠ "error" then do
        audit request ("applied:" ++ session.permit.permitId ++ ":" ++ path)
        modify fun M => { M with touched := M.touched.insert path }
      return result
    else do
      audit request ("read:" ++ request.name ++ ":" ++ path)
      handle request action path

/-- One tool call, with the events of its own. -/
def ToolCallRequest.perform (M : Mediation) : Except Failure ToolResult × Mediation :=
  (wrapToolCall P session request).run { M with events := [] }

end

/-! ### What a tool call does -/

/-- A call reaches a handler that mutates: it is mapped to such an action, the broker allows it, and
the permit verifies once more. -/
structure Reaches (P : Primitives) (session : GovernedSession) (request : ToolCallRequest)
    (action path : String) : Prop where
  mapped : mapCall session request = .ok (some (action, path))
  mutates : action ∈ mutating
  allowed : ∃ decision, brokerDecision P session request action path = .ok decision ∧
    decision.allowed = true
  audited : request.world.auditRaises
    ("apply:" ++ session.permit.permitId ++ ":" ++ path) = false
  permitted : Kernel.verifyPermit P session.trustRoot session.permit "execute"
    session.subjectDigest request.world.applied request.world.revokedLater = .ok ()

/-- The handler of a call returns a result that is not an error, and the audit takes it. -/
structure Settles (session : GovernedSession) (request : ToolCallRequest) (path : String) :
    Prop where
  returned : ∃ result, request.world.outcome = .ok result ∧ result.status ≠ "error"
  audited : request.world.auditRaises
    ("applied:" ++ session.permit.permitId ++ ":" ++ path) = false

section

variable {P : Primitives} {session : GovernedSession} {request : ToolCallRequest} {M : Mediation}
  {action path text : String}

theorem run_audit (h : request.world.auditRaises text = false) :
    (audit request text).run M = (.ok (), { M with audits := M.audits ++ [text] }) := by
  rw [audit, run_raiseIf_skip (by simp [h])]
  rfl

theorem run_audit_of_raises (h : request.world.auditRaises text = true) :
    (audit request text).run M = (.error (.python "AuditError" text), M) := by
  rw [audit, run_raiseIf_bind, if_pos h]

theorem run_note (event : MediationEvent) (M : Mediation) :
    (note event).run M = (.ok (), { M with events := M.events ++ [event] }) := rfl

/-- An action touches nothing and runs no handler that mutates. -/
def Quiet {α : Type} (act : MediationOp α) : Prop :=
  ∀ M, (act.run M).2.touched = M.touched ∧ ∃ more, (act.run M).2.events = M.events ++ more ∧
    ∀ action path, .handled action path ∈ more → action ∉ mutating

/-- What follows has to be quiet only after a result that the action can have. -/
theorem Quiet.bind_of {α β : Type} {act : MediationOp α} {next : α → MediationOp β}
    (h : Quiet act) (hnext : ∀ M a M', act.run M = (.ok a, M') → Quiet (next a)) :
    Quiet (act >>= next) := by
  intro M
  obtain ⟨htouched, more, hevents, hmore⟩ := h M
  rw [run_bind]
  rcases hrun : act.run M with ⟨e | a, M'⟩
  · rw [hrun] at htouched hevents
    exact ⟨htouched, more, hevents, hmore⟩
  rw [hrun] at htouched hevents
  obtain ⟨htouched', more', hevents', hmore'⟩ := hnext M a M' hrun M'
  refine ⟨htouched'.trans htouched, more ++ more', ?_, fun action path hhandled => ?_⟩
  · dsimp only at hevents
    rw [hevents', hevents, List.append_assoc]
  · rcases List.mem_append.mp hhandled with hhandled | hhandled
    · exact hmore action path hhandled
    · exact hmore' action path hhandled

theorem Quiet.bind {α β : Type} {act : MediationOp α} {next : α → MediationOp β} (h : Quiet act)
    (hnext : ∀ a, Quiet (next a)) : Quiet (act >>= next) :=
  h.bind_of fun _ a _ _ => hnext a

/-- So does what leaves the touched paths and the events alone. -/
theorem quiet_of_keeps {α : Type} {act : MediationOp α}
    (h : Keeps (fun M => (M.touched, M.events)) act) : Quiet act := fun M =>
  ⟨congrArg Prod.fst (h M), [], (congrArg Prod.snd (h M)).trans (List.append_nil _).symm, by simp⟩

theorem quiet_note {event : MediationEvent}
    (h : ∀ action path, event = .handled action path → action ∉ mutating) : Quiet (note event) :=
  fun _ => ⟨rfl, [event], rfl, fun action path hhandled =>
    h action path (List.mem_singleton.mp hhandled).symm⟩

theorem quiet_audit (request : ToolCallRequest) (text : String) : Quiet (audit request text) :=
  quiet_of_keeps (Keeps.bind (readOnly_raiseIf _ _).keeps fun _ => keeps_modify fun _ => rfl)

theorem quiet_lift {α : Type} (x : Except Failure α) : Quiet (lift x : MediationOp α) :=
  quiet_of_keeps (readOnly_lift x).keeps

theorem quiet_pure {α : Type} (a : α) : Quiet (pure a : MediationOp α) :=
  quiet_of_keeps (readOnly_pure a).keeps

theorem quiet_deny (request : ToolCallRequest) (code detail : String) :
    Quiet (Mapped.denied <$> deny request code detail) := by
  have hdeny : Quiet (deny request code detail) := by
    refine Quiet.bind (quiet_of_keeps (keeps_modify fun _ => rfl)) fun _ => ?_
    exact (quiet_audit request _).bind fun _ => quiet_pure _
  rw [map_eq_then]
  exact hdeny.bind fun _ => quiet_pure _

theorem quiet_decideCall : Quiet (decideCall P session request) := by
  rw [decideCall]
  split
  · exact quiet_deny _ _ _
  · exact quiet_of_keeps (readOnly_throw _).keeps
  · split
    · exact quiet_deny _ _ _
    · exact (quiet_audit _ _).bind fun _ => quiet_pure _
  · refine (quiet_lift _).bind fun decision => (quiet_note (by simp)).bind fun _ => ?_
    split
    · exact quiet_deny _ _ _
    · exact quiet_pure _

theorem not_mapped_of_denied {act : MediationOp ToolResult} {M' : Mediation}
    (h : (Mapped.denied <$> act).run M = (.ok (.mapped action path), M')) : False := by
  obtain ⟨_, -, heq⟩ := map_eq_ok.mp h
  cases heq

/-- What is mapped was allowed. -/
theorem allowed_of_decideCall {M' : Mediation}
    (h : (decideCall P session request).run M = (.ok (.mapped action path), M')) :
    mapCall session request = .ok (some (action, path)) ∧
      ∃ decision, brokerDecision P session request action path = .ok decision ∧
        decision.allowed = true := by
  rw [decideCall] at h
  split at h
  · exact (not_mapped_of_denied h).elim
  · cases (Prod.mk.inj h).1
  · split at h
    · exact (not_mapped_of_denied h).elim
    · obtain ⟨_, _, -, h⟩ := bind_eq_ok.mp h
      cases (Prod.mk.inj h).1
  · next action' path' hmapped =>
    obtain ⟨decision, M₁, hdecision, h⟩ := bind_eq_ok.mp h
    obtain ⟨-, M₂, -, h⟩ := bind_eq_ok.mp h
    obtain ⟨hdecision, -⟩ := lift_eq_ok.mp hdecision
    split at h
    · exact (not_mapped_of_denied h).elim
    · next hallowed =>
      obtain ⟨rfl, rfl⟩ : action' = action ∧ path' = path := by simpa using (Prod.mk.inj h).1
      exact ⟨hmapped, decision, hdecision, not_not.mp hallowed⟩

/-- What the broker allows is mapped. -/
theorem run_decideCall_of_allowed {decision : Kernel.Decision}
    (hmapped : mapCall session request = .ok (some (action, path)))
    (hdecision : brokerDecision P session request action path = .ok decision)
    (hallowed : decision.allowed = true) :
    (decideCall P session request).run M = (.ok (.mapped action path),
      { M with events := M.events ++ [.decided action path decision] }) := by
  rw [decideCall, hmapped]
  dsimp only
  rw [hdecision, run_bind_ok (run_lift_ok decision M), run_bind_ok (run_note _ M),
    if_neg (not_not.mpr hallowed)]
  rfl

theorem run_handle (action path : String) (M : Mediation) :
    (handle request action path).run M = (request.world.outcome, { M with
      events := M.events ++ [.handled action path]
      contents := Function.update M.contents path (request.world.change (M.contents path)) }) := by
  rw [handle, run_bind_ok (run_note _ M), run_bind_ok (run_modify _ _)]
  rcases request.world.outcome with e | result <;> rfl

/-- **What a call does that reaches a handler that mutates**: it decides, verifies and handles, and
touches its path if the handler settles. -/
theorem perform_of_reaches (h : Reaches P session request action path) :
    ∃ decision, brokerDecision P session request action path = .ok decision ∧
      decision.allowed = true ∧
      (request.perform P session M).2.contents =
        Function.update M.contents path (request.world.change (M.contents path)) ∧
      (request.perform P session M).2.events =
        [.decided action path decision, .permitted path, .handled action path] ∧
      (Settles session request path →
        (request.perform P session M).2.touched = M.touched.insert path) ∧
      (¬Settles session request path → (request.perform P session M).2.touched = M.touched) := by
  obtain ⟨decision, hdecision, hallowed⟩ := h.allowed
  refine ⟨decision, hdecision, hallowed, ?_⟩
  have hauthorize : ∀ M, (authorizeMutation P session request path).run M = (.ok (), { M with
      audits := M.audits ++ ["apply:" ++ session.permit.permitId ++ ":" ++ path]
      events := M.events ++ [.permitted path] }) := by
    intro M
    rw [authorizeMutation, run_bind_ok (run_audit h.audited), h.permitted,
      run_bind_ok (run_lift_ok () _)]
    rfl
  rw [ToolCallRequest.perform, wrapToolCall,
    run_bind_ok (run_decideCall_of_allowed h.mapped hdecision hallowed)]
  dsimp only
  rw [if_pos h.mutates, run_bind_ok (hauthorize _)]
  rcases houtcome : request.world.outcome with e | result
  · have hunsettled : ¬Settles session request path := by
      rintro ⟨⟨result, hreturned, -⟩, -⟩
      rw [houtcome] at hreturned
      cases hreturned
    rw [run_bind_error ((run_handle _ _ _).trans (by rw [houtcome]))]
    exact ⟨rfl, rfl, fun hsettles => absurd hsettles hunsettled, fun _ => rfl⟩
  rw [run_bind_ok ((run_handle _ _ _).trans (by rw [houtcome]))]
  by_cases hstatus : result.status = "error"
  · have hunsettled : ¬Settles session request path := by
      rintro ⟨⟨result', hreturned, hother⟩, -⟩
      rw [houtcome, Except.ok.injEq] at hreturned
      exact hother (hreturned ▸ hstatus)
    rw [if_neg (not_not.mpr hstatus)]
    exact ⟨rfl, rfl, fun hsettles => absurd hsettles hunsettled, fun _ => rfl⟩
  rw [if_pos hstatus]
  cases haudit : request.world.auditRaises
      ("applied:" ++ session.permit.permitId ++ ":" ++ path) with
  | true =>
    have hunsettled : ¬Settles session request path := fun hsettles => by
      rw [hsettles.audited] at haudit
      cases haudit
    rw [run_bind_error (run_audit_of_raises haudit)]
    exact ⟨rfl, rfl, fun hsettles => absurd hsettles hunsettled, fun _ => rfl⟩
  | false =>
    have hsettles : Settles session request path := ⟨⟨result, houtcome, hstatus⟩, haudit⟩
    rw [run_bind_ok (run_audit haudit), run_bind_ok (run_modify _ _)]
    exact ⟨rfl, rfl, fun _ => rfl, fun hunsettled => absurd hsettles hunsettled⟩

/-- Another call runs no handler that mutates, and touches nothing. -/
theorem perform_of_not_reaches (h : ∀ action path, ¬Reaches P session request action path) :
    (∀ action path, .handled action path ∈ (request.perform P session M).2.events →
      action ∉ mutating) ∧ (request.perform P session M).2.touched = M.touched := by
  have hquiet : Quiet (wrapToolCall P session request) := by
    refine quiet_decideCall.bind_of fun M mapped M' hdecide => ?_
    cases mapped with
    | denied message => exact quiet_pure _
    | unmediated => exact (quiet_note (by simp)).bind fun _ => quiet_lift _
    | mapped action path =>
      obtain ⟨hmapped, hallowed⟩ := allowed_of_decideCall hdecide
      dsimp only
      split
      · next hmutates =>
        -- the permit does not verify once more, so nothing follows
        refine Quiet.bind_of ?_ fun M₁ _ M₂ hauthorize => ?_
        · refine (quiet_audit _ _).bind fun _ => (quiet_lift _).bind fun _ => ?_
          exact quiet_note (by simp)
        · obtain ⟨_, _, haudit, hrest⟩ := bind_eq_ok.mp hauthorize
          obtain ⟨_, _, hverify, -⟩ := bind_eq_ok.mp hrest
          obtain ⟨_, _, haudit, -⟩ := bind_eq_ok.mp haudit
          refine absurd ?_ (h action path)
          exact ⟨hmapped, hmutates, hallowed, Bool.eq_false_iff.mpr (raiseIf_eq_ok.mp haudit).1,
            (lift_eq_ok.mp hverify).1⟩
      · next hreads =>
        refine (quiet_audit _ _).bind fun _ => (quiet_note ?_).bind fun _ => ?_
        · rintro _ _ ⟨⟩
          exact hreads
        · exact Quiet.bind (quiet_of_keeps (keeps_modify fun _ => rfl)) fun _ => quiet_lift _
  obtain ⟨htouched, more, hevents, hmore⟩ := hquiet { M with events := [] }
  refine ⟨fun action path hhandled => hmore action path ?_, htouched⟩
  rw [ToolCallRequest.perform, hevents] at hhandled
  exact hhandled

end

/-! ### Runs -/

/-- A step of a run. -/
abbrev MediationEntry := Entry Mediation ToolCallRequest (Except Failure ToolResult)

/-- The middleware of a new session, over a workspace. -/
def startMediation (contents : String → Option ByteArray) : Mediation := { contents }

/-- A handler that mutates ran only after the broker had allowed the call and the permit had
verified. -/
def MediatesWell (P : Primitives) (session : GovernedSession) (e : MediationEntry) : Prop :=
  ∀ before action path after, e.after.events = before ++ .handled action path :: after →
    action ∈ mutating →
      (∃ decision, .decided action path decision ∈ before ∧ decision.allowed = true ∧
        brokerDecision P session e.op action path = .ok decision) ∧
      .permitted path ∈ before ∧
        Kernel.verifyPermit P session.trustRoot session.permit "execute" session.subjectDigest
          e.op.world.applied e.op.world.revokedLater = .ok ()

/-- A handler that mutates changed the content of the path in the step. -/
def ChangedIn (e : MediationEntry) (path : String) : Prop :=
  (∃ action ∈ mutating, .handled action path ∈ e.after.events) ∧
    e.after.contents path ≠ e.before.contents path

/-- Each path that a handler changes is also the path of a handler that settles. -/
def SettlesChanges (P : Primitives) (session : GovernedSession) (h : List MediationEntry) : Prop :=
  ∀ e ∈ h, ∀ action path, Reaches P session e.op action path →
    e.op.world.change (e.before.contents path) ≠ e.before.contents path →
      ∃ e' ∈ h, ∃ action', Reaches P session e'.op action' path ∧ Settles session e'.op path

section

variable {P : Primitives} {session : GovernedSession} {request : ToolCallRequest} {M : Mediation}
  {h : List MediationEntry} {action path : String} {contents : String → Option ByteArray}

/-- A call reaches one handler at most. -/
theorem Reaches.unique {action' path' : String} (h : Reaches P session request action path)
    (h' : Reaches P session request action' path') : action' = action ∧ path' = path := by
  have heq := h'.mapped
  rw [h.mapped] at heq
  obtain ⟨rfl, rfl⟩ : action = action' ∧ path = path' := by simpa using heq
  exact ⟨rfl, rfl⟩

/-- A handler that mutates is run by the calls that reach it. -/
theorem handled_iff :
    (action ∈ mutating ∧ .handled action path ∈ (request.perform P session M).2.events) ↔
      Reaches P session request action path := by
  constructor
  · rintro ⟨hmutates, hhandled⟩
    by_contra hnot
    by_cases hother : ∃ action' path', Reaches P session request action' path'
    · obtain ⟨action', path', hreaches⟩ := hother
      obtain ⟨decision, -, -, -, hevents, -⟩ := perform_of_reaches (M := M) hreaches
      obtain ⟨rfl, rfl⟩ : action = action' ∧ path = path' := by simpa [hevents] using hhandled
      exact hnot hreaches
    · push Not at hother
      exact (perform_of_not_reaches hother).1 action path hhandled hmutates
  · intro hreaches
    obtain ⟨decision, -, -, -, hevents, -⟩ := perform_of_reaches (M := M) hreaches
    exact ⟨hreaches.mutates, by simp [hevents]⟩

/-- **The broker and the permit come before a handler that mutates.** -/
theorem mediates (request : ToolCallRequest) (M : Mediation) :
    MediatesWell P session (Entry.perform (ToolCallRequest.perform P session) M request) := by
  intro before action path after hevents hmutates
  have hreaches : Reaches P session request action path := by
    refine (handled_iff (M := M)).mp ⟨hmutates, ?_⟩
    rw [Entry.perform_after] at hevents
    rw [hevents]
    simp
  obtain ⟨decision, hdecision, hallowed, -, hall, -⟩ := perform_of_reaches (M := M) hreaches
  rw [Entry.perform_after, hall] at hevents
  obtain rfl : before = [.decided action path decision, .permitted path] := by
    rcases before with _ | ⟨first, _ | ⟨second, _ | ⟨third, rest⟩⟩⟩ <;> simp at hevents
    rw [← hevents.1, ← hevents.2.1]
  exact ⟨⟨decision, by simp, hallowed, hdecision⟩, by simp, hreaches.permitted⟩

/-- What a step touches. -/
theorem mem_touched_perform : path ∈ (request.perform P session M).2.touched ↔ path ∈ M.touched ∨
    ∃ action, Reaches P session request action path ∧ Settles session request path := by
  by_cases hother : ∃ action' path', Reaches P session request action' path'
  · obtain ⟨action', path', hreaches⟩ := hother
    obtain ⟨decision, -, -, -, -, hsettled, hunsettled⟩ := perform_of_reaches (M := M) hreaches
    by_cases hsettles : Settles session request path'
    · rw [hsettled hsettles, List.mem_insert_iff, or_comm]
      refine or_congr_right ⟨?_, ?_⟩
      · rintro rfl
        exact ⟨action', hreaches, hsettles⟩
      · rintro ⟨action, hreaches', -⟩
        exact (hreaches.unique hreaches').2
    · rw [hunsettled hsettles]
      refine (or_iff_left ?_).symm
      rintro ⟨action, hreaches', hsettles'⟩
      rw [(hreaches.unique hreaches').2] at hsettles'
      exact hsettles hsettles'
  · push Not at hother
    rw [(perform_of_not_reaches hother).2]
    refine (or_iff_left ?_).symm
    rintro ⟨action, hreaches, -⟩
    exact hother action path hreaches

/-- **What is touched**: the paths of the handlers that settle. -/
theorem mem_touched_run
    (hr : Run (ToolCallRequest.perform P session) (startMediation contents) h M) :
    path ∈ M.touched ↔
      ∃ e ∈ h, ∃ action, Reaches P session e.op action path ∧ Settles session e.op path := by
  refine hr.inv (I := fun h M => path ∈ M.touched ↔
    ∃ e ∈ h, ∃ action, Reaches P session e.op action path ∧ Settles session e.op path) ?_ ?_
  · simp [startMediation]
  · intro h M request _ ih
    rw [mem_touched_perform, ih]
    simp [or_and_right, exists_or]

/-- A step changes a path when its call reaches a handler that changes it. -/
theorem changedIn_iff {e : MediationEntry}
    (he : e = Entry.perform (ToolCallRequest.perform P session) e.before e.op) :
    ChangedIn e path ↔ (∃ action, Reaches P session e.op action path) ∧
      e.op.world.change (e.before.contents path) ≠ e.before.contents path := by
  have hafter : e.after = (e.op.perform P session e.before).2 := congrArg Entry.after he
  have hcontent : ∀ action, Reaches P session e.op action path →
      e.after.contents path = e.op.world.change (e.before.contents path) := by
    intro action hreaches
    obtain ⟨decision, -, -, hcontents, -⟩ := perform_of_reaches (M := e.before) hreaches
    rw [hafter, hcontents, Function.update_self]
  rw [ChangedIn]
  constructor
  · rintro ⟨⟨action, hmutates, hhandled⟩, hchanged⟩
    rw [hafter] at hhandled
    have hreaches := handled_iff.mp ⟨hmutates, hhandled⟩
    exact ⟨⟨action, hreaches⟩, hcontent action hreaches ▸ hchanged⟩
  · rintro ⟨⟨action, hreaches⟩, hchanged⟩
    refine ⟨⟨action, hreaches.mutates, ?_⟩, hcontent action hreaches ▸ hchanged⟩
    rw [hafter]
    exact (handled_iff.mpr hreaches).2

/-- **Which runs touch all that was changed**: those where each changed path is also the path of a
handler that settles. The broker and the permit come first in all of them. -/
theorem touchedComplete_iff
    (hr : Run (ToolCallRequest.perform P session) (startMediation contents) h M) :
    ((∀ e ∈ h, MediatesWell P session e) ∧ ∀ e ∈ h, ∀ path, ChangedIn e path → path ∈ M.touched) ↔
      SettlesChanges P session h := by
  have hmediates : ∀ e ∈ h, MediatesWell P session e := by
    intro e he
    rw [hr.eq_perform he]
    exact mediates _ _
  rw [and_iff_right hmediates]
  refine forall₂_congr fun e he => ?_
  constructor
  · intro htouched action path hreaches hchanged
    exact (mem_touched_run hr).mp
      (htouched path ((changedIn_iff (hr.eq_perform he)).mpr ⟨⟨action, hreaches⟩, hchanged⟩))
  · intro hsettles path hchanged
    obtain ⟨⟨action, hreaches⟩, hchanged⟩ := (changedIn_iff (hr.eq_perform he)).mp hchanged
    exact (mem_touched_run hr).mpr (hsettles action path hreaches hchanged)

end

/-! ### An edit that raises -/

/-- A session that may edit one file. -/
def editSession : GovernedSession where
  broker := { tools := ["edit_file"], grants := [{ path := "a.py", allow := {"write_existing"} }] }
  permit := {
    permitId := "permit:p1", subjectDigest := "sha256:s", shownDigest := "sha256:d"
    userEventId := "u1", scopeId := "s", purpose := "execute", audience := "ada", nonce := "n"
    issuedAt := 1, expiresAt := 10, signature := "00" }
  trustRoot := ⟨fun _ _ => true⟩
  subjectDigest := "sha256:s"
  root := ["work"]

/-- An edit of the file, whose handler writes it and raises. -/
def raisingEdit : ToolCallRequest where
  name := "edit_file"
  args := [(.str "file_path", .str "a.py")]
  world := {
    found := fun _ => true, preexisting := fun _ => true
    decided := 2, revoked := fun _ => false, applied := 3, revokedLater := fun _ => false
    auditRaises := fun _ => false, change := fun _ => some .empty
    outcome := .error (.python "TimeoutError" "edit timed out") }

theorem reaches_raisingEdit :
    Reaches Primitives.ascii editSession raisingEdit "write_existing" "a.py" where
  mapped := by rfl
  mutates := by decide
  allowed := ⟨⟨true, "ALLOWED", "a.py"⟩, by decide, rfl⟩
  audited := rfl
  permitted := by decide

/-- The run of this one edit. -/
def raisingRun : List MediationEntry :=
  [Entry.perform (ToolCallRequest.perform Primitives.ascii editSession)
    (startMediation fun _ => none) raisingEdit]

theorem run_raisingRun : ∃ M, Run (ToolCallRequest.perform Primitives.ascii editSession)
    (startMediation fun _ => none) raisingRun M :=
  ⟨_, Run.nil.snoc raisingEdit⟩

/-- Whether this run touches all that was changed is decided by what settles. -/
theorem touchedComplete_iff_raisingRun : ∃ M : Mediation,
    (((∀ e ∈ raisingRun, MediatesWell Primitives.ascii editSession e) ∧
      ∀ e ∈ raisingRun, ∀ path, ChangedIn e path → path ∈ M.touched) ↔
        SettlesChanges Primitives.ascii editSession raisingRun) := by
  obtain ⟨M, hr⟩ := run_raisingRun
  exact ⟨M, touchedComplete_iff hr⟩

/-- **A file is changed and not touched**, when its handler raises after a write. -/
theorem not_touchedComplete : ¬∀ (P : Primitives) (session : GovernedSession)
    (contents : String → Option ByteArray) (h : List MediationEntry) (M : Mediation),
    Run (ToolCallRequest.perform P session) (startMediation contents) h M →
      (∀ e ∈ h, MediatesWell P session e) ∧
        ∀ e ∈ h, ∀ path, ChangedIn e path → path ∈ M.touched := by
  intro hclaim
  obtain ⟨M, hr⟩ := run_raisingRun
  obtain ⟨-, htouched⟩ := hclaim _ _ _ _ _ hr
  have hmem := List.mem_singleton_self
    (Entry.perform (ToolCallRequest.perform Primitives.ascii editSession)
      (startMediation fun _ => none) raisingEdit)
  have hchanged : ChangedIn _ "a.py" := (changedIn_iff (hr.eq_perform hmem)).mpr
    ⟨⟨"write_existing", reaches_raisingEdit⟩, by simp [raisingEdit, startMediation]⟩
  obtain ⟨e, he, action, -, hsettles⟩ := (mem_touched_run hr).mp (htouched _ hmem "a.py" hchanged)
  obtain rfl := List.mem_singleton.mp he
  obtain ⟨result, hreturned, -⟩ := hsettles.returned
  simp [raisingEdit] at hreturned

end Dcode

end CyranoAgent
