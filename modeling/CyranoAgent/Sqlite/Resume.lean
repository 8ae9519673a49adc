import CyranoAgent.Lib.Run
import CyranoAgent.Sqlite.RepositorySpec

/-!
# What a resumed run finds

The calls of `ScopedRepository` that keep what a run needs to go on after an interruption:
reservations of external effects, decisions of nodes, responses, approvals and checkpoints. Their
tables stand beside the ledger's, and `delete_stream` does not touch them.

`ResumeCall.act` is the machine of these calls and of those on the ledger. Keys of effects and ids
of approvals are shared by all scopes.
-/

namespace CyranoAgent

open Lib Lib.Action

/-- The states of an effect. -/
inductive EffectStatus
  | reserved | dispatched | unknown | cancelled
  deriving DecidableEq, Repr

/-- A row of `effect_reservations`. -/
structure EffectRow where
  effectKey : String
  scopeId : String
  streamId : String
  status : EffectStatus
  requestDigest : String
  deriving DecidableEq, Repr

/-- A row of `node_reservations`. -/
structure NodeRow where
  streamId : String
  nodeId : String
  decisionId : String
  deriving DecidableEq, Repr

/-- A row of `responses`. -/
structure ResponseRow where
  streamId : String
  requestId : String
  payloadDigest : String
  receivedAt : String
  deriving DecidableEq, Repr

/-- A row of `subjects`. -/
structure SubjectRow where
  subjectDigest : String
  schemaType : String
  projectionVersion : ℕ
  scopeId : String
  rawDigest : String
  deriving DecidableEq, Repr

/-- A row of `approvals`. The expiry is stored as text, and read back through `int`; the model
keeps the integer. -/
structure ApprovalRow where
  approvalId : String
  subjectDigest : String
  scopeId : String
  purpose : String
  issuer : String
  audience : String
  nonce : String
  issuedAt : String
  expiresAt : ℤ
  signatureRef : String
  revokedRevision : Option ℤ
  deriving DecidableEq, Repr

/-- A row of `checkpoints`. The body is stored as text; the model keeps its bytes. -/
structure CheckpointRow where
  streamId : String
  formatVersion : ℤ
  bodyDigest : String
  body : ByteArray
  deriving DecidableEq

/-- The ledger, and the tables of what a run is resumed from. -/
structure ResumeStore where
  ledger : Ledger := {}
  effects : List EffectRow := []
  nodes : List NodeRow := []
  responses : List ResponseRow := []
  subjects : List SubjectRow := []
  approvals : List ApprovalRow := []
  checkpoints : List CheckpointRow := []
  deriving DecidableEq

/-- A call on the store. -/
abbrev ResumeOp (α : Type) := Action ResumeStore Failure α

namespace ResumeStore

variable (S : ResumeStore)

/-- The reservation of an effect. -/
def effect? (effectKey : String) : Option EffectRow :=
  S.effects.find? fun row => row.effectKey = effectKey

/-- The reservation of a node. -/
def node? (streamId nodeId : String) : Option NodeRow :=
  S.nodes.find? fun row => row.streamId = streamId ∧ row.nodeId = nodeId

/-- The response to a request. -/
def response? (streamId requestId : String) : Option ResponseRow :=
  S.responses.find? fun row => (row.streamId, row.requestId) = (streamId, requestId)

/-- An approval. -/
def approval? (approvalId : String) : Option ApprovalRow :=
  S.approvals.find? fun row => row.approvalId = approvalId

/-- The checkpoint of a stream. -/
def checkpoint? (streamId : String) : Option CheckpointRow :=
  S.checkpoints.find? fun row => row.streamId = streamId

end ResumeStore

/-- A violated foreign key. -/
def Failure.foreignKey : Failure := .python "IntegrityError" "FOREIGN KEY constraint failed"

namespace Resume

/-- A call on the ledger. -/
def onLedger {α : Type} (op : Op α) : ResumeOp α :=
  zoom ResumeStore.ledger (fun L S => { S with ledger := L }) op

/-- `UPDATE effect_reservations SET status=… WHERE effect_key=? AND status=…`. -/
def moveEffects (effectKey : String) (old new : EffectStatus) (S : ResumeStore) : ResumeStore :=
  { S with
    effects := Rows.update (fun row => row.effectKey = effectKey ∧ row.status = old)
      (fun row => { row with status := new }) S.effects }

/-- `dispatch_effect`. -/
def dispatchEffect (effectKey : String) : ResumeOp Unit :=
  transaction do
    let S ← get
    modify (moveEffects effectKey .reserved .dispatched)
    raiseIf ((S.effects.filter fun row =>
        row.effectKey = effectKey ∧ row.status = .reserved).length ≠ 1)
      (.cyrano "EFFECT_NOT_RESERVED" effectKey)

/-- `mark_effect_unknown`. -/
def markEffectUnknown (effectKey : String) : ResumeOp Unit :=
  transaction (modify (moveEffects effectKey .dispatched .unknown))

/-- `revoke_approval`. -/
def revokeApproval (approvalId : String) (revision : ℤ) : ResumeOp Unit :=
  transaction do
    raiseIf (¬Repository.Bindable revision) Failure.overflow
    modify fun S => { S with
      approvals := Rows.update (fun row => row.approvalId = approvalId)
        (fun row => { row with revokedRevision := some revision }) S.approvals }

/-- The body of the artifact of every approval. -/
def approvalBody : ByteArray := "\x7b\x7d".toByteArray

/-- `record_approval`. A row that is there already does not look up its scope. -/
def recordApproval (scopeId approvalId subjectDigest : String) (expiresAt : ℤ) : ResumeOp Unit :=
  transaction do
    let S ← get
    let unknown := S.ledger.scopes.all fun row => row.scopeId ≠ scopeId
    raiseIf (unknown ∧ S.ledger.artifacts.all fun row => row.rawDigest ≠ rawDigest approvalBody)
      .foreignKey
    let raw ← onLedger (Repository.artifact scopeId approvalBody)
    raiseIf (unknown ∧ S.subjects.all fun row => row.subjectDigest ≠ subjectDigest) .foreignKey
    modify fun S => { S with
      subjects := Rows.insertOrIgnore (·.subjectDigest)
        ⟨subjectDigest, "generic", 1, scopeId, raw⟩ S.subjects }
    -- the id is the nonce as well, and SQLite looks at the later index first
    raiseIf (S.approval? approvalId).isSome (Failure.unique "approvals.nonce")
    raiseIf unknown .foreignKey
    modify fun S => { S with
      approvals := S.approvals ++ [⟨approvalId, subjectDigest, scopeId, "execute", "test",
        "runner", approvalId, "0", expiresAt, "sig", none⟩] }

/-- `approval_usable`. -/
def approvalUsable (S : ResumeStore) (approvalId : String) (now : ℤ) : Bool :=
  match S.approval? approvalId with
  | none => false
  | some row => row.revokedRevision.isNone && decide (now < row.expiresAt)

/-- `response_for`. -/
def responseFor (scopeId streamId requestId : String) : ResumeOp (Option String) := do
  onLedger (Repository.requireScope scopeId streamId)
  return ((← get).response? streamId requestId).map (·.payloadDigest)

section

variable (P : Primitives)

/-- `reserve_effect`. -/
def reserveEffect (scopeId streamId effectKey : String) (request : PyMapping) :
    ResumeOp Bool := do
  let requestDigest ← lift (digest P (.dict request))
  transaction do
    onLedger (Repository.requireScope scopeId streamId)
    match (← get).effect? effectKey with
    | some row => do
      raiseIf (row.requestDigest ≠ requestDigest) (.cyrano "IDEMPOTENCY_CONFLICT" effectKey)
      return false
    | none => do
      modify fun S => { S with
        effects := S.effects ++ [⟨effectKey, scopeId, streamId, .reserved, requestDigest⟩] }
      return true

/-- The value whose digest is the decision of a node. -/
def nodeValue (streamId nodeId : String) : PyValue :=
  .dict [(.str "stream", .str streamId), (.str "node", .str nodeId)]

/-- `reserve_node`. -/
def reserveNode (scopeId streamId nodeId : String) : ResumeOp String :=
  transaction do
    onLedger (Repository.requireScope scopeId streamId)
    match (← get).node? streamId nodeId with
    | some row => return row.decisionId
    | none => do
      let decision ← lift (digest P (nodeValue streamId nodeId))
      modify fun S => { S with nodes := S.nodes ++ [⟨streamId, nodeId, decision⟩] }
      return decision

/-- `record_response`. -/
def recordResponse (scopeId streamId requestId : String) (payload : PyMapping) : ResumeOp Unit :=
  transaction do
    onLedger (Repository.requireScope scopeId streamId)
    let payloadDigest ← lift (digest P (.dict payload))
    modify fun S => { S with
      responses := Rows.replace (fun row => (row.streamId, row.requestId))
        ⟨streamId, requestId, payloadDigest, "now"⟩ S.responses }

/-- `write_checkpoint`. -/
def writeCheckpoint (streamId : String) (formatVersion : ℤ) (body : PyMapping) :
    ResumeOp Unit := do
  let data ← lift (canonicalBytes P (.dict body))
  transaction do
    raiseIf (¬Repository.Bindable formatVersion) Failure.overflow
    modify fun S => { S with
      checkpoints := Rows.replace (·.streamId) ⟨streamId, formatVersion, rawDigest data, data⟩
        S.checkpoints }

/-- `read_checkpoint`. Bytes that `json.loads` does not read raise its `JSONDecodeError`. -/
def readCheckpoint (S : ResumeStore) (streamId : String) (readerVersion : ℤ) :
    Except Failure PyValue :=
  match S.checkpoint? streamId with
  | none => .error (.cyrano "CORRUPT_CHECKPOINT" "no checkpoint recorded")
  | some row =>
    if readerVersion < row.formatVersion then
      .error (.cyrano "VERSION_CONFLICT" ("checkpoint v" ++ toString row.formatVersion ++
        " exceeds reader v" ++ toString readerVersion))
    else if rawDigest row.body ≠ row.bodyDigest then
      .error (.cyrano "CORRUPT_CHECKPOINT" "checkpoint digest mismatch")
    else match P.loads row.body with
      | some value => .ok value
      | none => .error (.python "JSONDecodeError" "")

end

end Resume

/-! ### The store as a machine -/

/-- The transactions on the store. -/
inductive ResumeCall
  | onLedger (call : Call)
  | reserveEffect (scopeId streamId effectKey : String) (request : PyMapping)
  | dispatchEffect (effectKey : String)
  | markEffectUnknown (effectKey : String)
  | reserveNode (scopeId streamId nodeId : String)
  | recordResponse (scopeId streamId requestId : String) (payload : PyMapping)
  | recordApproval (scopeId approvalId subjectDigest : String) (expiresAt : ℤ)
  | revokeApproval (approvalId : String) (revision : ℤ)
  | writeCheckpoint (streamId : String) (formatVersion : ℤ) (body : PyMapping)

/-- What a call returns. -/
inductive ResumeReply
  | done
  | ledger (reply : Reply)
  | granted (fresh : Bool)
  | decision (id : String)
  deriving DecidableEq, Repr

/-- The action of a call. -/
def ResumeCall.op (P : Primitives) : ResumeCall → ResumeOp ResumeReply
  | .onLedger call => ResumeReply.ledger <$> Resume.onLedger (call.op P)
  | .reserveEffect scopeId streamId effectKey request =>
    ResumeReply.granted <$> Resume.reserveEffect P scopeId streamId effectKey request
  | .dispatchEffect effectKey => (fun _ => .done) <$> Resume.dispatchEffect effectKey
  | .markEffectUnknown effectKey => (fun _ => .done) <$> Resume.markEffectUnknown effectKey
  | .reserveNode scopeId streamId nodeId =>
    ResumeReply.decision <$> Resume.reserveNode P scopeId streamId nodeId
  | .recordResponse scopeId streamId requestId payload =>
    (fun _ => .done) <$> Resume.recordResponse P scopeId streamId requestId payload
  | .recordApproval scopeId approvalId subjectDigest expiresAt =>
    (fun _ => .done) <$> Resume.recordApproval scopeId approvalId subjectDigest expiresAt
  | .revokeApproval approvalId revision =>
    (fun _ => .done) <$> Resume.revokeApproval approvalId revision
  | .writeCheckpoint streamId formatVersion body =>
    (fun _ => .done) <$> Resume.writeCheckpoint P streamId formatVersion body

/-- Perform a call: its reply or exception, and the store it leaves. -/
def ResumeCall.act (P : Primitives) (call : ResumeCall) (S : ResumeStore) :
    Except Failure ResumeReply × ResumeStore :=
  (call.op P).run S

/-- One call of a history of the store. -/
abbrev ResumeEntry := Entry ResumeStore ResumeCall (Except Failure ResumeReply)

/-- The calls of `h`, in order, lead from an empty store to `S`. -/
abbrev ResumeHistory (P : Primitives) (h : List ResumeEntry) (S : ResumeStore) : Prop :=
  Run (ResumeCall.act P) {} h S

/-! ### What a call does -/

/-- What a call does, with its reply. -/
inductive ResumeMoves (P : Primitives) (S : ResumeStore) :
    ResumeCall → Except Failure ResumeReply → ResumeStore → Prop
  | onLedger (call : Call) :
      ResumeMoves P S (.onLedger call) ((call.act P S.ledger).1.map .ledger)
        { S with ledger := (call.act P S.ledger).2 }
  | refused (call : ResumeCall) (err : Failure) : ResumeMoves P S call (.error err) S
  | reserved {scopeId streamId effectKey requestDigest : String} {request : PyMapping} :
      S.ledger.Owns scopeId streamId → digest P (.dict request) = .ok requestDigest →
      S.effect? effectKey = none →
      ResumeMoves P S (.reserveEffect scopeId streamId effectKey request) (.ok (.granted true))
        { S with effects :=
          S.effects ++ [⟨effectKey, scopeId, streamId, .reserved, requestDigest⟩] }
  | repeated {scopeId streamId effectKey : String} {request : PyMapping} {row : EffectRow} :
      S.ledger.Owns scopeId streamId → digest P (.dict request) = .ok row.requestDigest →
      S.effect? effectKey = some row →
      ResumeMoves P S (.reserveEffect scopeId streamId effectKey request) (.ok (.granted false)) S
  | dispatched {effectKey : String} {row : EffectRow} :
      row ∈ S.effects → row.effectKey = effectKey → row.status = .reserved →
      ResumeMoves P S (.dispatchEffect effectKey) (.ok .done)
        (Resume.moveEffects effectKey .reserved .dispatched S)
  | marked (effectKey : String) :
      ResumeMoves P S (.markEffectUnknown effectKey) (.ok .done)
        (Resume.moveEffects effectKey .dispatched .unknown S)
  | resumed {scopeId streamId nodeId : String} {row : NodeRow} :
      S.ledger.Owns scopeId streamId → S.node? streamId nodeId = some row →
      ResumeMoves P S (.reserveNode scopeId streamId nodeId) (.ok (.decision row.decisionId)) S
  | decided {scopeId streamId nodeId decision : String} :
      S.ledger.Owns scopeId streamId → S.node? streamId nodeId = none →
      digest P (Resume.nodeValue streamId nodeId) = .ok decision →
      ResumeMoves P S (.reserveNode scopeId streamId nodeId) (.ok (.decision decision))
        { S with nodes := S.nodes ++ [⟨streamId, nodeId, decision⟩] }
  | responded {scopeId streamId requestId payloadDigest : String} {payload : PyMapping} :
      S.ledger.Owns scopeId streamId → digest P (.dict payload) = .ok payloadDigest →
      ResumeMoves P S (.recordResponse scopeId streamId requestId payload) (.ok .done)
        { S with
          responses := Rows.replace (fun row => (row.streamId, row.requestId))
            ⟨streamId, requestId, payloadDigest, "now"⟩ S.responses }
  | approved {scopeId approvalId subjectDigest : String} {expiresAt : ℤ} (ledger : Ledger)
      (subjects : List SubjectRow) :
      (∃ row ∈ S.ledger.scopes, row.scopeId = scopeId) → S.approval? approvalId = none →
      ResumeMoves P S (.recordApproval scopeId approvalId subjectDigest expiresAt) (.ok .done)
        { S with
          ledger := ledger
          subjects := subjects
          approvals := S.approvals ++ [⟨approvalId, subjectDigest, scopeId, "execute", "test",
            "runner", approvalId, "0", expiresAt, "sig", none⟩] }
  | revoked (approvalId : String) (revision : ℤ) :
      ResumeMoves P S (.revokeApproval approvalId revision) (.ok .done)
        { S with
          approvals := Rows.update (fun row => row.approvalId = approvalId)
            (fun row => { row with revokedRevision := some revision }) S.approvals }
  | checkpointed {streamId : String} {formatVersion : ℤ} {body : PyMapping} {data : ByteArray} :
      canonicalBytes P (.dict body) = .ok data →
      ResumeMoves P S (.writeCheckpoint streamId formatVersion body) (.ok .done)
        { S with
          checkpoints := Rows.replace (·.streamId)
            ⟨streamId, formatVersion, rawDigest data, data⟩ S.checkpoints }

namespace Resume

variable {P : Primitives} {S S' : ResumeStore} {α : Type}

@[simp] theorem onLedger_eq_ok {op : Op α} {a : α} :
    (onLedger op).run S = (.ok a, S') ↔
      ∃ L, op.run S.ledger = (.ok a, L) ∧ { S with ledger := L } = S' := by
  rw [onLedger, run_zoom]
  rcases op.run S.ledger with ⟨_ | _, _⟩ <;> simp

/-- The scope of a stream is looked up in the ledger. -/
theorem requireScope_eq_ok {scopeId streamId : String} {u : Unit} :
    (onLedger (Repository.requireScope scopeId streamId)).run S = (.ok u, S') ↔
      S.ledger.Owns scopeId streamId ∧ S = S' := by
  simp

/-- **A call that raises leaves the store as it was**, but for a call on the ledger. -/
theorem op_atomic {call : ResumeCall} (hcall : ∀ c, call ≠ .onLedger c) :
    Atomic (call.op P) := by
  cases call with
  | onLedger c => exact absurd rfl (hcall c)
  | reserveEffect =>
    exact Atomic.map (Atomic.bind (readOnly_lift _) fun _ => atomic_transaction _)
  | writeCheckpoint =>
    exact Atomic.map (Atomic.bind (readOnly_lift _) fun _ => atomic_transaction _)
  | _ => exact Atomic.map (atomic_transaction _)

theorem reserveEffect_moves {scopeId streamId effectKey : String} {request : PyMapping}
    {fresh : Bool}
    (h : (reserveEffect P scopeId streamId effectKey request).run S = (.ok fresh, S')) :
    ResumeMoves P S (.reserveEffect scopeId streamId effectKey request) (.ok (.granted fresh))
      S' := by
  simp only [reserveEffect, bind_eq_ok, lift_eq_ok, transaction_eq_ok, requireScope_eq_ok, run_get,
    Prod.mk.injEq, Except.ok.injEq] at h
  obtain ⟨requestDigest, _, ⟨hdigest, rfl⟩, _, _, ⟨howns, rfl⟩, _, _, ⟨rfl, rfl⟩, h⟩ := h
  cases hrow : S.effect? effectKey with
  | none =>
    simp only [hrow, bind_eq_ok, run_modify, run_pure, Prod.mk.injEq, Except.ok.injEq] at h
    obtain ⟨_, _, ⟨-, rfl⟩, rfl, rfl⟩ := h
    exact .reserved howns hdigest hrow
  | some row =>
    simp only [hrow, bind_eq_ok, raiseIf_eq_ok, not_not, run_pure, Prod.mk.injEq,
      Except.ok.injEq] at h
    obtain ⟨_, _, ⟨rfl, rfl⟩, rfl, rfl⟩ := h
    exact .repeated howns hdigest hrow

theorem dispatchEffect_moves {effectKey : String}
    (h : (dispatchEffect effectKey).run S = (.ok (), S')) :
    ResumeMoves P S (.dispatchEffect effectKey) (.ok .done) S' := by
  simp only [dispatchEffect, transaction_eq_ok, bind_eq_ok, run_get, run_modify, raiseIf_eq_ok,
    Prod.mk.injEq, Except.ok.injEq, not_not] at h
  obtain ⟨_, _, ⟨rfl, rfl⟩, _, _, ⟨-, rfl⟩, hcount, rfl⟩ := h
  obtain ⟨row, hrow⟩ := List.length_eq_one_iff.mp hcount
  have hmem : row ∈ S.effects.filter fun row =>
      row.effectKey = effectKey ∧ row.status = .reserved := hrow ▸ List.mem_singleton.mpr rfl
  obtain ⟨hmem, hp⟩ := List.mem_filter.mp hmem
  exact .dispatched hmem (of_decide_eq_true hp).1 (of_decide_eq_true hp).2

theorem markEffectUnknown_moves {effectKey : String}
    (h : (markEffectUnknown effectKey).run S = (.ok (), S')) :
    ResumeMoves P S (.markEffectUnknown effectKey) (.ok .done) S' := by
  simp only [markEffectUnknown, transaction_eq_ok, run_modify, Prod.mk.injEq, true_and] at h
  obtain rfl := h
  exact .marked effectKey

theorem reserveNode_moves {scopeId streamId nodeId decision : String}
    (h : (reserveNode P scopeId streamId nodeId).run S = (.ok decision, S')) :
    ResumeMoves P S (.reserveNode scopeId streamId nodeId) (.ok (.decision decision)) S' := by
  simp only [reserveNode, transaction_eq_ok, bind_eq_ok, requireScope_eq_ok, run_get,
    Prod.mk.injEq, Except.ok.injEq] at h
  obtain ⟨_, _, ⟨howns, rfl⟩, _, _, ⟨rfl, rfl⟩, h⟩ := h
  cases hrow : S.node? streamId nodeId with
  | none =>
    simp only [hrow, bind_eq_ok, lift_eq_ok, run_modify, run_pure, Prod.mk.injEq,
      Except.ok.injEq] at h
    obtain ⟨_, _, ⟨hdigest, rfl⟩, _, _, ⟨-, rfl⟩, rfl, rfl⟩ := h
    exact .decided howns hrow hdigest
  | some row =>
    simp only [hrow, run_pure, Prod.mk.injEq, Except.ok.injEq] at h
    obtain ⟨rfl, rfl⟩ := h
    exact .resumed howns hrow

theorem recordResponse_moves {scopeId streamId requestId : String} {payload : PyMapping}
    (h : (recordResponse P scopeId streamId requestId payload).run S = (.ok (), S')) :
    ResumeMoves P S (.recordResponse scopeId streamId requestId payload) (.ok .done) S' := by
  simp only [recordResponse, transaction_eq_ok, bind_eq_ok, requireScope_eq_ok, lift_eq_ok,
    run_modify, Prod.mk.injEq, true_and] at h
  obtain ⟨_, _, ⟨howns, rfl⟩, _, _, ⟨hdigest, rfl⟩, rfl⟩ := h
  exact .responded howns hdigest

theorem recordApproval_moves {scopeId approvalId subjectDigest : String} {expiresAt : ℤ}
    (h : (recordApproval scopeId approvalId subjectDigest expiresAt).run S = (.ok (), S')) :
    ResumeMoves P S (.recordApproval scopeId approvalId subjectDigest expiresAt) (.ok .done)
      S' := by
  simp only [recordApproval, transaction_eq_ok, bind_eq_ok, run_get, raiseIf_eq_ok,
    onLedger_eq_ok, Repository.artifact, run_modify, run_pure, Prod.mk.injEq, Except.ok.injEq,
    true_and] at h
  obtain ⟨_, _, ⟨rfl, rfl⟩, _, _, ⟨-, rfl⟩, _, _, ⟨_, ⟨_, _, ⟨-, rfl⟩, rfl, rfl⟩, rfl⟩, _, _,
    ⟨-, rfl⟩, _, _, ⟨-, rfl⟩, _, _, ⟨hfresh, rfl⟩, _, _, ⟨hscope, rfl⟩, rfl⟩ := h
  refine .approved _ _ ?_ ?_
  · simpa using hscope
  · simpa using hfresh

theorem revokeApproval_moves {approvalId : String} {revision : ℤ}
    (h : (revokeApproval approvalId revision).run S = (.ok (), S')) :
    ResumeMoves P S (.revokeApproval approvalId revision) (.ok .done) S' := by
  simp only [revokeApproval, transaction_eq_ok, bind_eq_ok, raiseIf_eq_ok, run_modify,
    Prod.mk.injEq, true_and] at h
  obtain ⟨_, _, ⟨-, rfl⟩, rfl⟩ := h
  exact .revoked approvalId revision

theorem writeCheckpoint_moves {streamId : String} {formatVersion : ℤ} {body : PyMapping}
    (h : (writeCheckpoint P streamId formatVersion body).run S = (.ok (), S')) :
    ResumeMoves P S (.writeCheckpoint streamId formatVersion body) (.ok .done) S' := by
  simp only [writeCheckpoint, transaction_eq_ok, bind_eq_ok, lift_eq_ok, raiseIf_eq_ok,
    run_modify, Prod.mk.injEq, true_and] at h
  obtain ⟨_, _, ⟨hdata, rfl⟩, _, _, ⟨-, rfl⟩, rfl⟩ := h
  exact .checkpointed hdata

end Resume

/-- **What a call does**, whether it returns or raises. -/
theorem ResumeCall.act_moves (P : Primitives) (call : ResumeCall) (S : ResumeStore) :
    ResumeMoves P S call (call.act P S).1 (call.act P S).2 := by
  by_cases hledger : ∃ c, call = .onLedger c
  · obtain ⟨c, rfl⟩ := hledger
    rw [ResumeCall.act, ResumeCall.op, run_map]
    exact .onLedger c
  rcases hact : call.act P S with ⟨err | reply, S'⟩
  · obtain rfl := Resume.op_atomic (fun c hc => hledger ⟨c, hc⟩) hact
    exact .refused call err
  · cases call with
    | onLedger c => exact absurd ⟨c, rfl⟩ hledger
    | reserveEffect =>
      obtain ⟨_, h, rfl⟩ := map_eq_ok.mp hact
      exact Resume.reserveEffect_moves h
    | dispatchEffect =>
      obtain ⟨_, h, rfl⟩ := map_eq_ok.mp hact
      exact Resume.dispatchEffect_moves h
    | markEffectUnknown effectKey =>
      obtain ⟨_, h, rfl⟩ := map_eq_ok.mp hact
      exact Resume.markEffectUnknown_moves h
    | reserveNode =>
      obtain ⟨_, h, rfl⟩ := map_eq_ok.mp hact
      exact Resume.reserveNode_moves h
    | recordResponse =>
      obtain ⟨_, h, rfl⟩ := map_eq_ok.mp hact
      exact Resume.recordResponse_moves h
    | recordApproval =>
      obtain ⟨_, h, rfl⟩ := map_eq_ok.mp hact
      exact Resume.recordApproval_moves h
    | revokeApproval =>
      obtain ⟨_, h, rfl⟩ := map_eq_ok.mp hact
      exact Resume.revokeApproval_moves h
    | writeCheckpoint =>
      obtain ⟨_, h, rfl⟩ := map_eq_ok.mp hact
      exact Resume.writeCheckpoint_moves h

end CyranoAgent
