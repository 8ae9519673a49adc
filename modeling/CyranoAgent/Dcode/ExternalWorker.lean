import CyranoAgent.Lib.Dict
import CyranoAgent.Lib.Run
import CyranoAgent.Sqlite.Repository

/-!
# Delegation to external workers

A gateway records a delegation as submitted, hands its envelope to the port, and records what the
transport made of it. `_record` is an upsert: it overwrites the state and the reference that an
earlier call, of any gateway, has recorded.

`Workers` is a ledger with the gateways on it and what their ports were handed. `submit_cases` says
what a call may do, and `noBlindRedispatch_iff` in which runs no delegation is dispatched blindly.
-/

namespace CyranoAgent

open Lib Lib.Action

namespace Dcode

/-- `DelegationEnvelope`. -/
structure DelegationEnvelope where
  delegationId : String
  taskId : String
  generation : ℤ
  protocol : String
  protocolRevision : String
  peerIdentity : String
  capabilitySnapshot : String
  workspaceMapping : String
  inputRefs : List String
  budgetRef : String
  deadlineAt : String
  executionPermitRef : String
  expectedOutputContract : String
  deriving DecidableEq

/-- The states that a gateway records. -/
inductive DelegationState
  | submitted | rejected | unknown
  deriving DecidableEq, Repr

/-- A row of `external_delegations`. -/
structure DelegationRow where
  scopeId : String
  streamId : String
  generation : ℤ
  state : DelegationState
  externalRef : Option String
  recordedAt : String
  deriving DecidableEq

/-- `DelegationReceipt`. -/
structure DelegationReceipt where
  delegationId : String
  externalRef : Option String
  state : DelegationState
  deriving DecidableEq

/-- The stages of a gateway. -/
inductive Stage
  | unknown | configured | verified | authorized | active
  deriving DecidableEq, Repr

/-- `Stage`, as a text. -/
def Stage.text : Stage → String
  | .unknown => "unknown"
  | .configured => "configured"
  | .verified => "verified"
  | .authorized => "authorized"
  | .active => "active"

/-- `ExternalWorkerGateway`, on the ledger, as far as `submit` reads it. -/
structure Gateway where
  hasPort : Bool
  scopeId : String
  stage : Stage
  schemaDigest : Option String := none

/-- What becomes of a call of the port: it returns a reference, refuses with a `CyranoError`, or
raises another exception; or the process ends, after the port was reached or before. -/
inductive Transport
  | accepted (externalRef : String)
  | refused (code message : String)
  | failed
  | lost
  | unsent
  deriving DecidableEq

/-- The delegations of a ledger by their ids, the gateways on it, and what ports were handed. -/
structure Workers where
  ledger : Dict String DelegationRow := ∅
  gateways : List Gateway := []
  handed : List DelegationEnvelope := []

/-- `PROTOCOLS`. -/
def protocols : List String := ["acp", "a2a"]

/-- An action on the workers. -/
abbrev WorkerOp (α : Type) := Action Workers Failure α

namespace Gateway

/-- `ExternalWorkerGateway`. -/
def make (hasPort : Bool) (scopeId : String) : Gateway where
  hasPort
  scopeId
  stage := if hasPort then .configured else .unknown

/-- `pin_schema`. -/
def pinSchema (g : Gateway) (schemaDigest : String) : Gateway :=
  { g with
    schemaDigest := some schemaDigest
    stage := if g.stage = .configured then .verified else g.stage }

/-- `authorize`. -/
def authorize (g : Gateway) : Except Failure Gateway :=
  if g.stage ≠ .verified then
    .error (.cyrano "WORKER_UNAVAILABLE" ("cannot authorize from " ++ g.stage.text))
  else .ok { g with stage := .authorized }

/-- What `submit` checks before it records anything. -/
def admission (g : Gateway) (envelope : DelegationEnvelope) : Except Failure Unit :=
  if g.hasPort = false ∨ g.stage ∉ [.authorized, .active] then
    .error (.cyrano "WORKER_UNAVAILABLE" "no authorized external worker")
  else if envelope.protocol ∉ protocols then
    .error (.cyrano "INPUT_INVALID" envelope.protocol)
  else if ∃ schemaDigest ∈ g.schemaDigest, envelope.capabilitySnapshot ≠ schemaDigest then
    .error (.cyrano "CAPABILITY_STALE" "envelope binds a different capability snapshot")
  else .ok ()

end Gateway

/-- The ledger after `_record`: a row that is there keeps its other columns. -/
def recorded (ledger : Dict String DelegationRow) (g : Gateway) (envelope : DelegationEnvelope)
    (state : DelegationState) (externalRef : Option String) (streamId : String) :
    Dict String DelegationRow :=
  match ledger.get? envelope.delegationId with
  | some row => ledger.set envelope.delegationId { row with state, externalRef }
  | none => ledger.set envelope.delegationId
      ⟨g.scopeId, streamId, envelope.generation, state, externalRef, "now"⟩

/-- `_record`. -/
def record (g : Gateway) (envelope : DelegationEnvelope) (state : DelegationState)
    (externalRef : Option String) (streamId : String) : WorkerOp Unit :=
  transaction do
    raiseIf (¬Repository.Bindable envelope.generation) Failure.overflow
    modify fun W => { W with ledger := recorded W.ledger g envelope state externalRef streamId }

/-- `port.submit`, and what `submit` makes of it. -/
def dispatch (i : ℕ) (g : Gateway) (envelope : DelegationEnvelope) (streamId : String)
    (transport : Transport) : WorkerOp DelegationReceipt := do
  modify fun W => { W with handed := W.handed ++ [envelope] }
  match transport with
  | .accepted externalRef => do
    record g envelope .submitted (some externalRef) streamId
    modify fun W => { W with gateways := W.gateways.set i { g with stage := .active } }
    return ⟨envelope.delegationId, some externalRef, .submitted⟩
  | .refused code message => do
    record g envelope .rejected none streamId
    throw (.cyrano code message)
  | .failed => do
    record g envelope .unknown none streamId
    return ⟨envelope.delegationId, none, .unknown⟩
  | .lost | .unsent => throw (.python "KeyboardInterrupt" "")

/-- `submit`. -/
def submit (i : ℕ) (g : Gateway) (envelope : DelegationEnvelope) (streamId : String)
    (transport : Transport) : WorkerOp DelegationReceipt := do
  lift (g.admission envelope)
  record g envelope .submitted none streamId
  if transport = .unsent then throw (.python "KeyboardInterrupt" "")
  else dispatch i g envelope streamId transport

/-- What is done with the gateways of a ledger: they are made anew, also after a restart, pinned,
authorized, and asked to submit. -/
inductive WorkerCall
  | make (hasPort : Bool) (scopeId : String)
  | pinSchema (i : ℕ) (schemaDigest : String)
  | authorize (i : ℕ)
  | submit (i : ℕ) (envelope : DelegationEnvelope) (streamId : String) (transport : Transport)

/-- One call. -/
def WorkerCall.act (call : WorkerCall) : WorkerOp (Option DelegationReceipt) := do
  let W ← get
  match call with
  | .make hasPort scopeId => do
    modify fun W => { W with gateways := W.gateways ++ [.make hasPort scopeId] }
    return none
  | .pinSchema i schemaDigest => do
    modify fun W => { W with gateways := W.gateways.modify i (·.pinSchema schemaDigest) }
    return none
  | .authorize i =>
    match W.gateways[i]? with
    | none => return none
    | some g => do
      let g ← lift g.authorize
      modify fun W => { W with gateways := W.gateways.set i g }
      return none
  | .submit i envelope streamId transport =>
    match W.gateways[i]? with
    | none => return none
    | some g => some <$> Dcode.submit i g envelope streamId transport

/-! ### What a call does -/

/-- The delegation is recorded as submitted or unknown. -/
def Workers.Outstanding (W : Workers) (delegationId : String) : Prop :=
  ∃ row ∈ W.ledger.get? delegationId, row.state ≠ .rejected

/-- The reference is recorded for an outstanding delegation. -/
def Workers.RefOf (W : Workers) (delegationId externalRef : String) : Prop :=
  ∃ row ∈ W.ledger.get? delegationId, row.state ≠ .rejected ∧ row.externalRef = some externalRef

/-- A gateway lets an envelope through to its port. -/
structure Gateway.Admits (g : Gateway) (envelope : DelegationEnvelope) : Prop where
  admitted : g.admission envelope = .ok ()
  bindable : Repository.Bindable envelope.generation

section

variable {W W' : Workers} {g : Gateway} {envelope : DelegationEnvelope} {streamId : String}
  {transport : Transport} {i : ℕ} {ledger : Dict String DelegationRow} {state : DelegationState}
  {externalRef : Option String} {delegationId : String} {call : WorkerCall}

theorem get?_recorded_of_ne (h : delegationId ≠ envelope.delegationId) :
    (recorded ledger g envelope state externalRef streamId).get? delegationId =
      ledger.get? delegationId := by
  rw [recorded]
  split <;> exact Dict.get?_set_of_ne h

variable (ledger g envelope state externalRef streamId) in
/-- What was recorded last is what the row says. -/
theorem get?_recorded_self : ∃ row,
    (recorded ledger g envelope state externalRef streamId).get? envelope.delegationId =
      some row ∧ row.state = state ∧ row.externalRef = externalRef := by
  rw [recorded]
  split <;> exact ⟨_, Dict.get?_set_self, rfl, rfl⟩

theorem run_record (h : Repository.Bindable envelope.generation) :
    (record g envelope state externalRef streamId).run W =
      (.ok (), { W with ledger := recorded W.ledger g envelope state externalRef streamId }) := by
  rw [record, run_transaction, run_raiseIf_skip (not_not.mpr h)]
  rfl

/-- A call that is not let through changes nothing. -/
theorem run_submit_of_not (h : ¬g.Admits envelope) :
    ((submit i g envelope streamId transport).run W).2 = W := by
  rw [submit]
  rcases hadmission : g.admission envelope with e | _
  · rfl
  have hbind : ¬Repository.Bindable envelope.generation := fun hbind => h ⟨hadmission, hbind⟩
  have hrecord : (record g envelope .submitted none streamId).run W =
      (.error Failure.overflow, W) := by
    rw [record, run_transaction, run_raiseIf_bind, if_pos hbind]
  rw [run_bind_ok (run_lift_ok () W), run_bind_error hrecord]

/-- The port is handed the envelope, and no other delegation is touched. -/
theorem run_dispatch (h : Repository.Bindable envelope.generation)
    (hW' : W' = ((dispatch i g envelope streamId transport).run W).2) :
    W'.handed = W.handed ++ [envelope] ∧
      ∀ id ≠ envelope.delegationId, W'.ledger.get? id = W.ledger.get? id := by
  subst hW'
  cases transport with
  | accepted ref =>
    rw [dispatch, run_bind_ok (run_modify _ W), run_bind_ok (run_record h),
      run_bind_ok (run_modify _ _)]
    exact ⟨rfl, fun id hid => get?_recorded_of_ne hid⟩
  | refused code message =>
    rw [dispatch, run_bind_ok (run_modify _ W), run_bind_ok (run_record h)]
    exact ⟨rfl, fun id hid => get?_recorded_of_ne hid⟩
  | failed =>
    rw [dispatch, run_bind_ok (run_modify _ W), run_bind_ok (run_record h)]
    exact ⟨rfl, fun id hid => get?_recorded_of_ne hid⟩
  | lost => exact ⟨rfl, fun _ _ => rfl⟩
  | unsent => exact ⟨rfl, fun _ _ => rfl⟩

/-- **What a call that is let through does**: the port is handed the envelope unless the process
ends before, no other delegation is touched, and without an answer there is no reference. -/
theorem submit_cases (h : g.Admits envelope)
    (hW' : W' = ((submit i g envelope streamId transport).run W).2) :
    W'.handed = (if transport = .unsent then W.handed else W.handed ++ [envelope]) ∧
      (∀ id ≠ envelope.delegationId, W'.ledger.get? id = W.ledger.get? id) ∧
        (transport = .unsent → ∃ row, W'.ledger.get? envelope.delegationId = some row ∧
          row.externalRef = none) := by
  have hlift : (lift (g.admission envelope) : WorkerOp Unit).run W = (.ok (), W) := by
    rw [h.admitted]
    rfl
  rw [submit, run_bind_ok hlift, run_bind_ok (run_record h.bindable), run_ite] at hW'
  by_cases hunsent : transport = .unsent
  · rw [if_pos hunsent] at hW'
    subst hW'
    obtain ⟨row, hrow, -, href⟩ :=
      get?_recorded_self g envelope streamId W.ledger .submitted none
    exact ⟨(if_pos hunsent).symm, fun id hid => get?_recorded_of_ne hid, fun _ => ⟨row, hrow, href⟩⟩
  · rw [if_neg hunsent] at hW'
    obtain ⟨hhanded, hother⟩ := run_dispatch h.bindable hW'
    refine ⟨hhanded.trans (if_neg hunsent).symm, fun id hid => ?_, fun heq => absurd heq hunsent⟩
    exact (hother id hid).trans (get?_recorded_of_ne hid)

theorem run_act_submit (hg : W.gateways[i]? = some g) :
    (((WorkerCall.submit i envelope streamId transport).act).run W).2 =
      ((submit i g envelope streamId transport).run W).2 := by
  rw [WorkerCall.act, run_bind_ok (run_get W)]
  dsimp only
  rw [hg]
  dsimp only
  rw [run_map]

/-- The other calls leave the ledger and the ports alone. -/
theorem act_cases (call : WorkerCall) (W : Workers) :
    (((call.act).run W).2.ledger = W.ledger ∧ ((call.act).run W).2.handed = W.handed) ∨
      ∃ i g envelope streamId transport, call = .submit i envelope streamId transport ∧
        W.gateways[i]? = some g ∧ g.Admits envelope ∧
          ((call.act).run W).2 = ((submit i g envelope streamId transport).run W).2 := by
  cases call with
  | make hasPort scopeId => exact .inl ⟨rfl, rfl⟩
  | pinSchema i schemaDigest => exact .inl ⟨rfl, rfl⟩
  | authorize i =>
    left
    rw [WorkerCall.act, run_bind_ok (run_get W)]
    dsimp only
    rcases W.gateways[i]? with _ | g
    · exact ⟨rfl, rfl⟩
    · dsimp only
      rcases g.authorize with e | g' <;> exact ⟨rfl, rfl⟩
  | submit i envelope streamId transport =>
    rcases hg : W.gateways[i]? with _ | g
    · left
      rw [WorkerCall.act, run_bind_ok (run_get W)]
      dsimp only
      rw [hg]
      exact ⟨rfl, rfl⟩
    · by_cases hadmits : g.Admits envelope
      · exact .inr ⟨i, g, envelope, streamId, transport, rfl, hg, hadmits, run_act_submit hg⟩
      · rw [run_act_submit hg, run_submit_of_not hadmits]
        exact .inl ⟨rfl, rfl⟩

end

/-! ### Runs -/

/-- The machine whose runs are what is done with the gateways of a ledger. -/
def WorkerCall.perform (call : WorkerCall) (W : Workers) :
    Except Failure (Option DelegationReceipt) × Workers := call.act.run W

/-- A step of a run. -/
abbrev WorkerEntry := Entry Workers WorkerCall (Except Failure (Option DelegationReceipt))

/-- No delegation is dispatched blindly: none that is outstanding is handed to a port again, and no
reference that was recorded for one is lost. -/
structure NoBlindRedispatch (h : List WorkerEntry) : Prop where
  notHanded : ∀ e ∈ h, ∀ i envelope streamId transport,
    e.op = .submit i envelope streamId transport → e.before.Outstanding envelope.delegationId →
      e.after.handed = e.before.handed
  kept : ∀ h₁ e h₂, h = h₁ ++ e :: h₂ → ∀ delegationId externalRef,
    e.before.RefOf delegationId externalRef → ∀ e' ∈ e :: h₂,
      e'.after.RefOf delegationId externalRef

/-- The step submits no outstanding delegation that the gateway lets through, unless the process
ends before the port is reached and there is no reference to lose. -/
def SubmitsFresh (e : WorkerEntry) : Prop :=
  ∀ i g envelope streamId transport, e.op = .submit i envelope streamId transport →
    e.before.gateways[i]? = some g → g.Admits envelope →
      e.before.Outstanding envelope.delegationId →
        transport = .unsent ∧ ∀ externalRef, ¬e.before.RefOf envelope.delegationId externalRef

section

variable {W₀ W : Workers} {h : List WorkerEntry} {call : WorkerCall} {delegationId : String}
  {externalRef : String}

theorem Workers.RefOf.outstanding (h : W.RefOf delegationId externalRef) :
    W.Outstanding delegationId := by
  obtain ⟨row, hrow, hstate, -⟩ := h
  exact ⟨row, hrow, hstate⟩

theorem Workers.RefOf.of_get? {W' : Workers} (h : W.RefOf delegationId externalRef)
    (hget : W'.ledger.get? delegationId = W.ledger.get? delegationId) :
    W'.RefOf delegationId externalRef := by
  obtain ⟨row, hrow, hrest⟩ := h
  exact ⟨row, hget ▸ hrow, hrest⟩

/-- A step that submits nothing outstanding keeps the references. -/
theorem refOf_after (hfresh : SubmitsFresh (Entry.perform WorkerCall.perform W call))
    (href : W.RefOf delegationId externalRef) :
    (call.perform W).2.RefOf delegationId externalRef := by
  rcases act_cases call W with ⟨hledger, -⟩ |
    ⟨i, g, envelope, streamId, transport, hop, hg, hadmits, hact⟩
  · exact href.of_get? (congrArg (·.get? delegationId) hledger)
  obtain ⟨-, hother, -⟩ := submit_cases hadmits hact
  refine href.of_get? (hother _ ?_)
  rintro rfl
  exact (hfresh i g envelope streamId transport hop hg hadmits href.outstanding).2 _ href

/-- A step that submits nothing outstanding hands no port what is outstanding. -/
theorem handed_after (hfresh : SubmitsFresh (Entry.perform WorkerCall.perform W call)) {i : ℕ}
    {envelope : DelegationEnvelope} {streamId : String} {transport : Transport}
    (hop : call = .submit i envelope streamId transport)
    (hout : W.Outstanding envelope.delegationId) : (call.perform W).2.handed = W.handed := by
  rcases act_cases call W with ⟨-, hhanded⟩ |
    ⟨i', g, envelope', streamId', transport', hop', hg, hadmits, hact⟩
  · exact hhanded
  rw [hop, WorkerCall.submit.injEq] at hop'
  obtain ⟨rfl, rfl, rfl, rfl⟩ := hop'
  obtain ⟨hunsent, -⟩ := hfresh i g envelope streamId transport hop hg hadmits hout
  exact (submit_cases hadmits hact).1.trans (if_pos hunsent)

/-- **In which runs no delegation is dispatched blindly**: in those that submit no outstanding one,
as far as their gateways let them through. -/
theorem noBlindRedispatch_iff (hr : Run WorkerCall.perform W₀ h W) :
    NoBlindRedispatch h ↔ ∀ e ∈ h, SubmitsFresh e := by
  constructor
  · intro hclean e he i g envelope streamId transport hop hg hadmits hout
    have hperform := hr.eq_perform he
    have hafter : e.after = (e.op.perform e.before).2 := congrArg Entry.after hperform
    rw [hop] at hafter
    obtain ⟨hhanded, -, hlost⟩ := submit_cases hadmits (hafter.trans (run_act_submit hg))
    have hunsent : transport = .unsent := by
      by_contra hsent
      rw [if_neg hsent, hclean.notHanded e he i envelope streamId transport hop hout] at hhanded
      simp at hhanded
    refine ⟨hunsent, fun externalRef href => ?_⟩
    obtain ⟨h₁, h₂, rfl⟩ := List.append_of_mem he
    obtain ⟨row, hrow, -, hkept⟩ := hclean.kept h₁ e h₂ rfl _ _ href e List.mem_cons_self
    obtain ⟨row', hrow', hnone⟩ := hlost hunsent
    rw [Option.mem_def, hrow', Option.some.injEq] at hrow
    rw [← hrow, hnone] at hkept
    cases hkept
  · intro hfresh
    refine ⟨fun e he i envelope streamId transport hop hout => ?_, ?_⟩
    · have hperform := hr.eq_perform he
      have hafter : e.after = (e.op.perform e.before).2 := congrArg Entry.after hperform
      rw [hafter]
      exact handed_after (hperform ▸ hfresh e he) hop hout
    · rintro h₁ e h₂ rfl delegationId externalRef href
      have hrest := hr.onFrom
      refine fun e' he' => ((hrest.inv_entries (I := fun W => W.RefOf delegationId externalRef)
        href ?_).2 e' he').2
      rintro h₃ e'' h₄ heq - hbefore
      have he'' : e'' ∈ h₁ ++ e :: h₂ := by
        rw [heq]
        simp
      have hperform := hr.eq_perform he''
      have hafter : e''.after = (e''.op.perform e''.before).2 := congrArg Entry.after hperform
      rw [hafter]
      exact refOf_after (hperform ▸ hfresh e'' he'') hbefore

end

/-! ### A retry after a timeout -/

/-- An envelope of a delegation. -/
def d1 : DelegationEnvelope where
  delegationId := "d1"
  taskId := "t1"
  generation := 1
  protocol := "a2a"
  protocolRevision := "2026-01"
  peerIdentity := "peer-a"
  capabilitySnapshot := "cap-v1"
  workspaceMapping := "ws-map-v1"
  inputRefs := ["artifact:in"]
  budgetRef := "budget:b1"
  deadlineAt := "2026-09-17T00:00:00Z"
  executionPermitRef := "permit:p1"
  expectedOutputContract := "patch-v1"

/-- The peer accepts the delegation, and then another gateway submits it and has no answer. -/
def retried : List WorkerCall :=
  [.make true "s", .pinSchema 0 "cap-v1", .authorize 0, .submit 0 d1 "s1" (.accepted "ext-d1"),
    .make true "s", .pinSchema 1 "cap-v1", .authorize 1, .submit 1 d1 "s1" .failed]

/-- Whether this run dispatches blindly is decided by what it submits. -/
theorem noBlindRedispatch_iff_retried :
    NoBlindRedispatch (exec WorkerCall.perform {} retried).1 ↔
      ∀ e ∈ (exec WorkerCall.perform {} retried).1, SubmitsFresh e :=
  noBlindRedispatch_iff (run_exec WorkerCall.perform {} retried)

/-- **A delegation that a peer has accepted is handed to it again**, and its reference is gone. -/
theorem not_noBlindRedispatch :
    (¬∀ (W₀ W : Workers) (h : List WorkerEntry), Run WorkerCall.perform W₀ h W →
      ∀ e ∈ h, ∀ i envelope streamId transport, e.op = .submit i envelope streamId transport →
        e.before.Outstanding envelope.delegationId → e.after.handed = e.before.handed) ∧
    ¬∀ (W₀ W : Workers) (h : List WorkerEntry), Run WorkerCall.perform W₀ h W →
      ∀ e ∈ h, ∀ delegationId externalRef, e.before.RefOf delegationId externalRef →
        e.after.RefOf delegationId externalRef := by
  have hrun := run_exec WorkerCall.perform {} retried
  have hlast : (exec WorkerCall.perform {} retried).1.getLast (by simp [retried, exec]) ∈
      (exec WorkerCall.perform {} retried).1 := List.getLast_mem _
  constructor
  · intro hclaim
    have hsame := hclaim _ _ _ hrun _ hlast 1 d1 "s1" .failed rfl ⟨_, rfl, by decide⟩
    exact absurd (congrArg List.length hsame) (by decide)
  · intro hclaim
    obtain ⟨row, hrow, -, href⟩ := hclaim _ _ _ hrun _ hlast "d1" "ext-d1" ⟨_, rfl, by decide, rfl⟩
    obtain rfl := Option.some.inj hrow
    exact absurd href (by decide)

end Dcode

end CyranoAgent
