import CyranoAgent.Contracts.Canonical
import CyranoAgent.Lib.Action
import CyranoAgent.Lib.Rows
import CyranoAgent.Lib.Run
import CyranoAgent.Planning.Review

/-!
# The human approval desk

`ApprovalDesk` shows requests and records the decisions on them under the client's event ids. A
submit under a known event id is a replay: it gets the recorded outcome when its decision is the
same. The comparison puts the present request id on both of its sides, so it says nothing about
the request that the outcome was recorded for. `ownOutcomes_iff` says when every outcome is still
that of its own request: exactly when no event id is repeated, with the same decision, for another
one.
-/

namespace CyranoAgent

open Lib Lib.Action

namespace Kernel

/-- `DisplayRecord`. -/
structure DisplayRecord where
  requestId : String
  displayRevision : ℤ
  displayDigest : String
  subjectDigest : String
  audience : String
  nonce : String
  expiresAt : ℤ
  purpose : String
  dependencies : List (String × List String)
  deriving DecidableEq

/-- The statuses of a decision result. -/
inductive DecisionStatus
  | approved | deferred
  deriving DecidableEq, Repr

/-- `DecisionResult`. -/
structure DecisionResult where
  status : DecisionStatus
  decisionKind : String := ""
  receiptDigest : Option String := none
  permitted : List String := []
  deriving DecidableEq, Repr

/-- `ApprovalDesk`. The decisions are keyed by client event ids. -/
structure ApprovalDesk where
  requests : List DisplayRecord := []
  opened : List String := []
  decisions : List (String × DecisionResult) := []
  seq : ℕ := 0

/-- The arguments of `submit`. -/
structure Submit where
  requestId : String
  actor : String
  nonce : String
  decision : String
  shownText : String
  displayRevision : ℤ
  clientEventId : String
  now : ℤ
  choices : List String := []
  amendmentArtifactId : Option String := none

/-- What a display digest is taken of. -/
def shownValue (shownText subjectDigest : String) : PyValue :=
  .dict [(.str "text", .str shownText), (.str "subject", .str subjectDigest)]

/-- What a replay is compared by. -/
def markerValue (requestId decision actor : String) : PyValue :=
  .dict [(.str "request", .str requestId), (.str "decision", .str decision),
    (.str "actor", .str actor)]

/-- What a receipt is taken of. -/
def receiptValue (record : DisplayRecord) (s : Submit) : PyValue :=
  .dict [(.str "subject", .str record.subjectDigest), (.str "nonce", .str s.nonce),
    (.str "actor", .str s.actor), (.str "client_event", .str s.clientEventId),
    (.str "purpose", .str record.purpose)]

namespace ApprovalDesk

/-- What a call on the desk is. -/
abbrev DeskOp (α : Type) := Action ApprovalDesk Failure α

/-- `self._requests.get(request_id)`. -/
def request? (D : ApprovalDesk) (requestId : String) : Option DisplayRecord :=
  D.requests.find? fun record => record.requestId = requestId

/-- `self._decisions.get(client_event_id)`. -/
def decision? (D : ApprovalDesk) (clientEventId : String) : Option DecisionResult :=
  (D.decisions.find? fun entry => entry.1 = clientEventId).map Prod.snd

section

variable (P : Primitives) (reprText : String → String)

/-- `present`. -/
def present (subjectDigest shownText audience nonce : String) (expiresAt : ℤ) (purpose : String)
    (dependencies : List (String × List String)) : DeskOp DisplayRecord := do
  modify fun D => { D with seq := D.seq + 1 }
  let D ← get
  let displayDigest ← lift (digest P (shownValue shownText subjectDigest))
  let record : DisplayRecord :=
    { requestId := "req" ++ toString D.seq, displayRevision := 1, displayDigest, subjectDigest,
      audience, nonce, expiresAt, purpose, dependencies }
  modify fun D => { D with requests := D.requests ++ [record] }
  return record

/-- `open_display`. -/
def openDisplay (requestId : String) : DeskOp Unit := do
  let D ← get
  if (D.request? requestId).isSome then modify fun D => { D with opened := D.opened ++ [requestId] }

/-- `revise_display`. -/
def reviseDisplay (requestId shownText : String) : DeskOp Unit := do
  match (← get).request? requestId with
  | none => throw (.python "KeyError" (reprText requestId))
  | some record => do
    let displayDigest ← lift (digest P (shownValue shownText record.subjectDigest))
    modify fun D => { D with
      requests := Rows.update (fun record => record.requestId = requestId) (fun record =>
        { record with displayRevision := record.displayRevision + 1, displayDigest }) D.requests }

/-- `self._decisions[client_event_id] = result`, for a new event id. -/
def record (clientEventId : String) (result : DecisionResult) : DeskOp DecisionResult := do
  modify fun D => { D with decisions := D.decisions ++ [(clientEventId, result)] }
  return result

/-- What a choice requires and is not chosen, `set(dependencies.get(choice, ())) - set(choices)`. -/
def missing (dependencies : List (String × List String)) (choices : List String)
    (choice : String) : List String :=
  (((dependencies.find? fun entry => entry.1 = choice).map Prod.snd).getD []).filter (· ∉ choices)

/-- `if choices: for choice in choices: …`. -/
def checkChoices (dependencies : List (String × List String)) (choices : List String) :
    Except Failure Unit :=
  match choices.find? fun choice => missing dependencies choices choice ≠ [] with
  | none => .ok ()
  | some choice => .error (.cyrano "DEPENDENCY_NOT_AUTHORIZED" (choice ++ " requires " ++
      Planning.reprStrings reprText
        ((missing dependencies choices choice).dedup.mergeSort (· ≤ ·))))

/-- The part of `submit` that decides on a request. -/
def decide_ (record : DisplayRecord) (s : Submit) : DeskOp DecisionResult := do
  raiseIf (record.expiresAt ≤ s.now) (.cyrano "DECISION_EXPIRED" s.requestId)
  let shown ← lift (digest P (shownValue s.shownText record.subjectDigest))
  raiseIf (shown ≠ record.displayDigest) (.cyrano "DISPLAY_INTEGRITY_FAILURE" s.requestId)
  raiseIf (s.displayRevision ≠ record.displayRevision) (.cyrano "STALE_DISPLAY" s.requestId)
  raiseIf (s.decision = "approve" ∧ s.amendmentArtifactId.any (· ≠ ""))
    (.cyrano "INPUT_INVALID" "structured approve carries no amendment")
  if s.decision ≠ "approve" ∨ s.requestId ∉ (← get).opened then
    ApprovalDesk.record s.clientEventId { status := .deferred, decisionKind := s.decision }
  else do
    lift (checkChoices reprText record.dependencies s.choices)
    let receipt ← lift (digest P (receiptValue record s))
    ApprovalDesk.record s.clientEventId
      { status := .approved, decisionKind := s.decision, receiptDigest := some receipt
        permitted := if s.choices = [] then ["*"] else s.choices }

/-- `submit`. -/
def submit (s : Submit) : DeskOp DecisionResult := do
  let D ← get
  match D.request? s.requestId with
  | none => throw (.cyrano "UNKNOWN_REQUEST" s.requestId)
  | some record => do
    raiseIf (s.actor ≠ record.audience) (.cyrano "ACL_DENIED" s.actor)
    raiseIf (s.nonce ≠ record.nonce) (.cyrano "NONCE_MISMATCH" s.nonce)
    match D.decision? s.clientEventId with
    | some existing => do
      let marker ← lift (digest P (markerValue s.requestId s.decision s.actor))
      let prior ← lift (digest P (markerValue s.requestId existing.decisionKind s.actor))
      raiseIf (marker ≠ prior) (.cyrano "IDEMPOTENCY_CONFLICT" s.clientEventId)
      return existing
    | none => decide_ P reprText record s

end

/-! ### What a submit does -/

/-- A submit repeats a recorded decision, as `submit` compares the two. -/
structure Repeats (P : Primitives) (D : ApprovalDesk) (s : Submit) (existing : DecisionResult) :
    Prop where
  admitted : ∃ record, D.request? s.requestId = some record ∧ s.actor = record.audience ∧
    s.nonce = record.nonce
  recorded : D.decision? s.clientEventId = some existing
  same : ∃ marker, digest P (markerValue s.requestId s.decision s.actor) = .ok marker ∧
    digest P (markerValue s.requestId existing.decisionKind s.actor) = .ok marker

/-- A submit approves its request: it is live and open, the digest of what was shown is the one
displayed, and the receipt is about its subject. -/
structure Approves (P : Primitives) (D : ApprovalDesk) (s : Submit) (record : DisplayRecord)
    (result : DecisionResult) : Prop where
  request : D.request? s.requestId = some record
  actor : s.actor = record.audience
  nonce : s.nonce = record.nonce
  explicit : s.decision = "approve"
  live : s.now < record.expiresAt
  shown : digest P (shownValue s.shownText record.subjectDigest) = .ok record.displayDigest
  revision : s.displayRevision = record.displayRevision
  opened : s.requestId ∈ D.opened
  receipt : ∃ receipt, digest P (receiptValue record s) = .ok receipt ∧
    result.receiptDigest = some receipt

/-- The desk with one more decision. -/
def decided (D : ApprovalDesk) (clientEventId : String) (result : DecisionResult) : ApprovalDesk :=
  { D with decisions := D.decisions ++ [(clientEventId, result)] }

/-- What `submit` can do. -/
inductive SubmitMoves (P : Primitives) (D : ApprovalDesk) (s : Submit) :
    Except Failure DecisionResult → ApprovalDesk → Prop
  | refused (failure : Failure) : SubmitMoves P D s (.error failure) D
  | replayed (existing : DecisionResult) : Repeats P D s existing →
      SubmitMoves P D s (.ok existing) D
  | decided (result : DecisionResult) : D.decision? s.clientEventId = none →
      result.decisionKind = s.decision →
      (result.status = .approved → ∃ record, Approves P D s record result) →
      SubmitMoves P D s (.ok result) (D.decided s.clientEventId result)

section

variable {P : Primitives} {reprText : String → String} {D D' : ApprovalDesk} {s : Submit}

/-- Recording a decision always succeeds. -/
theorem run_record (clientEventId : String) (result : DecisionResult) :
    (ApprovalDesk.record clientEventId result).run D =
      (.ok result, D.decided clientEventId result) := rfl

theorem atomic_record (clientEventId : String) (result : DecisionResult) :
    Atomic (ApprovalDesk.record clientEventId result) := by
  intro D D' failure h
  rw [run_record] at h
  cases h

theorem atomic_decide (record : DisplayRecord) (s : Submit) :
    Atomic (decide_ P reprText record s) := by
  refine Atomic.bind (readOnly_raiseIf _ _) fun _ => ?_
  refine Atomic.bind (readOnly_lift _) fun _ => ?_
  refine Atomic.bind (readOnly_raiseIf _ _) fun _ => ?_
  refine Atomic.bind (readOnly_raiseIf _ _) fun _ => ?_
  refine Atomic.bind (readOnly_raiseIf _ _) fun _ => ?_
  refine Atomic.bind readOnly_get fun _ => Atomic.ite (atomic_record _ _) ?_
  refine Atomic.bind (readOnly_lift _) fun _ => ?_
  exact Atomic.bind (readOnly_lift _) fun _ => atomic_record _ _

/-- A submit that raises changes nothing. -/
theorem atomic_submit (s : Submit) : Atomic (submit P reprText s) := by
  refine Atomic.bind readOnly_get fun D => ?_
  cases D.request? s.requestId with
  | none => exact (readOnly_throw _).atomic
  | some record =>
    refine Atomic.bind (readOnly_raiseIf _ _) fun _ => ?_
    refine Atomic.bind (readOnly_raiseIf _ _) fun _ => ?_
    cases D.decision? s.clientEventId with
    | none => exact atomic_decide record s
    | some existing =>
      refine Atomic.bind (readOnly_lift _) fun _ => ?_
      refine Atomic.bind (readOnly_lift _) fun _ => ?_
      exact Atomic.bind (readOnly_raiseIf _ _) fun _ => (readOnly_pure _).atomic

/-- A decision that is made: deferred, or an approval. -/
theorem decide_eq_ok {record : DisplayRecord} {result : DecisionResult}
    (hrequest : D.request? s.requestId = some record) (hactor : s.actor = record.audience)
    (hnonce : s.nonce = record.nonce)
    (h : (decide_ P reprText record s).run D = (.ok result, D')) :
    D' = D.decided s.clientEventId result ∧ result.decisionKind = s.decision ∧
      (result.status = .approved → Approves P D s record result) := by
  simp only [decide_, bind_eq_ok, raiseIf_eq_ok, lift_eq_ok, run_get, not_not, not_le,
    Prod.mk.injEq, Except.ok.injEq, ite_eq_ok, run_record] at h
  obtain ⟨_, _, ⟨hlive, rfl⟩, shown, _, ⟨hshown, rfl⟩, _, _, ⟨hintact, rfl⟩, _, _, ⟨hrevision, rfl⟩,
    _, _, ⟨-, rfl⟩, _, _, ⟨rfl, rfl⟩, h⟩ := h
  rcases h with ⟨-, rfl, rfl⟩ | ⟨happrove, _, _, ⟨-, rfl⟩, receipt, _, ⟨hreceipt, rfl⟩, rfl, rfl⟩
  · exact ⟨rfl, rfl, fun happroved => by cases happroved⟩
  · rw [not_or, not_not, not_not] at happrove
    refine ⟨rfl, rfl, fun _ => ?_⟩
    exact ⟨hrequest, hactor, hnonce, happrove.1, hlive, hintact ▸ hshown, hrevision, happrove.2,
      receipt, hreceipt, rfl⟩

/-- **What a submit does**: nothing, a replay, or a new decision on its own request. -/
theorem submit_moves (P : Primitives) (reprText : String → String) (D : ApprovalDesk)
    (s : Submit) :
    SubmitMoves P D s ((submit P reprText s).run D).1 ((submit P reprText s).run D).2 := by
  rcases hrun : (submit P reprText s).run D with ⟨failure | result, D'⟩
  · rw [atomic_submit s hrun]
    exact .refused failure
  · obtain ⟨_, _, hget, hrun⟩ := bind_eq_ok.mp hrun
    simp only [run_get, Prod.mk.injEq, Except.ok.injEq] at hget
    obtain ⟨rfl, rfl⟩ := hget
    cases hrequest : D.request? s.requestId with
    | none => simp [hrequest] at hrun
    | some record =>
      simp only [hrequest, bind_eq_ok, raiseIf_eq_ok, not_not] at hrun
      obtain ⟨_, _, ⟨hactor, rfl⟩, _, _, ⟨hnonce, rfl⟩, hrun⟩ := hrun
      cases hdecision : D.decision? s.clientEventId with
      | none =>
        rw [hdecision] at hrun
        obtain ⟨rfl, hkind, happroved⟩ := decide_eq_ok hrequest hactor hnonce hrun
        exact .decided result hdecision hkind fun hstatus => ⟨record, happroved hstatus⟩
      | some existing =>
        simp only [hdecision, bind_eq_ok, lift_eq_ok, raiseIf_eq_ok, not_not, run_pure,
          Prod.mk.injEq, Except.ok.injEq] at hrun
        obtain ⟨marker, _, ⟨hmarker, rfl⟩, prior, _, ⟨hprior, rfl⟩, _, _, ⟨rfl, rfl⟩, rfl, rfl⟩ :=
          hrun
        exact .replayed existing ⟨⟨record, hrequest, hactor, hnonce⟩, hdecision, marker, hmarker,
          hprior⟩

/-- A submit that repeats a decision gets it. -/
theorem Repeats.run_submit {existing : DecisionResult} (h : Repeats P D s existing) :
    (submit P reprText s).run D = (.ok existing, D) := by
  obtain ⟨⟨record, hrequest, hactor, hnonce⟩, hdecision, marker, hmarker, hprior⟩ := h
  rw [submit, run_bind_ok (run_get D)]
  simp only [hrequest]
  rw [run_raiseIf_skip (not_not.mpr hactor), run_raiseIf_skip (not_not.mpr hnonce)]
  simp only [hdecision, hmarker, hprior]
  rw [run_bind_ok (run_lift_ok _ D), run_bind_ok (run_lift_ok _ D),
    run_raiseIf_skip (not_not.mpr rfl), run_pure]

end

/-! ### The desk as a machine -/

/-- The calls of the desk. -/
inductive DeskCall
  | present (subjectDigest shownText audience nonce : String) (expiresAt : ℤ) (purpose : String)
      (dependencies : List (String × List String))
  | openDisplay (requestId : String)
  | reviseDisplay (requestId shownText : String)
  | submit (s : Submit)

/-- What a call returns. -/
inductive DeskReply
  | record (record : DisplayRecord)
  | done
  | result (result : DecisionResult)

/-- Perform a call. -/
def DeskCall.act (P : Primitives) (reprText : String → String) (call : DeskCall)
    (D : ApprovalDesk) : Except Failure DeskReply × ApprovalDesk :=
  match call with
  | .present subjectDigest shownText audience nonce expiresAt purpose dependencies =>
    (DeskReply.record <$> ApprovalDesk.present P subjectDigest shownText audience nonce expiresAt
      purpose dependencies).run D
  | .openDisplay requestId =>
    ((fun _ => DeskReply.done) <$> ApprovalDesk.openDisplay requestId).run D
  | .reviseDisplay requestId shownText =>
    ((fun _ => DeskReply.done) <$> ApprovalDesk.reviseDisplay P reprText requestId shownText).run D
  | .submit s => (DeskReply.result <$> ApprovalDesk.submit P reprText s).run D

/-- One call of a history of the desk. -/
abbrev DeskEntry := Entry ApprovalDesk DeskCall (Except Failure DeskReply)

/-- The event id that an entry records a decision under, and the request that it is about. -/
def decided? (e : DeskEntry) : Option (String × String) :=
  match e.op with
  | .submit s =>
    if e.before.decision? s.clientEventId = none ∧ e.after.decision? s.clientEventId ≠ none then
      some (s.clientEventId, s.requestId)
    else none
  | _ => none

/-- The entry is a submit that returned a result. -/
def Returns (e : DeskEntry) (s : Submit) (result : DecisionResult) : Prop :=
  e.op = .submit s ∧ e.reply = .ok (.result result)

/-- Every result is the outcome of its own request over a history. -/
structure OwnOutcomes (P : Primitives) (h : List DeskEntry) : Prop where
  /-- A result was recorded for its request, by this submit or an earlier one under its event
  id. -/
  own : ∀ h₁ e h₂, h = h₁ ++ e :: h₂ → ∀ s result, Returns e s result →
    ∃ e' ∈ h₁ ++ [e], decided? e' = some (s.clientEventId, s.requestId) ∧
      e'.reply = .ok (.result result)
  /-- An approval was given to its request while live, for the digest displayed, with a receipt of
  its subject. -/
  approved : ∀ h₁ e h₂, h = h₁ ++ e :: h₂ → ∀ s result, Returns e s result →
    result.status = .approved → ∃ e' ∈ h₁ ++ [e], ∃ s' record, Returns e' s' result ∧
      s'.requestId = s.requestId ∧ Approves P e'.before s' record result

/-- No submit repeats, under its event id, a decision that was recorded for another request. -/
def EventsApart (P : Primitives) (h : List DeskEntry) : Prop :=
  ∀ e' e, Precedes h e' e → ∀ s existing, e.op = .submit s → Repeats P e.before s existing →
    ∀ requestId, decided? e' = some (s.clientEventId, requestId) → requestId = s.requestId

/-! ### Runs of the desk -/

section

variable {P : Primitives} {reprText : String → String} {D D' : ApprovalDesk} {h : List DeskEntry}
  {e : DeskEntry}

/-- Other calls than `submit` leave the decisions. -/
theorem decisions_act {c : DeskCall} (hother : ∀ s, c ≠ .submit s) :
    (c.act P reprText D).2.decisions = D.decisions := by
  cases c with
  | present subjectDigest shownText audience nonce expiresAt purpose dependencies =>
    refine Keeps.map (f := ApprovalDesk.decisions) ?_ D
    refine Keeps.bind (keeps_modify (by intro _; rfl)) fun _ => readOnly_get.keeps.bind fun _ => ?_
    refine (readOnly_lift _).keeps.bind fun _ => ?_
    exact Keeps.bind (keeps_modify (by intro _; rfl)) fun _ => (readOnly_pure _).keeps
  | openDisplay requestId =>
    refine Keeps.map (f := ApprovalDesk.decisions) (readOnly_get.keeps.bind fun D => ?_) D
    split
    · exact keeps_modify fun _ => rfl
    · exact (readOnly_pure _).keeps
  | reviseDisplay requestId shownText =>
    refine Keeps.map (f := ApprovalDesk.decisions) (readOnly_get.keeps.bind fun D => ?_) D
    cases D.request? requestId with
    | none => exact (readOnly_throw _).keeps
    | some record => exact (readOnly_lift _).keeps.bind fun _ => keeps_modify fun _ => rfl
  | submit s => exact absurd rfl (hother s)

/-- A desk with one more decision finds it, and the others as before. -/
theorem decision?_decided {clientEventId : String} {result : DecisionResult}
    (hnew : D.decision? clientEventId = none) (other : String) :
    (D.decided clientEventId result).decision? other =
      if clientEventId = other then some result else D.decision? other := by
  by_cases heq : clientEventId = other
  · subst heq
    have hnone : D.decisions.find? (fun entry => entry.1 = clientEventId) = none := by
      simpa [decision?] using hnew
    simp [decision?, decided, hnone]
  · simp [decision?, decided, heq]

/-- What an entry does to the decisions. -/
theorem entry_moves (P : Primitives) (reprText : String → String) (c : DeskCall)
    (D : ApprovalDesk) :
    let e := Entry.perform (DeskCall.act P reprText) D c
    (decided? e = none ∧ ∀ clientEventId, e.after.decision? clientEventId =
        D.decision? clientEventId) ∨
      ∃ s result, Returns e s result ∧ D.decision? s.clientEventId = none ∧
        decided? e = some (s.clientEventId, s.requestId) ∧
        (∀ clientEventId, e.after.decision? clientEventId =
          if s.clientEventId = clientEventId then some result else D.decision? clientEventId) ∧
        (result.status = .approved → ∃ record, Approves P D s record result) := by
  intro e
  by_cases hsubmit : ∃ s, c = .submit s
  · obtain ⟨s, rfl⟩ := hsubmit
    have hmoves := submit_moves P reprText D s
    have hreply : e.reply = ((submit P reprText s).run D).1.map DeskReply.result := by
      simp only [e, Entry.perform_reply, DeskCall.act, run_map]
    have hafter : e.after = ((submit P reprText s).run D).2 := by
      simp only [e, Entry.perform_after, DeskCall.act, run_map]
    have hdecided : decided? e =
        if D.decision? s.clientEventId = none ∧ e.after.decision? s.clientEventId ≠ none then
          some (s.clientEventId, s.requestId) else none := rfl
    generalize (submit P reprText s).run D = out at hmoves hreply hafter
    obtain ⟨reply, D'⟩ := out
    cases hmoves with
    | refused failure | replayed existing =>
      left
      rw [hdecided, hafter]
      refine ⟨if_neg ?_, fun _ => rfl⟩
      rintro ⟨hnone, hsome⟩
      exact hsome hnone
    | decided result hnew hkind happroved =>
      right
      refine ⟨s, result, ⟨rfl, hreply⟩, hnew, ?_, ?_, happroved⟩
      · have hfound : (D.decided s.clientEventId result).decision? s.clientEventId =
            some result := by rw [decision?_decided hnew, if_pos rfl]
        rw [hdecided, hafter]
        exact if_pos ⟨hnew, fun hnone => by cases hfound.symm.trans hnone⟩
      · intro clientEventId
        rw [hafter]
        exact decision?_decided hnew clientEventId
  · left
    have hother : ∀ s, c ≠ .submit s := fun s heq => hsubmit ⟨s, heq⟩
    refine ⟨?_, fun clientEventId => ?_⟩
    · cases c with
      | submit s => exact absurd rfl (hother s)
      | _ => rfl
    · have hkept : e.after.decisions = D.decisions := decisions_act hother
      rw [decision?, decision?, hkept]

/-- Where the decisions of a desk come from. -/
structure Traced (P : Primitives) (h : List DeskEntry) (D : ApprovalDesk) : Prop where
  /-- A decision was recorded by a submit. -/
  found : ∀ clientEventId existing, D.decision? clientEventId = some existing →
    ∃ e ∈ h, ∃ s, Returns e s existing ∧ decided? e = some (clientEventId, s.requestId) ∧
      (existing.status = .approved → ∃ record, Approves P e.before s record existing)
  /-- What was recorded is found. -/
  known : ∀ e ∈ h, ∀ clientEventId requestId, decided? e = some (clientEventId, requestId) →
    D.decision? clientEventId ≠ none
  /-- Under one event id one decision was recorded. -/
  single : ∀ e ∈ h, ∀ e' ∈ h, ∀ clientEventId requestId requestId',
    decided? e = some (clientEventId, requestId) →
      decided? e' = some (clientEventId, requestId') → requestId = requestId'

/-- **Every decision can be traced** to the submit that recorded it. -/
theorem traced_of_run (hr : Run (DeskCall.act P reprText) {} h D) : Traced P h D := by
  refine hr.inv (I := Traced P) ⟨fun c existing hfound => ?_, by simp, by simp⟩ ?_
  · simp [decision?] at hfound
  intro h D c hr hD
  have hmoves := entry_moves P reprText c D
  dsimp only at hmoves
  generalize he : Entry.perform (DeskCall.act P reprText) D c = e at hmoves
  have hafter : (c.act P reprText D).2 = e.after := by rw [← he]; rfl
  have hbefore : e.before = D := by rw [← he]; rfl
  rw [hafter]
  rcases hmoves with ⟨hnone, hkept⟩ | ⟨s, result, hreturns, hnew, hdecided, hafter, happroved⟩
  · refine ⟨fun clientEventId existing hfound => ?_, fun e' he' => ?_, fun e' he' e'' he'' => ?_⟩
    · obtain ⟨e', he', htraced⟩ := hD.found clientEventId existing (hkept _ ▸ hfound)
      exact ⟨e', List.mem_append_left _ he', htraced⟩
    · intro clientEventId requestId hdecided'
      rw [hkept]
      rcases List.mem_append.mp he' with he' | he'
      · exact hD.known e' he' _ _ hdecided'
      · rw [List.mem_singleton.mp he', hnone] at hdecided'
        cases hdecided'
    · intro clientEventId requestId requestId' hdecided' hdecided''
      rcases List.mem_append.mp he' with he' | he'
      · rcases List.mem_append.mp he'' with he'' | he''
        · exact hD.single e' he' e'' he'' _ _ _ hdecided' hdecided''
        · rw [List.mem_singleton.mp he'', hnone] at hdecided''
          cases hdecided''
      · rw [List.mem_singleton.mp he', hnone] at hdecided'
        cases hdecided'
  · -- an event id that is new was not recorded before
    have hfresh : ∀ e' ∈ h, ∀ requestId, decided? e' ≠ some (s.clientEventId, requestId) :=
      fun e' he' requestId hdecided' => hD.known e' he' _ _ hdecided' hnew
    refine ⟨fun clientEventId existing hfound => ?_, fun e' he' => ?_, fun e' he' e'' he'' => ?_⟩
    · rw [hafter] at hfound
      split at hfound
      next heq =>
        subst heq
        obtain rfl := Option.some.inj hfound
        exact ⟨e, by simp, s, hreturns, hdecided, hbefore ▸ happroved⟩
      next =>
        obtain ⟨e', he', htraced⟩ := hD.found clientEventId existing hfound
        exact ⟨e', List.mem_append_left _ he', htraced⟩
    · intro clientEventId requestId hdecided'
      rw [hafter]
      rcases List.mem_append.mp he' with he' | he'
      · split
        · simp
        · exact hD.known e' he' _ _ hdecided'
      · rw [List.mem_singleton.mp he', hdecided, Option.some.injEq, Prod.mk.injEq] at hdecided'
        simp [hdecided'.1]
    · intro clientEventId requestId requestId' hdecided' hdecided''
      rcases List.mem_append.mp he' with he' | he' <;>
        rcases List.mem_append.mp he'' with he'' | he''
      · exact hD.single e' he' e'' he'' _ _ _ hdecided' hdecided''
      · rw [List.mem_singleton.mp he'', hdecided, Option.some.injEq, Prod.mk.injEq] at hdecided''
        exact absurd (hdecided''.1 ▸ hdecided') (hfresh e' he' requestId)
      · rw [List.mem_singleton.mp he', hdecided, Option.some.injEq, Prod.mk.injEq] at hdecided'
        exact absurd (hdecided'.1 ▸ hdecided'') (hfresh e'' he'' requestId')
      · rw [List.mem_singleton.mp he', hdecided, Option.some.injEq, Prod.mk.injEq] at hdecided'
        rw [List.mem_singleton.mp he'', hdecided, Option.some.injEq, Prod.mk.injEq] at hdecided''
        exact hdecided'.2.symm.trans hdecided''.2

/-- A submit that returns has recorded its result, or repeats a decision. -/
theorem returns_cases {s : Submit} {result : DecisionResult}
    (hperform : e = Entry.perform (DeskCall.act P reprText) e.before e.op)
    (hreturns : Returns e s result) :
    (decided? e = some (s.clientEventId, s.requestId) ∧
        (result.status = .approved → ∃ record, Approves P e.before s record result)) ∨
      Repeats P e.before s result := by
  obtain ⟨hop, hreply⟩ := hreturns
  have hmoves := entry_moves P reprText e.op e.before
  rw [← hperform] at hmoves
  rcases hmoves with ⟨hnone, -⟩ | ⟨s', result', ⟨hop', hreply'⟩, -, hdecided, -, happroved⟩
  · right
    have hsubmit := submit_moves P reprText e.before s
    have hrun : ((submit P reprText s).run e.before).1 = .ok result := by
      have hreply' : e.reply = ((submit P reprText s).run e.before).1.map DeskReply.result := by
        rw [hperform, Entry.perform_reply, Entry.perform_before, hop, DeskCall.act, run_map]
      rw [hreply] at hreply'
      cases hout : ((submit P reprText s).run e.before).1 with
      | error failure => rw [hout] at hreply'; cases hreply'
      | ok result' => rw [hout] at hreply'; cases hreply'; rfl
    have hafter : e.after = ((submit P reprText s).run e.before).2 := by
      rw [hperform, Entry.perform_after, Entry.perform_before, hop, DeskCall.act, run_map]
    rw [hrun] at hsubmit
    generalize ((submit P reprText s).run e.before).2 = D' at hsubmit hafter
    generalize hout : (Except.ok result : Except Failure DecisionResult) = out at hsubmit
    cases hsubmit with
    | refused => cases hout
    | replayed existing hrepeats =>
      obtain rfl := Except.ok.inj hout
      exact hrepeats
    | decided result' hnew =>
      -- a new decision shows in the entry
      have hfound : (e.before.decided s.clientEventId result').decision? s.clientEventId =
          some result' := by rw [decision?_decided hnew, if_pos rfl]
      have hdecided : decided? e = some (s.clientEventId, s.requestId) := by
        rw [decided?, hop, hafter]
        exact if_pos ⟨hnew, fun hgone => by cases hfound.symm.trans hgone⟩
      rw [hnone] at hdecided
      cases hdecided
  · left
    obtain rfl : s' = s := by rw [hop] at hop'; exact (DeskCall.submit.inj hop').symm
    rw [hreply] at hreply'
    obtain rfl : result = result' := DeskReply.result.inj (Except.ok.inj hreply')
    exact ⟨hdecided, happroved⟩

/-- **When every result is the outcome of its own request**, over every history of the desk: exactly
when no submit repeats, under its event id, a decision that was recorded for another request. -/
theorem ownOutcomes_iff (hr : Run (DeskCall.act P reprText) {} h D) :
    OwnOutcomes P h ↔ EventsApart P h := by
  constructor
  · rintro hown e' e ⟨h₁, h₂, h₃, rfl⟩ s existing hop hrepeats requestId hdecided
    rw [← List.cons_append, ← List.append_assoc] at hr hown
    obtain ⟨hbefore, hperform, -⟩ := hr.split
    have hreply : e.reply = .ok (.result existing) := by
      rw [hperform, Entry.perform_reply, hop, DeskCall.act, run_map, hrepeats.run_submit]
      rfl
    obtain ⟨e'', he'', hdecided'', -⟩ := hown.own _ e h₃ rfl s existing ⟨hop, hreply⟩
    have hknown : e.before.decision? s.clientEventId ≠ none := by simp [hrepeats.recorded]
    rcases List.mem_append.mp he'' with he'' | he''
    · exact (traced_of_run hbefore).single e' (by simp) e'' he'' _ _ _ hdecided hdecided''
    · -- the submit itself records nothing
      rw [List.mem_singleton.mp he'', decided?, hop] at hdecided''
      dsimp only at hdecided''
      rw [if_neg fun hnew => hknown hnew.1] at hdecided''
      cases hdecided''
  · intro hapart
    have htraced : ∀ h₁ e h₂, h = h₁ ++ e :: h₂ → ∀ s result, Returns e s result →
        ∃ e' ∈ h₁ ++ [e], ∃ s', Returns e' s' result ∧
          decided? e' = some (s.clientEventId, s.requestId) ∧ s'.requestId = s.requestId ∧
          (result.status = .approved → ∃ record, Approves P e'.before s' record result) := by
      rintro h₁ e h₂ rfl s result hreturns
      obtain ⟨hbefore, hperform, -⟩ := hr.split
      rcases returns_cases hperform hreturns with ⟨hdecided, happroved⟩ | hrepeats
      · exact ⟨e, by simp, s, hreturns, hdecided, rfl, happroved⟩
      · obtain ⟨e', he', s', hreturns', hdecided, happroved⟩ :=
          (traced_of_run hbefore).found _ _ hrepeats.recorded
        obtain ⟨h₃, h₄, rfl⟩ := List.append_of_mem he'
        have hsame := hapart e' e ⟨h₃, h₄, h₂, by simp⟩ s result hreturns.1 hrepeats _ hdecided
        exact ⟨e', by simp, s', hreturns', hsame ▸ hdecided, hsame, happroved⟩
    refine ⟨fun h₁ e h₂ heq s result hreturns => ?_,
      fun h₁ e h₂ heq s result hreturns hstatus => ?_⟩
    · obtain ⟨e', he', s', hreturns', hdecided, -⟩ := htraced h₁ e h₂ heq s result hreturns
      exact ⟨e', he', hdecided, hreturns'.2⟩
    · obtain ⟨e', he', s', hreturns', -, hsame, happroved⟩ := htraced h₁ e h₂ heq s result hreturns
      obtain ⟨record, happroves⟩ := happroved hstatus
      exact ⟨e', he', s', record, hreturns', hsame, happroves⟩

end

/-! ### One event id for two requests -/

/-- An approval by ada, under the event id `ce1`. -/
def adaApproves (requestId nonce shownText : String) : Submit where
  requestId := requestId
  actor := "ada"
  nonce := nonce
  decision := "approve"
  shownText := shownText
  displayRevision := 1
  clientEventId := "ce1"
  now := 1

/-- Two requests, of which the first is opened and approved. -/
def firstApproved : List DeskCall :=
  [.present "plan-a" "Apply?" "ada" "n1" 100 "plan_approval" [],
    .present "plan-b" "Publish?" "ada" "n2" 100 "release" [],
    .openDisplay "req1",
    .submit (adaApproves "req1" "n1" "Apply?")]

/-- A text as an error shows it, without quotes. -/
def plainText (s : String) : String := s

/-- The outcomes of one approval are its own. -/
theorem ownOutcomes_iff_firstApproved :
    let h := (exec (DeskCall.act .ascii plainText) {} firstApproved).1
    OwnOutcomes .ascii h ↔ EventsApart .ascii h :=
  ownOutcomes_iff (run_exec _ _ _)

/-- The desk with both requests, and the digests it computed for them. -/
def presentedDesk (shownA shownB : String) : ApprovalDesk where
  requests :=
    [⟨"req1", 1, shownA, "plan-a", "ada", "n1", 100, "plan_approval", []⟩,
      ⟨"req2", 1, shownB, "plan-b", "ada", "n2", 100, "release", []⟩]
  seq := 2

/-- The desk after the first approval. -/
def approvedDesk (shownA shownB receipt : String) : ApprovalDesk :=
  { presentedDesk shownA shownB with
    opened := ["req1"]
    decisions := [("ce1", ⟨.approved, "approve", some receipt, ["*"]⟩)] }

/-- The keys of the documents that the desk hashes. -/
def documentKeys : List String :=
  ["text", "subject", "request", "decision", "actor", "nonce", "client_event", "purpose"]

/-- Texts under different keys have a digest. -/
theorem exists_digest (P : Primitives) (entries : List (String × String))
    (hnodup : (entries.map Prod.fst).Nodup) (hkeys : entries.map Prod.fst ⊆ documentKeys) :
    ∃ d, digest P (.dict (entries.map fun entry => (.str entry.1, .str entry.2))) = .ok d := by
  have hascii : asciiKeys documentKeys = true := by decide
  have hrecord := normalize_record_isOk (P := P) hascii
    (entries.map fun entry => (entry.1, .str entry.2))
  simp only [List.map_map, List.forall_mem_map, Function.comp_def] at hrecord
  exact (digest_isOk P).mpr ((hrecord hnodup hkeys).mpr fun entry _ => ⟨_, normalize_str _⟩)

/-- What is shown has a digest. -/
theorem exists_digest_shown (P : Primitives) (shownText subjectDigest : String) :
    ∃ d, digest P (shownValue shownText subjectDigest) = .ok d :=
  exists_digest P [("text", shownText), ("subject", subjectDigest)] (by simp)
    (by simp [documentKeys])

/-- A replay can be compared. -/
theorem exists_digest_marker (P : Primitives) (requestId decision actor : String) :
    ∃ d, digest P (markerValue requestId decision actor) = .ok d :=
  exists_digest P [("request", requestId), ("decision", decision), ("actor", actor)] (by simp)
    (by simp [documentKeys])

/-- A receipt has a digest. -/
theorem exists_digest_receipt (P : Primitives) (record : DisplayRecord) (s : Submit) :
    ∃ d, digest P (receiptValue record s) = .ok d :=
  exists_digest P [("subject", record.subjectDigest), ("nonce", s.nonce), ("actor", s.actor),
    ("client_event", s.clientEventId), ("purpose", record.purpose)] (by simp)
    (by simp [documentKeys])

/-- A request is presented under the next id. -/
theorem run_present {P : Primitives} {D : ApprovalDesk} {subjectDigest shownText d : String}
    (hd : digest P (shownValue shownText subjectDigest) = .ok d) (audience nonce : String)
    (expiresAt : ℤ) (purpose : String) (dependencies : List (String × List String)) :
    (present P subjectDigest shownText audience nonce expiresAt purpose dependencies).run D =
      (.ok ⟨"req" ++ toString (D.seq + 1), 1, d, subjectDigest, audience, nonce, expiresAt, purpose,
          dependencies⟩,
        { D with
          seq := D.seq + 1
          requests := D.requests ++ [⟨"req" ++ toString (D.seq + 1), 1, d, subjectDigest, audience,
            nonce, expiresAt, purpose, dependencies⟩] }) := by
  rw [present, run_bind_ok (run_modify _ D), run_bind_ok (run_get _), hd,
    run_bind_ok (run_lift_ok _ _), run_bind_ok (run_modify _ _), run_pure]

/-- An approval without choices is recorded. -/
theorem run_submit_approve {P : Primitives} (reprText : String → String) {D : ApprovalDesk}
    {s : Submit} {record : DisplayRecord} {receipt : String}
    (hrequest : D.request? s.requestId = some record) (hactor : s.actor = record.audience)
    (hnonce : s.nonce = record.nonce) (hnew : D.decision? s.clientEventId = none)
    (hlive : s.now < record.expiresAt)
    (hshown : digest P (shownValue s.shownText record.subjectDigest) = .ok record.displayDigest)
    (hrevision : s.displayRevision = record.displayRevision) (happrove : s.decision = "approve")
    (hopened : s.requestId ∈ D.opened) (hplain : s.choices = [] ∧ s.amendmentArtifactId = none)
    (hreceipt : digest P (receiptValue record s) = .ok receipt) :
    (submit P reprText s).run D = (.ok ⟨.approved, s.decision, some receipt, ["*"]⟩,
      D.decided s.clientEventId ⟨.approved, s.decision, some receipt, ["*"]⟩) := by
  rw [submit, run_bind_ok (run_get D)]
  simp only [hrequest]
  rw [run_raiseIf_skip (not_not.mpr hactor), run_raiseIf_skip (not_not.mpr hnonce)]
  simp only [hnew]
  rw [decide_, run_raiseIf_skip (not_le.mpr hlive), hshown, run_bind_ok (run_lift_ok _ D),
    run_raiseIf_skip (not_not.mpr rfl), run_raiseIf_skip (not_not.mpr hrevision),
    run_raiseIf_skip (by simp [hplain.2]), run_bind_ok (run_get D),
    if_neg (by simp [happrove, hopened]), hplain.1]
  have hchoices : checkChoices reprText record.dependencies [] = .ok () := rfl
  rw [hchoices, run_bind_ok (run_lift_ok _ D), hreceipt, run_bind_ok (run_lift_ok _ D),
    run_record, if_pos rfl]

/-- What the first calls leave, with what they recorded. -/
theorem exec_firstApproved : ∃ shownA shownB receipt,
    (exec (DeskCall.act .ascii plainText) {} firstApproved).2 =
      approvedDesk shownA shownB receipt := by
  obtain ⟨shownA, hA⟩ := exists_digest_shown .ascii "Apply?" "plan-a"
  obtain ⟨shownB, hB⟩ := exists_digest_shown .ascii "Publish?" "plan-b"
  obtain ⟨receipt, hreceipt⟩ := exists_digest_receipt .ascii
    ⟨"req1", 1, shownA, "plan-a", "ada", "n1", 100, "plan_approval", []⟩
    (adaApproves "req1" "n1" "Apply?")
  refine ⟨shownA, shownB, receipt, ?_⟩
  have hone : "req" ++ toString (0 + 1) = "req1" := by decide
  have htwo : "req" ++ toString (0 + 1 + 1) = "req2" := by decide
  have hrequest : (presentedDesk shownA shownB).request? "req1" =
      some ⟨"req1", 1, shownA, "plan-a", "ada", "n1", 100, "plan_approval", []⟩ := by
    simp [presentedDesk, request?]
  have hopened : ((openDisplay "req1").run (presentedDesk shownA shownB)).2 =
      { presentedDesk shownA shownB with opened := ["req1"] } := by
    rw [openDisplay, run_bind_ok (run_get _), hrequest]
    rfl
  have hfirst := run_submit_approve (P := .ascii) plainText
    (D := { presentedDesk shownA shownB with opened := ["req1"] })
    (s := adaApproves "req1" "n1" "Apply?") hrequest rfl rfl rfl
    (show (1 : ℤ) < 100 by decide) hA rfl rfl (List.mem_singleton_self _) ⟨rfl, rfl⟩ hreceipt
  simp only [exec, firstApproved, DeskCall.act, run_map, run_present hA, run_present hB, hone, htwo]
  exact (congrArg (fun D => ((submit .ascii plainText _).run D).2) hopened).trans
    (congrArg Prod.snd hfirst)

/-- The second request is submitted under the event id of the first approval: with any text and at
any time, and it was not opened. -/
def secondSubmit (shownText : String) (now : ℤ) : Submit :=
  { adaApproves "req2" "n2" shownText with now }

/-- **The other request's approval is returned**, with its receipt, for a request that nobody opened
or decided. -/
theorem approval_of_another : ¬∀ (P : Primitives) (reprText : String → String)
    (h : List DeskEntry) (D : ApprovalDesk), Run (DeskCall.act P reprText) {} h D →
      OwnOutcomes P h := by
  intro hclaim
  obtain ⟨shownA, shownB, receipt, hend⟩ := exec_firstApproved
  have hrun := run_exec (DeskCall.act .ascii plainText) {} firstApproved
  rw [hend] at hrun
  have hrun' := hrun.snoc (.submit (secondSubmit "" 1000))
  obtain ⟨marker, hmarker⟩ := exists_digest_marker .ascii "req2" "approve" "ada"
  have hrepeats : Repeats .ascii (approvedDesk shownA shownB receipt) (secondSubmit "" 1000)
      ⟨.approved, "approve", some receipt, ["*"]⟩ :=
    ⟨⟨⟨"req2", 1, shownB, "plan-b", "ada", "n2", 100, "release", []⟩, by
      simp [approvedDesk, presentedDesk, request?, secondSubmit, adaApproves], rfl, rfl⟩,
      rfl, marker, hmarker, hmarker⟩
  obtain ⟨e', he', hdecided, -⟩ := (hclaim .ascii plainText _ _ hrun').own _ _ [] rfl
    (secondSubmit "" 1000) ⟨.approved, "approve", some receipt, ["*"]⟩ ⟨rfl, by
      rw [Entry.perform_reply, DeskCall.act, run_map, hrepeats.run_submit]
      rfl⟩
  -- the only submit that recorded a decision is that of the first request
  rcases List.mem_append.mp he' with he' | he'
  · have hop : e'.op ∈ firstApproved := by
      rw [← map_op_exec (DeskCall.act .ascii plainText) {} firstApproved]
      exact List.mem_map_of_mem he'
    simp only [firstApproved, List.mem_cons, List.not_mem_nil, or_false] at hop
    rcases hop with hop | hop | hop | hop <;> rw [decided?, hop] at hdecided
    · cases hdecided
    · cases hdecided
    · cases hdecided
    · dsimp only at hdecided
      split at hdecided
      · simp [adaApproves, secondSubmit] at hdecided
      · cases hdecided
  · have hknown : (approvedDesk shownA shownB receipt).decision? "ce1" ≠ none := by
      simp [approvedDesk, decision?]
    rw [List.mem_singleton.mp he', decided?] at hdecided
    dsimp only [Entry.perform_op] at hdecided
    rw [if_neg fun hnew => hknown hnew.1] at hdecided
    cases hdecided

end ApprovalDesk

end Kernel

end CyranoAgent
