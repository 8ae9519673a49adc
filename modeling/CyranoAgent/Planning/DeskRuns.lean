import CyranoAgent.Lib.Run
import CyranoAgent.Planning.Decisions

/-!
# Runs of the decision desk

The four calls of `DecisionDesk` as a machine, from any starting clock. `Moves` says what one call
may do to one decision: leave it, expire it, or settle it with a response that matches it; the
rest follows from it. `DeskLaw` states what a desk promises over every run, and `desk_law` proves
it.
-/

namespace CyranoAgent

open Lib Lib.Action

namespace Planning

namespace DecisionDesk

/-! ### The desk as a machine -/

/-- The calls of the desk. -/
inductive DeskCall
  | present (nonce decisionId scope purpose subjectDigest displayDigest : String)
      (revision ttl : ℤ) (allowedResponses : Option (List String))
  | recordResponse (r : Response)
  | setClock (now : ℤ)
  | expirePending

/-- What a call returns. -/
inductive DeskReply
  | request (request : DecisionRequest)
  | outcome (outcome : DecisionOutcome)
  | done
  | expired (decisionIds : List String)

/-- The action of a call. -/
def DeskCall.op (reprText : String → String) : DeskCall → DeskOp DeskReply
  | .present nonce decisionId scope purpose subjectDigest displayDigest revision ttl
      allowedResponses =>
    .request <$> DecisionDesk.present reprText nonce decisionId scope purpose subjectDigest
      displayDigest revision ttl allowedResponses
  | .recordResponse r => .outcome <$> DecisionDesk.recordResponse r
  | .setClock now => (fun _ => .done) <$> DecisionDesk.setClock now
  | .expirePending => .expired <$> DecisionDesk.expirePending

/-- Perform a call. -/
def DeskCall.act (reprText : String → String) (call : DeskCall) (D : DecisionDesk) :
    Except Failure DeskReply × DecisionDesk :=
  (call.op reprText).run D

/-- The decision that a call is about. -/
def DeskCall.target? : DeskCall → Option String
  | .present _ decisionId .. => some decisionId
  | .recordResponse r => some r.decisionId
  | .setClock _ => none
  | .expirePending => none

/-- One call of a history of the desk. -/
abbrev DeskEntry := Entry DecisionDesk DeskCall (Except Failure DeskReply)

/-- The calls of `h` lead from a desk without requests to `D`. -/
abbrev DeskHistory (reprText : String → String) (now : ℤ) (h : List DeskEntry)
    (D : DecisionDesk) : Prop :=
  Run (DeskCall.act reprText) { now } h D

/-! ### What a call does to a decision -/

/-- A call leaves a decision, expires it, or settles it. -/
inductive Moves (D : DecisionDesk) (call : DeskCall) (q : DecisionRequest) : DecisionRequest → Prop
  | stay : Moves D call q q
  | expire (hpending : q.state = .pending) (hlate : q.expiresAt < D.now) :
      Moves D call q { q with state := .expired }
  | settle (r : Response) (hcall : call = .recordResponse r) (hsettles : D.Settles r q) :
      Moves D call q
        { q with state := responseState r.response, approvedUnits := r.approvedUnits }

theorem decisionId_of_load {D : DecisionDesk} {decisionId : String} {q : DecisionRequest}
    (h : D.load decisionId = some q) : q.decisionId = decisionId := by
  simpa using List.find?_some h

/-- A lookup after an update that keeps the ids. -/
theorem load_update {D : DecisionDesk} {p : DecisionRequest → Bool}
    {f : DecisionRequest → DecisionRequest} (hid : ∀ q, (f q).decisionId = q.decisionId)
    {decisionId : String} {q : DecisionRequest} (h : D.load decisionId = some q) :
    load { D with requests := Rows.update p f D.requests } decisionId =
      some (if p q then f q else q) := by
  rw [load] at h ⊢
  rw [Rows.find?_update (fun q => by rw [hid]), h, Option.map_some]

/-- A new request hides no other. -/
theorem load_append {D : DecisionDesk} {decisionId : String} {q : DecisionRequest}
    (h : D.load decisionId = some q) (request : DecisionRequest) :
    load { D with requests := D.requests ++ [request] } decisionId = some q := by
  rw [load] at h ⊢
  rw [List.find?_append, h, Option.some_or]

/-- Presenting a request leaves the decisions there are. -/
theorem load_present (reprText : String → String) (nonce decisionId scope purpose subjectDigest
    displayDigest : String) (revision ttl : ℤ) (allowedResponses : Option (List String))
    {D : DecisionDesk} {id : String} {q : DecisionRequest} (h : D.load id = some q) :
    ((present reprText nonce decisionId scope purpose subjectDigest displayDigest revision ttl
      allowedResponses).run D).2.load id = some q := by
  rw [present, run_raiseIf_bind]
  by_cases hpurpose : purpose ∉ purposes
  · rw [if_pos hpurpose]
    exact h
  rw [if_neg hpurpose, run_bind_ok (run_get D)]
  rcases D.load decisionId with _ | existing
  · dsimp only
    rw [run_raiseIf_bind]
    split_ifs
    · exact h
    · exact load_append h _
  · dsimp only
    rw [run_raiseIf_bind]
    split_ifs
    · exact h
    · exact h

/-- A response moves its own decision, as it settles or expires it. -/
theorem moves_recordResponse {D : DecisionDesk} {id : String} {q : DecisionRequest}
    (h : D.load id = some q) (r : Response) :
    ∃ q', ((recordResponse r).run D).2.load id = some q' ∧ Moves D (.recordResponse r) q q' := by
  have hsame (request : DecisionRequest) (hload : D.load r.decisionId = some request)
      (hid : q.decisionId = r.decisionId) : q = request := by
    rw [← hid, decisionId_of_load h, h] at hload
    exact Option.some.inj hload
  have hupdate (f : DecisionRequest → DecisionRequest)
      (hid : ∀ q, (f q).decisionId = q.decisionId) :=
    load_update (p := fun request => request.decisionId = r.decisionId) hid h
  have hanswer := answer_recordResponse D r
  generalize (recordResponse r).run D = result at hanswer
  obtain ⟨answer, D'⟩ := result
  dsimp only at hanswer ⊢
  cases hanswer with
  | refused e => exact ⟨q, h, .stay⟩
  | replayed request outcome hload hstate hout hpurpose hgranted => exact ⟨q, h, .stay⟩
  | lapsed request outcome hload hexpired hpurpose hgranted hpending hlate =>
    refine ⟨_, hupdate _ fun _ => rfl, ?_⟩
    by_cases hid : q.decisionId = r.decisionId
    · obtain rfl := hsame request hload hid
      rw [if_pos (by simpa using hid)]
      exact .expire hpending hlate
    · rw [if_neg (by simpa using hid)]
      exact .stay
  | settled request outcome hsettles hout hpurpose hgranted =>
    refine ⟨_, hupdate _ fun _ => rfl, ?_⟩
    by_cases hid : q.decisionId = r.decisionId
    · obtain rfl := hsame request hsettles.load hid
      rw [if_pos (by simpa using hid)]
      exact .settle r rfl hsettles
    · rw [if_neg (by simpa using hid)]
      exact .stay

/-- The sweep expires the decisions that have lapsed. -/
theorem moves_expirePending {D : DecisionDesk} {id : String} {q : DecisionRequest}
    (h : D.load id = some q) :
    ∃ q', (expirePending.run D).2.load id = some q' ∧ Moves D .expirePending q q' := by
  refine ⟨_, load_update (f := fun request => { request with state := .expired }) (fun _ => rfl) h,
    ?_⟩
  split_ifs with hlapsed
  · obtain ⟨hpending, hlate⟩ := of_decide_eq_true hlapsed
    exact .expire hpending hlate
  · exact .stay

/-- **One call keeps every decision and makes one of these moves with it.** -/
theorem moves_of_load (reprText : String → String) (call : DeskCall) {D : DecisionDesk}
    {id : String} {q : DecisionRequest} (h : D.load id = some q) :
    ∃ q', (call.act reprText D).2.load id = some q' ∧ Moves D call q q' := by
  cases call with
  | present nonce decisionId scope purpose subjectDigest displayDigest revision ttl
      allowedResponses =>
    rw [DeskCall.act, DeskCall.op, run_map]
    exact ⟨q, load_present reprText _ _ _ _ _ _ _ _ _ h, .stay⟩
  | recordResponse r =>
    rw [DeskCall.act, DeskCall.op, run_map]
    exact moves_recordResponse h r
  | setClock now =>
    rw [DeskCall.act, DeskCall.op, run_map]
    exact ⟨q, h, .stay⟩
  | expirePending =>
    rw [DeskCall.act, DeskCall.op, run_map]
    exact moves_expirePending h

namespace Moves

variable {D : DecisionDesk} {call : DeskCall} {q q' : DecisionRequest}

/-- What identifies a decision stays. -/
theorem same (h : Moves D call q q') :
    q'.purpose = q.purpose ∧ q'.subjectDigest = q.subjectDigest ∧ q'.nonce = q.nonce ∧
      q'.expiresAt = q.expiresAt := by
  cases h <;> exact ⟨rfl, rfl, rfl, rfl⟩

/-- A decision that is not pending stays as it is. -/
theorem eq_of_settled (h : Moves D call q q') (hstate : q.state ≠ .pending) : q' = q := by
  cases h with
  | stay => rfl
  | expire hpending hlate => exact absurd hpending hstate
  | settle r hcall hsettles => exact absurd hsettles.pending hstate

/-- A call about another decision can only expire this one. -/
theorem of_other (h : Moves D call q q') (hother : call.target? ≠ some q.decisionId) :
    q' = q ∨ (q.state = .pending ∧ q.expiresAt < D.now ∧ q' = { q with state := .expired }) := by
  cases h with
  | stay => exact .inl rfl
  | expire hpending hlate => exact .inr ⟨hpending, hlate, rfl⟩
  | settle r hcall hsettles =>
    subst hcall
    rw [decisionId_of_load hsettles.load] at hother
    exact absurd rfl hother

end Moves

/-! ### The law of the desk -/

/-- The call grants approval on the decision. -/
def Grants (e : DeskEntry) (decisionId : String) : Prop :=
  ∃ r outcome, e.op = .recordResponse r ∧ r.decisionId = decisionId ∧
    e.reply = .ok (.outcome outcome) ∧ outcome.granted = true

/-- The second entry is the first one or comes after it. -/
def Reaches (h : List DeskEntry) (e e' : DeskEntry) : Prop := (e ∈ h ∧ e' = e) ∨ Precedes h e e'

/-- What a desk promises over a history. -/
structure DeskLaw (h : List DeskEntry) : Prop where
  /-- A decision keeps its purpose, its subject digest, its nonce and its expiry for ever. -/
  kept : ∀ e e', Reaches h e e' → ∀ decisionId q, e.before.load decisionId = some q →
    ∃ q', e'.after.load decisionId = some q' ∧ q'.purpose = q.purpose ∧
      q'.subjectDigest = q.subjectDigest ∧ q'.nonce = q.nonce ∧ q'.expiresAt = q.expiresAt
  /-- It is granted at most once. -/
  once : ∀ e e', Precedes h e e' → ∀ decisionId, Grants e decisionId → ¬Grants e' decisionId
  /-- It is granted while pending and unexpired, to an approval that matches it. -/
  earned : ∀ e ∈ h, ∀ decisionId, Grants e decisionId → ∃ r q, e.op = .recordResponse r ∧
    r.decisionId = decisionId ∧ r.response = "approve" ∧ e.before.load decisionId = some q ∧
    q.state = .pending ∧ e.before.now ≤ q.expiresAt ∧ Matches r q
  /-- It becomes approved only by being granted. -/
  approved : ∀ e ∈ h, ∀ decisionId q q', e.before.load decisionId = some q →
    e.after.load decisionId = some q' → q.state ≠ .approved → q'.state = .approved →
    Grants e decisionId
  /-- A decision that is not pending never changes again. -/
  settled : ∀ e e', Reaches h e e' → ∀ decisionId q, e.before.load decisionId = some q →
    q.state ≠ .pending → e'.after.load decisionId = some q
  /-- A call about another decision, or about none, can only expire it. -/
  framed : ∀ e ∈ h, ∀ decisionId q, e.op.target? ≠ some decisionId →
    e.before.load decisionId = some q → e.after.load decisionId = some q ∨
      (q.state = .pending ∧ q.expiresAt < e.before.now ∧
        e.after.load decisionId = some { q with state := .expired })
  /-- A response that raises changes nothing. -/
  raised : ∀ e ∈ h, ∀ r failure, e.op = .recordResponse r → e.reply = .error failure →
    e.after = e.before

section

variable {reprText : String → String} {now : ℤ} {h : List DeskEntry} {D : DecisionDesk}

/-- What every call preserves of a state, all later states have. -/
theorem inv_of_reaches {I : DecisionDesk → Prop} (hr : DeskHistory reprText now h D)
    {e e' : DeskEntry} (hreach : Reaches h e e') (h0 : I e.before)
    (hstep : ∀ D call, I D → I (DeskCall.act reprText call D).2) : I e'.after := by
  have hone : ∀ e ∈ h, I e.before → I e.after := by
    intro e he hI
    rw [hr.eq_perform he]
    exact hstep e.before e.op hI
  obtain ⟨he, rfl⟩ | hprecedes := hreach
  · exact hone e' he h0
  · exact hone e' hprecedes.mem_right
      (hprecedes.inv hr (hone e hprecedes.mem_left h0) fun D call => hstep D call)

/-- What the desk answers to a response of a history. -/
theorem answer_of_mem (hr : DeskHistory reprText now h D) {e : DeskEntry} (he : e ∈ h)
    {r : Response} (hop : e.op = .recordResponse r) :
    ∃ answer, e.reply = answer.map .outcome ∧ Answer e.before r answer e.after := by
  have hperform := hr.eq_perform he
  rw [hop, Entry.perform, DeskCall.act, DeskCall.op, run_map] at hperform
  refine ⟨_, congrArg Entry.reply hperform, ?_⟩
  rw [congrArg Entry.after hperform]
  exact answer_recordResponse e.before r

/-- The response of a call that grants settles its decision. -/
theorem settles_of_grants (hr : DeskHistory reprText now h D) {e : DeskEntry} (he : e ∈ h)
    {decisionId : String} (hgrants : Grants e decisionId) :
    ∃ r q, e.op = .recordResponse r ∧ r.decisionId = decisionId ∧ r.response = "approve" ∧
      e.before.Settles r q ∧ e.after.load decisionId =
        some { q with state := .approved, approvedUnits := r.approvedUnits } := by
  obtain ⟨r, outcome, hop, hid, hreply, hgranted⟩ := hgrants
  obtain ⟨answer, hreply', hanswer⟩ := answer_of_mem hr he hop
  rw [hreply] at hreply'
  generalize hafter : e.after = D' at hanswer
  -- only a response that settles its request grants
  cases hanswer with
  | refused failure => cases hreply'
  | replayed request outcome' hload hstate hsame hpurpose hnot =>
    obtain rfl : outcome = outcome' := by cases hreply'; rfl
    rw [hnot] at hgranted
    cases hgranted
  | lapsed request outcome' hload hexpired hpurpose hnot hpending hlate =>
    obtain rfl : outcome = outcome' := by cases hreply'; rfl
    rw [hnot] at hgranted
    cases hgranted
  | settled request outcome' hsettles hstate hpurpose hiff =>
    obtain rfl : outcome = outcome' := by cases hreply'; rfl
    rw [hiff] at hgranted
    have happrove : r.response = "approve" := of_decide_eq_true hgranted
    refine ⟨r, request, hop, hid, happrove, hsettles, ?_⟩
    rw [← hid, responseState_eq_approved.mpr happrove]
    exact load_settled hsettles.load _ _

/-- What one call of a history does to a decision. -/
theorem moves_of_mem (hr : DeskHistory reprText now h D) {e : DeskEntry} (he : e ∈ h)
    {decisionId : String} {q : DecisionRequest} (hload : e.before.load decisionId = some q) :
    ∃ q', e.after.load decisionId = some q' ∧ Moves e.before e.op q q' := by
  obtain ⟨q', hafter, hmoves⟩ := moves_of_load reprText e.op hload
  have hperform : e.after = (e.op.act reprText e.before).2 :=
    congrArg Entry.after (hr.eq_perform he)
  exact ⟨q', by rw [hperform, hafter], hmoves⟩

/-- A decision that is not pending stays, over every later call. -/
theorem load_of_settled (hr : DeskHistory reprText now h D) {e e' : DeskEntry}
    (hreach : Reaches h e e') {decisionId : String} {q : DecisionRequest}
    (hload : e.before.load decisionId = some q) (hstate : q.state ≠ .pending) :
    e'.after.load decisionId = some q := by
  refine inv_of_reaches hr hreach (I := fun D => D.load decisionId = some q) hload ?_
  intro D call hD
  obtain ⟨q', hafter, hmoves⟩ := moves_of_load reprText call hD
  rwa [hmoves.eq_of_settled hstate] at hafter

/-- **The law of the desk**, over every history, from any clock. -/
theorem desk_law (hr : DeskHistory reprText now h D) : DeskLaw h where
  kept e e' hreach decisionId q hload := by
    refine inv_of_reaches hr hreach (I := fun D => ∃ q', D.load decisionId = some q' ∧
      q'.purpose = q.purpose ∧ q'.subjectDigest = q.subjectDigest ∧ q'.nonce = q.nonce ∧
        q'.expiresAt = q.expiresAt) ⟨q, hload, rfl, rfl, rfl, rfl⟩ ?_
    rintro D call ⟨q₁, hq₁, hpurpose, hdigest, hnonce, hexpires⟩
    obtain ⟨q₂, hq₂, hmoves⟩ := moves_of_load reprText call hq₁
    obtain ⟨hpurpose', hdigest', hnonce', hexpires'⟩ := hmoves.same
    exact ⟨q₂, hq₂, hpurpose'.trans hpurpose, hdigest'.trans hdigest, hnonce'.trans hnonce,
      hexpires'.trans hexpires⟩
  once e e' hprecedes decisionId hgrants hgrants' := by
    obtain ⟨r, q, hop, hid, happrove, hsettles, hafter⟩ :=
      settles_of_grants hr hprecedes.mem_left hgrants
    obtain ⟨r', q', hop', hid', happrove', hsettles', -⟩ :=
      settles_of_grants hr hprecedes.mem_right hgrants'
    -- the first grant leaves the decision approved, the second finds it pending
    have happroved : e'.before.load decisionId =
        some { q with state := .approved, approvedUnits := r.approvedUnits } := by
      refine hprecedes.inv hr (I := fun D => D.load decisionId = some _) hafter ?_
      intro D call hD
      obtain ⟨q₂, hq₂, hmoves⟩ := moves_of_load reprText call hD
      have hstays := hmoves.eq_of_settled fun hpending => by cases hpending
      rwa [hstays] at hq₂
    have hload := hsettles'.load
    rw [hid', happroved] at hload
    obtain rfl := Option.some.inj hload
    cases hsettles'.pending
  earned e he decisionId hgrants := by
    obtain ⟨r, q, hop, rfl, happrove, hsettles, -⟩ := settles_of_grants hr he hgrants
    exact ⟨r, q, hop, rfl, happrove, hsettles.load, hsettles.pending, hsettles.live,
      hsettles.displayed⟩
  approved e he decisionId q q' hload hload' hbefore hafter := by
    obtain ⟨q₂, hq₂, hmoves⟩ := moves_of_mem hr he hload
    rw [hload'] at hq₂
    obtain rfl := Option.some.inj hq₂
    cases hmoves with
    | stay => exact absurd hafter hbefore
    | expire hpending hlate => cases hafter
    | settle r hcall hsettles =>
      obtain ⟨outcome, hrun, -, -, hgranted⟩ := recordResponse_of_settles hsettles
      have happrove : r.response = "approve" := responseState_eq_approved.mp hafter
      rw [happrove] at hgranted
      refine ⟨r, outcome, hcall, ?_, ?_, hgranted⟩
      · rw [← decisionId_of_load hsettles.load, decisionId_of_load hload]
      · have hperform := hr.eq_perform he
        rw [hcall, Entry.perform, DeskCall.act, DeskCall.op, run_map, hrun] at hperform
        exact congrArg Entry.reply hperform
  settled e e' hreach decisionId q hload hstate := load_of_settled hr hreach hload hstate
  framed e he decisionId q hother hload := by
    obtain ⟨q', hafter, hmoves⟩ := moves_of_mem hr he hload
    rw [← decisionId_of_load hload] at hother
    rcases hmoves.of_other hother with rfl | ⟨hpending, hlate, rfl⟩
    · exact .inl hafter
    · exact .inr ⟨hpending, hlate, hafter⟩
  raised e he r failure hop hreply := by
    obtain ⟨answer, hreply', hanswer⟩ := answer_of_mem hr he hop
    rw [hreply] at hreply'
    generalize e.after = D' at hanswer
    cases hanswer with
    | refused failure' => rfl
    | replayed request outcome hload hstate hsame hpurpose hgranted => cases hreply'
    | lapsed request outcome hload hexpired hpurpose hgranted hpending hlate => cases hreply'
    | settled request outcome hsettles hstate hpurpose hgranted => cases hreply'

/-- A request is presented twice, approved, and approved once more. -/
def presentedTwice : List DeskCall :=
  [.present "n" "d" "s" "plan_approval" "subject" "display" 0 600 none, .setClock 100,
    .present "m" "d" "s" "plan_approval" "subject" "display" 0 600 none,
    .recordResponse ⟨"d", "approve", "n", "subject", "display", 0, []⟩,
    .recordResponse ⟨"d", "approve", "n", "subject", "display", 0, []⟩, .expirePending]

theorem desk_law_presentedTwice :
    DeskLaw (exec (DeskCall.act id) { now := 0 } presentedTwice).1 :=
  desk_law (run_exec (DeskCall.act id) { now := 0 } presentedTwice)

end

end DecisionDesk

end Planning

end CyranoAgent
