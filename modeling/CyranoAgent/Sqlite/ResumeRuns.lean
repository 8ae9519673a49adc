import CyranoAgent.Contracts.FixedPoint
import CyranoAgent.Sqlite.History
import CyranoAgent.Sqlite.Resume

/-!
# Effects, responses, approvals and checkpoints over a run

What the tables of `ResumeStore` hold after any history of calls, of any scopes and with streams
deleted and created again in between. `effect_life` follows one effect: at most one caller is told
to send it, and it is dispatched at most once. `responseFor_eq`, `approvalUsable_iff` and
`readCheckpoint_eq` say that the reads answer with what was written last.
-/

namespace CyranoAgent

open Lib Lib.Action

variable {P : Primitives} {h : List ResumeEntry} {S : ResumeStore}

/-! ### The life of an effect -/

/-- What a call is to an effect. A reservation carries its scope, its stream and the digest of its
request. -/
inductive EffectEvent
  | reserved (scopeId streamId requestDigest : String)
  | repeated (requestDigest : String)
  | dispatched
  | marked
  deriving DecidableEq, Repr

/-- What an entry is to the effect of a key, if it returned. -/
def effectEvent? (P : Primitives) (key : String) (e : ResumeEntry) : Option EffectEvent :=
  match e.op, e.reply with
  | .reserveEffect scopeId streamId effectKey request, .ok (.granted fresh) =>
    if effectKey = key then (digest P (.dict request)).toOption.map fun requestDigest =>
      if fresh then .reserved scopeId streamId requestDigest else .repeated requestDigest
    else none
  | .dispatchEffect effectKey, .ok _ => if effectKey = key then some .dispatched else none
  | .markEffectUnknown effectKey, .ok _ => if effectKey = key then some .marked else none
  | _, _ => none

/-- **The lives of an effect**, with the row it has then: never reserved; reserved once, and
repeated with the same request; and dispatched once after that, and perhaps marked. -/
inductive EffectLife (key : String) : List EffectEvent → Option EffectRow → Prop
  | unreserved {before : List EffectEvent} : (∀ ev ∈ before, ev = .marked) →
      EffectLife key before none
  | reserved {before waiting : List EffectEvent} {scopeId streamId requestDigest : String} :
      (∀ ev ∈ before, ev = .marked) →
      (∀ ev ∈ waiting, ev = .repeated requestDigest ∨ ev = .marked) →
      EffectLife key (before ++ .reserved scopeId streamId requestDigest :: waiting)
        (some ⟨key, scopeId, streamId, .reserved, requestDigest⟩)
  | dispatched {before waiting after : List EffectEvent}
      {scopeId streamId requestDigest : String} :
      (∀ ev ∈ before, ev = .marked) →
      (∀ ev ∈ waiting, ev = .repeated requestDigest ∨ ev = .marked) →
      (∀ ev ∈ after, ev = .repeated requestDigest ∨ ev = .marked) →
      EffectLife key
        (before ++ .reserved scopeId streamId requestDigest :: (waiting ++ .dispatched :: after))
        (some ⟨key, scopeId, streamId, if .marked ∈ after then .unknown else .dispatched,
          requestDigest⟩)

namespace EffectLife

variable {key : String} {evs : List EffectEvent} {row? : Option EffectRow} {row : EffectRow}

theorem effectKey_eq (hlife : EffectLife key evs (some row)) : row.effectKey = key := by
  cases hlife <;> rfl

/-- A request that is repeated changes nothing. -/
theorem repeatRequest (hlife : EffectLife key evs (some row)) :
    EffectLife key (evs ++ [.repeated row.requestDigest]) (some row) := by
  cases hlife with
  | reserved hbefore hwaiting =>
    rw [List.append_assoc, List.cons_append]
    refine .reserved hbefore fun ev hev => ?_
    rcases List.mem_append.mp hev with hev | hev
    · exact hwaiting ev hev
    · exact .inl (List.mem_singleton.mp hev)
  | @dispatched before waiting after scopeId streamId requestDigest hbefore hwaiting hafter =>
    have hmarked : EffectEvent.marked ∈ after ++ [.repeated requestDigest] ↔ .marked ∈ after := by
      simp
    rw [List.append_assoc, List.cons_append, List.append_assoc, List.cons_append]
    simp only [← hmarked]
    refine .dispatched hbefore hwaiting fun ev hev => ?_
    rcases List.mem_append.mp hev with hev | hev
    · exact hafter ev hev
    · exact .inl (List.mem_singleton.mp hev)

/-- A reserved effect is dispatched. -/
theorem dispatch (hlife : EffectLife key evs (some row)) (hstatus : row.status = .reserved) :
    EffectLife key (evs ++ [.dispatched]) (some { row with status := .dispatched }) := by
  cases hlife with
  | reserved hbefore hwaiting =>
    rw [List.append_assoc, List.cons_append]
    exact @EffectLife.dispatched key _ _ [] _ _ _ hbefore hwaiting (by simp)
  | dispatched => split_ifs at hstatus

/-- A mark changes the status of a dispatched effect only. -/
theorem mark (hlife : EffectLife key evs row?) :
    EffectLife key (evs ++ [.marked]) (row?.map fun row =>
      if row.status = .dispatched then { row with status := .unknown } else row) := by
  have hsnoc {l : List EffectEvent} {d : String}
      (hl : ∀ ev ∈ l, ev = .repeated d ∨ ev = .marked) :
      ∀ ev ∈ l ++ [.marked], ev = .repeated d ∨ ev = .marked := by
    simpa [or_imp, forall_and] using hl
  cases hlife with
  | unreserved hbefore => exact .unreserved (by simpa [or_imp, forall_and] using hbefore)
  | reserved hbefore hwaiting =>
    rw [List.append_assoc, List.cons_append]
    exact .reserved hbefore (hsnoc hwaiting)
  | @dispatched before waiting after scopeId streamId requestDigest hbefore hwaiting hafter =>
    have hlife' := @EffectLife.dispatched key _ _ _ scopeId streamId _ hbefore hwaiting
      (hsnoc hafter)
    rw [if_pos (by simp)] at hlife'
    rw [List.append_assoc, List.cons_append, List.append_assoc, List.cons_append]
    by_cases hmarked : EffectEvent.marked ∈ after
    · simpa [hmarked] using hlife'
    · simpa [hmarked] using hlife'

end EffectLife

namespace ResumeStore

variable {key effectKey : String} {old new : EffectStatus}

theorem effect?_moveEffects : (Resume.moveEffects effectKey old new S).effect? key =
    (S.effect? key).map fun row =>
      if row.effectKey = effectKey ∧ row.status = old then { row with status := new } else row := by
  rw [effect?, Resume.moveEffects, Rows.find?_update (by simp)]
  simp only [effect?, decide_eq_true_eq]

/-- An update moves the effect of its key only. -/
theorem effect?_moveEffects_of_ne (hne : effectKey ≠ key) :
    (Resume.moveEffects effectKey old new S).effect? key = S.effect? key := by
  rw [effect?_moveEffects]
  cases hrow : S.effect? key with
  | none => rfl
  | some row =>
    have hkey : row.effectKey = key := by simpa using List.find?_some hrow
    rw [Option.map_some, if_neg fun hrow => hne (hrow.1.symm.trans hkey)]

/-- Every call keeps the keys of the effects unique. -/
theorem nodup_effects {call : ResumeCall} {reply : Except Failure ResumeReply} {S' : ResumeStore}
    (h : ResumeMoves P S call reply S') (hS : (S.effects.map (·.effectKey)).Nodup) :
    (S'.effects.map (·.effectKey)).Nodup := by
  cases h with
  | reserved _ _ hfresh =>
    refine Rows.nodup_append hS fun row hrow => ?_
    simpa using List.find?_eq_none.mp hfresh row hrow
  | dispatched => rwa [Resume.moveEffects, Rows.map_update (by simp)]
  | marked => rwa [Resume.moveEffects, Rows.map_update (by simp)]
  | _ => exact hS

end ResumeStore

/-- **One call in the life of an effect.** -/
theorem EffectLife.step {key : String} {evs : List EffectEvent} {call : ResumeCall}
    {reply : Except Failure ResumeReply} {S' : ResumeStore} (h : ResumeMoves P S call reply S')
    (hS : (S.effects.map (·.effectKey)).Nodup) (hlife : EffectLife key evs (S.effect? key)) :
    EffectLife key (evs ++ (effectEvent? P key ⟨S, call, reply, S'⟩).toList) (S'.effect? key) := by
  have hidle (hev : effectEvent? P key ⟨S, call, reply, S'⟩ = none)
      (hrow : S'.effect? key = S.effect? key) :
      EffectLife key (evs ++ (effectEvent? P key ⟨S, call, reply, S'⟩).toList)
        (S'.effect? key) := by
    rw [hev, hrow]
    simpa using hlife
  cases h with
  | reserved howns hdigest hfresh =>
    rename_i scopeId streamId effectKey requestDigest request
    by_cases hkey : effectKey = key
    · obtain rfl := hkey
      rw [hfresh] at hlife
      have hbefore : ∀ ev ∈ evs, ev = .marked := by
        generalize hnone : (none : Option EffectRow) = row? at hlife
        cases hlife with
        | unreserved hbefore => exact hbefore
        | reserved => cases hnone
        | dispatched => cases hnone
      have hlife' : EffectLife effectKey (evs ++ [.reserved scopeId streamId requestDigest])
          (some ⟨effectKey, scopeId, streamId, .reserved, requestDigest⟩) :=
        .reserved hbefore (by simp)
      have hnone : S.effects.find? (fun row => row.effectKey = effectKey) = none := hfresh
      simpa [effectEvent?, hdigest, Except.toOption, ResumeStore.effect?, List.find?_append, hnone]
        using hlife'
    · refine hidle (if_neg hkey) ?_
      simp [ResumeStore.effect?, List.find?_append, hkey]
  | repeated howns hdigest hrow =>
    rename_i scopeId streamId effectKey request row
    by_cases hkey : effectKey = key
    · obtain rfl := hkey
      rw [hrow] at hlife ⊢
      simpa [effectEvent?, hdigest, Except.toOption] using hlife.repeatRequest
    · exact hidle (if_neg hkey) rfl
  | dispatched hmem hkeyRow hstatus =>
    rename_i effectKey row
    by_cases hkey : effectKey = key
    · obtain rfl := hkey
      have hrow : S.effect? effectKey = some row := by
        rw [ResumeStore.effect?, ← hkeyRow]
        exact Rows.find?_key hS hmem
      rw [ResumeStore.effect?_moveEffects, hrow, Option.map_some, if_pos ⟨hkeyRow, hstatus⟩]
      rw [hrow] at hlife
      simpa [effectEvent?] using hlife.dispatch hstatus
    · exact hidle (if_neg hkey) (ResumeStore.effect?_moveEffects_of_ne hkey)
  | marked effectKey =>
    by_cases hkey : effectKey = key
    · obtain rfl := hkey
      have hsame : (Resume.moveEffects effectKey .dispatched .unknown S).effect? effectKey =
          (S.effect? effectKey).map fun row =>
            if row.status = .dispatched then { row with status := .unknown } else row := by
        rw [ResumeStore.effect?_moveEffects]
        refine Option.map_congr fun row hrow => ?_
        have hkeyRow : row.effectKey = effectKey := by simpa using List.find?_some hrow
        simp [hkeyRow]
      rw [hsame]
      simpa [effectEvent?] using hlife.mark
    · exact hidle (if_neg hkey) (ResumeStore.effect?_moveEffects_of_ne hkey)
  | refused call err => exact hidle (by cases call <;> rfl) rfl
  | onLedger call => exact hidle rfl rfl
  | resumed => exact hidle rfl rfl
  | decided => exact hidle rfl rfl
  | responded => exact hidle rfl rfl
  | approved => exact hidle rfl rfl
  | revoked => exact hidle rfl rfl
  | checkpointed => exact hidle rfl rfl

/-- **An effect is reserved for one caller, and dispatched at most once after that**, whatever
calls of whatever scopes come in between: its calls and its row are one of the lives. -/
theorem effect_life (hr : ResumeHistory P h S) (key : String) :
    EffectLife key (h.filterMap (effectEvent? P key)) (S.effect? key) := by
  have hlife : (S.effects.map (·.effectKey)).Nodup ∧
      EffectLife key (h.filterMap (effectEvent? P key)) (S.effect? key) := by
    refine hr.inv (I := fun h S => (S.effects.map (·.effectKey)).Nodup ∧
      EffectLife key (h.filterMap (effectEvent? P key)) (S.effect? key))
      ⟨by simp, .unreserved (by simp)⟩ fun h S call _ hS => ?_
    have hmoves := ResumeCall.act_moves P call S
    refine ⟨ResumeStore.nodup_effects hmoves hS.1, ?_⟩
    have hlast : [Entry.perform (ResumeCall.act P) S call].filterMap (effectEvent? P key) =
        (effectEvent? P key (Entry.perform (ResumeCall.act P) S call)).toList := by
      cases hev : effectEvent? P key (Entry.perform (ResumeCall.act P) S call) <;> simp [hev]
    rw [List.filterMap_append, hlast]
    exact hS.2.step hmoves hS.1
  exact hlife.2

/-- Two callers reserve an effect, one of them dispatches it, and it is lost. -/
def effectCalls : List ResumeCall :=
  [.onLedger (.registerScope "acme" "ada" "lab"), .onLedger (.createStream acmeScope "s" "task"),
    .reserveEffect acmeScope "s" "mail" [(.str "to", .str "bob")],
    .reserveEffect acmeScope "s" "mail" [(.str "to", .str "bob")], .dispatchEffect "mail",
    .onLedger (.deleteStream "s" "now"), .markEffectUnknown "mail"]

theorem effect_life_mail :
    EffectLife "mail"
      ((exec (ResumeCall.act .ascii) {} effectCalls).1.filterMap (effectEvent? .ascii "mail"))
      ((exec (ResumeCall.act .ascii) {} effectCalls).2.effect? "mail") :=
  effect_life (run_exec _ _ _) "mail"

/-! ### Decisions of nodes -/

/-- The decisions in the table are those of their nodes. -/
theorem ResumeMoves.decisions {call : ResumeCall} {reply : Except Failure ResumeReply}
    {S' : ResumeStore} (h : ResumeMoves P S call reply S')
    (hS : ∀ row ∈ S.nodes, digest P (Resume.nodeValue row.streamId row.nodeId) =
      .ok row.decisionId) :
    ∀ row ∈ S'.nodes, digest P (Resume.nodeValue row.streamId row.nodeId) = .ok row.decisionId := by
  cases h with
  | decided howns hfresh hdigest =>
    rw [List.forall_mem_append]
    exact ⟨hS, by simpa using hdigest⟩
  | _ => exact hS

/-- **A node has one decision**: a node that is reserved again, after a restart and by whatever
scope, is given the decision that it was given before. -/
theorem decision_eq (hr : ResumeHistory P h S) {e : ResumeEntry} (he : e ∈ h)
    {scopeId streamId nodeId decision : String} (hop : e.op = .reserveNode scopeId streamId nodeId)
    (hreply : e.reply = .ok (.decision decision)) :
    digest P (Resume.nodeValue streamId nodeId) = .ok decision := by
  obtain ⟨h₁, h₂, rfl⟩ := List.append_of_mem he
  obtain ⟨hbefore, heq, -⟩ := hr.split
  have hrows := hbefore.inv_state (I := fun S => ∀ row ∈ S.nodes,
    digest P (Resume.nodeValue row.streamId row.nodeId) = .ok row.decisionId) (by simp)
    fun S call => (ResumeCall.act_moves P call S).decisions
  have hmoves := ResumeCall.act_moves P e.op e.before
  have hact : (e.op.act P e.before).1 = .ok (.decision decision) := by
    rw [← hreply]
    exact (congrArg Entry.reply heq).symm
  generalize (e.op.act P e.before).2 = S' at hmoves
  rw [hact, hop] at hmoves
  cases hmoves with
  | resumed howns hrow =>
    obtain ⟨rfl, rfl⟩ : _ ∧ _ := by simpa using List.find?_some hrow
    exact hrows _ (List.mem_of_find?_eq_some hrow)
  | decided howns hfresh hdigest => exact hdigest

/-! ### Responses -/

/-- The digest that an entry records as the response to a request. -/
def responded? (P : Primitives) (streamId requestId : String) (e : ResumeEntry) : Option String :=
  match e.op, e.reply with
  | .recordResponse _ streamId' requestId' payload, .ok _ =>
    if (streamId', requestId') = (streamId, requestId) then (digest P (.dict payload)).toOption
    else none
  | _, _ => none

/-- A call records a response, or leaves the one that is there. -/
theorem ResumeMoves.response?_eq {call : ResumeCall} {reply : Except Failure ResumeReply}
    {S' : ResumeStore} (h : ResumeMoves P S call reply S') (streamId requestId : String) :
    (S'.response? streamId requestId).map (·.payloadDigest) =
      (responded? P streamId requestId ⟨S, call, reply, S'⟩).or
        ((S.response? streamId requestId).map (·.payloadDigest)) := by
  cases h with
  | responded _ hdigest =>
    rw [ResumeStore.response?, Rows.find?_replace]
    simp only [responded?, hdigest]
    split_ifs with hkey
    · rfl
    · rfl
  | refused call err => cases call <;> rfl
  | _ => rfl

/-- **A scope that has the stream reads the response that was recorded last**, of whichever scope
had the stream then. -/
theorem responseFor_eq (hr : ResumeHistory P h S) {scopeId streamId : String}
    (howns : S.ledger.Owns scopeId streamId) (requestId : String) :
    (Resume.responseFor scopeId streamId requestId).run S =
      (.ok (h.filterMap (responded? P streamId requestId)).getLast?, S) := by
  have hlast : (S.response? streamId requestId).map (·.payloadDigest) =
      (h.filterMap (responded? P streamId requestId)).getLast? :=
    @Run.part_eq_getLast? _ _ _ _ _ _ _ _
      (fun S => (S.response? streamId requestId).map (·.payloadDigest)) _ rfl
      (fun S call => (ResumeCall.act_moves P call S).response?_eq streamId requestId) hr
  have hscope : (Resume.onLedger (Repository.requireScope scopeId streamId)).run S = (.ok (), S) :=
    Resume.requireScope_eq_ok.mpr ⟨howns, rfl⟩
  rw [← hlast, Resume.responseFor, run_bind_ok hscope]
  rfl

/-- Two responses to one request. -/
def responseCalls : List ResumeCall :=
  [.onLedger (.registerScope "acme" "ada" "lab"), .onLedger (.createStream acmeScope "s" "task"),
    .recordResponse acmeScope "s" "r" [(.str "v", .int 1)],
    .recordResponse acmeScope "s" "r" [(.str "v", .int 2)]]

theorem responseFor_eq_again :
    let run := exec (ResumeCall.act .ascii) {} responseCalls
    (Resume.responseFor acmeScope "s" "r").run run.2 =
      (.ok (run.1.filterMap (responded? .ascii "s" "r")).getLast?, run.2) :=
  responseFor_eq (run_exec _ _ _) (by decide +kernel) "r"

/-! ### Approvals -/

/-- What an entry makes of the expiry of an approval: the one it records, or none when it revokes
the approval. -/
def expiry? (approvalId : String) (e : ResumeEntry) : Option (Option ℤ) :=
  match e.op, e.reply with
  | .recordApproval _ approvalId' _ expiresAt, .ok _ =>
    if approvalId' = approvalId then some (some expiresAt) else none
  | .revokeApproval approvalId' _, .ok _ => if approvalId' = approvalId then some none else none
  | _, _ => none

/-- The expiry of a row that is not revoked. -/
def ApprovalRow.liveUntil? (row : ApprovalRow) : Option ℤ :=
  if row.revokedRevision.isNone then some row.expiresAt else none

theorem ResumeStore.approval?_revoke (S : ResumeStore) (approvalId approvalId' : String)
    (revision : ℤ) :
    (Rows.update (fun row => row.approvalId = approvalId')
        (fun row => { row with revokedRevision := some revision }) S.approvals).find?
        (fun row => row.approvalId = approvalId) =
      (S.approval? approvalId).map fun row =>
        if row.approvalId = approvalId' then { row with revokedRevision := some revision }
        else row := by
  rw [Rows.find?_update (by simp)]
  simp only [ResumeStore.approval?, decide_eq_true_eq]

/-- A call records an approval, revokes it, or leaves it. -/
theorem ResumeMoves.expiry?_eq {call : ResumeCall} {reply : Except Failure ResumeReply}
    {S' : ResumeStore} (h : ResumeMoves P S call reply S') (approvalId : String) :
    (S'.approval? approvalId).bind ApprovalRow.liveUntil? =
      (expiry? approvalId ⟨S, call, reply, S'⟩).getD
        ((S.approval? approvalId).bind ApprovalRow.liveUntil?) := by
  cases h with
  | approved ledger subjects hscope hfresh =>
    rename_i scopeId approvalId' subjectDigest expiresAt
    rw [ResumeStore.approval?, List.find?_append, ← ResumeStore.approval?]
    simp only [expiry?]
    split_ifs with hkey
    · obtain rfl := hkey
      simp [hfresh, ApprovalRow.liveUntil?]
    · simp [hkey]
  | revoked approvalId' revision =>
    rw [ResumeStore.approval?, ResumeStore.approval?_revoke]
    cases hrow : S.approval? approvalId with
    | none => simp only [expiry?]; split_ifs <;> rfl
    | some row =>
      have hkey : row.approvalId = approvalId := by simpa using List.find?_some hrow
      simp only [expiry?]
      split_ifs with h
      · simp [hkey, h, ApprovalRow.liveUntil?]
      · simp [hkey, Ne.symm h]
  | refused call err => cases call <;> rfl
  | _ => rfl

/-- Only a call that records an approval makes it be there. -/
theorem ResumeMoves.approval?_isSome {call : ResumeCall} {reply : Except Failure ResumeReply}
    {S' : ResumeStore} (h : ResumeMoves P S call reply S') (approvalId : String) :
    (if (S'.approval? approvalId).isSome then 1 else 0) =
      (if (S.approval? approvalId).isSome then 1 else 0) +
        ((expiry? approvalId ⟨S, call, reply, S'⟩).toList.filter Option.isSome).length := by
  cases h with
  | approved ledger subjects hscope hfresh =>
    rename_i scopeId approvalId' subjectDigest expiresAt
    rw [ResumeStore.approval?, List.find?_append, ← ResumeStore.approval?]
    simp only [expiry?]
    by_cases hkey : approvalId' = approvalId
    · obtain rfl := hkey
      simp [hfresh]
    · simp [hkey]
  | revoked approvalId' revision =>
    rw [ResumeStore.approval?, ResumeStore.approval?_revoke, Option.isSome_map]
    simp only [expiry?]
    split_ifs <;> rfl
  | refused call err => cases call <;> rfl
  | _ => rfl

/-- **When an approval can be used**: when it was recorded, not revoked since, and has not expired;
and it is recorded once, so that no revoked approval comes back. -/
theorem approvalUsable_iff (hr : ResumeHistory P h S) (approvalId : String) (now : ℤ) :
    (Resume.approvalUsable S approvalId now = true ↔
        ∃ expiresAt, (h.filterMap (expiry? approvalId)).getLast? = some (some expiresAt) ∧
          now < expiresAt) ∧
      ((h.filterMap (expiry? approvalId)).filter Option.isSome).length ≤ 1 := by
  constructor
  · have hlast : (S.approval? approvalId).bind ApprovalRow.liveUntil? =
        (h.filterMap (expiry? approvalId)).getLast?.getD none :=
      @Run.part_eq_getLast _ _ _ _ _ _ _ _
        (fun S => (S.approval? approvalId).bind ApprovalRow.liveUntil?) _
        (fun S call => (ResumeCall.act_moves P call S).expiry?_eq approvalId) hr
    have husable : Resume.approvalUsable S approvalId now = true ↔
        ∃ expiresAt, (S.approval? approvalId).bind ApprovalRow.liveUntil? = some expiresAt ∧
          now < expiresAt := by
      rw [Resume.approvalUsable]
      cases S.approval? approvalId with
      | none => simp
      | some row => cases hrevoked : row.revokedRevision <;> simp [ApprovalRow.liveUntil?, hrevoked]
    rw [husable, hlast]
    cases (h.filterMap (expiry? approvalId)).getLast? <;> simp
  · have hcount : ((h.filterMap (expiry? approvalId)).filter Option.isSome).length =
        if (S.approval? approvalId).isSome then 1 else 0 := by
      refine hr.inv (I := fun h S => ((h.filterMap (expiry? approvalId)).filter
        Option.isSome).length = if (S.approval? approvalId).isSome then 1 else 0) rfl
        fun h S call _ hS => ?_
      have hlast : [Entry.perform (ResumeCall.act P) S call].filterMap (expiry? approvalId) =
          (expiry? approvalId (Entry.perform (ResumeCall.act P) S call)).toList := by
        cases hev : expiry? approvalId (Entry.perform (ResumeCall.act P) S call) <;> simp [hev]
      rw [List.filterMap_append, List.filter_append, List.length_append, hS, hlast]
      exact ((ResumeCall.act_moves P call S).approval?_isSome approvalId).symm
    rw [hcount]
    split_ifs <;> omega

/-- An approval that is revoked cannot be recorded again. -/
theorem approvalUsable_iff_revoked :
    let run := exec (ResumeCall.act .ascii) {} [.onLedger (.registerScope "acme" "ada" "lab"),
      .recordApproval acmeScope "a" "d" 100, .revokeApproval "a" 1,
      .recordApproval acmeScope "a" "d" 100]
    (Resume.approvalUsable run.2 "a" 50 = true ↔
        ∃ expiresAt, (run.1.filterMap (expiry? "a")).getLast? = some (some expiresAt) ∧
          50 < expiresAt) ∧
      ((run.1.filterMap (expiry? "a")).filter Option.isSome).length ≤ 1 :=
  approvalUsable_iff (run_exec _ _ _) "a" 50

/-! ### Checkpoints -/

/-- The version and the body that an entry writes as the checkpoint of a stream. -/
def written? (streamId : String) (e : ResumeEntry) : Option (ℤ × PyMapping) :=
  match e.op, e.reply with
  | .writeCheckpoint streamId' formatVersion body, .ok _ =>
    if streamId' = streamId then some (formatVersion, body) else none
  | _, _ => none

/-- The row of a stream is the checkpoint that was written last. -/
def CheckpointOf (P : Primitives) (streamId : String) (last? : Option (ℤ × PyMapping))
    (row? : Option CheckpointRow) : Prop :=
  (last? = none ∧ row? = none) ∨
    ∃ formatVersion body data, last? = some (formatVersion, body) ∧
      canonicalBytes P (.dict body) = .ok data ∧
      row? = some ⟨streamId, formatVersion, rawDigest data, data⟩

/-- A call writes the checkpoint of a stream, or leaves it. -/
theorem ResumeMoves.checkpointOf {call : ResumeCall} {reply : Except Failure ResumeReply}
    {S' : ResumeStore} (h : ResumeMoves P S call reply S') {streamId : String}
    {last? : Option (ℤ × PyMapping)} (hS : CheckpointOf P streamId last? (S.checkpoint? streamId)) :
    CheckpointOf P streamId ((written? streamId ⟨S, call, reply, S'⟩).or last?)
      (S'.checkpoint? streamId) := by
  cases h with
  | checkpointed hdata =>
    rename_i streamId' formatVersion body data
    rw [ResumeStore.checkpoint?, Rows.find?_replace]
    simp only [written?]
    split_ifs with hkey
    · obtain rfl := hkey
      exact .inr ⟨formatVersion, body, data, rfl, hdata, rfl⟩
    · exact hS
  | refused call err => cases call <;> exact hS
  | _ => exact hS

theorem checkpointOf_last (hr : ResumeHistory P h S) (streamId : String) :
    CheckpointOf P streamId (h.filterMap (written? streamId)).getLast?
      (S.checkpoint? streamId) := by
  refine hr.inv (I := fun h S => CheckpointOf P streamId (h.filterMap (written? streamId)).getLast?
    (S.checkpoint? streamId)) (.inl ⟨rfl, rfl⟩) fun h S call _ hS => ?_
  have hstep := (ResumeCall.act_moves P call S).checkpointOf hS
  rw [List.filterMap_append, List.getLast?_append]
  cases hev : written? streamId (Entry.perform (ResumeCall.act P) S call) with
  | none => simpa [Entry.perform, hev] using hstep
  | some ev => simpa [Entry.perform, hev] using hstep

/-- Stored bytes are read as the value that they were the canonical form of. -/
theorem jsonLoads_canonicalBytes {x : PyValue} {data : ByteArray}
    (hx : canonicalBytes P x = .ok data) :
    ∃ v, normalize P x = .ok v ∧ jsonLoadsBytes data = some v.sorted.toPy := by
  obtain ⟨v, hv⟩ := (canonicalBytes_isOk P).mp ⟨data, hx⟩
  have hdata : data = (String.ofList (plain v.sorted)).toByteArray := by
    rw [canonicalBytes, hv] at hx
    rw [← dumps_eq_plain]
    exact (Except.ok.inj hx).symm
  refine ⟨v, hv, ?_⟩
  rw [hdata, jsonLoadsBytes_toByteArray, jsonLoads_plain (normal_of_normalize x v hv).sorted]

/-- **A checkpoint is read back as it was written last**, in its normal form, by every reader that
is not older than it; and no history makes one that is found corrupt. -/
theorem readCheckpoint_eq (hr : ResumeHistory P h S) (hloads : P.loads = jsonLoadsBytes)
    (streamId : String) (readerVersion : ℤ) :
    Resume.readCheckpoint P S streamId readerVersion =
      match (h.filterMap (written? streamId)).getLast? with
      | none => .error (.cyrano "CORRUPT_CHECKPOINT" "no checkpoint recorded")
      | some (formatVersion, body) =>
        if readerVersion < formatVersion then
          .error (.cyrano "VERSION_CONFLICT" ("checkpoint v" ++ toString formatVersion ++
            " exceeds reader v" ++ toString readerVersion))
        else (normalize P (.dict body)).map fun v => v.sorted.toPy := by
  rw [Resume.readCheckpoint]
  rcases checkpointOf_last hr streamId with ⟨hlast, hrow⟩ |
    ⟨formatVersion, body, data, hlast, hdata, hrow⟩
  · rw [hlast, hrow]
  · obtain ⟨v, hv, hread⟩ := jsonLoads_canonicalBytes hdata
    rw [hlast, hrow]
    simp only [hloads, hread, hv, Except.map, not_true_eq_false, ne_eq, if_false]

/-- A checkpoint of version 2 replaces one of version 1, and a reader of version 1 refuses it. -/
theorem readCheckpoint_eq_replaced :
    let run := exec (ResumeCall.act { Primitives.ascii with loads := jsonLoadsBytes }) {}
      [.writeCheckpoint "s" 1 [(.str "step", .int 1)],
        .writeCheckpoint "s" 2 [(.str "step", .int 2)]]
    Resume.readCheckpoint { Primitives.ascii with loads := jsonLoadsBytes } run.2 "s" 1 =
      match (run.1.filterMap (written? "s")).getLast? with
      | none => .error (.cyrano "CORRUPT_CHECKPOINT" "no checkpoint recorded")
      | some (formatVersion, body) =>
        if 1 < formatVersion then
          .error (.cyrano "VERSION_CONFLICT" ("checkpoint v" ++ toString formatVersion ++
            " exceeds reader v" ++ toString (1 : ℤ)))
        else (normalize { Primitives.ascii with loads := jsonLoadsBytes } (.dict body)).map
          fun v => v.sorted.toPy :=
  readCheckpoint_eq (run_exec _ _ _) rfl "s" 1

end CyranoAgent
