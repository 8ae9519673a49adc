import CyranoAgent.Sqlite.Documents
import CyranoAgent.Sqlite.History
import CyranoAgent.Sqlite.Store

/-!
# Idempotent commands over whole histories

What a command's idempotency key guarantees, and what it does not. A request row is found by
scope, actor, command and key; its digest covers actor, command, payload and expected
revision; the event's id covers stream, payload and key. Each of the three projections leaves
something out, and each theorem below says exactly when that does no harm:

* `commits_iff`: when a command under an unused key commits;
* `leavesEvent_iff`: when a command that returned has its event on the stream it named;
* `replay_revision_iff`: when a replay returns the revision of its original.
-/

namespace CyranoAgent

open Lib Lib.Action Repository

variable {P : Primitives} {L L' : Ledger} {h h₁ h₂ : List CallEntry} {e e' : CallEntry}
  {c c' : Command}

/-- The two commands share scope, actor, command name and idempotency key. -/
def SameKey (c' c : Command) : Prop :=
  c'.scopeId = c.scopeId ∧ c'.actor = c.actor ∧ c'.command = c.command ∧
    c'.idempotencyKey = c.idempotencyKey

/-- No command of the history committed under the key of `c`. -/
def KeyUnused (h : List CallEntry) (c : Command) : Prop :=
  ∀ e ∈ h, ∀ c', Commits e c' → ¬SameKey c' c

/-- The request row found under the key of a command. -/
def Ledger.requestOf? (L : Ledger) (c : Command) : Option RequestRow :=
  L.request? c.scopeId c.actor c.command c.idempotencyKey

/-! ### Requests and the commands behind them -/

theorem requestOf?_congr (hkey : SameKey c' c) : L.requestOf? c' = L.requestOf? c := by
  obtain ⟨hscope, hactor, hcommand, hik⟩ := hkey
  rw [Ledger.requestOf?, Ledger.requestOf?, hscope, hactor, hcommand, hik]

/-- A commit leaves its request row under its key. -/
theorem Ledger.requestOf?_commit {requestDigest eventId : String} {body : ByteArray}
    (hunused : L.requestOf? c = none) :
    (L.commit c requestDigest eventId body).requestOf? c =
      some ⟨c.scopeId, c.actor, c.command, c.idempotencyKey, requestDigest, rawDigest body⟩ := by
  have happend : (L.commit c requestDigest eventId body).requestOf? c = (L.requestOf? c).or
      ([(⟨c.scopeId, c.actor, c.command, c.idempotencyKey, requestDigest, rawDigest body⟩ :
        RequestRow)].find? fun row => row.scopeId = c.scopeId ∧ row.actor = c.actor ∧
          row.command = c.command ∧ row.idempotencyKey = c.idempotencyKey) := List.find?_append
  rw [happend, hunused]
  simp

/-- The request row of a committed command is there ever after, with its digest. -/
theorem requestOf?_of_commits (hL : L.WellFormed) (hr : Run (Call.act P) L (h₁ ++ e :: h₂) L')
    (hc : Commits e c) : ∃ row, L'.requestOf? c = some row ∧
      digest P (requestValue c) = .ok row.requestDigest := by
  obtain ⟨hbefore, -, hrest⟩ := hr.split
  obtain ⟨hwf, heff⟩ := effect_of_run hL hr (e := e) (by simp)
  obtain ⟨requestDigest, eventId, body, hacc, -, hafter⟩ := heff.commits hc
  have hrow : e.after.requestOf? c = some ⟨c.scopeId, c.actor, c.command, c.idempotencyKey,
      requestDigest, rawDigest body⟩ := by
    rw [hafter]
    exact Ledger.requestOf?_commit hacc.unused
  exact ⟨_, request?_eq_of_run (hwf.effect heff) hrest hrow, hacc.digest_request⟩

/-- A request row appears only by a command that commits under its key. -/
theorem Effect.requestOf?_eq_some (h : Effect P e.before e.op e.reply e.after) {row : RequestRow}
    (hrow : e.after.requestOf? c = some row) :
    e.before.requestOf? c = some row ∨ ∃ c', Commits e c' ∧ SameKey c' c := by
  obtain ⟨L, call, reply, L'⟩ := e
  dsimp only at h hrow ⊢
  cases h with
  | committed c' requestDigest eventId body hacc =>
    simp only [Ledger.requestOf?, Ledger.request?, Ledger.commit, List.find?_append,
      Option.or_eq_some_iff] at hrow
    rcases hrow with hrow | ⟨-, hrow⟩
    · exact .inl hrow
    · refine .inr ⟨c', ⟨rfl, _, rfl, rfl⟩, ?_⟩
      have hkey := List.find?_some hrow
      obtain rfl := List.mem_singleton.mp (List.mem_of_find?_eq_some hrow)
      simpa [SameKey] using hkey
  | _ => exact .inl hrow

/-- A request row was written by a command of the history that committed under its key. -/
theorem History.commits_of_requestOf? (hr : History P h L) {row : RequestRow}
    (hrow : L.requestOf? c = some row) : ∃ e ∈ h, ∃ c', Commits e c' ∧ SameKey c' c := by
  revert hrow
  refine hr.inv (I := fun h L => L.requestOf? c = some row →
    ∃ e ∈ h, ∃ c', Commits e c' ∧ SameKey c' c)
    (by simp [Ledger.requestOf?, Ledger.request?, Ledger.empty]) ?_
  intro h L call hr ih hrow
  have heff : Effect P L call _ _ := Call.effect_act (wellFormed hr).job_ids call
  rcases Effect.requestOf?_eq_some (e := Entry.perform (Call.act P) L call) heff hrow with
    hrow | ⟨c', hc', hkey⟩
  · obtain ⟨e, he, horigin⟩ := ih hrow
    exact ⟨e, List.mem_append_left _ he, horigin⟩
  · exact ⟨_, List.mem_concat_self, c', hc', hkey⟩

/-- A key is unused exactly when no request row has it. -/
theorem History.keyUnused_iff (hr : History P h L) :
    KeyUnused h c ↔ L.requestOf? c = none := by
  constructor
  · intro hunused
    rcases hrow : L.requestOf? c with _ | row
    · rfl
    · obtain ⟨e, he, c', hc', hkey⟩ := hr.commits_of_requestOf? hrow
      exact absurd hkey (hunused e he c' hc')
  · intro hnone e he c' hc' hkey
    obtain ⟨h₁, h₂, rfl⟩ := List.append_of_mem he
    obtain ⟨row, hrow, -⟩ := requestOf?_of_commits .empty hr hc'
    rw [requestOf?_congr hkey, hnone] at hrow
    simp at hrow

/-! ### When a command under an unused key commits -/

/-- What a command asks of the ledger besides its key and its expected revision: no approval
claimed, a scope that owns the stream, a payload with a normal form, counters in range. -/
structure Command.Admissible (P : Primitives) (L : Ledger) (c : Command) : Prop where
  not_approved : ¬c.ClaimsApproval
  owns : L.Owns c.scopeId c.streamId
  canonical : ∃ payload, normalize P (.dict c.payload) = .ok payload
  revision_range : L.revision c.streamId + 1 ≤ 2 ^ 53 - 1
  seq_range : Bindable (L.nextProducerSeq c.producer)

/-- No event of the ledger has the id of the command's event. -/
def EventIdUnused (P : Primitives) (L : Ledger) (c : Command) : Prop :=
  ∀ ev ∈ L.events, digest P (eventValue c) ≠ .ok ev.eventId

/-- The default sequence of a producer is unused. -/
theorem Ledger.observed?_nextProducerSeq (L : Ledger) (producer : String) :
    L.observed? producer (L.nextProducerSeq producer) = none := by
  rw [observed?_eq_none]
  rintro ev hev rfl
  exact (producerSeq_lt_nextProducerSeq hev).ne

/-- An unused event id is an unused job id: every job has its event's id. -/
theorem Ledger.WellFormed.job?_eq_none (hL : L.WellFormed) {eventId : String}
    (hid : ∀ ev ∈ L.events, ev.eventId ≠ eventId) : L.job? eventId = none := by
  simp only [job?, List.find?_eq_none, decide_eq_true_eq]
  intro job hjob heq
  obtain ⟨hjid, ev, hev, heid, -⟩ := hL.job_event job hjob
  exact hid ev hev (by rw [heid, ← hjid, heq])

/-- **When a command under an unused key commits**, in every reachable ledger, at the current
revision and with the default producer sequence: it is admissible, and no event has the id
made of its stream, payload and key. Neither actor nor command name enters that id. -/
theorem commits_iff (hr : History P h L) (hunused : KeyUnused h c)
    (hcur : (L.revision c.streamId : ℤ) = c.expectedRevision) (hseq : c.producerSeq = none) :
    (∃ r L', (executeCommand P c).run L = (.ok r, L') ∧ r.idempotentReplay = false) ↔
      c.Admissible P L ∧ EventIdUnused P L c := by
  have hnone := hr.keyUnused_iff.mp hunused
  have hcseq : L.commandSeq c = L.nextProducerSeq c.producer := by
    rw [Ledger.commandSeq, hseq, Option.getD_none]
  constructor
  · rintro ⟨r, L', hrun, hfresh⟩
    obtain ⟨happ, ⟨-, rfl, -⟩ | ⟨requestDigest, eventId, body, hacc, rfl, -⟩⟩ :=
      executeCommand_eq_ok.mp hrun
    · simp at hfresh
    · refine ⟨⟨happ, hacc.owns, digest_eventValue_isOk.mp ⟨_, hacc.digest_event⟩,
        canonicalBytes_responseValue_isOk.mp ⟨_, hacc.bytes_response⟩, hcseq ▸ hacc.bindable⟩, ?_⟩
      intro ev hev heq
      exact hacc.fresh_event ev hev (by simpa [hacc.digest_event] using heq.symm)
  · rintro ⟨hadm, hid⟩
    have hrange : c.expectedRevision.natAbs ≤ 2 ^ 53 - 1 := by
      have := hadm.revision_range
      omega
    obtain ⟨requestDigest, hreq⟩ := digest_requestValue_isOk.mpr ⟨hadm.canonical, hrange⟩
    obtain ⟨eventId, hev⟩ := digest_eventValue_isOk.mpr hadm.canonical
    obtain ⟨body, hbody⟩ := canonicalBytes_responseValue_isOk.mpr hadm.revision_range
    have hfresh : ∀ ev ∈ L.events, ev.eventId ≠ eventId := fun ev hmem heq =>
      hid ev hmem (by rw [hev, heq])
    have hacc : Accepted P L c requestDigest eventId body :=
      ⟨hadm.owns, hnone, hcur, hreq, hev, hbody, hcseq ▸ hadm.seq_range, hfresh,
        hcseq ▸ L.observed?_nextProducerSeq c.producer, fun _ => hr.wellFormed.job?_eq_none hfresh⟩
    exact ⟨_, _, executeCommand_eq_ok.mpr
      ⟨hadm.not_approved, .inr ⟨requestDigest, eventId, body, hacc, rfl, rfl⟩⟩, rfl⟩

/-- The digest of the request of `ada`'s first command. -/
def adaRequestDigest : String :=
  "sha256:db641546f0eb6a4bb9d213da55b743f5b2b7bf8d06b941ac5d5a9d02622cf2ff"

/-- The id of its event. -/
def adaEventId : String :=
  "sha256:c5513e5c37570fc07f819ef507ca4c768b5dec014ab56687fe36624eb391e3ea"

/-- The response it stores. -/
def adaResponse : ByteArray := "\x7b\"revision\":1\x7d".toByteArray

/-- The ledger it leaves. -/
def adaLedger : Ledger := acmeLedger.commit (adaPlans 0) adaRequestDigest adaEventId adaResponse

/-- The call of a command in a ledger. -/
def callOf (L : Ledger) (c : Command) : CallEntry :=
  Entry.perform (Call.act .ascii) L (.executeCommand c)

/-- `ada`'s first command is accepted, with a job or without. -/
theorem accepted_adaPlans (enqueue : Bool) :
    Accepted .ascii acmeLedger { adaPlans 0 with enqueue } adaRequestDigest adaEventId
      adaResponse := by
  have hrequest : digest .ascii (requestValue (adaPlans 0)) = .ok adaRequestDigest := by
    decide +kernel
  have hevent : digest .ascii (eventValue (adaPlans 0)) = .ok adaEventId := by decide +kernel
  have hbody : canonicalBytes .ascii (responseValue 1) = .ok adaResponse := by decide
  obtain ⟨howns, hbind⟩ :
      acmeLedger.Owns acmeScope "s" ∧ Bindable (acmeLedger.commandSeq (adaPlans 0)) := by
    decide
  exact ⟨howns, rfl, rfl, hrequest, hevent, hbody, hbind, by simp [acmeLedger], rfl, fun _ => rfl⟩

/-- `ada`'s first command commits, with a job or without. -/
theorem act_adaPlans (enqueue : Bool) :
    Call.act .ascii (.executeCommand { adaPlans 0 with enqueue }) acmeLedger =
      (.ok (.receipt ⟨1, adaEventId, false⟩),
        acmeLedger.commit { adaPlans 0 with enqueue } adaRequestDigest adaEventId adaResponse) :=
  map_eq_ok.mpr ⟨_, executeCommand_eq_ok.mpr ⟨show ¬(adaPlans 0).ClaimsApproval by decide,
    .inr ⟨adaRequestDigest, adaEventId, adaResponse, accepted_adaPlans enqueue, rfl, rfl⟩⟩, rfl⟩

theorem history_ada :
    History .ascii (acmeHistory ++ [callOf acmeLedger (adaPlans 0)]) adaLedger := by
  have hrun := history_acme.snoc (.executeCommand (adaPlans 0))
  rwa [show (Call.act .ascii (.executeCommand (adaPlans 0)) acmeLedger).2 = adaLedger from
    congrArg Prod.snd (act_adaPlans false)] at hrun

/-- The first command of a stream commits. -/
theorem commits_iff_adaPlans :
    (∃ r L', (executeCommand .ascii (adaPlans 0)).run acmeLedger = (.ok r, L') ∧
        r.idempotentReplay = false) ↔
      (adaPlans 0).Admissible .ascii acmeLedger ∧
        EventIdUnused .ascii acmeLedger (adaPlans 0) :=
  commits_iff history_acme (history_acme.keyUnused_iff.mpr rfl) rfl rfl

/-- `bob` repeats, under the same key, the payload `ada` committed. -/
def bobPlans : Command := { adaPlans 1 with actor := "bob" }

/-- **Two actors collide**: the key of `bob` is unused, his command is admissible and expects
the current revision, and the insertion of its event violates a uniqueness constraint. -/
theorem commits_collide :
    ¬∀ (P : Primitives) (h : List CallEntry) (L : Ledger) (c : Command), History P h L →
      KeyUnused h c → (L.revision c.streamId : ℤ) = c.expectedRevision → c.producerSeq = none →
      c.Admissible P L →
      ∃ r L', (executeCommand P c).run L = (.ok r, L') ∧ r.idempotentReplay = false := by
  intro hclaim
  obtain ⟨hkey, hcur, happ, howns, hrev, hseq, herr⟩ :
      adaLedger.requestOf? bobPlans = none ∧
        (adaLedger.revision "s" : ℤ) = bobPlans.expectedRevision ∧
        ¬bobPlans.ClaimsApproval ∧ adaLedger.Owns acmeScope "s" ∧
        adaLedger.revision "s" + 1 ≤ 2 ^ 53 - 1 ∧ Bindable (adaLedger.nextProducerSeq "cli") ∧
        ((executeCommand .ascii bobPlans).run adaLedger).1 =
          .error (Failure.unique "events.event_id") := by decide +kernel
  obtain ⟨r, L', hok, -⟩ := hclaim .ascii _ _ bobPlans history_ada
    (history_ada.keyUnused_iff.mpr hkey) hcur rfl ⟨happ, howns, ⟨_, rfl⟩, hrev, hseq⟩
  rw [hok] at herr
  simp at herr

/-! ### When a command that returned has its event -/

/-- The two commands are the same one: same key, same payload, same stream. -/
def SameCommand (P : Primitives) (c' c : Command) : Prop :=
  SameKey c' c ∧ c'.streamId = c.streamId ∧
    canonicalBytes P (.dict c'.payload) = canonicalBytes P (.dict c.payload)

/-- After the call `e` of the command `c`, an event that it or an earlier call of the same
command inserted is on the stream the command names. -/
def LeavesEvent (P : Primitives) (h : List CallEntry) (e : CallEntry) (c : Command) : Prop :=
  ∃ e' ∈ h ++ [e], ∃ c', Commits e' c' ∧ SameCommand P c' c ∧
    ∃ ev ∈ e.after.events, ev.streamId = c.streamId ∧ Creates e' ev

/-- A command that committed under the key of `c` named its stream, and the stream has not
been deleted since. -/
def OriginalOnStream (h : List CallEntry) (c : Command) : Prop :=
  ∃ h₁ e' h₂ c', h = h₁ ++ e' :: h₂ ∧ Commits e' c' ∧ SameKey c' c ∧
    c'.streamId = c.streamId ∧ ∀ d ∈ h₂, ¬DeletesStream d c.streamId

/-- The request documents of a history. -/
def requestValues (h : List CallEntry) : Set PyValue :=
  {value | ∃ e ∈ h, ∃ c, e.op = .executeCommand c ∧ value = requestValue c}

/-- The event a committed command inserts. -/
theorem Effect.creates_of_commits (hL : e.before.WellFormed)
    (h : Effect P e.before e.op e.reply e.after) (hc : Commits e c) :
    ∃ ev ∈ e.after.events, ev.streamId = c.streamId ∧ Creates e ev := by
  obtain ⟨requestDigest, eventId, body, hacc, -, hafter⟩ := h.commits hc
  have hmem : e.before.nextEvent eventId c.streamId c.producer (e.before.commandSeq c) c.command
      (rawDigest body) "control" ∈ e.after.events := by
    rw [hafter]
    exact List.mem_concat_self
  refine ⟨_, hmem, rfl, hmem, fun hold => ?_⟩
  exact lt_irrefl _ (hL.next_event_seq _ hold)

/-- Calls that return: fresh, or a replay of the row under the key. -/
theorem Effect.commits_or_replays {r : Receipt} (h : Effect P e.before e.op e.reply e.after)
    (hop : e.op = .executeCommand c) (hreply : e.reply = .ok (.receipt r)) :
    (Commits e c ∧ e.before.requestOf? c = none) ∨
      (r = ⟨e.before.revision c.streamId, "", true⟩ ∧ e.after = e.before ∧
        ∃ row, e.before.requestOf? c = some row ∧
          digest P (requestValue c) = .ok row.requestDigest) := by
  obtain ⟨L, call, reply, L'⟩ := e
  dsimp only at h hop hreply ⊢
  subst hop hreply
  cases h with
  | replayed _ hrep =>
    obtain ⟨-, row, hrow, hdig⟩ := hrep
    exact .inr ⟨rfl, rfl, row, hrow, hdig⟩
  | committed _ requestDigest eventId body hacc => exact .inl ⟨⟨rfl, _, rfl, rfl⟩, hacc.unused⟩
  | moved _ _ _ _ _ hout => exact hout.elim

/-- A replay carries the payload of the command that committed under its key. -/
theorem sameCommand_of_replay {row : RequestRow} (hr : History P (h₁ ++ e' :: h₂) L)
    (hc' : Commits e' c') (hkey : SameKey c' c) (hs : c'.streamId = c.streamId)
    (hrow : L.requestOf? c = some row) (hdig : digest P (requestValue c) = .ok row.requestDigest)
    {values : Set PyValue} (hsha : CollisionFree P values) (hmem : requestValue c ∈ values)
    (hmem' : requestValue c' ∈ values) : SameCommand P c' c := by
  obtain ⟨row', hrow', hdig'⟩ := requestOf?_of_commits .empty hr hc'
  rw [requestOf?_congr hkey, hrow, Option.some.injEq] at hrow'
  subst hrow'
  obtain ⟨data, hdata, hdata'⟩ := canonicalBytes_of_digest hsha hmem hmem' hdig hdig'
  exact ⟨hkey, hs, canonicalBytes_payload_eq hkey.2.1 hkey.2.2.1 hdata hdata'⟩

/-- **When a returned command has its event on the stream it named**: its key was unused, or
the command that committed under the key named the same stream and the stream was not deleted
since. Neither the row found under the key nor its digest knows the stream. -/
theorem leavesEvent_iff {r : Receipt} (hr : History P (h ++ [e]) L)
    (hop : e.op = .executeCommand c) (hreply : e.reply = .ok (.receipt r))
    (hsha : CollisionFree P (requestValues (h ++ [e]))) :
    LeavesEvent P h e c ↔ KeyUnused h c ∨ OriginalOnStream h c := by
  obtain ⟨hbefore, -, -⟩ := hr.split
  obtain ⟨hwf, heff⟩ := hr.effect (e := e) (by simp)
  rcases heff.commits_or_replays hop hreply with ⟨hc, hnone⟩ | ⟨rfl, hsame, row, hrow, hdig⟩
  · refine iff_of_true ⟨e, by simp, c, hc, ⟨⟨rfl, rfl, rfl, rfl⟩, rfl, rfl⟩, ?_⟩ (.inl ?_)
    · exact heff.creates_of_commits hwf hc
    · exact (History.keyUnused_iff hbefore).mpr hnone
  have hused : ¬KeyUnused h c := by
    rw [History.keyUnused_iff hbefore, hrow]
    simp
  rw [or_iff_right hused]
  constructor
  · rintro ⟨e', he', c', hc', ⟨hkey, hs, -⟩, ev, hev, hevs, hcreates⟩
    rcases List.mem_append.mp he' with he' | he'
    · obtain ⟨h₁, h₂, rfl⟩ := List.append_of_mem he'
      obtain ⟨hwf', heff'⟩ := History.effect hbefore (e := e') (by simp)
      refine ⟨h₁, e', h₂, c', rfl, hc', hkey, hs, ?_⟩
      rw [hsame] at hev
      rw [← hevs]
      exact (mem_events_iff_of_run (hwf'.effect heff') hbefore.split.2.2 hcreates.1).mp hev
    · obtain rfl := List.mem_singleton.mp he'
      obtain ⟨-, r', hreply', hfresh⟩ := hc'
      simp_all
  · rintro ⟨h₁, e', h₂, c', rfl, hc', hkey, hs, hkept⟩
    obtain ⟨hwf', heff'⟩ := History.effect hbefore (e := e') (by simp)
    obtain ⟨ev, hev, hevs, hcreates⟩ := heff'.creates_of_commits hwf' hc'
    refine ⟨e', by simp, c', hc', ?_, ev, ?_, hevs.trans hs, hcreates⟩
    · exact sameCommand_of_replay hbefore hc' hkey hs hrow hdig hsha
        ⟨e, by simp, c, hop, rfl⟩ ⟨e', by simp, c', hc'.1, rfl⟩
    · rw [hsame]
      refine (mem_events_iff_of_run (hwf'.effect heff') hbefore.split.2.2 hev).mpr ?_
      rwa [hevs, hs]

/-- An identical repetition is answered from the receipt. -/
theorem reply_adaPlans_again :
    (callOf adaLedger (adaPlans 0)).reply = .ok (.receipt ⟨1, "", true⟩) := by decide +kernel

/-- An identical repetition has its event. -/
theorem leavesEvent_iff_adaPlans :
    LeavesEvent .ascii (acmeHistory ++ [callOf acmeLedger (adaPlans 0)])
        (callOf adaLedger (adaPlans 0)) (adaPlans 0) ↔
      KeyUnused (acmeHistory ++ [callOf acmeLedger (adaPlans 0)]) (adaPlans 0) ∨
        OriginalOnStream (acmeHistory ++ [callOf acmeLedger (adaPlans 0)]) (adaPlans 0) := by
  have honly : requestValues ((acmeHistory ++ [callOf acmeLedger (adaPlans 0)]) ++
      [callOf adaLedger (adaPlans 0)]) ⊆ {requestValue (adaPlans 0)} := by
    rintro _ ⟨e, he, c, hop, rfl⟩
    have hops := List.mem_map_of_mem (f := (·.op)) he
    rw [List.map_append, List.map_append, acmeHistory, map_op_exec, hop] at hops
    obtain rfl : c = adaPlans 0 := by simpa [callOf] using hops
    rfl
  exact leavesEvent_iff (history_ada.snoc _) rfl reply_adaPlans_again
    (collisionFree_of_subsingleton (Set.subsingleton_singleton.anti honly))

/-- The same command, naming stream `t`. -/
def adaPlansOnT : Command := { adaPlans 0 with streamId := "t" }

/-- **A replay can leave nothing**: the call names stream `t` under a key committed on `s`, is
answered as a replay, and `t` stays empty. -/
theorem replay_without_event :
    ¬∀ (P : Primitives) (h : List CallEntry) (e : CallEntry) (L : Ledger) (c : Command)
      (r : Receipt), History P (h ++ [e]) L → e.op = .executeCommand c →
      e.reply = .ok (.receipt r) → LeavesEvent P h e c := by
  intro hclaim
  obtain ⟨hreply, hempty⟩ :
      (callOf adaLedger adaPlansOnT).reply = .ok (.receipt ⟨0, "", true⟩) ∧
        (callOf adaLedger adaPlansOnT).after.eventsOf "t" = [] := by
    decide +kernel
  obtain ⟨e', -, c', -, -, ev, hev, hs, -⟩ := hclaim .ascii _ (callOf adaLedger adaPlansOnT) _
    adaPlansOnT _ (history_ada.snoc _) rfl hreply
  have hmem := Ledger.mem_eventsOf.mpr ⟨hev, hs⟩
  rw [show adaPlansOnT.streamId = "t" from rfl, hempty] at hmem
  exact List.not_mem_nil hmem

/-! ### When a replay returns the revision of its original -/

/-- A stream stays until it is deleted. -/
theorem Effect.stream?_isSome {s : String} (h : Effect P e.before e.op e.reply e.after)
    (hno : ¬DeletesStream e s) (hs : (e.before.stream? s).isSome) :
    (e.after.stream? s).isSome ∧ ¬CreatesStream e s := by
  obtain ⟨L, call, reply, L'⟩ := e
  dsimp only [DeletesStream, CreatesStream] at *
  cases h with
  | created scopeId streamId entityType _ hfresh =>
    have hne : s ≠ streamId := by
      rintro rfl
      simp [hfresh] at hs
    rw [Ledger.stream?_createStream hfresh, if_neg hne]
    exact ⟨hs, by simp [Ne.symm hne]⟩
  | committed c requestDigest eventId body hacc =>
    rw [Ledger.stream?_commit]
    split <;> simp_all
  | deleted streamId deletedAt =>
    have hne : s ≠ streamId := by simpa [eq_comm] using hno
    rw [Ledger.stream?_deleteStream, if_neg hne]
    exact ⟨hs, by simp⟩
  | moved _ _ _ _ _ hout => 
    refine ⟨hs, ?_⟩
    rintro ⟨_, _, rfl, -⟩
    exact hout
  | _ => exact ⟨hs, by simp⟩

/-- Until it is deleted a stream stays, and is not created again. -/
theorem stream?_isSome_of_run {s : String} (hL : L.WellFormed) (hr : Run (Call.act P) L h L')
    (hno : ∀ d ∈ h, ¬DeletesStream d s) (hs : (L.stream? s).isSome) :
    (L'.stream? s).isSome ∧ ∀ d ∈ h, ¬CreatesStream d s := by
  revert hno
  refine hr.inv (I := fun h L' => (∀ d ∈ h, ¬DeletesStream d s) →
    (L'.stream? s).isSome ∧ ∀ d ∈ h, ¬CreatesStream d s) (fun _ => ⟨hs, by simp⟩) ?_
  intro h L' call hr ih hno
  simp only [List.mem_append, List.mem_singleton, or_imp, forall_and, forall_eq] at hno ⊢
  obtain ⟨hs', hcreates⟩ := ih hno.1
  have heff : Effect P L' call _ _ := Call.effect_act (wellFormed_of_run hL hr).job_ids call
  obtain ⟨hs'', hcreate⟩ :=
    Effect.stream?_isSome (e := Entry.perform (Call.act P) L' call) heff hno.2 hs'
  exact ⟨hs'', hcreates, hcreate⟩

/-- A call that neither commits on a stream nor deletes it leaves its revision. -/
theorem Effect.revision_eq {s : String} (h : Effect P e.before e.op e.reply e.after)
    (hno : ¬DeletesStream e s) (hs : (e.before.stream? s).isSome)
    (hc : ∀ n, ¬CommitsAt e s n) : e.after.revision s = e.before.revision s := by
  obtain ⟨L, call, reply, L'⟩ := e
  dsimp only [DeletesStream] at *
  cases h with
  | created scopeId streamId entityType _ hfresh =>
    have hne : s ≠ streamId := by
      rintro rfl
      simp [hfresh] at hs
    rw [Ledger.revision, Ledger.revision, Ledger.stream?_createStream hfresh, if_neg hne]
  | committed c requestDigest eventId body hacc =>
    have hne : s ≠ c.streamId := by
      rintro rfl
      exact hc _ ⟨c, ⟨rfl, _, rfl, rfl⟩, rfl, rfl⟩
    rw [Ledger.revision_commit hacc.owns, if_neg hne]
  | deleted streamId deletedAt =>
    have hne : s ≠ streamId := by simpa [eq_comm] using hno
    rw [Ledger.revision, Ledger.revision, Ledger.stream?_deleteStream, if_neg hne]
  | _ => rfl

/-- **The revision of a stream moves exactly when a command commits on it**, as long as the
stream is not deleted. -/
theorem revision_eq_iff_of_run {s : String} (hL : L.WellFormed) (hr : Run (Call.act P) L h L')
    (hno : ∀ d ∈ h, ¬DeletesStream d s) (hs : (L.stream? s).isSome) :
    L'.revision s = L.revision s ↔ ∀ d ∈ h, ∀ n, ¬CommitsAt d s n := by
  constructor
  · rintro heq d hd n hc
    obtain ⟨h₁, h₂, rfl⟩ := List.append_of_mem hd
    obtain ⟨hpre, -, hpost⟩ := hr.split
    obtain ⟨hwf, heff⟩ := effect_of_run hL hr hd
    obtain ⟨⟨hs₁, hbefore⟩, hs₂, hafter⟩ := heff.commitsAt hc
    have hno₁ : ∀ d ∈ h₁, ¬DeletesStream d s := fun d hd => hno d (by simp [hd])
    have hno₂ : ∀ d ∈ h₂, ¬DeletesStream d s := fun d hd => hno d (by simp [hd])
    have hle₁ := (revision_le_of_run hL hpre (stream?_isSome_of_run hL hpre hno₁ hs).2 hs₁).2
    obtain ⟨hs', hcreates⟩ := stream?_isSome_of_run (hwf.effect heff) hpost hno₂ hs₂
    have hle₂ := (revision_le_of_run (hwf.effect heff) hpost hcreates hs').2
    omega
  · revert hno
    refine hr.inv (I := fun h L' => (∀ d ∈ h, ¬DeletesStream d s) →
      (∀ d ∈ h, ∀ n, ¬CommitsAt d s n) → L'.revision s = L.revision s) (fun _ _ => rfl) ?_
    intro h L' call hr ih hno hc
    simp only [List.mem_append, List.mem_singleton, or_imp, forall_and, forall_eq] at hno hc
    have heff : Effect P L' call _ _ := Call.effect_act (wellFormed_of_run hL hr).job_ids call
    have hs' := (stream?_isSome_of_run hL hr hno.1 hs).1
    have hstep :=
      Effect.revision_eq (e := Entry.perform (Call.act P) L' call) heff hno.2 hs' hc.2
    exact hstep.trans (ih hno.1 hc.1)

/-- A command that returns names a stream of its scope. -/
theorem Effect.owns_of_returns {r : Receipt} (h : Effect P e.before e.op e.reply e.after)
    (hop : e.op = .executeCommand c) (hreply : e.reply = .ok (.receipt r)) :
    e.before.Owns c.scopeId c.streamId := by
  obtain ⟨L, call, reply, L'⟩ := e
  dsimp only at h hop hreply ⊢
  subst hop hreply
  cases h with
  | replayed _ hrep => exact hrep.1
  | committed _ _ _ _ hacc => exact hacc.owns
  | moved _ _ _ _ _ hout => exact hout.elim

/-- The call `e` of `c` returned the replay `r`, and `e'` is the call of `c'` that committed
under the same key, with the receipt `r'`. -/
structure ReplayOf (e' e : CallEntry) (c' c : Command) (r' r : Receipt) : Prop where
  op_original : e'.op = .executeCommand c'
  reply_original : e'.reply = .ok (.receipt r')
  fresh : r'.idempotentReplay = false
  op_replay : e.op = .executeCommand c
  reply_replay : e.reply = .ok (.receipt r)
  replay : r.idempotentReplay = true
  same_key : SameKey c' c

namespace ReplayOf

variable {r r' : Receipt}

theorem commits (hrep : ReplayOf e' e c' c r' r) : Commits e' c' :=
  ⟨hrep.op_original, r', hrep.reply_original, hrep.fresh⟩

/-- A replay returns the current revision of the stream it names. -/
theorem revision_eq (hrep : ReplayOf e' e c' c r' r)
    (h : Effect P e.before e.op e.reply e.after) :
    r.revision = e.before.revision c.streamId := by
  rcases h.commits_or_replays hrep.op_replay hrep.reply_replay with ⟨hc, -⟩ | ⟨rfl, -⟩
  · obtain ⟨-, r'', hreply, hfresh⟩ := hc
    have hreplay := hrep.replay
    rw [hrep.reply_replay] at hreply
    simp_all
  · rfl

/-- Its original returned the revision it left. -/
theorem original_revision_eq (hrep : ReplayOf e' e c' c r' r)
    (h : Effect P e'.before e'.op e'.reply e'.after) :
    r'.revision = e'.after.revision c'.streamId ∧
      (r'.revision : ℤ) = c'.expectedRevision + 1 := by
  obtain ⟨requestDigest, eventId, body, hacc, hreceipt, hafter⟩ := h.commits hrep.commits
  rw [hrep.reply_original] at hreceipt
  obtain rfl : r' = ⟨_, eventId, false⟩ := by simpa using hreceipt
  have hcur := hacc.current
  refine ⟨?_, by push_cast; omega⟩
  rw [hafter, Ledger.revision_commit hacc.owns, if_pos rfl]

end ReplayOf

/-- **When a replay returns the revision of its original**: the commands on the stream it
names number one more than the original expected. On the original's own stream, not deleted
since, this says that no other command has committed on it in between. The foundation's
`append` returns the original's revision in every case. -/
theorem replay_revision_iff {r r' : Receipt} (hr : History P (h₁ ++ e' :: (h₂ ++ [e])) L)
    (hrep : ReplayOf e' e c' c r' r) :
    (r.revision = r'.revision ↔
        (((e.before.eventsOf c.streamId).filter (committedBy (h₁ ++ e' :: h₂))).length : ℤ) =
          c'.expectedRevision + 1) ∧
      (c'.streamId = c.streamId → (∀ d ∈ h₂, ¬DeletesStream d c.streamId) →
        (r.revision = r'.revision ↔ ∀ d ∈ h₂, ∀ n, ¬CommitsAt d c.streamId n)) ∧
      ∀ {g₁ g₂ : List EventStore.CallEntry} {d' d : EventStore.CallEntry}
        {S : EventStore.Store} {a' a : EventStore.Append} {n' n : ℕ},
        EventStore.History P (g₁ ++ d' :: (g₂ ++ [d])) S → d'.op = .append a' →
        d'.reply = .ok (.revision n') → d.op = .append a → d.reply = .ok (.revision n) →
        a'.stream = a.stream → a'.key = a.key → n = n' := by
  have hr' : History P ((h₁ ++ e' :: h₂) ++ [e]) L := by simpa using hr
  obtain ⟨hwf', heff'⟩ := hr.effect (e := e') (by simp)
  obtain ⟨hwf, heff⟩ := hr.effect (e := e) (by simp)
  obtain ⟨hafter, hexpected⟩ := hrep.original_revision_eq heff'
  have hnow := hrep.revision_eq heff
  have howns := heff.owns_of_returns hrep.op_replay hrep.reply_replay
  have hcount := History.revision_eq_count hr'.split.1 howns.isSome
  refine ⟨by rw [hnow, ← hcount]; omega, fun hs hno => ?_, EventStore.append_agrees⟩
  have hexists : (e'.after.stream? c.streamId).isSome := by
    have hcommit := (heff'.commitsAt ⟨c', hrep.commits, rfl, rfl⟩).2.1
    rwa [hs] at hcommit
  rw [hnow, hafter, hs]
  exact revision_eq_iff_of_run (hwf'.effect heff') hr.split.2.2.split.1 hno hexists

/-- A retry right after its original returns the original's revision. -/
theorem replay_revision_iff_adaPlans :
    (⟨1, "", true⟩ : Receipt).revision = (⟨1, adaEventId, false⟩ : Receipt).revision ↔
      ∀ d ∈ ([] : List CallEntry), ∀ n, ¬CommitsAt d "s" n := by
  have hreply' : (callOf acmeLedger (adaPlans 0)).reply =
      .ok (.receipt ⟨1, adaEventId, false⟩) := congrArg Prod.fst (act_adaPlans false)
  have hrun : History .ascii (acmeHistory ++ callOf acmeLedger (adaPlans 0) ::
      ([] ++ [callOf adaLedger (adaPlans 0)])) (callOf adaLedger (adaPlans 0)).after := by
    have hsnoc := history_ada.snoc (.executeCommand (adaPlans 0))
    rwa [List.append_assoc] at hsnoc
  exact (replay_revision_iff hrun
    ⟨rfl, hreply', rfl, rfl, reply_adaPlans_again, rfl, ⟨rfl, rfl, rfl, rfl⟩⟩).2.1 rfl (by simp)

/-- `ada`'s next command. -/
def adaPlansNext : Command := { adaPlans 1 with idempotencyKey := "k2" }

/-- **A replay can return another revision**: `ada` commits at revision 1, her next command
commits at revision 2, and the retry of the first returns 2. -/
theorem replay_returns_current :
    ¬∀ (P : Primitives) (h₁ h₂ : List CallEntry) (e' e : CallEntry) (L : Ledger)
      (c' c : Command) (r' r : Receipt), History P (h₁ ++ e' :: (h₂ ++ [e])) L →
      ReplayOf e' e c' c r' r → r.revision = r'.revision := by
  intro hclaim
  have hreply' : (callOf acmeLedger (adaPlans 0)).reply =
      .ok (.receipt ⟨1, adaEventId, false⟩) := congrArg Prod.fst (act_adaPlans false)
  have hreply : (callOf (callOf adaLedger adaPlansNext).after (adaPlans 0)).reply =
      .ok (.receipt ⟨2, "", true⟩) := by decide +kernel
  have hrun := (history_ada.snoc (.executeCommand adaPlansNext)).snoc
    (.executeCommand (adaPlans 0))
  rw [List.append_assoc, List.append_assoc] at hrun
  have hsame := hclaim .ascii _ [callOf adaLedger adaPlansNext] _ _ _ _ _ _ _ hrun
    ⟨rfl, hreply', rfl, rfl, hreply, rfl, ⟨rfl, rfl, rfl, rfl⟩⟩
  simp at hsame

end CyranoAgent
