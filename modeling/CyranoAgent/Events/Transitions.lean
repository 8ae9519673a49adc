import CyranoAgent.Events.DomainSink
import CyranoAgent.Sqlite.History

/-!
# Transitions and their events

A transition changes the domain and records an event, in one transaction. Over a run of such
calls, from any database and with any mutations, `ExactlyOnce` counts both: how often what a
mutation did was committed, and how many events were recorded. The ledger answers an event it has
already recorded from that event, but only once the mutation is done; so the two numbers are the
same exactly when no call of the run is answered (`exactlyOnce_iff`).
-/

namespace CyranoAgent

open Lib Lib.Action

namespace DomainSink

/-- A call of `commit_transition`. -/
structure TransitionCall (δ : Type) where
  event : EventCall
  mutate : Action (SharedDatabase δ) Failure Unit

/-- One call of a run. -/
abbrev TransitionEntry (δ : Type) := Entry (SharedDatabase δ) (TransitionCall δ) (Except Failure ℕ)

/-- The ledger without its log of events. -/
def withoutLog (L : Ledger) : Ledger :=
  { L with events := [], artifacts := [], eventBlobs := [], nextEventSeq := 0 }

section

variable (P : Primitives) (W : WordChars) (reprText : String → String) {δ : Type}

/-- The machine of these calls. -/
def TransitionCall.act (call : TransitionCall δ) :
    SharedDatabase δ → Except Failure ℕ × SharedDatabase δ :=
  (commitTransition P W reprText call.event call.mutate).run

/-- What the mutation did is in the database after the call: the domain, the ledger but for the
log, and the events of the log. -/
def Applied (e : TransitionEntry δ) : Prop :=
  ∃ mid n, e.op.mutate.run e.before = (.ok (), mid) ∧ e.reply = .ok n ∧
    e.after.domain = mid.domain ∧ withoutLog e.after.ledger = withoutLog mid.ledger ∧
    mid.ledger.events <+: e.after.ledger.events

/-- The call recorded its event: it is the last of the log, behind those the mutation left. -/
def RecordsEvent (e : TransitionEntry δ) : Prop :=
  ∃ mid n ev, e.op.mutate.run e.before = (.ok (), mid) ∧ e.reply = .ok n ∧
    e.after.ledger.events = mid.ledger.events ++ [ev] ∧ ev.producer = e.op.event.producer ∧
    ev.producerSeq = e.op.event.producerSeq ∧ ev.kind = e.op.event.eventType

/-- The call is admitted and its mutation done, and the ledger it then finds has an event of its
producer sequence, with its payload. -/
def Repeated (e : TransitionEntry δ) : Prop :=
  ∃ clean mid n, admitted W reprText e.op.event = .ok clean ∧
    e.op.mutate.run e.before = (.ok (), mid) ∧
    Repository.Repeats P mid.ledger (observation e.op.event clean "trusted") n

open Classical in
/-- How many entries of the history have the property. -/
noncomputable def occurrences (p : TransitionEntry δ → Prop) (h : List (TransitionEntry δ)) : ℕ :=
  h.countP fun e => decide (p e)

/-- The effects committed are as many as the events recorded, a repeated call changes nothing, and
neither does one that raises. -/
structure ExactlyOnce (h : List (TransitionEntry δ)) : Prop where
  effects_eq_events : occurrences Applied h = occurrences RecordsEvent h
  repeated : ∀ e ∈ h, Repeated P W reprText e → e.after = e.before
  raised : ∀ e ∈ h, ∀ error, e.reply = .error error → e.after = e.before

end

variable {P : Primitives} {W : WordChars} {reprText : String → String} {δ : Type}
  {h : List (TransitionEntry δ)} {e : TransitionEntry δ} {db₀ db : SharedDatabase δ}

/-! ### One call -/

/-- **What a transition that returned did**: it committed what its mutation did, and recorded its
event or was answered from one. -/
theorem returned_cases {n : ℕ}
    (he : e = Entry.perform (TransitionCall.act P W reprText) e.before e.op)
    (hreply : e.reply = .ok n) :
    Applied e ∧ (Repeated P W reprText e ∧ ¬RecordsEvent e ∨
      ¬Repeated P W reprText e ∧ RecordsEvent e) := by
  have hrun : (commitTransition P W reprText e.op.event e.op.mutate).run e.before =
      (.ok n, e.after) := by
    rw [← hreply, he]
    rfl
  obtain ⟨clean, mid, hclean, hmutate, hwrite, hdomain⟩ := commitTransition_eq_ok.mp hrun
  rcases write_eq_ok.mp hwrite with ⟨hrep, hledger⟩ | ⟨eventId, data, hrec, rfl, hledger⟩
  · refine ⟨⟨mid, n, hmutate, hreply, hdomain, by rw [hledger], by rw [hledger]⟩, .inl
      ⟨⟨clean, mid, n, hclean, hmutate, hrep⟩, ?_⟩⟩
    rintro ⟨mid', _, ev, hmutate', -, hevents, -⟩
    obtain rfl : mid = mid' := by
      rw [hmutate] at hmutate'
      exact (Prod.mk.inj hmutate').2
    rw [hledger] at hevents
    simpa using congrArg List.length hevents
  · refine ⟨⟨mid, _, hmutate, hreply, hdomain, by rw [hledger]; rfl, ?_⟩, .inr ⟨?_, ?_⟩⟩
    · rw [hledger]
      exact List.prefix_append _ _
    · rintro ⟨clean', mid', n', hclean', hmutate', -, -, data', old, -, hold, -⟩
      rw [hclean, Except.ok.injEq] at hclean'
      rw [hmutate, Prod.mk.injEq] at hmutate'
      obtain ⟨-, rfl⟩ := hmutate'
      subst hclean'
      rw [hrec.fresh_seq] at hold
      cases hold
    · exact ⟨mid, _, _, hmutate, hreply, by rw [hledger]; rfl, rfl, rfl, rfl⟩

/-- A call that raised applied nothing and recorded nothing. -/
theorem raised_spec {error : Failure} (hreply : e.reply = .error error) :
    ¬Applied e ∧ ¬RecordsEvent e := by
  constructor
  · rintro ⟨mid, n, -, hok, -⟩
    rw [hreply] at hok
    cases hok
  · rintro ⟨mid, n, ev, -, hok, -⟩
    rw [hreply] at hok
    cases hok

/-- A repeated call returns. -/
theorem Repeated.returned (he : e = Entry.perform (TransitionCall.act P W reprText) e.before e.op)
    (hrep : Repeated P W reprText e) : ∃ n, e.reply = .ok n := by
  obtain ⟨clean, mid, n, hclean, hmutate, hrep⟩ := hrep
  have hrun : (commitTransition P W reprText e.op.event e.op.mutate).run e.before =
      (.ok n, ⟨mid.ledger, mid.domain⟩) :=
    commitTransition_eq_ok.mpr
      ⟨clean, mid, hclean, hmutate, write_eq_ok.mpr (.inl ⟨hrep, rfl⟩), rfl⟩
  refine ⟨n, ?_⟩
  rw [he]
  exact congrArg Prod.fst hrun

/-! ### Runs -/

/-- Over any calls, the effects are the events and the repeated calls together. -/
theorem occurrences_applied
    (he : ∀ e ∈ h, e = Entry.perform (TransitionCall.act P W reprText) e.before e.op) :
    occurrences Applied h = occurrences RecordsEvent h + occurrences (Repeated P W reprText) h := by
  induction h with
  | nil => rfl
  | cons e h ih =>
    obtain ⟨hhead, htail⟩ := List.forall_mem_cons.mp he
    have hrest := ih htail
    simp only [occurrences, List.countP_cons, decide_eq_true_eq] at hrest ⊢
    rcases hreply : e.reply with error | n
    · obtain ⟨hno, hnone⟩ := raised_spec hreply
      have hrep : ¬Repeated P W reprText e := fun hrep => by
        obtain ⟨n, hn⟩ := hrep.returned hhead
        rw [hreply] at hn
        cases hn
      simpa [hno, hnone, hrep] using hrest
    · obtain ⟨happ, ⟨hrep, hno⟩ | ⟨hno, hrec⟩⟩ := returned_cases hhead hreply
      · simp only [happ, hrep, hno, decide_true, decide_false, if_true, Bool.false_eq_true,
          if_false]
        omega
      · simp only [happ, hrec, hno, decide_true, decide_false, if_true, Bool.false_eq_true,
          if_false]
        omega

/-- A repeated call breaks the balance. -/
theorem ExactlyOnce.not_repeated
    (hr : Run (TransitionCall.act P W reprText) db₀ h db) (hlaw : ExactlyOnce P W reprText h) :
    ∀ e ∈ h, ¬Repeated P W reprText e := by
  have hsum := occurrences_applied fun e he => hr.eq_perform he
  rw [hlaw.effects_eq_events, Nat.left_eq_add] at hsum
  intro e he hrep
  exact (List.countP_eq_zero.mp hsum) e he (by simpa using hrep)

/-- **When transitions are exactly once**: over any run of calls, from any database and with any
mutations, as many effects are committed as events are recorded, and a repeated or a failed call
changes nothing, exactly when no call is repeated. -/
theorem exactlyOnce_iff (hr : Run (TransitionCall.act P W reprText) db₀ h db) :
    ExactlyOnce P W reprText h ↔ ∀ e ∈ h, ¬Repeated P W reprText e := by
  refine ⟨fun hlaw => hlaw.not_repeated hr, fun hnone => ⟨?_, ?_, ?_⟩⟩
  · rw [occurrences_applied fun e he => hr.eq_perform he, Nat.add_eq_left]
    exact List.countP_eq_zero.mpr fun e he => by simpa using hnone e he
  · intro e he hrep
    exact absurd hrep (hnone e he)
  · intro e he error hreply
    have hperform := hr.eq_perform he
    have hrun : (commitTransition P W reprText e.op.event e.op.mutate).run e.before =
        (.error error, e.after) := by
      rw [← hreply, hperform]
      rfl
    exact atomic_commitTransition _ hrun

/-- A transition that starts run `r` and counts it in the domain. -/
def startRun : TransitionCall ℕ :=
  ⟨⟨acmeScope, "s", "domain_service", 1, "work.started", [(.str "run_id", .str "r")]⟩,
    modify fun db => { db with domain := db.domain + 1 }⟩

/-- The machine on documents and words of ASCII text. -/
abbrev sinkAct {δ : Type} :
    TransitionCall δ → SharedDatabase δ → Except Failure ℕ × SharedDatabase δ :=
  TransitionCall.act .ascii .ascii id

/-- A single start of the run is exactly once when it is not repeated. -/
theorem exactlyOnce_iff_startRun :
    ExactlyOnce .ascii .ascii id (exec sinkAct ⟨acmeLedger, 0⟩ [startRun]).1 ↔
      ∀ e ∈ (exec sinkAct ⟨acmeLedger, 0⟩ [startRun]).1, ¬Repeated .ascii .ascii id e :=
  exactlyOnce_iff (run_exec sinkAct ⟨acmeLedger, 0⟩ [startRun])

/-- **A retried transition is applied twice**: the same call again counts the run again, and its
event is the one already there. -/
theorem retry_applied_twice :
    ¬∀ (P : Primitives) (W : WordChars) (reprText : String → String) (δ : Type)
      (h : List (TransitionEntry δ)) (db₀ db : SharedDatabase δ),
      Run (TransitionCall.act P W reprText) db₀ h db → ExactlyOnce P W reprText h := by
  intro hclaim
  have hlaw := hclaim .ascii .ascii id ℕ _ _ _
    (run_exec sinkAct ⟨acmeLedger, 0⟩ [startRun, startRun])
  let db : SharedDatabase ℕ := (sinkAct startRun ⟨acmeLedger, 0⟩).2
  have hreply : (Entry.perform sinkAct db startRun).reply = .ok 1 := by decide +kernel
  have hevents : db.ledger.events.length = (sinkAct startRun db).2.ledger.events.length := by
    decide +kernel
  have hnot := hlaw.not_repeated (run_exec _ _ _) (Entry.perform sinkAct db startRun)
    (by simp [exec, db])
  obtain ⟨-, ⟨hrep, -⟩ | ⟨-, mid, n, ev, hmutate, -, hlog, -⟩⟩ := returned_cases rfl hreply
  · exact hnot hrep
  · -- the log would be longer than the one the mutation found
    obtain ⟨-, rfl⟩ := Prod.mk.inj hmutate
    have hlength := congrArg List.length hlog
    rw [List.length_append] at hlength
    exact absurd (hevents.trans hlength) (by simp)

/-- The ledger starts without an event. -/
example : acmeLedger.events.length = 0 := by decide +kernel

end DomainSink

end CyranoAgent
