import CyranoAgent.Lib.Run
import CyranoAgent.Sqlite.WellFormed

/-!
# Histories of the ledger

`History P h L`: the calls of `h`, made by any connections in any order on a fresh database,
lead to `L`. Every entry keeps the ledger before and after its call, so "an event was created
by that call" and "a call committed at that revision" are predicates on entries.

The two counters of a stream are followed through a whole history: the positions of its
events, which every insertion advances, and its revision, which only commands advance
(`History.disciplined`).
-/

namespace CyranoAgent

open Lib Lib.Action

/-- One call of a history. -/
abbrev CallEntry := Entry Ledger Call (Except Failure Reply)

/-- The calls of `h`, in order, lead from a fresh database to `L`. -/
abbrev History (P : Primitives) (h : List CallEntry) (L : Ledger) : Prop :=
  Run (Call.act P) Ledger.empty h L

/-- The event was inserted by this call. -/
def Creates (e : CallEntry) (ev : Event) : Prop := ev ∈ e.after.events ∧ ev ∉ e.before.events

instance (e : CallEntry) (ev : Event) : Decidable (Creates e ev) :=
  inferInstanceAs (Decidable (_ ∧ _))

/-- A call of `execute_command`. -/
def Call.isCommand : Call → Bool
  | .executeCommand _ => true
  | _ => false

/-- The event was inserted by a command of the history. -/
def committedBy (h : List CallEntry) (ev : Event) : Bool :=
  h.any fun e => e.op.isCommand && decide (Creates e ev)

/-- The call is this command, and it returned a fresh receipt. -/
def Commits (e : CallEntry) (c : Command) : Prop :=
  e.op = .executeCommand c ∧
    ∃ r, e.reply = .ok (.receipt r) ∧ r.idempotentReplay = false

/-- The call is a command that committed on the stream, expecting this revision. -/
def CommitsAt (e : CallEntry) (streamId : String) (revision : ℤ) : Prop :=
  ∃ c, Commits e c ∧ c.streamId = streamId ∧ c.expectedRevision = revision

/-- The call created the stream. -/
def CreatesStream (e : CallEntry) (streamId : String) : Prop :=
  ∃ scopeId entityType, e.op = .createStream scopeId streamId entityType ∧ e.reply = .ok .done

/-- The call deleted the stream. -/
def DeletesStream (e : CallEntry) (streamId : String) : Prop :=
  ∃ deletedAt, e.op = .deleteStream streamId deletedAt ∧ e.reply = .ok .done

variable {P : Primitives} {L L' : Ledger} {h h₁ h₂ h₃ : List CallEntry} {e e' : CallEntry}

/-! ### Steps of a history -/

/-- A call keeps a ledger well formed. -/
theorem Ledger.WellFormed.act (hL : L.WellFormed) (call : Call) :
    (call.act P L).2.WellFormed :=
  hL.effect (Call.effect_act hL.job_ids call)

/-- A run from a well-formed ledger stays in well-formed ledgers. -/
theorem wellFormed_of_run (hL : L.WellFormed) (hr : Run (Call.act P) L h L') :
    L'.WellFormed :=
  hr.inv_state hL fun _ call hwf => hwf.act call

/-- Every entry of a run is a call with its effect. -/
theorem effect_of_run (hL : L.WellFormed) (hr : Run (Call.act P) L h L') (he : e ∈ h) :
    e.before.WellFormed ∧ Effect P e.before e.op e.reply e.after := by
  obtain ⟨h₁, h₂, rfl⟩ := List.append_of_mem he
  obtain ⟨hbefore, heq, -⟩ := hr.split
  have hwf := wellFormed_of_run hL hbefore
  refine ⟨hwf, ?_⟩
  rw [heq]
  exact Call.effect_act hwf.job_ids _

namespace History

/-- **Every reachable ledger is well formed.** -/
theorem wellFormed (hr : History P h L) : L.WellFormed := wellFormed_of_run .empty hr

theorem effect (hr : History P h L) (he : e ∈ h) :
    e.before.WellFormed ∧ Effect P e.before e.op e.reply e.after :=
  effect_of_run .empty hr he

end History

/-! ### Revisions along a run -/

/-- A call that does not create a stream leaves it with at least the revision it had. -/
theorem Effect.revision_le {call : Call} {reply : Except Failure Reply} {s : String}
    (h : Effect P L call reply L')
    (hno : ¬∃ scopeId entityType, call = .createStream scopeId s entityType ∧ reply = .ok .done)
    (hs : (L'.stream? s).isSome) : (L.stream? s).isSome ∧ L.revision s ≤ L'.revision s := by
  cases h with
  | created scopeId streamId entityType _ hfresh =>
    have hne : s ≠ streamId := by
      rintro rfl
      exact hno ⟨scopeId, entityType, rfl, rfl⟩
    rw [Ledger.stream?_createStream hfresh, if_neg hne] at hs
    refine ⟨hs, le_of_eq ?_⟩
    rw [Ledger.revision, Ledger.revision, Ledger.stream?_createStream hfresh, if_neg hne]
  | committed c requestDigest eventId body hacc =>
    rw [Ledger.stream?_commit] at hs
    rw [Ledger.revision_commit hacc.owns]
    split at hs <;> simp_all
  | deleted streamId deletedAt =>
    rw [Ledger.stream?_deleteStream] at hs
    rw [Ledger.revision, Ledger.revision, Ledger.stream?_deleteStream]
    split at hs <;> simp_all
  | _ => exact ⟨hs, le_rfl⟩

/-- Until a stream is created anew its revision does not fall. -/
theorem revision_le_of_run {s : String} (hL : L.WellFormed) (hr : Run (Call.act P) L h L')
    (hno : ∀ e ∈ h, ¬CreatesStream e s) (hs : (L'.stream? s).isSome) :
    (L.stream? s).isSome ∧ L.revision s ≤ L'.revision s := by
  revert hno hs
  refine hr.inv (I := fun h L' => (∀ e ∈ h, ¬CreatesStream e s) → (L'.stream? s).isSome →
    (L.stream? s).isSome ∧ L.revision s ≤ L'.revision s) (fun _ hs => ⟨hs, le_rfl⟩) ?_
  intro h L' call hr ih hno hs
  have hwf := wellFormed_of_run hL hr
  obtain ⟨hs', hle⟩ := (Call.effect_act hwf.job_ids call).revision_le
    (hno (Entry.perform (Call.act P) L' call) (by simp)) hs
  obtain ⟨hs₀, hle₀⟩ := ih (fun e he => hno e (List.mem_append_left _ he)) hs'
  exact ⟨hs₀, hle₀.trans hle⟩

/-- A command that commits was accepted, and left the commit it was accepted for. -/
theorem Effect.commits {c : Command} (h : Effect P e.before e.op e.reply e.after)
    (hc : Commits e c) : ∃ requestDigest eventId body,
      Repository.Accepted P e.before c requestDigest eventId body ∧
        e.reply = .ok (.receipt ⟨e.before.revision c.streamId + 1, eventId, false⟩) ∧
        e.after = e.before.commit c requestDigest eventId body := by
  obtain ⟨hop, r, hreply, hfresh⟩ := hc
  rw [hop, hreply] at h
  rw [hreply]
  generalize e.after = L' at h ⊢
  cases h with
  | replayed => simp at hfresh
  | committed _ requestDigest eventId body hacc =>
    exact ⟨requestDigest, eventId, body, hacc, rfl, rfl⟩
  | moved _ _ _ _ _ hout => exact hout.elim

/-- A command that commits expected the current revision of its stream, and leaves the next. -/
theorem Effect.commitsAt {s : String} {n : ℤ} (h : Effect P e.before e.op e.reply e.after)
    (hc : CommitsAt e s n) :
    ((e.before.stream? s).isSome ∧ (e.before.revision s : ℤ) = n) ∧
      (e.after.stream? s).isSome ∧ (e.after.revision s : ℤ) = n + 1 := by
  obtain ⟨c, hc, rfl, rfl⟩ := hc
  obtain ⟨requestDigest, eventId, body, hacc, -, hafter⟩ := h.commits hc
  have hcur := hacc.current
  have howns : e.after.Owns c.scopeId c.streamId := hafter ▸ Ledger.owns_commit.mpr hacc.owns
  refine ⟨⟨hacc.owns.isSome, hcur⟩, howns.isSome, ?_⟩
  rw [hafter, Ledger.revision_commit hacc.owns, if_pos rfl]
  omega

/-- Two commits at one revision of a stream have a creation of the stream between them. -/
theorem exists_creates_between {s : String} {n : ℤ} (hL : L.WellFormed)
    (hr : Run (Call.act P) L (h₁ ++ e :: (h₂ ++ e' :: h₃)) L') (hc : CommitsAt e s n)
    (hc' : CommitsAt e' s n) : ∃ d ∈ h₂, CreatesStream d s := by
  by_contra! hno
  obtain ⟨hbefore, heq, hrest⟩ := hr.split
  have hwf := wellFormed_of_run hL hbefore
  have heff : Effect P e.before e.op e.reply e.after := by
    rw [heq]
    exact Call.effect_act hwf.job_ids _
  have hmem : e' ∈ h₁ ++ e :: (h₂ ++ e' :: h₃) := by simp
  have heff' := (effect_of_run hL hr hmem).2
  obtain ⟨-, -, hafter⟩ := heff.commitsAt hc
  obtain ⟨⟨hs', hbefore'⟩, -⟩ := heff'.commitsAt hc'
  have hle := (revision_le_of_run (hwf.effect heff) hrest.split.1 hno hs').2
  omega

/-! ### Sequence numbers along a run -/

theorem Effect.nextEventSeq_le {call : Call} {reply : Except Failure Reply}
    (h : Effect P L call reply L') : L.nextEventSeq ≤ L'.nextEventSeq := by
  cases h with
  | committed | observed => exact Nat.le_succ _
  | _ => exact le_rfl

/-- The events of every ledger of a run have numbers below the next one. -/
theorem eventSeq_lt_of_run (hL : L.WellFormed) (hr : Run (Call.act P) L h L') :
    ∀ e ∈ h, ∀ ev ∈ e.after.events, ev.eventSeq < L'.nextEventSeq := by
  refine hr.inv (I := fun h L' => ∀ e ∈ h, ∀ ev ∈ e.after.events,
    ev.eventSeq < L'.nextEventSeq) (by simp) ?_
  intro h L' call hr ih e he ev hev
  have hwf := wellFormed_of_run hL hr
  rcases List.mem_append.mp he with he | he
  · exact (ih e he ev hev).trans_le (Call.effect_act hwf.job_ids call).nextEventSeq_le
  · obtain rfl := List.mem_singleton.mp he
    exact (hwf.act call).next_event_seq ev hev

/-! ### Rows that stay -/

/-- A request row is never changed or deleted. -/
theorem Effect.request?_eq {call : Call} {reply : Except Failure Reply}
    {scopeId actor command idempotencyKey : String} {row : RequestRow}
    (h : Effect P L call reply L')
    (hrow : L.request? scopeId actor command idempotencyKey = some row) :
    L'.request? scopeId actor command idempotencyKey = some row := by
  cases h with
  | committed c requestDigest eventId body hacc =>
    rw [Ledger.request?] at hrow ⊢
    rw [Ledger.commit, List.find?_append, hrow, Option.some_or]
  | _ => exact hrow

theorem request?_eq_of_run {scopeId actor command idempotencyKey : String} {row : RequestRow}
    (hL : L.WellFormed) (hr : Run (Call.act P) L h L')
    (hrow : L.request? scopeId actor command idempotencyKey = some row) :
    L'.request? scopeId actor command idempotencyKey = some row :=
  hr.inv (I := fun _ L' => L'.request? scopeId actor command idempotencyKey = some row) hrow
    fun _ _ _ hr hrow => (Call.effect_act (wellFormed_of_run hL hr).job_ids _).request?_eq hrow

/-- An event leaves the ledger exactly when its stream is deleted. -/
theorem Effect.mem_events_iff {ev : Event} (h : Effect P e.before e.op e.reply e.after)
    (hev : ev ∈ e.before.events) : ev ∈ e.after.events ↔ ¬DeletesStream e ev.streamId := by
  obtain ⟨L, call, reply, L'⟩ := e
  simp only [DeletesStream] at *
  cases h with
  | committed | observed => simp [Ledger.commit, Ledger.observe, hev]
  | deleted streamId deletedAt => simp [Ledger.deleteStream, hev, eq_comm]
  | refused => simp [hev]
  | created => simpa [Ledger.createStream] using hev
  | moved _ _ _ _ _ hout =>
    have hne : ∀ at', call ≠ .deleteStream ev.streamId at' := by
      rintro at' rfl
      exact hout.elim
    simp [hev, hne]
  | _ => simp [hev]

/-- An event that is gone does not come back: its sequence number is not used again. -/
theorem Effect.not_mem_events {call : Call} {reply : Except Failure Reply} {ev : Event}
    (h : Effect P L call reply L') (hnext : ev.eventSeq < L.nextEventSeq) (hev : ev ∉ L.events) :
    ev ∉ L'.events := by
  have hne (eventId streamId producer : String) (producerSeq : ℤ) (kind digest obs : String) :
      ev ≠ L.nextEvent eventId streamId producer producerSeq kind digest obs := by
    rintro rfl
    exact lt_irrefl _ hnext
  cases h with
  | committed => simp [Ledger.commit, hev, hne]
  | observed => simp [Ledger.observe, hev, hne]
  | deleted => simp [Ledger.deleteStream, hev]
  | _ => exact hev

/-- **An event is still in the ledger exactly when its stream was not deleted since.** -/
theorem mem_events_iff_of_run {ev : Event} (hL : L.WellFormed) (hr : Run (Call.act P) L h L')
    (hev : ev ∈ L.events) : ev ∈ L'.events ↔ ∀ d ∈ h, ¬DeletesStream d ev.streamId := by
  have hinv := hr.inv (I := fun h L' => ev.eventSeq < L'.nextEventSeq ∧
    (ev ∈ L'.events ↔ ∀ d ∈ h, ¬DeletesStream d ev.streamId))
    ⟨hL.next_event_seq ev hev, by simpa using hev⟩ ?_
  · exact hinv.2
  rintro h L' call hr ⟨hnext, ih⟩
  have heff := Call.effect_act (P := P) (wellFormed_of_run hL hr).job_ids call
  refine ⟨hnext.trans_le heff.nextEventSeq_le, ?_⟩
  simp only [List.mem_append, List.mem_singleton, or_imp, forall_and, forall_eq, ← ih]
  by_cases hmem : ev ∈ L'.events
  · simpa [hmem] using Effect.mem_events_iff (e := Entry.perform (Call.act P) L' call) heff hmem
  · simpa [hmem] using heff.not_mem_events hnext hmem

/-! ### The commands behind a stream's events -/

theorem committedBy_snoc (ev : Event) :
    committedBy (h ++ [e]) ev =
      (committedBy h ev || (e.op.isCommand && decide (Creates e ev))) := by
  simp [committedBy]

/-- Events that were there before a call keep their origin. -/
theorem filter_committedBy_snoc {events : List Event}
    (hmem : ∀ ev ∈ events, ev ∈ e.before.events) :
    events.filter (committedBy (h ++ [e])) = events.filter (committedBy h) := by
  refine List.filter_congr fun ev hev => ?_
  simp [committedBy_snoc, Creates, hmem ev hev]

/-- The next event of a ledger was inserted by no earlier call. -/
theorem committedBy_eq_false (hL : L.WellFormed) (hr : Run (Call.act P) L h L') {ev : Event}
    (hev : ev.eventSeq = L'.nextEventSeq) : committedBy h ev = false := by
  rw [committedBy, List.any_eq_false]
  rintro e he hcreated
  simp only [Bool.and_eq_true, decide_eq_true_eq] at hcreated
  exact (eventSeq_lt_of_run hL hr e he ev hcreated.2.1).ne hev

/-- A call that appends the next event of the log is the one that inserted it: a command
exactly when the call is one. -/
theorem committedBy_appended (hL : L.WellFormed)
    (hnew : ∀ ev : Event, ev.eventSeq = L.nextEventSeq → committedBy h ev = false) {ev : Event}
    (hev : ev.eventSeq = L.nextEventSeq) (hafter : ev ∈ L'.events) {call : Call}
    {reply : Except Failure Reply} :
    committedBy (h ++ [⟨L, call, reply, L'⟩]) ev = call.isCommand := by
  have hbefore : ev ∉ L.events := fun hmem => (hL.next_event_seq ev hmem).ne hev
  simp [committedBy_snoc, hnew ev hev, Creates, hafter, hbefore]

/-- One call keeps "revision = number of committed events" on every stream. -/
theorem Effect.revision_eq_count {call : Call} {reply : Except Failure Reply} {s : String}
    (hL : L.WellFormed)
    (hnew : ∀ ev : Event, ev.eventSeq = L.nextEventSeq → committedBy h ev = false)
    (ih : (L.stream? s).isSome → L.revision s = ((L.eventsOf s).filter (committedBy h)).length)
    (heff : Effect P L call reply L') (hs : (L'.stream? s).isSome) :
    L'.revision s =
      ((L'.eventsOf s).filter (committedBy (h ++ [⟨L, call, reply, L'⟩]))).length := by
  have hold : (L.eventsOf s).filter (committedBy (h ++ [⟨L, call, reply, L'⟩])) =
      (L.eventsOf s).filter (committedBy h) :=
    filter_committedBy_snoc fun ev hev => (Ledger.mem_eventsOf.mp hev).1
  cases heff with
  | created scopeId streamId entityType _ hfresh =>
    have hevents : (L.createStream scopeId streamId entityType).eventsOf s = L.eventsOf s := rfl
    rw [hevents, hold]
    rw [Ledger.stream?_createStream hfresh] at hs
    rw [Ledger.revision, Ledger.stream?_createStream hfresh]
    split
    · next heq =>
      have hnone : L.eventsOf s = [] := List.filter_eq_nil_iff.mpr fun ev hev hmem => by
        have hsome := hL.event_stream ev hev
        simp_all
      simp [hnone]
    · next hne => exact ih (by simpa [hne] using hs)
  | committed c requestDigest eventId body hacc =>
    have hs₀ : (L.stream? s).isSome := by
      rw [Ledger.stream?_commit] at hs
      split at hs <;> simpa using hs
    rw [Ledger.revision_commit hacc.owns, Ledger.eventsOf_append rfl, Ledger.nextEvent_streamId]
    by_cases heq : c.streamId = s
    · rw [if_pos heq.symm, if_pos heq, List.filter_append, hold, List.filter_singleton,
        committedBy_appended hL hnew rfl List.mem_concat_self]
      simp [Call.isCommand, ih hs₀]
    · rw [if_neg (Ne.symm heq), if_neg heq, hold, ih hs₀]
  | observed o eventId data hrec =>
    rw [Ledger.eventsOf_append rfl, Ledger.nextEvent_streamId]
    by_cases heq : o.streamId = s
    · rw [if_pos heq, List.filter_append, hold, List.filter_singleton,
        committedBy_appended hL hnew rfl List.mem_concat_self]
      refine (ih hs).trans ?_
      simp [Call.isCommand]
    · rw [if_neg heq, hold]
      exact ih hs
  | deleted streamId deletedAt =>
    rw [Ledger.stream?_deleteStream] at hs
    rw [Ledger.eventsOf_deleteStream, Ledger.revision, Ledger.stream?_deleteStream]
    split
    · next heq => simp [heq] at hs
    · next hne => exact (ih (by simpa [hne] using hs)).trans (congrArg List.length hold.symm)
  | _ =>
    refine (ih hs).trans (congrArg List.length ?_)
    exact hold.symm

namespace History

/-- **A stream's revision is the number of its events that commands inserted.** Observations
add events without adding to it. -/
theorem revision_eq_count (hr : History P h L) {s : String} (hs : (L.stream? s).isSome) :
    L.revision s = ((L.eventsOf s).filter (committedBy h)).length := by
  revert s
  refine hr.inv (I := fun h L => ∀ {s}, (L.stream? s).isSome →
    L.revision s = ((L.eventsOf s).filter (committedBy h)).length)
    (by simp [Ledger.empty, Ledger.stream?]) ?_
  intro h L call hr ih s hs
  have hwf := wellFormed hr
  exact Effect.revision_eq_count hwf (fun ev hev => committedBy_eq_false .empty hr hev) ih
    (Call.effect_act hwf.job_ids call) hs

end History

/-! ### Counters -/

/-- What holds of the counters of a ledger along the history that led to it. -/
structure Disciplined (h : List CallEntry) (L : Ledger) : Prop where
  /-- The events of a stream have the positions `1 … n`. -/
  positions : ∀ row ∈ L.streams, (L.eventsOf row.streamId).map (·.streamRevision) =
    List.range' 1 (L.eventsOf row.streamId).length
  /-- A stream's revision counts the events its commands inserted. -/
  revision_count : ∀ row ∈ L.streams,
    row.revision = ((L.eventsOf row.streamId).filter (committedBy h)).length
  /-- Observations never change a stream's row. -/
  observation_keeps : ∀ e ∈ h, ∀ o, e.op = .recordObservation o →
    e.after.streams = e.before.streams
  /-- A call that raises leaves every table as it was. -/
  atomic : ∀ e ∈ h, ∀ err, e.reply = .error err → e.after = e.before
  /-- A command commits only at the revision it expects, and moves the stream to the next. -/
  expected_current : ∀ e ∈ h, ∀ s n, CommitsAt e s n →
    (e.before.revision s : ℤ) = n ∧ (e.after.revision s : ℤ) = n + 1
  /-- Two commits at one revision of a stream belong to two lives of the stream. -/
  commits_once : ∀ h₁ h₂ h₃ e e' s n, h = h₁ ++ e :: (h₂ ++ e' :: h₃) →
    CommitsAt e s n → CommitsAt e' s n → ∃ d ∈ h₂, CreatesStream d s

/-- **The counters of every reachable ledger are disciplined.** -/
theorem History.disciplined (hr : History P h L) : Disciplined h L where
  positions row _ := hr.wellFormed.positions row.streamId
  revision_count row hrow := by
    have hfound := hr.wellFormed.stream?_eq hrow
    have hcount := hr.revision_eq_count (s := row.streamId) (by simp [hfound])
    simpa [Ledger.revision, hfound] using hcount
  observation_keeps e he o hop := by
    have heff := (hr.effect he).2
    rw [hop] at heff
    generalize e.after = L', e.reply = reply at heff
    cases heff with
    | refused | repeated | observed => rfl
    | moved _ _ _ _ _ hout => exact hout.elim
  atomic e he err herr := by
    have heff := (hr.effect he).2
    rw [herr] at heff
    exact heff.eq_of_error
  expected_current e he s n hc := by
    obtain ⟨⟨-, hbefore⟩, -, hafter⟩ := (hr.effect he).2.commitsAt hc
    exact ⟨hbefore, hafter⟩
  commits_once h₁ h₂ h₃ e e' s n hh hc hc' := by
    subst hh
    exact exists_creates_between .empty hr hc hc'

/-- The scope of tenant `acme`, user `ada`, workspace `lab`. -/
def acmeScope : String := "sha256:f9eb939f69cf2544ce47f325aee383dcbd32a9a9ffe6741bee483eb5f4909210"

/-- The ledger with that scope and two empty streams in it. -/
def acmeLedger : Ledger :=
  { scopes := [⟨acmeScope, "acme", "ada", "lab", 0⟩]
    streams := [⟨"s", acmeScope, 0, "task", "open"⟩, ⟨"t", acmeScope, 0, "task", "open"⟩] }

/-- The calls that set it up. -/
def acmeHistory : List CallEntry :=
  (exec (Call.act .ascii) .empty [.registerScope "acme" "ada" "lab",
    .createStream acmeScope "s" "task", .createStream acmeScope "t" "task"]).1

theorem history_acme : History .ascii acmeHistory acmeLedger := by
  have hrun := run_exec (Call.act .ascii) .empty [.registerScope "acme" "ada" "lab",
    .createStream acmeScope "s" "task", .createStream acmeScope "t" "task"]
  have hend : (exec (Call.act .ascii) .empty [.registerScope "acme" "ada" "lab",
      .createStream acmeScope "s" "task", .createStream acmeScope "t" "task"]).2 =
    acmeLedger := by decide +kernel
  rwa [hend] at hrun

/-- A command of actor `ada` under key `k`, on stream `s` of that scope. -/
def adaPlans (expectedRevision : ℤ) : Command :=
  { scopeId := acmeScope, actor := "ada", command := "plan", idempotencyKey := "k"
    payload := [(.str "step", .int 1)], streamId := "s", expectedRevision }

/-- A history with a commit, a refused command and an observation keeps its counters. -/
theorem History.disciplined_exec :
    let run := exec (Call.act .ascii) acmeLedger
      [.executeCommand (adaPlans 0), .executeCommand (adaPlans 7),
        .recordObservation ⟨acmeScope, "s", "probe", 0, [], "metric", "telemetry"⟩]
    Disciplined (acmeHistory ++ run.1) run.2 :=
  History.disciplined (history_acme.append (run_exec _ _ _))

end CyranoAgent
