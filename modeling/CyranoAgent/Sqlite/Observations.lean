import CyranoAgent.Sqlite.History

/-!
# Telemetry observations over whole histories

An observation is found again by its producer and sequence number, over every stream of the
ledger; only its payload is then compared. So the event a call answers from need not be on
the stream the call named, and `keepsObservation_iff` says exactly when it is.
-/

namespace CyranoAgent

open Lib Lib.Action Repository

variable {P : Primitives} {L : Ledger} {h : List CallEntry} {e : CallEntry}
  {o : Observation} {n : ℕ}

/-- An event of the ledger recorded under the producer and sequence number of `o`. -/
def SameObservation (L : Ledger) (o : Observation) (ev : Event) : Prop :=
  ev ∈ L.events ∧ ev.producer = o.producer ∧ ev.producerSeq = o.producerSeq

/-- After the call `e` of the observation `o`, the event number `n` is on the stream `o` names
and has the digest of its payload; the call inserted it, or found it there as the same
observation. -/
def KeepsObservation (P : Primitives) (e : CallEntry) (o : Observation) (n : ℕ) : Prop :=
  ∃ ev ∈ e.after.eventsOf o.streamId, ev.eventSeq = n ∧
    (∃ data, canonicalBytes P (.dict o.payload) = .ok data ∧ ev.payloadDigest = rawDigest data) ∧
    (Creates e ev ∨ SameObservation e.before o ev)

/-- With unique producer sequences, an observation is one event. -/
theorem SameObservation.unique (hL : L.OrderedLog) {ev ev' : Event}
    (hev : SameObservation L o ev) (hev' : SameObservation L o ev') : ev = ev' := by
  obtain ⟨hmem, hprod, hseq⟩ := hev
  obtain ⟨hmem', hprod', hseq'⟩ := hev'
  refine Rows.eq_of_key_eq hL.producer_seqs hmem hmem' ?_
  rw [hprod, hseq, hprod', hseq']

theorem sameObservation_of_observed? {ev : Event}
    (hobs : L.observed? o.producer o.producerSeq = some ev) : SameObservation L o ev := by
  refine ⟨List.mem_of_find?_eq_some hobs, ?_⟩
  simpa using List.find?_some hobs

/-- A call that records inserts its event, on the stream it names. -/
theorem keepsObservation_of_recorded (hL : e.before.WellFormed) {eventId : String}
    {data : ByteArray} (hrec : Recorded P e.before o eventId data)
    (hafter : e.after = e.before.observe o eventId data) :
    KeepsObservation P e o e.before.nextEventSeq := by
  have hmem : e.before.nextEvent eventId o.streamId o.producer o.producerSeq o.kind
      (rawDigest data) o.observationKind ∈ e.after.events := by
    rw [hafter]
    exact List.mem_concat_self
  refine ⟨_, Ledger.mem_eventsOf.mpr ⟨hmem, rfl⟩, rfl, ⟨data, hrec.bytes_payload, rfl⟩,
    .inl ⟨hmem, fun hold => ?_⟩⟩
  -- a row with the number the counter is about to hand out cannot be in the table yet
  exact lt_irrefl _ (hL.next_event_seq _ hold)

/-- A call that answers from an earlier event keeps its observation exactly when that event
is on the stream it names. -/
theorem keepsObservation_iff_of_repeats (hL : e.before.WellFormed)
    (hrep : Repeats P e.before o n) (hafter : e.after = e.before) :
    KeepsObservation P e o n ↔ ∀ ev, SameObservation e.before o ev → ev.streamId = o.streamId := by
  obtain ⟨-, -, data, old, hdata, hobs, hdig, ev, hev, hn⟩ := hrep
  have hold : SameObservation e.before o old := sameObservation_of_observed? hobs
  obtain rfl : old = ev := by
    rw [Rows.find?_key hL.event_ids hold.1, Option.some.injEq] at hev
    exact hev
  constructor
  · rintro ⟨ev', hev', -, -, hcreates | hsame⟩ ev hsame'
    · rw [hafter, Ledger.mem_eventsOf] at hev'
      exact absurd hev'.1 hcreates.2
    · rw [hsame'.unique hL.toOrderedLog hsame]
      exact (Ledger.mem_eventsOf.mp hev').2
  · intro hstream
    refine ⟨old, ?_, hn, ⟨data, hdata, hdig⟩, .inr hold⟩
    rw [hafter, Ledger.mem_eventsOf]
    exact ⟨hold.1, hstream old hold⟩

/-- **When a returned observation is on the stream it named**, as the event whose number it
returned: no event of its producer and sequence number was on another stream. -/
theorem keepsObservation_iff (hr : History P h L) (he : e ∈ h)
    (hop : e.op = .recordObservation o) (hreply : e.reply = .ok (.eventSeq n)) :
    KeepsObservation P e o n ↔
      ∀ ev, SameObservation e.before o ev → ev.streamId = o.streamId := by
  obtain ⟨hwf, heff⟩ := hr.effect he
  rw [hop, hreply] at heff
  generalize hafter : e.after = L' at heff
  cases heff with
  | repeated _ _ hrep => exact keepsObservation_iff_of_repeats hwf hrep hafter
  | observed _ eventId data hrec =>
    refine iff_of_true (keepsObservation_of_recorded hwf hrec hafter) fun ev hsame => ?_
    exact absurd hsame.2.2 (Ledger.observed?_eq_none.mp hrec.fresh_seq ev hsame.1 hsame.2.1)
  | moved _ _ _ _ _ hout => exact hout.elim

/-- An empty observation of producer `probe` on a stream of the scope. -/
def probeOn (streamId : String) (producerSeq : ℤ) : Observation :=
  ⟨acmeScope, streamId, "probe", producerSeq, [], "metric", "telemetry"⟩

/-- The call of an observation in a ledger. -/
def probeCall (L : Ledger) (o : Observation) : CallEntry :=
  Entry.perform (Call.act .ascii) L (.recordObservation o)

/-- The first observation of a producer is on its stream. -/
theorem keepsObservation_iff_probe :
    KeepsObservation .ascii (probeCall acmeLedger (probeOn "s" 0)) (probeOn "s" 0) 1 ↔
      ∀ ev, SameObservation acmeLedger (probeOn "s" 0) ev → ev.streamId = "s" := by
  have hreply : (probeCall acmeLedger (probeOn "s" 0)).reply = .ok (.eventSeq 1) := by
    decide +kernel
  exact keepsObservation_iff (history_acme.snoc (.recordObservation (probeOn "s" 0)))
    List.mem_concat_self rfl hreply

/-- **An observation can be dropped**: under a sequence number used on `s`, the call that names
`t` returns the number of the event on `s`, and `t` stays empty. -/
theorem observation_dropped :
    ¬∀ (P : Primitives) (h : List CallEntry) (L : Ledger) (e : CallEntry) (o : Observation)
      (n : ℕ), History P h L → e ∈ h → e.op = .recordObservation o →
      e.reply = .ok (.eventSeq n) → KeepsObservation P e o n := by
  intro hclaim
  obtain ⟨hreply, hempty⟩ :
      (probeCall (probeCall acmeLedger (probeOn "s" 0)).after (probeOn "t" 0)).reply =
          .ok (.eventSeq 1) ∧
        (probeCall (probeCall acmeLedger (probeOn "s" 0)).after (probeOn "t" 0)).after.eventsOf
          "t" = [] := by
    decide +kernel
  have hrun := (history_acme.snoc (.recordObservation (probeOn "s" 0))).snoc
    (.recordObservation (probeOn "t" 0))
  obtain ⟨ev, hev, -⟩ := hclaim .ascii _ _ _ _ _ hrun
    List.mem_concat_self rfl hreply
  rw [show (probeOn "t" 0).streamId = "t" from rfl] at hev
  exact List.not_mem_nil (hempty ▸ hev)

end CyranoAgent
