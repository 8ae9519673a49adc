import CyranoAgent.Sqlite.Effect

/-!
# Well-formed ledgers

What holds of the tables in every state the repository can reach: the uniqueness constraints
of the schema, the order of the event log, the positions `1 … n` of every stream's events, and
the foreign keys from events to streams and from jobs to events.

The first part says what a commit, an observation and a deletion do to the lookups the
invariant is about (`eventsOf`, `stream?`, `revision`, `Owns`); the step lemma
`WellFormed.effect` is a case split on `Effect` that uses them.
-/

namespace CyranoAgent

open Lib Lib.Action

namespace Ledger

variable {P : Primitives} {L L' : Ledger}

/-! ### Lookups after a write -/

@[simp] theorem mem_eventsOf {streamId : String} {ev : Event} :
    ev ∈ L.eventsOf streamId ↔ ev ∈ L.events ∧ ev.streamId = streamId := by
  simp [eventsOf]

/-- An appended event joins the events of its stream, at the end. -/
theorem eventsOf_append {ev : Event} (hevents : L'.events = L.events ++ [ev])
    (streamId : String) :
    L'.eventsOf streamId =
      if ev.streamId = streamId then L.eventsOf streamId ++ [ev] else L.eventsOf streamId := by
  rw [eventsOf, hevents, List.filter_append]
  split
  · next h => simp [eventsOf, h]
  · next h => simp [eventsOf, h]

theorem eventsOf_deleteStream (L : Ledger) (streamId deletedAt s : String) :
    (L.deleteStream streamId deletedAt).eventsOf s =
      if s = streamId then [] else L.eventsOf s := by
  simp only [eventsOf, deleteStream, Rows.delete, List.filter_filter]
  split
  · next h => simp [h]
  · next h =>
    refine List.filter_congr fun ev _ => ?_
    by_cases hs : ev.streamId = s <;> simp [hs, h]

/-- A command advances the revision of its stream's row and leaves every other row. -/
theorem stream?_commit (L : Ledger) (c : Command)
    (requestDigest eventId : String) (body : ByteArray) (s : String) :
    (L.commit c requestDigest eventId body).stream? s =
      if s = c.streamId then
        (L.stream? s).map fun row => { row with revision := L.revision c.streamId + 1 }
      else L.stream? s := by
  have hfind : (L.commit c requestDigest eventId body).stream? s = (L.stream? s).map fun row =>
      if decide (row.streamId = c.streamId) = true then
        { row with revision := L.revision c.streamId + 1 }
      else row := Rows.find?_update fun _ => rfl
  rw [hfind]
  rcases hrow : L.stream? s with _ | row
  · simp
  · have hs : row.streamId = s := by simpa using List.find?_some hrow
    split <;> simp_all

/-- A command adds a job only when it enqueues one. -/
theorem mem_outbox_commit {c : Command} {requestDigest eventId : String} {body : ByteArray}
    {job : Job} :
    job ∈ (L.commit c requestDigest eventId body).outbox ↔
      job ∈ L.outbox ∨
        (c.enqueue = true ∧ job = newJob eventId c.scopeId (rawDigest body)) := by
  rw [commit]
  split <;> simp_all

theorem stream?_deleteStream (L : Ledger) (streamId deletedAt s : String) :
    (L.deleteStream streamId deletedAt).stream? s =
      if s = streamId then none else L.stream? s := by
  simp only [stream?, deleteStream, Rows.delete, List.find?_filter]
  split
  · next h => simp [h]
  · next h =>
    refine congrArg (L.streams.find? ·) (funext fun row => ?_)
    by_cases hs : row.streamId = s <;> simp [hs, h]

/-- A new stream is found under its id, every other id as before. -/
theorem stream?_createStream {scopeId streamId entityType : String}
    (hfresh : L.stream? streamId = none) (s : String) :
    (L.createStream scopeId streamId entityType).stream? s =
      if s = streamId then some ⟨streamId, scopeId, 0, entityType, "open"⟩
      else L.stream? s := by
  have happend : (L.createStream scopeId streamId entityType).stream? s = (L.stream? s).or
      ([(⟨streamId, scopeId, 0, entityType, "open"⟩ : StreamRow)].find?
        fun row => row.streamId = s) := List.find?_append
  rw [happend]
  by_cases hs : s = streamId
  · simp [hs, hfresh]
  · simp [hs, Ne.symm hs]

/-! ### Revisions -/

/-- A stream that belongs to a scope belongs to it alone. -/
theorem Owns.unique {scopeId scopeId' streamId : String} (h : L.Owns scopeId streamId)
    (h' : L.Owns scopeId' streamId) : scopeId = scopeId' := by
  obtain ⟨row, hrow, rfl⟩ := h
  obtain ⟨row', hrow', rfl⟩ := h'
  rw [hrow, Option.some.injEq] at hrow'
  rw [hrow']

theorem Owns.isSome {scopeId streamId : String} (h : L.Owns scopeId streamId) :
    (L.stream? streamId).isSome := by
  obtain ⟨row, hrow, -⟩ := h
  simp [hrow]

/-- A command advances the revision of its own stream by one. -/
theorem revision_commit {c : Command} {requestDigest eventId : String} {body : ByteArray}
    (howns : L.Owns c.scopeId c.streamId) (s : String) :
    (L.commit c requestDigest eventId body).revision s =
      if s = c.streamId then L.revision s + 1 else L.revision s := by
  obtain ⟨row, hrow, -⟩ := howns
  rw [revision, stream?_commit]
  split
  · next hs => simp [hs, hrow]
  · rfl

/-- Commands keep who owns a stream. -/
@[simp] theorem owns_commit {c : Command} {requestDigest eventId : String} {body : ByteArray}
    {scopeId s : String} :
    (L.commit c requestDigest eventId body).Owns scopeId s ↔ L.Owns scopeId s := by
  rw [Owns, Owns, stream?_commit]
  split <;> simp

@[simp] theorem owns_deleteStream {streamId deletedAt scopeId s : String} :
    (L.deleteStream streamId deletedAt).Owns scopeId s ↔ s ≠ streamId ∧ L.Owns scopeId s := by
  rw [Owns, Owns, stream?_deleteStream]
  split <;> simp_all

/-! ### The invariant -/

/-- The event log is in order: unique ids and producer sequences, ascending sequence numbers,
and positions `1 … n` on every stream. -/
structure OrderedLog (L : Ledger) : Prop where
  event_ids : (L.events.map (·.eventId)).Nodup
  producer_seqs : (L.events.map fun ev => (ev.producer, ev.producerSeq)).Nodup
  event_seqs : L.events.Pairwise fun ev ev' => ev.eventSeq < ev'.eventSeq
  next_event_seq : ∀ ev ∈ L.events, ev.eventSeq < L.nextEventSeq
  event_seq_pos : ∀ ev ∈ L.events, 0 < ev.eventSeq
  next_event_seq_pos : 0 < L.nextEventSeq
  positions : ∀ streamId,
    (L.eventsOf streamId).map (·.streamRevision) = List.range' 1 (L.eventsOf streamId).length

/-- A ledger whose log is in order, whose streams have unique ids, whose events are on
existing streams, and whose jobs have unique ids and belong to an event on a stream of their
scope. -/
structure WellFormed (L : Ledger) : Prop extends L.OrderedLog where
  stream_ids : (L.streams.map (·.streamId)).Nodup
  event_stream : ∀ ev ∈ L.events, (L.stream? ev.streamId).isSome
  job_ids : L.UniqueJobs
  job_event : ∀ job ∈ L.outbox, job.jobId = job.eventId ∧
    ∃ ev ∈ L.events, ev.eventId = job.eventId ∧ L.Owns job.scopeId ev.streamId

namespace OrderedLog

/-- The next position of a stream is one past the number of its events. -/
theorem nextPosition_eq (hL : L.OrderedLog) (streamId : String) :
    L.nextPosition streamId = (L.eventsOf streamId).length + 1 := by
  rw [nextPosition, hL.positions]
  generalize (L.eventsOf streamId).length = n
  rcases n with _ | n
  · rfl
  · have hmax : (List.range' 1 (n + 1)).max? = some (n + 1) :=
      List.max?_eq_some_iff.mpr
        ⟨List.mem_range'_1.mpr (by omega), fun m hm => by have := List.mem_range'_1.mp hm; omega⟩
    simp [Rows.coalesceMax, hmax]

/-- An event whose id and producer sequence are new keeps the log in order. -/
theorem append (hL : L.OrderedLog) {eventId streamId producer : String} {producerSeq : ℤ}
    {kind payloadDigest observationKind : String}
    (hevents : L'.events = L.events ++ [L.nextEvent eventId streamId producer producerSeq kind
      payloadDigest observationKind])
    (hnext : L'.nextEventSeq = L.nextEventSeq + 1)
    (hid : ∀ ev ∈ L.events, ev.eventId ≠ eventId)
    (hseq : L.observed? producer producerSeq = none) : L'.OrderedLog := by
  refine ⟨?_, ?_, ?_, ?_, ?_, hnext ▸ Nat.succ_pos _, fun s => ?_⟩
  · rw [hevents]
    exact Rows.nodup_append hL.event_ids hid
  · rw [hevents]
    refine Rows.nodup_append hL.producer_seqs fun ev hev heq => ?_
    obtain ⟨hprod, hpseq⟩ := Prod.mk.inj heq
    exact observed?_eq_none.mp hseq ev hev hprod hpseq
  · rw [hevents, List.pairwise_append]
    refine ⟨hL.event_seqs, List.pairwise_singleton _ _, ?_⟩
    simpa [nextEvent] using hL.next_event_seq
  · intro ev hev
    rw [hevents, List.mem_append, List.mem_singleton] at hev
    rw [hnext]
    rcases hev with hev | rfl
    · exact (hL.next_event_seq ev hev).trans (Nat.lt_succ_self _)
    · exact Nat.lt_succ_self _
  · intro ev hev
    rw [hevents, List.mem_append, List.mem_singleton] at hev
    rcases hev with hev | rfl
    · exact hL.event_seq_pos ev hev
    · exact hL.next_event_seq_pos
  · rw [eventsOf_append hevents]
    split
    · next hs =>
      have hs : streamId = s := hs
      rw [List.map_append, hL.positions, List.length_append, List.length_singleton,
        List.range'_1_concat]
      simp [nextEvent, hs, hL.nextPosition_eq, Nat.add_comm]
    · exact hL.positions s

/-- A deletion keeps the log in order. -/
theorem deleteStream (hL : L.OrderedLog) (streamId deletedAt : String) :
    (L.deleteStream streamId deletedAt).OrderedLog := by
  have hsub : (L.deleteStream streamId deletedAt).events.Sublist L.events := List.filter_sublist
  refine ⟨hL.event_ids.sublist (hsub.map _), hL.producer_seqs.sublist (hsub.map _),
    hL.event_seqs.sublist hsub, fun ev hev => hL.next_event_seq ev (hsub.subset hev),
    fun ev hev => hL.event_seq_pos ev (hsub.subset hev), hL.next_event_seq_pos, fun s => ?_⟩
  rw [eventsOf_deleteStream]
  split
  · rfl
  · exact hL.positions s

end OrderedLog

namespace WellFormed

/-- A fresh database is well formed. -/
theorem empty : Ledger.empty.WellFormed where
  event_ids := List.nodup_nil
  producer_seqs := List.nodup_nil
  event_seqs := .nil
  next_event_seq := by simp [Ledger.empty]
  event_seq_pos := by simp [Ledger.empty]
  next_event_seq_pos := Nat.one_pos
  positions _ := rfl
  stream_ids := List.nodup_nil
  event_stream := by simp [Ledger.empty]
  job_ids := List.nodup_nil
  job_event := by simp [Ledger.empty]

/-- A stream's row is found under its id. -/
theorem stream?_eq (hL : L.WellFormed) {row : StreamRow} (hrow : row ∈ L.streams) :
    L.stream? row.streamId = some row :=
  Rows.find?_key hL.stream_ids hrow

/-- A committed command keeps the ledger well formed: its job, if any, belongs to its event. -/
theorem commit (hL : L.WellFormed) {c : Command} {requestDigest eventId : String}
    {body : ByteArray} (hacc : Repository.Accepted P L c requestDigest eventId body) :
    (L.commit c requestDigest eventId body).WellFormed := by
  refine { hL.append rfl rfl hacc.fresh_event hacc.fresh_seq with
    stream_ids := ?_, event_stream := fun ev hev => ?_, job_ids := ?_, job_event := ?_ }
  · have hids : (L.commit c requestDigest eventId body).streams.map (·.streamId) =
        L.streams.map (·.streamId) := Rows.map_update fun _ => rfl
    rw [hids]
    exact hL.stream_ids
  · have hsome : (L.stream? ev.streamId).isSome := by
      rcases List.mem_append.mp hev with hev | hev
      · exact hL.event_stream ev hev
      · obtain rfl := List.mem_singleton.mp hev
        exact hacc.owns.isSome
    rw [stream?_commit]
    split <;> simpa using hsome
  · rw [UniqueJobs, Ledger.commit]
    split
    · next hq =>
      refine Rows.nodup_append hL.job_ids ?_
      simpa [job?, newJob] using hacc.fresh_job hq
    · exact hL.job_ids
  · intro job hjob
    rcases mem_outbox_commit.mp hjob with hjob | ⟨-, rfl⟩
    · obtain ⟨hid, ev, hev, heq, hown⟩ := hL.job_event job hjob
      exact ⟨hid, ev, List.mem_append_left _ hev, heq, owns_commit.mpr hown⟩
    · exact ⟨rfl, _, List.mem_concat_self, rfl,
        owns_commit.mpr hacc.owns⟩

/-- Changes of the jobs that keep what a job is keep the ledger well formed. -/
theorem of_outbox_map (hL : L.WellFormed) {move : Job → Job} (hevents : L'.events = L.events)
    (hnext : L'.nextEventSeq = L.nextEventSeq) (hstreams : L'.streams = L.streams)
    (houtbox : L'.outbox = L.outbox.map move)
    (hmove : ∀ job ∈ L.outbox, (move job).jobId = job.jobId ∧ (move job).eventId = job.eventId ∧
      (move job).scopeId = job.scopeId) : L'.WellFormed := by
  have hids : (L.outbox.map move).map (·.jobId) = L.outbox.map (·.jobId) := by
    rw [List.map_map]
    exact List.map_congr_left fun job hjob => (hmove job hjob).1
  have hof : ∀ s, L'.eventsOf s = L.eventsOf s := fun s => by rw [eventsOf, hevents, eventsOf]
  have hstream : ∀ s, L'.stream? s = L.stream? s := fun s => by rw [stream?, hstreams, stream?]
  refine {
    event_ids := hevents ▸ hL.event_ids, producer_seqs := hevents ▸ hL.producer_seqs
    event_seqs := hevents ▸ hL.event_seqs
    next_event_seq := by rw [hevents, hnext]; exact hL.next_event_seq
    event_seq_pos := hevents ▸ hL.event_seq_pos, next_event_seq_pos := hnext ▸ hL.next_event_seq_pos
    positions := fun s => by rw [hof]; exact hL.positions s
    stream_ids := hstreams ▸ hL.stream_ids
    event_stream := fun ev hev => by rw [hstream]; exact hL.event_stream ev (hevents ▸ hev)
    job_ids := by rw [UniqueJobs, houtbox, hids]; exact hL.job_ids
    job_event := fun job' hjob' => ?_ }
  rw [houtbox] at hjob'
  obtain ⟨job, hjob, rfl⟩ := List.mem_map.mp hjob'
  obtain ⟨hid, heid, hscope⟩ := hmove job hjob
  rw [hid, heid, hscope, hevents]
  simpa only [Owns, hstream] using hL.job_event job hjob

/-- Every call keeps the ledger well formed. -/
theorem effect (hL : L.WellFormed) {call : Call} {reply : Except Failure Reply}
    (h : Effect P L call reply L') : L'.WellFormed := by
  cases h with
  | refused | replayed | repeated => exact hL
  | registered | audited => exact { hL with }
  | created scopeId streamId entityType _ hfresh =>
    have howns : ∀ {scope s}, L.Owns scope s →
        (L.createStream scopeId streamId entityType).Owns scope s := by
      rintro scope s ⟨row, hrow, rfl⟩
      refine ⟨row, ?_, rfl⟩
      rw [stream?_createStream hfresh, if_neg (by rintro rfl; simp [hfresh] at hrow), hrow]
    refine { hL with
      stream_ids := Rows.nodup_append hL.stream_ids (by simpa [stream?] using hfresh)
      event_stream := fun ev hev => ?_, job_event := fun job hjob => ?_ }
    · obtain ⟨row, hrow⟩ := Option.isSome_iff_exists.mp (hL.event_stream ev hev)
      exact (howns ⟨row, hrow, rfl⟩).isSome
    · obtain ⟨hid, ev, hev, heq, hown⟩ := hL.job_event job hjob
      exact ⟨hid, ev, hev, heq, howns hown⟩
  | committed c requestDigest eventId body hacc => exact hL.commit hacc
  | observed o eventId data hrec =>
    refine { hL.append rfl rfl hrec.fresh_event hrec.fresh_seq with
      stream_ids := hL.stream_ids, event_stream := fun ev hev => ?_, job_ids := hL.job_ids,
      job_event := fun job hjob => ?_ }
    · rcases List.mem_append.mp hev with hev | hev
      · exact hL.event_stream ev hev
      · obtain rfl := List.mem_singleton.mp hev
        exact hrec.owns.isSome
    · obtain ⟨hid, ev, hev, heq, hown⟩ := hL.job_event job hjob
      exact ⟨hid, ev, List.mem_append_left _ hev, heq, hown⟩
  | moved _ _ move _ _ _ hmove =>
    exact hL.of_outbox_map rfl rfl rfl rfl fun job hjob =>
      ⟨(hmove job hjob).jobId_eq, (hmove job hjob).eventId_eq, (hmove job hjob).scopeId_eq⟩
  | deleted streamId deletedAt =>
    have hsub : (L.deleteStream streamId deletedAt).outbox.Sublist L.outbox :=
      List.filter_sublist
    refine { hL.toOrderedLog.deleteStream streamId deletedAt with
      stream_ids := hL.stream_ids.sublist (List.filter_sublist.map _)
      event_stream := fun ev hev => ?_, job_ids := hL.job_ids.sublist (hsub.map _),
      job_event := fun job hjob => ?_ }
    · obtain ⟨hev, hs⟩ := Rows.mem_delete.mp hev
      have hs : ev.streamId ≠ streamId := by simpa using hs
      rw [stream?_deleteStream, if_neg hs]
      exact hL.event_stream ev hev
    · obtain ⟨hjob, hkept⟩ := Rows.mem_delete.mp hjob
      obtain ⟨hid, ev, hev, heq, hown⟩ := hL.job_event job hjob
      have hs : ev.streamId ≠ streamId := by
        rintro rfl
        simp only [List.any_eq_false, mem_eventsOf, decide_eq_true_eq] at hkept
        exact hkept ev ⟨hev, rfl⟩ heq
      exact ⟨hid, ev, Rows.mem_delete.mpr ⟨hev, by simpa using hs⟩, heq,
        owns_deleteStream.mpr ⟨hs, hown⟩⟩

end WellFormed

end Ledger

end CyranoAgent
