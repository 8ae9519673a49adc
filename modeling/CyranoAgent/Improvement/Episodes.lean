import CyranoAgent.Events.Timeline
import CyranoAgent.Events.Recovery

/-!
# What a run failed of

`traceRun` is one page of the timeline of a run, and `failureAttribution` reads page after page from
the start: all events of the stream, each of them once and in their order (`readSpans_eq`). It names
the cause of the last event that is a failure, whatever came after it, so that it blames a failure
that the run recovered from; `attributed_iff` says when it does not.
-/

namespace CyranoAgent

open Lib

namespace Improvement

/-! ### Pages -/

/-- `TraceSpan`. -/
structure TraceSpan where
  eventId : String
  seq : ℕ
  kind : String
  observedAt : String
  evidence : String
  payloadDigest : String
  deriving DecidableEq

/-- `TracePage`. -/
structure TracePage where
  spans : List TraceSpan
  nextCursor : Option ℤ
  truncated : Bool
  deriving DecidableEq

section

variable (L : Ledger) (scopeId streamId : String)

/-- The span of an event: its evidence is available where its payload is stored. -/
def spanOf (ev : Event) : TraceSpan where
  eventId := ev.eventId
  seq := ev.eventSeq
  kind := ev.kind
  observedAt := ev.observedAt
  evidence := if L.eventBlobs.any fun row => row.rawDigest = ev.payloadDigest then "available"
    else "unavailable"
  payloadDigest := ev.payloadDigest

/-- The events of a stream past a cursor, by their sequence. -/
def eventsAfter (cursor : ℤ) : List Event :=
  ((L.eventsOf streamId).filter fun ev => cursor < ev.eventSeq).insertionSort
    fun ev ev' => ev.eventSeq ≤ ev'.eventSeq

/-- `trace_run`. -/
def traceRun (cursor limit : ℤ) : Except Failure TracePage := do
  Query.checkScope L scopeId streamId
  if cursor < 0 ∨ limit ≤ 0 then .error (.cyrano "INPUT_INVALID" "bad cursor or limit")
  else
    let rows := (eventsAfter L streamId cursor).take (limit.toNat + 1)
    let spans := (rows.take limit.toNat).map (spanOf L)
    .ok {
      spans
      nextCursor := if limit.toNat < rows.length then
        spans.getLast?.map fun span => (span.seq : ℤ) else none
      truncated := limit.toNat < rows.length }

/-- The loop of `failure_attribution` over the pages, from a cursor on. It has no result when the
fuel runs out. -/
def readSpans : ℕ → ℤ → Except Failure (Option (List TraceSpan))
  | 0, _ => .ok none
  | fuel + 1, cursor => do
    let page ← traceRun L scopeId streamId cursor 50
    match page.nextCursor with
    | none => return some page.spans
    | some next => return (← readSpans fuel next).map (page.spans ++ ·)

end

/-! ### Causes -/

/-- `FailureTrace`. -/
structure FailureTrace where
  streamId : String
  rootCause : String
  remediationOwner : String
  observed : List String
  hypotheses : List String
  deriving DecidableEq

/-- `_FAILURE_RULES`. -/
def failureRules : List (String × String × String) :=
  [("tool.denied", "approval_missing", "requester"),
    ("model.failed", "provider_timeout", "platform"),
    ("tool.failed", "tool_failure", "implementer")]

section

variable (loads : ByteArray → Except Failure PyValue) (L : Ledger) (scopeId streamId : String)

/-- Whether the payload of a test says that it failed. A payload that is no JSON does not say so. -/
def testFailed (span : TraceSpan) : Except Failure Bool :=
  match Repository.readArtifact L scopeId span.payloadDigest with
  | none => .ok false
  | some body =>
    match loads body with
    | .ok (.dict payload) =>
      match PyMapping.getD payload "outcome" .none with
      | .str outcome => .ok (outcome = "failed")
      | _ => .ok false
    | .ok _ | .error (.python "JSONDecodeError" _) => .ok false
    | .error e => .error e

/-- `_cause_for`. -/
def causeFor (span : TraceSpan) : Except Failure (Option (String × String)) :=
  if span.evidence ≠ "available" then
    .ok (if span.kind ∈ failureRules.map (·.1) ∨ span.kind = "test.finished" then
      some ("evidence_unavailable", "platform") else none)
  else if span.kind = "test.finished" then
    (testFailed loads L scopeId span).map fun failed =>
      if failed then some ("test_failure", "implementer") else none
  else .ok ((failureRules.find? fun rule => rule.1 = span.kind).map Prod.snd)

/-- The cause and the owner that the loop of `failure_attribution` over the spans names. -/
def nameCause (named : String × String) : List TraceSpan → Except Failure (String × String)
  | [] => .ok named
  | span :: spans => do nameCause ((← causeFor loads L scopeId span).getD named) spans

/-- `failure_attribution`. The pages end after no more of them than there are events. -/
def failureAttribution : Except Failure (Option FailureTrace) := do
  match ← readSpans L scopeId streamId ((L.eventsOf streamId).length + 1) 0 with
  | none => return none
  | some spans =>
    let (root, owner) ← nameCause loads L scopeId ("unknown", "unassigned") spans
    return some {
      streamId
      rootCause := root
      remediationOwner := owner
      observed := spans.map fun span => toString span.seq ++ ":" ++ span.kind
      hypotheses := if root = "unknown" ∧ spans ≠ [] then
        ["last record is not a failure event; worker may be lost"] else [] }

end

/-! ### Reading page after page -/

variable {loads : ByteArray → Except Failure PyValue} {L : Ledger} {scopeId streamId : String}

/-- The events past a cursor are in order as they are. -/
theorem eventsAfter_eq (hL : L.OrderedLog) (cursor : ℤ) :
    eventsAfter L streamId cursor =
      (L.eventsOf streamId).filter fun ev => cursor < ev.eventSeq := by
  refine List.Pairwise.insertionSort_eq ?_
  exact ((Query.pairwise_eventsOf hL streamId).sublist List.filter_sublist).imp Nat.le_of_lt

/-- Past the last event of a page is what the page leaves. -/
theorem eventsAfter_append (hL : L.OrderedLog) {cursor : ℤ} {page rest : List Event} {last : Event}
    (h : eventsAfter L streamId cursor = page ++ rest) (hlast : page.getLast? = some last) :
    eventsAfter L streamId last.eventSeq = rest := by
  rw [eventsAfter_eq hL] at h ⊢
  have hsorted : (page ++ rest).Pairwise fun ev ev' => ev.eventSeq < ev'.eventSeq := by
    rw [← h]
    exact (Query.pairwise_eventsOf hL streamId).sublist List.filter_sublist
  have hmem : last ∈ page := List.mem_of_getLast? hlast
  have hcursor : cursor < last.eventSeq := by
    have hfiltered : last ∈ (L.eventsOf streamId).filter fun ev => cursor < ev.eventSeq := by
      rw [h]
      exact List.mem_append_left _ hmem
    simpa using (List.mem_filter.mp hfiltered).2
  have hnarrow : (L.eventsOf streamId).filter (fun ev => (last.eventSeq : ℤ) < ev.eventSeq) =
      (page ++ rest).filter fun ev => (last.eventSeq : ℤ) < ev.eventSeq := by
    rw [← h, List.filter_filter]
    refine List.filter_congr fun ev _ => ?_
    simp only [← Bool.decide_and]
    congr 1
    exact propext ⟨fun hev => ⟨hev, hcursor.trans hev⟩, fun hev => hev.1⟩
  obtain ⟨init, rfl⟩ := List.getLast?_eq_some_iff.mp hlast
  rw [hnarrow, List.filter_append, List.filter_eq_nil_iff.mpr, List.nil_append,
    List.filter_eq_self]
  · intro ev hev
    have hlt := (List.pairwise_append.mp hsorted).2.2 last hmem ev hev
    simpa using hlt
  · intro ev hev
    rw [decide_eq_true_eq, not_lt]
    rcases List.mem_append.mp hev with hinit | hev
    · have hpage := (List.pairwise_append.mp hsorted).1
      exact_mod_cast ((List.pairwise_append.mp hpage).2.2 ev hinit last (by simp)).le
    · rw [List.mem_singleton.mp hev]

/-- One page: the first events past the cursor, and where the next page starts. -/
theorem traceRun_eq (howns : L.Owns scopeId streamId) {cursor : ℤ} (hcursor : 0 ≤ cursor) :
    traceRun L scopeId streamId cursor 50 = .ok {
      spans := ((eventsAfter L streamId cursor).take 50).map (spanOf L)
      nextCursor := if 50 < (eventsAfter L streamId cursor).length then
        ((eventsAfter L streamId cursor).take 50).getLast?.map fun ev => (ev.eventSeq : ℤ) else none
      truncated := 50 < (eventsAfter L streamId cursor).length } := by
  have hlimit : ¬(cursor < 0 ∨ (50 : ℤ) ≤ 0) := by omega
  have htoNat : (50 : ℤ).toNat = 50 := rfl
  have hmore : (50 < ((eventsAfter L streamId cursor).take 51).length) =
      (50 < (eventsAfter L streamId cursor).length) := by
    rw [List.length_take]
    exact propext (by omega)
  refine except_bind_eq_ok.mpr ⟨(), Query.checkScope_eq_ok.mpr howns, ?_⟩
  simp only [if_neg hlimit, htoNat, List.take_take, hmore, List.getLast?_map, Option.map_map]
  rfl

/-- **Reading page after page**, from a cursor on, gives every event past it, once and in order. -/
theorem readSpans_eq_of_lt (hL : L.OrderedLog) (howns : L.Owns scopeId streamId) {fuel : ℕ}
    {cursor : ℤ} (hcursor : 0 ≤ cursor) (hfuel : (eventsAfter L streamId cursor).length < fuel) :
    readSpans L scopeId streamId fuel cursor =
      .ok (some ((eventsAfter L streamId cursor).map (spanOf L))) := by
  induction fuel generalizing cursor with
  | zero => exact absurd hfuel (Nat.not_lt_zero _)
  | succ fuel ih =>
    refine except_bind_eq_ok.mpr ⟨_, traceRun_eq howns hcursor, ?_⟩
    by_cases hmore : 50 < (eventsAfter L streamId cursor).length
    · obtain ⟨last, hlast⟩ : ∃ last,
          ((eventsAfter L streamId cursor).take 50).getLast? = some last := by
        refine Option.ne_none_iff_exists'.mp fun hnone => ?_
        rw [List.getLast?_eq_none_iff, List.take_eq_nil_iff] at hnone
        rcases hnone with hzero | hnil
        · omega
        · simp [hnil] at hmore
      have hrest := eventsAfter_append hL (List.take_append_drop 50 _).symm hlast
      have hread : readSpans L scopeId streamId fuel last.eventSeq =
          .ok (some ((eventsAfter L streamId last.eventSeq).map (spanOf L))) := by
        refine ih (by omega) ?_
        rw [hrest, List.length_drop]
        omega
      simp only [hmore, if_true, hlast, Option.map_some]
      refine except_bind_eq_ok.mpr ⟨_, hread, ?_⟩
      rw [hrest, Option.map_some, ← List.map_append, List.take_append_drop]
      rfl
    · have hall : (eventsAfter L streamId cursor).take 50 = eventsAfter L streamId cursor :=
        List.take_of_length_le (by omega)
      simp only [hmore, if_false, hall]
      rfl

/-- **All events of a stream are read, once and in order.** -/
theorem readSpans_eq (hL : L.OrderedLog) (howns : L.Owns scopeId streamId) :
    readSpans L scopeId streamId ((L.eventsOf streamId).length + 1) 0 =
      .ok (some ((L.eventsOf streamId).map (spanOf L))) := by
  have hall : eventsAfter L streamId 0 = L.eventsOf streamId := by
    rw [eventsAfter_eq hL, List.filter_eq_self]
    intro ev hev
    have hpos := hL.event_seq_pos ev (Ledger.mem_eventsOf.mp hev).1
    simpa using hpos
  rw [readSpans_eq_of_lt hL howns le_rfl (by rw [hall]; omega), hall]

/-! ### What is blamed -/

/-- The failure of an event, by the rules. -/
def causeOf (loads : ByteArray → Except Failure PyValue) (L : Ledger) (scopeId : String)
    (ev : Event) : Option (String × String) :=
  match causeFor loads L scopeId (spanOf L ev) with
  | .ok cause => cause
  | .error _ => none

/-- No rule names a cause `unknown`. -/
theorem causeOf_ne_unknown {ev : Event} {cause : String × String}
    (h : causeOf loads L scopeId ev = some cause) : cause.1 ≠ "unknown" := by
  have hrules : ∀ rule ∈ failureRules, rule.2.1 ≠ "unknown" := by decide
  rw [causeOf] at h
  cases hcause : causeFor loads L scopeId (spanOf L ev) with
  | error e =>
    rw [hcause] at h
    cases h
  | ok found =>
    rw [hcause] at h
    obtain rfl : found = some cause := h
    rw [causeFor] at hcause
    split_ifs at hcause with hmissing hfailure htest
    · obtain rfl := Option.some.inj (Except.ok.inj hcause)
      decide
    · cases hcause
    · obtain ⟨failed, -, hfailed⟩ := except_map_eq_ok.mp hcause
      cases failed with
      | false => cases hfailed
      | true =>
        obtain rfl := Option.some.inj hfailed
        decide
    · obtain ⟨rule, hrule, rfl⟩ := Option.map_eq_some_iff.mp (Except.ok.inj hcause)
      exact hrules rule (List.mem_of_find?_eq_some hrule)

/-- What is named is the cause of the last failure. -/
theorem nameCause_eq_ok {events : List Event} {named result : String × String}
    (h : nameCause loads L scopeId named (events.map (spanOf L)) = .ok result) :
    result = (events.filterMap (causeOf loads L scopeId)).getLast?.getD named := by
  induction events generalizing named with
  | nil => exact (Except.ok.inj h).symm
  | cons ev events ih =>
    rw [List.map_cons, nameCause, except_bind_eq_ok] at h
    obtain ⟨cause, hcause, h⟩ := h
    have hof : causeOf loads L scopeId ev = cause := by rw [causeOf, hcause]
    rw [ih h, List.filterMap_cons, hof]
    cases cause with
    | none => rfl
    | some cause => rw [List.getLast?_cons, Option.getD_some, Option.getD_some]

/-- What a trace says is what the stream shows: it lists every event, once and in order, and the
cause that it names is that of the last event. -/
structure Attributed (loads : ByteArray → Except Failure PyValue) (L : Ledger)
    (scopeId streamId : String) (trace : FailureTrace) : Prop where
  observed : trace.observed =
    (L.eventsOf streamId).map fun ev => toString ev.eventSeq ++ ":" ++ ev.kind
  terminal : trace.rootCause ≠ "unknown" → ∃ last, (L.eventsOf streamId).getLast? = some last ∧
    causeOf loads L scopeId last = some (trace.rootCause, trace.remediationOwner)

/-- **When an attribution names the failure that stopped the run**: where an event is a failure,
the last one is. The attribution always comes to an end, and lists every event. -/
theorem attributed_iff (hL : L.OrderedLog) {reply : Option FailureTrace}
    (h : failureAttribution loads L scopeId streamId = .ok reply) :
    ∃ trace, reply = some trace ∧
      (Attributed loads L scopeId streamId trace ↔
        ((∃ ev ∈ L.eventsOf streamId, (causeOf loads L scopeId ev).isSome) →
          ∃ last, (L.eventsOf streamId).getLast? = some last ∧
            (causeOf loads L scopeId last).isSome)) := by
  obtain ⟨read, hread, h⟩ := except_bind_eq_ok.mp h
  have howns : L.Owns scopeId streamId := by
    obtain ⟨page, hpage, -⟩ := except_bind_eq_ok.mp hread
    obtain ⟨⟨⟩, hscope, -⟩ := except_bind_eq_ok.mp hpage
    exact Query.checkScope_eq_ok.mp hscope
  obtain rfl := Except.ok.inj ((readSpans_eq hL howns).symm.trans hread)
  obtain ⟨⟨root, owner⟩, hnamed, h⟩ := except_bind_eq_ok.mp h
  refine ⟨_, (Except.ok.inj h).symm, ?_⟩
  have hresult := nameCause_eq_ok hnamed
  constructor
  · rintro ⟨-, hterminal⟩ ⟨ev, hev, hfails⟩
    obtain ⟨cause, hcause⟩ := Option.isSome_iff_exists.mp hfails
    have hmem : cause ∈ (L.eventsOf streamId).filterMap (causeOf loads L scopeId) :=
      List.mem_filterMap.mpr ⟨ev, hev, hcause⟩
    obtain ⟨last, hlast⟩ := Option.ne_none_iff_exists'.mp
      (mt List.getLast?_eq_none_iff.mp (List.ne_nil_of_mem hmem))
    obtain ⟨ev', -, hcause'⟩ := List.mem_filterMap.mp (List.mem_of_getLast? hlast)
    rw [hlast, Option.getD_some] at hresult
    have hroot : root ≠ "unknown" := by
      have hne := causeOf_ne_unknown hcause'
      rwa [← hresult] at hne
    obtain ⟨final, hfinal, hblamed⟩ := hterminal hroot
    exact ⟨final, hfinal, by rw [hblamed]; rfl⟩
  · intro hlast
    refine ⟨?_, fun hroot => ?_⟩
    · rw [List.map_map]
      rfl
    · have hsome : (L.eventsOf streamId).filterMap (causeOf loads L scopeId) ≠ [] := by
        intro hnil
        rw [hnil] at hresult
        exact hroot (congrArg Prod.fst hresult)
      obtain ⟨cause, hcause⟩ := List.exists_mem_of_ne_nil _ hsome
      obtain ⟨ev, hev, hof⟩ := List.mem_filterMap.mp hcause
      obtain ⟨final, hfinal, hfails⟩ := hlast ⟨ev, hev, by rw [hof]; rfl⟩
      obtain ⟨blamed, hblamed⟩ := Option.isSome_iff_exists.mp hfails
      refine ⟨final, hfinal, ?_⟩
      obtain ⟨init, hinit⟩ := List.getLast?_eq_some_iff.mp hfinal
      rw [hinit, List.filterMap_append, List.filterMap_cons, hblamed, List.filterMap_nil,
        List.getLast?_concat, Option.getD_some] at hresult
      rw [hblamed, hresult]

/-! ### A failure that a run recovered from -/

/-- The event of a tool call, with a payload that is stored. -/
def toolEvent (eventSeq : ℕ) (kind : String) : Event where
  eventSeq := eventSeq
  eventId := kind
  streamId := "s"
  streamRevision := eventSeq
  producer := "native_observer"
  producerSeq := eventSeq
  kind := kind
  schemaVersion := 1
  payloadDigest := "sha256:0"
  observedAt := "now"
  ingestedAt := "now"
  observationKind := "trusted"

/-- A run whose tool fails, and then finishes under another call. -/
def retriedRun : Ledger where
  streams := [⟨"s", "ada", 0, "run", "active"⟩]
  eventBlobs := [⟨"sha256:0", "ada", ByteArray.empty⟩]
  events := [toolEvent 1 "tool.failed", toolEvent 2 "tool.finished"]
  nextEventSeq := 3

theorem orderedLog_retriedRun : retriedRun.OrderedLog where
  event_ids := by decide
  producer_seqs := by decide
  event_seqs := by decide
  next_event_seq := by decide
  event_seq_pos := by decide
  next_event_seq_pos := by decide
  positions streamId := by
    by_cases hstream : "s" = streamId
    · subst hstream
      decide
    · have hnone : retriedRun.eventsOf streamId = [] := by
        refine List.filter_eq_nil_iff.mpr fun ev hev => ?_
        have hs : ev.streamId = "s" := by
          revert ev
          decide
        simpa [hs] using hstream
      rw [hnone]
      rfl

/-- What is attributed to the run. -/
theorem failureAttribution_retriedRun (loads : ByteArray → Except Failure PyValue) :
    failureAttribution loads retriedRun "ada" "s" = .ok (some
      ⟨"s", "tool_failure", "implementer", ["1:tool.failed", "2:tool.finished"], []⟩) := by
  rfl

/-- No document is read. -/
def loadsNothing (_ : ByteArray) : Except Failure PyValue :=
  .error (.python "JSONDecodeError" "Expecting value: line 1 column 1 (char 0)")

theorem attributed_iff_retriedRun : ∃ trace,
    some ⟨"s", "tool_failure", "implementer", ["1:tool.failed", "2:tool.finished"], []⟩ =
        some trace ∧
      (Attributed loadsNothing retriedRun "ada" "s" trace ↔
        ((∃ ev ∈ retriedRun.eventsOf "s", (causeOf loadsNothing retriedRun "ada" ev).isSome) →
          ∃ last, (retriedRun.eventsOf "s").getLast? = some last ∧
            (causeOf loadsNothing retriedRun "ada" last).isSome)) :=
  attributed_iff orderedLog_retriedRun (failureAttribution_retriedRun loadsNothing)

/-- **A recovered failure is blamed**: the run went on after it. -/
theorem not_attributed : ¬∀ (loads : ByteArray → Except Failure PyValue) (L : Ledger)
    (scopeId streamId : String) (trace : FailureTrace), L.OrderedLog →
    failureAttribution loads L scopeId streamId = .ok (some trace) →
      Attributed loads L scopeId streamId trace := by
  intro hclaim
  have hattributed := hclaim loadsNothing retriedRun "ada" "s" _ orderedLog_retriedRun
    (failureAttribution_retriedRun loadsNothing)
  obtain ⟨last, hlast, hcause⟩ := hattributed.terminal (by decide)
  obtain rfl : toolEvent 2 "tool.finished" = last := Option.some.inj hlast
  exact absurd hcause (by decide)

end Improvement

end CyranoAgent
