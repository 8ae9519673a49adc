import CyranoAgent.Events.Timeline
import CyranoAgent.Sqlite.Observations

/-!
# Exporting a stream

`export_bundle`: every row the generator yields is redacted again, compared with its stored
body, and collected with its digest. What masks the secrets of one text is a parameter; the
walk over a payload (`redactPayload`) is the source's.

An export holds the rows that `iter_events` yields, hence the whole stream exactly when one
page of the default size does (`exportBundle_eventIds`).
-/

namespace CyranoAgent

namespace Query

/-! ### Redaction -/

section

variable (redactText : String → String × Bool)

mutual

/-- `redact_payload` at a nesting depth. `other` stands for the floats of a decoded body. -/
def redactPayload (depth : ℕ) : PyValue → Except Failure (PyValue × Bool)
  | .str s =>
    if 16 < depth then .error (.cyrano "PAYLOAD_QUARANTINED" "payload too deep")
    else .ok (.str (redactText s).1, (redactText s).2)
  | .dict entries =>
    if 16 < depth then .error (.cyrano "PAYLOAD_QUARANTINED" "payload too deep")
    else (redactEntries (depth + 1) entries).map fun out => (.dict out.1, out.2)
  | .list items =>
    if 16 < depth then .error (.cyrano "PAYLOAD_QUARANTINED" "payload too deep")
    else (redactItems (depth + 1) items).map fun out => (.list out.1, out.2)
  | value =>
    if 16 < depth then .error (.cyrano "PAYLOAD_QUARANTINED" "payload too deep")
    else .ok (value, false)

/-- The loop over a list. -/
def redactItems (depth : ℕ) : List PyValue → Except Failure (List PyValue × Bool)
  | [] => .ok ([], false)
  | item :: items =>
    match redactPayload depth item with
    | .error e => .error e
    | .ok (cleaned, hit) =>
      (redactItems depth items).map fun out => (cleaned :: out.1, hit || out.2)

/-- The loop over a mapping. -/
def redactEntries (depth : ℕ) :
    List (PyKey × PyValue) → Except Failure (List (PyKey × PyValue) × Bool)
  | [] => .ok ([], false)
  | (.other, _) :: _ => .error (.cyrano "PAYLOAD_QUARANTINED" "non-string payload key")
  | (.str key, item) :: rest =>
    match redactPayload depth item with
    | .error e => .error e
    | .ok (cleaned, hit) =>
      (redactEntries depth rest).map fun out => ((.str key, cleaned) :: out.1, hit || out.2)

end

end

/-! ### Bundles -/

/-- One exported event. -/
structure BundleEvent where
  eventId : String
  eventSeq : ℕ
  kind : String
  producer : String
  observationKind : String
  payload : PyValue
  redacted : Bool

/-- The manifest `export_bundle` returns. -/
structure Bundle where
  streamId : String
  scopeId : String
  eventCount : ℕ
  events : List BundleEvent
  manifest : List (String × String)

/-- `dict(value)` of a decoded body. -/
def asDict : PyValue → Except Failure PyValue
  | .dict entries => .ok (.dict entries)
  | _ => .error (.python "TypeError" "object is not a mapping")

section

variable (P : Primitives) (redactText : String → String × Bool) (L : Ledger)

/-- The loop body of `export_bundle`. -/
def exportRow (scopeId : String) (row : EventRow) : Except Failure BundleEvent := do
  let (clean, redacted) ← redactPayload redactText 0 (← asDict row.payload)
  let encoded ← canonicalBytes P clean
  match Repository.readArtifact L scopeId row.payloadDigest with
  | none => .error (.cyrano "EVENT_PAYLOAD_MISSING" ("no stored body for " ++ row.eventId))
  | some body =>
    match P.loads body with
    | none => .error (.python "ValueError" "stored body does not decode")
    | some stored =>
      let (storedClean, _) ← redactPayload redactText 0 (← asDict stored)
      if (← canonicalBytes P storedClean) ≠ encoded then
        throw (.cyrano "EVENT_DIGEST_MISMATCH" ("payload drift on " ++ row.eventId))
      return ⟨row.eventId, row.eventSeq, row.kind, row.producer, row.observationKind, clean,
        redacted⟩

/-- The loop of `export_bundle` over the rows, skipping the event ids it has `seen`. -/
def exportRows (scopeId : String) :
    List String → List EventRow → Except Failure (List (BundleEvent × String))
  | _, [] => .ok []
  | seen, row :: rest =>
    if row.eventId ∈ seen then exportRows scopeId seen rest
    else do
      let event ← exportRow P redactText L scopeId row
      return (event, row.payloadDigest) :: (← exportRows scopeId (row.eventId :: seen) rest)

/-- `export_bundle`. -/
def exportBundle (scopeId streamId : String) : Except Failure Bundle := do
  let yielded := iterEvents P L scopeId streamId 500
  let collected ← exportRows P redactText L scopeId [] yielded.1
  match yielded.2 with
  | .raised e => .error e
  | _ =>
    return ⟨streamId, scopeId, collected.length, collected.map Prod.fst,
      collected.map fun entry => (entry.1.eventId, entry.2)⟩

end

variable {P : Primitives} {redactText : String → String × Bool} {L : Ledger}
  {scopeId streamId : String}

/-! ### What a bundle holds -/

theorem exportRow_eventId {row : EventRow} {event : BundleEvent}
    (h : exportRow P redactText L scopeId row = .ok event) :
    event.eventId = row.eventId ∧ event.eventSeq = row.eventSeq := by
  simp only [exportRow, Lib.except_bind_eq_ok] at h
  obtain ⟨_, -, ⟨clean, redacted⟩, -, encoded, -, h⟩ := h
  split at h
  · simp at h
  · split at h
    · simp at h
    · simp only [Lib.except_bind_eq_ok] at h
      obtain ⟨_, -, ⟨storedClean, _⟩, -, _, -, h⟩ := h
      split at h
      · change Except.error _ = Except.ok _ at h
        simp at h
      · obtain rfl := Except.ok.inj h
        exact ⟨rfl, rfl⟩

/-- An export of distinct, unseen rows holds them all, in their order. -/
theorem exportRows_eventIds {seen : List String} {rows : List EventRow}
    {collected : List (BundleEvent × String)} (hnodup : (rows.map (·.eventId)).Nodup)
    (hseen : ∀ row ∈ rows, row.eventId ∉ seen)
    (h : exportRows P redactText L scopeId seen rows = .ok collected) :
    collected.map (·.1.eventId) = rows.map (·.eventId) := by
  induction rows generalizing seen collected with
  | nil =>
    obtain rfl := Except.ok.inj h
    rfl
  | cons row rows ih =>
    rw [List.map_cons, List.nodup_cons] at hnodup
    rw [exportRows, if_neg (hseen row List.mem_cons_self)] at h
    simp only [Lib.except_bind_eq_ok] at h
    obtain ⟨event, hevent, rest, hrest, h⟩ := h
    obtain rfl := Except.ok.inj h
    have hseen' : ∀ row' ∈ rows, row'.eventId ∉ row.eventId :: seen := by
      intro row' hrow'
      rw [List.mem_cons, not_or]
      refine ⟨fun heq => hnodup.1 ?_, hseen row' (List.mem_cons_of_mem _ hrow')⟩
      exact heq ▸ List.mem_map_of_mem hrow'
    rw [List.map_cons, List.map_cons, ih hnodup.2 hseen' hrest, (exportRow_eventId hevent).1]

/-- **An export that returns holds the rows the generator yields.** -/
theorem exportBundle_eventIds (hL : L.OrderedLog) (howns : L.Owns scopeId streamId)
    {bundle : Bundle} (h : exportBundle P redactText L scopeId streamId = .ok bundle) :
    bundle.events.map (·.eventId) =
      ((allRows P L scopeId streamId).take 500).map (·.eventId) := by
  have hiter : iterEvents P L scopeId streamId 500 =
      ((allRows P L scopeId streamId).take 500, .returned) :=
    iterEvents_eq hL howns (by decide)
  have hnodup : (((allRows P L scopeId streamId).take 500).map (·.eventId)).Nodup := by
    have hids : (allRows P L scopeId streamId).map (·.eventId) =
        (L.eventsOf streamId).map (·.eventId) := by
      rw [allRows, commitOrder_eq hL, List.map_map]
      rfl
    rw [List.map_take, hids]
    exact (hL.event_ids.sublist (List.filter_sublist.map _)).sublist (List.take_sublist _ _)
  simp only [exportBundle, Lib.except_bind_eq_ok, hiter] at h
  obtain ⟨collected, hcollected, h⟩ := h
  obtain rfl := Except.ok.inj h
  rw [← exportRows_eventIds hnodup (by simp) hcollected, List.map_map]
  rfl

/-! ### Whole streams -/

/-- Iterating a stream yields every event once, in commit order. -/
def IteratesWhole (P : Primitives) (L : Ledger) (scopeId streamId : String)
    (pageSize : ℤ) : Prop :=
  iterEvents P L scopeId streamId pageSize = (allRows P L scopeId streamId, .returned)

/-- Polling a stream ends, with every event once and in commit order. -/
def PollsWhole (P : Primitives) (L : Ledger) (scopeId streamId : String)
    (pageSize : ℤ) : Prop :=
  ∃ pages, Polls P L scopeId streamId pageSize 0 pages ∧
    pages.flatMap (·.events) = allRows P L scopeId streamId

/-- A bundle holds every event of a stream. -/
def Bundle.HoldsWhole (bundle : Bundle) (L : Ledger) (streamId : String) : Prop :=
  ∀ ev ∈ L.eventsOf streamId, ev.eventId ∈ bundle.events.map (·.eventId)

variable {pageSize : ℤ} {h : List CallEntry}

/-- Polling ends in one way only, so it yields the whole stream when its first page does. -/
theorem pollsWhole_iff (hL : L.OrderedLog) (howns : L.Owns scopeId streamId)
    (hpage : 1 ≤ pageSize ∧ pageSize ≤ maxPage) :
    PollsWhole P L scopeId streamId pageSize ↔
      ((L.eventsOf streamId).length : ℤ) ≤ pageSize := by
  obtain ⟨pages, hpolls, hevents⟩ := exists_polls (P := P) hL howns hpage
  have htake : (allRows P L scopeId streamId).take pageSize.toNat = allRows P L scopeId streamId ↔
      ((L.eventsOf streamId).length : ℤ) ≤ pageSize := take_eq_allRows_iff hL hpage.1
  rw [← htake, ← hevents]
  constructor
  · rintro ⟨pages', hpolls', hevents'⟩
    rw [hpolls.unique hpolls', hevents']
  · exact fun hwhole => ⟨pages, hpolls, hwhole⟩

/-- A bundle holds the whole stream when the default page does. -/
theorem holdsWhole_iff (hL : L.OrderedLog) (howns : L.Owns scopeId streamId) {bundle : Bundle}
    (hbundle : exportBundle P redactText L scopeId streamId = .ok bundle) :
    bundle.HoldsWhole L streamId ↔ (L.eventsOf streamId).length ≤ 500 := by
  have hids := exportBundle_eventIds hL howns hbundle
  have hall : (allRows P L scopeId streamId).map (·.eventId) =
      (L.eventsOf streamId).map (·.eventId) := by
    rw [allRows, commitOrder_eq hL, List.map_map]
    rfl
  rw [List.map_take, hall] at hids
  rw [Bundle.HoldsWhole, hids]
  constructor
  · intro hholds
    have hnodup : ((L.eventsOf streamId).map (·.eventId)).Nodup :=
      hL.event_ids.sublist (List.filter_sublist.map _)
    have hsub : (L.eventsOf streamId).map (·.eventId) ⊆
        ((L.eventsOf streamId).map (·.eventId)).take 500 := by
      intro id hid
      obtain ⟨ev, hev, rfl⟩ := List.mem_map.mp hid
      exact hholds ev hev
    -- distinct ids cannot fit into a shorter prefix
    have hle := (List.subperm_of_subset hnodup hsub).length_le
    rw [List.length_take, List.length_map] at hle
    omega
  · intro hle ev hev
    rw [List.take_of_length_le (by simpa using hle)]
    exact List.mem_map_of_mem hev

/-- The ledger with two observations on stream `s`. -/
def probedLedger : Ledger :=
  (probeCall (probeCall acmeLedger (probeOn "s" 0)).after (probeOn "s" 1)).after

theorem history_probed : History .ascii (acmeHistory ++ [probeCall acmeLedger (probeOn "s" 0)] ++
    [probeCall (probeCall acmeLedger (probeOn "s" 0)).after (probeOn "s" 1)]) probedLedger := by
  have hrun := (history_acme.snoc (.recordObservation (probeOn "s" 0))).snoc
    (.recordObservation (probeOn "s" 1))
  exact hrun

end Query

end CyranoAgent
