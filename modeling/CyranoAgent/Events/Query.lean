import CyranoAgent.Sqlite.WellFormed

/-!
# Reading a stream's events

`ObservationQuery`: the rows of a stream after a cursor with their stored payloads
(`rows`), one bounded page of them (`getTimeline`), and the generator that pages through a
whole stream (`iterEvents`). Reads change nothing, so they are functions of the ledger.

A generator yields rows and then returns or raises; `iterPages` keeps both, and has a third
ending for a loop cut off by its fuel.
-/

namespace CyranoAgent

namespace Query

/-- `MAX_PAGE`. -/
def maxPage : ℤ := 500

/-- `EventRow`. -/
structure EventRow where
  eventSeq : ℕ
  eventId : String
  streamId : String
  kind : String
  producer : String
  producerSeq : ℤ
  observationKind : String
  observedAt : String
  ingestedAt : String
  payload : PyValue
  payloadDigest : String

/-- `Timeline`. -/
structure Timeline where
  events : List EventRow
  cursor : ℤ
  staleCursor : Bool
  complete : Bool

section

variable (P : Primitives) (L : Ledger)

/-- The payload of a row: empty when its body is not readable in the scope, and a marker when
the body does not decode. -/
def decodePayload (scopeId digest : String) : PyValue :=
  match Repository.readArtifact L scopeId digest with
  | none => .dict []
  | some body => (P.loads body).getD (.dict [(.str "unreadable", .bool true)])

/-- The `EventRow` of an event. -/
def eventRow (scopeId : String) (ev : Event) : EventRow :=
  ⟨ev.eventSeq, ev.eventId, ev.streamId, ev.kind, ev.producer, ev.producerSeq,
    ev.observationKind, ev.observedAt, ev.ingestedAt, decodePayload P L scopeId ev.payloadDigest,
    ev.payloadDigest⟩

/-- `_check_scope`. -/
def checkScope (scopeId streamId : String) : Except Failure Unit :=
  ((Repository.readScopedEntity scopeId streamId).run L).1.map fun _ => ()

/-- `_rows`. -/
def rows (scopeId streamId : String) (afterSeq : ℤ) : Except Failure (List EventRow) := do
  checkScope L scopeId streamId
  return (((L.eventsOf streamId).filter fun ev => afterSeq < ev.eventSeq).insertionSort
    fun ev ev' => ev.eventSeq ≤ ev'.eventSeq).map (eventRow P L scopeId)

/-- `_deny_unless_scope`. -/
def denyUnlessScope (scopeId streamId : String) : Except Failure Unit :=
  if (L.stream? streamId).map (·.scopeId) ≠ some scopeId then
    .error (.cyrano "SCOPE_DENIED" "unknown request")
  else .ok ()

/-- The loop of `get_timeline` that drops the rows of an event id it has `seen`. -/
def dedupe (seen : List String) : List EventRow → List EventRow
  | [] => []
  | row :: rest =>
    if row.eventId ∈ seen then dedupe seen rest else row :: dedupe (row.eventId :: seen) rest

/-- The retained window starts past the row after the cursor. -/
def staleAfter (streamId : String) (afterSeq : ℤ) : Bool :=
  ((L.eventsOf streamId).map (·.eventSeq)).min?.any fun first => afterSeq + 1 < first

/-- `get_timeline`. The cursor is the last row's of the whole answer, not of the page. -/
def getTimeline (scopeId streamId : String) (afterSeq limit : ℤ) : Except Failure Timeline := do
  if ¬(1 ≤ limit ∧ limit ≤ maxPage) then
    throw (.cyrano "INVALID_PAGE_LIMIT" "limit out of range")
  denyUnlessScope L scopeId streamId
  let deduped := dedupe [] (← rows P L scopeId streamId afterSeq)
  return {
    events := deduped.take limit.toNat
    cursor := (deduped.getLast?.map fun row => (row.eventSeq : ℤ)).getD afterSeq
    staleCursor := 0 < afterSeq ∧ deduped ≠ [] ∧ staleAfter L streamId afterSeq
    complete := deduped.length ≤ limit }

/-- `resume_stream`. -/
def resumeStream (scopeId streamId : String) (cursor : ℤ) : Except Failure Timeline :=
  getTimeline P L scopeId streamId cursor maxPage

/-- How a generator ends. -/
inductive Ending
  | returned
  | raised (e : Failure)
  | running

/-- The pages `iter_events` reads from a cursor on, at most `fuel` of them. -/
def iterPages (scopeId streamId : String) (pageSize : ℤ) : ℕ → ℤ → List EventRow × Ending
  | 0, _ => ([], .running)
  | fuel + 1, after =>
    match getTimeline P L scopeId streamId after pageSize with
    | .error e => ([], .raised e)
    | .ok page =>
      if page.complete then (page.events, .returned)
      else if page.cursor ≤ after then
        (page.events, .raised (.cyrano "CURSOR_STALLED" "timeline cursor did not advance"))
      else
        let rest := iterPages scopeId streamId pageSize fuel page.cursor
        (page.events ++ rest.1, rest.2)

/-- `iter_events`: what it yields, and how it ends. Every page but the last moves the cursor
past an event, which bounds the pages. -/
def iterEvents (scopeId streamId : String) (pageSize : ℤ) : List EventRow × Ending :=
  iterPages P L scopeId streamId pageSize ((L.eventsOf streamId).length + 1) 0

end

end Query

end CyranoAgent
