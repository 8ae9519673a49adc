import CyranoAgent.Lib.Dict
import CyranoAgent.Lib.Outcome
import CyranoAgent.Monitor.Values
import Mathlib.Data.Finset.Insert
import Mathlib.Data.List.Sort

/-!
# The projection of a monitor

`MonitorProjection` takes in the events of one request, each of them once, and shows a summary and a
timeline of what it has. A dictionary that an event holds is taken with its keys as strings, which
is how it is read back; a lone surrogate is no character of a `String`.
-/

namespace CyranoAgent

open Lib

namespace Monitor

variable {F : Type}

/-- `ProjectionError`. -/
def projectionError (code : String) : Failure := .python "ProjectionError" code

/-! ### Taking events in -/

/-- A record: what the code reads of it, and all of it. -/
structure Row (F : Type) where
  eventId : String
  commitSeq : ℤ
  eventType : String
  payload : Dict String (Value F)
  event : Dict String (Value F)

/-- `MonitorProjection`. -/
structure Projection (F : Type) where
  workspaceId : String
  requestId : String
  generation : String
  maxEvents : ℤ := 10000
  records : Dict String (Row F) := ∅
  hashes : Dict String String := ∅
  cursor : ℤ := 0
  connected : Bool := false
  complete : Bool := false

/-- `members.get(name)`. -/
def get (members : Dict String (Value F)) (name : String) : Value F :=
  (members.get? name).getD .null

/-- The fields that an event must have. -/
def required : List String :=
  ["event_id", "commit_seq", "workspace_id", "request_id", "generation", "event_type", "payload"]

/-- `json.loads(json.dumps(members, sort_keys=True))`. -/
def reloaded (members : Dict String (Value F)) : Dict String (Value F) where
  entries := (members.map Value.sorted).entries.insertionSort fun a b => a.1 ≤ b.1
  nodup := (((List.perm_insertionSort _ _).map Prod.fst).nodup_iff).mpr (members.map _).nodup

section

variable (N : Floats F)

/-- The hash of the text of a record. -/
def Row.digest (row : Row F) : String :=
  Sha256.hexdigest (String.ofList (Value.text N (.obj row.event.entries))).toByteArray

/-- The checks of `ingest` that look at the event alone, and the record that it makes. -/
def Projection.read (P : Projection F) (event : Dict String (Value F)) :
    Except Failure (Row F) := do
  rejectIf (∃ name ∈ required, name ∉ event.keys) (projectionError "MISSING_EVENT_FIELD")
  match get event "workspace_id", get event "request_id", get event "generation" with
  | .str workspaceId, .str requestId, .str generation =>
    rejectIf (workspaceId ≠ P.workspaceId ∨ requestId ≠ P.requestId ∨ generation ≠ P.generation)
      (projectionError "SCOPE_OR_GENERATION_MISMATCH")
    match get event "commit_seq" with
    | .int commitSeq =>
      rejectIf (commitSeq < 1) (projectionError "INVALID_SEQUENCE")
      match get event "event_id" with
      | .str eventId =>
        rejectIf (eventId = "") (projectionError "INVALID_EVENT_ID")
        match get event "event_type" with
        | .str eventType =>
          rejectIf (eventType = "") (projectionError "INVALID_EVENT_TYPE")
          match get event "payload" with
          | .obj payload =>
            rejectIf (Value.dumpableMembers event.entries = false)
              (projectionError "INVALID_JSON_EVENT")
            return ⟨eventId, commitSeq, eventType, reloaded (.ofList payload), reloaded event⟩
          | _ => .error (projectionError "INVALID_PAYLOAD")
        | _ => .error (projectionError "INVALID_EVENT_TYPE")
      | _ => .error (projectionError "INVALID_EVENT_ID")
    | _ => .error (projectionError "INVALID_SEQUENCE")
  | _, _, _ => .error (projectionError "SCOPE_OR_GENERATION_MISMATCH")

/-- Whether `ingest` adds a record to those that the projection has. -/
def Projection.takes (P : Projection F) (row : Row F) : Except Failure Bool :=
  match P.hashes.get? row.eventId with
  | some digest => do
    rejectIf (digest ≠ row.digest N) (projectionError "EVENT_IDEMPOTENCY_CONFLICT")
    return false
  | none => do
    rejectIf (∃ row' ∈ P.records.values, row'.commitSeq = row.commitSeq)
      (projectionError "SEQUENCE_OWNERSHIP_CONFLICT")
    rejectIf (P.maxEvents ≤ P.records.entries.length) (projectionError "SNAPSHOT_REQUIRED")
    return true

/-- The projection with one more record. -/
def Projection.add (P : Projection F) (row : Row F) : Projection F :=
  { P with
    records := P.records.set row.eventId row
    hashes := P.hashes.set row.eventId (row.digest N)
    cursor := max P.cursor row.commitSeq }

/-- `ingest`: the reply, and the projection that it leaves. -/
def Projection.ingest (P : Projection F) (event : Dict String (Value F)) :
    Except Failure Bool × Projection F :=
  match P.read event with
  | .error failure => (.error failure, P)
  | .ok row =>
    match P.takes N row with
    | .error failure => (.error failure, P)
    | .ok false => (.ok false, P)
    | .ok true => (.ok true, P.add N row)

/-- Take events in, one after the other, whether or not each is accepted. -/
def Projection.ingestAll (P : Projection F) (events : List (Dict String (Value F))) :
    Projection F := events.foldl (fun P event => (P.ingest N event).2) P

/-! ### The summary -/

/-- What `summary` gathers. -/
structure Tally (F : Type) where
  calls : Dict (Value ℚ) (Dict String (Value F)) := ∅
  logical : Finset (Value ℚ) := ∅
  failures : List (Row F) := []
  memoryApplied : Finset (Value ℚ) := ∅
  candidates : Finset (Value ℚ) := ∅
  promoted : Finset (Value ℚ) := ∅

/-- What equal payloads have in common. -/
def payloadKey (payload : Dict String (Value F)) : Value ℚ :=
  (Value.obj payload.entries).key N

/-- Count the attempt of a record. -/
def Tally.attempt (t : Tally F) (row : Row F) : Except Failure (Tally F) :=
  if row.eventType = "model.attempt_started" then do
    let ident := get row.payload "attempt_id"
    let logicalId := get row.payload "logical_request_id"
    rejectIf (¬ident.truth N ∨ ¬logicalId.truth N ∨ ¬(get row.payload "is_retry").isBool)
      (projectionError "INVALID_ATTEMPT")
    let key ← ident.hashed N
    rejectIf (∃ old ∈ t.calls.get? key, payloadKey N old ≠ payloadKey N row.payload)
      (projectionError "ATTEMPT_BINDING_CONFLICT")
    let logicalKey ← logicalId.hashed N
    return { t with calls := t.calls.set key row.payload, logical := insert logicalKey t.logical }
  else .ok t

/-- Whether a record is a failure. -/
def Row.failed (row : Row F) : Except Failure Bool :=
  if ".failed".toList <:+ row.eventType.toList then .ok true
  else (Value.hashed N (get row.payload "outcome")).map fun outcome =>
    outcome = .str "failed" ∨ outcome = .str "error"

/-- The `application_id` as a member of a set. -/
def applied (payload : Dict String (Value F)) : Except Failure (Value ℚ) := do
  rejectIf (¬(get payload "application_id").truth N) (projectionError "MISSING_APPLICATION_ID")
  (get payload "application_id").hashed N

/-- `payload[name]` as a member of a set. -/
def demanded (payload : Dict String (Value F)) (name : String) : Except Failure (Value ℚ) :=
  match payload.get? name with
  | none => .error (.python "KeyError" ("'" ++ name ++ "'"))
  | some v => v.hashed N

/-- What a record adds to the set for a kind of events. -/
def Row.added (row : Row F) (kind : String) (key : Except Failure (Value ℚ)) :
    Except Failure (Finset (Value ℚ)) :=
  if row.eventType = kind then key.map fun key => {key} else .ok ∅

/-- The part of `summary` for one record. -/
def Tally.step (t : Tally F) (row : Row F) : Except Failure (Tally F) := do
  let t ← t.attempt N row
  let failed ← row.failed N
  let applications ← row.added "memory.applied" (applied N row.payload)
  let candidates ← row.added "learning.proposed" (demanded N row.payload "candidate_id")
  let releases ← row.added "release.promoted" (demanded N row.payload "release_digest")
  return { t with
    failures := t.failures ++ if failed then [row] else []
    memoryApplied := t.memoryApplied ∪ applications
    candidates := t.candidates ∪ candidates
    promoted := t.promoted ∪ releases }

/-- `min(rows, key=commit_seq, default=None)`. -/
def earliest : List (Row F) → Option (Row F)
  | [] => none
  | row :: rows =>
    match earliest rows with
    | none => some row
    | some other => if other.commitSeq < row.commitSeq then some other else some row

/-- What `summary` returns. -/
structure Summary (F : Type) where
  totalEvents : ℕ
  logicalRequestsObserved : ℕ
  physicalAttemptsObserved : ℕ
  retriesObserved : ℕ
  memoryApplicationsObserved : ℕ
  candidatesObserved : ℕ
  promotionsObserved : ℕ
  firstObservedFailure : Option (Dict String (Value F))
  cursor : ℤ
  connected : Bool
  coverage : String

/-- `summary`. -/
def Projection.summary (P : Projection F) : Except Failure (Summary F) := do
  let t ← P.records.values.foldlM (Tally.step N) {}
  return {
    totalEvents := P.records.entries.length
    logicalRequestsObserved := t.logical.card
    physicalAttemptsObserved := t.calls.entries.length
    retriesObserved := t.calls.values.countP fun payload => (get payload "is_retry").isTrue
    memoryApplicationsObserved := t.memoryApplied.card
    candidatesObserved := t.candidates.card
    promotionsObserved := t.promoted.card
    firstObservedFailure := (earliest t.failures).map Row.event
    cursor := P.cursor
    connected := P.connected
    coverage := if P.complete then "complete" else "partial_or_unknown" }

end

/-- `timeline`. -/
def Projection.timeline (P : Projection F) (limit : ℤ) :
    Except Failure (List (Dict String (Value F))) := do
  rejectIf (¬(1 ≤ limit ∧ limit ≤ 1000)) (projectionError "INVALID_PAGE_LIMIT")
  let rows := P.records.values.insertionSort fun a b => a.commitSeq ≤ b.commitSeq
  return (rows.drop (rows.length - limit.toNat)).map Row.event

end Monitor

end CyranoAgent
