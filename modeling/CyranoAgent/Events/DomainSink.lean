import CyranoAgent.Events.Catalogue
import CyranoAgent.Sqlite.Effect

/-!
# The event sink

`DomainSink` writes events to the ledger: what an authorised producer commits (`recordEvent`), what
a model says of itself (`recordUntrusted`), and a change of the domain together with its event
(`commitTransition`). The change is a function of the caller's and may write anything in the
database, so the state is the ledger beside the tables of the domain (`SharedDatabase`).
-/

namespace CyranoAgent

open Lib Lib.Action

/-- The database file: the ledger's tables, and those of the domain. -/
structure SharedDatabase (δ : Type) where
  ledger : Ledger
  domain : δ

/-- The event a call on the sink is about. -/
structure EventCall where
  scopeId : String
  streamId : String
  producer : String
  producerSeq : ℤ
  eventType : String
  payload : PayloadMapping

/-- `{**mapping, key: value}`. -/
def PyMapping.set (mapping : PyMapping) (key : String) (value : PyValue) : PyMapping :=
  if mapping.any fun entry => entry.1 = .str key then
    mapping.map fun entry => if entry.1 = .str key then (entry.1, value) else entry
  else mapping ++ [(.str key, value)]

/-- The exceptions below `sqlite3.Error`. -/
def isSqliteError : Failure → Bool
  | .cyrano _ _ => false
  | .python type _ => type ∈ ["Error", "InterfaceError", "DatabaseError", "DataError",
      "OperationalError", "IntegrityError", "InternalError", "ProgrammingError",
      "NotSupportedError"]

namespace DomainSink

section

variable (P : Primitives) (W : WordChars) (reprText : String → String)

/-- The observation `_write` asks the repository for. -/
def observation (call : EventCall) (payload : PyMapping) (observationKind : String) :
    Observation :=
  ⟨call.scopeId, call.streamId, call.producer, call.producerSeq,
    payload.set "event_type" (.str call.eventType), call.eventType, observationKind⟩

/-- `_write`. -/
def write (call : EventCall) (payload : PyMapping) (observationKind : String) :
    Op ℕ :=
  tryCatch (Repository.recordObservationIn P (observation call payload observationKind)) fun e =>
    if isSqliteError e then throw (.cyrano "EVENT_STORE_UNAVAILABLE" e.text) else throw e

/-- The checks before a trusted event is written, and the payload they clean. -/
def admitted (call : EventCall) : Except Failure PyMapping := do
  let _ ← authorizeEvent reprText call.eventType call.producer
  checkTypedPayload reprText call.eventType call.payload
  let (clean, redacted) ← redactEntries W 0 call.payload
  return if redacted then clean.set "redaction" (.str "applied") else clean

/-- `record_event`. -/
def recordEvent (call : EventCall) : Op ℕ := do
  let clean ← lift (admitted W reprText call)
  transaction (write P call clean "trusted")

/-- `record_untrusted`. -/
def recordUntrusted (call : EventCall) : Op ℕ := do
  let _ ← lift (specFor reprText call.eventType)
  let (clean, _) ← lift (redactEntries W 0 call.payload)
  transaction (write P call clean "self_report")

/-- Act on the ledger. -/
def onLedger {δ α : Type} : Op α → Action (SharedDatabase δ) Failure α :=
  zoom (·.ledger) fun ledger db => { db with ledger }

/-- `commit_transition`. -/
def commitTransition {δ : Type} (call : EventCall)
    (mutate : Action (SharedDatabase δ) Failure Unit) : Action (SharedDatabase δ) Failure ℕ := do
  let clean ← lift (admitted W reprText call)
  transaction do
    mutate
    onLedger (write P call clean "trusted")

end

/-! ### When an event is written -/

variable {P : Primitives} {W : WordChars} {reprText : String → String} {L L' : Ledger}
  {call : EventCall} {n : ℕ}

/-- **When an event is written**: as the observation it is, or as the one already there under its
producer sequence. -/
theorem write_eq_ok {payload : PyMapping} {observationKind : String} :
    (write P call payload observationKind).run L = (.ok n, L') ↔
      (Repository.Repeats P L (observation call payload observationKind) n ∧ L' = L) ∨
        ∃ eventId data,
          Repository.Recorded P L (observation call payload observationKind) eventId data ∧
            n = L.nextEventSeq ∧
            L' = L.observe (observation call payload observationKind) eventId data := by
  rw [← Repository.recordObservation_eq_ok, Repository.recordObservation, transaction_eq_ok, write]
  constructor
  · intro h
    refine eq_ok_of_reraise (fun e t => ?_) h
    by_cases he : isSqliteError e = true <;> simp [he]
  · exact run_tryCatch_ok

theorem recordEvent_eq_ok :
    (recordEvent P W reprText call).run L = (.ok n, L') ↔
      ∃ clean, admitted W reprText call = .ok clean ∧
        (write P call clean "trusted").run L = (.ok n, L') := by
  simp [recordEvent]

/-- When a transition commits: its mutation succeeded, and its event was written after it. -/
theorem commitTransition_eq_ok {δ : Type} {mutate : Action (SharedDatabase δ) Failure Unit}
    {db db' : SharedDatabase δ} :
    (commitTransition P W reprText call mutate).run db = (.ok n, db') ↔
      ∃ clean mid, admitted W reprText call = .ok clean ∧ mutate.run db = (.ok (), mid) ∧
        (write P call clean "trusted").run mid.ledger = (.ok n, db'.ledger) ∧
        db'.domain = mid.domain := by
  simp only [commitTransition, bind_eq_ok, lift_eq_ok, transaction_eq_ok, onLedger, run_zoom,
    Prod.mk.injEq]
  constructor
  · rintro ⟨clean, _, ⟨hclean, rfl⟩, _, mid, hmutate, hreply, rfl⟩
    exact ⟨clean, mid, hclean, hmutate, Prod.ext hreply rfl, rfl⟩
  · rintro ⟨clean, mid, hclean, hmutate, hwrite, hdomain⟩
    refine ⟨clean, db, ⟨hclean, rfl⟩, (), mid, hmutate, by rw [hwrite], ?_⟩
    rw [hwrite, ← hdomain]

/-- **A transition that raises changes nothing.** -/
theorem atomic_commitTransition {δ : Type} (mutate : Action (SharedDatabase δ) Failure Unit) :
    Atomic (commitTransition P W reprText call mutate) :=
  Atomic.bind (readOnly_lift _) fun _ => atomic_transaction _

end DomainSink

end CyranoAgent
