import CyranoAgent.Events.DomainSink
import CyranoAgent.Events.Query

/-!
# Reconciling and recovering attempts

`reconcileAttempts` pairs the starts of attempts with their ends, over the rows of a stream and by
the attempt ids of their payloads. `recoverOrphans` asks for a receipt of each attempt that was
started and not finished, and records how it ended.

Which attempts a recovery reports on is what its rows leave open (`mem_recoverOrphans`).
-/

namespace CyranoAgent

open Lib Lib.Action
open Query (EventRow Ending)

/-- What the code takes from the language for the values of a payload. -/
structure Builtins where
  /-- `str(value)`. -/
  text : PyValue → String
  text_str : ∀ s, text (.str s) = s
  /-- `bool(value)` of an object of another type. -/
  otherTruth : Bool

/-- `bool(value)`. -/
def PyValue.truth (B : Builtins) : PyValue → Bool
  | .none => false
  | .bool b => b
  | .int n => n ≠ 0
  | .str s => s ≠ ""
  | .list items => !items.isEmpty
  | .dict entries => !entries.isEmpty
  | .other => B.otherTruth

/-- `payload.get(key, default)`. -/
def PyMapping.getD (payload : PyMapping) (key : String) (default : PyValue) : PyValue :=
  (payload.get? key).getD default

/-! ### Reconciliation -/

/-- `ReconcileReport`. -/
structure ReconcileReport where
  orphanAttemptIds : List String
  orderingUncertain : List String
  resolved : List String
  deriving DecidableEq

/-- What the loop of `reconcile_attempts` keeps: the ids in the order they came, and where each
was started and finished. -/
structure Pairing where
  started : String → Option ℕ
  finished : String → Option ℕ
  order : List String

section

variable (B : Builtins)

/-- The attempt a payload is about, if any. -/
def attemptKey? : PyValue → Option String
  | .dict payload =>
    let attemptId := PyMapping.getD payload "attempt_id" .none
    if attemptId.truth B then some (B.text attemptId) else none
  | _ => none

/-- The loop body of `reconcile_attempts`. -/
def Pairing.step (p : Pairing) (row : EventRow) : Pairing :=
  match attemptKey? B row.payload with
  | none => p
  | some key =>
    let p := { p with order := if key ∈ p.order then p.order else p.order ++ [key] }
    if row.kind = "model.attempt_started" then
      { p with started := Function.update p.started key (some row.eventSeq) }
    else if row.kind = "model.finished" ∨ row.kind = "model.failed" then
      { p with finished := Function.update p.finished key (some row.eventSeq) }
    else p

/-- The pairing of the rows of a stream. -/
def pairing (rows : List EventRow) : Pairing :=
  rows.foldl (Pairing.step B) ⟨fun _ => none, fun _ => none, []⟩

/-- `reconcile_attempts`. -/
def reconcileAttempts (rows : List EventRow) : ReconcileReport :=
  let p := pairing B rows
  { orphanAttemptIds := p.order.filter fun k => (p.started k).isSome && (p.finished k).isNone
    orderingUncertain := p.order.filter fun k =>
      (p.finished k).any fun ended => (p.started k).all fun start => ended < start
    resolved := p.order.filter fun k =>
      (p.started k).any fun start => (p.finished k).any fun ended => start ≤ ended }

end

namespace DomainSink

/-! ### Recovery -/

/-- `RecoveryReport`. -/
structure RecoveryReport where
  recoveredFinished : List String
  markedUnknown : List String
  deriving DecidableEq

/-- `next_producer_seq`. -/
def nextProducerSeq (L : Ledger) (producer : String) : ℤ :=
  match ((L.events.filter fun ev => ev.producer = producer).map (·.producerSeq)).max? with
  | some last => last + 1
  | none => 1

/-- The list of what a generator yields; it raises what the generator raises. -/
def collect : List EventRow × Ending → Except Failure (List EventRow)
  | (_, .raised e) => .error e
  | (rows, _) => .ok rows

/-- The receipt where it says that the attempt completed. -/
def completed? (receipt : Option PyMapping) : Option PyMapping :=
  receipt.filter fun entries =>
    match entries.get? "status" with
    | some (.str status) => status = "completed"
    | _ => false

section

variable (B : Builtins) (P : Primitives) (W : WordChars) (reprText : String → String)
  (query : String → String → List EventRow × Ending) (scopeId streamId : String)
  (remoteCheck : String → Except Failure (Option PyMapping))

/-- The event of an attempt whose receipt says that it completed. -/
def finishedCall (seq : ℤ) (attemptId : String) (receipt : PyMapping) : EventCall :=
  ⟨scopeId, streamId, "native_observer", seq, "model.finished",
    [(.str "attempt_id", .str attemptId),
      (.str "logical_request_id",
        .str (B.text (receipt.getD "logical_request_id" (.str "")))),
      (.str "recovered", .bool true), (.str "schema_family", .str "model")]⟩

/-- The event of an attempt whose outcome nobody knows. -/
def unknownCall (seq : ℤ) (attemptId : String) : EventCall :=
  ⟨scopeId, streamId, "native_observer", seq, "model.failed",
    [(.str "attempt_id", .str attemptId), (.str "logical_request_id", .str ""),
      (.str "error_class", .str "unknown_outcome"), (.str "recovered", .bool true),
      (.str "schema_family", .str "model")]⟩

/-- The loop body of `recover_orphans`: whether the attempt is recovered as finished. -/
def recoverOne (seq : ℤ) (attemptId : String) : Op Bool := do
  match completed? (← lift (remoteCheck attemptId)) with
  | some receipt =>
    let _ ← recordEvent P W reprText (finishedCall B scopeId streamId seq attemptId receipt)
    return true
  | none =>
    let _ ← recordEvent P W reprText (unknownCall scopeId streamId seq attemptId)
    return false

/-- The loop of `recover_orphans` over the orphans, from a producer sequence on. -/
def recoverEach (seq : ℤ) : List String → Op RecoveryReport
  | [] => pure ⟨[], []⟩
  | attemptId :: rest => do
    let finished ← recoverOne B P W reprText scopeId streamId remoteCheck seq attemptId
    let report ← recoverEach (seq + 1) rest
    return if finished then ⟨attemptId :: report.recoveredFinished, report.markedUnknown⟩
      else ⟨report.recoveredFinished, attemptId :: report.markedUnknown⟩

/-- `recover_orphans`. The query is what its `iter_events` yields for a scope and a stream. -/
def recoverOrphans : Op RecoveryReport := do
  let rows ← lift (collect (query scopeId streamId))
  let report := reconcileAttempts B rows
  let nextSeq := nextProducerSeq (← get) "native_observer"
  recoverEach B P W reprText scopeId streamId remoteCheck nextSeq report.orphanAttemptIds

end

end DomainSink

/-! ### Which attempts are orphans -/

variable {B : Builtins} {rows : List EventRow} {row : EventRow} {k : String}

theorem mem_orphanAttemptIds :
    k ∈ (reconcileAttempts B rows).orphanAttemptIds ↔
      k ∈ (pairing B rows).order ∧ ((pairing B rows).started k).isSome ∧
        (pairing B rows).finished k = none := by
  simp [reconcileAttempts]

/-- Every attempt that was finished is in the order. -/
def Pairing.Tracked (p : Pairing) : Prop := ∀ k, k ∉ p.order → p.finished k = none

/-- A row keeps the finished attempts in the order. -/
theorem Pairing.Tracked.step {p : Pairing} (hp : p.Tracked) (row : EventRow) :
    (p.step B row).Tracked := by
  rw [Pairing.step]
  split
  · exact hp
  · next key _ =>
    have horder (k : String)
        (hk : k ∉ if key ∈ p.order then p.order else p.order ++ [key]) :
        k ≠ key ∧ p.finished k = none := by
      split at hk
      · next hmem => exact ⟨fun heq => hk (heq ▸ hmem), hp k hk⟩
      · rw [List.mem_append, List.mem_singleton, not_or] at hk
        exact ⟨hk.2, hp k hk.1⟩
    dsimp only
    split
    · exact fun k hk => (horder k hk).2
    · split
      · intro k hk
        obtain ⟨hne, hnone⟩ := horder k hk
        exact (Function.update_of_ne hne _ _).trans hnone
      · exact fun k hk => (horder k hk).2

theorem tracked_pairing (rows : List EventRow) : (pairing B rows).Tracked := by
  refine List.foldlRecOn rows _ (motive := Pairing.Tracked) (fun _ _ => rfl) ?_
  exact fun p hp row _ => hp.step row

/-- **The start of an attempt no row has named** makes it an orphan. -/
theorem mem_orphanAttemptIds_append (hkind : row.kind = "model.attempt_started")
    (hkey : attemptKey? B row.payload = some k) (hfresh : k ∉ (pairing B rows).order) :
    k ∈ (reconcileAttempts B (rows ++ [row])).orphanAttemptIds := by
  have hpairing : pairing B (rows ++ [row]) = (pairing B rows).step B row := by
    rw [pairing, List.foldl_append]
    rfl
  have hnone := tracked_pairing rows k hfresh
  rw [mem_orphanAttemptIds, hpairing, Pairing.step, hkey]
  simp [hkind, hfresh, hnone]

namespace DomainSink

variable {P : Primitives} {W : WordChars} {reprText : String → String}
  {query : String → String → List EventRow × Ending} {scopeId streamId : String}
  {remoteCheck : String → Except Failure (Option PyMapping)} {L L' : Ledger}
  {report : RecoveryReport}

/-- The loop reports on each attempt it is given, and on no other. -/
theorem mem_recoverEach {seq : ℤ} {attemptIds : List String}
    (h : (recoverEach B P W reprText scopeId streamId remoteCheck seq attemptIds).run L =
      (.ok report, L')) :
    k ∈ report.recoveredFinished ∨ k ∈ report.markedUnknown ↔ k ∈ attemptIds := by
  induction attemptIds generalizing seq L report with
  | nil =>
    obtain ⟨rfl, -⟩ : report = ⟨[], []⟩ ∧ L' = L := by
      simpa [recoverEach, eq_comm] using h
    simp
  | cons attemptId rest ih =>
    rw [recoverEach, bind_eq_ok] at h
    obtain ⟨finished, mid, -, h⟩ := h
    obtain ⟨report', last, hrest, h⟩ := bind_eq_ok.mp h
    rw [run_pure, Prod.mk.injEq, Except.ok.injEq] at h
    obtain ⟨rfl, rfl⟩ := h
    rw [List.mem_cons, ← ih hrest]
    cases finished with
    | true => simp [or_assoc]
    | false => simp [or_left_comm]

/-- **The attempts a recovery reports on** are the orphans of the rows it read. -/
theorem mem_recoverOrphans (h : (recoverOrphans B P W reprText query scopeId streamId
    remoteCheck).run L = (.ok report, L')) :
    ∃ rows, collect (query scopeId streamId) = .ok rows ∧
      ∀ k, k ∈ report.recoveredFinished ∨ k ∈ report.markedUnknown ↔
        k ∈ (reconcileAttempts B rows).orphanAttemptIds := by
  rw [recoverOrphans, bind_eq_ok] at h
  obtain ⟨rows, mid, hrows, h⟩ := h
  obtain ⟨M, _, -, h⟩ := bind_eq_ok.mp h
  exact ⟨rows, (lift_eq_ok.mp hrows).1, fun k => mem_recoverEach h⟩

end DomainSink

end CyranoAgent
