import CyranoAgent.Events.Metrics
import CyranoAgent.Sqlite.History

/-!
# Self-reports and what is decided from a stream

What a model says of itself is kept as an event of observation kind `self_report`. `SameResults`
compares what reconciliation, recovery and the metrics make of two streams, and
`SelfReportsIgnored` asks it of a stream and of every other that differs from it in self-reports
only. None of the three reads the observation kind of a row, so from every stream there is a next
self-report that changes all three (`not_selfReportsIgnored`).
-/

namespace CyranoAgent

open Lib Lib.Action DomainSink Metrics
open Query (EventRow Ending)

/-- The rows that are no self-reports. -/
def vouchedFor (rows : List EventRow) : List EventRow :=
  rows.filter fun row => row.observationKind ≠ "self_report"

/-- A query that yields the rows, whatever the scope and the stream. -/
def yielding (rows : List EventRow) : String → String → List EventRow × Ending :=
  fun _ _ => (rows, .returned)

section

variable {F : Type} (N : Numbers F) (P : Primitives) (W : WordChars) (reprText : String → String)

/-- What a recovery over the rows reports, or raises. -/
def recoveryOf (rows : List EventRow) (scopeId streamId : String)
    (remoteCheck : String → Except Failure (Option PyMapping)) (L : Ledger) :
    Except Failure RecoveryReport :=
  ((recoverOrphans N.toBuiltins P W reprText (yielding rows) scopeId streamId remoteCheck).run L).1

/-- Two streams have the same results: of reconciliation, of recovery into any ledger and with any
receipts, and of the metrics. -/
structure SameResults (rows rows' : List EventRow) : Prop where
  reconcile : reconcileAttempts N.toBuiltins rows = reconcileAttempts N.toBuiltins rows'
  recover : ∀ scopeId streamId remoteCheck L,
    recoveryOf N P W reprText rows scopeId streamId remoteCheck L =
      recoveryOf N P W reprText rows' scopeId streamId remoteCheck L
  reduce : reduceEvents N rows = reduceEvents N rows'

/-- Whatever self-reports are inserted into the stream or removed from it, the results are the
same. -/
def SelfReportsIgnored (rows : List EventRow) : Prop :=
  ∀ rows', vouchedFor rows' = vouchedFor rows → SameResults N P W reprText rows rows'

end

/-- A self-report that can come next in a stream: its sequence number is past those of the rows, and
its id and producer are new. -/
structure NextSelfReport (rows : List EventRow) (row : EventRow) : Prop where
  self_report : row.observationKind = "self_report"
  event_seq : ∀ r ∈ rows, r.eventSeq < row.eventSeq
  event_id : ∀ r ∈ rows, r.eventId ≠ row.eventId
  producer : ∀ r ∈ rows, r.producer ≠ row.producer

theorem NextSelfReport.vouchedFor_append {rows : List EventRow} {row : EventRow}
    (h : NextSelfReport rows row) : vouchedFor (rows ++ [row]) = vouchedFor rows := by
  simp [vouchedFor, h.self_report]

variable {F : Type} {N : Numbers F} {P : Primitives} {W : WordChars} {reprText : String → String}

/-- Some text is not among finitely many. -/
theorem exists_fresh (texts : List String) : ∃ s, s ∉ texts := by
  obtain ⟨s, hs⟩ := Infinite.exists_notMem_finset texts.toFinset
  exact ⟨s, fun hmem => hs (List.mem_toFinset.mpr hmem)⟩

/-- From every stream, a self-report can come next that starts an attempt no row has named. -/
theorem exists_startReport (B : Builtins) (rows : List EventRow) :
    ∃ row k, NextSelfReport rows row ∧ row.kind = "model.attempt_started" ∧
      attemptKey? B row.payload = some k ∧ k ∉ (pairing B rows).order := by
  obtain ⟨k, hk⟩ := exists_fresh ("" :: (pairing B rows).order)
  obtain ⟨eventId, hid⟩ := exists_fresh (rows.map (·.eventId))
  obtain ⟨producer, hproducer⟩ := exists_fresh (rows.map (·.producer))
  rw [List.mem_cons, not_or] at hk
  refine ⟨⟨(rows.map (·.eventSeq)).sum + 1, eventId, "", "model.attempt_started", producer, 0,
    "self_report", "", "", .dict [(.str "attempt_id", .str k)], ""⟩, k, ⟨rfl, ?_, ?_, ?_⟩, rfl, ?_,
    hk.2⟩
  · intro r hr
    exact Nat.lt_succ_of_le (List.single_le_sum (by simp) _ (List.mem_map_of_mem hr))
  · exact fun r hr heq => hid (List.mem_map.mpr ⟨r, hr, heq⟩)
  · exact fun r hr heq => hproducer (List.mem_map.mpr ⟨r, hr, heq⟩)
  · simp [attemptKey?, PyMapping.getD, PyMapping.get?, PyValue.truth, hk.1, B.text_str]

/-- Recoveries from different orphans do not return the same report. -/
theorem recoveryOf_ne {rows rows' : List EventRow} {k : String}
    (hk : k ∈ (reconcileAttempts N.toBuiltins rows').orphanAttemptIds)
    (hfresh : k ∉ (reconcileAttempts N.toBuiltins rows).orphanAttemptIds)
    {scopeId streamId : String} {remoteCheck : String → Except Failure (Option PyMapping)}
    {L : Ledger} {report : RecoveryReport}
    (h : recoveryOf N P W reprText rows scopeId streamId remoteCheck L = .ok report) :
    recoveryOf N P W reprText rows' scopeId streamId remoteCheck L ≠ .ok report := by
  have hreports {rows : List EventRow}
      (h : recoveryOf N P W reprText rows scopeId streamId remoteCheck L = .ok report) :
      k ∈ report.recoveredFinished ∨ k ∈ report.markedUnknown ↔
        k ∈ (reconcileAttempts N.toBuiltins rows).orphanAttemptIds := by
    obtain ⟨_, hread, hmem⟩ := mem_recoverOrphans (Prod.ext h rfl)
    obtain rfl := Except.ok.inj hread
    exact hmem k
  exact fun h' => hfresh ((hreports h).mp ((hreports h').mpr hk))

/-- **Self-reports decide**: from every stream, a self-report can come next that changes what
reconciliation reports, what any recovery reports that returned, and the metrics. -/
theorem not_selfReportsIgnored (N : Numbers F) (P : Primitives) (W : WordChars)
    (reprText : String → String) (rows : List EventRow) :
    ¬SelfReportsIgnored N P W reprText rows ∧ ∃ row, NextSelfReport rows row ∧
      reconcileAttempts N.toBuiltins (rows ++ [row]) ≠ reconcileAttempts N.toBuiltins rows ∧
      (∀ scopeId streamId remoteCheck L report,
        recoveryOf N P W reprText rows scopeId streamId remoteCheck L = .ok report →
          recoveryOf N P W reprText (rows ++ [row]) scopeId streamId remoteCheck L ≠ .ok report) ∧
      ∀ snapshot, reduceEvents N rows = .ok snapshot →
        reduceEvents N (rows ++ [row]) ≠ .ok snapshot := by
  obtain ⟨row, k, hnext, hkind, hkey, hfresh⟩ := exists_startReport N.toBuiltins rows
  have horphan := mem_orphanAttemptIds_append hkind hkey hfresh
  have hnone : k ∉ (reconcileAttempts N.toBuiltins rows).orphanAttemptIds :=
    fun hk => hfresh (mem_orphanAttemptIds.mp hk).1
  have hreconcile :
      reconcileAttempts N.toBuiltins (rows ++ [row]) ≠ reconcileAttempts N.toBuiltins rows :=
    fun heq => hnone (heq ▸ horphan)
  refine ⟨fun hlaw => hreconcile (hlaw _ hnext.vouchedFor_append).reconcile.symm, row, hnext,
    hreconcile, fun _ _ _ _ _ h => recoveryOf_ne horphan hnone h, fun snapshot h h' => ?_⟩
  -- both streams have the counts of one snapshot, and so as many rows
  have hlength := (length_of_reduceEvents h).symm.trans (length_of_reduceEvents h')
  simp at hlength

/-- The start of attempt `a`. -/
def startOfA : EventRow :=
  ⟨1, "e1", "s", "model.attempt_started", "native_observer", 1, "trusted", "", "",
    .dict [(.str "attempt_id", .str "a"), (.str "logical_request_id", .str "r"),
      (.str "is_retry", .bool false)], ""⟩

/-- A self-report that attempt `a` finished. -/
def claimOfA : EventRow :=
  ⟨2, "e2", "s", "model.finished", "model", 1, "self_report", "", "",
    .dict [(.str "attempt_id", .str "a"), (.str "logical_request_id", .str "r")], ""⟩

/-- Numbers where only the text of a string is looked at. -/
def plainNumbers : Numbers Unit where
  text := fun
    | .str s => s
    | _ => ""
  text_str _ := rfl
  otherTruth := true
  isDigit c := c.isDigit
  decimal c := if c.isDigit then some (c.toNat - '0'.toNat) else none
  isDigit_ascii _ _ := rfl
  decimal_ascii _ _ := rfl
  float _ := .ok ()
  sum _ := ()
  addOther _ _ := .ok .other
  reprText := id

/-- **A self-report closes an attempt**: behind the start of `a`, it makes it no orphan. -/
theorem selfReport_closes_attempt :
    ¬∀ (F : Type) (N : Numbers F) (P : Primitives) (W : WordChars) (reprText : String → String)
      (rows : List EventRow), SelfReportsIgnored N P W reprText rows := by
  intro hclaim
  have hsame := hclaim Unit plainNumbers .ascii .ascii id [startOfA] [startOfA, claimOfA] rfl
  have horphans :
      (reconcileAttempts plainNumbers.toBuiltins [startOfA]).orphanAttemptIds = ["a"] ∧
        (reconcileAttempts plainNumbers.toBuiltins [startOfA, claimOfA]).orphanAttemptIds = [] := by
    decide
  rw [hsame.reconcile, horphans.2] at horphans
  exact absurd horphans.1 (by decide)

end CyranoAgent
