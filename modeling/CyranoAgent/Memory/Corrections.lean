import CyranoAgent.Memory.ObligationCheck

/-!
# Correction ledgers

A `CorrectionTracker` keeps a ledger for each obligation: its first failure, the attempts to correct
it, and its outcome. A ledger that is settled, satisfied or corrected, is not written again.

`Follows` is what a ledger says about the reports that it was given: a settled one has seen a
satisfied report, and one that is not settled has seen and recorded only failures.
-/

namespace CyranoAgent

open Lib

namespace Memory

/-- `AttemptCost`. -/
structure AttemptCost where
  modelCalls : ℤ := 0
  tokens : ℤ := 0
  latencyMs : ℤ := 0
  retries : ℤ := 0
  units : ℤ := 0

/-- `CorrectionLedger.outcome`. -/
inductive LedgerOutcome
  | satisfied | «open» | corrected | budgetExhausted
  deriving DecidableEq, Repr

/-- `CorrectionLedger`. -/
structure CorrectionLedger where
  obligationId : String
  firstFailure : Option ObligationCheckReport
  attempts : List (ObligationCheckReport × AttemptCost)
  outcome : LedgerOutcome
  spentUnits : ℤ

/-- `CorrectionTracker`. -/
abbrev CorrectionTracker := Dict String CorrectionLedger

/-- The report is satisfied. -/
def ObligationCheckReport.Satisfied (report : ObligationCheckReport) : Prop :=
  report.verdict.state = .satisfied

instance (report : ObligationCheckReport) : Decidable report.Satisfied :=
  inferInstanceAs (Decidable (_ = _))

/-- `obligations_satisfied`. -/
def ObligationsSatisfied (reports : List ObligationCheckReport) : Prop :=
  ∀ report ∈ reports, report.Satisfied

instance (reports : List ObligationCheckReport) : Decidable (ObligationsSatisfied reports) :=
  inferInstanceAs (Decidable (∀ report ∈ reports, _))

/-- The text of an outcome. -/
def LedgerOutcome.text : LedgerOutcome → String
  | .satisfied => "satisfied"
  | .open => "open"
  | .corrected => "corrected"
  | .budgetExhausted => "budget_exhausted"

namespace CorrectionTracker

/-- `record_outcome`. -/
def recordOutcome (T : CorrectionTracker) (obligationId : String)
    (report : ObligationCheckReport) : CorrectionTracker :=
  match T.get? obligationId with
  | some _ => T
  | none =>
    if report.Satisfied then T.set obligationId ⟨obligationId, none, [], .satisfied, 0⟩
    else T.set obligationId ⟨obligationId, some report, [], .open, 0⟩

/-- `may_correct`. -/
def MayCorrect (T : CorrectionTracker) (obligationId : String) (costCap : Option ℤ) : Prop :=
  ∃ cap ∈ costCap, ∃ ledger ∈ T.get? obligationId,
    ledger.outcome = .open ∧ ledger.spentUnits < cap

instance (T : CorrectionTracker) (obligationId : String) (costCap : Option ℤ) :
    Decidable (MayCorrect T obligationId costCap) :=
  inferInstanceAs (Decidable (∃ cap ∈ costCap, _))

/-- A ledger after one more attempt. -/
def attempted (ledger : CorrectionLedger) (report : ObligationCheckReport) (cost : AttemptCost)
    (costCap : Option ℤ) : CorrectionLedger :=
  let spent := ledger.spentUnits + cost.units
  { ledger with
    attempts := ledger.attempts ++ [(report, cost)]
    outcome :=
      if report.Satisfied then .corrected
      else if costCap.getD 0 ≤ spent then .budgetExhausted
      else .open
    spentUnits := spent }

/-- `record_attempt`. -/
def recordAttempt (T : CorrectionTracker) (obligationId : String) (report : ObligationCheckReport)
    (cost : AttemptCost) (costCap : Option ℤ) : Except Failure CorrectionTracker :=
  match T.get? obligationId with
  | none => .error (.cyrano "INPUT_INVALID" ("no open failure for " ++ obligationId))
  | some ledger =>
    if ledger.outcome ∉ [.open, .budgetExhausted] then
      .error (.cyrano "INPUT_INVALID"
        ("ledger " ++ obligationId ++ " is " ++ ledger.outcome.text))
    else .ok (T.set obligationId (attempted ledger report cost costCap))

/-- `mark_exhausted`. -/
def markExhausted (T : CorrectionTracker) (obligationId : String) :
    Except Failure CorrectionTracker :=
  match T.get? obligationId with
  | none => .error (.cyrano "INPUT_INVALID" ("no open failure for " ++ obligationId))
  | some ledger =>
    if ledger.outcome = .open then
      .ok (T.set obligationId { ledger with outcome := .budgetExhausted })
    else .ok T

end CorrectionTracker

/-! ### What a ledger says about its reports -/

namespace CorrectionLedger

/-- The ledger says that the obligation is satisfied, or corrected. -/
def Settled (ledger : CorrectionLedger) : Prop :=
  ledger.outcome ∈ [.satisfied, .corrected]

instance (ledger : CorrectionLedger) : Decidable ledger.Settled :=
  inferInstanceAs (Decidable (_ ∈ _))

/-- The ledger records the failure: as its first one, or as that of an attempt. -/
def Records (ledger : CorrectionLedger) (failure : ObligationCheckReport) : Prop :=
  ledger.firstFailure = some failure ∨ failure ∈ ledger.attempts.map Prod.fst

/-- What a ledger says about the reports on its obligation. -/
structure Follows (ledger : CorrectionLedger) (reports : List ObligationCheckReport) : Prop where
  settled : ledger.Settled → ∃ report ∈ reports, report.Satisfied
  recorded : ¬ledger.Settled → ∀ report ∈ reports, ¬report.Satisfied ∧ ledger.Records report

variable {ledger : CorrectionLedger} {reports : List ObligationCheckReport}
  {report : ObligationCheckReport}

/-- A settled ledger does not look at a report. -/
theorem Follows.skip (h : ledger.Follows reports) (hsettled : ledger.Settled) :
    ledger.Follows (reports ++ [report]) where
  settled _ := by
    obtain ⟨before, hbefore, hsatisfied⟩ := h.settled hsettled
    exact ⟨before, List.mem_append_left _ hbefore, hsatisfied⟩
  recorded hopen := absurd hsettled hopen

/-- An attempt settles a ledger if its report is satisfied, and else is recorded. -/
theorem Follows.attempted (h : ledger.Follows reports) (hopen : ¬ledger.Settled)
    (cost : AttemptCost) (costCap : Option ℤ) :
    (CorrectionTracker.attempted ledger report cost costCap).Follows (reports ++ [report]) := by
  by_cases hsatisfied : report.Satisfied
  · refine ⟨fun _ => ⟨report, by simp, hsatisfied⟩, fun hother => absurd ?_ hother⟩
    simp [CorrectionTracker.attempted, Settled, hsatisfied]
  · have hstays : ¬(CorrectionTracker.attempted ledger report cost costCap).Settled := by
      simp only [CorrectionTracker.attempted, Settled, if_neg hsatisfied]
      split_ifs <;> decide
    refine ⟨fun hsettled => absurd hsettled hstays, fun _ failure hfailure => ?_⟩
    rcases List.mem_append.mp hfailure with hbefore | hlast
    · obtain ⟨hnot, hrecords⟩ := h.recorded hopen failure hbefore
      refine ⟨hnot, hrecords.imp id fun hmem => ?_⟩
      simp only [CorrectionTracker.attempted, List.map_append]
      exact List.mem_append_left _ hmem
    · obtain rfl := List.mem_singleton.mp hlast
      exact ⟨hsatisfied, .inr (by simp [CorrectionTracker.attempted])⟩

/-- A satisfied first report settles a ledger. -/
theorem follows_satisfied (obligationId : String) (hreport : report.Satisfied) :
    (CorrectionLedger.mk obligationId none [] .satisfied 0).Follows [report] where
  settled _ := ⟨report, List.mem_singleton_self _, hreport⟩
  recorded hother := absurd (by simp [Settled]) hother

/-- Another first report is the first failure of a ledger. -/
theorem follows_open (obligationId : String) (hreport : ¬report.Satisfied) :
    (CorrectionLedger.mk obligationId (some report) [] .open 0).Follows [report] where
  settled hsettled := absurd hsettled (by simp [Settled])
  recorded _ failure hfailure := by
    obtain rfl := List.mem_singleton.mp hfailure
    exact ⟨hreport, .inl rfl⟩

/-- A ledger that is not settled may be closed. -/
theorem Follows.exhausted (h : ledger.Follows reports) (hopen : ledger.outcome = .open) :
    CorrectionLedger.Follows { ledger with outcome := .budgetExhausted } reports where
  settled hsettled := absurd hsettled (by simp [Settled])
  recorded _ := h.recorded (by simp [Settled, hopen])

end CorrectionLedger

/-- The reports on an obligation. -/
def reportsOn (obligationId : String) (reports : List ObligationCheckReport) :
    List ObligationCheckReport :=
  reports.filter (·.obligationId = obligationId)

namespace CorrectionTracker

/-- What the ledgers say about the reports that they were given. -/
structure Follows (T : CorrectionTracker) (reports : List ObligationCheckReport) : Prop where
  unseen : ∀ obligationId, T.get? obligationId = none → reportsOn obligationId reports = []
  seen : ∀ obligationId ledger, T.get? obligationId = some ledger →
    ledger.Follows (reportsOn obligationId reports)

/-- What a report of an attempt does to the ledgers. -/
def recordReport (cost : AttemptCost) (costCap : String → Option ℤ) (T : CorrectionTracker)
    (report : ObligationCheckReport) : Except Failure CorrectionTracker :=
  match T.get? report.obligationId with
  | none => .ok (recordOutcome T report.obligationId report)
  | some ledger =>
    if ledger.outcome ∈ [.open, .budgetExhausted] then
      recordAttempt T report.obligationId report cost (costCap report.obligationId)
    else .ok T

variable {T T' : CorrectionTracker} {reports : List ObligationCheckReport}
  {report : ObligationCheckReport} {cost : AttemptCost} {costCap : String → Option ℤ}
  {obligationId : String}

theorem follows_nil : Follows ∅ [] where
  unseen _ _ := rfl
  seen _ _ h := by simp at h

/-- A report concerns the ledger of its obligation only. -/
theorem Follows.extend (h : T.Follows reports) {ledger : CorrectionLedger}
    (hself : T'.get? report.obligationId = some ledger)
    (hother : ∀ id ≠ report.obligationId, T'.get? id = T.get? id)
    (hledger : ledger.Follows (reportsOn report.obligationId reports ++ [report])) :
    T'.Follows (reports ++ [report]) := by
  have hon : ∀ id, reportsOn id (reports ++ [report]) =
      reportsOn id reports ++ if report.obligationId = id then [report] else [] := by
    intro id
    rw [reportsOn, reportsOn, List.filter_append, List.filter_singleton]
    by_cases hid : report.obligationId = id <;> simp [hid]
  refine ⟨fun id hnone => ?_, fun id ledger' hsome => ?_⟩
  · have hid : id ≠ report.obligationId := by
      rintro rfl
      simp [hself] at hnone
    rw [hon, h.unseen id (hother id hid ▸ hnone), if_neg (Ne.symm hid), List.append_nil]
  · by_cases hid : id = report.obligationId
    · subst hid
      obtain rfl : ledger = ledger' := by rwa [hself, Option.some.injEq] at hsome
      rw [hon, if_pos rfl]
      exact hledger
    · rw [hon, if_neg (Ne.symm hid), List.append_nil]
      exact h.seen id ledger' (hother id hid ▸ hsome)

theorem Follows.set (h : T.Follows reports) {ledger : CorrectionLedger}
    (hledger : ledger.Follows (reportsOn report.obligationId reports ++ [report])) :
    Follows (Dict.set T report.obligationId ledger) (reports ++ [report]) :=
  h.extend Dict.get?_set_self (fun _ hid => Dict.get?_set_of_ne hid) hledger

/-- **A report extends what the ledgers say.** -/
theorem Follows.record (h : T.Follows reports) (cost : AttemptCost) (costCap : String → Option ℤ)
    (report : ObligationCheckReport) :
    ∃ T', recordReport cost costCap T report = .ok T' ∧ T'.Follows (reports ++ [report]) := by
  rcases hget : T.get? report.obligationId with _ | ledger
  · have hnew : reportsOn report.obligationId reports = [] := h.unseen _ hget
    refine ⟨_, by rw [recordReport, hget], ?_⟩
    rw [recordOutcome, hget]
    dsimp only
    split_ifs with hsatisfied
    · exact h.set (by rw [hnew]; exact CorrectionLedger.follows_satisfied _ hsatisfied)
    · exact h.set (by rw [hnew]; exact CorrectionLedger.follows_open _ hsatisfied)
  · have hledger := h.seen _ ledger hget
    by_cases hopen : ledger.outcome ∈ [.open, .budgetExhausted]
    · have hnot : ¬ledger.Settled := by
        rcases houtcome : ledger.outcome <;>
          simp [CorrectionLedger.Settled, houtcome] at hopen ⊢
      refine ⟨_, ?_, h.set (hledger.attempted hnot cost (costCap report.obligationId))⟩
      rw [recordReport, hget]
      dsimp only
      rw [if_pos hopen, recordAttempt, hget]
      exact if_neg (not_not.mpr hopen)
    · have hsettled : ledger.Settled := by
        rcases houtcome : ledger.outcome <;>
          simp [CorrectionLedger.Settled, houtcome] at hopen ⊢
      refine ⟨T, ?_, ?_⟩
      · rw [recordReport, hget]
        exact if_neg hopen
      · exact h.extend hget (fun _ _ => rfl) (hledger.skip hsettled)

/-- The reports of an attempt extend it too. -/
theorem Follows.record_all (h : T.Follows reports) (cost : AttemptCost)
    (costCap : String → Option ℤ) (reports' : List ObligationCheckReport) :
    ∃ T', reports'.foldlM (recordReport cost costCap) T = .ok T' ∧
      T'.Follows (reports ++ reports') := by
  induction reports' generalizing T reports with
  | nil => exact ⟨T, rfl, by rwa [List.append_nil]⟩
  | cons report rest ih =>
    obtain ⟨T₁, hrecord, hfollows⟩ := h.record cost costCap report
    obtain ⟨T₂, hrest, hfollows⟩ := ih hfollows
    refine ⟨T₂, ?_, ?_⟩
    · rw [List.foldlM_cons, hrecord]
      exact hrest
    · rwa [List.append_assoc] at hfollows

/-- What becomes of the ledger of a report, when no correction may follow. -/
def closeLedger (T : CorrectionTracker) (report : ObligationCheckReport) :
    Except Failure CorrectionTracker :=
  match T.get? report.obligationId with
  | none => .ok T
  | some ledger =>
    if ledger.outcome = .open then markExhausted T report.obligationId else .ok T

/-- A closed ledger says what it said. -/
theorem Follows.close (h : T.Follows reports) (report : ObligationCheckReport) :
    ∃ T', closeLedger T report = .ok T' ∧ T'.Follows reports := by
  rw [closeLedger]
  rcases hget : T.get? report.obligationId with _ | ledger
  · exact ⟨T, rfl, h⟩
  by_cases hopen : ledger.outcome = .open
  · refine ⟨Dict.set T report.obligationId { ledger with outcome := .budgetExhausted }, ?_, ?_⟩
    · simp [markExhausted, hget, hopen]
    refine ⟨fun id hnone => ?_, fun id ledger' hsome => ?_⟩
    · rw [Dict.get?_set] at hnone
      split_ifs at hnone
      exact h.unseen id hnone
    · rw [Dict.get?_set] at hsome
      split_ifs at hsome with hid
      · subst hid
        obtain rfl := Option.some.inj hsome
        exact (h.seen _ ledger hget).exhausted hopen
      · exact h.seen id ledger' hsome
  · exact ⟨T, if_neg hopen, h⟩

/-- So do all that are closed. -/
theorem Follows.close_all (h : T.Follows reports) (unmet : List ObligationCheckReport) :
    ∃ T', unmet.foldlM closeLedger T = .ok T' ∧ T'.Follows reports := by
  induction unmet generalizing T with
  | nil => exact ⟨T, rfl, h⟩
  | cons report rest ih =>
    obtain ⟨T₁, hclose, hfollows⟩ := h.close report
    obtain ⟨T₂, hrest, hfollows⟩ := ih hfollows
    refine ⟨T₂, ?_, hfollows⟩
    rw [List.foldlM_cons, hclose]
    exact hrest

end CorrectionTracker

/-! ### Ledgers and verdicts -/

/-- The ledgers agree with the last reports: what is settled has a satisfied report, and a failure
has a ledger that records it. -/
structure LedgersAgree (obligations : List RuleObligation) (T : CorrectionTracker)
    (last : List ObligationCheckReport) : Prop where
  settled : ∀ o ∈ obligations, ∀ ledger ∈ T.get? o.obligationId, ledger.Settled →
    (∃ report ∈ last, report.obligationId = o.obligationId) ∧
      ∀ report ∈ last, report.obligationId = o.obligationId → report.Satisfied
  recorded : ∀ report ∈ last, ¬report.Satisfied →
    ∃ ledger ∈ T.get? report.obligationId, ledger.Records report

theorem mem_reportsOn_iff {obligationId : String} {reports : List ObligationCheckReport}
    {report : ObligationCheckReport} :
    report ∈ reportsOn obligationId reports ↔
      report ∈ reports ∧ report.obligationId = obligationId := by
  rw [reportsOn, List.mem_filter, decide_eq_true_eq]

/-- **When the ledgers agree**: when what fails in the last reports was never satisfied. -/
theorem CorrectionTracker.Follows.agree_iff {T : CorrectionTracker}
    {obligations : List RuleObligation} {reports last : List ObligationCheckReport}
    (h : T.Follows reports) (hlast : last ⊆ reports)
    (hnames : ∀ report ∈ last, ∃ o ∈ obligations, o.obligationId = report.obligationId)
    (hcovers : ∀ o ∈ obligations, reports ≠ [] →
      ∃ report ∈ last, report.obligationId = o.obligationId) :
    LedgersAgree obligations T last ↔
      ∀ report ∈ last, ¬report.Satisfied → ∀ earlier ∈ reports,
        earlier.obligationId = report.obligationId → ¬earlier.Satisfied := by
  constructor
  · intro hagree report hreport hfails earlier hearlier hid hsatisfied
    obtain ⟨ledger, hledger, -⟩ := hagree.recorded report hreport hfails
    have hfollows := h.seen _ ledger hledger
    by_cases hsettled : ledger.Settled
    · obtain ⟨o, ho, hname⟩ := hnames report hreport
      rw [← hname] at hledger
      exact hfails ((hagree.settled o ho ledger hledger hsettled).2 report hreport hname.symm)
    · have hmem := mem_reportsOn_iff.mpr ⟨hearlier, hid⟩
      exact (hfollows.recorded hsettled earlier hmem).1 hsatisfied
  · intro hnever
    refine ⟨fun o ho ledger hledger hsettled => ?_, fun report hreport hfails => ?_⟩
    · obtain ⟨earlier, hearlier, hsatisfied⟩ := (h.seen _ ledger hledger).settled hsettled
      obtain ⟨hearlier, hid⟩ := mem_reportsOn_iff.mp hearlier
      refine ⟨hcovers o ho (List.ne_nil_of_mem hearlier), fun report hreport hname => ?_⟩
      by_contra hfails
      exact hnever report hreport hfails earlier hearlier (hid.trans hname.symm) hsatisfied
    · have hmem : report ∈ reportsOn report.obligationId reports :=
        mem_reportsOn_iff.mpr ⟨hlast hreport, rfl⟩
      rcases hget : T.get? report.obligationId with _ | ledger
      · rw [h.unseen _ hget] at hmem
        cases hmem
      have hfollows := h.seen _ ledger hget
      by_cases hsettled : ledger.Settled
      · obtain ⟨earlier, hearlier, hsatisfied⟩ := hfollows.settled hsettled
        obtain ⟨hearlier, hid⟩ := mem_reportsOn_iff.mp hearlier
        exact absurd hsatisfied (hnever report hreport hfails earlier hearlier hid)
      · exact ⟨ledger, rfl, (hfollows.recorded hsettled report hmem).2⟩

end Memory

end CyranoAgent
