import CyranoAgent.Lib.Firsts
import CyranoAgent.Events.Metrics

/-!
# The reports of a stream

The starts and ends of a stream report attempts. The first loop of `reduceEvents` reads the rows
that are no duplicates (`reduceEvents_keptRows`), and of each attempt it keeps the billing key of
the first report and the usage of the last one that gives any (`tally_bills`).
-/

namespace CyranoAgent

namespace Metrics

open Lib Planning Query

/-! ### Reports -/

/-- The rows that are no duplicate of one before. -/
def keptRows (seen : List String) : List EventRow → List EventRow
  | [] => []
  | row :: rows =>
    if row.eventId ∈ seen then keptRows seen rows
    else row :: keptRows (if row.eventId = "" then seen else row.eventId :: seen) rows

/-- A report of an attempt: the start or the end of one, at a place of the stream. -/
structure Report where
  place : ℕ
  ends : Bool
  payload : PyMapping

section

variable {F : Type} (N : Numbers F)

namespace Report

/-- `str(payload.get("attempt_id", ""))`. -/
def attemptId (r : Report) : String := N.text (r.payload.getD "attempt_id" (.str ""))

/-- The provider's id and the attempt number, where the report carries an id. -/
def call (r : Report) : Option (String × String) :=
  match r.payload.getD "provider_request_id" .none with
  | .str providerId =>
    if providerId ≠ "" then some (providerId, N.text (r.payload.getD "attempt_no" (.int 0)))
    else none
  | _ => none

/-- The report is not only of an aggregate. -/
def leaf (r : Report) : Bool := !(r.payload.getD "aggregate_only" .none).truth N.toBuiltins

/-- The time the report gives. -/
def time (r : Report) : PyValue :=
  r.payload.getD (if r.ends then "finished_monotonic_ms" else "started_monotonic_ms") .none

/-- The usage an end reports. -/
def usage? (r : Report) : Option PyMapping :=
  if r.ends then
    match r.payload.getD "usage" .none with
    | .dict usage => some usage
    | _ => none
  else none

end Report

/-- The report a row makes: ends do, and starts of an attempt that has an id. -/
def reportOf (place : ℕ) (row : EventRow) : Option Report :=
  let start : Report := ⟨place, false, mappingOf row.payload⟩
  if row.kind = "model.attempt_started" then
    if start.attemptId N = "" then none else some start
  else if row.kind = "model.finished" ∨ row.kind = "model.failed" then
    some { start with ends := true }
  else none

/-- The reports of a stream. -/
def reports (rows : List EventRow) : List Report :=
  (keptRows [] rows).zipIdx.filterMap fun entry => reportOf N entry.2 entry.1

/-- The first report of the attempt a report names. -/
def opener (rs : List Report) (r : Report) : Report :=
  (rs.find? fun r' => r'.attemptId N = r.attemptId N).getD r

/-- The billing key of the attempt a report names, that of its first report. -/
def keyOf (rs : List Report) (r : Report) : String := billingKey N (opener N rs r).payload

/-- The reports of attempts that open as leaves. -/
def leafReports (rs : List Report) : List Report := rs.filter fun r => (opener N rs r).leaf N

/-- The first reports of the attempts. -/
def openers (rs : List Report) : List Report := firsts (Report.attemptId N) [] rs

/-- The usage reported last of an attempt. -/
def usageOf (rs : List Report) (attemptId : String) : PyMapping :=
  (((rs.filter fun r => r.attemptId N = attemptId).filterMap Report.usage?).getLast?).getD []

end

/-! ### The rows that are kept -/

section

variable {F : Type} {N : Numbers F} {rows : List EventRow} {seen : List String}

theorem length_keptRows : (keptRows seen rows).length ≤ rows.length := by
  induction rows generalizing seen with
  | nil => exact le_rfl
  | cons row rows ih =>
    rw [keptRows]
    split
    · exact ih.trans (Nat.le_succ _)
    · exact Nat.succ_le_succ ih

theorem keptRows_keptRows : keptRows seen (keptRows seen rows) = keptRows seen rows := by
  induction rows generalizing seen with
  | nil => rfl
  | cons row rows ih =>
    rw [keptRows]
    split
    · exact ih
    · next hrow => rw [keptRows, if_neg hrow, ih]

variable (N) in
/-- The loop of `reduce_events` over rows of which none is a duplicate. -/
def tallyOf (t : Tally) (rows : List EventRow) : Except Failure Tally :=
  rows.foldlM (fun t row => t.event N row.kind (mappingOf row.payload)) t

/-- The loop of `reduce_events` makes its tally of the rows it keeps. -/
theorem Reduction.foldlM_eq {r : Reduction} :
    (rows.foldlM (Reduction.step N) r).map (fun r' => (r'.tally, r'.total, r'.duplicates)) =
      (tallyOf N r.tally (keptRows r.seenIds rows)).map fun t =>
        (t, r.total + (keptRows r.seenIds rows).length,
          r.duplicates + (rows.length - (keptRows r.seenIds rows).length)) := by
  induction rows generalizing r with
  | nil => rfl
  | cons row rows ih =>
    have hlength : ∀ seen, (keptRows seen rows).length ≤ rows.length := fun _ => length_keptRows
    rw [List.foldlM_cons, keptRows, Reduction.step]
    split
    · refine (ih (r := { r with duplicates := r.duplicates + 1 })).trans ?_
      have hsub := Nat.succ_sub (hlength r.seenIds)
      simp only [List.length_cons, Nat.add_assoc, Nat.succ_eq_add_one] at hsub ⊢
      rw [hsub, Nat.add_comm 1]
    · rw [tallyOf, List.foldlM_cons]
      rcases r.tally.event N row.kind (mappingOf row.payload) with e | tally
      · rfl
      · refine (ih (r := ⟨if row.eventId = "" then r.seenIds else row.eventId :: r.seenIds,
          r.duplicates, r.total + 1, tally⟩)).trans ?_
        simp only [List.length_cons, Nat.add_sub_add_right, Nat.add_assoc, Nat.add_comm 1]
        rfl

variable (N) in
/-- What `reduce_events` makes of its tally. -/
def settle (t : Tally) (total duplicates : ℕ) : Except Failure (MetricSnapshot F) := do
  let s ← t.attempts.foldlM (Settlement.attempt N) {}
  return {
    logicalLlmRequests := s.logicalIds.length
    physicalLlmAttempts := s.physical
    llmRetryCount := s.retries
    attemptsUnknownOutcome := s.unknownOutcome
    toolCounts := t.toolCounts
    memoryCounts := t.memoryCounts
    learningCounts := t.learningCounts
    inputTokens := ← sumOptional N s.inputs
    outputTokens := ← sumOptional N s.outputs
    cacheReadTokens := ← sumOptional N s.cacheRead
    cacheWriteTokens := ← sumOptional N s.cacheWrite
    costActual := sumCosts N s.actual
    costEstimated := sumCosts N s.estimated
    costUnknown := s.costUnknown
    durationsMs := s.durations
    clockAnomalies := s.anomalies
    terminalStates := t.terminal
    coverageGaps := sortedStrings t.gaps.dedup
    totalEvents := total
    duplicateEvents := duplicates }

theorem reduceEvents_eq :
    reduceEvents N rows = tallyOf N {} (keptRows [] rows) >>= fun t =>
      settle N t (keptRows [] rows).length (rows.length - (keptRows [] rows).length) := by
  have hfold := @Reduction.foldlM_eq F N rows {}
  have hreduce : reduceEvents N rows =
      (rows.foldlM (Reduction.step N) {}).map (fun r => (r.tally, r.total, r.duplicates)) >>=
        fun x => settle N x.1 x.2.1 x.2.2 := by
    rw [reduceEvents]
    cases rows.foldlM (Reduction.step N) {} <;> rfl
  rw [hreduce, hfold]
  simp only [Nat.zero_add]
  cases tallyOf N {} (keptRows [] rows) <;> rfl

/-- **Duplicates change nothing**: without them a stream is reduced to the same counts, or raises
the same. -/
theorem reduceEvents_keptRows :
    reduceEvents N (keptRows [] rows) =
      (reduceEvents N rows).map fun snapshot => { snapshot with duplicateEvents := 0 } := by
  have hsettle : ∀ t total duplicates, settle N t total 0 =
      (settle N t total duplicates).map fun snapshot => { snapshot with duplicateEvents := 0 } := by
    intro t total duplicates
    change _ = _ <$> _
    simp only [settle, map_bind, map_pure]
  rw [reduceEvents_eq, reduceEvents_eq, keptRows_keptRows, Nat.sub_self]
  rcases tallyOf N {} (keptRows [] rows) with e | t
  · rfl
  · exact hsettle t _ _

end

/-! ### The attempts of the reports -/

/-- What is billed of an attempt. -/
structure Bill where
  attemptId : String
  key : String
  leaf : Bool
  usage : PyMapping

/-- What is billed of an attempt. -/
def Attempt.bill (a : Attempt) : Bill := ⟨a.attemptId, a.billingKey, a.leaf, a.usage⟩

section

variable {F : Type} (N : Numbers F)

/-- The first report of an attempt opens its bill, and every usage replaces the one before. -/
def Bill.report (bills : List Bill) (r : Report) : List Bill :=
  let opened := if bills.any (·.attemptId = r.attemptId N) then bills
    else bills ++ [⟨r.attemptId N, billingKey N r.payload, r.leaf N, []⟩]
  match r.usage? with
  | none => opened
  | some usage =>
    opened.map fun bill => if bill.attemptId = r.attemptId N then { bill with usage } else bill

/-- What is billed of the attempts of some reports. -/
def billsOf (rs : List Report) : List Bill :=
  (openers N rs).map fun o =>
    ⟨o.attemptId N, billingKey N o.payload, o.leaf N, usageOf N rs (o.attemptId N)⟩

end

section

variable {F : Type} {N : Numbers F} {rows : List EventRow} {row : EventRow} {place : ℕ}
  {t t' : Tally} {r : Report} {rs : List Report}

theorem Tally.onAttempt_bills {attemptId : String} {change : Attempt → Attempt}
    (h : ∀ a, (change a).bill = a.bill) :
    (t.onAttempt attemptId change).attempts.map Attempt.bill = t.attempts.map Attempt.bill := by
  rw [onAttempt, List.map_map]
  refine List.map_congr_left fun a _ => ?_
  rw [Function.comp_apply]
  split
  · exact h a
  · rfl

theorem Tally.readTime_bills {payload : PyMapping} {field reason attemptId : String}
    {put : ℤ → Attempt → Attempt} (h : t.readTime N payload field reason attemptId put = .ok t')
    (hput : ∀ ms a, (put ms a).bill = a.bill) :
    t'.attempts.map Attempt.bill = t.attempts.map Attempt.bill := by
  rw [readTime] at h
  split at h
  · rw [Except.ok.inj h]
  · obtain ⟨ms, -, rfl⟩ := except_map_eq_ok.mp h
    cases ms with
    | none => rfl
    | some ms => exact onAttempt_bills (hput ms)

/-- A time is read when it is one. -/
theorem Tally.exists_readTime {payload : PyMapping} {field reason attemptId : String}
    {put : ℤ → Attempt → Attempt} :
    (∃ t', t.readTime N payload field reason attemptId put = .ok t') ↔
      ∃ ms, monotonicMs N (payload.getD field .none) = .ok ms := by
  rw [readTime]
  split
  · next hnone => simp [hnone, monotonicMs]
  · simp only [except_map_eq_ok]
    exact ⟨fun ⟨_, ms, hms, _⟩ => ⟨ms, hms⟩, fun ⟨ms, hms⟩ => ⟨_, ms, hms, rfl⟩⟩

theorem Tally.ensure_bills {payload : PyMapping} {ends uncertain : Bool} :
    (t.ensure N (Report.attemptId N ⟨place, ends, payload⟩) payload uncertain).attempts.map
        Attempt.bill =
      if (t.attempts.map Attempt.bill).any (·.attemptId = Report.attemptId N ⟨place, ends, payload⟩)
      then t.attempts.map Attempt.bill
      else t.attempts.map Attempt.bill ++
        [⟨Report.attemptId N ⟨place, ends, payload⟩, billingKey N payload,
          Report.leaf N ⟨place, ends, payload⟩, []⟩] := by
  have hany : (t.attempts.map Attempt.bill).any
      (·.attemptId = Report.attemptId N ⟨place, ends, payload⟩) =
      t.attempts.any fun a => a.attemptId = Report.attemptId N ⟨place, ends, payload⟩ := by
    rw [List.any_map]
    rfl
  rw [hany, ensure]
  split
  · rfl
  · rw [List.map_append]
    rfl

theorem Tally.start_bills (place : ℕ) {payload : PyMapping} (h : t.start N payload = .ok t') :
    t'.attempts.map Attempt.bill =
      if Report.attemptId N ⟨place, false, payload⟩ = "" then t.attempts.map Attempt.bill
      else Bill.report N (t.attempts.map Attempt.bill) ⟨place, false, payload⟩ := by
  by_cases hempty : Report.attemptId N ⟨place, false, payload⟩ = ""
  · rw [start, if_pos (show N.text (payload.getD "attempt_id" (.str "")) = "" from hempty)] at h
    rw [← Except.ok.inj h, if_pos hempty]
    rfl
  · rw [start, if_neg (show N.text (payload.getD "attempt_id" (.str "")) ≠ "" from hempty)] at h
    rw [if_neg hempty, readTime_bills h fun _ _ => rfl]
    exact ensure_bills

/-- A usage is put into the bills of an attempt. -/
theorem Tally.onAttempt_usage {attemptId : String} {usage : PyMapping} :
    (t.onAttempt attemptId fun a => { a with usage }).attempts.map Attempt.bill =
      (t.attempts.map Attempt.bill).map fun bill =>
        if bill.attemptId = attemptId then { bill with usage } else bill := by
  rw [onAttempt, List.map_map, List.map_map]
  refine List.map_congr_left fun a _ => ?_
  rw [Function.comp_apply, Function.comp_apply]
  by_cases ha : a.attemptId = attemptId
  · rw [if_pos ha, if_pos (show a.bill.attemptId = attemptId from ha)]
    rfl
  · rw [if_neg ha, if_neg (show ¬a.bill.attemptId = attemptId from ha)]

theorem Tally.finish_bills {kind : String} {payload : PyMapping}
    (h : t.finish N kind payload = .ok t') :
    t'.attempts.map Attempt.bill =
      Bill.report N (t.attempts.map Attempt.bill) ⟨place, true, payload⟩ := by
  simp only [finish, except_bind_eq_ok] at h
  obtain ⟨timed, htimed, h⟩ := h
  have hensure : (t.ensure N (Report.attemptId N ⟨place, true, payload⟩) payload true).attempts.map
      Attempt.bill = _ := ensure_bills
  have hopened := (readTime_bills htimed fun _ _ => rfl).trans (onAttempt_bills fun _ => rfl)
  rw [Bill.report, ← hopened.trans hensure, Report.usage?, if_pos rfl]
  cases husage : payload.getD "usage" .none with
  | dict usage =>
    simp only [husage] at h ⊢
    rw [← Except.ok.inj h, onAttempt_usage]
    rfl
  | _ =>
    simp only [husage] at h ⊢
    rw [← Except.ok.inj h]

theorem Tally.exists_finish {kind : String} {payload : PyMapping} :
    (∃ t', t.finish N kind payload = .ok t') ↔
      ∃ ms, monotonicMs N (payload.getD "finished_monotonic_ms" .none) = .ok ms := by
  simp only [finish, except_bind_eq_ok]
  rw [exists_comm]
  simp only [exists_and_left]
  constructor
  · rintro ⟨timed, htimed, -⟩
    exact exists_readTime.mp ⟨timed, htimed⟩
  · intro h
    obtain ⟨timed, htimed⟩ := exists_readTime.mpr h
    refine ⟨timed, htimed, ?_⟩
    split
    · exact ⟨_, rfl⟩
    · exact ⟨_, rfl⟩

/-- What other rows do leaves the attempts. -/
theorem Tally.event_attempts (hstart : row.kind ≠ "model.attempt_started")
    (hend : ¬(row.kind = "model.finished" ∨ row.kind = "model.failed")) :
    ∃ t', t.event N row.kind (mappingOf row.payload) = .ok t' ∧ t'.attempts = t.attempts := by
  rw [event, if_neg hstart, if_neg hend]
  split_ifs
  all_goals exact ⟨_, rfl, rfl⟩

/-- A row that is a report is read into the bills, and another leaves them. -/
theorem Tally.event_bills (place : ℕ) (h : t.event N row.kind (mappingOf row.payload) = .ok t') :
    t'.attempts.map Attempt.bill =
      (reportOf N place row).elim (t.attempts.map Attempt.bill)
        (Bill.report N (t.attempts.map Attempt.bill)) := by
  by_cases hstart : row.kind = "model.attempt_started"
  · rw [event, if_pos hstart] at h
    rw [reportOf, if_pos hstart, start_bills place h]
    split <;> rfl
  · by_cases hend : row.kind = "model.finished" ∨ row.kind = "model.failed"
    · rw [event, if_neg hstart, if_pos hend] at h
      rw [reportOf, if_neg hstart, if_pos hend]
      exact finish_bills h
    · obtain ⟨tally, htally, hattempts⟩ := event_attempts (N := N) (t := t) hstart hend
      rw [reportOf, if_neg hstart, if_neg hend, ← Except.ok.inj (htally.symm.trans h), hattempts]
      rfl

/-- A row is read when the time of its report is. -/
theorem Tally.exists_event (place : ℕ) :
    (∃ t', t.event N row.kind (mappingOf row.payload) = .ok t') ↔
      ∀ r, reportOf N place row = some r → ∃ ms, monotonicMs N r.time = .ok ms := by
  by_cases hstart : row.kind = "model.attempt_started"
  · rw [event, if_pos hstart, reportOf, if_pos hstart, start]
    by_cases hempty : Report.attemptId N ⟨place, false, mappingOf row.payload⟩ = ""
    · rw [if_pos hempty, if_pos]
      · exact ⟨fun _ _ h => (nomatch h), fun _ => ⟨_, rfl⟩⟩
      · exact hempty
    · rw [if_neg hempty, if_neg, exists_readTime]
      · exact ⟨fun h _ hr => Option.some.inj hr ▸ h, fun h => h _ rfl⟩
      · exact hempty
  · by_cases hend : row.kind = "model.finished" ∨ row.kind = "model.failed"
    · rw [event, if_neg hstart, if_pos hend, reportOf, if_neg hstart, if_pos hend, exists_finish]
      exact ⟨fun h _ hr => Option.some.inj hr ▸ h, fun h => h _ rfl⟩
    · obtain ⟨tally, htally, -⟩ := event_attempts (N := N) (t := t) hstart hend
      rw [reportOf, if_neg hstart, if_neg hend]
      exact ⟨fun _ _ h => (nomatch h), fun _ => ⟨tally, htally⟩⟩

/-- The reports of rows are read into the bills in turn. -/
theorem tallyOf_bills (h : tallyOf N t rows = .ok t') {n : ℕ} :
    t'.attempts.map Attempt.bill =
      ((rows.zipIdx n).filterMap fun entry => reportOf N entry.2 entry.1).foldl (Bill.report N)
        (t.attempts.map Attempt.bill) := by
  induction rows generalizing t n with
  | nil => rw [← Except.ok.inj h, List.zipIdx_nil, List.filterMap_nil, List.foldl_nil]
  | cons row rows ih =>
    rw [tallyOf, List.foldlM_cons, except_bind_eq_ok] at h
    obtain ⟨mid, hmid, hrest⟩ := h
    rw [ih hrest, Tally.event_bills n hmid, List.zipIdx_cons, List.filterMap_cons]
    rcases reportOf N n row with - | r
    · rfl
    · rfl

/-- A stream is tallied when the times of its reports are read. -/
theorem exists_tallyOf {n : ℕ} :
    (∃ t', tallyOf N t rows = .ok t') ↔
      ∀ r ∈ (rows.zipIdx n).filterMap fun entry => reportOf N entry.2 entry.1,
        ∃ ms, monotonicMs N r.time = .ok ms := by
  induction rows generalizing t n with
  | nil => simp [tallyOf, pure, Except.pure]
  | cons row rows ih =>
    have hcons : (∃ t', tallyOf N t (row :: rows) = .ok t') ↔
        ∃ mid, t.event N row.kind (mappingOf row.payload) = .ok mid ∧
          ∃ t', tallyOf N mid rows = .ok t' := by
      simp only [tallyOf, List.foldlM_cons, except_bind_eq_ok]
      rw [exists_comm]
      simp only [exists_and_left]
    simp only [hcons, ih (n := n + 1), exists_and_right, Tally.exists_event n,
      List.zipIdx_cons, List.filterMap_cons]
    rcases reportOf N n row with - | r
    · simp
    · simp

theorem openers_append_singleton :
    openers N (rs ++ [r]) =
      if r.attemptId N ∈ rs.map (Report.attemptId N) then openers N rs
      else openers N rs ++ [r] := by
  rw [openers, firsts_append, List.append_nil, firsts]
  split
  · exact List.append_nil _
  · rfl

theorem usageOf_append_singleton {attemptId : String} :
    usageOf N (rs ++ [r]) attemptId =
      if r.attemptId N = attemptId then r.usage?.getD (usageOf N rs attemptId)
      else usageOf N rs attemptId := by
  rw [usageOf, List.filter_append, List.filterMap_append]
  by_cases hid : r.attemptId N = attemptId
  · rw [if_pos hid, List.filter_singleton, decide_eq_true hid, cond_true, List.filterMap_cons]
    rcases r.usage? with - | usage
    · simp [usageOf]
    · simp
  · rw [if_neg hid, List.filter_singleton, decide_eq_false hid, cond_false, List.filterMap_nil,
      List.append_nil, usageOf]

theorem usageOf_eq_nil {attemptId : String} (h : attemptId ∉ rs.map (Report.attemptId N)) :
    usageOf N rs attemptId = [] := by
  have hnone : (rs.filter fun r => r.attemptId N = attemptId) = [] := by
    rw [List.filter_eq_nil_iff]
    intro r hr hid
    exact h (List.mem_map.mpr ⟨r, hr, by simpa using hid⟩)
  rw [usageOf, hnone]
  rfl

theorem exists_opener (hr : r ∈ rs) : ∃ o ∈ openers N rs, o.attemptId N = r.attemptId N :=
  exists_mem_firsts hr List.not_mem_nil

/-- An attempt has a bill when a report names it. -/
theorem any_billsOf {attemptId : String} :
    (billsOf N rs).any (·.attemptId = attemptId) =
      decide (attemptId ∈ rs.map (Report.attemptId N)) := by
  rw [Bool.eq_iff_iff, decide_eq_true_iff, billsOf, List.any_map, List.any_eq_true, List.mem_map]
  simp only [Function.comp_apply, decide_eq_true_iff]
  constructor
  · rintro ⟨o, ho, hid⟩
    exact ⟨o, mem_of_mem_firsts ho, hid⟩
  · rintro ⟨r, hr, hid⟩
    obtain ⟨o, ho, hkey⟩ := exists_opener hr
    exact ⟨o, ho, hkey.trans hid⟩

/-- One report more is read into the bills. -/
theorem billsOf_append_singleton :
    billsOf N (rs ++ [r]) = Bill.report N (billsOf N rs) r := by
  have hopened : (if (billsOf N rs).any (·.attemptId = r.attemptId N) then billsOf N rs
      else billsOf N rs ++ [⟨r.attemptId N, billingKey N r.payload, r.leaf N, []⟩]) =
      (openers N (rs ++ [r])).map fun o =>
        ⟨o.attemptId N, billingKey N o.payload, o.leaf N, usageOf N rs (o.attemptId N)⟩ := by
    rw [any_billsOf, openers_append_singleton]
    by_cases hid : r.attemptId N ∈ rs.map (Report.attemptId N)
    · rw [if_pos hid, if_pos (decide_eq_true hid), billsOf]
    · rw [if_neg hid, if_neg (by simpa using hid), List.map_append, List.map_singleton,
        usageOf_eq_nil hid, billsOf]
  rw [Bill.report, hopened, billsOf]
  rcases husage : r.usage? with - | usage
  · refine List.map_congr_left fun o _ => ?_
    rw [usageOf_append_singleton, husage, Option.getD_none, ite_self]
  · dsimp only
    rw [List.map_map]
    refine List.map_congr_left fun o _ => ?_
    rw [usageOf_append_singleton, husage, Option.getD_some, Function.comp_apply]
    by_cases hid : r.attemptId N = o.attemptId N
    · rw [if_pos hid, if_pos hid.symm]
    · rw [if_neg hid, if_neg fun h => hid h.symm]

/-- **The bills of some reports**: of each attempt, the key it opens with and its last usage. -/
theorem foldl_report : rs.foldl (Bill.report N) [] = billsOf N rs := by
  induction rs using List.reverseRecOn with
  | nil => rfl
  | append_singleton rs r ih => rw [List.foldl_append, ih, billsOf_append_singleton]; rfl

/-- **The attempts of a stream** are those of its reports. -/
theorem tally_bills (h : tallyOf N {} (keptRows [] rows) = .ok t') :
    t'.attempts.map Attempt.bill = billsOf N (reports N rows) :=
  (tallyOf_bills h).trans foldl_report

end

end Metrics

end CyranoAgent
