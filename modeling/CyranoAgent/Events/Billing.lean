import CyranoAgent.Events.Reports
import CyranoAgent.Events.SelfReports

/-!
# Billing each attempt once

Two reports are of one call when they name one attempt, or carry one provider's id and attempt
number (`SameCall`). `reduceEvents` bills an attempt under the key of its first report, and nothing
a later report carries changes the key, so what it bills is the first leaf attempt of each key, with
the last usage reported of it (`settles_of_reduceEvents`).

`BillsOnce` asks of a stream that one attempt is billed for every call, and that nothing a report
gives is missing from the usage. This holds exactly of the streams whose attempts open under a key
for each call and whose billed attempts report everything last (`billsOnce_iff`). An id that comes
with the end of an attempt is late (`lateId_billed_twice`).
-/

namespace CyranoAgent

namespace Metrics

open Lib Planning Query

/-! ### Billing once -/

section

variable {F : Type} (N : Numbers F)

/-- The attempts that are billed, as their first reports: of each key the first leaf. -/
def billed (rs : List Report) : List Report :=
  firsts (fun r => billingKey N r.payload) [] ((openers N rs).filter (Report.leaf N))

/-- The usages that are billed. -/
def billedUsages (rs : List Report) : List PyMapping :=
  (billed N rs).map fun r => usageOf N rs (r.attemptId N)

/-- Two reports name one attempt, or carry one provider's id and attempt number. -/
def Linked (r r' : Report) : Prop :=
  r.attemptId N ≠ "" ∧ r.attemptId N = r'.attemptId N ∨
    ∃ call, r.call N = some call ∧ r'.call N = some call

/-- Two reports are of one call: leaf reports link them. -/
def SameCall (rs : List Report) : Report → Report → Prop :=
  Relation.EqvGen fun r r' => r ∈ leafReports N rs ∧ r' ∈ leafReports N rs ∧ Linked N r r'

/-- The fields of a usage whose values are added up. -/
def tokenFields : List String := ["input_tokens", "output_tokens", "cache_read", "cache_write"]

/-- A usage reports its cost, as a number or a text that is not blank. -/
def reportsCost (usage : PyMapping) : Bool :=
  let cost := usage.getD "cost_actual" .none
  match cost with
  | .bool _ | .int _ | .str _ => (N.text cost).toList.any (!isSpace ·)
  | _ => false

/-- A usage gives a cost: it reports one, or an estimate. -/
def givesCost (usage : PyMapping) : Bool :=
  reportsCost N usage || (usage.getD "cost_estimated" .none).isSome

/-- The second usage gives every token field that the first does, and a cost if the first does. -/
def Covered (usage usage' : PyMapping) : Prop :=
  (∀ field ∈ tokenFields,
    (usage.getD field .none).isSome = true → (usage'.getD field .none).isSome = true) ∧
  (givesCost N usage = true → givesCost N usage' = true)

/-- A snapshot bills the usages, each as one attempt. -/
structure Settles (usages : List PyMapping) (snapshot : MetricSnapshot F) : Prop where
  attempts : snapshot.physicalLlmAttempts = usages.length
  input : sumOptional N (usages.map (·.getD "input_tokens" .none)) = .ok snapshot.inputTokens
  output : sumOptional N (usages.map (·.getD "output_tokens" .none)) = .ok snapshot.outputTokens
  cacheRead : sumOptional N (usages.map (·.getD "cache_read" .none)) = .ok snapshot.cacheReadTokens
  cacheWrite :
    sumOptional N (usages.map (·.getD "cache_write" .none)) = .ok snapshot.cacheWriteTokens
  cost : ∃ s, usages.foldlM (Settlement.addCost N) {} = .ok s ∧
    snapshot.costActual = sumCosts N s.actual ∧ snapshot.costEstimated = sumCosts N s.estimated ∧
    snapshot.costUnknown = s.costUnknown
  unknown : snapshot.costUnknown = usages.countP fun usage => !givesCost N usage

/-- A report is counted in a billed attempt, the one of its attempt's key. -/
def CountedIn (rs : List Report) (r b : Report) : Prop :=
  b ∈ billed N rs ∧ billingKey N b.payload = keyOf N rs r

/-- **Each attempt is billed exactly once.** The stream is reduced, to what it is reduced to without
its duplicates; the snapshot bills the usages of the billed attempts; leaf reports are counted in
one billed attempt exactly when they are of one call; and the usage billed gives whatever a report
counted in it gives. -/
structure BillsOnce (rows : List EventRow) : Prop where
  reduced : ∃ snapshot, reduceEvents N rows = .ok snapshot ∧
    reduceEvents N (keptRows [] rows) = .ok { snapshot with duplicateEvents := 0 } ∧
    Settles N (billedUsages N (reports N rows)) snapshot
  counted : ∀ r ∈ leafReports N (reports N rows), ∃! b, CountedIn N (reports N rows) r b
  once : ∀ r ∈ leafReports N (reports N rows), ∀ r' ∈ leafReports N (reports N rows),
    (∃ b, CountedIn N (reports N rows) r b ∧ CountedIn N (reports N rows) r' b) ↔
      SameCall N (reports N rows) r r'
  usage : ∀ r ∈ leafReports N (reports N rows), ∀ usage, r.usage? = some usage →
    ∀ b, CountedIn N (reports N rows) r b →
      Covered N usage (usageOf N (reports N rows) (b.attemptId N))

/-! ### When each attempt is billed once -/

/-- The reduction of the stream raises nothing: the times are numbers or no digits, and the costs
and tokens of the billed usages can be summed. -/
structure Readable (rs : List Report) : Prop where
  time : ∀ r ∈ rs, ∃ ms, monotonicMs N r.time = .ok ms
  cost : ∀ usage ∈ billedUsages N rs, ∃ s : Settlement F, Settlement.addCost N {} usage = .ok s
  tokens : ∀ field ∈ tokenFields,
    ∃ total, sumOptional N ((billedUsages N rs).map (·.getD field .none)) = .ok total

/-- The keys that attempts open with tell the calls apart. -/
structure Keyed (rs : List Report) : Prop where
  /-- Attempts that report one provider's id and number have opened with one key. -/
  shared : ∀ r ∈ leafReports N rs, ∀ r' ∈ leafReports N rs, ∀ call,
    r.call N = some call → r'.call N = some call → keyOf N rs r = keyOf N rs r'
  /-- Attempts that open with one key are of one call. -/
  apart : ∀ o ∈ openers N rs, ∀ o' ∈ openers N rs, o.leaf N → o'.leaf N →
    billingKey N o.payload = billingKey N o'.payload → SameCall N rs o o'
  /-- Reports that name no attempt are of one call. -/
  unnamed : ∀ r ∈ leafReports N rs, r.attemptId N = "" → SameCall N rs r (opener N rs r)

/-- The last usage of the first leaf attempt of a key gives whatever is reported under the key. -/
def UsageKept (rs : List Report) : Prop :=
  ∀ b ∈ billed N rs, ∀ r ∈ leafReports N rs, keyOf N rs r = billingKey N b.payload →
    ∀ usage, r.usage? = some usage → Covered N usage (usageOf N rs (b.attemptId N))

end

/-! ### Settling the bills -/

section

variable {F : Type} {N : Numbers F} {s s' c c' : Settlement F} {usage : PyMapping}
  {as : List Attempt}

/-- Two settlements have the same costs. -/
def SameCosts (s c : Settlement F) : Prop :=
  s.actual = c.actual ∧ s.estimated = c.estimated ∧ s.costUnknown = c.costUnknown

theorem isSome_iff_ne_none {value : PyValue} : value.isSome = true ↔ value ≠ .none := by
  cases value <;> simp [PyValue.isSome]

/-- A usage adds what it reports, or else what it estimates, or else one unknown. -/
theorem Settlement.addCost_eq : s.addCost N usage =
    if reportsCost N usage then (N.float (usage.getD "cost_actual" .none)).map fun cost =>
      { s with actual := s.actual ++ [cost] }
    else if (usage.getD "cost_estimated" .none).isSome then
      (N.float (.str (N.text (usage.getD "cost_estimated" .none)))).map fun cost =>
        { s with estimated := s.estimated ++ [cost] }
    else .ok { s with costUnknown := s.costUnknown + 1 } := by
  change ite (reportsCost N usage) _ _ = _
  refine ite_congr rfl (fun _ => ?_) fun _ => ?_
  · cases N.float (usage.getD "cost_actual" .none) <;> rfl
  · split
    · next hnone => rw [hnone]; rfl
    · next hsome =>
      rw [if_pos]
      · cases N.float (.str (N.text (usage.getD "cost_estimated" .none))) <;> rfl
      · exact isSome_iff_ne_none.mpr hsome

/-- A cost is counted as unknown when the usage gives none. -/
theorem Settlement.addCost_unknown (h : s.addCost N usage = .ok s') :
    s'.costUnknown = s.costUnknown + if givesCost N usage then 0 else 1 := by
  rw [addCost_eq] at h
  split at h
  · next hreports =>
    obtain ⟨cost, -, rfl⟩ := except_map_eq_ok.mp h
    simp [givesCost, hreports]
  · next hreports =>
    split at h
    · next hestimate =>
      obtain ⟨cost, -, rfl⟩ := except_map_eq_ok.mp h
      simp [givesCost, hestimate]
    · next hestimate =>
      obtain rfl := Except.ok.inj h
      simp [givesCost, hreports, hestimate]

/-- A cost can be added to any settlement, or to none. -/
theorem Settlement.exists_addCost :
    (∃ s', s.addCost N usage = .ok s') ↔ ∃ c', c.addCost N usage = .ok c' := by
  simp only [addCost_eq]
  split
  · simp only [except_map_eq_ok]
    exact ⟨fun ⟨_, cost, h, _⟩ => ⟨_, cost, h, rfl⟩, fun ⟨_, cost, h, _⟩ => ⟨_, cost, h, rfl⟩⟩
  · split
    · simp only [except_map_eq_ok]
      exact ⟨fun ⟨_, cost, h, _⟩ => ⟨_, cost, h, rfl⟩, fun ⟨_, cost, h, _⟩ => ⟨_, cost, h, rfl⟩⟩
    · exact ⟨fun _ => ⟨_, rfl⟩, fun _ => ⟨_, rfl⟩⟩

/-- What a usage adds to the costs depends on the costs only. -/
theorem SameCosts.addCost (hsame : SameCosts s c) (h : s.addCost N usage = .ok s') :
    ∃ c', c.addCost N usage = .ok c' ∧ SameCosts s' c' := by
  obtain ⟨hactual, hestimated, hunknown⟩ := hsame
  rw [Settlement.addCost_eq] at h
  simp only [Settlement.addCost_eq]
  split
  · next hreports =>
    rw [if_pos hreports] at h
    obtain ⟨cost, hcost, rfl⟩ := except_map_eq_ok.mp h
    exact ⟨_, except_map_eq_ok.mpr ⟨cost, hcost, rfl⟩, by rw [← hactual], hestimated, hunknown⟩
  · next hreports =>
    rw [if_neg hreports] at h
    split
    · next hestimate =>
      rw [if_pos hestimate] at h
      obtain ⟨cost, hcost, rfl⟩ := except_map_eq_ok.mp h
      exact ⟨_, except_map_eq_ok.mpr ⟨cost, hcost, rfl⟩, hactual, by rw [← hestimated], hunknown⟩
    · next hestimate =>
      rw [if_neg hestimate] at h
      obtain rfl := Except.ok.inj h
      exact ⟨_, rfl, hactual, hestimated, by rw [← hunknown]⟩

variable (N) in
/-- The body of the second loop of `reduce_events`, for an attempt that is billed. -/
def Settlement.pay (s : Settlement F) (a : Attempt) : Except Failure (Settlement F) := do
  let s ← addCost N { s with
    billingSeen := a.billingKey :: s.billingSeen
    physical := s.physical + 1
    logicalIds := if a.logicalId = "" then s.logicalIds else s.logicalIds.insert a.logicalId
    retries := if a.isRetry then s.retries + 1 else s.retries
    unknownOutcome := if a.terminal = none ∨ a.errorClass = some "unknown_outcome" then
      s.unknownOutcome + 1 else s.unknownOutcome
    inputs := s.inputs ++ [a.usage.getD "input_tokens" .none]
    outputs := s.outputs ++ [a.usage.getD "output_tokens" .none]
    cacheRead := s.cacheRead ++ [a.usage.getD "cache_read" .none]
    cacheWrite := s.cacheWrite ++ [a.usage.getD "cache_write" .none] } a.usage
  return s.addTime a

theorem Settlement.attempt_eq {a : Attempt} :
    s.attempt N a =
      if a.leaf = true ∧ a.billingKey ∉ s.billingSeen then s.pay N a else .ok s := by
  rw [attempt, pay]
  by_cases hbilled : a.leaf = true ∧ a.billingKey ∉ s.billingSeen
  · rw [if_pos hbilled, if_neg (by simpa using hbilled)]
  · rw [if_neg hbilled, if_pos]
    · rfl
    · rcases hleaf : a.leaf
      · simp
      · simpa [hleaf] using hbilled

/-- Only the costs change where a cost is added. -/
theorem Settlement.addCost_frame (h : s.addCost N usage = .ok s') :
    s' = { s with
      actual := s'.actual, estimated := s'.estimated, costUnknown := s'.costUnknown } := by
  rw [addCost_eq] at h
  split at h
  · obtain ⟨cost, -, rfl⟩ := except_map_eq_ok.mp h
    rfl
  · split at h
    · obtain ⟨cost, -, rfl⟩ := except_map_eq_ok.mp h
      rfl
    · obtain rfl := Except.ok.inj h
      rfl

/-- Only the times change where a time is added. -/
theorem Settlement.addTime_frame {a : Attempt} :
    s.addTime a = { s with
      anomalies := (s.addTime a).anomalies, durations := (s.addTime a).durations } := by
  rw [addTime]
  split
  · rfl
  · split
    · split <;> rfl
    · rfl

variable (N) in
/-- Between two settlements the usages have been billed. -/
structure Settlement.Paid (s : Settlement F) (usages : List PyMapping) (s' : Settlement F) :
    Prop where
  physical : s'.physical = s.physical + usages.length
  inputs : s'.inputs = s.inputs ++ usages.map (·.getD "input_tokens" .none)
  outputs : s'.outputs = s.outputs ++ usages.map (·.getD "output_tokens" .none)
  cacheRead : s'.cacheRead = s.cacheRead ++ usages.map (·.getD "cache_read" .none)
  cacheWrite : s'.cacheWrite = s.cacheWrite ++ usages.map (·.getD "cache_write" .none)
  cost : ∀ c, SameCosts s c → ∃ c', usages.foldlM (addCost N) c = .ok c' ∧ SameCosts s' c'
  unknown : s'.costUnknown = s.costUnknown + usages.countP fun usage => !givesCost N usage

namespace Settlement

theorem pay_spec {a : Attempt} (h : s.pay N a = .ok s') :
    s'.billingSeen = a.billingKey :: s.billingSeen ∧ s.Paid N [a.usage] s' := by
  rw [pay, except_bind_eq_ok] at h
  obtain ⟨paid, hpaid, h⟩ := h
  obtain rfl := Except.ok.inj h
  have hframe := addCost_frame hpaid
  have hunknown := addCost_unknown hpaid
  rw [addTime_frame]
  refine ⟨by rw [hframe], by rw [hframe]; rfl, by rw [hframe]; rfl, by rw [hframe]; rfl,
    by rw [hframe]; rfl, by rw [hframe]; rfl, fun c hsame => ?_, ?_⟩
  · obtain ⟨c', hc', hsame'⟩ := SameCosts.addCost (by exact hsame) hpaid
    exact ⟨c', by rw [List.foldlM_cons, hc']; rfl, hsame'⟩
  · dsimp only at hunknown ⊢
    rw [hunknown, List.countP_singleton]
    cases givesCost N a.usage <;> rfl

theorem Paid.nil : s.Paid N [] s where
  physical := rfl
  inputs := (List.append_nil _).symm
  outputs := (List.append_nil _).symm
  cacheRead := (List.append_nil _).symm
  cacheWrite := (List.append_nil _).symm
  cost c hsame := ⟨c, rfl, hsame⟩
  unknown := rfl

theorem Paid.cons {mid : Settlement F} {usages : List PyMapping} (h : s.Paid N [usage] mid)
    (hrest : mid.Paid N usages s') : s.Paid N (usage :: usages) s' where
  physical := by
    rw [hrest.physical, h.physical]
    simp only [List.length_cons, List.length_nil]
    omega
  inputs := by rw [hrest.inputs, h.inputs, List.append_assoc]; rfl
  outputs := by rw [hrest.outputs, h.outputs, List.append_assoc]; rfl
  cacheRead := by rw [hrest.cacheRead, h.cacheRead, List.append_assoc]; rfl
  cacheWrite := by rw [hrest.cacheWrite, h.cacheWrite, List.append_assoc]; rfl
  cost c hsame := by
    obtain ⟨c', hc', hsame'⟩ := h.cost c hsame
    obtain ⟨c'', hc'', hsame''⟩ := hrest.cost c' hsame'
    exact ⟨c'', by rw [← List.singleton_append, List.foldlM_append, hc']; exact hc'', hsame''⟩
  unknown := by
    rw [hrest.unknown, h.unknown, Nat.add_assoc, ← List.countP_append, List.singleton_append]

/-- A run of billed attempts bills their usages. -/
theorem foldlM_pay (h : as.foldlM (pay N) s = .ok s') : s.Paid N (as.map (·.usage)) s' := by
  induction as generalizing s with
  | nil =>
    obtain rfl := Except.ok.inj h
    exact .nil
  | cons a as ih =>
    rw [List.foldlM_cons, except_bind_eq_ok] at h
    obtain ⟨mid, hmid, hrest⟩ := h
    exact (pay_spec hmid).2.cons (ih hrest)

/-- An attempt is billed when its cost is read. -/
theorem exists_pay {a : Attempt} :
    (∃ s', s.pay N a = .ok s') ↔ ∃ c : Settlement F, addCost N {} a.usage = .ok c := by
  rw [pay]
  simp only [except_bind_eq_ok]
  constructor
  · rintro ⟨_, paid, hpaid, -⟩
    exact exists_addCost.mp ⟨paid, hpaid⟩
  · intro h
    obtain ⟨paid, hpaid⟩ := exists_addCost.mpr h
    exact ⟨_, paid, hpaid, rfl⟩

/-- **The second loop bills the first leaf attempt of each key.** -/
theorem foldlM_attempt :
    as.foldlM (attempt N) s =
      (firsts (·.billingKey) s.billingSeen (as.filter (·.leaf))).foldlM (pay N) s := by
  induction as generalizing s with
  | nil => rfl
  | cons a as ih =>
    rw [List.foldlM_cons, attempt_eq]
    rcases hleaf : a.leaf
    · rw [if_neg (by simp), List.filter_cons_of_neg (by simp [hleaf])]
      exact ih
    · rw [List.filter_cons_of_pos (by simp [hleaf])]
      by_cases hseen : a.billingKey ∈ s.billingSeen
      · rw [if_neg (by simp [hseen]), firsts_cons_of_mem hseen]
        exact ih
      · rw [if_pos ⟨rfl, hseen⟩, firsts_cons_of_not_mem hseen, List.foldlM_cons]
        rcases hpay : s.pay N a with e | mid
        · rfl
        · refine ih.trans ?_
          rw [(pay_spec hpay).1]
          rfl

end Settlement

end

/-! ### What is billed of a stream -/

section

variable {F : Type} {N : Numbers F} {rows : List EventRow} {rs : List Report} {t : Tally}
  {snapshot : MetricSnapshot F} {total duplicates : ℕ}

/-- The attempts that are settled have the usages that are billed. -/
theorem map_usage_firsts (h : t.attempts.map Attempt.bill = billsOf N rs) :
    (firsts (·.billingKey) [] (t.attempts.filter (·.leaf))).map (·.usage) = billedUsages N rs := by
  have hattempts : (firsts (·.billingKey) [] (t.attempts.filter (·.leaf))).map (·.usage) =
      (firsts Bill.key [] ((t.attempts.map Attempt.bill).filter Bill.leaf)).map Bill.usage := by
    rw [List.filter_map, firsts_map, List.map_map]
    rfl
  rw [hattempts, h, billsOf, List.filter_map, firsts_map, List.map_map]
  rfl

/-- A tally is settled to a snapshot of the usages of its bills. -/
theorem settles_of_settle (hbills : t.attempts.map Attempt.bill = billsOf N rs)
    (h : settle N t total duplicates = .ok snapshot) :
    Settles N (billedUsages N rs) snapshot := by
  simp only [settle, Settlement.foldlM_attempt, except_bind_eq_ok] at h
  obtain ⟨s, hs, input, hinput, output, houtput, read, hread, write, hwrite, h⟩ := h
  obtain rfl := Except.ok.inj h
  have hpaid := Settlement.foldlM_pay hs
  rw [map_usage_firsts hbills] at hpaid
  obtain ⟨c, hc, hactual, hestimated, hunknown⟩ := hpaid.cost {} ⟨rfl, rfl, rfl⟩
  exact {
    attempts := hpaid.physical.trans (Nat.zero_add _)
    input := (congrArg (sumOptional N) hpaid.inputs).symm.trans hinput
    output := (congrArg (sumOptional N) hpaid.outputs).symm.trans houtput
    cacheRead := (congrArg (sumOptional N) hpaid.cacheRead).symm.trans hread
    cacheWrite := (congrArg (sumOptional N) hpaid.cacheWrite).symm.trans hwrite
    cost := ⟨c, hc, congrArg (sumCosts N) hactual, congrArg (sumCosts N) hestimated, hunknown⟩
    unknown := hpaid.unknown.trans (Nat.zero_add _) }

/-- A tally is settled when the costs and the tokens of its bills are read. -/
theorem exists_settle (hbills : t.attempts.map Attempt.bill = billsOf N rs) :
    (∃ snapshot, settle N t total duplicates = .ok snapshot) ↔
      (∀ usage ∈ billedUsages N rs, ∃ s : Settlement F, Settlement.addCost N {} usage = .ok s) ∧
      ∀ field ∈ tokenFields,
        ∃ total, sumOptional N ((billedUsages N rs).map (·.getD field .none)) = .ok total := by
  have hcosts : (∃ s, t.attempts.foldlM (Settlement.attempt N) {} = .ok s) ↔
      ∀ usage ∈ billedUsages N rs, ∃ s : Settlement F, Settlement.addCost N {} usage = .ok s := by
    have hpay : ∀ (a : Attempt) (s : Settlement F), (∃ s', s.pay N a = .ok s') ↔
        ∃ c : Settlement F, Settlement.addCost N {} a.usage = .ok c :=
      fun _ _ => Settlement.exists_pay
    rw [Settlement.foldlM_attempt, exists_foldlM_eq_ok fun a _ => hpay a,
      ← map_usage_firsts hbills]
    simp only [List.forall_mem_map]
  constructor
  · rintro ⟨snapshot, h⟩
    have hsettles := settles_of_settle hbills h
    rw [settle, except_bind_eq_ok] at h
    obtain ⟨s, hs, -⟩ := h
    refine ⟨hcosts.mp ⟨s, hs⟩, ?_⟩
    simp only [tokenFields, List.forall_mem_cons]
    exact ⟨⟨_, hsettles.input⟩, ⟨_, hsettles.output⟩, ⟨_, hsettles.cacheRead⟩,
      ⟨_, hsettles.cacheWrite⟩, fun _ h => absurd h List.not_mem_nil⟩
  · rintro ⟨hcost, htokens⟩
    obtain ⟨s, hs⟩ := hcosts.mpr hcost
    have hpaid := Settlement.foldlM_pay (Settlement.foldlM_attempt ▸ hs)
    simp only [tokenFields, List.forall_mem_cons] at htokens
    obtain ⟨⟨input, hinput⟩, ⟨output, houtput⟩, ⟨read, hread⟩, ⟨write, hwrite⟩, -⟩ := htokens
    rw [map_usage_firsts hbills] at hpaid
    simp only [settle, except_bind_eq_ok]
    exact ⟨_, s, hs, input, (congrArg (sumOptional N) hpaid.inputs).trans hinput, output,
      (congrArg (sumOptional N) hpaid.outputs).trans houtput, read,
      (congrArg (sumOptional N) hpaid.cacheRead).trans hread, write,
      (congrArg (sumOptional N) hpaid.cacheWrite).trans hwrite, rfl⟩

/-- **A stream is reduced** when its times, costs and tokens are read. -/
theorem exists_reduceEvents :
    (∃ snapshot, reduceEvents N rows = .ok snapshot) ↔ Readable N (reports N rows) := by
  rw [reduceEvents_eq]
  simp only [except_bind_eq_ok]
  constructor
  · rintro ⟨snapshot, t, ht, h⟩
    obtain ⟨hcost, htokens⟩ := (exists_settle (tally_bills ht)).mp ⟨snapshot, h⟩
    exact ⟨exists_tallyOf.mp ⟨t, ht⟩, hcost, htokens⟩
  · intro h
    obtain ⟨t, ht⟩ := exists_tallyOf.mpr h.time
    obtain ⟨snapshot, hsnapshot⟩ := (exists_settle (tally_bills ht)).mpr ⟨h.cost, h.tokens⟩
    exact ⟨snapshot, t, ht, hsnapshot⟩

/-- **The snapshot bills the usages** of the first leaf attempt of each key. -/
theorem settles_of_reduceEvents (h : reduceEvents N rows = .ok snapshot) :
    Settles N (billedUsages N (reports N rows)) snapshot := by
  rw [reduceEvents_eq, except_bind_eq_ok] at h
  obtain ⟨t, ht, h⟩ := h
  exact settles_of_settle (tally_bills ht) h

end

/-! ### Reports of one call -/

section

variable {F : Type} {N : Numbers F} {rows : List EventRow} {rs : List Report} {r r' o b : Report}

theorem opener_eq_of_attemptId_eq (hr : r ∈ rs) (h : r.attemptId N = r'.attemptId N) :
    opener N rs r = opener N rs r' := by
  have hfind : (rs.find? fun r'' => r''.attemptId N = r.attemptId N).isSome :=
    List.find?_isSome.mpr ⟨r, hr, by simp⟩
  obtain ⟨o, ho⟩ := Option.isSome_iff_exists.mp hfind
  rw [opener, opener, ← h, ho]
  rfl

/-- The first report of an attempt is its opener. -/
theorem opener_eq_self (ho : o ∈ openers N rs) : opener N rs o = o := by
  rw [opener, (mem_firsts_iff.mp ho).2]
  rfl

theorem opener_spec (hr : r ∈ rs) :
    opener N rs r ∈ openers N rs ∧ (opener N rs r).attemptId N = r.attemptId N := by
  obtain ⟨o, ho, hid⟩ := exists_opener hr
  rw [← opener_eq_of_attemptId_eq (mem_of_mem_firsts ho) hid, opener_eq_self ho]
  exact ⟨ho, hid⟩

theorem mem_leafReports : r ∈ leafReports N rs ↔ r ∈ rs ∧ (opener N rs r).leaf N = true :=
  List.mem_filter

/-- The opener of a leaf report is a leaf report. -/
theorem opener_mem_leafReports (hr : r ∈ leafReports N rs) :
    opener N rs r ∈ leafReports N rs := by
  obtain ⟨hmem, hleaf⟩ := mem_leafReports.mp hr
  have ho := (opener_spec (N := N) hmem).1
  exact mem_leafReports.mpr ⟨mem_of_mem_firsts ho, by rwa [opener_eq_self ho]⟩

/-- **Every leaf report is counted in one billed attempt.** -/
theorem existsUnique_countedIn (hr : r ∈ leafReports N rs) : ∃! b, CountedIn N rs r b := by
  obtain ⟨hmem, hleaf⟩ := mem_leafReports.mp hr
  have hbilled : ∃ b ∈ billed N rs, billingKey N b.payload = keyOf N rs r :=
    exists_mem_firsts (List.mem_filter.mpr ⟨(opener_spec hmem).1, hleaf⟩) List.not_mem_nil
  obtain ⟨b, hb, hkey⟩ := hbilled
  exact ⟨b, ⟨hb, hkey⟩, fun b' h => eq_of_mem_firsts h.1 hb (h.2.trans hkey.symm)⟩

/-- Leaf reports are counted in one billed attempt when their attempts open with one key. -/
theorem exists_countedIn_iff (hr : r ∈ leafReports N rs) :
    (∃ b, CountedIn N rs r b ∧ CountedIn N rs r' b) ↔ keyOf N rs r = keyOf N rs r' := by
  constructor
  · rintro ⟨b, h, h'⟩
    exact h.2.symm.trans h'.2
  · intro hkey
    obtain ⟨b, h, -⟩ := existsUnique_countedIn hr
    exact ⟨b, h, h.1, h.2.trans hkey⟩

/-- Reports of one call have attempts that open with one key, where shared calls do. -/
theorem Keyed.keyOf_eq (hkeyed : Keyed N rs) (h : SameCall N rs r r') :
    keyOf N rs r = keyOf N rs r' := by
  induction h with
  | rel r r' h =>
    obtain ⟨hr, hr', ⟨-, hid⟩ | ⟨call, hcall, hcall'⟩⟩ := h
    · rw [keyOf, keyOf, opener_eq_of_attemptId_eq (mem_leafReports.mp hr).1 hid]
    · exact hkeyed.shared r hr r' hr' call hcall hcall'
  | refl r => rfl
  | symm r r' _ ih => exact ih.symm
  | trans r r' r'' _ _ ih ih' => exact ih.trans ih'

/-- A leaf report is of the call of its opener, where unnamed ones are. -/
theorem Keyed.sameCall_opener (hkeyed : Keyed N rs) (hr : r ∈ leafReports N rs) :
    SameCall N rs r (opener N rs r) := by
  by_cases hid : r.attemptId N = ""
  · exact hkeyed.unnamed r hr hid
  · have hopener := (opener_spec (N := N) (mem_leafReports.mp hr).1).2
    exact .rel _ _ ⟨hr, opener_mem_leafReports hr, Or.inl ⟨hid, hopener.symm⟩⟩

/-- **The keys tell the calls apart** exactly when leaf reports have one key where they are of one
call. -/
theorem keyed_iff : Keyed N rs ↔ ∀ r ∈ leafReports N rs, ∀ r' ∈ leafReports N rs,
    (keyOf N rs r = keyOf N rs r' ↔ SameCall N rs r r') := by
  constructor
  · intro h r hr r' hr'
    refine ⟨fun hkey => ?_, h.keyOf_eq⟩
    obtain ⟨hmem, hleaf⟩ := mem_leafReports.mp hr
    obtain ⟨hmem', hleaf'⟩ := mem_leafReports.mp hr'
    have hopeners := h.apart _ (opener_spec hmem).1 _ (opener_spec hmem').1 hleaf hleaf' hkey
    exact ((h.sameCall_opener hr).trans _ _ _ hopeners).trans _ _ _
      ((h.sameCall_opener hr').symm _ _)
  · intro h
    refine ⟨fun r hr r' hr' call hcall hcall' => ?_, fun o ho o' ho' hleaf hleaf' hkey => ?_,
      fun r hr hid => ?_⟩
    · exact (h r hr r' hr').mpr (.rel _ _ ⟨hr, hr', Or.inr ⟨call, hcall, hcall'⟩⟩)
    · have hmem : ∀ o ∈ openers N rs, o.leaf N → o ∈ leafReports N rs := fun o ho hleaf =>
        mem_leafReports.mpr ⟨mem_of_mem_firsts ho, by rwa [opener_eq_self ho]⟩
      refine (h o (hmem o ho hleaf) o' (hmem o' ho' hleaf')).mp ?_
      rwa [keyOf, keyOf, opener_eq_self ho, opener_eq_self ho']
    · refine (h r hr _ (opener_mem_leafReports hr)).mp ?_
      rw [keyOf, keyOf, opener_eq_self (opener_spec (mem_leafReports.mp hr).1).1]

/-- **Each attempt is billed exactly once** exactly when the stream can be read, the keys that
attempts open with tell the calls apart, and the last usage of a billed attempt gives whatever is
reported under its key. -/
theorem billsOnce_iff :
    BillsOnce N rows ↔
      Readable N (reports N rows) ∧ Keyed N (reports N rows) ∧ UsageKept N (reports N rows) := by
  rw [keyed_iff, ← exists_reduceEvents]
  constructor
  · intro h
    obtain ⟨snapshot, hsnapshot, -⟩ := h.reduced
    refine ⟨⟨snapshot, hsnapshot⟩, fun r hr r' hr' => ?_, fun b hb r hr hkey usage husage => ?_⟩
    · rw [← exists_countedIn_iff hr]
      exact h.once r hr r' hr'
    · exact h.usage r hr usage husage b ⟨hb, hkey.symm⟩
  · rintro ⟨⟨snapshot, hsnapshot⟩, hkeyed, husage⟩
    refine ⟨⟨snapshot, hsnapshot, ?_, settles_of_reduceEvents hsnapshot⟩,
      fun r hr => existsUnique_countedIn hr, fun r hr r' hr' => ?_,
      fun r hr usage h b hb => husage b hb.1 r hr hb.2.symm usage h⟩
    · rw [reduceEvents_keptRows, hsnapshot]
      rfl
    · rw [exists_countedIn_iff hr]
      exact hkeyed r hr r' hr'

end

/-! ### An id that comes late -/

/-- The end of an attempt that carries the provider's id `p`. -/
def endPayload (attemptId : String) : PyMapping :=
  [(.str "attempt_id", .str attemptId), (.str "logical_request_id", .str "r"),
    (.str "provider_request_id", .str "p"), (.str "attempt_no", .int 0)]

/-- Attempt `a` starts without a provider's id; its end and that of attempt `b` carry `p`. -/
def lateId : List EventRow :=
  [startOfA,
    ⟨2, "e2", "s", "model.finished", "native_observer", 2, "trusted", "", "",
      .dict (endPayload "a"), ""⟩,
    ⟨3, "e3", "s", "model.finished", "native_observer", 3, "trusted", "", "",
      .dict (endPayload "b"), ""⟩]

/-- Numbers where the texts of strings and integers are looked at. -/
def decimalNumbers : Numbers Unit :=
  { plainNumbers with
    text := fun
      | .str s => s
      | .int n => toString n
      | _ => ""
    text_str := fun _ => rfl }

/-- **An id that comes late is billed twice**: the start of `a` has fixed its key. -/
theorem lateId_billed_twice :
    (reduceEvents decimalNumbers lateId).map (·.physicalLlmAttempts) = .ok 2 ∧
      ¬BillsOnce decimalNumbers lateId := by
  refine ⟨by decide, fun h => ?_⟩
  have hleaf : leafReports decimalNumbers (reports decimalNumbers lateId) =
      [⟨0, false, mappingOf startOfA.payload⟩, ⟨1, true, endPayload "a"⟩,
        ⟨2, true, endPayload "b"⟩] := rfl
  have ha : ⟨1, true, endPayload "a"⟩ ∈
      leafReports decimalNumbers (reports decimalNumbers lateId) := by
    rw [hleaf]
    simp
  have hb : ⟨2, true, endPayload "b"⟩ ∈
      leafReports decimalNumbers (reports decimalNumbers lateId) := by
    rw [hleaf]
    simp
  -- the ends of `a` and `b` are of one call, and their attempts open with two keys
  have hsame : SameCall decimalNumbers (reports decimalNumbers lateId) ⟨1, true, endPayload "a"⟩
      ⟨2, true, endPayload "b"⟩ :=
    .rel _ _ ⟨ha, hb, Or.inr ⟨("p", "0"), rfl, rfl⟩⟩
  have hkey := (exists_countedIn_iff ha).mp ((h.once _ ha _ hb).mpr hsame)
  exact absurd hkey (by decide)

end Metrics

end CyranoAgent
