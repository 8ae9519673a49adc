import CyranoAgent.Events.Recovery

/-!
# Reducing a stream to metrics

`reduceEvents` folds the rows of a stream into counters, leaving out the rows of an event id it has
seen, and then settles the attempts it met: those of one billing key are one physical call, and what
an attempt does not report stays unknown.

Digits, texts and floating-point numbers come from the language (`Numbers`). Every row is counted,
as an event or as a duplicate (`length_of_reduceEvents`).
-/

namespace CyranoAgent

open Planning Query

/-! ### Values -/

/-- What the code takes from the language for numbers, with floating-point numbers `F`. -/
structure Numbers (F : Type) extends Builtins where
  /-- `c.isdigit()`. -/
  isDigit : Char → Bool
  /-- The value of a decimal digit. -/
  decimal : Char → Option ℕ
  isDigit_ascii : ∀ c : Char, c.val < 128 → isDigit c = c.isDigit
  decimal_ascii : ∀ c : Char, c.val < 128 →
    decimal c = if c.isDigit then some (c.toNat - '0'.toNat) else none
  /-- `float(value)`. -/
  float : PyValue → Except Failure F
  /-- `sum(values)` of floats. -/
  sum : List F → F
  /-- `total + value` where one of them is of another type. -/
  addOther : PyValue → PyValue → Except Failure PyValue
  reprText : String → String

/-- `value` where `isinstance(value, int)`. -/
def PyValue.asInt : PyValue → Option ℤ
  | .bool b => some (if b then 1 else 0)
  | .int n => some n
  | _ => Option.none

/-- `type(value).__name__`. -/
def PyValue.typeName : PyValue → String
  | .none => "NoneType"
  | .bool _ => "bool"
  | .int _ => "int"
  | .str _ => "str"
  | .list _ => "list"
  | .dict _ => "dict"
  | .other => "object"

/-- `value is not None`. -/
def PyValue.isSome : PyValue → Bool
  | .none => false
  | _ => true

section

variable {F : Type} (N : Numbers F)

/-- `total + value`. -/
def PyValue.add (total value : PyValue) : Except Failure PyValue :=
  match total, value with
  | .other, _ | _, .other => N.addOther total value
  | _, _ =>
    match total.asInt, value.asInt with
    | some m, some n => .ok (.int (m + n))
    | _, _ => .error (.python "TypeError" ("unsupported operand type(s) for +: '" ++
        total.typeName ++ "' and '" ++ value.typeName ++ "'"))

/-- `_sum_optional`. -/
def sumOptional (values : List PyValue) : Except Failure PyValue :=
  match values.filter PyValue.isSome with
  | [] => .ok .none
  | known => known.foldlM (PyValue.add N) (.int 0)

/-- `int(text)` of a text of digits behind hyphens. -/
def intOfText (text : String) : Except Failure ℤ :=
  let (sign, digits) : ℤ × List Char :=
    match text.toList with
    | '-' :: digits => (-1, digits)
    | digits => (1, digits)
  match digits.mapM N.decimal with
  | none => .error (.python "ValueError"
      ("invalid literal for int() with base 10: " ++ N.reprText text))
  | some values =>
    if 4300 < values.length then
      .error (.python "ValueError" ("Exceeds the limit (4300 digits) for integer string " ++
        "conversion: value has " ++ toString values.length ++
        " digits; use sys.set_int_max_str_digits() to increase the limit"))
    else .ok (sign * Nat.ofDigits 10 values.reverse)

/-- `_monotonic_ms`. -/
def monotonicMs : PyValue → Except Failure (Option ℤ)
  | .int n => .ok (some n)
  | .str s =>
    let digits := s.toList.dropWhile (· = '-')
    if digits ≠ [] ∧ digits.all N.isDigit then (intOfText N s).map some else .ok none
  | _ => .ok none

/-- `_billing_key`. -/
def billingKey (payload : PyMapping) : String :=
  match payload.getD "provider_request_id" .none with
  | .str providerId =>
    if providerId ≠ "" then
      "provider:" ++ providerId ++ ":" ++ N.text (payload.getD "attempt_no" (.int 0))
    else "attempt:" ++ N.text (payload.getD "attempt_id" .none)
  | _ => "attempt:" ++ N.text (payload.getD "attempt_id" .none)

end

namespace Metrics

/-! ### Counting the rows -/

/-- `_Attempt`. -/
structure Attempt where
  attemptId : String
  logicalId : String
  isRetry : Bool
  billingKey : String
  leaf : Bool
  startedMs : Option ℤ := none
  finishedMs : Option ℤ := none
  terminal : Option String := none
  errorClass : Option String := none
  orderingUncertain : Bool := false
  usage : PyMapping := []

/-- Counts under names, in the order the names came. -/
abbrev Counts := List (String × ℕ)

/-- One more under a name that is there. -/
def Counts.countKnown (counts : Counts) (name : String) : Counts :=
  counts.map fun entry => if entry.1 = name then (entry.1, entry.2 + 1) else entry

/-- `counts[name] = counts.get(name, 0) + 1`. -/
def Counts.count (counts : Counts) (name : String) : Counts :=
  if counts.any fun entry => entry.1 = name then counts.countKnown name
  else counts ++ [(name, 1)]

/-- What the loop of `reduce_events` makes of the events, but for their number. -/
structure Tally where
  attempts : List Attempt := []
  toolCounts : Counts :=
    [("requested", 0), ("started", 0), ("finished", 0), ("denied", 0), ("failed", 0),
      ("unknown", 0)]
  memoryCounts : Counts :=
    [("queried", 0), ("selected", 0), ("injected", 0), ("referenced", 0), ("applied", 0),
      ("error", 0)]
  learningCounts : Counts :=
    [("proposed", 0), ("evaluated", 0), ("promoted", 0), ("revoked", 0)]
  terminal : Counts := []
  gaps : List String := []

/-- `kind.startswith(start)`. -/
def kindStarts (start kind : String) : Bool := start.toList.isPrefixOf kind.toList

/-- `kind.split(".", 1)[1]`. -/
def stageOf (kind : String) : String :=
  String.ofList ((kind.toList.dropWhile (· ≠ '.')).drop 1)

namespace Tally

/-- Change the attempt of an id. -/
def onAttempt (t : Tally) (attemptId : String) (change : Attempt → Attempt) : Tally :=
  { t with attempts := t.attempts.map fun attempt =>
      if attempt.attemptId = attemptId then change attempt else attempt }

/-- Add a gap. -/
def gap (t : Tally) (reason : String) : Tally := { t with gaps := t.gaps ++ [reason] }

section

variable {F : Type} (N : Numbers F)

/-- The attempt a payload brings up. -/
def newAttempt (attemptId : String) (payload : PyMapping) (orderingUncertain : Bool) : Attempt where
  attemptId
  logicalId := N.text (payload.getD "logical_request_id" (.str ""))
  isRetry := (payload.getD "is_retry" .none).truth N.toBuiltins
  billingKey := CyranoAgent.billingKey N payload
  leaf := !(payload.getD "aggregate_only" .none).truth N.toBuiltins
  orderingUncertain

/-- `attempts.get(attempt_id)`, and a new attempt where there is none. -/
def ensure (t : Tally) (attemptId : String) (payload : PyMapping) (orderingUncertain : Bool) :
    Tally :=
  if t.attempts.any fun attempt => attempt.attemptId = attemptId then t
  else { t with attempts := t.attempts ++ [newAttempt N attemptId payload orderingUncertain] }

/-- Read a time of a payload into an attempt, or add a gap. -/
def readTime (t : Tally) (payload : PyMapping) (field reason attemptId : String)
    (put : ℤ → Attempt → Attempt) : Except Failure Tally :=
  match payload.getD field .none with
  | .none => .ok t
  | raw => (monotonicMs N raw).map fun
    | none => t.gap reason
    | some ms => t.onAttempt attemptId (put ms)

/-- The branch of a `model.attempt_started`. -/
def start (t : Tally) (payload : PyMapping) : Except Failure Tally :=
  let attemptId := N.text (payload.getD "attempt_id" (.str ""))
  if attemptId = "" then .ok (t.gap "model.attempt_started:missing_id")
  else
    (t.ensure N attemptId payload false).readTime N payload "started_monotonic_ms"
      "model.attempt_started:bad_monotonic_ms" attemptId
      fun ms attempt => { attempt with startedMs := some ms }

/-- The branch of a `model.finished` or `model.failed`. -/
def finish (t : Tally) (kind : String) (payload : PyMapping) : Except Failure Tally := do
  let attemptId := N.text (payload.getD "attempt_id" (.str ""))
  let t := (t.ensure N attemptId payload true).onAttempt attemptId fun attempt =>
    { attempt with
      terminal := some (if kind = "model.failed" then "failed" else "finished")
      errorClass := match payload.getD "error_class" .none with
        | .none => attempt.errorClass
        | errorClass => some (N.text errorClass) }
  let t ← t.readTime N payload "finished_monotonic_ms" "model.attempt_finished:bad_monotonic_ms"
    attemptId fun ms attempt => { attempt with finishedMs := some ms }
  match payload.getD "usage" .none with
  | .dict usage => return t.onAttempt attemptId fun attempt => { attempt with usage }
  | _ => return t

/-- The branches of the loop of `reduce_events` over the kinds of an event. -/
def event (t : Tally) (kind : String) (payload : PyMapping) : Except Failure Tally :=
  if kind = "model.attempt_started" then t.start N payload
  else if kind = "model.finished" ∨ kind = "model.failed" then t.finish N kind payload
  else if kindStarts "tool." kind then
    .ok { t with toolCounts := t.toolCounts.countKnown (stageOf kind) }
  else if kindStarts "memory." kind then
    .ok { t with memoryCounts := t.memoryCounts.countKnown (stageOf kind) }
  else if kindStarts "learning." kind ∨ kind = "release.promoted" ∨
      kind = "release.rolled_back" then
    .ok { t with learningCounts := t.learningCounts.count (stageOf kind) }
  else if kind = "telemetry.gap" then
    .ok (t.gap ("telemetry.gap:" ++ N.text (payload.getD "reason" (.str "unknown"))))
  else if kindStarts "work." kind then
    .ok { t with terminal := t.terminal.count (stageOf kind) }
  else .ok t

end

end Tally

/-- What the loop of `reduce_events` keeps. -/
structure Reduction where
  seenIds : List String := []
  duplicates : ℕ := 0
  total : ℕ := 0
  tally : Tally := {}

/-! ### Settling the attempts -/

/-- What the second loop of `reduce_events` keeps. -/
structure Settlement (F : Type) where
  billingSeen : List String := []
  logicalIds : List String := []
  physical : ℕ := 0
  retries : ℕ := 0
  unknownOutcome : ℕ := 0
  inputs : List PyValue := []
  outputs : List PyValue := []
  cacheRead : List PyValue := []
  cacheWrite : List PyValue := []
  actual : List F := []
  estimated : List F := []
  costUnknown : ℕ := 0
  anomalies : ℕ := 0
  durations : List ℤ := []

/-- `MetricSnapshot`. -/
structure MetricSnapshot (F : Type) where
  logicalLlmRequests : ℕ
  physicalLlmAttempts : ℕ
  llmRetryCount : ℕ
  attemptsUnknownOutcome : ℕ
  toolCounts : Counts
  memoryCounts : Counts
  learningCounts : Counts
  inputTokens : PyValue
  outputTokens : PyValue
  cacheReadTokens : PyValue
  cacheWriteTokens : PyValue
  costActual : Option F
  costEstimated : Option F
  costUnknown : ℕ
  durationsMs : List ℤ
  clockAnomalies : ℕ
  terminalStates : Counts
  coverageGaps : List String
  totalEvents : ℕ
  duplicateEvents : ℕ

section

variable {F : Type} (N : Numbers F)

namespace Settlement

/-- The cost of an attempt: what it reports, else what it estimates, else unknown. -/
def addCost (s : Settlement F) (usage : PyMapping) : Except Failure (Settlement F) := do
  let cost := usage.getD "cost_actual" .none
  let reported := match cost with
    | .bool _ | .int _ | .str _ => (N.text cost).toList.any (!isSpace ·)
    | _ => false
  if reported then
    return { s with actual := s.actual ++ [← N.float cost] }
  match usage.getD "cost_estimated" .none with
  | .none => return { s with costUnknown := s.costUnknown + 1 }
  | estimate => return { s with estimated := s.estimated ++ [← N.float (.str (N.text estimate))] }

/-- The time of an attempt: its duration, or an anomaly. -/
def addTime (s : Settlement F) (attempt : Attempt) : Settlement F :=
  if attempt.orderingUncertain then { s with anomalies := s.anomalies + 1 }
  else
    match attempt.startedMs, attempt.finishedMs with
    | some started, some finished =>
      if finished - started < 0 then { s with anomalies := s.anomalies + 1 }
      else { s with durations := s.durations ++ [finished - started] }
    | _, _ => s

/-- The body of the second loop of `reduce_events`. -/
def attempt (s : Settlement F) (a : Attempt) : Except Failure (Settlement F) := do
  if !a.leaf || a.billingKey ∈ s.billingSeen then return s
  let s ← addCost N { s with
    billingSeen := a.billingKey :: s.billingSeen
    physical := s.physical + 1
    logicalIds := if a.logicalId = "" then s.logicalIds else s.logicalIds.insert a.logicalId
    retries := if a.isRetry then s.retries + 1 else s.retries
    unknownOutcome := if a.terminal = none ∨ a.errorClass = some "unknown_outcome" then
      s.unknownOutcome + 1 else s.unknownOutcome
    inputs := s.inputs ++ [a.usage.getD "input_tokens" .none]
    outputs := s.outputs ++ [a.usage.getD "output_tokens" .none]
    cacheRead := s.cacheRead ++ [a.usage.getD "cache_read" .none]
    cacheWrite := s.cacheWrite ++ [a.usage.getD "cache_write" .none] } a.usage
  return s.addTime a

end Settlement

/-- `sum(costs) if costs else None`. -/
def sumCosts : List F → Option F
  | [] => none
  | costs => some (N.sum costs)

/-- The payload of a row, empty where it is no mapping. -/
def mappingOf : PyValue → PyMapping
  | .dict payload => payload
  | _ => []

/-- The loop body of `reduce_events`. -/
def Reduction.step (r : Reduction) (row : EventRow) : Except Failure Reduction :=
  if row.eventId ∈ r.seenIds then .ok { r with duplicates := r.duplicates + 1 }
  else (r.tally.event N row.kind (mappingOf row.payload)).map fun tally =>
    { r with
      seenIds := if row.eventId = "" then r.seenIds else row.eventId :: r.seenIds
      total := r.total + 1
      tally }

/-- `reduce_events`. -/
def reduceEvents (rows : List EventRow) : Except Failure (MetricSnapshot F) := do
  let r ← rows.foldlM (Reduction.step N) {}
  let s ← r.tally.attempts.foldlM (Settlement.attempt N) {}
  return {
    logicalLlmRequests := s.logicalIds.length
    physicalLlmAttempts := s.physical
    llmRetryCount := s.retries
    attemptsUnknownOutcome := s.unknownOutcome
    toolCounts := r.tally.toolCounts
    memoryCounts := r.tally.memoryCounts
    learningCounts := r.tally.learningCounts
    inputTokens := ← sumOptional N s.inputs
    outputTokens := ← sumOptional N s.outputs
    cacheReadTokens := ← sumOptional N s.cacheRead
    cacheWriteTokens := ← sumOptional N s.cacheWrite
    costActual := sumCosts N s.actual
    costEstimated := sumCosts N s.estimated
    costUnknown := s.costUnknown
    durationsMs := s.durations
    clockAnomalies := s.anomalies
    terminalStates := r.tally.terminal
    coverageGaps := sortedStrings r.tally.gaps.dedup
    totalEvents := r.total
    duplicateEvents := r.duplicates }

end

/-! ### Every row is counted -/

section

variable {F : Type} {N : Numbers F} {rows : List EventRow} {row : EventRow}

/-- A row is one event more, or one duplicate more. -/
theorem Reduction.step_spec {r r' : Reduction} (h : r.step N row = .ok r') :
    r'.total + r'.duplicates = r.total + r.duplicates + 1 := by
  rw [Reduction.step] at h
  split at h
  · obtain rfl := Except.ok.inj h
    dsimp only
    omega
  · rcases htally : r.tally.event N row.kind (mappingOf row.payload) with e | tally
    · rw [htally] at h
      cases h
    · rw [htally] at h
      obtain rfl := Except.ok.inj h
      dsimp only
      omega

theorem Reduction.foldlM_spec {r r' : Reduction} (h : rows.foldlM (Reduction.step N) r = .ok r') :
    r'.total + r'.duplicates = r.total + r.duplicates + rows.length := by
  induction rows generalizing r with
  | nil =>
    obtain rfl := Except.ok.inj h
    rfl
  | cons row rows ih =>
    rw [List.foldlM_cons, Lib.except_bind_eq_ok] at h
    obtain ⟨mid, hmid, hrest⟩ := h
    rw [ih hrest, step_spec hmid, List.length_cons]
    omega

/-- **Every row of a stream is counted**, as an event or as a duplicate. -/
theorem length_of_reduceEvents {snapshot : MetricSnapshot F}
    (h : reduceEvents N rows = .ok snapshot) :
    snapshot.totalEvents + snapshot.duplicateEvents = rows.length := by
  simp only [reduceEvents, Lib.except_bind_eq_ok] at h
  obtain ⟨r, hr, s, -, _, -, _, -, _, -, _, -, h⟩ := h
  obtain rfl := Except.ok.inj h
  simpa using Reduction.foldlM_spec hr

end

end Metrics

end CyranoAgent
