import CyranoAgent.Cron.Schedules
import CyranoAgent.Lib.Run

/-!
# Cron jobs and their store

The records of the store and how they are written to its file and read back, field by field. What is
read is what was written (`decodeStore_of_writeJobs`), so the cache of the store is left out;
`json.loads` of what `json.dumps` writes is the value that was dumped, unless an integer has too
many digits to be dumped.
-/

namespace CyranoAgent

open Lib

namespace Cron

/-! ### Fields of a record -/

/-- `type(value).__name__`; the values of JSON that are none of the others are floats. -/
def typeName : PyValue → String
  | .none => "NoneType"
  | .bool _ => "bool"
  | .int _ => "int"
  | .str _ => "str"
  | .list _ => "list"
  | .dict _ => "dict"
  | .other => "float"

/-- `_as_record`. -/
def asRecord : PyValue → Except String PyMapping
  | .dict record => .ok record
  | data => .error ("cron record must be a JSON object, not " ++ typeName data)

/-- `_field_error`, `none` being the value of a field that is missing. -/
def fieldError (key : String) (value : Option PyValue) (expected : String) : String :=
  match value with
  | none => "cron record is missing required field '" ++ key ++ "'"
  | some value => "cron field '" ++ key ++ "' must be " ++ expected ++ ", not " ++ typeName value

/-- The value under a key, of the type that `read` takes. -/
def field {α : Type} (read : PyValue → Option α) (expected : String) (record : PyMapping)
    (key : String) : Except String α :=
  match (PyMapping.get? record key).bind read with
  | some value => .ok value
  | none => .error (fieldError key (PyMapping.get? record key) expected)

/-- The value under a key, of the type that `read` takes, unless it is missing or `None`. -/
def optionalField {α : Type} (read : PyValue → Option α) (expected : String) (record : PyMapping)
    (key : String) : Except String (Option α) :=
  match PyMapping.get? record key with
  | none | some .none => .ok none
  | some value =>
    match read value with
    | some value => .ok (some value)
    | none => .error (fieldError key (some value) expected)

/-- `isinstance(value, str)`. -/
def readStr : PyValue → Option String
  | .str s => some s
  | _ => none

/-- `isinstance(value, int) and not isinstance(value, bool)`. -/
def readInt : PyValue → Option ℤ
  | .int n => some n
  | _ => none

/-- `isinstance(value, bool)`. -/
def readBool : PyValue → Option Bool
  | .bool b => some b
  | _ => none

/-- `_str_field`. -/
def strField : PyMapping → String → Except String String := field readStr "a string"

/-- `_optional_str_field`. -/
def optionalStrField : PyMapping → String → Except String (Option String) :=
  optionalField readStr "a string or null"

/-- `_int_field`. -/
def intField : PyMapping → String → Except String ℤ := field readInt "an integer"

/-- `_optional_int_field`. -/
def optionalIntField : PyMapping → String → Except String (Option ℤ) :=
  optionalField readInt "an integer or null"

/-- `_bool_field`. -/
def boolField : PyMapping → String → Except String Bool := field readBool "a boolean"

/-- The text of a tuple of literals. -/
def tupleText (literals : List String) : String :=
  "(" ++ ", ".intercalate (literals.map fun literal => "'" ++ literal ++ "'") ++ ")"

/-- `_literal_field`, what is allowed being given with what it stands for. -/
def literalField {α : Type} (allowed : List (String × α)) (record : PyMapping) (key : String) :
    Except String α := do
  let value ← strField record key
  match allowed.lookup value with
  | some literal => return literal
  | none =>
    throw (fieldError key (some (.str value)) ("one of " ++ tupleText (allowed.map Prod.fst)))

/-- `_optional_literal_field`. -/
def optionalLiteralField {α : Type} (allowed : List (String × α)) (record : PyMapping)
    (key : String) : Except String (Option α) := do
  match ← optionalStrField record key with
  | none => return none
  | some value =>
    match allowed.lookup value with
    | some literal => return some literal
    | none =>
      throw (fieldError key (some (.str value))
        ("one of " ++ tupleText (allowed.map Prod.fst) ++ " or null"))

/-- `_optional_date_fields`. -/
def optionalDateFields (record : PyMapping) : Except String (Option Date) := do
  let year ← optionalIntField record "year"
  let month ← optionalIntField record "month"
  let day ← optionalIntField record "day"
  match year, month, day with
  | none, none, none => return none
  | some year, some month, some day =>
    if h : (1 ≤ year ∧ year ≤ 9999) ∧ (1 ≤ month ∧ month ≤ 12) ∧
        1 ≤ day ∧ day ≤ daysInMonth year month then
      return some ⟨year, month, day, h.1, h.2.1, h.2.2⟩
    else
      throw (toString year ++ "-" ++ toString month ++ "-" ++ toString day ++
        " is not a valid calendar date")
  | _, _, _ => throw "a schedule date requires all of 'year', 'month', and 'day'"

/-- A text or `None`. -/
def strOrNone : Option String → PyValue
  | some s => .str s
  | none => .none

/-- An integer or `None`. -/
def intOrNone : Option ℤ → PyValue
  | some n => .int n
  | none => .none

/-! ### Records -/

/-- `CronOrigin`. -/
structure CronOrigin where
  conversationId : String
  channel : Option String := none
  messageId : Option String := none

/-- `CronOrigin.to_dict`. -/
def CronOrigin.toDict (origin : CronOrigin) : PyValue :=
  .dict [(.str "conversation_id", .str origin.conversationId),
    (.str "channel", strOrNone origin.channel), (.str "message_id", strOrNone origin.messageId)]

/-- `CronOrigin.from_dict`. -/
def CronOrigin.fromDict (data : PyValue) : Except String CronOrigin := do
  let record ← asRecord data
  let conversationId ← strField record "conversation_id"
  let channel ← optionalStrField record "channel"
  let messageId ← optionalStrField record "message_id"
  return ⟨conversationId, channel, messageId⟩

/-- `CronRepeat`. -/
structure CronRepeat where
  times : Option ℤ := none
  completed : ℤ := 0
  times_pos : ∀ n ∈ times, 1 ≤ n
  completed_nonneg : 0 ≤ completed

/-- `CronRepeat.__post_init__`. -/
def CronRepeat.postInit (times : Option ℤ) (completed : ℤ) : Except String CronRepeat :=
  if htimes : ∀ n ∈ times, 1 ≤ n then
    if hcompleted : 0 ≤ completed then .ok ⟨times, completed, htimes, hcompleted⟩
    else .error "repeat completed count cannot be negative"
  else .error "repeat cap must be at least 1"

/-- `CronRepeat.claim`. -/
def CronRepeat.claim (r : CronRepeat) : CronRepeat :=
  { r with
    completed := r.completed + 1
    completed_nonneg := r.completed_nonneg.trans (by omega) }

/-- `CronRepeat.exhausted`. -/
def CronRepeat.exhausted (r : CronRepeat) : Bool :=
  match r.times with
  | some times => times ≤ r.completed
  | none => false

/-- `CronRepeat.to_dict`. -/
def CronRepeat.toDict (r : CronRepeat) : PyValue :=
  .dict [(.str "times", intOrNone r.times), (.str "completed", .int r.completed)]

/-- `CronRepeat.from_dict`. -/
def CronRepeat.fromDict (data : PyValue) : Except String CronRepeat := do
  let record ← asRecord data
  let times ← optionalIntField record "times"
  let completed ← optionalIntField record "completed"
  CronRepeat.postInit times (completed.getD 0)

/-- `_SCHEDULE_KINDS`. -/
def scheduleKinds : List (String × ScheduleKind) :=
  [("one_shot", .oneShot), ("recurring", .recurring)]

/-- `_SCHEDULE_FORMS`. -/
def scheduleForms : List (String × ScheduleForm) :=
  [("interval", .interval), ("at", .atDate), ("daily", .daily)]

/-- The text of a kind. -/
def ScheduleKind.text : ScheduleKind → String
  | .oneShot => "one_shot"
  | .recurring => "recurring"

/-- The text of a form. -/
def ScheduleForm.text : ScheduleForm → String
  | .interval => "interval"
  | .atDate => "at"
  | .daily => "daily"

/-- `JobStatus`. -/
inductive JobStatus
  | ok
  | error

/-- `_JOB_STATUSES`. -/
def jobStatuses : List (String × JobStatus) := [("ok", .ok), ("error", .error)]

/-- The text of a status. -/
def JobStatus.text : JobStatus → String
  | .ok => "ok"
  | .error => "error"

section

variable (H : Host)

/-- The entries of `CronSchedule.to_dict` that its form has. -/
def Timing.entries {H : Host} : Timing H → PyMapping
  | .interval minutes _ => [(.str "minutes", .int minutes)]
  | .atDate timezone _ _ clock localDate =>
    [(.str "timezone", .str timezone), (.str "hour", .int clock.hour),
      (.str "minute", .int clock.minute), (.str "year", .int localDate.year),
      (.str "month", .int localDate.month), (.str "day", .int localDate.day)]
  | .daily timezone _ _ clock =>
    [(.str "timezone", .str timezone), (.str "hour", .int clock.hour),
      (.str "minute", .int clock.minute)]

/-- `CronSchedule.to_dict`. -/
def CronSchedule.toDict {H : Host} (schedule : CronSchedule H) : PyValue :=
  .dict ([(.str "form", .str schedule.form.text), (.str "kind", .str schedule.kind.text),
    (.str "display", .str schedule.display)] ++ schedule.timing.entries)

/-- `CronSchedule.from_dict`. -/
def CronSchedule.fromDict (data : PyValue) : Except String (CronSchedule H) := do
  let record ← asRecord data
  let kind ← literalField scheduleKinds record "kind"
  let minutes ← optionalIntField record "minutes"
  let display ← strField record "display"
  let form ← literalField scheduleForms record "form"
  let timezone ← optionalStrField record "timezone"
  let hour ← optionalIntField record "hour"
  let minute ← optionalIntField record "minute"
  let localDate ← optionalDateFields record
  CronSchedule.postInit H { kind, minutes, display, form, timezone, hour, minute, localDate }

/-- `CronJob`. -/
structure CronJob where
  id : String
  assistantId : String
  name : String
  prompt : String
  schedule : CronSchedule H
  repetition : CronRepeat
  enabled : Bool
  createdAt : Datetime
  nextRunAt : Option Datetime
  lastRunAt : Option Datetime
  lastStatus : Option JobStatus
  lastError : Option String
  origin : CronOrigin

/-- `CronJob.to_dict`. -/
def CronJob.toDict {H : Host} (job : CronJob H) : PyValue :=
  .dict [(.str "id", .str job.id), (.str "assistant_id", .str job.assistantId),
    (.str "name", .str job.name), (.str "prompt", .str job.prompt),
    (.str "schedule", job.schedule.toDict), (.str "repeat", job.repetition.toDict),
    (.str "enabled", .bool job.enabled), (.str "created_at", .int job.createdAt.seconds),
    (.str "next_run_at", intOrNone (job.nextRunAt.map Datetime.seconds)),
    (.str "last_run_at", intOrNone (job.lastRunAt.map Datetime.seconds)),
    (.str "last_status", strOrNone (job.lastStatus.map JobStatus.text)),
    (.str "last_error", strOrNone job.lastError), (.str "origin", job.origin.toDict)]

/-- `_from_epoch`. -/
def fromEpoch (value : ℤ) : Except String Datetime :=
  if h : -62135596800 ≤ value ∧ value ≤ 253402300799 then .ok ⟨value, h⟩
  else .error (toString value ++ " is not a valid epoch timestamp")

/-- `_from_optional_epoch`. -/
def fromOptionalEpoch : Option ℤ → Except String (Option Datetime)
  | none => .ok none
  | some value => do return some (← fromEpoch value)

/-- `CronJob.from_dict`. -/
def CronJob.fromDict (data : PyValue) : Except String (CronJob H) := do
  let record ← asRecord data
  let id ← strField record "id"
  let assistantId ← strField record "assistant_id"
  let name ← strField record "name"
  let prompt ← strField record "prompt"
  let schedule ← CronSchedule.fromDict H ((PyMapping.get? record "schedule").getD .none)
  let repetition ← CronRepeat.fromDict ((PyMapping.get? record "repeat").getD .none)
  let enabled ← boolField record "enabled"
  let createdAt ← fromEpoch (← intField record "created_at")
  let nextRunAt ← fromOptionalEpoch (← optionalIntField record "next_run_at")
  let lastRunAt ← fromOptionalEpoch (← optionalIntField record "last_run_at")
  let lastStatus ← optionalLiteralField jobStatuses record "last_status"
  let lastError ← optionalStrField record "last_error"
  let origin ← CronOrigin.fromDict ((PyMapping.get? record "origin").getD .none)
  return ⟨id, assistantId, name, prompt, schedule, repetition, enabled, createdAt, nextRunAt,
    lastRunAt, lastStatus, lastError, origin⟩

/-! ### The store -/

/-- What `json.loads` gives for the file of a store; `none` when there is no file, or it raises. -/
abbrev StoreData := Option PyValue

/-- `_decode_store`. -/
def decodeStore (data : StoreData) : List (CronJob H) :=
  match data with
  | some (.dict store) =>
    if H.isVersion ((PyMapping.get? store "version").getD .none) then
      match PyMapping.get? store "jobs" with
      | some (.list jobs) =>
        match jobs.mapM (CronJob.fromDict H) with
        | .ok jobs => jobs
        | .error _ => []
      | _ => []
    else []
  | _ => []

/-- An integer is within the limit on digits of `json.dumps`. -/
def printable (n : ℤ) : Bool := (Nat.toDigits 10 n.natAbs).length ≤ 4300

/-- The integers of a job that have no bound of their own are printable. -/
def CronJob.printable {H : Host} (job : CronJob H) : Bool :=
  (match job.schedule.timing with
    | .interval minutes _ => Cron.printable minutes
    | _ => true) &&
  (match job.repetition.times with
    | some times => Cron.printable times
    | none => true) &&
  Cron.printable job.repetition.completed

/-- `_write_jobs`: the file, unless `json.dumps` raises. -/
def writeJobs {H : Host} (jobs : List (CronJob H)) : Except CronError StoreData :=
  if jobs.all CronJob.printable then
    .ok (some (.dict [(.str "version", .int 1), (.str "jobs", .list (jobs.map CronJob.toDict))]))
  else .error .valueError

/-- A `datetime` in UTC: the microseconds since 1970. -/
structure Moment where
  micros : ℤ
  inRange : -62135596800000000 ≤ micros ∧ micros ≤ 253402300799999999

/-- `_coerce_utc`. -/
def coerceUtc (now : Moment) : Datetime :=
  ⟨now.micros / 1000000, by have h := now.inRange; omega⟩

/-- `_first_run_at`. -/
def firstRunAt (schedule : CronSchedule H) (now : Datetime) : Except CronError Datetime := do
  let nextRunAt ← schedule.nextAfter H now none
  if schedule.form = .atDate ∧ nextRunAt.seconds ≤ now.seconds then
    throw (.cronJobError (H.repr schedule.display ++ " is in the past (resolves to " ++
      H.isoformat nextRunAt ++ "; now is " ++ H.isoformat now ++ ")"))
  else return nextRunAt

/-- The arguments of `create_job`, `hex` being the id that is drawn. -/
structure NewJob where
  assistantId : String
  hex : String
  prompt : String
  schedule : CronSchedule H
  origin : CronOrigin
  name : String := ""
  repeatTimes : Option ℤ := none
  now : Moment

/-- `CronJobStore.create_job`. -/
def createJob (new : NewJob H) (data : StoreData) : Except CronError (CronJob H × StoreData) := do
  let current := coerceUtc new.now
  let repetition ← (CronRepeat.postInit new.repeatTimes 0).mapError .cronJobError
  if new.schedule.kind = .oneShot ∧ new.repeatTimes.isSome then
    throw (.cronJobError "repeat cap is only valid for recurring jobs")
  let nextRunAt ← firstRunAt H new.schedule current
  let job : CronJob H := ⟨new.hex, new.assistantId, new.name, new.prompt, new.schedule, repetition,
    true, current, some nextRunAt, none, none, none, new.origin⟩
  let data ← writeJobs (decodeStore H data ++ [job])
  return (job, data)

/-- Whether a job can be claimed. -/
def CronJob.due {H : Host} (job : CronJob H) (now : Datetime) : Bool :=
  job.enabled && match job.nextRunAt with
    | some nextRunAt => nextRunAt.seconds ≤ now.seconds
    | none => false

/-- `_advance_claimed_job`. -/
def advanceClaimedJob (job : CronJob H) (now : Datetime) : Except CronError (CronJob H) :=
  if job.schedule.kind = .oneShot then .ok { job with enabled := false, nextRunAt := none }
  else if job.repetition.claim.exhausted then
    .ok { job with repetition := job.repetition.claim, enabled := false, nextRunAt := none }
  else do
    let nextRunAt ← job.schedule.nextAfter H now job.nextRunAt
    return { job with repetition := job.repetition.claim, nextRunAt := some nextRunAt }

/-- What `advance_next_run` makes of a job. -/
def advanceJob (jobId : String) (now : Datetime) (job : CronJob H) :
    Except CronError (CronJob H) :=
  if job.id = jobId ∧ job.due now then advanceClaimedJob H job now else .ok job

/-- `CronJobStore.advance_next_run`: the last job that is claimed. -/
def advanceNextRun (jobId : String) (now : Moment) (data : StoreData) :
    Except CronError (Option (CronJob H) × StoreData) := do
  let current := coerceUtc now
  let jobs := decodeStore H data
  let result ← jobs.mapM (advanceJob H jobId current)
  let claims := (jobs.zip result).filter fun claim => claim.1.id = jobId ∧ claim.1.due current
  match claims.getLast? with
  | some (_, claimed) => return (some claimed, ← writeJobs result)
  | none => return (none, data)

/-- `CronJobStore.mark_job_run`: the last job that is updated. -/
def markJobRun (jobId : String) (status : JobStatus) (error : Option String) (now : Moment)
    (data : StoreData) : Except CronError (Option (CronJob H) × StoreData) := do
  let current := coerceUtc now
  let update (job : CronJob H) : CronJob H :=
    { job with lastRunAt := some current, lastStatus := some status, lastError := error }
  let jobs := decodeStore H data
  match (jobs.filter fun job => job.id = jobId).getLast? with
  | some job =>
    let result := jobs.map fun job => if job.id = jobId then update job else job
    return (some (update job), ← writeJobs result)
  | none => return (none, data)

/-- A call of the store, other than edits. -/
inductive Call
  | createJob (new : NewJob H)
  | advanceNextRun (jobId : String) (now : Moment)
  | markJobRun (jobId : String) (status : JobStatus) (error : Option String) (now : Moment)

/-- The outcome of a call. -/
def Call.outcome {H : Host} (call : Call H) (data : StoreData) :
    Except CronError (Option (CronJob H) × StoreData) :=
  match call with
  | .createJob new => do
    let (job, data) ← Cron.createJob H new data
    return (some job, data)
  | .advanceNextRun jobId now => Cron.advanceNextRun H jobId now data
  | .markJobRun jobId status error now => Cron.markJobRun H jobId status error now data

/-- Perform a call; one that raises leaves the file as it is. -/
def Call.act {H : Host} (call : Call H) (data : StoreData) :
    Except CronError (Option (CronJob H)) × StoreData :=
  match call.outcome data with
  | .ok (job, data) => (.ok job, data)
  | .error e => (.error e, data)

/-- One call of a history. -/
abbrev CallEntry := Entry StoreData (Call H) (Except CronError (Option (CronJob H)))

end

section

variable {H : Host} {data data' : StoreData} {job claimed : CronJob H} {now : Datetime}

/-! ### What is written is read back -/

theorem CronOrigin.fromDict_toDict (origin : CronOrigin) :
    CronOrigin.fromDict origin.toDict = .ok origin := by
  rcases origin with ⟨id, _ | channel, _ | messageId⟩ <;> rfl

theorem CronRepeat.fromDict_toDict (r : CronRepeat) : CronRepeat.fromDict r.toDict = .ok r := by
  have hpost : CronRepeat.postInit r.times r.completed = .ok r := by
    rw [CronRepeat.postInit, dif_pos r.times_pos, dif_pos r.completed_nonneg]
  rcases r with ⟨_ | times, completed, htimes, hcompleted⟩
  · exact hpost
  · exact hpost

/-- The fields that a schedule is made from. -/
def CronSchedule.fields (schedule : CronSchedule H) : ScheduleFields :=
  match schedule.timing with
  | .interval minutes _ =>
    { kind := schedule.kind, minutes := some minutes, display := schedule.display }
  | .atDate timezone _ _ clock localDate =>
    ⟨schedule.kind, none, schedule.display, .atDate, some timezone, some clock.hour,
      some clock.minute, some localDate⟩
  | .daily timezone _ _ clock =>
    ⟨schedule.kind, none, schedule.display, .daily, some timezone, some clock.hour,
      some clock.minute, none⟩

/-- The wall clock of a schedule is valid. -/
theorem validateWallClock_eq {timezone : String} {zone : Zone}
    (hzone : resolveZone H timezone = .ok zone) (kind : ScheduleKind) (display : String)
    (form : ScheduleForm) (clock : Clock) (localDate : Option Date) :
    validateWallClock H ⟨kind, none, display, form, some timezone, some clock.hour,
        some clock.minute, localDate⟩ =
      if form = .atDate then
        match localDate with
        | none => .error "one-shot wall-clock schedules require a local date"
        | some localDate => .ok (.atDate timezone zone hzone clock localDate)
      else if localDate.isSome then .error "daily schedules cannot carry a local date"
      else .ok (.daily timezone zone hzone clock) := by
  rw [validateWallClock]
  simp only [Option.isSome_none, Bool.false_eq_true, if_false]
  split
  next e he => cases he.symm.trans hzone
  next zone' hzone' =>
    obtain rfl := Except.ok.inj (hzone'.symm.trans hzone)
    exact dif_pos clock.inRange

theorem CronSchedule.postInit_eq {fields : ScheduleFields} {timing : Timing H}
    (hshort : fields.display.length ≤ 200)
    (h : (if fields.form = .interval then validateInterval H fields
      else validateWallClock H fields) = .ok timing) :
    postInit H fields = .ok ⟨fields.kind, fields.display, hshort, timing⟩ := by
  rw [postInit, dif_neg (not_lt.mpr hshort), h]
  rfl

/-- **A schedule is what its fields come to.** -/
theorem CronSchedule.postInit_fields (schedule : CronSchedule H) :
    postInit H schedule.fields = .ok schedule := by
  obtain ⟨kind, display, hshort, timing⟩ := schedule
  cases timing with
  | interval minutes hminutes =>
    exact postInit_eq hshort ((dif_neg (not_lt.mpr hminutes)).trans (if_neg (by simp [fields])))
  | atDate timezone zone hzone clock localDate =>
    exact postInit_eq hshort (validateWallClock_eq hzone kind display .atDate clock localDate)
  | daily timezone zone hzone clock =>
    exact postInit_eq hshort (validateWallClock_eq hzone kind display .daily clock none)

theorem optionalDateFields_eq {record : PyMapping} {date : Date}
    (hyear : optionalIntField record "year" = .ok (some date.year))
    (hmonth : optionalIntField record "month" = .ok (some date.month))
    (hday : optionalIntField record "day" = .ok (some date.day)) :
    optionalDateFields record = .ok (some date) := by
  rw [optionalDateFields, hyear, hmonth, hday]
  exact dif_pos ⟨date.year_inRange, date.month_inRange, date.day_inRange⟩

theorem CronSchedule.fromDict_eq_postInit (schedule : CronSchedule H) :
    CronSchedule.fromDict H schedule.toDict = CronSchedule.postInit H schedule.fields := by
  obtain ⟨kind, display, hshort, timing⟩ := schedule
  cases timing with
  | interval minutes hminutes => cases kind <;> rfl
  | daily timezone zone hzone clock => cases kind <;> rfl
  | atDate timezone zone hzone clock localDate =>
    have hdate : optionalDateFields ([(.str "form", .str "at"), (.str "kind", .str kind.text),
        (.str "display", .str display)] ++
          (Timing.atDate timezone zone hzone clock localDate).entries) = .ok (some localDate) :=
      optionalDateFields_eq rfl rfl rfl
    cases kind <;> exact congrArg (· >>= fun date => CronSchedule.postInit H ⟨_, none, display,
      .atDate, some timezone, some clock.hour, some clock.minute, date⟩) hdate

theorem CronSchedule.fromDict_toDict (schedule : CronSchedule H) :
    CronSchedule.fromDict H schedule.toDict = .ok schedule :=
  schedule.fromDict_eq_postInit.trans schedule.postInit_fields

theorem fromEpoch_seconds (t : Datetime) : fromEpoch t.seconds = .ok t := dif_pos t.inRange

theorem fromOptionalEpoch_seconds (t : Option Datetime) :
    fromOptionalEpoch (t.map Datetime.seconds) = .ok t := by
  cases t with
  | none => rfl
  | some t => 
    rw [Option.map_some, fromOptionalEpoch, fromEpoch_seconds]
    rfl

theorem optionalIntField_eq {record : PyMapping} {key : String} {value : Option ℤ}
    (h : PyMapping.get? record key = some (intOrNone value)) :
    optionalIntField record key = .ok value := by
  cases value <;> rw [optionalIntField, optionalField, h] <;> rfl

theorem optionalStrField_eq {record : PyMapping} {key : String} {value : Option String}
    (h : PyMapping.get? record key = some (strOrNone value)) :
    optionalStrField record key = .ok value := by
  cases value <;> rw [optionalStrField, optionalField, h] <;> rfl

theorem optionalLiteralField_status {record : PyMapping} {key : String} {status : Option JobStatus}
    (h : PyMapping.get? record key = some (strOrNone (status.map JobStatus.text))) :
    optionalLiteralField jobStatuses record key = .ok status := by
  rw [optionalLiteralField, optionalStrField_eq h]
  rcases status with _ | _ | _ <;> rfl

/-- **What is written of a job is read back.** -/
theorem CronJob.fromDict_toDict (job : CronJob H) : CronJob.fromDict H job.toDict = .ok job := by
  rw [fromDict, toDict, asRecord]
  refine except_bind_eq_ok.mpr ⟨_, rfl, ?_⟩
  refine except_bind_eq_ok.mpr ⟨job.id, rfl, ?_⟩
  refine except_bind_eq_ok.mpr ⟨job.assistantId, rfl, ?_⟩
  refine except_bind_eq_ok.mpr ⟨job.name, rfl, ?_⟩
  refine except_bind_eq_ok.mpr ⟨job.prompt, rfl, ?_⟩
  refine except_bind_eq_ok.mpr ⟨job.schedule, job.schedule.fromDict_toDict, ?_⟩
  refine except_bind_eq_ok.mpr ⟨job.repetition, job.repetition.fromDict_toDict, ?_⟩
  refine except_bind_eq_ok.mpr ⟨job.enabled, rfl, ?_⟩
  refine except_bind_eq_ok.mpr ⟨job.createdAt.seconds, rfl, ?_⟩
  refine except_bind_eq_ok.mpr ⟨job.createdAt, fromEpoch_seconds _, ?_⟩
  refine except_bind_eq_ok.mpr ⟨job.nextRunAt.map Datetime.seconds, optionalIntField_eq rfl, ?_⟩
  refine except_bind_eq_ok.mpr ⟨job.nextRunAt, fromOptionalEpoch_seconds _, ?_⟩
  refine except_bind_eq_ok.mpr ⟨job.lastRunAt.map Datetime.seconds, optionalIntField_eq rfl, ?_⟩
  refine except_bind_eq_ok.mpr ⟨job.lastRunAt, fromOptionalEpoch_seconds _, ?_⟩
  refine except_bind_eq_ok.mpr ⟨job.lastStatus, optionalLiteralField_status rfl, ?_⟩
  refine except_bind_eq_ok.mpr ⟨job.lastError, optionalStrField_eq rfl, ?_⟩
  exact except_bind_eq_ok.mpr ⟨job.origin, job.origin.fromDict_toDict, rfl⟩

/-- **The jobs that are written are read back.** -/
theorem decodeStore_of_writeJobs {jobs : List (CronJob H)} {data : StoreData}
    (h : writeJobs jobs = .ok data) : decodeStore H data = jobs := by
  rw [writeJobs] at h
  split at h
  swap
  · cases h
  cases h
  have hversion : H.isVersion (.int 1) = true := by rw [H.isVersion_int]; rfl
  have hjobs : (jobs.map CronJob.toDict).mapM (CronJob.fromDict H) = .ok jobs := by
    rw [mapM_eq_ok, List.forall₂_map_left_iff, List.forall₂_same]
    exact fun job _ => job.fromDict_toDict
  refine (if_pos hversion).trans ?_
  show (match (jobs.map CronJob.toDict).mapM (CronJob.fromDict H) with
    | .ok jobs => jobs
    | .error _ => []) = jobs
  rw [hjobs]

/-! ### What the calls do -/

theorem CronJob.due_iff :
    job.due now = true ↔ job.enabled = true ∧ ∃ t ∈ job.nextRunAt, t.seconds ≤ now.seconds := by
  rw [CronJob.due, Bool.and_eq_true]
  refine and_congr_right fun _ => ?_
  rcases job.nextRunAt with _ | t <;> simp

/-- A cap that is reached by a claim. -/
theorem CronRepeat.exhausted_claim_iff {r : CronRepeat} :
    r.claim.exhausted = true ↔ ∃ n ∈ r.times, n ≤ r.completed + 1 := by
  rcases r with ⟨_ | n, completed, htimes, hcompleted⟩
  · simp [exhausted, claim]
  · show decide (n ≤ completed + 1) = true ↔ _
    rw [decide_eq_true_iff]
    simp

/-- **What a claim does**: a one-shot job or one whose cap is reached is done; any other is given
its next run. -/
theorem advanceClaimedJob_cases (h : advanceClaimedJob H job now = .ok claimed) :
    (job.schedule.kind = .oneShot ∧ claimed = { job with enabled := false, nextRunAt := none }) ∨
      (job.schedule.kind ≠ .oneShot ∧ job.repetition.claim.exhausted = true ∧ claimed =
        { job with repetition := job.repetition.claim, enabled := false, nextRunAt := none }) ∨
      (job.schedule.kind ≠ .oneShot ∧ job.repetition.claim.exhausted = false ∧
        ∃ t, job.schedule.nextAfter H now job.nextRunAt = .ok t ∧
          claimed = { job with repetition := job.repetition.claim, nextRunAt := some t }) := by
  rw [advanceClaimedJob] at h
  split at h
  next hkind => exact .inl ⟨hkind, (Except.ok.inj h).symm⟩
  next hkind =>
    split at h
    next hexhausted => exact .inr (.inl ⟨hkind, hexhausted, (Except.ok.inj h).symm⟩)
    next hexhausted =>
      obtain ⟨t, ht, h⟩ := except_bind_eq_ok.mp h
      exact .inr (.inr ⟨hkind, Bool.eq_false_iff.mpr hexhausted, t, ht, (Except.ok.inj h).symm⟩)

/-- **What `advance_next_run` does**: nothing when no record of the id is due; otherwise it writes
what it makes of the records, and returns what it makes of one that was due. -/
theorem advanceNextRun_cases {jobId : String} {now : Moment} {reply : Option (CronJob H)}
    (h : advanceNextRun H jobId now data = .ok (reply, data')) :
    ∃ result, (decodeStore H data).mapM (advanceJob H jobId (coerceUtc now)) = .ok result ∧
      ((reply = none ∧ data' = data ∧
          ∀ job ∈ decodeStore H data, ¬ (job.id = jobId ∧ job.due (coerceUtc now))) ∨
        (writeJobs result = .ok data' ∧ ∃ (i : ℕ) (job claimed : CronJob H), reply = some claimed ∧
          (decodeStore H data)[i]? = some job ∧ result[i]? = some claimed ∧
          job.id = jobId ∧ job.due (coerceUtc now))) := by
  obtain ⟨result, hresult, h⟩ := except_bind_eq_ok.mp h
  refine ⟨result, hresult, ?_⟩
  dsimp only at h
  split at h
  next job claimed hlast =>
    obtain ⟨written, hwritten, h⟩ := except_bind_eq_ok.mp h
    cases h
    obtain ⟨hzip, hdue⟩ := List.mem_filter.mp (List.mem_of_getLast? hlast)
    obtain ⟨i, hi⟩ := List.mem_iff_getElem?.mp hzip
    obtain ⟨hjob, hclaimed⟩ := List.getElem?_zip_eq_some.mp hi
    exact .inr ⟨hwritten, i, job, claimed, rfl, hjob, hclaimed, of_decide_eq_true hdue⟩
  next hnone =>
    cases h
    refine .inl ⟨rfl, rfl, fun job hjob hdue => ?_⟩
    rw [← List.map_fst_zip (mapM_eq_ok.mp hresult).length_eq.le] at hjob
    obtain ⟨claim, hclaim, rfl⟩ := List.mem_map.mp hjob
    rw [List.getLast?_eq_none_iff, List.filter_eq_nil_iff] at hnone
    exact hnone claim hclaim (decide_eq_true hdue)

/-- What `advance_next_run` leaves in the file. -/
theorem decodeStore_of_advanceNextRun {jobId : String} {now : Moment} {reply : Option (CronJob H)}
    (h : advanceNextRun H jobId now data = .ok (reply, data')) :
    (decodeStore H data).mapM (advanceJob H jobId (coerceUtc now)) = .ok (decodeStore H data') := by
  obtain ⟨result, hresult, ⟨-, rfl, hnone⟩ | ⟨hwritten, -⟩⟩ := advanceNextRun_cases h
  · exact mapM_eq_ok.mpr (List.forall₂_same.mpr fun job hjob => if_neg (hnone job hjob))
  · rw [decodeStore_of_writeJobs hwritten, hresult]

/-- `advance_next_run` succeeds when each record that is due can be claimed, and the file can be
written if there is one. -/
theorem exists_advanceNextRun {jobId : String} {now : Moment} {result : List (CronJob H)}
    (hresult : (decodeStore H data).mapM (advanceJob H jobId (coerceUtc now)) = .ok result)
    (hprintable : ∀ job ∈ decodeStore H data, job.id = jobId → job.due (coerceUtc now) →
      ∀ claimed ∈ result, claimed.printable = true) :
    ∃ reply data', advanceNextRun H jobId now data = .ok (reply, data') := by
  simp only [advanceNextRun, hresult, except_bind_eq_ok, Except.ok.injEq, exists_eq_left']
  split
  next job claimed hlast =>
    obtain ⟨hzip, hdue⟩ := List.mem_filter.mp (List.mem_of_getLast? hlast)
    obtain ⟨hid, hdue⟩ := of_decide_eq_true hdue
    have hall := hprintable job (List.of_mem_zip hzip).1 hid hdue
    exact ⟨_, _, except_bind_eq_ok.mpr ⟨_, if_pos (List.all_eq_true.mpr hall), rfl⟩⟩
  next => exact ⟨_, _, rfl⟩

/-- What `mark_job_run` leaves in the file: the jobs, apart from what is recorded of their last
run. -/
theorem decodeStore_of_markJobRun {jobId : String} {status : JobStatus} {error : Option String}
    {now : Moment} {reply : Option (CronJob H)}
    (h : markJobRun H jobId status error now data = .ok (reply, data')) :
    decodeStore H data' = (decodeStore H data).map fun job =>
      if job.id = jobId then
        { job with
          lastRunAt := some (coerceUtc now), lastStatus := some status, lastError := error }
      else job := by
  rw [markJobRun] at h
  dsimp only at h
  split at h
  next job hlast =>
    obtain ⟨written, hwritten, h⟩ := except_bind_eq_ok.mp h
    cases h
    rw [decodeStore_of_writeJobs hwritten]
  next hnone =>
    cases h
    rw [List.getLast?_eq_none_iff, List.filter_eq_nil_iff] at hnone
    refine (List.map_id _).symm.trans (List.map_congr_left fun job hjob => ?_)
    exact (if_neg fun hid => hnone job hjob (decide_eq_true hid)).symm

/-- What `create_job` leaves in the file: another job, with its first run. -/
theorem decodeStore_of_createJob {new : NewJob H} (h : createJob H new data = .ok (job, data')) :
    decodeStore H data' = decodeStore H data ++ [job] ∧ job.schedule = new.schedule ∧
      job.repetition.times = new.repeatTimes ∧ job.repetition.completed = 0 := by
  obtain ⟨repetition, hrepetition, h⟩ := except_bind_eq_ok.mp h
  split at h
  · cases h
  obtain ⟨first, -, h⟩ := except_bind_eq_ok.mp h
  obtain ⟨written, hwritten, h⟩ := except_bind_eq_ok.mp h
  cases h
  refine ⟨decodeStore_of_writeJobs hwritten, rfl, ?_⟩
  rw [CronRepeat.postInit] at hrepetition
  split at hrepetition
  · cases hrepetition
    exact ⟨rfl, rfl⟩
  · cases hrepetition

end

end Cron

end CyranoAgent
