import CyranoAgent.Sqlite.Repository

/-!
# The team's task board

The board operations of `TeamCoordinator`: registering, claiming and cancelling tasks,
heartbeats, settlements and the recovery of expired leases. Each is one ledger transaction; a
heartbeat that pauses its task and a settlement that comes too late raise only after theirs
has committed.

A claim compares its write paths with the tasks whose leases are live at its `now`. A
heartbeat only asks that the lease is still the caller's (`leaseRow`): it never looks at
`lease_until`.
-/

namespace CyranoAgent

open Lib Lib.Action

/-- `TaskLease`. -/
structure TaskLease where
  taskId : String
  workerId : String
  fence : ℤ
  leaseUntil : ℤ
  deriving DecidableEq, Repr

/-- The row of a task as its key. -/
def TaskRow.is (streamId taskId : String) (row : TaskRow) : Bool :=
  row.streamId = streamId ∧ row.taskId = taskId

/-- The row is leased to a worker under a fence. -/
def TaskRow.HeldBy (row : TaskRow) (workerId : String) (fence : ℤ) : Prop :=
  row.state = .leased ∧ row.workerId = some workerId ∧ row.fence = fence

instance TaskRow.decidableHeldBy (row : TaskRow) (workerId : String) (fence : ℤ) :
    Decidable (row.HeldBy workerId fence) := inferInstanceAs (Decidable (_ ∧ _ ∧ _))

/-- The row is leased past `now`. -/
def TaskRow.Live (row : TaskRow) (now : ℤ) : Prop := row.state = .leased ∧ now < row.leaseUntil

instance TaskRow.decidableLive (row : TaskRow) (now : ℤ) : Decidable (row.Live now) :=
  inferInstanceAs (Decidable (_ ∧ _))

/-- Two tasks write a common path. -/
def TaskRow.Overlaps (row row' : TaskRow) : Prop := ∃ path ∈ row.writePaths, path ∈ row'.writePaths

instance TaskRow.decidableOverlaps (row row' : TaskRow) : Decidable (row.Overlaps row') :=
  inferInstanceAs (Decidable (∃ path ∈ row.writePaths, path ∈ row'.writePaths))

namespace TeamCoordinator

section

variable (L : Ledger)

/-- `sorted(deps - done)`. -/
def pendingDependencies (row : TaskRow) : List String :=
  (row.dependsOn.filter fun dep => L.coordTasks.all fun row' =>
    ¬(row'.streamId = row.streamId ∧ row'.state = .completed ∧ row'.taskId = dep)).dedup

/-- The first live holder whose write paths meet those of the row. -/
def conflict? (row : TaskRow) (now : ℤ) : Option TaskRow :=
  L.coordTasks.find? fun holder =>
    holder.streamId = row.streamId ∧ holder.Live now ∧ row.Overlaps holder

/-- `_lease_row`. -/
def leaseRow (streamId : String) (lease : TaskLease) : Except Failure TaskRow :=
  match L.task? streamId lease.taskId with
  | none => .error (.cyrano "TASK_UNKNOWN" lease.taskId)
  | some row =>
    if row.HeldBy lease.workerId lease.fence then .ok row
    else .error (.cyrano "LEASE_LOST" lease.taskId)

end

/-- The check of a row's write paths against the live holders. A row without any is not
checked. -/
def checkConflict (row : TaskRow) (now : ℤ) : Op (Option TaskRow) :=
  if row.writePaths = [] then return none
  else do
    Repository.bindInt now
    return conflict? (← get) row now

/-- `UPDATE coord_tasks` for the row of one task. -/
def updateTask (p : TaskRow → Bool) (f : TaskRow → TaskRow) : Op Unit :=
  modify fun L => { L with coordTasks := Rows.update p f L.coordTasks }

/-- `INSERT INTO coord_tasks` of a ready task. -/
def insertTask (row : TaskRow) : Op Unit := do
  Repository.bindInt row.revision
  let L ← get
  raiseIf (L.coordTasks.any (TaskRow.is row.streamId row.taskId))
    (Failure.unique "coord_tasks.stream_id, coord_tasks.task_id")
  modify fun L => { L with coordTasks := L.coordTasks ++ [row] }

/-- `register_task`. -/
def registerTask (scopeId streamId taskId : String) (writePaths dependsOn : List String)
    (parentTask : Option String) (revision : ℤ) : Op Unit :=
  transaction do
    let _ ← Repository.readScopedEntity scopeId streamId
    tryCatch
      (insertTask ⟨streamId, taskId, revision, .ready, none, 0,
        writePaths.insertionSort (· ≤ ·), dependsOn.insertionSort (· ≤ ·), parentTask, 0, 0, 0,
        none⟩)
      fun error => throw (.cyrano "INPUT_INVALID" ("task " ++ taskId ++ ": " ++ error.text))

section

variable (reprText : String → String)

/-- `claim_task`. `reprText` is Python's `repr` of a string, which only the text of an error
uses. -/
def claimTask (scopeId streamId taskId : String) (expectedRevision : ℤ) (workerId : String)
    (now ttl : ℤ) : Op TaskLease :=
  transaction do
    let _ ← Repository.readScopedEntity scopeId streamId
    let L ← get
    match L.task? streamId taskId with
    | none => throw (.cyrano "TASK_UNKNOWN" taskId)
    | some row =>
      raiseIf (row.revision ≠ expectedRevision) (.cyrano "PERMIT_STALE"
        ("expected revision " ++ toString expectedRevision ++ ", have " ++ toString row.revision))
      raiseIf (row.state ≠ .ready)
        (.cyrano "LEASE_LOST" ("task is " ++ row.state.text ++ ", not ready"))
      raiseIf (pendingDependencies L row ≠ []) (.cyrano "TASK_NOT_READY"
        ("dependencies pending: [" ++
          ", ".intercalate ((pendingDependencies L row).map reprText) ++ "]"))
      match ← checkConflict row now with
      | some holder => throw (.cyrano "RESOURCE_CONFLICT"
          (taskId ++ " write-set overlaps " ++ holder.taskId))
      | none => do
        Repository.bindInt now
        Repository.bindInt (now + ttl)
        updateTask (fun row' => row'.is streamId taskId ∧ row'.revision = row.revision) fun row' =>
          { row' with
            state := .leased, workerId := some workerId, fence := row'.fence + 1
            lastHeartbeat := now, leaseUntil := now + ttl }
        return ⟨taskId, workerId, row.fence + 1, now + ttl⟩

end

/-- A heartbeat past its progress deadline, from a task that never reported progress. -/
def pauses (row : TaskRow) (now : ℤ) (progress : Bool) (progressDeadline : Option ℤ) : Bool :=
  progressDeadline.any (· < now) ∧ row.progressMark = 0 ∧ progress = false

/-- The transaction of `heartbeat`: whether it paused the task. -/
def heartbeatIn (streamId : String) (lease : TaskLease) (now ttl : ℤ) (progress : Bool)
    (progressDeadline : Option ℤ) : Op Bool :=
  transaction do
    let row ← lift (leaseRow (← get) streamId lease)
    if pauses row now progress progressDeadline then do
      updateTask (TaskRow.is streamId lease.taskId) fun row' =>
        { row' with state := .recoveryCheck }
      return true
    else do
      Repository.bindInt now
      Repository.bindInt (now + ttl)
      updateTask (TaskRow.is streamId lease.taskId) fun row' =>
        { row' with
          lastHeartbeat := now, leaseUntil := now + ttl
          progressMark := if row.progressMark ≠ 0 ∨ progress then 1 else 0 }
      return false

/-- `heartbeat`. The pause commits before its error is raised. -/
def heartbeat (streamId : String) (lease : TaskLease) (now ttl : ℤ) (progress : Bool)
    (progressDeadline : Option ℤ) : Op TaskLease := do
  let paused ← heartbeatIn streamId lease now ttl progress progressDeadline
  raiseIf (paused = true) (.cyrano "NO_PROGRESS" "heartbeat without progress past the bound")
  return { lease with leaseUntil := now + ttl }

/-- The parent of a task is cancelled. -/
def parentCancelled (L : Ledger) (streamId taskId : String) : Bool :=
  (L.task? streamId taskId).any fun row => row.parentTask.any fun parent =>
    parent ≠ "" ∧ (L.task? streamId parent).any fun row' => row'.state = .cancelled

/-- The transaction of `settle`: why the result is stale, if it is. -/
def settleIn (streamId : String) (lease : TaskLease) (resultDigest outcome : String) :
    Op (Option String) :=
  transaction do
    let L ← get
    match leaseRow L streamId lease with
    | .error _ => return some "lease lost before result arrived"
    | .ok _ =>
      if parentCancelled L streamId lease.taskId then
        return some "parent cancelled; result is audit-only"
      else do
        updateTask (fun row => row.is streamId lease.taskId ∧ row.fence = lease.fence) fun row =>
          { row with
            state := if outcome = "completed" then .completed else .failed
            resultDigest := some resultDigest }
        return none

/-- `settle`. A stale result is audited after the transaction that found it stale. -/
def settle (streamId : String) (lease : TaskLease) (resultDigest outcome : String) : Op Unit := do
  raiseIf (outcome ≠ "completed" ∧ outcome ≠ "failed") (.cyrano "INVALID_OUTCOME" outcome)
  match ← settleIn streamId lease resultDigest outcome with
  | none => return ()
  | some reason => do
    Repository.audit streamId ("stale_result task=" ++ lease.taskId ++ " digest=" ++
      resultDigest ++ " reason=" ++ reason)
    throw (.cyrano "RESULT_STALE" reason)

/-- `reclaim_expired`. -/
def reclaimExpired (streamId : String) (now : ℤ) : Op (List String) :=
  transaction do
    Repository.bindInt now
    let L ← get
    let expired := (L.coordTasks.filter fun row =>
      row.streamId = streamId ∧ row.state = .leased ∧ row.leaseUntil ≤ now).map (·.taskId)
    updateTask (fun row => row.streamId = streamId ∧ row.taskId ∈ expired) fun row =>
      { row with state := .recoveryCheck, workerId := none }
    return expired

/-- `cancel_task`. -/
def cancelTask (streamId taskId : String) : Op Unit :=
  transaction do
    let L ← get
    match L.task? streamId taskId with
    | none => throw (.cyrano "TASK_UNKNOWN" taskId)
    | some row =>
      if row.state = .completed then return ()
      else updateTask (TaskRow.is streamId taskId) fun row' => { row' with state := .cancelled }

end TeamCoordinator

/-! ### The board as a machine -/

/-- The calls of any number of coordinators, each with the scope of the one that makes it
where the code checks it. -/
inductive BoardCall
  | registerTask (scopeId streamId taskId : String) (writePaths dependsOn : List String)
      (parentTask : Option String) (revision : ℤ)
  | claimTask (scopeId streamId taskId : String) (expectedRevision : ℤ) (workerId : String)
      (now ttl : ℤ)
  | heartbeat (streamId : String) (lease : TaskLease) (now ttl : ℤ) (progress : Bool)
      (progressDeadline : Option ℤ)
  | settle (streamId : String) (lease : TaskLease) (resultDigest outcome : String)
  | reclaimExpired (streamId : String) (now : ℤ)
  | cancelTask (streamId taskId : String)

/-- What a call on the board returns. -/
inductive BoardReply
  | done
  | lease (granted : TaskLease)
  | tasks (taskIds : List String)
  deriving DecidableEq, Repr

/-- The clock reading a call was given. -/
def BoardCall.now? : BoardCall → Option ℤ
  | .claimTask _ _ _ _ _ now _ => some now
  | .heartbeat _ _ now _ _ _ => some now
  | .reclaimExpired _ now => some now
  | _ => none

/-- Perform a call on the board. -/
def BoardCall.act (reprText : String → String) (call : BoardCall) (L : Ledger) :
    Except Failure BoardReply × Ledger :=
  match call with
  | .registerTask scopeId streamId taskId writePaths dependsOn parentTask revision =>
    ((fun _ => BoardReply.done) <$> TeamCoordinator.registerTask scopeId streamId taskId
      writePaths dependsOn parentTask revision).run L
  | .claimTask scopeId streamId taskId expectedRevision workerId now ttl =>
    (BoardReply.lease <$> TeamCoordinator.claimTask reprText scopeId streamId taskId
      expectedRevision workerId now ttl).run L
  | .heartbeat streamId lease now ttl progress progressDeadline =>
    (BoardReply.lease <$> TeamCoordinator.heartbeat streamId lease now ttl progress
      progressDeadline).run L
  | .settle streamId lease resultDigest outcome =>
    ((fun _ => BoardReply.done) <$> TeamCoordinator.settle streamId lease resultDigest
      outcome).run L
  | .reclaimExpired streamId now =>
    (BoardReply.tasks <$> TeamCoordinator.reclaimExpired streamId now).run L
  | .cancelTask streamId taskId =>
    ((fun _ => BoardReply.done) <$> TeamCoordinator.cancelTask streamId taskId).run L

end CyranoAgent
