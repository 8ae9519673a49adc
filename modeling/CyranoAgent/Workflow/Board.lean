import CyranoAgent.Sqlite.History
import CyranoAgent.Workflow.Coordination

/-!
# Write paths on the task board

No two live tasks of a stream may write a common path (`Exclusive`). A claim checks this
against the leases that are live at its `now`, and time only lets leases run out, so the one
way to break it is a heartbeat that revives an expired lease: by then another task may have
been granted the same path. `exclusive_iff` says that this is indeed the only way.

`TaskMoves` is what a call may do to one row, and `BoardEffect` what it does to the board.
-/

namespace CyranoAgent

open Lib Lib.Action TeamCoordinator

/-- One call of a history of the board. -/
abbrev BoardEntry := Entry Ledger BoardCall (Except Failure BoardReply)

/-- The tasks of the board have unique keys, as its primary key demands. -/
def Ledger.UniqueTasks (L : Ledger) : Prop :=
  (L.coordTasks.map fun row => (row.streamId, row.taskId)).Nodup

/-- `claim_task` lets the claim of `row` through: every check it makes before it writes. -/
def BoardCall.Grants (L : Ledger) (row : TaskRow) : BoardCall → Prop
  | .claimTask scopeId streamId taskId expectedRevision _ now ttl =>
    L.Owns scopeId streamId ∧ row.is streamId taskId = true ∧ row.revision = expectedRevision ∧
      row.state = .ready ∧ pendingDependencies L row = [] ∧ conflict? L row now = none ∧
      Repository.Bindable now ∧ Repository.Bindable (now + ttl)
  | _ => False

/-- `settle` takes the result for `row`: its lease is the caller's, and its parent is not
cancelled. -/
def BoardCall.Accepts (L : Ledger) (row : TaskRow) : BoardCall → Prop
  | .settle streamId lease _ outcome =>
    row.is streamId lease.taskId = true ∧ row.HeldBy lease.workerId lease.fence ∧
      parentCancelled L streamId lease.taskId = false ∧
      (outcome = "completed" ∨ outcome = "failed")
  | _ => False

/-- What a call may do to one row of the board `L`. -/
inductive TaskMoves (L : Ledger) : BoardCall → TaskRow → TaskRow → Prop
  | stays {call : BoardCall} {row : TaskRow} : TaskMoves L call row row
  | claimed {scopeId streamId taskId workerId : String} {expectedRevision now ttl : ℤ}
      {row : TaskRow} :
      (BoardCall.claimTask scopeId streamId taskId expectedRevision workerId now ttl).Grants L row →
      TaskMoves L (.claimTask scopeId streamId taskId expectedRevision workerId now ttl) row
        { row with
          state := .leased, workerId := some workerId, fence := row.fence + 1
          lastHeartbeat := now, leaseUntil := now + ttl }
  | renewed {streamId : String} {lease : TaskLease} {now ttl : ℤ} {progress : Bool}
      {progressDeadline : Option ℤ} {progressMark : ℤ} {row : TaskRow} :
      row.is streamId lease.taskId = true → row.HeldBy lease.workerId lease.fence →
      pauses row now progress progressDeadline = false →
      Repository.Bindable now → Repository.Bindable (now + ttl) →
      TaskMoves L (.heartbeat streamId lease now ttl progress progressDeadline) row
        { row with lastHeartbeat := now, leaseUntil := now + ttl, progressMark }
  | paused {streamId : String} {lease : TaskLease} {now ttl : ℤ} {progress : Bool}
      {progressDeadline : Option ℤ} {row : TaskRow} :
      row.is streamId lease.taskId = true → row.HeldBy lease.workerId lease.fence →
      TaskMoves L (.heartbeat streamId lease now ttl progress progressDeadline) row
        { row with state := .recoveryCheck }
  | settled {streamId resultDigest outcome : String} {lease : TaskLease} {state : TaskState}
      {row : TaskRow} : (BoardCall.settle streamId lease resultDigest outcome).Accepts L row →
      (state = .completed ∨ state = .failed) →
      TaskMoves L (.settle streamId lease resultDigest outcome) row
        { row with state, resultDigest := some resultDigest }
  | reclaimed {streamId : String} {now : ℤ} {row : TaskRow} : row.streamId = streamId →
      row.state = .leased → row.leaseUntil ≤ now →
      TaskMoves L (.reclaimExpired streamId now) row
        { row with state := .recoveryCheck, workerId := none }
  | cancelled {streamId taskId : String} {row : TaskRow} : row.is streamId taskId = true →
      row.state ≠ .completed →
      TaskMoves L (.cancelTask streamId taskId) row { row with state := .cancelled }

/-- What a call did to the board. -/
inductive BoardEffect (L : Ledger) (call : BoardCall) (L' : Ledger) : Prop
  | registered (row : TaskRow) : (∀ row' ∈ L.coordTasks, row'.is row.streamId row.taskId = false) →
      row.state = .ready → L'.coordTasks = L.coordTasks ++ [row] → BoardEffect L call L'
  | moved (move : TaskRow → TaskRow) : (∀ row ∈ L.coordTasks, TaskMoves L call row (move row)) →
      L'.coordTasks = L.coordTasks.map move → BoardEffect L call L'

section

variable {L L' : Ledger} {call : BoardCall}

/-! ### The effect of every call -/

theorem TaskRow.is_iff {row : TaskRow} {streamId taskId : String} :
    row.is streamId taskId = true ↔ row.streamId = streamId ∧ row.taskId = taskId := by
  simp [TaskRow.is]

theorem Ledger.mem_of_task? {streamId taskId : String} {row : TaskRow}
    (h : L.task? streamId taskId = some row) :
    row ∈ L.coordTasks ∧ row.is streamId taskId = true :=
  ⟨List.mem_of_find?_eq_some h, by simpa [TaskRow.is] using List.find?_some h⟩

/-- With unique keys, a task is found under its key. -/
theorem Ledger.UniqueTasks.task?_eq (hL : L.UniqueTasks) {row : TaskRow}
    (hrow : row ∈ L.coordTasks) : L.task? row.streamId row.taskId = some row := by
  have hfind := Rows.find?_key hL hrow
  simpa [Ledger.task?] using hfind

/-- With unique keys, the rows of one key are one row. -/
theorem Ledger.UniqueTasks.eq_of_is (hL : L.UniqueTasks) {row row' : TaskRow}
    {streamId taskId : String} (hrow : row ∈ L.coordTasks) (hrow' : row' ∈ L.coordTasks)
    (his : row.is streamId taskId = true) (his' : row'.is streamId taskId = true) :
    row = row' := by
  obtain ⟨rfl, rfl⟩ := TaskRow.is_iff.mp his
  obtain ⟨hs, ht⟩ := TaskRow.is_iff.mp his'
  exact Rows.eq_of_key_eq hL hrow hrow' (by rw [hs, ht])

/-- A call that leaves the board as it was. -/
theorem BoardEffect.still (h : L'.coordTasks = L.coordTasks) : BoardEffect L call L' :=
  .moved id (fun _ _ => .stays) (by rw [h, List.map_id])

/-- An `UPDATE coord_tasks` whose selected rows move as `call` allows. -/
theorem BoardEffect.of_update {p : TaskRow → Bool} {f : TaskRow → TaskRow}
    (hmove : ∀ row ∈ L.coordTasks, p row = true → TaskMoves L call row (f row))
    (h : L'.coordTasks = Rows.update p f L.coordTasks) : BoardEffect L call L' := by
  refine .moved (fun row => if p row then f row else row) (fun row hrow => ?_) h
  by_cases hp : p row = true
  · simpa [hp] using hmove row hrow hp
  · simpa [hp] using .stays

@[simp] theorem updateTask_eq_ok {p : TaskRow → Bool} {f : TaskRow → TaskRow} {u : Unit} :
    (updateTask p f).run L = (.ok u, L') ↔
      { L with coordTasks := Rows.update p f L.coordTasks } = L' := by
  simp [updateTask]

/-- The row a lease is accepted for. -/
theorem leaseRow_eq_ok {streamId : String} {lease : TaskLease} {row : TaskRow} :
    leaseRow L streamId lease = .ok row ↔
      L.task? streamId lease.taskId = some row ∧ row.HeldBy lease.workerId lease.fence := by
  rw [leaseRow]
  rcases L.task? streamId lease.taskId with _ | row'
  · simp
  · by_cases hheld : row'.HeldBy lease.workerId lease.fence
    · simp only [hheld, if_true, Except.ok.injEq, Option.some.injEq]
      constructor
      · rintro rfl
        exact ⟨rfl, hheld⟩
      · exact And.left
    · simp only [hheld, if_false, Option.some.injEq]
      constructor
      · simp
      · rintro ⟨rfl, h⟩
        exact absurd h hheld

/-- The effect is about the board alone. -/
theorem BoardEffect.congr {L₁ : Ledger} (h : BoardEffect L call L₁)
    (heq : L'.coordTasks = L₁.coordTasks) : BoardEffect L call L' := by
  cases h with
  | registered row hfresh hready hafter => exact .registered row hfresh hready (heq.trans hafter)
  | moved move hmove hafter => exact .moved move hmove (heq.trans hafter)

/-- A transaction has the effect of its body, or none. -/
theorem BoardEffect.of_transaction {α : Type} {body : Op α}
    (hok : ∀ a L', body.run L = (.ok a, L') → BoardEffect L call L') :
    BoardEffect L call ((transaction body).run L).2 := by
  rw [run_transaction]
  rcases hrun : body.run L with ⟨e | a, L'⟩
  · exact .still rfl
  · exact hok a L' hrun

theorem registerTask_effect (scopeId streamId taskId : String)
    (writePaths dependsOn : List String) (parentTask : Option String) (revision : ℤ) :
    BoardEffect L call ((registerTask scopeId streamId taskId writePaths dependsOn parentTask
      revision).run L).2 := by
  refine BoardEffect.of_transaction fun _ L' hrun => ?_
  simp only [bind_eq_ok, Repository.readScopedEntity_eq_ok, tryCatch_eq_ok, insertTask,
    Repository.bindInt_eq_ok, run_get, raiseIf_eq_ok, run_modify, Prod.mk.injEq, Except.ok.injEq,
    run_throw] at hrun
  obtain ⟨_, _, ⟨-, -, rfl⟩, ⟨_, _, ⟨-, rfl⟩, _, _, ⟨rfl, rfl⟩, _, _, ⟨hfresh, rfl⟩, -, rfl⟩ | h⟩ :=
    hrun
  · exact .registered _ (by simpa using hfresh) rfl rfl
  · simp at h

theorem conflict?_eq_none {row : TaskRow} {now : ℤ} :
    conflict? L row now = none ↔
      ∀ holder ∈ L.coordTasks, holder.streamId = row.streamId → holder.Live now →
        ¬row.Overlaps holder := by
  simp [conflict?, List.find?_eq_none]

/-- A row without write paths conflicts with none. -/
theorem conflict?_of_nil {row : TaskRow} (now : ℤ) (hnil : row.writePaths = []) :
    conflict? L row now = none := by
  refine conflict?_eq_none.mpr fun holder _ _ _ => ?_
  rintro ⟨path, hpath, -⟩
  simp [hnil] at hpath

/-- A checked row conflicts with no live holder. -/
theorem checkConflict_eq_ok {row : TaskRow} {now : ℤ} (hbind : Repository.Bindable now) :
    (checkConflict row now).run L = (.ok none, L') ↔ conflict? L row now = none ∧ L = L' := by
  simp only [checkConflict, ite_eq_ok, run_pure, Prod.mk.injEq, Except.ok.injEq, bind_eq_ok,
    Repository.bindInt_eq_ok, run_get]
  constructor
  · rintro (⟨hnil, -, rfl⟩ | ⟨-, _, _, ⟨-, rfl⟩, _, _, ⟨rfl, rfl⟩, hnone, rfl⟩)
    · exact ⟨conflict?_of_nil now hnil, rfl⟩
    · exact ⟨hnone, rfl⟩
  · rintro ⟨hnone, rfl⟩
    by_cases hnil : row.writePaths = []
    · exact .inl ⟨hnil, trivial, rfl⟩
    · exact .inr ⟨hnil, (), L, ⟨hbind, rfl⟩, L, L, ⟨rfl, rfl⟩, hnone, rfl⟩

/-- **When a claim is granted**: exactly when `claim_task` lets it through for the row of its
task, which it then leases. -/
theorem claimTask_eq_ok (reprText : String → String) (hL : L.UniqueTasks)
    {scopeId streamId taskId workerId : String} {expectedRevision now ttl : ℤ}
    {lease : TaskLease} :
    (claimTask reprText scopeId streamId taskId expectedRevision workerId now ttl).run L =
        (.ok lease, L') ↔
      ∃ row ∈ L.coordTasks,
        (BoardCall.claimTask scopeId streamId taskId expectedRevision workerId now ttl).Grants
          L row ∧ lease = ⟨taskId, workerId, row.fence + 1, now + ttl⟩ ∧
        L' = { L with
          coordTasks := Rows.update
            (fun row' => row'.is streamId taskId ∧ row'.revision = row.revision) (fun row' =>
              { row' with
                state := .leased, workerId := some workerId, fence := row'.fence + 1
                lastHeartbeat := now, leaseUntil := now + ttl }) L.coordTasks } := by
  rw [claimTask, transaction_eq_ok]
  simp only [bind_eq_ok, Repository.readScopedEntity_eq_ok]
  constructor
  · rintro ⟨_, _, ⟨howns, -, rfl⟩, _, _, hget, hrun⟩
    simp only [run_get, Prod.mk.injEq, Except.ok.injEq] at hget
    obtain ⟨rfl, rfl⟩ := hget
    split at hrun
    · simp at hrun
    next row hrow =>
    obtain ⟨hmem, his⟩ := Ledger.mem_of_task? hrow
    simp only [bind_eq_ok, raiseIf_eq_ok, not_not] at hrun
    obtain ⟨_, _, ⟨hrevision, rfl⟩, _, _, ⟨hready, rfl⟩, _, _, ⟨hdone, rfl⟩, holder?, _, hcheck,
      hrun⟩ := hrun
    rcases holder? with _ | holder
    · simp only [bind_eq_ok, Repository.bindInt_eq_ok, updateTask_eq_ok, run_pure,
        Prod.mk.injEq, Except.ok.injEq] at hrun
      obtain ⟨_, _, ⟨hnow, rfl⟩, _, _, ⟨huntil, rfl⟩, _, _, rfl, rfl, rfl⟩ := hrun
      obtain ⟨hnone, rfl⟩ := (checkConflict_eq_ok hnow).mp hcheck
      exact ⟨row, hmem, ⟨howns, his, hrevision, hready, hdone, hnone, hnow, huntil⟩, rfl, rfl⟩
    · simp at hrun
  · rintro ⟨row, hmem, ⟨howns, his, hrevision, hready, hdone, hnone, hnow, huntil⟩, rfl, rfl⟩
    refine ⟨_, _, ⟨howns, rfl, rfl⟩, L, L, rfl, ?_⟩
    obtain ⟨rfl, rfl⟩ := TaskRow.is_iff.mp his
    simp only [hL.task?_eq hmem, bind_eq_ok, raiseIf_eq_ok, not_not]
    refine ⟨(), L, ⟨hrevision, rfl⟩, (), L, ⟨hready, rfl⟩, (), L, ⟨hdone, rfl⟩, none, L,
      (checkConflict_eq_ok hnow).mpr ⟨hnone, rfl⟩, ?_⟩
    simp only [bind_eq_ok, Repository.bindInt_eq_ok, updateTask_eq_ok, run_pure, Prod.mk.injEq]
    exact ⟨(), L, ⟨hnow, rfl⟩, (), L, ⟨huntil, rfl⟩, (), _, rfl, trivial, rfl⟩

theorem claimTask_effect (hL : L.UniqueTasks) (reprText : String → String)
    (scopeId streamId taskId : String) (expectedRevision : ℤ) (workerId : String) (now ttl : ℤ) :
    BoardEffect L (.claimTask scopeId streamId taskId expectedRevision workerId now ttl)
      ((claimTask reprText scopeId streamId taskId expectedRevision workerId now ttl).run L).2 := by
  refine BoardEffect.of_transaction fun lease L' hrun => ?_
  obtain ⟨row, hmem, hgrants, -, rfl⟩ :=
    (claimTask_eq_ok reprText hL).mp (transaction_eq_ok.mpr hrun)
  refine BoardEffect.of_update (fun row' hrow' hsel => ?_) rfl
  obtain rfl := hL.eq_of_is hrow' hmem (of_decide_eq_true hsel).1 hgrants.2.1
  exact .claimed hgrants

/-- The ledger a heartbeat leaves is the one of its transaction, also when it raises. -/
theorem run_heartbeat (streamId : String) (lease : TaskLease) (now ttl : ℤ) (progress : Bool)
    (progressDeadline : Option ℤ) :
    ((heartbeat streamId lease now ttl progress progressDeadline).run L).2 =
      ((heartbeatIn streamId lease now ttl progress progressDeadline).run L).2 :=
  keeps_run_bind (f := fun L : Ledger => L)
    (fun _ => ((readOnly_raiseIf _ _).bind fun _ => readOnly_pure _).keeps) L

theorem heartbeat_effect (hL : L.UniqueTasks) (streamId : String) (lease : TaskLease)
    (now ttl : ℤ) (progress : Bool) (progressDeadline : Option ℤ) :
    BoardEffect L (.heartbeat streamId lease now ttl progress progressDeadline)
      ((heartbeat streamId lease now ttl progress progressDeadline).run L).2 := by
  rw [run_heartbeat]
  refine BoardEffect.of_transaction fun _ L' hrun => ?_
  simp only [bind_eq_ok, run_get, lift_eq_ok, ite_eq_ok, updateTask_eq_ok, run_pure,
    Repository.bindInt_eq_ok, Prod.mk.injEq, Except.ok.injEq] at hrun
  obtain ⟨_, _, ⟨rfl, rfl⟩, row, _, ⟨hrow, rfl⟩, hrun⟩ := hrun
  obtain ⟨hfound, hheld⟩ := leaseRow_eq_ok.mp hrow
  obtain ⟨hmem, his⟩ := Ledger.mem_of_task? hfound
  rcases hrun with ⟨-, _, _, rfl, -, rfl⟩ |
    ⟨hnot, _, _, ⟨hnow, rfl⟩, _, _, ⟨huntil, rfl⟩, _, _, rfl, -, rfl⟩
  · refine BoardEffect.of_update (fun row' hrow' his' => ?_) rfl
    obtain rfl := hL.eq_of_is hrow' hmem his' his
    exact .paused his hheld
  · refine BoardEffect.of_update (fun row' hrow' his' => ?_) rfl
    obtain rfl := hL.eq_of_is hrow' hmem his' his
    exact .renewed his hheld (by simpa using hnot) hnow huntil

/-- An audit leaves the board alone. -/
theorem keeps_audit (streamId detail : String) :
    Keeps Ledger.coordTasks (Repository.audit streamId detail) := by
  refine Keeps.transaction ?_
  exact keeps_modify fun _ => rfl

/-- **When a result is taken**: exactly when the lease is the caller's and its parent is not
cancelled. -/
theorem settleIn_eq_ok (hL : L.UniqueTasks) (streamId resultDigest : String)
    {outcome : String} {lease : TaskLease} (hknown : outcome = "completed" ∨ outcome = "failed") :
    (settleIn streamId lease resultDigest outcome).run L = (.ok none, L') ↔
      ∃ row ∈ L.coordTasks, (BoardCall.settle streamId lease resultDigest outcome).Accepts L row ∧
        L' = { L with
          coordTasks := Rows.update
            (fun row => row.is streamId lease.taskId ∧ row.fence = lease.fence) (fun row =>
              { row with
                state := if outcome = "completed" then .completed else .failed
                resultDigest := some resultDigest }) L.coordTasks } := by
  rw [settleIn, transaction_eq_ok]
  constructor
  · intro hrun
    obtain ⟨_, _, hget, hrun⟩ := bind_eq_ok.mp hrun
    simp only [run_get, Prod.mk.injEq, Except.ok.injEq] at hget
    obtain ⟨rfl, rfl⟩ := hget
    split at hrun
    · simp at hrun
    next row hrow =>
    obtain ⟨hfound, hheld⟩ := leaseRow_eq_ok.mp hrow
    obtain ⟨hmem, his⟩ := Ledger.mem_of_task? hfound
    simp only [ite_eq_ok, run_pure, bind_eq_ok, updateTask_eq_ok, Prod.mk.injEq, Except.ok.injEq,
      reduceCtorEq, false_and, and_false, false_or] at hrun
    obtain ⟨hparent, _, _, rfl, -, rfl⟩ := hrun
    exact ⟨row, hmem, ⟨his, hheld, by simpa using hparent, hknown⟩, rfl⟩
  · rintro ⟨row, hmem, ⟨his, hheld, hparent, -⟩, rfl⟩
    obtain ⟨rfl, ht⟩ := TaskRow.is_iff.mp his
    have hfound : leaseRow L row.streamId lease = .ok row :=
      leaseRow_eq_ok.mpr ⟨ht ▸ hL.task?_eq hmem, hheld⟩
    refine bind_eq_ok.mpr ⟨L, L, rfl, ?_⟩
    simp [hfound, hparent]

/-- The board that a settlement leaves is the one of its transaction: the audit of a stale result
is written after it, and not to the board. -/
theorem coordTasks_settle (streamId : String) (lease : TaskLease) (resultDigest outcome : String)
    (hknown : outcome = "completed" ∨ outcome = "failed") :
    ((settle streamId lease resultDigest outcome).run L).2.coordTasks =
      ((settleIn streamId lease resultDigest outcome).run L).2.coordTasks := by
  rw [settle, run_raiseIf_skip (by tauto)]
  refine keeps_run_bind (f := Ledger.coordTasks) (fun reason? => ?_) L
  rcases reason? with _ | reason
  · exact (readOnly_pure ()).keeps
  · exact (keeps_audit _ _).bind fun _ => (readOnly_throw _).keeps

theorem settle_effect (hL : L.UniqueTasks) (streamId : String) (lease : TaskLease)
    (resultDigest outcome : String) :
    BoardEffect L (.settle streamId lease resultDigest outcome)
      ((settle streamId lease resultDigest outcome).run L).2 := by
  by_cases hknown : outcome = "completed" ∨ outcome = "failed"
  · refine BoardEffect.congr ?_ (coordTasks_settle streamId lease resultDigest outcome hknown)
    rcases hrun : (settleIn streamId lease resultDigest outcome).run L with ⟨failure | reason?, L'⟩
    · rw [run_transaction_error hrun]
      exact .still rfl
    · rcases reason? with _ | reason
      · obtain ⟨row, hmem, haccepts, rfl⟩ := (settleIn_eq_ok hL _ _ hknown).mp hrun
        refine BoardEffect.of_update (fun row' hrow' hsel => ?_) rfl
        obtain rfl := hL.eq_of_is hrow' hmem (of_decide_eq_true hsel).1 haccepts.1
        exact .settled haccepts (by split <;> simp)
      · -- a stale result: the transaction wrote nothing
        rw [settleIn, transaction_eq_ok] at hrun
        obtain ⟨_, _, hget, hrun⟩ := bind_eq_ok.mp hrun
        simp only [run_get, Prod.mk.injEq, Except.ok.injEq] at hget
        obtain ⟨rfl, rfl⟩ := hget
        split at hrun
        · simp only [run_pure, Prod.mk.injEq] at hrun
          exact .still (hrun.2 ▸ rfl)
        · simp only [ite_eq_ok, run_pure, bind_eq_ok, updateTask_eq_ok, Prod.mk.injEq,
            Except.ok.injEq, reduceCtorEq, false_and, and_false, exists_false, or_false] at hrun
          exact .still (hrun.2.2 ▸ rfl)
  · rw [settle, run_raiseIf_bind, if_pos (by tauto)]
    exact .still rfl

theorem reclaimExpired_effect (hL : L.UniqueTasks) (streamId : String) (now : ℤ) :
    BoardEffect L (.reclaimExpired streamId now) ((reclaimExpired streamId now).run L).2 := by
  refine BoardEffect.of_transaction fun _ L' hrun => ?_
  simp only [bind_eq_ok, Repository.bindInt_eq_ok, run_get, updateTask_eq_ok, run_pure,
    Prod.mk.injEq, Except.ok.injEq] at hrun
  obtain ⟨_, _, ⟨-, rfl⟩, _, _, ⟨rfl, rfl⟩, _, _, rfl, -, rfl⟩ := hrun
  refine BoardEffect.of_update (fun row hrow hsel => ?_) rfl
  obtain ⟨hs, hexpired⟩ := of_decide_eq_true hsel
  obtain ⟨row', hrow', ht⟩ := List.mem_map.mp hexpired
  obtain ⟨hmem', hsel'⟩ := List.mem_filter.mp hrow'
  obtain ⟨hs', hleased, huntil⟩ := of_decide_eq_true hsel'
  obtain rfl := Rows.eq_of_key_eq hL hrow hmem' (by rw [hs, hs', ht])
  exact .reclaimed hs hleased huntil

theorem cancelTask_effect (hL : L.UniqueTasks) (streamId taskId : String) :
    BoardEffect L (.cancelTask streamId taskId) ((cancelTask streamId taskId).run L).2 := by
  refine BoardEffect.of_transaction fun _ L' hrun => ?_
  obtain ⟨_, _, hget, hrun⟩ := bind_eq_ok.mp hrun
  simp only [run_get, Prod.mk.injEq, Except.ok.injEq] at hget
  obtain ⟨rfl, rfl⟩ := hget
  split at hrun
  · simp at hrun
  next row hrow =>
  obtain ⟨hmem, his⟩ := Ledger.mem_of_task? hrow
  simp only [ite_eq_ok, run_pure, updateTask_eq_ok, Prod.mk.injEq] at hrun
  rcases hrun with ⟨-, -, rfl⟩ | ⟨hopen, rfl⟩
  · exact .still rfl
  · refine BoardEffect.of_update (fun row' hrow' his' => ?_) rfl
    obtain rfl := hL.eq_of_is hrow' hmem his' his
    exact .cancelled his hopen

/-- **Every call has one of the effects**, whether it returns or raises. -/
theorem BoardCall.effect (hL : L.UniqueTasks) (reprText : String → String) (call : BoardCall) :
    BoardEffect L call (call.act reprText L).2 := by
  cases call with
  | registerTask => simpa only [BoardCall.act, run_map] using registerTask_effect ..
  | claimTask => simpa only [BoardCall.act, run_map] using claimTask_effect hL ..
  | heartbeat => simpa only [BoardCall.act, run_map] using heartbeat_effect hL ..
  | settle => simpa only [BoardCall.act, run_map] using settle_effect hL ..
  | reclaimExpired => simpa only [BoardCall.act, run_map] using reclaimExpired_effect hL ..
  | cancelTask => simpa only [BoardCall.act, run_map] using cancelTask_effect hL ..

/-! ### Unique keys -/

namespace TaskMoves

variable {row row' : TaskRow}

/-- A move keeps a task's identity and its write paths. -/
theorem key_eq (h : TaskMoves L call row row') :
    row'.streamId = row.streamId ∧ row'.taskId = row.taskId ∧
      row'.writePaths = row.writePaths := by
  cases h <;> exact ⟨rfl, rfl, rfl⟩

end TaskMoves

/-- Every call keeps task keys unique. -/
theorem BoardEffect.uniqueTasks (hL : L.UniqueTasks) (h : BoardEffect L call L') :
    L'.UniqueTasks := by
  cases h with
  | registered row hfresh hready hafter =>
    rw [Ledger.UniqueTasks, hafter]
    refine Rows.nodup_append hL fun row' hrow' heq => ?_
    obtain ⟨hs, ht⟩ := Prod.mk.inj heq
    have his := hfresh row' hrow'
    rw [TaskRow.is_iff.mpr ⟨hs, ht⟩] at his
    exact absurd his (by simp)
  | moved move hmove hafter =>
    have hkeys : (L.coordTasks.map move).map (fun row => (row.streamId, row.taskId)) =
        L.coordTasks.map fun row => (row.streamId, row.taskId) := by
      rw [List.map_map]
      refine List.map_congr_left fun row hrow => ?_
      obtain ⟨hs, ht, -⟩ := (hmove row hrow).key_eq
      simp [hs, ht]
    rw [Ledger.UniqueTasks, hafter, hkeys]
    exact hL

/-! ### Exclusive write paths -/

/-- No two live tasks of a stream write a common path. -/
def Exclusive (L : Ledger) (now : ℤ) : Prop :=
  ∀ row ∈ L.coordTasks, ∀ row' ∈ L.coordTasks, row.streamId = row'.streamId →
    row.taskId ≠ row'.taskId → row.Live now → row'.Live now → ¬row.Overlaps row'

instance (L : Ledger) (now : ℤ) : Decidable (Exclusive L now) :=
  inferInstanceAs (Decidable (∀ row ∈ L.coordTasks, ∀ row' ∈ L.coordTasks, _ → _ → _ → _ → _))

/-- The heartbeat renews a lease that has run out, for a task that overlaps a live one. -/
def Revives (L : Ledger) : BoardCall → Prop
  | .heartbeat streamId lease now ttl progress progressDeadline =>
    0 < ttl ∧ Repository.Bindable now ∧ Repository.Bindable (now + ttl) ∧
      ∃ row ∈ L.coordTasks, row.is streamId lease.taskId = true ∧
        row.HeldBy lease.workerId lease.fence ∧
        pauses row now progress progressDeadline = false ∧ row.leaseUntil ≤ now ∧
        ∃ holder ∈ L.coordTasks, holder.streamId = row.streamId ∧ holder.taskId ≠ row.taskId ∧
          holder.Live now ∧ row.Overlaps holder
  | _ => False

theorem TaskRow.Overlaps.symm {row row' : TaskRow} (h : row.Overlaps row') :
    row'.Overlaps row := by
  obtain ⟨path, hpath, hpath'⟩ := h
  exact ⟨path, hpath', hpath⟩

/-- A lease that is live is live at every earlier time. -/
theorem TaskRow.Live.anti {row : TaskRow} {now now' : ℤ} (h : row.Live now') (hle : now ≤ now') :
    row.Live now := ⟨h.1, hle.trans_lt h.2⟩

/-- What is exclusive stays so as time passes. -/
theorem Exclusive.mono {now now' : ℤ} (h : Exclusive L now) (hle : now ≤ now') :
    Exclusive L now' := fun row hrow row' hrow' hs ht hlive hlive' =>
  h row hrow row' hrow' hs ht (hlive.anti hle) (hlive'.anti hle)

/-- The task a call may lease. -/
def BoardCall.target? : BoardCall → Option (String × String)
  | .claimTask _ streamId taskId _ _ _ _ => some (streamId, taskId)
  | .heartbeat streamId lease _ _ _ _ => some (streamId, lease.taskId)
  | _ => none

/-- A row that is live after a call was live at the call's time, or the call has just leased
it and it overlaps no other live row. -/
theorem TaskMoves.live {row row' : TaskRow} {now t : ℤ} (h : TaskMoves L call row row')
    (hrow : row ∈ L.coordTasks) (hquiet : ¬Revives L call) (hnow : call.now?.getD t = now)
    (hle : now ≤ t) (hlive : row'.Live t) :
    row.Live now ∨ (call.target? = some (row.streamId, row.taskId) ∧
      ∀ holder ∈ L.coordTasks, holder.streamId = row.streamId → holder.taskId ≠ row.taskId →
        holder.Live now → ¬row.Overlaps holder) := by
  cases h with
  | stays => exact .inl (hlive.anti hle)
  | claimed hgrants =>
    obtain ⟨-, his, -, -, -, hnone, -⟩ := hgrants
    obtain ⟨rfl, rfl⟩ := TaskRow.is_iff.mp his
    obtain rfl : _ = now := hnow
    exact .inr ⟨rfl, fun holder hmem hs _ => conflict?_eq_none.mp hnone holder hmem hs⟩
  | @renewed _ lease now' ttl _ _ _ _ his hheld hpause hbind hbind' =>
    obtain ⟨rfl, ht⟩ := TaskRow.is_iff.mp his
    obtain rfl : now' = now := hnow
    by_cases hexpired : row.leaseUntil ≤ now'
    · refine .inr ⟨by simp [BoardCall.target?, ht], fun holder hmem hs hne hholder hover => ?_⟩
      have hlt : t < now' + ttl := hlive.2
      exact hquiet ⟨by omega, hbind, hbind', row, hrow, his, hheld, hpause, hexpired, holder, hmem,
        hs, hne, hholder, hover⟩
    · exact .inl ⟨hheld.1, not_le.mp hexpired⟩
  | settled _ hstate =>
    have hleased := hlive.1
    rcases hstate with rfl | rfl <;> exact absurd hleased (by simp)
  | paused | reclaimed | cancelled => exact absurd hlive.1 (by simp)

/-- One call keeps write paths exclusive, unless it revives a lease. -/
theorem BoardEffect.exclusive {now t : ℤ} (h : BoardEffect L call L') (hquiet : ¬Revives L call)
    (hnow : call.now?.getD t = now) (hle : now ≤ t) (hex : Exclusive L now) :
    Exclusive L' t := by
  cases h with
  | registered row hfresh hready hafter =>
    have hold : ∀ row' ∈ L'.coordTasks, row'.Live t → row' ∈ L.coordTasks := by
      intro row' hrow' hlive
      rw [hafter, List.mem_append, List.mem_singleton] at hrow'
      rcases hrow' with hrow' | rfl
      · exact hrow'
      · have hleased := hlive.1
        rw [hready] at hleased
        exact absurd hleased (by simp)
    intro row₁ hrow₁ row₂ hrow₂ hs ht hlive₁ hlive₂
    exact hex.mono hle row₁ (hold row₁ hrow₁ hlive₁) row₂ (hold row₂ hrow₂ hlive₂) hs ht hlive₁
      hlive₂
  | moved move hmove hafter =>
    intro row₁' hrow₁' row₂' hrow₂' hs ht hlive₁ hlive₂
    rw [hafter, List.mem_map] at hrow₁' hrow₂'
    obtain ⟨row₁, hrow₁, rfl⟩ := hrow₁'
    obtain ⟨row₂, hrow₂, rfl⟩ := hrow₂'
    obtain ⟨hs₁, ht₁, hw₁⟩ := (hmove row₁ hrow₁).key_eq
    obtain ⟨hs₂, ht₂, hw₂⟩ := (hmove row₂ hrow₂).key_eq
    rw [hs₁, hs₂] at hs
    rw [ht₁, ht₂] at ht
    rw [TaskRow.Overlaps, hw₁, hw₂]
    rcases (hmove row₁ hrow₁).live hrow₁ hquiet hnow hle hlive₁ with hold₁ | ⟨htarget₁, hfree₁⟩ <;>
      rcases (hmove row₂ hrow₂).live hrow₂ hquiet hnow hle hlive₂ with hold₂ | ⟨htarget₂, hfree₂⟩
    · exact hex row₁ hrow₁ row₂ hrow₂ hs ht hold₁ hold₂
    · exact fun hover => hfree₂ row₁ hrow₁ hs ht hold₁ (TaskRow.Overlaps.symm hover)
    · exact hfree₁ row₂ hrow₂ hs.symm ht.symm hold₂
    · -- one call leases one task
      rw [htarget₁, Option.some.injEq, Prod.mk.injEq] at htarget₂
      exact absurd htarget₂.2 ht

/-- A heartbeat that revives a lease leaves two live tasks that overlap. -/
theorem Revives.not_exclusive (hL : L.UniqueTasks) (reprText : String → String)
    (h : Revives L call) :
    ∃ now, call.now? = some now ∧ ¬Exclusive (call.act reprText L).2 now := by
  cases call with
  | heartbeat streamId lease now ttl progress progressDeadline =>
    obtain ⟨httl, hbind, hbind', row, hrow, his, hheld, hpause, -, holder, hholder, hs, hne,
      hlive, hover⟩ := h
    obtain ⟨rfl, ht⟩ := TaskRow.is_iff.mp his
    have hfound : leaseRow L row.streamId lease = .ok row :=
      leaseRow_eq_ok.mpr ⟨ht ▸ hL.task?_eq hrow, hheld⟩
    have hrun : (heartbeatIn row.streamId lease now ttl progress progressDeadline).run L =
        (.ok false, { L with
          coordTasks := Rows.update (TaskRow.is row.streamId lease.taskId) (fun row' =>
            { row' with
              lastHeartbeat := now, leaseUntil := now + ttl
              progressMark := if row.progressMark ≠ 0 ∨ progress then 1 else 0 })
            L.coordTasks }) := by
      simp [heartbeatIn, hfound, hpause, hbind, hbind']
    refine ⟨now, rfl, fun hex => ?_⟩
    have hafter : (BoardCall.act reprText (.heartbeat row.streamId lease now ttl progress
        progressDeadline) L).2 = _ :=
      (congrArg Prod.snd (run_map _ _ L)).trans
        ((run_heartbeat ..).trans (congrArg Prod.snd hrun))
    rw [hafter] at hex
    have hnot : TaskRow.is row.streamId lease.taskId holder = false := by
      simp [TaskRow.is, ← ht, hne]
    exact hex _ (Rows.mem_update.mpr ⟨row, hrow, if_pos his⟩) holder
      (Rows.mem_update_of_not hholder hnot) hs.symm (Ne.symm hne)
      ⟨hheld.1, show now < now + ttl by omega⟩ hlive hover
  | _ => exact h.elim

end

/-! ### Runs of the board -/

/-- The clock readings of a history, in order. -/
def nows (h : List BoardEntry) : List ℤ := h.filterMap (·.op.now?)

section

variable {L₀ L : Ledger} {h : List BoardEntry} {reprText : String → String}

theorem nows_snoc (h : List BoardEntry) (e : BoardEntry) :
    nows (h ++ [e]) = nows h ++ e.op.now?.toList := by
  rw [nows, List.filterMap_append]
  rcases hnow : e.op.now? with _ | now <;> simp [nows, hnow]

theorem uniqueTasks_of_run (hL : L₀.UniqueTasks) (hr : Run (BoardCall.act reprText) L₀ h L) :
    L.UniqueTasks :=
  hr.inv_state hL fun _ call hL => (BoardCall.effect hL reprText call).uniqueTasks hL

/-- An empty board has unique keys. -/
theorem uniqueTasks_of_nil (hboard : L.coordTasks = []) : L.UniqueTasks := by
  simp [Ledger.UniqueTasks, hboard]

/-- **A run that revives no lease keeps write paths exclusive**, at every time from its last
clock reading on. -/
theorem exclusive_of_run (hboard : L₀.coordTasks = [])
    (hr : Run (BoardCall.act reprText) L₀ h L) (hclock : (nows h).Pairwise (· ≤ ·))
    (hquiet : ∀ e ∈ h, ¬Revives e.before e.op) {t : ℤ} (ht : ∀ now ∈ nows h, now ≤ t) :
    Exclusive L t := by
  revert hclock hquiet t
  refine hr.inv (I := fun h L => (nows h).Pairwise (· ≤ ·) → (∀ e ∈ h, ¬Revives e.before e.op) →
    ∀ {t : ℤ}, (∀ now ∈ nows h, now ≤ t) → Exclusive L t)
    (fun _ _ _ _ => by simp [Exclusive, hboard]) ?_
  intro h L call hr ih hclock hquiet t ht
  rw [nows_snoc, List.pairwise_append] at hclock
  rw [nows_snoc] at ht
  simp only [List.mem_append, List.mem_singleton, or_imp, forall_and, forall_eq] at hquiet ht
  have heff := BoardCall.effect (uniqueTasks_of_run (uniqueTasks_of_nil hboard) hr) reprText call
  rcases hnow : call.now? with _ | now
  · exact heff.exclusive hquiet.2 (by rw [hnow]; rfl) le_rfl (ih hclock.1 hquiet.1 ht.1)
  · have hmem : now ∈ (Entry.perform (BoardCall.act reprText) L call).op.now?.toList := by
      simp [hnow]
    exact heff.exclusive hquiet.2 (by rw [hnow]; rfl) (ht.2 now hmem)
      (ih hclock.1 hquiet.1 fun now' hnow' => hclock.2.2 now' hnow' now hmem)

/-- **When write paths stay exclusive**, over every run from an empty board with a clock that
does not go back: exactly when no heartbeat revives an expired lease whose paths a live task
of the stream has taken. -/
theorem exclusive_iff (hboard : L₀.coordTasks = []) (hr : Run (BoardCall.act reprText) L₀ h L)
    (hclock : (nows h).Pairwise (· ≤ ·)) :
    (∀ h₁ e h₂, h = h₁ ++ e :: h₂ → ∀ t, (∀ now ∈ nows (h₁ ++ [e]), now ≤ t) →
        Exclusive e.after t) ↔
      ∀ e ∈ h, ¬Revives e.before e.op := by
  have hupTo {h₁ h₂ : List BoardEntry} {e : BoardEntry} (heq : h = h₁ ++ e :: h₂) :
      (nows (h₁ ++ [e])).Pairwise (· ≤ ·) := by
    rw [heq, List.append_cons, nows, List.filterMap_append, List.pairwise_append] at hclock
    exact hclock.1
  constructor
  · intro hex e he hrev
    obtain ⟨h₁, h₂, rfl⟩ := List.append_of_mem he
    obtain ⟨hbefore, hperform, -⟩ := hr.split
    obtain ⟨now, hnow, hbroken⟩ :=
      hrev.not_exclusive (uniqueTasks_of_run (uniqueTasks_of_nil hboard) hbefore) reprText
    have hafter : e.after = (e.op.act reprText e.before).2 := congrArg Entry.after hperform
    rw [← hafter] at hbroken
    refine hbroken (hex h₁ e h₂ rfl now fun now' hnow' => ?_)
    have hsorted := hupTo rfl
    rw [nows_snoc, hnow, Option.toList_some] at hsorted hnow'
    rcases List.mem_append.mp hnow' with hmem | hmem
    · exact (List.pairwise_append.mp hsorted).2.2 now' hmem now (List.mem_singleton_self _)
    · exact (List.mem_singleton.mp hmem).le
  · rintro hquiet h₁ e h₂ rfl t ht
    refine exclusive_of_run hboard hr.upTo (hupTo rfl) (fun e' he' => hquiet e' ?_) ht
    rw [List.append_cons]
    exact List.mem_append_left _ he'

end

/-- The calls of two workers whose tasks write one file: the second is granted it after the
first lease has run out, and the first still sends its heartbeat. -/
def lateHeartbeat : List BoardCall :=
  [.registerTask acmeScope "s" "a" ["f.py"] [] none 0,
    .registerTask acmeScope "s" "b" ["f.py"] [] none 0,
    .claimTask acmeScope "s" "a" 0 "worker-a" 0 10,
    .claimTask acmeScope "s" "b" 0 "worker-b" 20 300,
    .heartbeat "s" ⟨"a", "worker-a", 1, 10⟩ 21 300 false none]

/-- The text of a string with no quote and no backslash in it, as an error shows it. -/
def quoted (s : String) : String := "'" ++ s ++ "'"

/-- Without the late heartbeat the board is exclusive. -/
theorem exclusive_iff_claims :
    let run := exec (BoardCall.act quoted) acmeLedger (lateHeartbeat.take 4)
    (∀ h₁ e h₂, run.1 = h₁ ++ e :: h₂ → ∀ t, (∀ now ∈ nows (h₁ ++ [e]), now ≤ t) →
        Exclusive e.after t) ↔
      ∀ e ∈ run.1, ¬Revives e.before e.op :=
  exclusive_iff rfl (run_exec _ _ _) (by decide)

/-- **A late heartbeat breaks exclusivity**: both tasks are leased past 21, with one path. -/
theorem late_heartbeat_overlaps :
    ¬∀ (reprText : String → String) (L₀ L : Ledger) (h : List BoardEntry),
      L₀.coordTasks = [] → Run (BoardCall.act reprText) L₀ h L → (nows h).Pairwise (· ≤ ·) →
      ∀ t, (∀ now ∈ nows h, now ≤ t) → Exclusive L t := by
  intro hclaim
  obtain ⟨hclock, hlast, hbroken⟩ :
      (nows (exec (BoardCall.act quoted) acmeLedger lateHeartbeat).1).Pairwise (· ≤ ·) ∧
        (∀ now ∈ nows (exec (BoardCall.act quoted) acmeLedger lateHeartbeat).1, now ≤ 21) ∧
        ¬Exclusive (exec (BoardCall.act quoted) acmeLedger lateHeartbeat).2 21 := by
    decide
  exact hbroken (hclaim quoted acmeLedger _ _ rfl (run_exec _ _ _) hclock 21 hlast)

end CyranoAgent
