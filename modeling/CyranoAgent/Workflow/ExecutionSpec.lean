import CyranoAgent.Sqlite.History
import CyranoAgent.Workflow.Execution

/-!
# What the runner's calls do

A runner's operation is made of statements of the ledger (`onLedger`), of its own memory and
of checks. The first part says how each of them runs, on its own and as the head of a
sequence; the second that every operation keeps the ledger well formed, however it ends.
-/

namespace CyranoAgent

open Lib Lib.Action AttemptRunner

/-- The calls with which an attempt is settled. -/
def Call.Settles : Call → Prop
  | .submitResult .. | .failJob .. | .recordUsage .. | .markJobUnknown .. => True
  | _ => False

section

variable {P : Primitives} {L L' : Ledger} {runner runner' : AttemptRunner}

/-! ### Statements -/

@[simp] theorem onLedger_eq_ok {α : Type} {op : Op α} {a : α} {s s' : AttemptRunner × Ledger} :
    (onLedger op).run s = (.ok a, s') ↔ ∃ L', op.run s.2 = (.ok a, L') ∧ (s.1, L') = s' := by
  change ((op.run s.2).1, (s.1, (op.run s.2).2)) = (.ok a, s') ↔ _
  rcases op.run s.2 with ⟨x, L'⟩
  constructor
  · rintro h
    obtain ⟨rfl, rfl⟩ := Prod.mk.inj h
    exact ⟨L', rfl, rfl⟩
  · rintro ⟨_, h, rfl⟩
    obtain ⟨rfl, rfl⟩ := Prod.mk.inj h
    rfl

/-- A stream is dispatchable until a cancellation of it is on record. -/
theorem requireDispatchable_eq_ok {streamId : String} {u : Unit} :
    (requireDispatchable streamId).run L = (.ok u, L') ↔
      L.cancellation? streamId = none ∧ L = L' := by
  have hstate : ((L.cancellation? streamId).map (·.state.text)).getD "active" = "active" ↔
      L.cancellation? streamId = none := by
    rcases L.cancellation? streamId with _ | row
    · simp
    · rcases row with ⟨_, _, state, _⟩
      cases state <;> simp [CancellationState.text]
  simp [requireDispatchable, runState, hstate, and_comm]

theorem readOnly_requireDispatchable (streamId : String) :
    ReadOnly (requireDispatchable streamId) :=
  (readOnly_get.bind fun _ => readOnly_pure _).bind fun _ => readOnly_raiseIf _ _

theorem readOnly_readScopedEntity (scopeId streamId : String) :
    ReadOnly (Repository.readScopedEntity scopeId streamId) :=
  (readOnly_get.bind fun _ => readOnly_raiseIf _ _).bind fun _ =>
    readOnly_get.bind fun _ => readOnly_pure _

/-! ### Sequences -/

theorem run_onLedger_then {α β : Type} (op : Op α) (next : α → RunnerOp β)
    (runner : AttemptRunner) (L : Ledger) :
    (onLedger op >>= next).run (runner, L) =
      match op.run L with
      | (.ok a, L') => (next a).run (runner, L')
      | (.error e, L') => (.error e, (runner, L')) := by
  have hrun : (onLedger op).run (runner, L) = ((op.run L).1, (runner, (op.run L).2)) := rfl
  rw [run_bind, hrun]
  rcases op.run L with ⟨_ | _, _⟩ <;> rfl

/-- A statement of the ledger, as the last of a sequence. -/
theorem onLedger_last {α β : Type} {op : Op α} {f : α → β} {x : Except Failure β}
    (h : (onLedger op >>= fun a => pure (f a)).run (runner, L) = (x, (runner', L'))) :
    (∃ e, op.run L = (.error e, L') ∧ x = .error e) ∨
      ∃ a, op.run L = (.ok a, L') ∧ x = .ok (f a) := by
  rw [run_onLedger_then] at h
  rcases hrun : op.run L with ⟨e | a, L₁⟩ <;>
    simp only [hrun, run_pure, Prod.mk.injEq] at h <;>
    obtain ⟨rfl, rfl, rfl⟩ := h
  · exact .inl ⟨e, rfl, rfl⟩
  · exact .inr ⟨a, rfl, rfl⟩

theorem run_get_then {β : Type} (next : AttemptRunner × Ledger → RunnerOp β)
    (s : AttemptRunner × Ledger) : (get >>= next).run s = (next s).run s := rfl

theorem run_updateRunner_then {β : Type} (f : AttemptRunner → AttemptRunner)
    (next : Unit → RunnerOp β) (runner : AttemptRunner) (L : Ledger) :
    (updateRunner f >>= next).run (runner, L) = (next ()).run (f runner, L) := rfl

theorem onLedger_then {α β : Type} (op : Op α) (next : α → Op β) :
    onLedger (op >>= next) = onLedger op >>= fun a => onLedger (next a) := by
  refine run_ext fun (runner, L) => ?_
  rw [run_onLedger_then]
  change (((op >>= next).run L).1, (runner, ((op >>= next).run L).2)) = _
  rw [run_bind]
  rcases op.run L with ⟨_ | _, _⟩ <;> rfl

theorem onLedger_pure {α : Type} (a : α) : onLedger (pure a) = (pure a : RunnerOp α) := rfl

theorem run_requireKnown_then {β : Type} (taskId : String) (next : Unit → RunnerOp β)
    (runner : AttemptRunner) (L : Ledger) :
    (requireKnown taskId >>= next).run (runner, L) =
      if (runner.attempt? taskId).bind L.jobState = some .unknown then
        (.error (.cyrano "UNKNOWN_OUTCOME" (taskId ++ " outcome unknown; reconcile before retry")),
          (runner, L))
      else (next ()).run (runner, L) := by
  rw [requireKnown, then_assoc, run_get_then]
  exact run_raiseIf_bind _ _ _ _

/-- A statement that is a call has the call's effect. -/
theorem effect_of_run_op {α : Type} {op : Op α} {f : α → Reply} {x : Except Failure α}
    (hL : L.UniqueJobs) {call : Call} (hop : call.op P = f <$> op) (h : op.run L = (x, L')) :
    Effect P L call (x.map f) L' := by
  refine Call.effect hL ?_
  rw [Call.act, hop, run_map, h]

/-- A call that raises leaves the ledger. -/
theorem eq_of_run_error {α : Type} {op : Op α} {f : α → Reply} {e : Failure}
    (hL : L.UniqueJobs) {call : Call} (hop : call.op P = f <$> op)
    (h : op.run L = (.error e, L')) : L' = L :=
  (effect_of_run_op hL hop h).eq_of_error

/-- Settling an outcome that is known is one settling call. -/
theorem settle_eq_call (P : Primitives) (attempt : Attempt) {outcome : WorkOutcome}
    (hknown : outcome.status ≠ "unknown") :
    ∃ (call : Call) (op : Op String) (settled : String → String),
      call.Settles ∧ call.op P = Reply.text <$> op ∧
        settle attempt.jobId attempt.attemptId attempt.fence outcome =
          op >>= fun state => pure (settled state) := by
  rw [settle, if_neg hknown]
  split
  · exact ⟨.failJob attempt.jobId attempt.attemptId attempt.fence outcome.usageUnits, _, _,
      trivial, rfl, rfl⟩
  · exact ⟨.submitResult attempt.jobId attempt.attemptId attempt.fence outcome.usageUnits, _, _,
      trivial, rfl, rfl⟩

/-! ### The ledger stays well formed -/

theorem preserves_op (call : Call) : Preserves Ledger.WellFormed (call.op P) :=
  fun _ hL => hL.act call

theorem preserves_setJobStates (jobIds : List String) (state : JobState) :
    Preserves Ledger.WellFormed (setJobStates jobIds state) :=
  preserves_modify fun _ hL => hL.of_outbox_map rfl rfl rfl rfl fun job _ => by
    dsimp only
    split <;> exact ⟨rfl, rfl, rfl⟩

theorem preserves_cancelRunIn (scopeId streamId : String) (generation : ℤ) :
    Preserves Ledger.WellFormed (cancelRunIn scopeId streamId generation) := by
  have hupsert : Preserves Ledger.WellFormed (upsertCancellation streamId generation) :=
    (readOnly_raiseIf _ _).preserves.bind fun _ => preserves_modify fun _ hL => { hL with }
  exact .transaction <| (readOnly_readScopedEntity _ _).preserves.bind fun _ =>
    readOnly_get.preserves.bind fun _ => (preserves_setJobStates _ _).bind fun _ =>
      (preserves_setJobStates _ _).bind fun _ => hupsert.bind fun _ =>
        readOnly_get.preserves.bind fun _ => (readOnly_pure _).preserves

theorem preserves_audit (streamId detail : String) :
    Preserves Ledger.WellFormed (Repository.audit streamId detail) :=
  .of_map (preserves_op (P := .ascii) (.audit streamId detail))

theorem preserves_markJobUnknown (jobId : String) :
    Preserves Ledger.WellFormed (Repository.markJobUnknown jobId) :=
  .of_map (preserves_op (P := .ascii) (.markJobUnknown jobId))

theorem preserves_recoverInflight (scopeId streamId : String) :
    Preserves Ledger.WellFormed (recoverInflight scopeId streamId) :=
  readOnly_get.preserves.bind fun _ =>
    (preserves_forM fun _ => (preserves_markJobUnknown _).bind fun _ => preserves_audit _ _).bind
      fun _ => (readOnly_pure _).preserves

theorem preserves_markReconciled (scopeId streamId : String) :
    Preserves Ledger.WellFormed (markReconciled scopeId streamId) :=
  readOnly_get.preserves.bind fun _ => (readOnly_raiseIf _ _).preserves.bind fun _ =>
    .transaction (preserves_modify fun _ hL => { hL with })

theorem preserves_settle (jobId owner : String) (fence : ℤ) (outcome : WorkOutcome) :
    Preserves Ledger.WellFormed (settle jobId owner fence outcome) := by
  rw [settle]
  split
  · exact (Preserves.of_map (preserves_op (P := .ascii) (.recordUsage _ _))).bind fun _ =>
      (preserves_markJobUnknown _).bind fun _ => (readOnly_pure _).preserves
  split
  · exact (Preserves.of_map (preserves_op (P := .ascii) (.failJob _ _ _ _))).bind fun _ =>
      (readOnly_pure _).preserves
  · exact (Preserves.of_map (preserves_op (P := .ascii) (.submitResult _ _ _ _))).bind fun _ =>
      (readOnly_pure _).preserves

theorem preserves_claimJob (scopeId jobId owner : String) (now ttlSeconds : ℤ) :
    Preserves Ledger.WellFormed (Repository.claimJob scopeId jobId owner now ttlSeconds) :=
  (readOnly_get.bind fun _ => readOnly_pure _).preserves.bind fun floor =>
    .of_map (preserves_op (P := .ascii) (.claimJob floor scopeId jobId owner now ttlSeconds))

/-- The ledger of a runner's state is well formed. -/
def WellKept (s : AttemptRunner × Ledger) : Prop := s.2.WellFormed

theorem preserves_onLedger {α : Type} {op : Op α} (h : Preserves Ledger.WellFormed op) :
    Preserves WellKept (onLedger op) := fun s hs => h s.2 hs

theorem preserves_dispatch (streamId taskId : String) (now leaseTtl : ℤ) :
    Preserves WellKept (dispatch P streamId taskId now leaseTtl) := by
  have hcommand (c : Command) : Preserves Ledger.WellFormed (Repository.executeCommand P c) :=
    .of_map (preserves_op (.executeCommand c))
  refine (preserves_onLedger (readOnly_requireDispatchable _).preserves).bind fun _ =>
    (readOnly_get.bind fun _ => readOnly_raiseIf _ _).preserves.bind fun _ =>
    Preserves.bind (preserves_modify fun _ hs => hs) fun _ => readOnly_get.preserves.bind fun _ =>
    (preserves_onLedger (readOnly_readScopedEntity _ _).preserves).bind fun _ =>
    (preserves_onLedger (hcommand _)).bind fun _ =>
    (preserves_onLedger (preserves_claimJob _ _ _ _ _)).bind fun lease? => ?_
  rcases lease? with _ | lease
  · exact (readOnly_throw _).preserves
  · exact Preserves.bind (preserves_modify fun _ hs => hs) fun _ =>
      (preserves_onLedger (preserves_audit _ _)).bind fun _ => (readOnly_pure _).preserves

theorem preserves_runWork (streamId taskId : String) (worker : String → WorkerResult)
    (now leaseTtl : ℤ) : Preserves WellKept (runWork P streamId taskId worker now leaseTtl) :=
  (preserves_dispatch _ _ _ _).bind fun _ => (readOnly_lift _).preserves.bind fun _ =>
    (preserves_onLedger (preserves_settle _ _ _ _)).bind fun _ => (readOnly_pure _).preserves

theorem preserves_cancelRun (scopeId streamId : String) (generation : ℤ) :
    Preserves Ledger.WellFormed (cancelRun scopeId streamId generation) :=
  (preserves_cancelRunIn _ _ _).bind fun _ => (preserves_audit _ _).bind fun _ =>
    (readOnly_pure _).preserves

end

end CyranoAgent
