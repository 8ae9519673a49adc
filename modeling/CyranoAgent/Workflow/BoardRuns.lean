import Mathlib.Logic.Relation
import CyranoAgent.Workflow.Board

/-!
# Tasks over a run of the board

What the board promises about a task over every run from an empty board. `BoardLaw` is about its
dependencies, its final states, its fences and its result; `CancellationReaches` is about the tasks
it descends from.

Neither holds of every run. `settle` is not told the time, so it takes a result whose lease has run
out until someone reclaims the lease (`boardLaw_iff`). `claim_task` does not look at the parent of
a task, and `settle` looks at the direct parent only (`cancellationReaches_iff`).
-/

namespace CyranoAgent

open Lib Lib.Action TeamCoordinator

/-- A task has its result. -/
def TaskRow.Done (row : TaskRow) : Prop := row.state = .completed ∨ row.state = .failed

instance (row : TaskRow) : Decidable row.Done := inferInstanceAs (Decidable (_ ∨ _))

/-- The step from `L` to `L'` claims the task of a row: the row is leased by it. -/
def Claims (L L' : Ledger) (row : TaskRow) : Prop :=
  row ∈ L.coordTasks ∧ row.state ≠ .leased ∧
    ∃ row', L'.task? row.streamId row.taskId = some row' ∧ row'.state = .leased

/-- The step from `L` to `L'` settles the task of a row: the row has its result by it. -/
def Settles (L L' : Ledger) (row : TaskRow) : Prop :=
  row ∈ L.coordTasks ∧ ¬row.Done ∧
    ∃ row', L'.task? row.streamId row.taskId = some row' ∧ row'.Done

section

variable {L L' : Ledger} {call : BoardCall} {row row' : TaskRow} {reprText : String → String}

/-! ### What a call does to a row -/

namespace TaskMoves

/-- A move keeps what a task was registered with. -/
theorem declared_eq (h : TaskMoves L call row row') :
    row'.dependsOn = row.dependsOn ∧ row'.parentTask = row.parentTask := by
  cases h <;> exact ⟨rfl, rfl⟩

/-- Completed and cancelled tasks stay so. -/
theorem state_eq (h : TaskMoves L call row row')
    (hfinal : row.state = .completed ∨ row.state = .cancelled) : row'.state = row.state := by
  cases h with
  | stays => rfl
  | claimed hgrants => simp [hgrants.2.2.2.1] at hfinal
  | renewed _ hheld => rfl
  | paused _ hheld => simp [hheld.1] at hfinal
  | settled haccepts => simp [haccepts.2.1.1] at hfinal
  | reclaimed _ hleased => simp [hleased] at hfinal
  | cancelled _ hopen => exact (hfinal.resolve_left hopen).symm

/-- A task that has its result, or is cancelled, is not leased again. -/
theorem closed (h : TaskMoves L call row row') (hclosed : row.Done ∨ row.state = .cancelled) :
    row'.Done ∨ row'.state = .cancelled := by
  unfold TaskRow.Done at hclosed ⊢
  cases h with
  | stays => exact hclosed
  | claimed hgrants => simp [hgrants.2.2.2.1] at hclosed
  | renewed _ hheld => exact hclosed
  | paused _ hheld => simp [hheld.1] at hclosed
  | settled haccepts => simp [haccepts.2.1.1] at hclosed
  | reclaimed _ hleased => simp [hleased] at hclosed
  | cancelled => exact .inr rfl

/-- A fence never falls, and a claim raises it. -/
theorem fence_le (h : TaskMoves L call row row') :
    row.fence ≤ row'.fence ∧ (row.state ≠ .leased → row'.state = .leased →
      row.fence < row'.fence) := by
  cases h with
  | claimed => exact ⟨(Int.lt_succ _).le, fun _ _ => Int.lt_succ _⟩
  | stays => exact ⟨le_rfl, fun hne heq => absurd heq hne⟩
  | renewed _ hheld => exact ⟨le_rfl, fun hne _ => absurd hheld.1 hne⟩
  | settled _ hstate =>
    refine ⟨le_rfl, fun _ heq => ?_⟩
    rcases hstate with rfl | rfl <;> exact absurd heq (by simp)
  | paused | reclaimed | cancelled => exact ⟨le_rfl, fun _ heq => absurd heq (by simp)⟩

/-- A row is leased by a claim that was let through. -/
theorem grants (h : TaskMoves L call row row') (hfree : row.state ≠ .leased)
    (hleased : row'.state = .leased) : call.Grants L row := by
  cases h with
  | claimed hgrants => exact hgrants
  | stays => exact absurd hleased hfree
  | renewed _ hheld => exact absurd hheld.1 hfree
  | settled _ hstate => rcases hstate with rfl | rfl <;> exact absurd hleased (by simp)
  | paused | reclaimed | cancelled => exact absurd hleased (by simp)

/-- A row has its result by a settlement that was taken. -/
theorem accepts (h : TaskMoves L call row row') (hopen : ¬row.Done) (hdone : row'.Done) :
    call.Accepts L row := by
  unfold TaskRow.Done at hopen hdone
  cases h with
  | settled haccepts => exact haccepts
  | stays | renewed => exact absurd hdone hopen
  | claimed | paused | reclaimed | cancelled => simp at hdone

end TaskMoves

/-- Every task of the board is found again after a call, moved as the call allows. -/
theorem BoardEffect.task? (hL : L.UniqueTasks) (h : BoardEffect L call L')
    (hrow : row ∈ L.coordTasks) :
    ∃ row', L'.task? row.streamId row.taskId = some row' ∧ TaskMoves L call row row' := by
  have hL' := h.uniqueTasks hL
  cases h with
  | registered new hfresh hready hafter =>
    have hmem : row ∈ L'.coordTasks := by
      rw [hafter]
      exact List.mem_append_left _ hrow
    exact ⟨row, hL'.task?_eq hmem, .stays⟩
  | moved move hmove hafter =>
    have hmem : move row ∈ L'.coordTasks := by
      rw [hafter]
      exact List.mem_map_of_mem hrow
    have hfound := hL'.task?_eq hmem
    obtain ⟨hs, ht, -⟩ := (hmove row hrow).key_eq
    rw [hs, ht] at hfound
    exact ⟨move row, hfound, hmove row hrow⟩

/-- Every task of the board after a call is new and ready, or was moved as the call allows. -/
theorem BoardEffect.origin (h : BoardEffect L call L') (hrow' : row' ∈ L'.coordTasks) :
    row'.state = .ready ∨ ∃ row ∈ L.coordTasks, TaskMoves L call row row' := by
  cases h with
  | registered new hfresh hready hafter =>
    rw [hafter, List.mem_append, List.mem_singleton] at hrow'
    rcases hrow' with hrow' | rfl
    · exact .inr ⟨row', hrow', .stays⟩
    · exact .inl hready
  | moved move hmove hafter =>
    rw [hafter, List.mem_map] at hrow'
    obtain ⟨row, hrow, rfl⟩ := hrow'
    exact .inr ⟨row, hrow, hmove row hrow⟩

/-! ### What is claimed and what is settled -/

/-- The lease that a claim of the row is granted. -/
theorem BoardCall.Grants.act_eq (h : call.Grants L row) (reprText : String → String)
    (hL : L.UniqueTasks) (hrow : row ∈ L.coordTasks) :
    ∃ scopeId workerId expectedRevision now ttl,
      call = .claimTask scopeId row.streamId row.taskId expectedRevision workerId now ttl ∧
        (call.act reprText L).1 =
          .ok (.lease ⟨row.taskId, workerId, row.fence + 1, now + ttl⟩) ∧
        (call.act reprText L).2.task? row.streamId row.taskId = some { row with
          state := .leased, workerId := some workerId, fence := row.fence + 1
          lastHeartbeat := now, leaseUntil := now + ttl } := by
  cases call with
  | claimTask scopeId streamId taskId expectedRevision workerId now ttl =>
    obtain ⟨rfl, rfl⟩ := TaskRow.is_iff.mp h.2.1
    have hrun := (claimTask_eq_ok reprText hL).mpr ⟨row, hrow, h, rfl, rfl⟩
    refine ⟨scopeId, workerId, expectedRevision, now, ttl, rfl, ?_, ?_⟩
    · simp only [BoardCall.act, run_map, hrun, Except.map]
    · have heff := BoardCall.effect hL reprText (.claimTask scopeId row.streamId row.taskId
        expectedRevision workerId now ttl)
      have hleased : { row with
          state := .leased, workerId := some workerId, fence := row.fence + 1
          lastHeartbeat := now, leaseUntil := now + ttl } ∈
            ((BoardCall.claimTask scopeId row.streamId row.taskId expectedRevision workerId now
              ttl).act reprText L).2.coordTasks := by
        simp only [BoardCall.act, run_map, hrun]
        refine Rows.mem_update.mpr ⟨row, hrow, if_pos ?_⟩
        simp [TaskRow.is]
      have hfound := (heff.uniqueTasks hL).task?_eq hleased
      exact hfound
  | _ => exact h.elim

/-- **A task is claimed exactly when `claim_task` lets it through.** -/
theorem claims_iff (hL : L.UniqueTasks) :
    Claims L (call.act reprText L).2 row ↔ row ∈ L.coordTasks ∧ call.Grants L row := by
  constructor
  · rintro ⟨hrow, hfree, row', hfound, hleased⟩
    obtain ⟨row'', hfound', hmoves⟩ := (BoardCall.effect hL reprText call).task? hL hrow
    obtain rfl : row' = row'' := Option.some.inj (hfound.symm.trans hfound')
    exact ⟨hrow, hmoves.grants hfree hleased⟩
  · rintro ⟨hrow, hgrants⟩
    obtain ⟨_, _, _, _, _, rfl, -, hfound⟩ := hgrants.act_eq reprText hL hrow
    exact ⟨hrow, by simp [hgrants.2.2.2.1], _, hfound, rfl⟩

/-- **A task is settled exactly when `settle` takes the result.** -/
theorem settles_iff (hL : L.UniqueTasks) :
    Settles L (call.act reprText L).2 row ↔ row ∈ L.coordTasks ∧ call.Accepts L row := by
  constructor
  · rintro ⟨hrow, hopen, row', hfound, hdone⟩
    obtain ⟨row'', hfound', hmoves⟩ := (BoardCall.effect hL reprText call).task? hL hrow
    obtain rfl : row' = row'' := Option.some.inj (hfound.symm.trans hfound')
    exact ⟨hrow, hmoves.accepts hopen hdone⟩
  · rintro ⟨hrow, haccepts⟩
    cases call with
    | settle streamId lease resultDigest outcome =>
      obtain ⟨his, hheld, hparent, hknown⟩ := haccepts
      obtain ⟨rfl, ht⟩ := TaskRow.is_iff.mp his
      have hrun := (settleIn_eq_ok hL row.streamId resultDigest hknown).mpr
        ⟨row, hrow, ⟨his, hheld, hparent, hknown⟩, rfl⟩
      have hafter := coordTasks_settle (L := L) row.streamId lease resultDigest outcome hknown
      rw [hrun] at hafter
      have heff := BoardCall.effect hL reprText (.settle row.streamId lease resultDigest outcome)
      have hsettled : { row with
          state := if outcome = "completed" then .completed else .failed
          resultDigest := some resultDigest } ∈
            ((BoardCall.settle row.streamId lease resultDigest outcome).act reprText
              L).2.coordTasks := by
        simp only [BoardCall.act, run_map, hafter]
        refine Rows.mem_update.mpr ⟨row, hrow, if_pos ?_⟩
        simp [TaskRow.is, ← ht, hheld.2.2]
      have hfound := (heff.uniqueTasks hL).task?_eq hsettled
      refine ⟨hrow, ?_, _, hfound, ?_⟩
      · rintro (hstate | hstate) <;> rw [hheld.1] at hstate <;> exact absurd hstate (by simp)
      · unfold TaskRow.Done
        dsimp only
        split <;> simp
    | _ => exact haccepts.elim

end

/-! ### Runs of the board -/

/-- A call on the board, and the time at which it is made. -/
structure TimedCall where
  time : ℤ
  call : BoardCall

/-- Perform a call: the board is told the time only where the call has it. -/
def TimedCall.act (reprText : String → String) (c : TimedCall) (L : Ledger) :
    Except Failure BoardReply × Ledger := c.call.act reprText L

/-- One call of a timed history of the board. -/
abbrev TimedEntry := Entry Ledger TimedCall (Except Failure BoardReply)

/-- The entry is a claim that granted a worker a fence on a task. -/
def Granted (e : TimedEntry) (streamId taskId workerId : String) (fence : ℤ) : Prop :=
  ∃ scopeId expectedRevision now ttl leaseUntil,
    e.op.call = .claimTask scopeId streamId taskId expectedRevision workerId now ttl ∧
      e.reply = .ok (.lease ⟨taskId, workerId, fence, leaseUntil⟩)

/-- The dependencies of a row are completed tasks of its stream. -/
def DependenciesMet (L : Ledger) (row : TaskRow) : Prop :=
  ∀ dep ∈ row.dependsOn, ∃ row' ∈ L.coordTasks, row'.streamId = row.streamId ∧
    row'.taskId = dep ∧ row'.state = .completed

/-- What the board promises about a task over a history that led to `L`. -/
structure BoardLaw (h : List TimedEntry) (L : Ledger) : Prop where
  /-- A task that was claimed, and not cancelled since, has its dependencies completed. -/
  dependencies : ∀ row ∈ L.coordTasks,
    row.state ∈ [.leased, .completed, .failed, .recoveryCheck] → DependenciesMet L row
  /-- A completed or cancelled task stays so. -/
  final : ∀ e ∈ h, ∀ row ∈ e.before.coordTasks, row.state = .completed ∨ row.state = .cancelled →
    ∃ row', e.after.task? row.streamId row.taskId = some row' ∧ row'.state = row.state
  /-- A fence never falls, and every claim raises it. -/
  fences : ∀ e ∈ h, ∀ row ∈ e.before.coordTasks,
    ∃ row', e.after.task? row.streamId row.taskId = some row' ∧ row.fence ≤ row'.fence ∧
      (Claims e.before e.after row → row.fence < row'.fence)
  /-- A task is settled once under a fence. -/
  once : ∀ e e', Precedes h e e' → ∀ row row', Settles e.before e.after row →
    Settles e'.before e'.after row' → row.streamId = row'.streamId → row.taskId = row'.taskId →
    row.fence ≠ row'.fence
  /-- A task is settled by the worker whose claim was granted its fence. -/
  owner : ∀ e' ∈ h, ∀ row, Settles e'.before e'.after row →
    ∃ lease resultDigest outcome,
      e'.op.call = .settle row.streamId lease resultDigest outcome ∧ lease.taskId = row.taskId ∧
        lease.fence = row.fence ∧
        ∃ e, Precedes h e e' ∧ Granted e row.streamId row.taskId lease.workerId row.fence
  /-- A task is settled before its lease runs out. -/
  inTime : ∀ e ∈ h, ∀ row, Settles e.before e.after row → e.op.time < row.leaseUntil

section

variable {L₀ L : Ledger} {h : List TimedEntry} {reprText : String → String}

theorem uniqueTasks_of_timed (hboard : L₀.coordTasks = [])
    (hr : Run (TimedCall.act reprText) L₀ h L) : L.UniqueTasks :=
  hr.inv_state (uniqueTasks_of_nil hboard) fun _ c hL =>
    (BoardCall.effect hL reprText c.call).uniqueTasks hL

/-- What an entry of a run started from, and its effect. -/
theorem entry_effect (hboard : L₀.coordTasks = []) (hr : Run (TimedCall.act reprText) L₀ h L)
    {e : TimedEntry} (he : e ∈ h) :
    e.before.UniqueTasks ∧ e.after = (e.op.call.act reprText e.before).2 ∧
      BoardEffect e.before e.op.call e.after := by
  obtain ⟨h₁, h₂, rfl⟩ := List.append_of_mem he
  obtain ⟨hbefore, heq, -⟩ := hr.split
  have hL := uniqueTasks_of_timed hboard hbefore
  have hafter : e.after = (e.op.call.act reprText e.before).2 := congrArg Entry.after heq
  exact ⟨hL, hafter, hafter ▸ BoardCall.effect hL reprText e.op.call⟩

/-- A row that was claimed has its dependencies completed when it was. -/
theorem dependenciesMet_of_pending {row : TaskRow} (hnil : pendingDependencies L row = []) :
    DependenciesMet L row := by
  intro dep hdep
  by_contra hmissing
  have hpending : dep ∈ pendingDependencies L row := by
    refine List.mem_dedup.mpr 
      (List.mem_filter.mpr ⟨hdep, List.all_eq_true.mpr fun row' hrow' => ?_⟩)
    refine decide_eq_true fun hdone => hmissing ⟨row', hrow', hdone.1, hdone.2.2, hdone.2.1⟩
  rw [hnil] at hpending
  exact absurd hpending (by simp)

/-- Completed dependencies stay completed over a call. -/
theorem DependenciesMet.effect {L' : Ledger} {call : BoardCall} (hL : L.UniqueTasks)
    (heff : BoardEffect L call L') {row row' : TaskRow} (hmet : DependenciesMet L row)
    (hs : row'.streamId = row.streamId) (hd : row'.dependsOn = row.dependsOn) :
    DependenciesMet L' row' := by
  intro dep hdep
  rw [hd] at hdep
  obtain ⟨done, hdone, hs', ht, hstate⟩ := hmet dep hdep
  obtain ⟨done', hfound, hmoves⟩ := heff.task? hL hdone
  obtain ⟨hkey, hkey', -⟩ := hmoves.key_eq
  have hstate' := hmoves.state_eq (.inl hstate)
  exact ⟨done', (Ledger.mem_of_task? hfound).1, by rw [hkey, hs', hs], hkey'.trans ht,
    hstate'.trans hstate⟩

/-- **Claimed tasks have their dependencies completed**, wherever a run leads. -/
theorem dependenciesMet_of_run (hboard : L₀.coordTasks = [])
    (hr : Run (TimedCall.act reprText) L₀ h L) :
    ∀ row ∈ L.coordTasks, row.state ∈ [TaskState.leased, .completed, .failed, .recoveryCheck] →
      DependenciesMet L row := by
  refine hr.inv (I := fun _ L => ∀ row ∈ L.coordTasks,
    row.state ∈ [TaskState.leased, .completed, .failed, .recoveryCheck] → DependenciesMet L row)
    (by simp [hboard]) ?_
  intro h L ⟨time, call⟩ hr ih row' hrow' hstate'
  have hL := uniqueTasks_of_timed hboard hr
  have heff : BoardEffect L call (call.act reprText L).2 := BoardCall.effect hL reprText call
  rcases heff.origin hrow' with hready | ⟨row, hrow, hmoves⟩
  · simp [hready] at hstate'
  · have hmet : DependenciesMet L row := by
      cases hmoves with
      | stays => exact ih _ hrow hstate'
      | claimed hgrants => exact dependenciesMet_of_pending hgrants.2.2.2.2.1
      | renewed _ hheld | paused _ hheld => exact ih row hrow (by simp [hheld.1])
      | settled haccepts => exact ih row hrow (by simp [haccepts.2.1.1])
      | reclaimed _ hleased => exact ih row hrow (by simp [hleased])
      | cancelled => simp at hstate'
    exact hmet.effect hL heff hmoves.key_eq.1 hmoves.declared_eq.1

/-- **Every lease that is held was granted**: a leased row names the worker and the fence of an
earlier claim. -/
theorem granted_of_run (hboard : L₀.coordTasks = []) (hr : Run (TimedCall.act reprText) L₀ h L) :
    ∀ row ∈ L.coordTasks, ∀ workerId fence, row.HeldBy workerId fence →
      ∃ e ∈ h, Granted e row.streamId row.taskId workerId fence := by
  refine hr.inv (I := fun h L => ∀ row ∈ L.coordTasks, ∀ workerId fence,
    row.HeldBy workerId fence → ∃ e ∈ h, Granted e row.streamId row.taskId workerId fence)
    (by simp [hboard]) ?_
  intro h L ⟨time, call⟩ hr ih row' hrow' workerId fence hheld'
  have hL := uniqueTasks_of_timed hboard hr
  have heff : BoardEffect L call (call.act reprText L).2 := BoardCall.effect hL reprText call
  have hearlier : ∀ row ∈ L.coordTasks, row.HeldBy workerId fence →
      ∃ e ∈ h ++ [Entry.perform (TimedCall.act reprText) L ⟨time, call⟩],
        Granted e row.streamId row.taskId workerId fence := by
    intro row hrow hheld
    obtain ⟨e, he, hgranted⟩ := ih row hrow workerId fence hheld
    exact ⟨e, List.mem_append_left _ he, hgranted⟩
  rcases heff.origin hrow' with hready | ⟨row, hrow, hmoves⟩
  · exact absurd (hheld'.1.symm.trans hready) (by simp)
  · obtain ⟨hs, ht, -⟩ := hmoves.key_eq
    rw [hs, ht]
    by_cases hleased : row.state = .leased
    · have hkept : row'.workerId = row.workerId ∧ row'.fence = row.fence := by
        cases hmoves with
        | stays | renewed | paused | settled | cancelled => exact ⟨rfl, rfl⟩
        | claimed hgrants => exact absurd (hleased.symm.trans hgrants.2.2.2.1) (by simp)
        | reclaimed => exact absurd hheld'.1 (by simp)
      exact hearlier row hrow ⟨hleased, hkept.1 ▸ hheld'.2.1, hkept.2 ▸ hheld'.2.2⟩
    · have hgrants := hmoves.grants hleased hheld'.1
      obtain ⟨scopeId, workerId', revision, now, ttl, hcall, hreply, hfound⟩ :=
        hgrants.act_eq reprText hL hrow
      have hself := (heff.uniqueTasks hL).task?_eq hrow'
      rw [hs, ht, hfound] at hself
      obtain ⟨-, hworker, hfence⟩ := Option.some.inj hself ▸ hheld'
      obtain rfl : workerId' = workerId := Option.some.inj hworker
      obtain rfl : row.fence + 1 = fence := hfence
      exact ⟨_, List.mem_append_right _ (List.mem_singleton_self _), scopeId, revision, now, ttl, _,
        hcall, hreply⟩

/-- A task of the board under its key, closed by its result or by a cancellation. -/
def ClosedAt (L : Ledger) (streamId taskId : String) : Prop :=
  L.UniqueTasks ∧ ∃ row, L.task? streamId taskId = some row ∧ (row.Done ∨ row.state = .cancelled)

/-- A closed task stays closed over a call. -/
theorem ClosedAt.act {streamId taskId : String} (hclosed : ClosedAt L streamId taskId)
    (c : TimedCall) : ClosedAt (c.act reprText L).2 streamId taskId := by
  obtain ⟨hL, row, hrow, hstate⟩ := hclosed
  have heff : BoardEffect L c.call (c.act reprText L).2 := BoardCall.effect hL reprText c.call
  obtain ⟨hmem, his⟩ := Ledger.mem_of_task? hrow
  obtain ⟨rfl, rfl⟩ := TaskRow.is_iff.mp his
  obtain ⟨row', hfound, hmoves⟩ := heff.task? hL hmem
  exact ⟨heff.uniqueTasks hL, row', hfound, hmoves.closed hstate⟩

/-- **A task is settled once**: what is settled is closed, and what is closed is not leased. -/
theorem settles_once (hboard : L₀.coordTasks = []) (hr : Run (TimedCall.act reprText) L₀ h L)
    {e e' : TimedEntry} (hp : Precedes h e e') {row row' : TaskRow}
    (hsettles : Settles e.before e.after row) (hsettles' : Settles e'.before e'.after row')
    (hs : row.streamId = row'.streamId) : row.taskId ≠ row'.taskId := by
  intro ht
  obtain ⟨hL, -, heff⟩ := entry_effect hboard hr hp.mem_left
  obtain ⟨hL', hafter', -⟩ := entry_effect hboard hr hp.mem_right
  obtain ⟨-, -, done, hfound, hdone⟩ := hsettles
  have hclosed : ClosedAt e'.before row.streamId row.taskId :=
    hp.inv (I := fun L => ClosedAt L row.streamId row.taskId) hr
      ⟨heff.uniqueTasks hL, done, hfound, .inl hdone⟩ fun _ c hclosed => hclosed.act c
  obtain ⟨-, found, hfound', hstate⟩ := hclosed
  rw [hafter', settles_iff hL'] at hsettles'
  obtain ⟨hrow', haccepts⟩ := hsettles'
  obtain rfl : row' = found := by
    rw [hs, ht, hL'.task?_eq hrow'] at hfound'
    exact Option.some.inj hfound'
  have hleased : row'.state = .leased := by
    cases hcall : e'.op.call with
    | settle =>
      rw [hcall] at haccepts
      exact haccepts.2.1.1
    | _ =>
      rw [hcall] at haccepts
      exact haccepts.elim
  rcases hstate with (hstate | hstate) | hstate <;> rw [hleased] at hstate <;>
    exact absurd hstate (by simp)

/-- **A task is settled by its owner**: the worker whose claim was granted the fence. -/
theorem settles_owner (hboard : L₀.coordTasks = []) (hr : Run (TimedCall.act reprText) L₀ h L)
    {e : TimedEntry} (he : e ∈ h) {row : TaskRow} (hsettles : Settles e.before e.after row) :
    ∃ lease resultDigest outcome,
      e.op.call = .settle row.streamId lease resultDigest outcome ∧ lease.taskId = row.taskId ∧
        lease.fence = row.fence ∧
        ∃ e', Precedes h e' e ∧ Granted e' row.streamId row.taskId lease.workerId row.fence := by
  obtain ⟨h₁, h₂, rfl⟩ := List.append_of_mem he
  obtain ⟨hL, hafter, -⟩ := entry_effect hboard hr he
  rw [hafter, settles_iff hL] at hsettles
  obtain ⟨hrow, haccepts⟩ := hsettles
  cases hcall : e.op.call with
  | settle streamId lease resultDigest outcome =>
    rw [hcall] at haccepts
    obtain ⟨his, hheld, -⟩ := haccepts
    obtain ⟨rfl, ht⟩ := TaskRow.is_iff.mp his
    obtain ⟨e', he', hgranted⟩ :=
      granted_of_run hboard hr.split.1 row hrow lease.workerId lease.fence hheld
    obtain ⟨h₃, h₄, rfl⟩ := List.append_of_mem he'
    exact ⟨lease, resultDigest, outcome, rfl, ht.symm, hheld.2.2.symm, e', ⟨h₃, h₄, h₂, by simp⟩,
      hheld.2.2 ▸ hgranted⟩
  | _ =>
    rw [hcall] at haccepts
    exact haccepts.elim

/-- **When the board keeps its word**, over every timed run from an empty board: exactly when every
result that `settle` takes comes before the end of the lease in the row. -/
theorem boardLaw_iff (hboard : L₀.coordTasks = []) (hr : Run (TimedCall.act reprText) L₀ h L) :
    BoardLaw h L ↔
      ∀ e ∈ h, ∀ row ∈ e.before.coordTasks, e.op.call.Accepts e.before row →
        e.op.time < row.leaseUntil := by
  constructor
  · intro hlaw e he row hrow haccepts
    obtain ⟨hL, hafter, -⟩ := entry_effect hboard hr he
    refine hlaw.inTime e he row ?_
    rw [hafter]
    exact (settles_iff hL).mpr ⟨hrow, haccepts⟩
  · intro htime
    refine ⟨dependenciesMet_of_run hboard hr, fun e he row hrow hfinal => ?_,
      fun e he row hrow => ?_, fun e e' hp row row' hsettles hsettles' hs ht => ?_,
      fun e he row => settles_owner hboard hr he, fun e he row hsettles => ?_⟩
    · obtain ⟨hL, -, heff⟩ := entry_effect hboard hr he
      obtain ⟨row', hfound, hmoves⟩ := heff.task? hL hrow
      exact ⟨row', hfound, hmoves.state_eq hfinal⟩
    · obtain ⟨hL, -, heff⟩ := entry_effect hboard hr he
      obtain ⟨row', hfound, hmoves⟩ := heff.task? hL hrow
      refine ⟨row', hfound, hmoves.fence_le.1, ?_⟩
      rintro ⟨-, hfree, claimed, hfound', hleased⟩
      obtain rfl : row' = claimed := Option.some.inj (hfound.symm.trans hfound')
      exact hmoves.fence_le.2 hfree hleased
    · exact absurd ht (settles_once hboard hr hp hsettles hsettles' hs)
    · obtain ⟨hL, hafter, -⟩ := entry_effect hboard hr he
      rw [hafter, settles_iff hL] at hsettles
      exact htime e he row hsettles.1 hsettles.2

end

/-- A worker is granted a lease of ten and settles its task at `time`. -/
def settledAt (time : ℤ) : List TimedCall :=
  [⟨0, .registerTask acmeScope "s" "a" ["f.py"] [] none 0⟩,
    ⟨0, .claimTask acmeScope "s" "a" 0 "worker-a" 0 10⟩,
    ⟨time, .settle "s" ⟨"a", "worker-a", 1, 10⟩ "d" "completed"⟩]

/-- The board keeps its word when the result comes in time. -/
theorem boardLaw_iff_inTime :
    let run := exec (TimedCall.act quoted) acmeLedger (settledAt 9)
    BoardLaw run.1 run.2 ↔
      ∀ e ∈ run.1, ∀ row ∈ e.before.coordTasks, e.op.call.Accepts e.before row →
        e.op.time < row.leaseUntil :=
  boardLaw_iff rfl (run_exec _ _ _)

/-- The board while the lease of ten is held. -/
def leasedBoard : Ledger := (exec (TimedCall.act quoted) acmeLedger ((settledAt 20).take 2)).2

/-- The row of the leased task. -/
def leasedRow : TaskRow where
  streamId := "s"
  taskId := "a"
  revision := 0
  state := .leased
  workerId := some "worker-a"
  fence := 1
  writePaths := ["f.py"]
  dependsOn := []
  parentTask := none
  lastHeartbeat := 0
  progressMark := 0
  leaseUntil := 10
  resultDigest := none

/-- **A late result is taken**: the task is settled at 20, under a lease that ran out at 10. -/
theorem late_result_settled :
    ¬∀ (reprText : String → String) (L₀ L : Ledger) (h : List TimedEntry),
      L₀.coordTasks = [] → Run (TimedCall.act reprText) L₀ h L → BoardLaw h L := by
  intro hclaim
  have hlaw := hclaim quoted acmeLedger _ _ rfl (run_exec _ _ (settledAt 20))
  have hsettles : Settles leasedBoard (((⟨20, .settle "s" ⟨"a", "worker-a", 1, 10⟩ "d"
      "completed"⟩ : TimedCall).act quoted leasedBoard).2) leasedRow :=
    ⟨by decide, by decide,
      { leasedRow with state := .completed, resultDigest := some "d" }, by decide,
      .inl rfl⟩
  have hlate : (20 : ℤ) < 10 := hlaw.inTime _ (.tail _ (.tail _ (.head _))) leasedRow hsettles
  exact absurd hlate (by decide)

/-! ### Cancelled ancestors -/

namespace Ledger

/-- A task names another as its parent. -/
def Child (L : Ledger) (streamId taskId parent : String) : Prop :=
  ∃ row ∈ L.coordTasks, row.is streamId taskId = true ∧ row.parentTask = some parent

/-- A task descends from another through a chain of parents. -/
def Descends (L : Ledger) (streamId : String) : String → String → Prop :=
  Relation.TransGen (L.Child streamId)

/-- A task of the board is cancelled. -/
def TaskCancelled (L : Ledger) (streamId taskId : String) : Prop :=
  ∃ row, L.task? streamId taskId = some row ∧ row.state = .cancelled

end Ledger

/-- A cancellation reaches every task that descends from the cancelled one: later in the history it
is neither claimed nor settled. -/
structure CancellationReaches (h : List TimedEntry) : Prop where
  /-- No descendant of a cancelled task is claimed. -/
  claims : ∀ e' e, Precedes h e' e → ∀ row, Claims e.before e.after row → ∀ ancestor,
    e'.after.TaskCancelled row.streamId ancestor →
      ¬e.before.Descends row.streamId row.taskId ancestor
  /-- No descendant of a cancelled task is settled. -/
  settles : ∀ e' e, Precedes h e' e → ∀ row, Settles e.before e.after row → ∀ ancestor,
    e'.after.TaskCancelled row.streamId ancestor →
      ¬e.before.Descends row.streamId row.taskId ancestor

section

variable {L₀ L : Ledger} {h : List TimedEntry} {reprText : String → String}

/-- A cancelled task stays cancelled. -/
theorem cancelled_of_precedes (hboard : L₀.coordTasks = [])
    (hr : Run (TimedCall.act reprText) L₀ h L) {e' e : TimedEntry} (hp : Precedes h e' e)
    {streamId taskId : String} (hcancelled : e'.after.TaskCancelled streamId taskId) :
    e.before.TaskCancelled streamId taskId := by
  obtain ⟨hL, -, heff⟩ := entry_effect hboard hr hp.mem_left
  have hkept : e.before.UniqueTasks ∧ e.before.TaskCancelled streamId taskId := by
    refine hp.inv (I := fun L => L.UniqueTasks ∧ L.TaskCancelled streamId taskId) hr
      ⟨heff.uniqueTasks hL, hcancelled⟩ ?_
    rintro L c ⟨hL, row, hrow, hstate⟩
    have heff : BoardEffect L c.call (c.act reprText L).2 := BoardCall.effect hL reprText c.call
    obtain ⟨hmem, his⟩ := Ledger.mem_of_task? hrow
    obtain ⟨rfl, rfl⟩ := TaskRow.is_iff.mp his
    obtain ⟨row', hfound, hmoves⟩ := heff.task? hL hmem
    exact ⟨heff.uniqueTasks hL, row', hfound, (hmoves.state_eq (.inr hstate)).trans hstate⟩
  exact hkept.2

/-- What is cancelled when a call is made was so after an earlier one. -/
theorem exists_precedes (hboard : L₀.coordTasks = [])
    (hr : Run (TimedCall.act reprText) L₀ h L) {e : TimedEntry} (he : e ∈ h) {row : TaskRow}
    (hrow : row ∈ e.before.coordTasks) : ∃ e', Precedes h e' e ∧ e'.after = e.before := by
  obtain ⟨h₁, h₂, rfl⟩ := List.append_of_mem he
  have hbefore := hr.split.1
  generalize e.before = s at hbefore hrow
  cases hbefore with
  | nil => simp [hboard] at hrow
  | @snoc h₃ s c =>
    exact ⟨Entry.perform (TimedCall.act reprText) s c, ⟨h₃, [], h₂, by simp⟩, rfl⟩

/-- **When a cancellation reaches every descendant**, over every run from an empty board: exactly
when no call that `claim_task` lets through, and none that `settle` takes, is for a task with a
cancelled ancestor. -/
theorem cancellationReaches_iff (hboard : L₀.coordTasks = [])
    (hr : Run (TimedCall.act reprText) L₀ h L) :
    CancellationReaches h ↔
      ∀ e ∈ h, ∀ row ∈ e.before.coordTasks,
        e.op.call.Grants e.before row ∨ e.op.call.Accepts e.before row →
          ∀ ancestor, e.before.Descends row.streamId row.taskId ancestor →
            ¬e.before.TaskCancelled row.streamId ancestor := by
  constructor
  · intro hreaches e he row hrow hcall ancestor hdescends hcancelled
    obtain ⟨hL, hafter, -⟩ := entry_effect hboard hr he
    obtain ⟨e', hp, hbefore⟩ := exists_precedes hboard hr he hrow
    rw [← hbefore] at hcancelled
    rcases hcall with hgrants | haccepts
    · have hclaims : Claims e.before e.after row := by
        rw [hafter]
        exact (claims_iff hL).mpr ⟨hrow, hgrants⟩
      exact hreaches.claims e' e hp row hclaims ancestor hcancelled hdescends
    · have hsettles : Settles e.before e.after row := by
        rw [hafter]
        exact (settles_iff hL).mpr ⟨hrow, haccepts⟩
      exact hreaches.settles e' e hp row hsettles ancestor hcancelled hdescends
  · intro hspares
    refine ⟨fun e' e hp row hclaims ancestor hcancelled hdescends => ?_,
      fun e' e hp row hsettles ancestor hcancelled hdescends => ?_⟩
    · obtain ⟨hL, hafter, -⟩ := entry_effect hboard hr hp.mem_right
      rw [hafter, claims_iff hL] at hclaims
      exact hspares e hp.mem_right row hclaims.1 (.inl hclaims.2) ancestor hdescends
        (cancelled_of_precedes hboard hr hp hcancelled)
    · obtain ⟨hL, hafter, -⟩ := entry_effect hboard hr hp.mem_right
      rw [hafter, settles_iff hL] at hsettles
      exact hspares e hp.mem_right row hsettles.1 (.inr hsettles.2) ancestor hdescends
        (cancelled_of_precedes hboard hr hp hcancelled)

end

/-- A task is cancelled, and its child claimed afterwards. -/
def orphanClaimed : List TimedCall :=
  [⟨0, .registerTask acmeScope "s" "parent" [] [] none 0⟩,
    ⟨0, .registerTask acmeScope "s" "child" [] [] (some "parent") 0⟩,
    ⟨1, .cancelTask "s" "parent"⟩,
    ⟨2, .claimTask acmeScope "s" "child" 0 "worker-a" 2 10⟩]

/-- Without the claim the cancellation reaches the child. -/
theorem cancellationReaches_iff_unclaimed :
    let run := exec (TimedCall.act quoted) acmeLedger (orphanClaimed.take 3)
    CancellationReaches run.1 ↔
      ∀ e ∈ run.1, ∀ row ∈ e.before.coordTasks,
        e.op.call.Grants e.before row ∨ e.op.call.Accepts e.before row →
          ∀ ancestor, e.before.Descends row.streamId row.taskId ancestor →
            ¬e.before.TaskCancelled row.streamId ancestor :=
  cancellationReaches_iff rfl (run_exec _ _ _)

/-- The board after the cancellation. -/
def orphanBoard : Ledger := (exec (TimedCall.act quoted) acmeLedger (orphanClaimed.take 3)).2

/-- The rows of the cancelled task and of its child. -/
def parentRow : TaskRow where
  streamId := "s"
  taskId := "parent"
  revision := 0
  state := .cancelled
  workerId := none
  fence := 0
  writePaths := []
  dependsOn := []
  parentTask := none
  lastHeartbeat := 0
  progressMark := 0
  leaseUntil := 0
  resultDigest := none

@[inherit_doc parentRow]
def childRow : TaskRow :=
  { parentRow with taskId := "child", state := .ready, parentTask := some "parent" }

/-- **A child of a cancelled task is claimed.** -/
theorem orphan_claimed :
    ¬∀ (reprText : String → String) (L₀ L : Ledger) (h : List TimedEntry),
      L₀.coordTasks = [] → Run (TimedCall.act reprText) L₀ h L → CancellationReaches h := by
  intro hclaim
  have hreaches := hclaim quoted acmeLedger _ _ rfl (run_exec _ _ orphanClaimed)
  have hclaims : Claims orphanBoard (((⟨2, .claimTask acmeScope "s" "child" 0 "worker-a" 2
      10⟩ : TimedCall).act quoted orphanBoard).2) childRow :=
    ⟨by decide, by decide,
      { childRow with
        state := .leased, workerId := some "worker-a", fence := 1, lastHeartbeat := 2
        leaseUntil := 12 }, by decide, rfl⟩
  have hcancelled : orphanBoard.TaskCancelled "s" "parent" := ⟨parentRow, by decide, rfl⟩
  have hdescends : orphanBoard.Descends "s" "child" "parent" :=
    .single ⟨childRow, by decide, by decide, rfl⟩
  exact hreaches.claims _ _ ⟨[_, _], [], [], rfl⟩ childRow hclaims "parent" hcancelled hdescends

end CyranoAgent
