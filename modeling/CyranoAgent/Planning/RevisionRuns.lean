import CyranoAgent.Lib.Run
import CyranoAgent.Planning.Changes

/-!
# Runs of plan commits

`commit` compares the expected revision with the head of the plan and makes the plan's own revision
the new head, whatever it is. `compareAndSwap_iff` says when that is a compare-and-swap: exactly
when every commit that is admitted carries a revision above the one it expects.
-/

namespace CyranoAgent

open Lib Lib.Action

namespace Planning

namespace PlanRevisions

/-- The arguments of `commit`. -/
structure CommitCall where
  plan : GovernedWorkPlan
  expectedRevision : ℤ

/-- Perform a commit. -/
def CommitCall.act (c : CommitCall) (R : PlanRevisions) : Except Failure ℤ × PlanRevisions :=
  (commit c.plan c.expectedRevision).run R

/-- One commit of a history. -/
abbrev CommitEntry := Entry PlanRevisions CommitCall (Except Failure ℤ)

/-- The commits of `h` lead from an empty store to `R`. -/
abbrev CommitHistory (h : List CommitEntry) (R : PlanRevisions) : Prop :=
  Run CommitCall.act {} h R

/-- The head revision that a commit is compared with. -/
def headRevision (R : PlanRevisions) (planId : String) : ℤ := (R.heads planId).getD (-1)

/-- The commit names the head, and its plan a delivery mode that is known. -/
def Admits (R : PlanRevisions) (c : CommitCall) : Prop :=
  c.expectedRevision = R.headRevision c.plan.planId ∧
    c.plan.deliveryMode ∈ ["patch_only", "apply_to_source"]

/-! ### One commit -/

/-- A commit goes through when it is admitted, and changes nothing otherwise. -/
theorem act_cases (c : CommitCall) (R : PlanRevisions) :
    (R.Admits c ∧ c.act R = (.ok c.plan.revision, R.committed c.plan)) ∨
      (¬R.Admits c ∧ ∃ failure, c.act R = (.error failure, R)) := by
  rw [CommitCall.act, commit, run_bind_ok (run_get R)]
  dsimp only
  rw [run_raiseIf_bind]
  by_cases hhead : c.expectedRevision = R.headRevision c.plan.planId
  · have hexpected : c.expectedRevision = (R.heads c.plan.planId).getD (-1) := hhead
    rw [if_neg (not_not.mpr hexpected), run_raiseIf_bind]
    by_cases hmode : c.plan.deliveryMode ∈ ["patch_only", "apply_to_source"]
    · rw [if_neg (not_not.mpr hmode)]
      exact .inl ⟨⟨hhead, hmode⟩, rfl⟩
    · rw [if_pos hmode]
      exact .inr ⟨fun hadmits => hmode hadmits.2, _, rfl⟩
  · have hexpected : c.expectedRevision ≠ (R.heads c.plan.planId).getD (-1) := hhead
    rw [if_pos hexpected]
    exact .inr ⟨fun hadmits => hhead hadmits.1, _, rfl⟩

/-- The head revision after a commit. -/
theorem headRevision_committed (R : PlanRevisions) (plan : GovernedWorkPlan) (planId : String) :
    (R.committed plan).headRevision planId =
      if planId = plan.planId then plan.revision else R.headRevision planId := by
  by_cases heq : planId = plan.planId
  · simp [headRevision, committed, heq]
  · simp [headRevision, committed, heq]

/-- The plan of a revision after a commit. -/
theorem plans_committed (R : PlanRevisions) (plan : GovernedWorkPlan) (planId : String)
    (revision : ℤ) :
    (R.committed plan).plans planId revision =
      if planId = plan.planId ∧ revision = plan.revision then some plan
      else R.plans planId revision := by
  by_cases heq : planId = plan.planId
  · subst heq
    by_cases hrevision : revision = plan.revision
    · simp [committed, hrevision]
    · simp [committed, hrevision]
  · simp [committed, heq]

/-! ### Histories of commits -/

/-- What a compare-and-swap store promises over a history. -/
structure CompareAndSwap (h : List CommitEntry) : Prop where
  /-- A commit raises the head of its plan. -/
  rises : ∀ e ∈ h, ∀ n, e.reply = .ok n →
    e.before.headRevision e.op.plan.planId < e.after.headRevision e.op.plan.planId
  /-- One commit of a plan wins per base revision. -/
  once : ∀ e e', Precedes h e e' → ∀ n n', e.reply = .ok n → e'.reply = .ok n' →
    e.op.plan.planId = e'.op.plan.planId → e.op.expectedRevision ≠ e'.op.expectedRevision
  /-- A committed revision keeps its plan. -/
  kept : ∀ e ∈ h, ∀ planId revision plan, e.before.plans planId revision = some plan →
    e.after.plans planId revision = some plan
  /-- A commit that is refused changes nothing. -/
  refused : ∀ e ∈ h, ∀ failure, e.reply = .error failure → e.after = e.before

/-- The commit carries a revision above the one it expects, if it is admitted at all. -/
def Rises (e : CommitEntry) : Prop :=
  e.before.Admits e.op → e.op.expectedRevision < e.op.plan.revision

section

variable {R R' : PlanRevisions} {h : List CommitEntry}

/-- A commit that rises leaves no head lower. -/
theorem headRevision_mono_act {c : CommitCall}
    (hrises : Rises (Entry.perform CommitCall.act R c)) (planId : String) :
    R.headRevision planId ≤ (c.act R).2.headRevision planId := by
  rcases act_cases c R with ⟨hadmits, hact⟩ | ⟨-, failure, hact⟩
  · rw [hact, headRevision_committed]
    have hlt : c.expectedRevision < c.plan.revision := hrises hadmits
    have hhead : c.expectedRevision = R.headRevision c.plan.planId := hadmits.1
    split_ifs with heq
    · rw [heq]
      omega
    · exact le_rfl
  · rw [hact]

/-- Commits that rise leave no head lower. -/
theorem headRevision_mono (hr : Run CommitCall.act R h R') (hrises : ∀ e ∈ h, Rises e)
    (planId : String) : R.headRevision planId ≤ R'.headRevision planId := by
  refine hr.inv (I := fun h R' => (∀ e ∈ h, Rises e) →
    R.headRevision planId ≤ R'.headRevision planId) (fun _ => le_rfl) ?_ hrises
  intro h R' c _ ih hrises
  have hbefore : R.headRevision planId ≤ R'.headRevision planId :=
    ih fun e he => hrises e (List.mem_append_left _ he)
  exact hbefore.trans (headRevision_mono_act (hrises _ List.mem_concat_self) planId)

/-- No committed revision is above its head, when all commits rise. -/
theorem le_headRevision (hr : CommitHistory h R) (hrises : ∀ e ∈ h, Rises e) {planId : String}
    {revision : ℤ} {plan : GovernedWorkPlan} (hplan : R.plans planId revision = some plan) :
    revision ≤ R.headRevision planId := by
  refine hr.inv (I := fun h R => (∀ e ∈ h, Rises e) → ∀ revision plan,
    R.plans planId revision = some plan → revision ≤ R.headRevision planId) ?_ ?_ hrises revision
    plan hplan
  · intro _ revision plan hplan
    cases hplan
  · intro h R c _ ih hrises revision plan hplan
    have hmono := headRevision_mono_act (hrises _ List.mem_concat_self) planId
    have hbefore := ih fun e he => hrises e (List.mem_append_left _ he)
    rcases act_cases c R with ⟨-, hact⟩ | ⟨-, failure, hact⟩
    · rw [hact] at hplan hmono ⊢
      rw [plans_committed] at hplan
      split_ifs at hplan with heq
      · rw [headRevision_committed, if_pos heq.1, heq.2]
      · exact (hbefore revision plan hplan).trans hmono
    · rw [hact] at hplan ⊢
      exact hbefore revision plan hplan

/-- An admitted commit of a history, and what it leaves. -/
theorem committed_of_mem (hr : CommitHistory h R) {e : CommitEntry} (he : e ∈ h) {n : ℤ}
    (hreply : e.reply = .ok n) :
    e.before.Admits e.op ∧ e.after = e.before.committed e.op.plan := by
  have hperform := hr.eq_perform he
  rcases act_cases e.op e.before with ⟨hadmits, hact⟩ | ⟨-, failure, hact⟩
  · rw [Entry.perform, hact] at hperform
    exact ⟨hadmits, congrArg Entry.after hperform⟩
  · rw [Entry.perform, hact] at hperform
    have hrefused := congrArg Entry.reply hperform
    rw [hreply] at hrefused
    cases hrefused

/-- When all commits rise, a commit keeps the revisions there are. -/
theorem plans_kept (hr : CommitHistory h R) (hrises : ∀ e ∈ h, Rises e) {e : CommitEntry}
    (he : e ∈ h) {planId : String} {revision : ℤ} {plan : GovernedWorkPlan}
    (hplan : e.before.plans planId revision = some plan) :
    e.after.plans planId revision = some plan := by
  obtain ⟨h₁, h₂, rfl⟩ := List.append_of_mem he
  obtain ⟨hbefore, heq, -⟩ := hr.split
  have hle : revision ≤ e.before.headRevision planId :=
    le_headRevision hbefore (fun e' he' => hrises e' (List.mem_append_left _ he')) hplan
  have hafter : e.after = (e.op.act e.before).2 := congrArg Entry.after heq
  rw [hafter]
  rcases act_cases e.op e.before with ⟨hadmits, hact⟩ | ⟨-, failure, hact⟩
  · -- the new revision lies above the head, and so above every committed one
    have hlt := hrises e he hadmits
    have hhead := hadmits.1
    have hother : ¬(planId = e.op.plan.planId ∧ revision = e.op.plan.revision) := by
      rintro ⟨rfl, rfl⟩
      omega
    rw [hact, plans_committed, if_neg hother, hplan]
  · rw [hact]
    exact hplan

/-- When all commits rise, no two of one plan win the same base. -/
theorem expectedRevision_ne (hr : CommitHistory h R) (hrises : ∀ e ∈ h, Rises e)
    {e e' : CommitEntry} (hprecedes : Precedes h e e') {n n' : ℤ} (hreply : e.reply = .ok n)
    (hreply' : e'.reply = .ok n') (hplan : e.op.plan.planId = e'.op.plan.planId) :
    e.op.expectedRevision ≠ e'.op.expectedRevision := by
  obtain ⟨hadmits, hafter⟩ := committed_of_mem hr hprecedes.mem_left hreply
  obtain ⟨hadmits', -⟩ := committed_of_mem hr hprecedes.mem_right hreply'
  have hlt := hrises e hprecedes.mem_left hadmits
  obtain ⟨h₁, h₂, h₃, rfl⟩ := hprecedes
  obtain ⟨-, -, hrest⟩ := hr.split
  have hmono : e.after.headRevision e.op.plan.planId ≤ e'.before.headRevision e.op.plan.planId :=
    headRevision_mono hrest.split.1 (fun e'' he'' => hrises e'' (by simp [he''])) _
  rw [hafter, headRevision_committed, if_pos rfl] at hmono
  have hhead := hadmits'.1
  rw [← hplan] at hhead
  omega

/-- **When commits are compare-and-swaps**: exactly when each one that is admitted carries a
revision above the one it expects. -/
theorem compareAndSwap_iff (hr : CommitHistory h R) : CompareAndSwap h ↔ ∀ e ∈ h, Rises e := by
  constructor
  · intro hcas e he hadmits
    have hperform := hr.eq_perform he
    rcases act_cases e.op e.before with ⟨-, hact⟩ | ⟨hrefused, -⟩
    · rw [Entry.perform, hact] at hperform
      have hrises := hcas.rises e he e.op.plan.revision (congrArg Entry.reply hperform)
      have hafter : e.after = e.before.committed e.op.plan := congrArg Entry.after hperform
      rw [hafter, headRevision_committed, if_pos rfl, ← hadmits.1] at hrises
      exact hrises
    · exact absurd hadmits hrefused
  · intro hrises
    refine ⟨?_, ?_, ?_, ?_⟩
    · intro e he n hreply
      obtain ⟨hadmits, hafter⟩ := committed_of_mem hr he hreply
      rw [hafter, headRevision_committed, if_pos rfl, ← hadmits.1]
      exact hrises e he hadmits
    · intro e e' hprecedes n n' hreply hreply' hplan
      exact expectedRevision_ne hr hrises hprecedes hreply hreply' hplan
    · intro e he planId revision plan hplan
      exact plans_kept hr hrises he hplan
    · intro e he failure hreply
      have hperform := hr.eq_perform he
      rcases act_cases e.op e.before with ⟨-, hact⟩ | ⟨-, failure', hact⟩
      · rw [Entry.perform, hact] at hperform
        have haccepted := congrArg Entry.reply hperform
        rw [hreply] at haccepted
        cases haccepted
      · rw [Entry.perform, hact] at hperform
        exact congrArg Entry.after hperform

/-- A revision of plan `p1` with a budget. -/
def planWith (revision budget : ℤ) : GovernedWorkPlan :=
  { planId := "p1", revision, requirements := ["R1"], units := [], budgetCap := some budget }

/-- The revisions 0 and 1 are committed, with a stale commit between them. -/
theorem compareAndSwap_iff_planWith :
    CompareAndSwap (exec CommitCall.act {}
        [⟨planWith 0 1, -1⟩, ⟨planWith 1 2, -1⟩, ⟨planWith 1 2, 0⟩]).1 ↔
      ∀ e ∈ (exec CommitCall.act {}
        [⟨planWith 0 1, -1⟩, ⟨planWith 1 2, -1⟩, ⟨planWith 1 2, 0⟩]).1, Rises e :=
  compareAndSwap_iff (run_exec CommitCall.act {} _)

/-- **A committed revision is replaced** by another plan under the same number. -/
theorem revision_replaced : ¬∀ (h : List CommitEntry) (R : PlanRevisions),
    CommitHistory h R → CompareAndSwap h := by
  intro hclaim
  have hcas := hclaim _ _ (run_exec CommitCall.act {} [⟨planWith 0 1, -1⟩, ⟨planWith 0 2, 0⟩])
  have hkept := hcas.kept _ (List.mem_cons_of_mem _ (List.mem_singleton_self _)) "p1" 0
    (planWith 0 1) rfl
  have hbudget := congrArg (Option.map GovernedWorkPlan.budgetCap) hkept
  exact absurd hbudget (by decide)

end

end PlanRevisions

end Planning

end CyranoAgent
