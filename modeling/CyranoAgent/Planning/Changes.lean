import CyranoAgent.Lib.Action
import CyranoAgent.Planning.Subject

/-!
# Plan revisions

`PlanRevisions`, the store of committed plans: a commit names the revision it expects to be the
head of its plan.
-/

namespace CyranoAgent

open Lib Lib.Action

namespace Planning

/-- `PlanRevisions`: the plans by id and revision, and the head revision of each id. -/
structure PlanRevisions where
  plans : String → ℤ → Option GovernedWorkPlan := fun _ _ => none
  heads : String → Option ℤ := fun _ => none

namespace PlanRevisions

/-- `head`. -/
def head (R : PlanRevisions) (planId : String) : Option GovernedWorkPlan :=
  (R.heads planId).bind (R.plans planId)

/-- The revisions after a commit. -/
def committed (R : PlanRevisions) (plan : GovernedWorkPlan) : PlanRevisions where
  plans := Function.update R.plans plan.planId
    (Function.update (R.plans plan.planId) plan.revision (some plan))
  heads := Function.update R.heads plan.planId (some plan.revision)

/-- The text of a lost race. -/
def conflict (expectedRevision head : ℤ) : String :=
  s!"expected revision {expectedRevision}, head is {head}"

/-- `commit`. -/
def commit (plan : GovernedWorkPlan) (expectedRevision : ℤ) : Action PlanRevisions Failure ℤ := do
  let R ← get
  let head := (R.heads plan.planId).getD (-1)
  raiseIf (expectedRevision ≠ head) (.cyrano "CAS_CONFLICT" (conflict expectedRevision head))
  raiseIf (plan.deliveryMode ∉ ["patch_only", "apply_to_source"])
    (.cyrano "INVALID_PLAN" "unknown delivery mode")
  modify fun R => R.committed plan
  return plan.revision

/-- What was committed last is the head. -/
@[simp] theorem head_committed (R : PlanRevisions) (plan : GovernedWorkPlan) (planId : String) :
    (R.committed plan).head planId = if planId = plan.planId then some plan else R.head planId := by
  by_cases heq : planId = plan.planId
  · simp [head, committed, heq]
  · simp [head, committed, heq]

/-- A commit that goes through. -/
theorem commit_eq_ok {R R' : PlanRevisions} {plan : GovernedWorkPlan} {expectedRevision n : ℤ}
    (h : (commit plan expectedRevision).run R = (.ok n, R')) : R' = R.committed plan := by
  simp only [commit, bind_eq_ok, run_get, raiseIf_eq_ok, run_modify, run_pure, Prod.mk.injEq,
    Except.ok.injEq] at h
  obtain ⟨_, _, ⟨rfl, rfl⟩, _, _, ⟨-, rfl⟩, _, _, ⟨-, rfl⟩, _, _, ⟨-, rfl⟩, -, rfl⟩ := h
  rfl

/-- A commit that raises changes nothing. -/
theorem atomic_commit (plan : GovernedWorkPlan) (expectedRevision : ℤ) :
    Atomic (commit plan expectedRevision) :=
  Atomic.bind readOnly_get fun _ => Atomic.bind (readOnly_raiseIf _ _) fun _ =>
    Atomic.bind (readOnly_raiseIf _ _) fun _ => by
      intro R R' e h
      simp [run_bind] at h

end PlanRevisions

end Planning

end CyranoAgent
