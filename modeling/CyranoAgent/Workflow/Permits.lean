import CyranoAgent.Lib.Closure
import CyranoAgent.Planning.WriteScope
import CyranoAgent.Workflow.Dispatch

/-!
# Permits of a partial approval

An approval of some units covers those whose dependencies it covers too. `partialApprovalUnits`
passes over the units that are left and drops each that needs one that is not, until a pass drops
nothing. What it keeps is the greatest closed part of the approval, in whatever order the passes go
(`isGreatest_partialApprovalUnits`), and a permit of a selection covers no more
(`partialApproval_spec`).
-/

namespace CyranoAgent

open Lib Planning Relation

/-! ### The units of a partial approval -/

/-- The orders in which the passes go over a set. -/
structure SetOrder where
  arrange : ℕ → List String → List String
  perm : ∀ n l, (arrange n l).Perm l

section

variable (order : SetOrder) (dependencies : String → List String)

/-- One pass over some units: what is still pending, and whether the pass changed it. -/
def passOver : List String → List String × Bool → List String × Bool
  | [], s => s
  | unit :: units, (pending, changed) =>
    if dependencies unit ⊆ pending then passOver units (pending, changed)
    else passOver units (pending.erase unit, true)

section

variable {dependencies} {units pending : List String} {changed : Bool}

theorem passOver_sublist : (passOver dependencies units (pending, changed)).1.Sublist pending := by
  induction units generalizing pending changed with
  | nil => exact .refl _
  | cons unit units ih =>
    rw [passOver]
    split
    · exact ih
    · exact ih.trans List.erase_sublist

/-- A pass that has changed something says so. -/
theorem passOver_changed : (passOver dependencies units (pending, true)).2 = true := by
  induction units generalizing pending with
  | nil => rfl
  | cons unit units ih =>
    rw [passOver]
    split <;> exact ih

/-- A pass over pending units that changes something leaves fewer of them. -/
theorem length_passOver_lt (hsub : units ⊆ pending)
    (h : (passOver dependencies units (pending, false)).2 = true) :
    (passOver dependencies units (pending, false)).1.length < pending.length := by
  induction units with
  | nil => cases h
  | cons unit units ih =>
    obtain ⟨hunit, hunits⟩ := List.cons_subset.mp hsub
    rw [passOver] at h ⊢
    split
    next hkeep =>
      rw [if_pos hkeep] at h
      exact ih hunits h
    next hdrop =>
      refine passOver_sublist.length_le.trans_lt ?_
      rw [List.length_erase_of_mem hunit]
      exact Nat.sub_lt (List.length_pos_of_mem hunit) Nat.one_pos

/-- A pass that changes nothing has found every unit closed. -/
theorem passOver_unchanged (h : (passOver dependencies units (pending, false)).2 = false) :
    (passOver dependencies units (pending, false)).1 = pending ∧
      ∀ unit ∈ units, dependencies unit ⊆ pending := by
  induction units with
  | nil => exact ⟨rfl, fun _ hunit => absurd hunit List.not_mem_nil⟩
  | cons unit units ih =>
    rw [passOver] at h ⊢
    split
    next hkeep =>
      rw [if_pos hkeep] at h
      obtain ⟨hsame, hunits⟩ := ih h
      exact ⟨hsame, List.forall_mem_cons.mpr ⟨hkeep, hunits⟩⟩
    next hdrop =>
      rw [if_neg hdrop, passOver_changed] at h
      cases h

/-- **A pass drops no unit of a closed part.** -/
theorem subset_passOver {places part : Set String}
    (hpart : part ∈ closedWithin (fun unit dep => dep ∈ dependencies unit) places)
    (h : part ⊆ {x | x ∈ pending}) :
    part ⊆ {x | x ∈ (passOver dependencies units (pending, changed)).1} := by
  induction units generalizing pending changed with
  | nil => exact h
  | cons unit units ih =>
    rw [passOver]
    split
    next => exact ih h
    next hdrop =>
      obtain ⟨dep, hdep, hmissing⟩ := Set.not_subset.mp hdrop
      have hunit : unit ∉ part := not_mem_of_closedWithin hpart h hdep hmissing
      refine ih fun x hx => (List.mem_erase_of_ne ?_).mpr (h hx)
      rintro rfl
      exact hunit hx

end

/-- The loop of `partial_approval_units`, from its pass `n` on. -/
def dropUnits (n : ℕ) (pending : List String) : List String :=
  let passed := passOver dependencies (order.arrange n pending) (pending, false)
  if _h : passed.2 = true then dropUnits (n + 1) passed.1 else passed.1
termination_by pending.length
decreasing_by exact length_passOver_lt (order.perm n pending).subset _h

/-- `partial_approval_units`. -/
def partialApprovalUnits (approved : List String) : List String :=
  approved.filter (· ∈ dropUnits order dependencies 0 approved.dedup)

section

variable {order dependencies} {n : ℕ} {pending approved : List String}

/-- **The loop ends with a closed set** that holds every closed part of what it starts from. -/
theorem dropUnits_spec :
    {x | x ∈ dropUnits order dependencies n pending} ∈
        closedWithin (fun unit dep => dep ∈ dependencies unit) {x | x ∈ pending} ∧
      ∀ part ∈ closedWithin (fun unit dep => dep ∈ dependencies unit) {x | x ∈ pending},
        part ⊆ {x | x ∈ dropUnits order dependencies n pending} := by
  induction n, pending using dropUnits.induct order dependencies with
  | case1 n pending passed hchanged ih =>
    have hsub : {x | x ∈ passed.1} ⊆ {x | x ∈ pending} := fun _ hx => passOver_sublist.subset hx
    rw [dropUnits, dif_pos hchanged]
    refine ⟨⟨ih.1.1.trans hsub, ih.1.2⟩, fun part hpart => ih.2 part ⟨?_, hpart.2⟩⟩
    exact subset_passOver hpart hpart.1
  | case2 n pending passed hchanged =>
    obtain ⟨hsame, hclosed⟩ := passOver_unchanged (Bool.eq_false_iff.mpr hchanged)
    rw [dropUnits, dif_neg hchanged, hsame]
    refine ⟨⟨subset_rfl, fun x hx y hy => ?_⟩, fun part hpart => hpart.1⟩
    exact hclosed x ((order.perm n pending).mem_iff.mpr hx) hy

theorem mem_partialApprovalUnits {unit : String} :
    unit ∈ partialApprovalUnits order dependencies approved ↔
      unit ∈ approved ∧ unit ∈ dropUnits order dependencies 0 approved.dedup := by
  rw [partialApprovalUnits, List.mem_filter, decide_eq_true_eq]

end

/-- **What is kept of an approval** is its greatest closed part. -/
theorem isGreatest_partialApprovalUnits (approved : List String) :
    IsGreatest (closedWithin (fun unit dep => dep ∈ dependencies unit) {x | x ∈ approved})
      {x | x ∈ partialApprovalUnits order dependencies approved} := by
  have hstart : {x | x ∈ approved.dedup} = {x | x ∈ approved} := by
    ext x
    exact List.mem_dedup
  obtain ⟨hclosed, hgreatest⟩ := hstart ▸ @dropUnits_spec order dependencies 0 approved.dedup
  have hkept : {x | x ∈ partialApprovalUnits order dependencies approved} =
      {x | x ∈ dropUnits order dependencies 0 approved.dedup} := by
    ext x
    exact mem_partialApprovalUnits.trans ⟨And.right, fun h => ⟨hclosed.1 h, h⟩⟩
  rw [hkept]
  exact ⟨hclosed, hgreatest⟩

/-- The order of the passes does not matter. -/
theorem partialApprovalUnits_eq (order' : SetOrder) (approved : List String) :
    partialApprovalUnits order' dependencies approved =
      partialApprovalUnits order dependencies approved := by
  have hsame := (isGreatest_partialApprovalUnits order' dependencies approved).unique
    (isGreatest_partialApprovalUnits order dependencies approved)
  refine List.filter_congr fun x hx => decide_eq_decide.mpr ?_
  have hmem := Set.ext_iff.mp hsame x
  simpa only [Set.mem_ofPred_eq, mem_partialApprovalUnits, hx, true_and] using hmem

end

/-! ### The permit -/

/-- `make_permit`, with the units that the permit covers. -/
def PlanService.makeUnitPermit (reprText : String → String) (order : SetOrder)
    (desk : DecisionDesk) (decisionId subjectDigest sourceSnapshotDigest : String)
    (generation : ℤ) (plan : GovernedWorkPlan) : Except Failure UnitPermit := do
  let permit ← makePermit reprText desk decisionId subjectDigest sourceSnapshotDigest generation
  let selected := ((desk.load decisionId).map (·.approvedUnits)).getD []
  if selected ≠ [] then
    -- `{u.unit_id: u.dependencies for u in plan.units}`
    let dependencies unitId :=
      ((unit? (Planning.byId plan.units) unitId).map (·.dependencies)).getD []
    return { permit with approvedUnits := partialApprovalUnits order dependencies selected }
  else return { permit with approvedUnits := sortedStrings (plan.units.map (·.unitId)) }

section

variable {units : List WorkUnitSpec} {unitId dep : String}

/-- The dependencies that the permit is made with. -/
theorem mem_dependencies_iff :
    dep ∈ ((unit? units unitId).map (·.dependencies)).getD [] ↔
      Planning.DependsOn units unitId dep := by
  rcases hunit : unit? units unitId with _ | u <;> simp [Planning.DependsOn, hunit]

end

/-- **What a partial approval covers**: for every selection and every dependency map, the greatest
part of the selection that is closed under dependencies. A permit of a selection covers units that
were selected, each with all that it depends on. -/
theorem partialApproval_spec (order : SetOrder) (dependencies : String → List String)
    (approved : List String) :
    IsGreatest (closedWithin (fun unit dep => dep ∈ dependencies unit) {x | x ∈ approved})
      {x | x ∈ partialApprovalUnits order dependencies approved} ∧
    (∀ order', partialApprovalUnits order' dependencies approved =
      partialApprovalUnits order dependencies approved) ∧
    ∀ (reprText : String → String) (desk : DecisionDesk)
      (decisionId subjectDigest sourceSnapshotDigest : String) (generation : ℤ)
      (plan : GovernedWorkPlan) (request : DecisionRequest) (permit : UnitPermit),
      desk.load decisionId = some request → request.approvedUnits ≠ [] →
      PlanService.makeUnitPermit reprText order desk decisionId subjectDigest sourceSnapshotDigest
        generation plan = .ok permit →
      ∀ unitId ∈ permit.approvedUnits, unitId ∈ request.approvedUnits ∧
        ∀ dep, TransGen (Planning.DependsOn (Planning.byId plan.units)) unitId dep →
          dep ∈ permit.approvedUnits := by
  refine ⟨isGreatest_partialApprovalUnits .., fun order' => partialApprovalUnits_eq .., ?_⟩
  intro reprText desk decisionId subjectDigest snapshotDigest generation plan request permit hload
    hselected hpermit unitId hunit
  rw [PlanService.makeUnitPermit, except_bind_eq_ok] at hpermit
  obtain ⟨base, -, hpermit⟩ := hpermit
  simp only [hload, Option.map_some, Option.getD_some, if_pos hselected] at hpermit
  obtain rfl := Except.ok.inj hpermit
  obtain ⟨hclosed, -⟩ := isGreatest_partialApprovalUnits order
    (fun unitId => ((unit? (Planning.byId plan.units) unitId).map (·.dependencies)).getD [])
    request.approvedUnits
  simp only [mem_dependencies_iff] at hclosed
  refine ⟨hclosed.1 hunit, fun dep hdep => ?_⟩
  have hcovered := mem_of_transGen_of_closedWithin hclosed hunit hdep
  exact hcovered

/-- The passes go over the units as they stand. -/
def asListed : SetOrder := ⟨fun _ l => l, fun _ l => .refl l⟩

/-- A decision that approves a unit and not the one it depends on. -/
def selectedDesk : DecisionDesk where
  requests := [{
    decisionId := "d1", scope := "scope", purpose := "execution_permission", subjectDigest := "s1"
    displayDigest := "v1", requestRevision := 0, nonce := "n1", expiresAt := 600
    allowedResponses := ["approve"], state := .approved, approvedUnits := ["B", "C"] }]

/-- The plan of the decision: `B` depends on `A`. -/
def selectedPlan : GovernedWorkPlan :=
  loneUnits [loneUnit "A" "a.py" 10, { loneUnit "B" "b.py" 10 with dependencies := ["A"] },
    loneUnit "C" "c.py" 10]

theorem partialApproval_spec_selected : ∃ permit,
    PlanService.makeUnitPermit id asListed selectedDesk "d1" "s1" "t1" 0 selectedPlan =
      .ok permit ∧
    ∀ unitId ∈ permit.approvedUnits, unitId ∈ ["B", "C"] ∧
      ∀ dep, TransGen (Planning.DependsOn (Planning.byId selectedPlan.units)) unitId dep →
        dep ∈ permit.approvedUnits :=
  ⟨_, rfl, (partialApproval_spec asListed (fun _ => []) []).2.2 id selectedDesk "d1" "s1" "t1" 0
    selectedPlan _ _ rfl (List.cons_ne_nil _ _) rfl⟩

end CyranoAgent
