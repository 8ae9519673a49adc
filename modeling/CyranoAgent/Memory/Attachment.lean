import CyranoAgent.Lib.Firsts
import CyranoAgent.Memory.Obligations

/-!
# What an attachment makes of a plan

`attach_obligations` goes over the obligations and links each into the units that it is for.
`attachUnit` says what this makes of one unit, and `Attached` what the loop has made of all of them
so far. An attachment adds to each unit what the obligations that target it ask for and changes
nothing else, and a second attachment adds nothing (`attaches`).
-/

namespace CyranoAgent

open Lib

namespace Memory

open Planning (GovernedWorkPlan WorkUnitSpec)

/-! ### One unit -/

/-- The obligation is for the unit: the unit is among its explicit targets, or without any its
selector matches the unit. -/
def Targets (targets : Dict String (List String)) (o : RuleObligation) (u : WorkUnitSpec) : Prop :=
  match targets.get? o.obligationId with
  | some unitIds => u.unitId ∈ unitIds
  | none => AppliesToPaths o.spec.selector u.writePaths

instance (targets : Dict String (List String)) (o : RuleObligation) (u : WorkUnitSpec) :
    Decidable (Targets targets o u) :=
  match h : targets.get? o.obligationId with
  | some unitIds => decidable_of_iff (u.unitId ∈ unitIds) (by rw [Targets, h])
  | none => decidable_of_iff (AppliesToPaths o.spec.selector u.writePaths) (by rw [Targets, h])

/-- A unit with the ids of an obligation. -/
def linked (o : RuleObligation) (u : WorkUnitSpec) : WorkUnitSpec :=
  { u with
    requirementIds := (u.requirementIds ++ [o.requirementId]).eraseDups
    acceptanceIds := (u.acceptanceIds ++ [o.acceptanceId]).eraseDups }

/-- What an attachment makes of a unit. -/
def attachUnit (targets : Dict String (List String)) (obligations : List RuleObligation)
    (u : WorkUnitSpec) : WorkUnitSpec :=
  obligations.foldl (fun u o => if Targets targets o u then linked o u else u) u

section

variable {targets : Dict String (List String)} {obligations : List RuleObligation}
  {o o' : RuleObligation} {u : WorkUnitSpec} {r : String}

@[simp] theorem targets_linked : Targets targets o (linked o' u) ↔ Targets targets o u := Iff.rfl

theorem attachUnit_cons : attachUnit targets (o :: obligations) u =
    attachUnit targets obligations (if Targets targets o u then linked o u else u) := rfl

theorem attachUnit_concat : attachUnit targets (obligations ++ [o]) u =
    if Targets targets o (attachUnit targets obligations u) then
      linked o (attachUnit targets obligations u)
    else attachUnit targets obligations u :=
  List.foldl_concat ..

/-- **Only the two lists of ids of a unit change.** -/
theorem exists_attachUnit (targets : Dict String (List String)) (obligations : List RuleObligation)
    (u : WorkUnitSpec) : ∃ requirementIds acceptanceIds,
      attachUnit targets obligations u = { u with requirementIds, acceptanceIds } := by
  induction obligations generalizing u with
  | nil => exact ⟨u.requirementIds, u.acceptanceIds, rfl⟩
  | cons o obligations ih =>
    rw [attachUnit_cons]
    split
    · exact ih (linked o u)
    · exact ih u

theorem targets_attachUnit :
    Targets targets o (attachUnit targets obligations u) ↔ Targets targets o u := by
  obtain ⟨reqs, accs, h⟩ := exists_attachUnit targets obligations u
  rw [h]
  rfl

theorem attachUnit_unitId : (attachUnit targets obligations u).unitId = u.unitId := by
  obtain ⟨reqs, accs, h⟩ := exists_attachUnit targets obligations u
  rw [h]

/-- **What a unit gains**: the ids of the obligations that target it. -/
theorem mem_attachUnit :
    (r ∈ (attachUnit targets obligations u).requirementIds ↔
      r ∈ u.requirementIds ∨ ∃ o ∈ obligations, Targets targets o u ∧ r = o.requirementId) ∧
    (r ∈ (attachUnit targets obligations u).acceptanceIds ↔
      r ∈ u.acceptanceIds ∨ ∃ o ∈ obligations, Targets targets o u ∧ r = o.acceptanceId) := by
  induction obligations generalizing u with
  | nil => simp [attachUnit]
  | cons o obligations ih =>
    rw [attachUnit_cons]
    by_cases ho : Targets targets o u
    · rw [if_pos ho]
      obtain ⟨hreqs, haccs⟩ := ih (u := linked o u)
      have hreq : r ∈ (linked o u).requirementIds ↔ r ∈ u.requirementIds ∨ r = o.requirementId := by
        simp [linked]
      have hacc : r ∈ (linked o u).acceptanceIds ↔ r ∈ u.acceptanceIds ∨ r = o.acceptanceId := by
        simp [linked]
      rw [hreqs, haccs, hreq, hacc]
      simp only [targets_linked, List.mem_cons, exists_eq_or_imp, ho, true_and, or_assoc,
        and_self]
    · rw [if_neg ho]
      obtain ⟨hreqs, haccs⟩ := ih (u := u)
      rw [hreqs, haccs]
      simp [ho]

/-- A unit that no obligation targets stays as it is. -/
theorem attachUnit_eq_self (h : ∀ o ∈ obligations, ¬Targets targets o u) :
    attachUnit targets obligations u = u := by
  induction obligations with
  | nil => rfl
  | cons o obligations ih =>
    rw [List.forall_mem_cons] at h
    rw [attachUnit_cons, if_neg h.1, ih h.2]

/-- The unit has the ids of an obligation, and none of its ids twice. -/
structure Carries (u : WorkUnitSpec) (o : RuleObligation) : Prop where
  requirement : o.requirementId ∈ u.requirementIds
  acceptance : o.acceptanceId ∈ u.acceptanceIds
  requirements : u.requirementIds.Nodup
  acceptances : u.acceptanceIds.Nodup

theorem Carries.linked_eq (h : Carries u o) : linked o u = u := by
  rw [linked, eraseDups_concat_of_mem h.requirements h.requirement,
    eraseDups_concat_of_mem h.acceptances h.acceptance]

theorem carries_linked : Carries (linked o u) o where
  requirement := by simp [linked]
  acceptance := by simp [linked]
  requirements := nodup_eraseDups _
  acceptances := nodup_eraseDups _

/-- What a unit carries it carries on. -/
theorem Carries.linked (h : Carries u o) : Carries (linked o' u) o where
  requirement := by simp [Memory.linked, h.requirement]
  acceptance := by simp [Memory.linked, h.acceptance]
  requirements := nodup_eraseDups _
  acceptances := nodup_eraseDups _

theorem Carries.attachUnit (h : Carries u o) : Carries (attachUnit targets obligations u) o := by
  induction obligations generalizing u with
  | nil => exact h
  | cons o' obligations ih =>
    rw [attachUnit_cons]
    split
    · exact ih h.linked
    · exact ih h

theorem carries_attachUnit (ho : o ∈ obligations) (htargets : Targets targets o u) :
    Carries (attachUnit targets obligations u) o := by
  induction obligations generalizing u with
  | nil => cases ho
  | cons o' obligations ih =>
    rw [attachUnit_cons]
    rcases List.mem_cons.mp ho with rfl | ho
    · rw [if_pos htargets]
      exact carries_linked.attachUnit
    · split
      · exact ih ho htargets
      · exact ih ho htargets

/-- A unit that carries every obligation that targets it stays as it is. -/
theorem attachUnit_of_carries (h : ∀ o ∈ obligations, Targets targets o u → Carries u o) :
    attachUnit targets obligations u = u := by
  induction obligations with
  | nil => rfl
  | cons o obligations ih =>
    rw [List.forall_mem_cons] at h
    rw [attachUnit_cons]
    split
    next ho => rw [(h.1 ho).linked_eq, ih h.2]
    next => exact ih h.2

/-- **A second attachment leaves a unit as it is.** -/
theorem attachUnit_attachUnit : attachUnit targets obligations (attachUnit targets obligations u) =
    attachUnit targets obligations u :=
  attachUnit_of_carries fun _ ho htargets => carries_attachUnit ho (targets_attachUnit.mp htargets)

end

/-! ### The loop -/

/-- The obligation is for one of the units of the plan. -/
def TargetsPlan (plan : GovernedWorkPlan) (targets : Dict String (List String))
    (o : RuleObligation) : Prop := ∃ u ∈ plan.units, Targets targets o u

instance (plan : GovernedWorkPlan) (targets : Dict String (List String)) (o : RuleObligation) :
    Decidable (TargetsPlan plan targets o) :=
  inferInstanceAs (Decidable (∃ u ∈ plan.units, _))

/-- What the loop has made of a plan once it is through with some obligations. -/
structure Attached (plan : GovernedWorkPlan) (targets : Dict String (List String))
    (done : List RuleObligation) (A : Attaching) : Prop where
  keys : ∀ unitId, unitId ∈ A.units.keys ↔ unitId ∈ plan.units.map (·.unitId)
  units : ∀ u ∈ plan.units, A.units.get? u.unitId = some (attachUnit targets done u)
  requirementIds : A.requirementIds =
    plan.requirements ++ (done.filter (TargetsPlan plan targets ·)).map (·.requirementId)
  unattached : A.unattached = done.filter (¬TargetsPlan plan targets ·)

section

variable {plan : GovernedWorkPlan} {targets : Dict String (List String)} {A : Attaching}
  {o : RuleObligation} {obligations done : List RuleObligation} {u : WorkUnitSpec}
  {unitId : String} {bound : List String}

/-- Before the loop. -/
theorem attached_nil (hids : (plan.units.map (·.unitId)).Nodup) : Attached plan targets []
    { requirementIds := plan.requirements
      units := .ofList (plan.units.map fun u => (u.unitId, u)) } where
  keys unitId := by
    rw [Dict.mem_keys_ofList_iff, List.map_map]
    rfl
  units u hu := by
    have hkeys : ((plan.units.map fun u => (u.unitId, u)).map Prod.fst).Nodup := by
      rw [List.map_map]
      exact hids
    rw [Dict.get?_eq_some_iff, Dict.entries_ofList hkeys]
    exact List.mem_map_of_mem hu
  requirementIds := (List.append_nil _).symm
  unattached := rfl

/-- Linking an obligation into units that are known. -/
theorem foldl_linkUnit (hbound : bound.Nodup) (hkeys : ∀ unitId ∈ bound, unitId ∈ A.units.keys) :
    (bound.foldl (linkUnit o) A).units.keys = A.units.keys ∧
    (bound.foldl (linkUnit o) A).requirementIds = A.requirementIds ∧
    (bound.foldl (linkUnit o) A).unattached = A.unattached ∧
    ∀ unitId, (bound.foldl (linkUnit o) A).units.get? unitId =
      if unitId ∈ bound then (A.units.get? unitId).map (linked o) else A.units.get? unitId := by
  induction bound generalizing A with
  | nil => exact ⟨rfl, rfl, rfl, fun unitId => (if_neg List.not_mem_nil).symm⟩
  | cons first bound ih =>
    obtain ⟨hfirst, hbound⟩ := List.nodup_cons.mp hbound
    obtain ⟨hkey, hkeys⟩ := List.forall_mem_cons.mp hkeys
    obtain ⟨unit, hunit⟩ := Dict.mem_keys_iff.mp hkey
    have hlink : linkUnit o A first =
        { A with
          units := A.units.set first (linked o unit)
          attached := A.attached ++ [(o.obligationId, first)] } := by
      rw [linkUnit, hunit]
      rfl
    have hsame : (A.units.set first (linked o unit)).keys = A.units.keys :=
      Dict.keys_set_of_mem hkey
    obtain ⟨hkeys', hreqs, hunattached, hget⟩ :=
      ih (A := linkUnit o A first) hbound (by rw [hlink]; exact hsame ▸ hkeys)
    rw [List.foldl_cons]
    refine ⟨hkeys'.trans (by rw [hlink]; exact hsame), hreqs.trans (by rw [hlink]),
      hunattached.trans (by rw [hlink]), fun unitId => ?_⟩
    rw [hget, hlink, Dict.get?_set]
    by_cases heq : unitId = first
    · subst heq
      simp [hfirst, hunit]
    · simp [heq]

/-- The units of a plan that an obligation targets. -/
theorem mem_targetedUnits_iff (hids : (plan.units.map (·.unitId)).Nodup) (hu : u ∈ plan.units) :
    u.unitId ∈ targetedUnits plan targets o ↔ Targets targets o u := by
  rw [targetedUnits, Targets]
  cases targets.get? o.obligationId with
  | some unitIds => rfl
  | none =>
    simp only [List.mem_map, List.mem_filter, decide_eq_true_eq]
    constructor
    · rintro ⟨v, ⟨hv, happlies⟩, hid⟩
      exact List.inj_on_of_nodup_map hids hv hu hid ▸ happlies
    · exact fun happlies => ⟨u, ⟨hu, happlies⟩, rfl⟩

/-- **One turn of the loop.** -/
theorem Attached.attachOne (hids : (plan.units.map (·.unitId)).Nodup)
    (h : Attached plan targets done A) :
    Attached plan targets (done ++ [o]) (attachOne plan targets A o) := by
  let bound := (targetedUnits plan targets o).eraseDups.filter (· ∈ A.units.keys)
  have hmem : ∀ u ∈ plan.units, u.unitId ∈ bound ↔ Targets targets o u := by
    intro u hu
    have hkey : u.unitId ∈ A.units.keys := (h.keys _).mpr (List.mem_map_of_mem hu)
    rw [← mem_targetedUnits_iff hids hu]
    simp [bound, hkey]
  have hnil : bound = [] ↔ ¬TargetsPlan plan targets o := by
    constructor
    · rintro hnil ⟨u, hu, htargets⟩
      have hbound := (hmem u hu).mpr htargets
      rw [hnil] at hbound
      cases hbound
    · intro hnone
      refine List.eq_nil_iff_forall_not_mem.mpr fun unitId hbound => ?_
      have hkey : unitId ∈ A.units.keys := of_decide_eq_true (List.mem_filter.mp hbound).2
      obtain ⟨u, hu, rfl⟩ := List.mem_map.mp ((h.keys _).mp hkey)
      exact hnone ⟨u, hu, (hmem u hu).mp hbound⟩
  have hunit : ∀ u ∈ plan.units, attachUnit targets (done ++ [o]) u =
      if Targets targets o u then linked o (attachUnit targets done u)
      else attachUnit targets done u := fun u _ => by
    rw [attachUnit_concat]
    simp only [targets_attachUnit]
  by_cases hplan : TargetsPlan plan targets o
  · have hbound : bound.Nodup := (nodup_eraseDups _).filter _
    obtain ⟨hkeys, hreqs, hunattached, hget⟩ := foldl_linkUnit (o := o)
      (A := { A with requirementIds := A.requirementIds ++ [o.requirementId] }) hbound
      fun unitId hmem => of_decide_eq_true (List.mem_filter.mp hmem).2
    have hturn : Memory.attachOne plan targets A o = bound.foldl (linkUnit o)
        { A with requirementIds := A.requirementIds ++ [o.requirementId] } :=
      if_neg fun hempty => hnil.mp hempty hplan
    rw [hturn]
    refine ⟨fun unitId => by rw [hkeys]; exact h.keys unitId, fun u hu => ?_, ?_, ?_⟩
    · rw [hget, hunit u hu]
      simp only [hmem u hu, h.units u hu]
      split <;> rfl
    · rw [hreqs, h.requirementIds, List.filter_append, List.map_append, List.append_assoc]
      simp [hplan]
    · rw [hunattached, h.unattached, List.filter_append]
      simp [hplan]
  · have hturn : Memory.attachOne plan targets A o = { A with unattached := A.unattached ++ [o] } :=
      if_pos (hnil.mpr hplan)
    rw [hturn]
    refine ⟨h.keys, fun u hu => ?_, ?_, ?_⟩
    · rw [hunit u hu, if_neg fun htargets => hplan ⟨u, hu, htargets⟩]
      exact h.units u hu
    · rw [h.requirementIds, List.filter_append]
      simp [hplan]
    · rw [h.unattached, List.filter_append]
      simp [hplan]

theorem Attached.foldl (hids : (plan.units.map (·.unitId)).Nodup)
    (h : Attached plan targets done A) :
    Attached plan targets (done ++ obligations)
      (obligations.foldl (Memory.attachOne plan targets) A) := by
  induction obligations generalizing done A with
  | nil => rwa [List.append_nil]
  | cons o obligations ih =>
    have hrest := ih (h.attachOne hids (o := o))
    rwa [List.append_assoc] at hrest

/-! ### The attachment -/

/-- **What an attachment is**: each unit with what targets it, and the requirements of what targets
a unit. -/
theorem attachObligations_eq (hids : (plan.units.map (·.unitId)).Nodup)
    (targets : Dict String (List String)) (obligations : List RuleObligation) :
    (attachObligations plan obligations targets).plan = { plan with
      requirements := Planning.sortedSet (plan.requirements ++
        (obligations.filter (TargetsPlan plan targets ·)).map (·.requirementId))
      units := plan.units.map (attachUnit targets obligations) } ∧
    (attachObligations plan obligations targets).unattached =
      obligations.filter (¬TargetsPlan plan targets ·) := by
  have hattached : Attached plan targets obligations
      (obligations.foldl (Memory.attachOne plan targets)
        { requirementIds := plan.requirements
          units := .ofList (plan.units.map fun u => (u.unitId, u)) }) :=
    (attached_nil hids).foldl hids
  rw [attachObligations, hattached.requirementIds]
  refine ⟨?_, hattached.unattached⟩
  rw [List.filterMap_congr fun u hu => hattached.units u hu, List.filterMap_eq_map']

/-- Only the members of a list matter to its sorted set. -/
theorem sortedSet_congr {l l' : List String} (h : ∀ r, r ∈ l ↔ r ∈ l') :
    Planning.sortedSet l = Planning.sortedSet l' := by
  refine Planning.sortedStrings_eq_iff.mpr ?_
  refine (List.perm_ext_iff_of_nodup (List.nodup_dedup l) (List.nodup_dedup l')).mpr fun r => ?_
  rw [List.mem_dedup, List.mem_dedup, h]

theorem mem_sortedSet {l : List String} {r : String} : r ∈ Planning.sortedSet l ↔ r ∈ l := by
  rw [Planning.sortedSet, Planning.mem_sortedStrings, List.mem_dedup]

/-- What a unit becomes: it gains the ids of the obligations that target it, and nothing else about
it changes. -/
structure Gains (targets : Dict String (List String)) (obligations : List RuleObligation)
    (u u' : WorkUnitSpec) : Prop where
  others : u' = { u with requirementIds := u'.requirementIds, acceptanceIds := u'.acceptanceIds }
  requirementIds : ∀ r, r ∈ u'.requirementIds ↔
    r ∈ u.requirementIds ∨ ∃ o ∈ obligations, Targets targets o u ∧ r = o.requirementId
  acceptanceIds : ∀ r, r ∈ u'.acceptanceIds ↔
    r ∈ u.acceptanceIds ∨ ∃ o ∈ obligations, Targets targets o u ∧ r = o.acceptanceId
  untouched : (∀ o ∈ obligations, ¬Targets targets o u) → u' = u

theorem gains_attachUnit : Gains targets obligations u (attachUnit targets obligations u) where
  others := by
    obtain ⟨reqs, accs, h⟩ := exists_attachUnit targets obligations u
    rw [h]
  requirementIds r := mem_attachUnit.1
  acceptanceIds r := mem_attachUnit.2
  untouched := attachUnit_eq_self

/-- An attached plan is targeted as the plan was. -/
theorem targetsPlan_attached {requirements : List String} :
    TargetsPlan { plan with requirements, units := plan.units.map (attachUnit targets obligations) }
      targets o ↔ TargetsPlan plan targets o := by
  constructor
  · rintro ⟨u', hu', htargets⟩
    obtain ⟨u, hu, rfl⟩ := List.mem_map.mp hu'
    exact ⟨u, hu, targets_attachUnit.mp htargets⟩
  · rintro ⟨u, hu, htargets⟩
    exact ⟨_, List.mem_map_of_mem hu, targets_attachUnit.mpr htargets⟩

/-- What is asked of an attachment: the units, in their order, gain the ids of what targets them;
the plan requires what targets one of its units, and the other obligations are returned unattached.
A second attachment changes nothing. -/
structure Attaches (plan : GovernedWorkPlan) (obligations : List RuleObligation)
    (targets : Dict String (List String)) (result : ObligationAttachment) : Prop where
  units : List.Forall₂ (Gains targets obligations) plan.units result.plan.units
  requirements : ∀ r, r ∈ result.plan.requirements ↔ r ∈ plan.requirements ∨
    ∃ o ∈ obligations, TargetsPlan plan targets o ∧ r = o.requirementId
  others : result.plan = { plan with
    requirements := result.plan.requirements, units := result.plan.units }
  unattached : result.unattached = obligations.filter (¬TargetsPlan plan targets ·)
  again : (attachObligations result.plan obligations targets).plan = result.plan

/-- **What an attachment makes of a plan** with different unit ids, whatever the obligations and
their explicit targets. -/
theorem attaches (plan : GovernedWorkPlan) (hids : (plan.units.map (·.unitId)).Nodup)
    (obligations : List RuleObligation) (targets : Dict String (List String)) :
    Attaches plan obligations targets (attachObligations plan obligations targets) := by
  obtain ⟨hplan, hunattached⟩ := attachObligations_eq hids targets obligations
  refine ⟨?_, fun r => ?_, by rw [hplan], hunattached, ?_⟩ <;> rw [hplan]
  · rw [List.forall₂_map_right_iff]
    exact List.forall₂_same.mpr fun u _ => gains_attachUnit
  · rw [mem_sortedSet, List.mem_append]
    simp only [List.mem_map, List.mem_filter, decide_eq_true_eq, and_assoc, @eq_comm _ r]
  · have hids' : ((plan.units.map (attachUnit targets obligations)).map (·.unitId)).Nodup := by
      rw [List.map_map]
      simpa only [Function.comp_def, attachUnit_unitId] using hids
    rw [(attachObligations_eq hids' targets obligations).1]
    simp only [targetsPlan_attached]
    refine congrArg₂ (fun requirements units => { plan with requirements, units })
      (sortedSet_congr fun r => ?_) ?_
    · rw [List.mem_append, mem_sortedSet, or_iff_left_iff_imp]
      exact fun hr => List.mem_append_right _ hr
    · rw [List.map_map]
      exact List.map_congr_left fun u _ => attachUnit_attachUnit

end

/-- A unit that writes one file. -/
def fileUnit (unitId path : String) : WorkUnitSpec where
  unitId := unitId
  requirementIds := ["q1"]
  acceptanceIds := ["a1"]
  writePaths := [path]
  testRecipe := some "pytest"
  testOracle := some "exit 0"
  costCap := some 1

/-- A plan of a source file and a document. -/
def filePlan : GovernedWorkPlan where
  planId := "p1"
  revision := 1
  requirements := ["q1"]
  units := [fileUnit "u1" "src/a.py", fileUnit "u2" "docs/a.md"]

/-- A rule for the source files. -/
def sourceRule : RuleObligation where
  obligationId := "o1"
  memoryId := "m1"
  revision := 1
  scopeId := "s"
  checkerId := "pytest"
  checkerDigest := "sha256:c"
  spec := { ruleId := "tests", checkerId := "pytest", selector := { writeGlobs := ["src/*"] },
            exceptions := [], summary := "" }
  requirementId := "RULE:m1:r1"
  acceptanceId := "RULE:m1:r1:pytest"
  provenance := ["src", "e"]

theorem attaches_sourceRule : Attaches filePlan [sourceRule] ∅
    (attachObligations filePlan [sourceRule] ∅) :=
  attaches filePlan (by decide) [sourceRule] ∅

end Memory

end CyranoAgent
