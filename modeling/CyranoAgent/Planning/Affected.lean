import CyranoAgent.Planning.Classification

/-!
# The units that a change affects

What a change affects is what the altered units feed, in the old plan or in the new one, over any
number of steps. The closure of `classifyChange` goes along the dependencies and the last producers
of the new plan only, from what the new plan adds or changes; `affectsAll_iff` says exactly when
that is enough.
-/

namespace CyranoAgent

open Lib Relation

namespace Planning

section

variable {oldPlan newPlan : GovernedWorkPlan} {alternatives : List String} {unclassifiable : Bool}
  {x y : String}

/-- The ids of the units that a change adds, changes or removes: one of the plans has a unit of the
id that the other does not have. -/
def Altered (oldPlan newPlan : GovernedWorkPlan) : Set String :=
  {uid | ∃ u, u.unitId = uid ∧
    (u ∈ oldPlan.units ∧ u ∉ newPlan.units ∨ u ∈ newPlan.units ∧ u ∉ oldPlan.units)}

/-- One unit feeds another in one of the plans. -/
def FeedsEither (oldPlan newPlan : GovernedWorkPlan) (x y : String) : Prop :=
  Feeds oldPlan x y ∨ Feeds newPlan x y

/-- The affected set holds every unit that depends on an altered one, or consumes what it produces,
over any number of steps. -/
def AffectsAll (oldPlan newPlan : GovernedWorkPlan) (alternatives : List String)
    (unclassifiable : Bool) : Prop :=
  ∀ uid ∈ Altered oldPlan newPlan, ∀ x, TransGen (FeedsEither oldPlan newPlan) uid x →
    x ∈ (classifyChange oldPlan newPlan alternatives unclassifiable).affectedUnits

/-- What the altered units lead to, themselves included. -/
def Disturbed (oldPlan newPlan : GovernedWorkPlan) : Set String :=
  reachable (FeedsEither oldPlan newPlan) (Altered oldPlan newPlan)

/-- What the traversal of `_reverse_closure` reaches. -/
def Traversed (oldPlan newPlan : GovernedWorkPlan) : Set String :=
  reachable (Follows newPlan.unitsById isNamed)
    {uid | uid ∈ seedsOf oldPlan.unitsById newPlan.unitsById (pathsAdded oldPlan newPlan)}

/-- The traversal goes on from one unit to another. -/
def GoesOn (oldPlan newPlan : GovernedWorkPlan) (x y : String) : Prop :=
  x ∈ Traversed oldPlan newPlan ∧ Follows newPlan.unitsById isNamed x y

/-- Nothing is fed by an altered unit. -/
def FeedsNothing (oldPlan newPlan : GovernedWorkPlan) : Prop :=
  ∀ x ∈ Altered oldPlan newPlan, ∀ y, ¬ FeedsEither oldPlan newPlan x y

/-- The affected units of each kind of change. -/
theorem affectedUnits_classifyChange :
    (classifyChange oldPlan newPlan alternatives unclassifiable).affectedUnits =
      if unclassifiable then sortedStrings newPlan.unitsById.keys
      else if presentationOnlyChange (planProjection oldPlan) (planProjection newPlan) ∨
          delegatedOnly oldPlan newPlan alternatives then []
      else reverseClosure oldPlan.unitsById newPlan.unitsById (pathsAdded oldPlan newPlan) := by
  unfold classifyChange
  split_ifs <;> simp_all

/-- A list that holds nothing holds all that is fed when nothing is. -/
theorem forall_transGen_iff_feedsNothing :
    (∀ uid ∈ Altered oldPlan newPlan, ∀ x, ¬ TransGen (FeedsEither oldPlan newPlan) uid x) ↔
      FeedsNothing oldPlan newPlan := by
  constructor
  · intro h x hx y hxy
    exact h x hx y (.single hxy)
  · intro h x hx y hxy
    obtain ⟨z, hstep, -⟩ := TransGen.head'_iff.1 hxy
    exact h x hx z hstep

/-- All that is fed is in the new plan when what the old plan alone feeds is. -/
theorem forall_transGen_mem_ids_iff :
    (∀ uid ∈ Altered oldPlan newPlan, ∀ x, TransGen (FeedsEither oldPlan newPlan) uid x →
        x ∈ newPlan.ids) ↔
      ∀ x ∈ Disturbed oldPlan newPlan, ∀ y, Feeds oldPlan x y → y ∈ newPlan.ids := by
  constructor
  · rintro h x ⟨uid, huid, hreach⟩ y hxy
    exact h uid huid y (.tail' hreach (.inl hxy))
  · intro h uid huid y hy
    obtain ⟨x, hreach, hxy⟩ := TransGen.tail'_iff.1 hy
    rcases hxy with hold | hnew
    · exact h x ⟨uid, huid, hreach⟩ y hold
    · exact hnew.mem_ids

/-- **What is affected is complete** in an unclassified change when no unit that is gone was fed by
a disturbed one; in a change that passes without a review when nothing is fed by an altered unit;
and in a change of meaning when each edge from a disturbed unit along which the traversal does not
go on ends in a unit that it reaches otherwise. -/
theorem affectsAll_iff :
    AffectsAll oldPlan newPlan alternatives unclassifiable ↔
      if unclassifiable then
        ∀ x ∈ Disturbed oldPlan newPlan, ∀ y, Feeds oldPlan x y → y ∈ newPlan.ids
      else if presentationOnlyChange (planProjection oldPlan) (planProjection newPlan) ∨
          delegatedOnly oldPlan newPlan alternatives then
        FeedsNothing oldPlan newPlan
      else
        ∀ x y, x ∈ Disturbed oldPlan newPlan → FeedsEither oldPlan newPlan x y →
          ¬ GoesOn oldPlan newPlan x y → y ∈ Traversed oldPlan newPlan := by
  rw [AffectsAll, affectedUnits_classifyChange]
  split_ifs
  · simpa [mem_sortedStrings, mem_keys_unitsById] using forall_transGen_mem_ids_iff
  · simpa using forall_transGen_iff_feedsNothing
  · simp only [reverseClosure, mem_traverse_iff]
    exact forall_transGen_mem_iff

end

/-- A unit `B` that depends on `A`, beside other units. -/
def dependsOnFirst (others : List WorkUnitSpec) : GovernedWorkPlan where
  planId := "p"
  revision := 0
  requirements := ["R1"]
  units := others ++
    [{ unitId := "B", requirementIds := ["R1"], acceptanceIds := [], dependencies := ["A"] }]

/-- **A unit that is removed** affects none of those that depend on it. -/
theorem not_affectsAll : ¬ ∀ oldPlan newPlan alternatives unclassifiable,
    AffectsAll oldPlan newPlan alternatives unclassifiable := by
  intro h
  let first : WorkUnitSpec := { unitId := "A", requirementIds := ["R1"], acceptanceIds := [] }
  have hmem := h (dependsOnFirst [first]) (dependsOnFirst []) [] false "A"
    ⟨first, rfl, .inl ⟨List.mem_cons_self, by decide⟩⟩ "B" (.single (.inl ⟨_,
      List.mem_cons_of_mem _ List.mem_cons_self, rfl, .inl List.mem_cons_self⟩))
  rw [affectedUnits_classifyChange, if_neg Bool.false_ne_true] at hmem
  split at hmem
  next => exact absurd hmem List.not_mem_nil
  next =>
    obtain ⟨uid, hseed, -⟩ := mem_traverse_iff.1 hmem
    have hnone (paths : List String) : seedsOf (dependsOnFirst [first]).unitsById
        (dependsOnFirst []).unitsById paths = [] := rfl
    rw [hnone] at hseed
    exact absurd hseed List.not_mem_nil

end Planning

end CyranoAgent
