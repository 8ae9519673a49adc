import CyranoAgent.Lib.Outcome
import CyranoAgent.Planning.Classification

/-!
# Changes without a new review

A change that needs no new review leaves the two plans in agreement, up to the order of lists and to
swaps of authorised recipes, except in two places: the projection of a unit does not show what the
unit reads, and a delegated choice looks up each new unit by its id, however often the id occurs
(`unreviewed_iff`).
-/

namespace CyranoAgent

open Lib

namespace Planning

/-! ### Agreement -/

/-- A unit with its lists sorted, but for its recipe. -/
def WorkUnitSpec.sorted (u : WorkUnitSpec) : WorkUnitSpec where
  unitId := u.unitId
  requirementIds := sortedStrings u.requirementIds
  acceptanceIds := sortedStrings u.acceptanceIds
  dependencies := sortedStrings u.dependencies
  writePaths := sortedStrings u.writePaths
  readRefs := sortedStrings u.readRefs
  consumes := sortedStrings u.consumes
  produces := sortedStrings u.produces
  exclusiveResources := sortedStrings u.exclusiveResources
  testRecipe := none
  testOracle := u.testOracle
  costCap := u.costCap
  effects := sortedStrings u.effects
  recovery := u.recovery
  owner := u.owner

/-- A plan with its lists sorted, but for its units and its revision. -/
def GovernedWorkPlan.sorted (plan : GovernedWorkPlan) : GovernedWorkPlan where
  planId := plan.planId
  revision := 0
  requirements := sortedStrings plan.requirements
  units := []
  deliveryMode := plan.deliveryMode
  budgetCap := plan.budgetCap
  externalEffects := sortedStrings plan.externalEffects
  rollback := plan.rollback

/-- What the projection of a unit shows: all but what the unit reads. -/
def WorkUnitSpec.shown (u : WorkUnitSpec) : WorkUnitSpec :=
  { u.sorted with readRefs := [], testRecipe := u.testRecipe }

/-- The units of a plan in the order of their ids. -/
def GovernedWorkPlan.inOrder (plan : GovernedWorkPlan) : List WorkUnitSpec :=
  plan.units.mergeSort fun u v => u.unitId ≤ v.unitId

/-! ### What projections show -/

section

variable {u v : WorkUnitSpec} {oldPlan newPlan plan : GovernedWorkPlan}

/-- The order of texts matters. -/
example : (strings ["a", "b"]).eq (strings ["b", "a"]) = false := by
  simp [strings, PyValue.eq, PyValue.eqItems]

theorem eq_strings {items items' : List String} :
    (strings items).eq (strings items') = true ↔ items = items' := by
  rw [strings, strings, PyValue.eq]
  induction items generalizing items' with
  | nil => cases items' <;> simp [PyValue.eqItems]
  | cons item items ih =>
    cases items' with
    | nil => simp [PyValue.eqItems]
    | cons item' items' => simp [PyValue.eqItems, PyValue.eq, ih]

theorem eq_optionalText {text text' : Option String} :
    (optionalText text).eq (optionalText text') = true ↔ text = text' := by
  cases text <;> cases text' <;> simp [optionalText, PyValue.eq]

theorem eq_optionalInt {number number' : Option ℤ} :
    (optionalInt number).eq (optionalInt number') = true ↔ number = number' := by
  cases number <;> cases number' <;> simp [optionalInt, PyValue.eq]

theorem eq_unitProjection :
    (unitProjection u).eq (unitProjection v) = true ↔ u.shown = v.shown := by
  simp [unitProjection, PyValue.eq, PyValue.eqEntries, PyMapping.get?, eq_strings, eq_optionalText,
    eq_optionalInt, WorkUnitSpec.shown, WorkUnitSpec.sorted]

theorem eq_unitProjections {units units' : List WorkUnitSpec} :
    PyValue.eqItems (units.map unitProjection) (units'.map unitProjection) = true ↔
      units.map (·.shown) = units'.map (·.shown) := by
  induction units generalizing units' with
  | nil => cases units' <;> simp [PyValue.eqItems]
  | cons u units ih =>
    cases units' with
    | nil => simp [PyValue.eqItems]
    | cons v units' => simp [PyValue.eqItems, eq_unitProjection, ih]

theorem eq_planProjection :
    (planProjection oldPlan).eq (planProjection newPlan) = true ↔
      oldPlan.revision = newPlan.revision ∧ oldPlan.sorted = newPlan.sorted ∧
        oldPlan.inOrder.map (·.shown) = newPlan.inOrder.map (·.shown) := by
  simp [planProjection, PyValue.eq, PyValue.eqEntries, PyMapping.get?, eq_strings, eq_optionalText,
    eq_optionalInt, GovernedWorkPlan.sorted, GovernedWorkPlan.inOrder, eq_unitProjections]
  tauto

/-- A projection has no key of presentation. -/
theorem stripPresentation_planProjection :
    stripPresentation (planProjection plan) = planProjection plan := by
  have hstrings (items : List String) : stripPresentation (strings items) = strings items := by
    rw [strings, stripPresentation]
    induction items with
    | nil => rfl
    | cons item items ih => simpa [stripItems, stripPresentation] using ih
  have htext (text : Option String) :
      stripPresentation (optionalText text) = optionalText text := by
    cases text <;> rw [optionalText, stripPresentation] <;> simp
  have hint (number : Option ℤ) : stripPresentation (optionalInt number) = optionalInt number := by
    cases number <;> rw [optionalInt, stripPresentation] <;> simp
  have hunit (u : WorkUnitSpec) : stripPresentation (unitProjection u) = unitProjection u := by
    simp [unitProjection, stripPresentation, stripEntries, presentationKeys, hstrings, htext, hint]
  have hunits (units : List WorkUnitSpec) :
      stripItems (units.map unitProjection) = units.map unitProjection := by
    induction units with
    | nil => rfl
    | cons u units ih => rw [List.map_cons, stripItems, hunit, ih]
  simp [planProjection, stripPresentation, stripEntries, presentationKeys, hstrings, htext, hint,
    hunits]

/-- **A change of presentation only** is one that shows in no projection. -/
theorem presentationOnlyChange_iff :
    presentationOnlyChange (planProjection oldPlan) (planProjection newPlan) = true ↔
      oldPlan.revision = newPlan.revision ∧ oldPlan.sorted = newPlan.sorted ∧
        oldPlan.inOrder.map (·.shown) = newPlan.inOrder.map (·.shown) := by
  rw [presentationOnlyChange, stripPresentation_planProjection, stripPresentation_planProjection,
    eq_planProjection]

end

/-! ### Plans that agree -/

section

variable (alternatives : List String)

/-- One recipe is the other, or an authorised alternative for it. -/
def RecipesAgree (recipe recipe' : Option String) : Prop :=
  recipe = recipe' ∨ recipe.getD "" ∈ alternatives ∧ recipe'.getD "" ∈ alternatives

/-- Two units agree in every field, up to the order of lists and an authorised swap of recipes. -/
structure UnitsAgree (u v : WorkUnitSpec) : Prop where
  fields : u.sorted = v.sorted
  recipe : RecipesAgree alternatives u.testRecipe v.testRecipe

/-- Two plans agree in every field but the revision, and their units can be paired so that each two
agree. -/
structure PlansAgree (oldPlan newPlan : GovernedWorkPlan) : Prop where
  fields : oldPlan.sorted = newPlan.sorted
  units : ∃ units, units.Perm oldPlan.units ∧
    List.Forall₂ (UnitsAgree alternatives) units newPlan.units

/-- A recipe, or nothing for an authorised alternative. -/
def recipeClass (recipe : Option String) : Option (Option String) :=
  if recipe.getD "" ∈ alternatives then none else some recipe

/-- What two units that agree have in common, but for what they read. -/
def WorkUnitSpec.meaning (u : WorkUnitSpec) : WorkUnitSpec × Option (Option String) :=
  ({ u.sorted with readRefs := [] }, recipeClass alternatives u.testRecipe)

variable {alternatives} {u v w : WorkUnitSpec} {oldPlan newPlan : GovernedWorkPlan}

theorem recipesAgree_iff {recipe recipe' : Option String} :
    RecipesAgree alternatives recipe recipe' ↔
      recipeClass alternatives recipe = recipeClass alternatives recipe' := by
  unfold RecipesAgree recipeClass
  split_ifs with h h' h'
  · simp [h, h']
  · simpa [h'] using fun heq : recipe = recipe' => h' (heq ▸ h)
  · simpa [h] using fun heq : recipe = recipe' => h (heq ▸ h')
  · simp [h]

/-- **Units agree** when they have their meaning in common and read the same. -/
theorem unitsAgree_iff :
    UnitsAgree alternatives u v ↔ (u.meaning alternatives, sortedStrings u.readRefs) =
      (v.meaning alternatives, sortedStrings v.readRefs) := by
  have hsplit : UnitsAgree alternatives u v ↔
      u.sorted = v.sorted ∧ RecipesAgree alternatives u.testRecipe v.testRecipe :=
    ⟨fun h => ⟨h.fields, h.recipe⟩, fun h => ⟨h.1, h.2⟩⟩
  rw [hsplit, recipesAgree_iff]
  simp [WorkUnitSpec.meaning, WorkUnitSpec.sorted]
  tauto

theorem UnitsAgree.symm (h : UnitsAgree alternatives u v) : UnitsAgree alternatives v u :=
  unitsAgree_iff.2 (unitsAgree_iff.1 h).symm

theorem UnitsAgree.trans (h : UnitsAgree alternatives u v) (h' : UnitsAgree alternatives v w) :
    UnitsAgree alternatives u w :=
  unitsAgree_iff.2 ((unitsAgree_iff.1 h).trans (unitsAgree_iff.1 h'))

theorem UnitsAgree.unitId (h : UnitsAgree alternatives u v) : u.unitId = v.unitId :=
  show u.sorted.unitId = v.sorted.unitId from congrArg _ h.fields

/-- Lists can be paired by equal values when their values are the same, up to order. -/
theorem exists_perm_forall₂_iff {α β : Type} {f : α → β} {items items' : List α} :
    (∃ paired, paired.Perm items ∧ List.Forall₂ (fun a b => f a = f b) paired items') ↔
      (items.map f).Perm (items'.map f) := by
  constructor
  · rintro ⟨paired, hperm, hpairs⟩
    have hmap : paired.map f = items'.map f := by
      rwa [← List.forall₂_eq_eq_eq, List.forall₂_map_left_iff, List.forall₂_map_right_iff]
    exact hmap ▸ (hperm.map f).symm
  · intro hperm
    have hvalues : List.Forall₂ (fun b a => b = f a) (items.map f) items := by
      rw [List.forall₂_map_left_iff]
      exact List.forall₂_same.2 fun _ _ => rfl
    obtain ⟨paired, hpaired, hitems⟩ := List.perm_comp_forall₂ hperm.symm hvalues
    refine ⟨paired, hitems, ?_⟩
    rw [List.forall₂_map_left_iff] at hpaired
    exact hpaired.flip.imp fun _ _ h => h.symm

/-- The units of two plans can be paired. -/
theorem exists_pairing_iff :
    (∃ units, units.Perm oldPlan.units ∧
        List.Forall₂ (UnitsAgree alternatives) units newPlan.units) ↔
      (oldPlan.units.map fun u => (u.meaning alternatives, sortedStrings u.readRefs)).Perm
        (newPlan.units.map fun u => (u.meaning alternatives, sortedStrings u.readRefs)) := by
  have hagree : UnitsAgree alternatives = fun u v =>
      (u.meaning alternatives, sortedStrings u.readRefs) =
        (v.meaning alternatives, sortedStrings v.readRefs) := by
    funext u v
    exact propext unitsAgree_iff
  rw [← exists_perm_forall₂_iff, hagree]

theorem plansAgree_iff :
    PlansAgree alternatives oldPlan newPlan ↔ oldPlan.sorted = newPlan.sorted ∧
      (oldPlan.units.map fun u => (u.meaning alternatives, sortedStrings u.readRefs)).Perm
        (newPlan.units.map fun u => (u.meaning alternatives, sortedStrings u.readRefs)) := by
  rw [← exists_pairing_iff]
  exact ⟨fun h => ⟨h.fields, h.units⟩, fun h => ⟨h.1, h.2⟩⟩

/-! ### Changes that pass without a review -/

/-- What the units of a plan read that have the meaning of this one. -/
def readsOf (alternatives : List String) (plan : GovernedWorkPlan) (u : WorkUnitSpec) :
    List (List String) :=
  (plan.units.filter fun v => v.meaning alternatives = u.meaning alternatives).map fun v =>
    sortedStrings v.readRefs

/-- The units of the new plan read what those of the same meaning read in the old one. -/
def ReadsKept (alternatives : List String) (oldPlan newPlan : GovernedWorkPlan) : Prop :=
  ∀ u ∈ oldPlan.units,
    (readsOf alternatives oldPlan u).Perm (readsOf alternatives newPlan u)

/-- The new plan has the ids of the old one, and units of one id agree in the old plan. -/
structure IdsKept (alternatives : List String) (oldPlan newPlan : GovernedWorkPlan) : Prop where
  ids : oldPlan.ids.Perm newPlan.ids
  same : ∀ u ∈ oldPlan.units, ∀ v ∈ oldPlan.units, u.unitId = v.unitId →
    UnitsAgree alternatives u v

/-- Pairs are the same up to order when they are so under each first component. -/
theorem perm_map_pair_iff {α κ β : Type} [DecidableEq κ] [DecidableEq β] {f : α → κ} {g : α → β}
    {items items' : List α} :
    (items.map fun a => (f a, g a)).Perm (items'.map fun a => (f a, g a)) ↔
      ∀ key, ((items.filter fun a => f a = key).map g).Perm
        ((items'.filter fun a => f a = key).map g) := by
  have hcount (items : List α) (key : κ) (b : β) :
      (items.map fun a => (f a, g a)).count (key, b) =
        ((items.filter fun a => f a = key).map g).count b := by
    simp only [List.count, List.countP_map, List.countP_filter]
    refine List.countP_congr fun a _ => ?_
    simp [Prod.ext_iff, and_comm]
  simp only [List.perm_iff_count, ← hcount, Prod.forall]

/-- **What a change of presentation changes** beside presentation is what the units read. -/
theorem plansAgree_iff_readsKept
    (h : presentationOnlyChange (planProjection oldPlan) (planProjection newPlan) = true) :
    PlansAgree alternatives oldPlan newPlan ↔ ReadsKept alternatives oldPlan newPlan := by
  obtain ⟨-, hfields, hshown⟩ := presentationOnlyChange_iff.1 h
  have hmeaning : (oldPlan.units.map (·.meaning alternatives)).Perm
      (newPlan.units.map (·.meaning alternatives)) := by
    have hinOrder (plan : GovernedWorkPlan) : plan.inOrder.Perm plan.units :=
      List.mergeSort_perm _ _
    have hfactor := congrArg (List.map fun u : WorkUnitSpec =>
      ({ u with testRecipe := none }, recipeClass alternatives u.testRecipe)) hshown
    rw [List.map_map, List.map_map] at hfactor
    refine ((hinOrder oldPlan).map _).symm.trans (.trans (.of_eq ?_) ((hinOrder newPlan).map _))
    exact hfactor
  rw [plansAgree_iff, and_iff_right hfields, perm_map_pair_iff]
  constructor
  · intro hall u _
    exact hall (u.meaning alternatives)
  · intro hkept key
    by_cases hkey : key ∈ oldPlan.units.map (·.meaning alternatives)
    · obtain ⟨u, hu, rfl⟩ := List.mem_map.1 hkey
      exact hkept u hu
    · have hnone {plan : GovernedWorkPlan} (hmem : key ∉ plan.units.map (·.meaning alternatives)) :
          (plan.units.filter fun u => u.meaning alternatives = key) = [] := by
        refine List.filter_eq_nil_iff.2 fun u hu heq => hmem ?_
        exact List.mem_map.2 ⟨u, hu, of_decide_eq_true heq⟩
      rw [hnone hkey, hnone fun hmem => hkey (hmeaning.mem_iff.2 hmem)]

theorem unitsAgree_of_delegatedUnit (h : delegatedUnit alternatives u v = true) :
    UnitsAgree alternatives u v := by
  unfold delegatedUnit at h
  split at h
  next heq =>
    subst heq
    exact ⟨rfl, .inl rfl⟩
  next =>
    simp only [Bool.and_eq_true, decide_eq_true_eq] at h
    obtain ⟨⟨hunit, hnew⟩, hold⟩ := h
    exact ⟨by rw [← hunit]; rfl, .inr ⟨hold, hnew⟩⟩

/-- **What a delegated choice keeps**: the plan, and of each unit what its id names in the old
plan. -/
theorem of_delegatedOnly (h : delegatedOnly oldPlan newPlan alternatives = true) :
    oldPlan.sorted = newPlan.sorted ∧ ∀ unit ∈ newPlan.units, ∃ prev,
      oldPlan.unitsById.get? unit.unitId = some prev ∧ UnitsAgree alternatives prev unit := by
  simp only [delegatedOnly, Bool.and_eq_true, decide_eq_true_eq, List.all_eq_true,
    Option.any_eq_true] at h
  obtain ⟨⟨hbase, -⟩, hunits⟩ := h
  refine ⟨?_, fun unit hunit => ?_⟩
  · have hsorted := congrArg GovernedWorkPlan.sorted hbase
    exact hsorted
  · obtain ⟨prev, hprev, hdelegated⟩ := hunits unit hunit
    exact ⟨prev, hprev, unitsAgree_of_delegatedUnit hdelegated⟩

/-- **What a delegated choice changes** beside recipes is how often an id occurs. -/
theorem plansAgree_iff_idsKept (h : delegatedOnly oldPlan newPlan alternatives = true) :
    PlansAgree alternatives oldPlan newPlan ↔ IdsKept alternatives oldPlan newPlan := by
  obtain ⟨hfields, hprev⟩ := of_delegatedOnly h
  constructor
  · rintro ⟨-, units, hperm, hpairs⟩
    have hids : units.map (·.unitId) = newPlan.ids := by
      rw [GovernedWorkPlan.ids, ← List.forall₂_eq_eq_eq, List.forall₂_map_left_iff,
        List.forall₂_map_right_iff]
      exact hpairs.imp fun _ _ hagree => hagree.unitId
    have hnamed : ∀ u ∈ oldPlan.units, ∃ prev,
        oldPlan.unitsById.get? u.unitId = some prev ∧ UnitsAgree alternatives prev u := by
      intro u hu
      obtain ⟨v, hv, hagree⟩ := exists_of_mem_left hpairs (hperm.mem_iff.2 hu)
      obtain ⟨prev, hlookup, hsame⟩ := hprev v hv
      exact ⟨prev, hagree.unitId ▸ hlookup, hsame.trans hagree.symm⟩
    refine ⟨hids ▸ (hperm.map _).symm, fun u hu v hv heq => ?_⟩
    obtain ⟨prev, hlookup, hagree⟩ := hnamed u hu
    obtain ⟨prev', hlookup', hagree'⟩ := hnamed v hv
    rw [← heq, hlookup] at hlookup'
    cases hlookup'
    exact hagree.symm.trans hagree'
  · intro hkept
    -- Both lists of units are, up to agreement, what the ids name in the old plan.
    let named (uid : String) := (oldPlan.unitsById.get? uid).map fun u =>
      (u.meaning alternatives, sortedStrings u.readRefs)
    have hmap {units : List WorkUnitSpec} (hunits : ∀ u ∈ units, ∃ prev,
        oldPlan.unitsById.get? u.unitId = some prev ∧ UnitsAgree alternatives prev u) :
        (units.map fun u => (u.meaning alternatives, sortedStrings u.readRefs)).map some =
          (units.map (·.unitId)).map named := by
      rw [List.map_map, List.map_map]
      refine List.map_congr_left fun u hu => ?_
      obtain ⟨prev, hlookup, hagree⟩ := hunits u hu
      simp only [Function.comp_apply, named, hlookup, Option.map_some]
      rw [unitsAgree_iff.1 hagree]
    rw [plansAgree_iff, and_iff_right hfields, ← List.map_perm_map_iff (Option.some_injective _),
      hmap hprev, hmap fun u hu => ?_]
    · exact hkept.ids.map named
    · have hmem : u.unitId ∈ oldPlan.unitsById.keys :=
        mem_keys_unitsById.2 (List.mem_map_of_mem hu)
      obtain ⟨prev, hlookup⟩ := Dict.mem_keys_iff.1 hmem
      obtain ⟨hprevmem, hid⟩ := mem_of_unitsById hlookup
      exact ⟨prev, hlookup, hkept.same prev hprevmem u hu hid⟩

/-- **A change that needs no new review** keeps the plan exactly when what the units read is kept,
where the change is one of presentation, and the ids are kept, where it is a delegated choice. -/
theorem unreviewed_iff {unclassifiable : Bool} :
    ((classifyChange oldPlan newPlan alternatives unclassifiable).requiresNewReview = false →
        PlansAgree alternatives oldPlan newPlan) ↔
      (unclassifiable = false →
        (presentationOnlyChange (planProjection oldPlan) (planProjection newPlan) = true →
          ReadsKept alternatives oldPlan newPlan) ∧
        (presentationOnlyChange (planProjection oldPlan) (planProjection newPlan) = false →
          delegatedOnly oldPlan newPlan alternatives = true →
            IdsKept alternatives oldPlan newPlan)) := by
  unfold classifyChange
  cases unclassifiable with
  | true => simp
  | false =>
    cases hpresentation :
        presentationOnlyChange (planProjection oldPlan) (planProjection newPlan) with
    | true => simp [plansAgree_iff_readsKept hpresentation]
    | false =>
      cases hdelegated : delegatedOnly oldPlan newPlan alternatives with
      | true => simp [plansAgree_iff_idsKept hdelegated]
      | false => simp

end

/-- A plan of one unit that reads some files. -/
def readerOf (readRefs : List String) : GovernedWorkPlan where
  planId := "p"
  revision := 0
  requirements := ["R1"]
  units := [{ unitId := "A", requirementIds := ["R1"], acceptanceIds := [], readRefs }]

/-- **A unit that reads another file** changes nothing that its projection shows. -/
theorem not_unreviewed : ¬ ∀ oldPlan newPlan alternatives unclassifiable,
    (classifyChange oldPlan newPlan alternatives unclassifiable).requiresNewReview = false →
      PlansAgree alternatives oldPlan newPlan := by
  intro h
  have hshown : presentationOnlyChange (planProjection (readerOf []))
      (planProjection (readerOf ["secrets.env"])) = true := by
    refine presentationOnlyChange_iff.2 ⟨rfl, rfl, ?_⟩
    rw [GovernedWorkPlan.inOrder, GovernedWorkPlan.inOrder, readerOf, readerOf,
      List.mergeSort_singleton, List.mergeSort_singleton]
    rfl
  have hagree := h (readerOf []) (readerOf ["secrets.env"]) [] false (by
    rw [classifyChange, if_neg Bool.false_ne_true, if_pos hshown])
  obtain ⟨units, hperm, hpairs⟩ := hagree.units
  rw [readerOf, List.perm_singleton] at hperm
  rw [hperm, readerOf, List.forall₂_cons] at hpairs
  have hreads := congrArg WorkUnitSpec.readRefs hpairs.1.fields
  exact absurd (sortedStrings_eq_iff.1 hreads) (by decide)


end Planning

end CyranoAgent
