import CyranoAgent.Lib.Closure
import CyranoAgent.Lib.Dict
import CyranoAgent.Planning.Subject

/-!
# The impact of a change

`computeImpact` is the reverse closure of the changed units of a plan: from a unit it goes on to
those that depend on it and to those that consume what it produces. The traversal keeps one producer
of an artifact, the last one, and one unit of an id, and goes on from nothing else; so what it finds
is the least closed set exactly when every edge that it overlooks ends in a unit that it finds
otherwise (`computesImpact_iff`).
-/

namespace CyranoAgent

open Lib Relation

namespace Planning

/-! ### The graph that is traversed -/

/-- `{u.unit_id: u for u in plan.units}`. -/
def GovernedWorkPlan.unitsById (plan : GovernedWorkPlan) : Dict String WorkUnitSpec :=
  .ofList (plan.units.map fun u => (u.unitId, u))

section

variable (units : Dict String WorkUnitSpec)

/-- The producer of each artifact; where there are several, the last. -/
def producersOf : Dict String String :=
  .ofList (units.entries.flatMap fun entry => entry.2.produces.map fun name => (name, entry.1))

/-- The edges from a unit to those that depend on it. -/
def dependencyEdges : List (String × String) :=
  units.entries.flatMap fun entry => entry.2.dependencies.map fun dep => (dep, entry.1)

/-- The edges from the producer of an artifact to those that consume it; `counts` says which owner
of an artifact is taken for which unit. -/
def artifactEdges (counts : String → String → Bool) : List (String × String) :=
  units.entries.flatMap fun entry => entry.2.consumes.filterMap fun name =>
    (((producersOf units).get? name).filter fun owner => counts owner entry.1).map fun owner =>
      (owner, entry.1)

/-- `dependents.setdefault(source, set()).add(target)`. -/
def addDependent (dependents : Dict String (List String)) (edge : String × String) :
    Dict String (List String) :=
  dependents.set edge.1 (((dependents.get? edge.1).getD []).insert edge.2)

/-- The `dependents` of the source, after both loops. -/
def dependentsOf (counts : String → String → Bool) : Dict String (List String) :=
  (dependencyEdges units ++ artifactEdges units counts).foldl addDependent ∅

end

/-- A mapping of places to places as a graph. -/
def impactGraph (dependents : Dict String (List String)) : FiniteGraph String where
  next x := (dependents.get? x).getD []
  places := dependents.values.flatten
  next_subset x y hy := by
    cases htargets : dependents.get? x with
    | none => simp [htargets] at hy
    | some targets =>
      rw [htargets, Option.getD_some] at hy
      exact List.mem_flatten.2 ⟨targets, Dict.mem_values_iff.2 ⟨x, htargets⟩, hy⟩

/-- `sorted(affected)`, where `affected` is what the traversal finds from the seeds. -/
def traverse (dependents : Dict String (List String)) (seeds : List String) : List String :=
  sortedStrings ((impactGraph dependents).saturate seeds.dedup seeds.dedup)

/-- The owners that `compute_impact` takes: every one but the unit itself. -/
def isOther (owner uid : String) : Bool := owner ≠ uid

/-- `compute_impact`. -/
def computeImpact (plan : GovernedWorkPlan) (changedUnitIds : List String) : List String :=
  if ∃ uid ∈ changedUnitIds, uid ∉ plan.unitsById.keys then
    sortedStrings plan.unitsById.keys
  else traverse (dependentsOf plan.unitsById isOther) changedUnitIds

/-! ### What the traversal follows -/

section

variable {units : Dict String WorkUnitSpec} {counts : String → String → Bool} {x y : String}

/-- The traversal goes on from one unit to another: the other depends on it, or consumes an artifact
of which it is the last producer. -/
def Follows (units : Dict String WorkUnitSpec) (counts : String → String → Bool)
    (x y : String) : Prop :=
  ∃ unit, units.get? y = some unit ∧ (x ∈ unit.dependencies ∨
    ∃ name ∈ unit.consumes, (producersOf units).get? name = some x ∧ counts x y = true)

theorem mem_addDependent {dependents : Dict String (List String)} {edge : String × String} :
    y ∈ ((addDependent dependents edge).get? x).getD [] ↔
      (x, y) = edge ∨ y ∈ (dependents.get? x).getD [] := by
  obtain ⟨source, target⟩ := edge
  rw [addDependent, Dict.get?_set]
  by_cases hsource : x = source
  · simp [hsource, List.mem_insert_iff]
  · simp [hsource]

theorem mem_foldl_addDependent {edges : List (String × String)}
    {dependents : Dict String (List String)} :
    y ∈ ((edges.foldl addDependent dependents).get? x).getD [] ↔
      (x, y) ∈ edges ∨ y ∈ (dependents.get? x).getD [] := by
  induction edges generalizing dependents with
  | nil => simp
  | cons edge edges ih =>
    rw [List.foldl_cons, ih, mem_addDependent, List.mem_cons, or_left_comm, or_assoc]

/-- **The edges of the traversal.** -/
theorem leads_iff :
    (impactGraph (dependentsOf units counts)).Leads x y ↔ Follows units counts x y := by
  have hdep : (x, y) ∈ dependencyEdges units ↔
      ∃ unit, units.get? y = some unit ∧ x ∈ unit.dependencies := by
    simp [dependencyEdges, Dict.get?_eq_some_iff]
  have hartifact : (x, y) ∈ artifactEdges units counts ↔
      ∃ unit, units.get? y = some unit ∧
        ∃ name ∈ unit.consumes, (producersOf units).get? name = some x ∧ counts x y = true := by
    simp [artifactEdges, Dict.get?_eq_some_iff, Option.filter_eq_some_iff]
  rw [FiniteGraph.Leads, impactGraph, dependentsOf, mem_foldl_addDependent, List.mem_append, hdep,
    hartifact]
  simp [Follows, and_or_left, exists_or]

/-- **What a traversal finds.** -/
theorem mem_traverse_iff {seeds : List String} :
    y ∈ traverse (dependentsOf units counts) seeds ↔
      y ∈ reachable (Follows units counts) {x | x ∈ seeds} := by
  have hleads : (impactGraph (dependentsOf units counts)).Leads = Follows units counts := by
    funext x y
    exact propext leads_iff
  rw [traverse, mem_sortedStrings, FiniteGraph.mem_saturate_iff (List.nodup_dedup _), hleads]
  simp

theorem nodup_traverse (dependents : Dict String (List String)) (seeds : List String) :
    (traverse dependents seeds).Nodup :=
  (perm_sortedStrings _).nodup_iff.2 (FiniteGraph.nodup_saturate (List.nodup_dedup _))

end

/-! ### The least closed set -/

section

variable {plan : GovernedWorkPlan} {changed : List String} {counts : String → String → Bool}
  {x y uid : String} {unit : WorkUnitSpec}

/-- One unit of a plan feeds another: the other depends on it, or consumes an artifact that it
produces, whoever else produces it. -/
def Feeds (plan : GovernedWorkPlan) (x y : String) : Prop :=
  ∃ v ∈ plan.units, v.unitId = y ∧ (x ∈ v.dependencies ∨
    ∃ u ∈ plan.units, u.unitId = x ∧ ∃ name ∈ u.produces, name ∈ v.consumes)

/-- The ids of a plan. -/
def GovernedWorkPlan.ids (plan : GovernedWorkPlan) : List String := plan.units.map (·.unitId)

theorem mem_of_unitsById (h : plan.unitsById.get? uid = some unit) :
    unit ∈ plan.units ∧ unit.unitId = uid := by
  have hmem := Dict.mem_of_get?_ofList h
  obtain ⟨u, hu, heq⟩ := List.mem_map.1 hmem
  cases heq
  exact ⟨hu, rfl⟩

theorem mem_keys_unitsById : uid ∈ plan.unitsById.keys ↔ uid ∈ plan.ids := by
  rw [GovernedWorkPlan.unitsById, Dict.mem_keys_ofList_iff, List.map_map]
  rfl

/-- The producer that the traversal takes produces the artifact. -/
theorem produces_of_producersOf {units : Dict String WorkUnitSpec} {name : String}
    (h : (producersOf units).get? name = some x) :
    ∃ unit, units.get? x = some unit ∧ name ∈ unit.produces := by
  obtain ⟨⟨uid, unit⟩, hentry, hmem⟩ := List.mem_flatMap.1 (Dict.mem_of_get?_ofList h)
  obtain ⟨produced, hproduced, heq⟩ := List.mem_map.1 hmem
  cases heq
  exact ⟨unit, Dict.get?_eq_some_iff.2 hentry, hproduced⟩

/-- The traversal follows edges of the plan. -/
theorem Follows.feeds (h : Follows plan.unitsById counts x y) : Feeds plan x y := by
  obtain ⟨v, hv, hedge⟩ := h
  obtain ⟨hmem, rfl⟩ := mem_of_unitsById hv
  refine ⟨v, hmem, rfl, hedge.imp_right ?_⟩
  rintro ⟨name, hconsumed, hproducer, -⟩
  obtain ⟨u, hu, hproduced⟩ := produces_of_producersOf hproducer
  obtain ⟨humem, rfl⟩ := mem_of_unitsById hu
  exact ⟨u, humem, rfl, name, hproduced, hconsumed⟩

theorem Feeds.mem_ids (h : Feeds plan x y) : y ∈ plan.ids := by
  obtain ⟨v, hv, rfl, -⟩ := h
  exact List.mem_map_of_mem hv

/-- **What the impact of a change is meant to be**: of known units the least set that holds them and
is closed, of unknown units all there are; and it grows with the change and is its own impact. -/
structure ComputesImpact (plan : GovernedWorkPlan) (changed : List String) : Prop where
  least : changed ⊆ plan.ids → IsLeast (closedOver (Feeds plan) {x | x ∈ changed})
    {x | x ∈ computeImpact plan changed}
  all : ¬ changed ⊆ plan.ids → ∀ uid, uid ∈ computeImpact plan changed ↔ uid ∈ plan.ids
  monotone : ∀ changed', changed ⊆ changed' →
    computeImpact plan changed ⊆ computeImpact plan changed'
  idempotent : computeImpact plan (computeImpact plan changed) = computeImpact plan changed

/-- The units that the traversal reaches from the changed ones. -/
def Reached (plan : GovernedWorkPlan) (changed : List String) : Set String :=
  reachable (Follows plan.unitsById isOther) {x | x ∈ changed}

/-- An edge of the plan that the traversal does not follow. -/
def Overlooks (plan : GovernedWorkPlan) (x y : String) : Prop :=
  Feeds plan x y ∧ ¬ Follows plan.unitsById isOther x y

/-- **The edges that are not followed** in a plan whose ids are different come from an owner that
does not count, or from a producer of an artifact that is not its last one. -/
theorem Feeds.cases (hids : plan.ids.Nodup) (h : Feeds plan x y)
    (hnot : ¬ Follows plan.unitsById counts x y) :
    counts x y = false ∨ ∃ u ∈ plan.units, u.unitId = x ∧ ∃ name ∈ u.produces,
      ∃ last, last ≠ x ∧ (producersOf plan.unitsById).get? name = some last := by
  obtain ⟨v, hv, rfl, hedge⟩ := h
  have hlookup {u : WorkUnitSpec} (hu : u ∈ plan.units) :
      plan.unitsById.get? u.unitId = some u := by
    rw [Dict.get?_eq_some_iff, GovernedWorkPlan.unitsById, Dict.entries_ofList]
    · exact List.mem_map_of_mem hu
    · rwa [List.map_map]
  rcases hedge with hdep | ⟨u, hu, rfl, name, hproduced, hconsumed⟩
  · exact absurd ⟨v, hlookup hv, .inl hdep⟩ hnot
  · have hkey : name ∈ (producersOf plan.unitsById).keys := by
      refine Dict.mem_keys_ofList_iff.2 (List.mem_map.2 ⟨(name, u.unitId), ?_, rfl⟩)
      exact List.mem_flatMap.2 ⟨(u.unitId, u), Dict.get?_eq_some_iff.1 (hlookup hu),
        List.mem_map_of_mem hproduced⟩
    obtain ⟨last, hlast⟩ := Dict.mem_keys_iff.1 hkey
    cases hcounts : counts u.unitId v.unitId with
    | false => exact .inl rfl
    | true =>
      refine .inr ⟨u, hu, rfl, name, hproduced, last, ?_, hlast⟩
      rintro rfl
      exact hnot ⟨v, hlookup hv, .inr ⟨name, hconsumed, hlast, hcounts⟩⟩

theorem computeImpact_of_subset (h : changed ⊆ plan.ids) :
    computeImpact plan changed = traverse (dependentsOf plan.unitsById isOther) changed := by
  refine if_neg ?_
  rintro ⟨uid, huid, hunknown⟩
  exact hunknown (mem_keys_unitsById.2 (h huid))

theorem computeImpact_of_not_subset (h : ¬ changed ⊆ plan.ids) :
    computeImpact plan changed = sortedStrings plan.unitsById.keys := by
  obtain ⟨uid, huid, hunknown⟩ : ∃ uid ∈ changed, uid ∉ plan.ids := by
    by_contra hall
    exact h fun uid huid => not_not.1 fun hunknown => hall ⟨uid, huid, hunknown⟩
  exact if_pos ⟨uid, huid, fun hmem => hunknown (mem_keys_unitsById.1 hmem)⟩

theorem mem_computeImpact_iff (h : changed ⊆ plan.ids) :
    x ∈ computeImpact plan changed ↔ x ∈ Reached plan changed := by
  rw [computeImpact_of_subset h, mem_traverse_iff, Reached]

theorem mem_computeImpact_of_not_subset (h : ¬ changed ⊆ plan.ids) :
    x ∈ computeImpact plan changed ↔ x ∈ plan.ids := by
  rw [computeImpact_of_not_subset h, mem_sortedStrings, mem_keys_unitsById]

/-- The impact is within the plan. -/
theorem computeImpact_subset : computeImpact plan changed ⊆ plan.ids := by
  intro y hy
  by_cases h : changed ⊆ plan.ids
  · obtain ⟨x, hx, hreach⟩ := (mem_computeImpact_iff h).1 hy
    cases hreach with
    | refl => exact h hx
    | tail _ hstep => exact hstep.feeds.mem_ids
  · exact (mem_computeImpact_of_not_subset h).1 hy

/-- The impact names each unit once. -/
theorem nodup_computeImpact : (computeImpact plan changed).Nodup := by
  unfold computeImpact
  split
  · exact (perm_sortedStrings _).nodup_iff.2 plan.unitsById.nodup_keys
  · exact nodup_traverse _ _

/-- Changes of the same units have the same impact. -/
theorem computeImpact_congr {changed' : List String}
    (h : ∀ x, x ∈ computeImpact plan changed ↔ x ∈ computeImpact plan changed') :
    computeImpact plan changed = computeImpact plan changed' := by
  have hsorted (changed : List String) : (computeImpact plan changed).Pairwise (· ≤ ·) := by
    unfold computeImpact traverse
    split <;> exact List.pairwise_mergeSort' _ _
  have hperm := (List.perm_ext_iff_of_nodup nodup_computeImpact nodup_computeImpact).2 h
  exact hperm.eq_of_pairwise' (hsorted _) (hsorted _)

theorem computeImpact_mono {changed' : List String} (h : changed ⊆ changed') :
    computeImpact plan changed ⊆ computeImpact plan changed' := by
  intro x hx
  by_cases hknown : changed' ⊆ plan.ids
  · rw [mem_computeImpact_iff (List.Subset.trans h hknown)] at hx
    exact (mem_computeImpact_iff hknown).2 (reachable_mono (fun _ hy => h hy) hx)
  · exact (mem_computeImpact_of_not_subset hknown).2 (computeImpact_subset hx)

theorem computeImpact_idem :
    computeImpact plan (computeImpact plan changed) = computeImpact plan changed := by
  refine computeImpact_congr fun x => ?_
  rw [mem_computeImpact_iff computeImpact_subset, Reached]
  by_cases h : changed ⊆ plan.ids
  · have hset : {x | x ∈ computeImpact plan changed} = Reached plan changed :=
      Set.ext fun x => mem_computeImpact_iff h
    rw [hset, Reached, reachable_reachable, ← Reached, ← mem_computeImpact_iff h]
  · constructor
    · rintro ⟨y, hy, hreach⟩
      cases hreach with
      | refl => exact hy
      | tail _ hstep => exact (mem_computeImpact_of_not_subset h).2 hstep.feeds.mem_ids
    · exact fun hx => subset_reachable hx

/-- **The impact is the least closed set** exactly when each edge that the traversal overlooks, from
a unit that it reaches, ends in a unit that it reaches. -/
theorem computesImpact_iff :
    ComputesImpact plan changed ↔ (changed ⊆ plan.ids →
      ∀ x y, x ∈ Reached plan changed → Overlooks plan x y → y ∈ Reached plan changed) := by
  have hleast (h : changed ⊆ plan.ids) :
      IsLeast (closedOver (Feeds plan) {x | x ∈ changed}) {x | x ∈ computeImpact plan changed} ↔
        ∀ x y, x ∈ Reached plan changed → Overlooks plan x y → y ∈ Reached plan changed := by
    have hset : {x | x ∈ computeImpact plan changed} = Reached plan changed :=
      Set.ext fun x => mem_computeImpact_iff h
    rw [hset, Reached, isLeast_reachable_iff fun _ _ => Follows.feeds]
    simp only [Overlooks, and_imp]
  constructor
  · intro hall h
    exact (hleast h).1 (hall.least h)
  · intro hall
    exact ⟨fun h => (hleast h).2 (hall h), fun h _ => mem_computeImpact_of_not_subset h,
      fun _ => computeImpact_mono, computeImpact_idem⟩

end

/-- Two units that produce one artifact, and one that consumes it. -/
def twoProducers : GovernedWorkPlan where
  planId := "p"
  revision := 0
  requirements := ["R1"]
  units := [{ unitId := "A", requirementIds := ["R1"], acceptanceIds := [], produces := ["api"] },
    { unitId := "B", requirementIds := ["R1"], acceptanceIds := [], produces := ["api"] },
    { unitId := "C", requirementIds := ["R1"], acceptanceIds := [], consumes := ["api"] }]

/-- **A change of the first producer** does not reach the consumer of the artifact. -/
theorem not_computesImpact : ¬ ∀ plan changed, ComputesImpact plan changed := by
  intro h
  have hknown : ["A"] ⊆ twoProducers.ids := by decide
  have hmem : "C" ∈ computeImpact twoProducers ["A"] := by
    refine ((h twoProducers ["A"]).least hknown).1.2 "A" ?_ "C" ?_
    · exact (mem_computeImpact_iff hknown).2 (subset_reachable List.mem_cons_self)
    · exact ⟨_, List.mem_cons_of_mem _ (List.mem_cons_of_mem _ List.mem_cons_self), rfl,
        .inr ⟨_, List.mem_cons_self, rfl, "api", List.mem_cons_self, List.mem_cons_self⟩⟩
  obtain ⟨x, hx, hreach⟩ := (mem_computeImpact_iff hknown).1 hmem
  obtain rfl : x = "A" := List.mem_singleton.1 hx
  have hstops : (impactGraph (dependentsOf twoProducers.unitsById isOther)).next "A" = [] := by
    decide
  rcases hreach.cases_head with heq | ⟨y, hstep, -⟩
  · exact absurd heq (by decide)
  · have hlead := leads_iff.2 hstep
    rw [FiniteGraph.Leads, hstops] at hlead
    exact absurd hlead List.not_mem_nil

end Planning

end CyranoAgent
