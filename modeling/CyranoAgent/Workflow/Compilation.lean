import CyranoAgent.Planning.Validation
import CyranoAgent.Workflow.Compiler

/-!
# Compiling a plan that is ready

Validation and compilation check plans against different limits. `compile_ready_iff` compares them:
of the plans that are ready for review, those are compiled that keep the compiler's own guards
(`KeepsGuards`), on the number of units, on the length of a chain of dependencies, on the
requirements that units bind, and on the integers of a digest.
-/

namespace CyranoAgent

open Lib Planning

/-- No chain of units, each depending on the next, has more than `depth` of them. -/
def UnitChainsWithin (depth : ℕ) (units : List WorkUnitSpec) : Prop :=
  ∀ chain : List WorkUnitSpec, chain ⊆ units →
    chain.IsChain (fun u v => v.unitId ∈ u.dependencies) → chain.length ≤ depth

/-- The guards of the compiler that validation does not have. -/
structure KeepsGuards (plan : GovernedWorkPlan) (revision : ℤ)
    (knownRequirements : Option (List String)) : Prop where
  size : plan.units.length ≤ maxNodes
  depth : UnitChainsWithin maxDepth plan.units
  bound : ∀ known, knownRequirements = some known →
    ∀ u ∈ plan.units, ∀ requirement ∈ u.requirementIds, requirement ∈ known
  revision : revision.natAbs ≤ 2 ^ 53 - 1
  caps : ∀ u ∈ plan.units, ∀ cap, u.costCap = some cap → cap.natAbs ≤ 2 ^ 53 - 1

section

variable {plan : GovernedWorkPlan} {registries : Registries} {cycle : List String}

/-- The chains of the nodes are those of the units. -/
theorem chainsWithin_unitsToNodes {depth : ℕ} {units : List WorkUnitSpec} :
    ChainsWithin depth (unitsToNodes units) ↔ UnitChainsWithin depth units := by
  constructor
  · intro h chain hchain hlinks
    have hnodes := h (unitsToNodes chain) (List.map_subset _ hchain)
      ((List.isChain_map _).mpr hlinks)
    rwa [unitsToNodes, List.length_map] at hnodes
  · intro h chain hchain hlinks
    obtain ⟨unitChain, hunits, rfl⟩ : ∃ l ⊆ units, unitsToNodes l = chain := by
      clear hlinks
      induction chain with
      | nil => exact ⟨[], List.nil_subset _, rfl⟩
      | cons node chain ih =>
        obtain ⟨hnode, hrest⟩ := List.cons_subset.mp hchain
        obtain ⟨u, hu, rfl⟩ := List.mem_map.mp hnode
        obtain ⟨l, hl, rfl⟩ := ih hrest
        exact ⟨u :: l, List.cons_subset.mpr ⟨hu, hl⟩, rfl⟩
    have hlength := h unitChain hunits ((List.isChain_map _).mp hlinks)
    rwa [unitsToNodes, List.length_map]

/-- The nodes of a ready plan are resolved. -/
theorem resolved_of_ready (h : Ready plan registries cycle) :
    Resolved (unitsToNodes plan.units) := by
  constructor
  · simpa [unitsToNodes, Function.comp_def] using h.unique
  · intro node hnode dep hdep
    obtain ⟨u, hu, rfl⟩ := List.mem_map.mp hnode
    obtain ⟨v, hv, rfl⟩ := h.resolved u hu dep hdep
    exact ⟨_, List.mem_map_of_mem hv, rfl⟩

/-- The nodes of a ready plan have no conditions, and recipes of the registry. -/
theorem plain_of_ready (h : Ready plan registries cycle) :
    ∀ node ∈ unitsToNodes plan.units, Plain registries.knownRecipes node := by
  intro node hnode
  obtain ⟨u, hu, rfl⟩ := List.mem_map.mp hnode
  refine ⟨rfl, fun recipe known hrecipe hknown => ?_⟩
  obtain ⟨known', hknown', -, hall⟩ := h.recipes
  obtain rfl := Option.some.inj (hknown.symm.trans hknown')
  rcases hall u hu recipe hrecipe with rfl | hmem
  · exact absurd (.inr hrecipe) (h.tested u hu).1
  · exact hmem

/-- The nodes of a ready plan pass their checks when their requirements are known. -/
theorem checked_of_ready (h : Ready plan registries cycle)
    {knownRequirements : Option (List String)} :
    (∀ node ∈ unitsToNodes plan.units, Checked knownRequirements node) ↔
      ∀ known, knownRequirements = some known →
        ∀ u ∈ plan.units, ∀ requirement ∈ u.requirementIds, requirement ∈ known := by
  rw [unitsToNodes, List.forall_mem_map]
  constructor
  · intro hchecked known hknown u hu
    exact (hchecked u hu).bound known hknown
  · intro hbound u hu
    obtain ⟨cap, -, hcaps, -⟩ := h.budget
    exact ⟨by simp [nodeKinds], le_refl 1, fun _ => hcaps u hu,
      fun known hknown => hbound known hknown u hu⟩

/-- **When a ready plan compiles**: exactly when it keeps the guards of the compiler. -/
theorem compile_ready_iff {P : Primitives} {reprText : String → String}
    {reprValue : ConditionValue → String} {limit : ℕ} {r : PlanCheckReport} {revision : ℤ}
    {knownRequirements : Option (List String)}
    (h : validatePlan reprText plan registries limit = .ok r) (hready : r.readyForReview = true) :
    (∃ w, compileWorkflow reprText reprValue P (unitsToNodes plan.units) revision
        registries.knownRecipes knownRequirements = .ok w) ↔
      KeepsGuards plan revision knownRequirements := by
  have hplan := (readyForReview_iff h).mp hready
  rw [compileWorkflow_isOk (resolved_of_ready hplan) (plain_of_ready hplan),
    checked_of_ready hplan, chainsWithin_unitsToNodes]
  simp only [unitsToNodes, List.length_map, List.forall_mem_map]
  constructor
  · rintro ⟨hsize, hbound, hdepth, hrevision, hcaps⟩
    exact ⟨hsize, hdepth, hbound, hrevision, hcaps⟩
  · intro hguards
    exact ⟨hguards.size, hguards.bound, hguards.depth, hguards.revision, hguards.caps⟩

end

/-! ### A chain of 33 units -/

/-- The ids of the units, each of which depends on the one before. -/
def chainIds : List String :=
  ["u0", "u1", "u2", "u3", "u4", "u5", "u6", "u7", "u8", "u9", "u10", "u11", "u12", "u13", "u14",
    "u15", "u16", "u17", "u18", "u19", "u20", "u21", "u22", "u23", "u24", "u25", "u26", "u27",
    "u28", "u29", "u30", "u31", "u32"]

/-- A unit of the chain, which writes a file of its own. -/
def chainUnit (unitId : String) (dependencies : List String) : WorkUnitSpec where
  unitId := unitId
  requirementIds := ["r1"]
  acceptanceIds := ["a1"]
  dependencies := dependencies
  writePaths := [unitId]
  testRecipe := some "pytest"
  testOracle := some "exit-0"
  costCap := some 1

/-- The plan of a chain of units. -/
def chainPlan (ids : List String) : GovernedWorkPlan where
  planId := "p1"
  revision := 0
  requirements := ["r1"]
  units := List.zipWith chainUnit ids ([] :: ids.map fun unitId => [unitId])
  budgetCap := some 100

/-- One recipe is registered. -/
def chainRegistries : Registries := { knownRecipes := some ["pytest"] }

/-- A chain of two units is ready, and compiles when it keeps the guards. -/
theorem compile_ready_iff_short : ∃ r,
    validatePlan id (chainPlan (chainIds.take 2)) chainRegistries 10 = .ok r ∧
      r.readyForReview = true ∧
      ((∃ w, compileWorkflow id (fun _ => "") .ascii
          (unitsToNodes (chainPlan (chainIds.take 2)).units) 0 chainRegistries.knownRecipes
            (some ["r1"]) = .ok w) ↔
        KeepsGuards (chainPlan (chainIds.take 2)) 0 (some ["r1"])) := by
  obtain ⟨r, hr, hready⟩ := exists_ready id (chainPlan (chainIds.take 2)) chainRegistries 10
    (by decide +kernel)
  exact ⟨r, hr, hready, compile_ready_iff hr hready⟩

/-- **A ready plan that does not compile**: a chain of 33 units. -/
theorem chain_not_compiled : ¬∀ (P : Primitives) (reprText : String → String)
    (reprValue : ConditionValue → String) (limit : ℕ) (plan : GovernedWorkPlan)
    (registries : Registries) (r : PlanCheckReport),
    validatePlan reprText plan registries limit = .ok r → r.readyForReview = true →
      ∃ w, compileWorkflow reprText reprValue P (unitsToNodes plan.units) plan.revision
        registries.knownRecipes registries.activeRequirements = .ok w := by
  intro hclaim
  obtain ⟨r, hr, hready⟩ := exists_ready id (chainPlan chainIds) chainRegistries 10
    (by decide +kernel)
  have hplan := (readyForReview_iff hr).mp hready
  obtain ⟨-, -, hdepth, -⟩ := (compileWorkflow_isOk (resolved_of_ready hplan)
    (plain_of_ready hplan)).mp (hclaim .ascii id (fun _ => "") 10 _ _ r hr hready)
  have hlinks : (unitsToNodes (chainPlan chainIds).units).reverse.IsChain
      (fun a b => b.nodeId ∈ a.dependencies) := by decide
  have hlength := hdepth _ (List.reverse_subset.mpr (List.Subset.refl _)) hlinks
  revert hlength
  decide

end CyranoAgent
