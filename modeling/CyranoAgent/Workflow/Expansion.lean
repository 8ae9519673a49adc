import CyranoAgent.Lib.Dict
import CyranoAgent.Workflow.Ordering

/-!
# The expansion of a workflow

`proposeExpansion` adds nodes to a compiled workflow and compiles the whole once more as the next
revision, without the registries of recipes and requirements that the workflow was compiled under.
`expansionKeeps_iff` says which expansions the registries would admit all the same.
-/

namespace CyranoAgent

open Lib Planning

section

variable (reprText : String → String) (reprValue : ConditionValue → String)

/-- The loop over the additions, `merged` being the nodes so far. -/
def mergeNodes : Dict String WorkflowNode → List WorkflowNode →
    Except Failure (Dict String WorkflowNode)
  | merged, [] => .ok merged
  | merged, node :: additions =>
    if node.nodeId ∈ merged.keys then
      .error (.cyrano "IDEMPOTENCY_CONFLICT" ("expansion may not redefine " ++
        reprText node.nodeId))
    else mergeNodes (merged.set node.nodeId node) additions

/-- `propose_expansion`. -/
def proposeExpansion (P : Primitives) (base : CompiledWorkflow) (additions : List WorkflowNode)
    (policyMaxNodes policyMaxCost : ℤ) : Except Failure CompiledWorkflow := do
  let merged ← mergeNodes reprText (Dict.ofList (base.nodes.map fun n => (n.nodeId, n))) additions
  if policyMaxNodes < merged.values.length then
    .error (inputInvalid "expansion exceeds node cap")
  else if policyMaxCost < (merged.values.map fun n => n.costCap.getD 0).sum then
    .error (.cyrano "BUDGET_UNBOUND" "expansion exceeds the cost policy")
  else compileWorkflow reprText reprValue P merged.values (base.revision + 1)

end

section

variable {reprText : String → String} {reprValue : ConditionValue → String} {P : Primitives}
  {knownRecipes knownRequirements : Option (List String)} {revision : ℤ}
  {nodes additions : List WorkflowNode} {node : WorkflowNode}

/-- What the registries say of a node: its requirements and its recipe are known. -/
structure Registered (knownRecipes knownRequirements : Option (List String))
    (node : WorkflowNode) : Prop where
  requirements : ∀ known, knownRequirements = some known → ∀ r ∈ node.requirementIds, r ∈ known
  recipe : ∀ recipe known, node.recipeId = some recipe → knownRecipes = some known → recipe ∈ known

theorem checked_iff :
    Checked knownRequirements node ↔ Checked none node ∧
      ∀ known, knownRequirements = some known → ∀ r ∈ node.requirementIds, r ∈ known :=
  ⟨fun h => ⟨⟨h.kind, h.attempts, h.capped, nofun⟩, h.bound⟩,
    fun ⟨h, hbound⟩ => ⟨h.kind, h.attempts, h.capped, hbound⟩⟩

theorem passes_iff {settled : List String} :
    Passes reprText reprValue knownRecipes settled node ↔
      Passes reprText reprValue none settled node ∧ ∀ recipe known,
        node.recipeId = some recipe → knownRecipes = some known → recipe ∈ known :=
  ⟨fun h => ⟨⟨h.condition, nofun⟩, h.recipe⟩, fun ⟨h, hrecipe⟩ => ⟨h.condition, hrecipe⟩⟩

/-- **What the registries add to a compilation**: that every node is registered. -/
theorem compileWorkflow_registered {w : CompiledWorkflow} :
    compileWorkflow reprText reprValue P nodes revision knownRecipes knownRequirements = .ok w ↔
      compileWorkflow reprText reprValue P nodes revision = .ok w ∧
        ∀ node ∈ nodes, Registered knownRecipes knownRequirements node := by
  rw [compileWorkflow_eq_ok_iff, compileWorkflow_eq_ok_iff]
  constructor
  · rintro ⟨hstructured, hadmitted, hmade⟩
    have hchecked node hnode := checked_iff.mp (hadmitted.checked node hnode)
    have hpasses node hnode := passes_iff.mp (hadmitted.passes node hnode)
    exact ⟨⟨hstructured, ⟨fun node hnode => (hchecked node hnode).1,
      fun node hnode => (hpasses node hnode).1, hadmitted.digested⟩, hmade⟩,
      fun node hnode => ⟨(hchecked node hnode).2, (hpasses node hnode).2⟩⟩
  · rintro ⟨⟨hstructured, hadmitted, hmade⟩, hregistered⟩
    exact ⟨hstructured, ⟨fun node hnode => checked_iff.mpr
        ⟨hadmitted.checked node hnode, (hregistered node hnode).requirements⟩,
      fun node hnode => passes_iff.mpr
        ⟨hadmitted.passes node hnode, (hregistered node hnode).recipe⟩,
      hadmitted.digested⟩, hmade⟩

/-- **The additions come behind the nodes**, under new ids. -/
theorem mergeNodes_eq_ok {merged merged' : Dict String WorkflowNode} :
    mergeNodes reprText merged additions = .ok merged' ↔
      (merged.keys ++ additions.map (·.nodeId)).Nodup ∧
        merged'.entries = merged.entries ++ additions.map fun n => (n.nodeId, n) := by
  induction additions generalizing merged with
  | nil =>
    simp only [mergeNodes, List.map_nil, List.append_nil, Except.ok.injEq]
    rw [and_iff_right merged.nodup_keys, eq_comm, Dict.ext_iff]
  | cons node additions ih =>
    rw [mergeNodes]
    split
    next hmem =>
      refine iff_of_false (by simp) fun h => ?_
      exact (List.nodup_append.mp h.1).2.2 _ hmem _ List.mem_cons_self rfl
    next hnew =>
      have hentries : (merged.set node.nodeId node).entries = _ := Dict.entries_set_of_not_mem hnew
      rw [ih, Dict.keys, hentries]
      simp [Dict.keys]

/-- **What an expansion is**: the next revision, of the nodes with additions under new ids, within
the policy. -/
theorem proposeExpansion_eq_ok {base w : CompiledWorkflow} {policyMaxNodes policyMaxCost : ℤ}
    (hunique : (base.nodes.map (·.nodeId)).Nodup) :
    proposeExpansion reprText reprValue P base additions policyMaxNodes policyMaxCost = .ok w ↔
      ((base.nodes ++ additions).map (·.nodeId)).Nodup ∧
        (base.nodes ++ additions).length ≤ policyMaxNodes ∧
        ((base.nodes ++ additions).map fun n => n.costCap.getD 0).sum ≤ policyMaxCost ∧
        compileWorkflow reprText reprValue P (base.nodes ++ additions) (base.revision + 1) =
          .ok w := by
  have hbase : (Dict.ofList (base.nodes.map fun n => (n.nodeId, n))).entries =
      base.nodes.map fun n => (n.nodeId, n) := Dict.entries_ofList (by rwa [List.map_map])
  have hmerge (merged : Dict String WorkflowNode) :
      mergeNodes reprText (Dict.ofList (base.nodes.map fun n => (n.nodeId, n))) additions =
        .ok merged ↔ ((base.nodes ++ additions).map (·.nodeId)).Nodup ∧
          merged.entries = (base.nodes ++ additions).map fun n => (n.nodeId, n) := by
    rw [mergeNodes_eq_ok, Dict.keys, hbase, List.map_map, List.map_append, List.map_append]
    rfl
  rw [proposeExpansion]
  rcases hrun : mergeNodes reprText (Dict.ofList (base.nodes.map fun n => (n.nodeId, n)))
    additions with e | merged <;> rw [hrun]
  · refine iff_of_false (by rintro ⟨⟩) fun h => ?_
    have hok := (hmerge ⟨_, by rw [List.map_map]; exact h.1⟩).mpr ⟨h.1, rfl⟩
    cases hrun.symm.trans hok
  · obtain ⟨hnodup, hentries⟩ := (hmerge merged).mp hrun
    have hvalues : merged.values = base.nodes ++ additions := by
      rw [Dict.values, hentries, List.map_map]
      exact List.map_id _
    rw [and_iff_right hnodup, ← hvalues]
    change (if _ then _ else _) = Except.ok w ↔ _
    split
    next hlarge => exact iff_of_false (by simp) fun h => absurd h.1 (by omega)
    next hsmall =>
      rw [and_iff_right (by omega)]
      split
      next hdear => exact iff_of_false (by simp) fun h => absurd h.1 (by omega)
      next hcheap => rw [and_iff_right (by omega)]

/-- **Which expansions the registries admit**: an accepted expansion keeps the nodes, has the next
revision and would be compiled under the registries of its base exactly when the additions are
registered. -/
theorem expansionKeeps_iff {base w : CompiledWorkflow} {policyMaxNodes policyMaxCost : ℤ}
    (hbase : compileWorkflow reprText reprValue P nodes revision knownRecipes knownRequirements =
      .ok base)
    (h : proposeExpansion reprText reprValue P base additions policyMaxNodes policyMaxCost =
      .ok w) :
    (base.nodes <+: w.nodes ∧ w.revision = base.revision + 1 ∧
      ∃ w', compileWorkflow reprText reprValue P w.nodes (base.revision + 1) knownRecipes
        knownRequirements = .ok w') ↔
      ∀ node ∈ additions, Registered knownRecipes knownRequirements node := by
  have hregistered := (compileWorkflow_registered.mp hbase).2
  obtain ⟨hstructured, -, d, -, rfl⟩ := compileWorkflow_eq_ok_iff.mp hbase
  obtain ⟨-, -, -, hcompiled⟩ := (proposeExpansion_eq_ok hstructured.unique).mp h
  obtain ⟨-, -, d, -, rfl⟩ := compileWorkflow_eq_ok_iff.mp hcompiled
  rw [and_iff_right (List.prefix_append _ _), and_iff_right rfl]
  constructor
  · rintro ⟨w', hw'⟩ node hnode
    exact (compileWorkflow_registered.mp hw').2 node (List.mem_append_right _ hnode)
  · intro hadditions
    exact ⟨_, compileWorkflow_registered.mpr
      ⟨hcompiled, List.forall_mem_append.mpr ⟨hregistered, hadditions⟩⟩⟩

end

/-- A node that reads by a recipe. -/
def recipeNode (nodeId : String) (recipeId : Option String) : WorkflowNode :=
  { nodeId, kind := "read", recipeId }

/-- Nodes that only read are compiled when the recipes are known. -/
theorem recipeNodes_compile (ids : List (String × Option String)) (revision : ℤ)
    (knownRecipes knownRequirements : Option (List String)) (hunique : (ids.map Prod.fst).Nodup)
    (hsize : ids.length ≤ maxNodes) (hrevision : revision.natAbs ≤ 2 ^ 53 - 1)
    (hknown : ∀ id ∈ ids, ∀ recipe known, id.2 = some recipe → knownRecipes = some known →
      recipe ∈ known) :
    ∃ w, compileWorkflow id (fun _ => "") Primitives.ascii
      (ids.map fun id => recipeNode id.1 id.2) revision knownRecipes knownRequirements =
        .ok w := by
  have hforall {p : WorkflowNode → Prop} (h : ∀ id ∈ ids, p (recipeNode id.1 id.2)) :
      ∀ node ∈ ids.map fun id => recipeNode id.1 id.2, p node := List.forall_mem_map.mpr h
  refine (compileWorkflow_isOk ⟨?_, ?_⟩ ?_).mpr ⟨by rwa [List.length_map], ?_, ?_, hrevision, ?_⟩
  · rw [List.map_map]
    exact hunique
  · exact hforall fun id _ => by simp [recipeNode]
  · exact hforall fun id hid => ⟨rfl, hknown id hid⟩
  · refine hforall fun id _ => ⟨List.mem_cons_self, le_refl _, by simp [recipeNode], ?_⟩
    exact fun known _ r hr => absurd hr List.not_mem_nil
  · -- nothing depends on anything, so no chain has two nodes
    rintro (_ | ⟨a, _ | ⟨b, chain⟩⟩) hchain hlinks
    · exact Nat.zero_le _
    · exact Nat.le_of_ble_eq_true rfl
    · have hdeps : a.dependencies = [] :=
        hforall (p := fun a => a.dependencies = []) (fun _ _ => rfl) a
          (hchain List.mem_cons_self)
      exact absurd (hdeps ▸ (List.isChain_cons_cons.mp hlinks).1) List.not_mem_nil
  · exact hforall fun id _ cap hcap => by cases hcap

/-- An expansion by one node of a workflow of one node, under registries without recipes. -/
theorem recipeNode_expands (recipeId : Option String) :
    ∃ base w, compileWorkflow id (fun _ => "") Primitives.ascii [recipeNode "a" none] 0 (some [])
        (some []) = .ok base ∧
      proposeExpansion id (fun _ => "") Primitives.ascii base [recipeNode "b" recipeId] 2 0 =
        .ok w := by
  obtain ⟨base, hbase⟩ := recipeNodes_compile [("a", none)] 0 (some []) (some []) (by decide)
    (Nat.le_of_ble_eq_true rfl) (by decide) (by simp)
  obtain ⟨w, hw⟩ := recipeNodes_compile [("a", none), ("b", recipeId)] 1 none none (by simp)
    (Nat.le_of_ble_eq_true rfl) (by decide) (by simp)
  refine ⟨base, w, hbase, ?_⟩
  obtain ⟨hstructured, -, d, -, rfl⟩ := compileWorkflow_eq_ok_iff.mp hbase
  exact (proposeExpansion_eq_ok hstructured.unique).mpr
    ⟨by simp [recipeNode], le_refl _, le_refl _, hw⟩

theorem expansionKeeps_iff_recipeNode :
    ∃ base w, compileWorkflow id (fun _ => "") Primitives.ascii [recipeNode "a" none] 0 (some [])
        (some []) = .ok base ∧
      proposeExpansion id (fun _ => "") Primitives.ascii base [recipeNode "b" none] 2 0 = .ok w ∧
      ((base.nodes <+: w.nodes ∧ w.revision = base.revision + 1 ∧
        ∃ w', compileWorkflow id (fun _ => "") Primitives.ascii w.nodes (base.revision + 1)
          (some []) (some []) = .ok w') ↔
        ∀ node ∈ [recipeNode "b" none], Registered (some []) (some []) node) := by
  obtain ⟨base, w, hbase, hw⟩ := recipeNode_expands none
  exact ⟨base, w, hbase, hw, expansionKeeps_iff hbase hw⟩

/-- An expansion brings in a recipe that its base would have been refused for. -/
theorem not_expansionKeeps :
    ∃ base w, compileWorkflow id (fun _ => "") Primitives.ascii [recipeNode "a" none] 0 (some [])
        (some []) = .ok base ∧
      proposeExpansion id (fun _ => "") Primitives.ascii base [recipeNode "b" (some "r")] 2 0 =
        .ok w ∧
      ¬ ∃ w', compileWorkflow id (fun _ => "") Primitives.ascii w.nodes (base.revision + 1)
        (some []) (some []) = .ok w' := by
  obtain ⟨base, w, hbase, hw⟩ := recipeNode_expands (some "r")
  refine ⟨base, w, hbase, hw, ?_⟩
  rintro ⟨w', hw'⟩
  obtain ⟨hstructured, -, d, -, rfl⟩ := compileWorkflow_eq_ok_iff.mp hbase
  obtain ⟨-, -, -, hcompiled⟩ := (proposeExpansion_eq_ok hstructured.unique).mp hw
  obtain ⟨-, -, d', -, rfl⟩ := compileWorkflow_eq_ok_iff.mp hcompiled
  have hregistered := (compileWorkflow_registered.mp hw').2 (recipeNode "b" (some "r")) (by simp)
  exact absurd (hregistered.recipe _ _ rfl rfl) List.not_mem_nil

end CyranoAgent
