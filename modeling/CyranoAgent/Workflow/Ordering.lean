import CyranoAgent.Workflow.Compiler

/-!
# The order of a workflow

A compilation succeeds on its structure exactly when the ids are different, the dependencies are
nodes, none of them runs in a circle and the limits on size and depth are kept
(`compileWorkflow_eq_ok_iff`); the checks that are not about structure are those of `Admitted`. The
order that it finds places the nodes by level and id (`precedes_orderOf_iff`), so it has every
dependency before what depends on it and does not change with the order of the nodes it was given,
and nor does the digest (`compileWorkflow_orders`).
-/

namespace CyranoAgent

open Lib Planning Relation

section

variable {reprText : String → String} {reprValue : ConditionValue → String} {P : Primitives}
  {knownRecipes knownRequirements : Option (List String)} {revision : ℤ}
  {nodes nodes' : List WorkflowNode} {node a b : WorkflowNode} {settled order : List String}
  {k : ℕ}

/-! ### What is compiled -/

/-- The order in which the rounds place the nodes. -/
@[irreducible] def orderOf (nodes : List WorkflowNode) : List String := placed nodes maxDepth

theorem orderOf_eq (nodes : List WorkflowNode) : orderOf nodes = placed nodes maxDepth := by
  rw [orderOf]

/-- The structure of a workflow: different ids, dependencies that are nodes and do not run in a
circle, at most 256 nodes, and at most 32 of them in a chain of dependencies. -/
structure Structured (nodes : List WorkflowNode) : Prop extends Resolved nodes where
  acyclic : ∀ node ∈ nodes, ¬ TransGen (Depends nodes) node node
  size : nodes.length ≤ maxNodes
  depth : ChainsWithin maxDepth nodes

/-- The other checks of a compilation: of each node for itself, of its condition and its recipe when
it is placed, and of the digest. -/
structure Admitted (reprText : String → String) (reprValue : ConditionValue → String)
    (P : Primitives) (knownRecipes knownRequirements : Option (List String)) (revision : ℤ)
    (nodes : List WorkflowNode) : Prop where
  checked : ∀ node ∈ nodes, Checked knownRequirements node
  passes : ∀ node ∈ nodes, Passes reprText reprValue knownRecipes
    (before (orderOf nodes) node.nodeId) node
  digested : ∃ d, digest P (workflowValue revision nodes) = .ok d

/-- A node below some level is in no circle. -/
theorem structured_iff :
    Structured nodes ↔ nodes.length ≤ maxNodes ∧ Resolved nodes ∧ ChainsWithin maxDepth nodes :=
  ⟨fun h => ⟨h.size, h.toResolved, h.depth⟩, fun ⟨hsize, hres, hdepth⟩ =>
    ⟨hres, fun node hnode => (below_iff_chainsWithin.mpr hdepth node hnode).acyclic, hsize, hdepth⟩⟩

/-- What is settled is different nodes, each of known dependencies. -/
structure Resolving (nodes : List WorkflowNode) (settled : List String) : Prop where
  nodup : settled.Nodup
  subset : settled ⊆ nodes.map (·.nodeId)
  known : ∀ node ∈ nodes, node.nodeId ∈ settled → node.dependencies ⊆ nodes.map (·.nodeId)

theorem resolving_nil : Resolving nodes [] := ⟨List.nodup_nil, by simp, by simp⟩

/-- When everything is settled, all dependencies are known. -/
theorem Resolving.resolved (h : Resolving nodes settled) (hunique : (nodes.map (·.nodeId)).Nodup)
    (hle : nodes.length ≤ settled.length) : Resolved nodes := by
  rw [← List.length_map (·.nodeId)] at hle
  have hperm := (h.nodup.subperm h.subset).perm_of_length_le hle
  refine ⟨hunique, fun node hnode dep hdep => ?_⟩
  exact List.mem_map.mp
    (h.known node hnode (hperm.mem_iff.mpr (List.mem_map_of_mem hnode)) hdep)

/-- A round settles nodes of known dependencies. -/
theorem Resolving.round {settled' : List String} (h : Resolving nodes settled)
    (hunique : (nodes.map (·.nodeId)).Nodup)
    (hrun : settleNodes reprText reprValue nodes knownRecipes (readyNodes nodes settled) settled =
      .ok settled') : Resolving nodes settled' := by
  obtain ⟨hready, rfl⟩ := (settleNodes_eq_ok (nodup_round hunique h.nodup)).mp hrun
  refine ⟨nodup_round hunique h.nodup, List.append_subset.mpr ⟨h.subset, fun nodeId hmem => ?_⟩,
    fun node hnode hmem => ?_⟩
  · obtain ⟨node, hnode, rfl⟩ := List.mem_map.mp hmem
    exact List.mem_map_of_mem (mem_readyNodes.mp hnode).1
  · rcases List.mem_append.mp hmem with hold | hnew
    · exact h.known node hnode hold
    · obtain ⟨other, hother, heq⟩ := List.mem_map.mp hnew
      obtain rfl : other = node :=
        List.inj_on_of_nodup_map hunique (mem_readyNodes.mp hother).1 hnode heq
      exact (hready other hother).1.1

/-- The rounds end with known dependencies. -/
theorem Resolving.of_settleRounds (hstart : Resolving nodes settled)
    (hunique : (nodes.map (·.nodeId)).Nodup) (left : ℕ)
    (h : settleRounds reprText reprValue nodes knownRecipes left settled = .ok order) :
    Resolved nodes := by
  induction left generalizing settled with
  | zero =>
    rw [settleRounds] at h
    split at h
    next hle => exact hstart.resolved hunique hle
    next => split at h <;> cases h
  | succ left ih =>
    rw [settleRounds] at h
    split at h
    next hle => exact hstart.resolved hunique hle
    next =>
      split at h
      next => cases h
      next =>
        rcases hrun : settleNodes reprText reprValue nodes knownRecipes (readyNodes nodes settled)
          settled with e | settled' <;> rw [hrun] at h
        · cases h
        · exact ih (hstart.round hunique hrun) h

/-- What the rounds settle from the start. -/
theorem settleRounds_start (hres : Resolved nodes) (left : ℕ) :
    settleRounds reprText reprValue nodes knownRecipes left [] = .ok order ↔
      (∀ node ∈ nodes, Below (Depends nodes) left node) ∧
        (∀ node ∈ nodes, Passes reprText reprValue knownRecipes
          (before (placed nodes left) node.nodeId) node) ∧ order = placed nodes left := by
  have hrounds : settleRounds reprText reprValue nodes knownRecipes left (placed nodes 0) =
      .ok order ↔ _ := settleRounds_eq_ok hres left
  have hzero (node : WorkflowNode) : ¬ Below (Depends nodes) 0 node := id
  simpa only [placed, Nat.zero_add, hzero, not_false_eq_true, forall_const] using hrounds

/-- **What a compilation makes** of nodes that have structure and are admitted. -/
theorem compileWorkflow_eq_ok_iff {w : CompiledWorkflow} :
    compileWorkflow reprText reprValue P nodes revision knownRecipes knownRequirements = .ok w ↔
      Structured nodes ∧
        Admitted reprText reprValue P knownRecipes knownRequirements revision nodes ∧
        ∃ workflowDigest, digest P (workflowValue revision nodes) = .ok workflowDigest ∧
          w = ⟨workflowDigest, revision, nodes, orderOf nodes,
            (nodes.map fun node => node.costCap.getD 0).sum⟩ := by
  have hrounds (hres : Resolved nodes) (order : List String) :
      settleRounds reprText reprValue nodes knownRecipes maxDepth [] = .ok order ↔
        (∀ node ∈ nodes, Below (Depends nodes) maxDepth node) ∧
          (∀ node ∈ nodes, Passes reprText reprValue knownRecipes
            (before (orderOf nodes) node.nodeId) node) ∧ order = orderOf nodes := by
    rw [orderOf_eq]
    exact settleRounds_start hres maxDepth
  rw [compileWorkflow_eq_ok, structured_iff, checkNodes_eq_ok List.nodup_nil, List.nil_append]
  constructor
  · rintro ⟨hsize, ⟨hunique, hchecked⟩, order, d, horder, hdigest, rfl⟩
    have hres : Resolved nodes := resolving_nil.of_settleRounds hunique maxDepth horder
    obtain ⟨hbelow, hpasses, rfl⟩ := (hrounds hres order).mp horder
    exact ⟨⟨hsize, hres, below_iff_chainsWithin.mp hbelow⟩, ⟨hchecked, hpasses, d, hdigest⟩, d,
      hdigest, rfl⟩
  · rintro ⟨⟨hsize, hres, hdepth⟩, hadmitted, d, hdigest, rfl⟩
    have horder := (hrounds hres _).mpr
      ⟨below_iff_chainsWithin.mpr hdepth, hadmitted.passes, rfl⟩
    exact ⟨hsize, ⟨hres.unique, hadmitted.checked⟩, _, d, horder, hdigest, rfl⟩

/-! ### The order -/

/-- One id comes before another in an order. -/
def Precedes (order : List String) (a b : String) : Prop := a ∈ before order b

/-- The order of the rounds has each node once. -/
theorem orderOf_perm (h : Structured nodes) : (orderOf nodes).Perm (nodes.map (·.nodeId)) := by
  rw [orderOf_eq]
  have hset := settled_placed h.toResolved maxDepth
  have hbelow := below_iff_chainsWithin.mpr h.depth
  refine (List.perm_ext_iff_of_nodup hset.nodup h.unique).mpr fun nodeId => ?_
  rw [hset.mem_iff, List.mem_map]
  constructor
  · rintro ⟨node, hnode, rfl, -⟩
    exact ⟨node, hnode, rfl⟩
  · rintro ⟨node, hnode, rfl⟩
    exact ⟨node, hnode, rfl, hbelow node hnode⟩

/-- The dependencies of a placed node come before it. -/
theorem dependencies_subset_placed (hres : Resolved nodes) (hnode : node ∈ nodes)
    (h : node.nodeId ∈ placed nodes k) :
    node.dependencies ⊆ before (placed nodes k) node.nodeId := by
  induction k with
  | zero => cases h
  | succ k ih =>
    by_cases hold : node.nodeId ∈ placed nodes k
    · rw [before_placed hold 1]
      exact ih hold
    · -- The node is of the last round, and what it depends on was placed before that.
      rw [placed] at h ⊢
      have hready := (List.mem_append.mp h).resolve_left hold
      obtain ⟨other, hother, heq⟩ := List.mem_map.mp hready
      obtain ⟨hmem, -, hdeps⟩ := mem_readyNodes.mp hother
      obtain rfl := hres.eq_of_nodeId hmem hnode heq
      obtain ⟨front, back, hsplit, hnew⟩ := List.eq_append_cons_of_mem hready
      rw [hsplit, ← List.append_assoc, before_append_cons]
      · exact fun dep hdep => List.mem_append_left _ (hdeps hdep)
      · exact fun hmem => (List.mem_append.mp hmem).elim hold hnew

/-- **Dependencies come first.** -/
theorem dependencies_subset_before (h : Structured nodes) (hnode : node ∈ nodes) :
    node.dependencies ⊆ before (orderOf nodes) node.nodeId := by
  have hmem := (orderOf_perm h).mem_iff.mpr (List.mem_map_of_mem hnode)
  rw [orderOf_eq] at hmem ⊢
  exact dependencies_subset_placed h.toResolved hnode hmem

theorem before_isPrefix (order : List String) (nodeId : String) : before order nodeId <+: order :=
  List.takeWhile_prefix _

theorem not_precedes_self {nodeId : String} : ¬ Precedes order nodeId nodeId := fun h => by
  simpa using List.mem_takeWhile_imp h

/-- What comes before one of two comes before the other. -/
theorem Precedes.trans {x y z : String} (hxy : Precedes order x y) (hyz : Precedes order y z) :
    Precedes order x z := by
  obtain ⟨rest, hrest⟩ := before_isPrefix order z
  rw [Precedes, ← hrest, before_append hyz] at hxy
  exact (before_isPrefix _ y).subset hxy

/-- Of two ids in an order, one comes before the other. -/
theorem precedes_or_precedes {x y : String} (hx : x ∈ order) (hy : y ∈ order) (hne : x ≠ y) :
    Precedes order x y ∨ Precedes order y x := by
  obtain ⟨front, back, rfl, hnew⟩ := List.eq_append_cons_of_mem hx
  by_cases hfront : y ∈ front
  · exact .inr (by rwa [Precedes, before_append_cons hnew])
  · have hback : y ∈ back := by simpa [hfront, hne.symm] using hy
    obtain ⟨middle, back, rfl, hfresh⟩ := List.eq_append_cons_of_mem hback
    refine .inl ?_
    rw [Precedes, show front ++ x :: (middle ++ y :: back) = (front ++ x :: middle) ++ y :: back by
      simp, before_append_cons (by simp [hfront, hne.symm, hfresh])]
    simp

/-- One node is of a lower level than another, or of the same level and a smaller id. -/
def PlacedBefore (nodes : List WorkflowNode) (a b : WorkflowNode) : Prop :=
  (∃ k, Below (Depends nodes) k a ∧ ¬ Below (Depends nodes) k b) ∨
    (∀ k, Below (Depends nodes) k a ↔ Below (Depends nodes) k b) ∧ a.nodeId < b.nodeId

theorem PlacedBefore.asymm (hab : PlacedBefore nodes a b) : ¬ PlacedBefore nodes b a := by
  rintro (⟨j, hbj, haj⟩ | ⟨hlevels', hlt'⟩)
  · obtain ⟨k, hak, hbk⟩ | ⟨hlevels, -⟩ := hab
    · rcases le_total j k with hle | hle
      · exact hbk (hbj.mono hle)
      · exact haj (hak.mono hle)
    · exact haj ((hlevels j).mpr hbj)
  · obtain ⟨k, hak, hbk⟩ | ⟨-, hlt⟩ := hab
    · exact hbk ((hlevels' k).mpr hak)
    · exact lt_asymm hlt hlt'

theorem pairwise_mergeSort_nodeId (nodes : List WorkflowNode) :
    (nodes.mergeSort fun a b => a.nodeId ≤ b.nodeId).Pairwise fun a b => a.nodeId ≤ b.nodeId := by
  have hsorted : (nodes.mergeSort fun a b => a.nodeId ≤ b.nodeId).Pairwise
      fun a b => decide (a.nodeId ≤ b.nodeId) = true :=
    List.pairwise_mergeSort (fun a b c => by simpa using le_trans)
      (fun a b => by simpa using le_total _ _) nodes
  simpa using hsorted

/-- A round takes the nodes in the order of their ids. -/
theorem pairwise_round (hunique : (nodes.map (·.nodeId)).Nodup) (hsettled : settled.Nodup) :
    ((readyNodes nodes settled).map (·.nodeId)).Pairwise (· < ·) := by
  have hle : ((readyNodes nodes settled).map (·.nodeId)).Pairwise (· ≤ ·) := by
    rw [List.pairwise_map]
    exact pairwise_mergeSort_nodeId _
  have hnodup := (List.nodup_append.mp (nodup_round hunique hsettled)).2.1
  exact (hle.and hnodup).imp fun h => lt_of_le_of_ne h.1 h.2

/-- What comes before a placed node is of a lower level, or of its level and a smaller id. -/
theorem placedBefore_of_mem_before (hres : Resolved nodes) (ha : a ∈ nodes) (hb : b ∈ nodes)
    (hplaced : b.nodeId ∈ placed nodes k) (h : a.nodeId ∈ before (placed nodes k) b.nodeId) :
    PlacedBefore nodes a b := by
  induction k with
  | zero => cases hplaced
  | succ k ih =>
    have hset := settled_placed hres k
    by_cases hold : b.nodeId ∈ placed nodes k
    · exact ih hold (by rwa [placed, before_append hold] at h)
    · -- The node is of the last round: the others are of earlier ones, or before it in this one.
      have hnew : ¬ Below (Depends nodes) k b := fun hbelow =>
        hold ((hset.nodeId_mem_iff hres hb).mpr hbelow)
      rw [placed] at hplaced h
      have hready := (List.mem_append.mp hplaced).resolve_left hold
      obtain ⟨front, back, hsplit, hfresh⟩ := List.eq_append_cons_of_mem hready
      rw [hsplit, ← List.append_assoc, before_append_cons
        (fun hmem => (List.mem_append.mp hmem).elim hold hfresh)] at h
      rcases List.mem_append.mp h with hearlier | hfront
      · exact .inl ⟨k, (hset.nodeId_mem_iff hres ha).mp hearlier, hnew⟩
      · have hsorted : ((readyNodes nodes (placed nodes k)).map (·.nodeId)).Pairwise (· < ·) :=
          pairwise_round hres.unique hset.nodup
        have haready : a.nodeId ∈ (readyNodes nodes (placed nodes k)).map (·.nodeId) := by
          rw [hsplit]
          exact List.mem_append_left _ hfront
        rw [hsplit] at hsorted
        have hlevel {c : WorkflowNode} (hc : c ∈ nodes)
            (hready : c.nodeId ∈ (readyNodes nodes (placed nodes k)).map (·.nodeId)) (j : ℕ) :
            Below (Depends nodes) j c ↔ k + 1 ≤ j := by
          obtain ⟨c', hc', heq⟩ := List.mem_map.mp hready
          obtain ⟨hmem, hlow, hhigh⟩ := (hset.mem_readyNodes hres).mp hc'
          obtain rfl := hres.eq_of_nodeId hmem hc heq
          refine ⟨fun h => ?_, fun hle => hhigh.mono hle⟩
          by_contra hlt
          exact hlow (h.mono (by omega))
        exact .inr ⟨fun j => (hlevel ha haready j).trans (hlevel hb hready j).symm,
          (List.pairwise_append.mp hsorted).2.2 _ hfront _ List.mem_cons_self⟩

/-- **The order is that of levels and ids.** -/
theorem precedes_orderOf_iff (h : Structured nodes) (ha : a ∈ nodes) (hb : b ∈ nodes) :
    Precedes (orderOf nodes) a.nodeId b.nodeId ↔ PlacedBefore nodes a b := by
  have hmem {c : WorkflowNode} (hc : c ∈ nodes) : c.nodeId ∈ orderOf nodes :=
    (orderOf_perm h).mem_iff.mpr (List.mem_map_of_mem hc)
  have hforward {a b : WorkflowNode} (ha : a ∈ nodes) (hb : b ∈ nodes)
      (hab : Precedes (orderOf nodes) a.nodeId b.nodeId) : PlacedBefore nodes a b := by
    have hplaced := hmem hb
    rw [Precedes, orderOf_eq] at hab
    rw [orderOf_eq] at hplaced
    exact placedBefore_of_mem_before h.toResolved ha hb hplaced hab
  refine ⟨hforward ha hb, fun hab => ?_⟩
  have hne : a.nodeId ≠ b.nodeId := by
    intro heq
    obtain rfl := h.toResolved.eq_of_nodeId ha hb heq
    exact hab.asymm hab
  refine (precedes_or_precedes (hmem ha) (hmem hb) hne).resolve_right fun hba => ?_
  exact hab.asymm (hforward hb ha hba)

/-! ### The order of the input -/

/-- A round takes the same ids, in whatever order the nodes come. -/
theorem map_readyNodes_of_perm (hperm : nodes'.Perm nodes) :
    (readyNodes nodes' settled).map (·.nodeId) = (readyNodes nodes settled).map (·.nodeId) := by
  have hsorted (nodes : List WorkflowNode) : (readyNodes nodes settled).map (·.nodeId) =
      sortedStrings ((nodes.filter fun node =>
        node.nodeId ∉ settled ∧ node.dependencies ⊆ settled).map (·.nodeId)) :=
    List.map_mergeSort fun _ _ _ _ => rfl
  rw [hsorted, hsorted, sortedStrings_eq_iff]
  exact (hperm.filter _).map _

/-- **The order of the rounds does not depend on the order of the nodes.** -/
theorem placed_of_perm (hperm : nodes'.Perm nodes) (k : ℕ) : placed nodes' k = placed nodes k := by
  induction k with
  | zero => rfl
  | succ k ih => rw [placed, placed, ih, map_readyNodes_of_perm hperm]

theorem orderOf_of_perm (hperm : nodes'.Perm nodes) : orderOf nodes' = orderOf nodes := by
  rw [orderOf_eq, orderOf_eq, placed_of_perm hperm]

/-- Nodes under different ids are digested in one order. -/
theorem workflowValue_of_perm (hunique : (nodes.map (·.nodeId)).Nodup) (hperm : nodes'.Perm nodes) :
    workflowValue revision nodes' = workflowValue revision nodes := by
  have hsame : (nodes'.mergeSort fun a b => a.nodeId ≤ b.nodeId) =
      nodes.mergeSort fun a b => a.nodeId ≤ b.nodeId := by
    refine List.Perm.eq_of_pairwise (fun a b ha hb hab hba => ?_)
      (pairwise_mergeSort_nodeId nodes') (pairwise_mergeSort_nodeId nodes)
      ((List.mergeSort_perm _ _).trans (hperm.trans (List.mergeSort_perm _ _).symm))
    have ha' := hperm.mem_iff.mp ((List.mergeSort_perm _ _).mem_iff.mp ha)
    have hb' := (List.mergeSort_perm _ _).mem_iff.mp hb
    exact List.inj_on_of_nodup_map hunique ha' hb' (le_antisymm hab hba)
  rw [workflowValue, workflowValue, hsame]

/-- Structure does not depend on the order of the nodes. -/
theorem Structured.of_perm (h : Structured nodes) (hperm : nodes'.Perm nodes) :
    Structured nodes' := by
  have hdepends : Depends nodes' = Depends nodes := by
    funext a b
    exact congrArg (· ∧ _) (propext hperm.mem_iff)
  refine ⟨⟨(hperm.map _).nodup_iff.mpr h.unique, fun node hnode dep hdep => ?_⟩,
    fun node hnode => ?_, hperm.length_eq ▸ h.size, fun chain hchain => ?_⟩
  · obtain ⟨a, ha, heq⟩ := h.closed node (hperm.mem_iff.mp hnode) dep hdep
    exact ⟨a, hperm.mem_iff.mpr ha, heq⟩
  · rw [hdepends]
    exact h.acyclic node (hperm.mem_iff.mp hnode)
  · exact h.depth chain fun a ha => hperm.mem_iff.mp (hchain ha)

/-- The other checks do not depend on it either. -/
theorem Admitted.of_perm
    (h : Admitted reprText reprValue P knownRecipes knownRequirements revision nodes)
    (hunique : (nodes.map (·.nodeId)).Nodup) (hperm : nodes'.Perm nodes) :
    Admitted reprText reprValue P knownRecipes knownRequirements revision nodes' where
  checked node hnode := h.checked node (hperm.mem_iff.mp hnode)
  passes node hnode := orderOf_of_perm hperm ▸ h.passes node (hperm.mem_iff.mp hnode)
  digested := workflowValue_of_perm hunique hperm ▸ h.digested

/-- **A compilation orders the nodes**: it succeeds on structure and the other checks; its order has
each node once and after its dependencies; and a permutation of the nodes has the same order and the
same digest. -/
theorem compileWorkflow_orders (reprText : String → String) (reprValue : ConditionValue → String)
    (P : Primitives) (nodes : List WorkflowNode) (revision : ℤ)
    (knownRecipes knownRequirements : Option (List String)) :
    ((∃ w, compileWorkflow reprText reprValue P nodes revision knownRecipes knownRequirements =
        .ok w) ↔
      Structured nodes ∧
        Admitted reprText reprValue P knownRecipes knownRequirements revision nodes) ∧
    ∀ w, compileWorkflow reprText reprValue P nodes revision knownRecipes knownRequirements =
        .ok w →
      w.order.Perm (nodes.map (·.nodeId)) ∧
      (∀ node ∈ nodes, ∀ dep ∈ node.dependencies, Precedes w.order dep node.nodeId) ∧
      ∀ nodes', nodes'.Perm nodes → ∃ w',
        compileWorkflow reprText reprValue P nodes' revision knownRecipes knownRequirements =
          .ok w' ∧ w'.order = w.order ∧ w'.workflowDigest = w.workflowDigest := by
  refine ⟨⟨?_, ?_⟩, fun w hw => ?_⟩
  · rintro ⟨w, hw⟩
    obtain ⟨hstructured, hadmitted, -⟩ := compileWorkflow_eq_ok_iff.mp hw
    exact ⟨hstructured, hadmitted⟩
  · rintro ⟨hstructured, hadmitted⟩
    obtain ⟨d, hdigest⟩ := hadmitted.digested
    exact ⟨_, compileWorkflow_eq_ok_iff.mpr ⟨hstructured, hadmitted, d, hdigest, rfl⟩⟩
  · obtain ⟨hstructured, hadmitted, d, hdigest, heq⟩ := compileWorkflow_eq_ok_iff.mp hw
    subst heq
    refine ⟨orderOf_perm hstructured, fun node hnode dep hdep =>
      dependencies_subset_before hstructured hnode hdep, fun nodes' hperm => ?_⟩
    refine ⟨_, compileWorkflow_eq_ok_iff.mpr ⟨hstructured.of_perm hperm,
      hadmitted.of_perm hstructured.unique hperm, d, ?_, rfl⟩, orderOf_of_perm hperm, rfl⟩
    rw [workflowValue_of_perm hstructured.unique hperm]
    exact hdigest

end

end CyranoAgent
