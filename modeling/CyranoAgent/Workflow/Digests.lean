import CyranoAgent.Contracts.Printing
import CyranoAgent.Workflow.Compiler

/-!
# What a workflow digest binds

Approvals name a workflow by its digest. The digest is taken of a projection that has ten of the
thirteen fields of a node, texts in their normal form and lists sorted. `digestBinds_iff` says for
which pairs of workflows it determines the nodes all the same.
-/

namespace CyranoAgent

open Lib Planning

section

variable {P : Primitives}

/-! ### Texts of fields -/

theorem sameText_strings {items items' : List String} :
    SameText P (strings items) (strings items') ↔
      items.map (normalizeText P) = items'.map (normalizeText P) := by
  rw [strings, strings, sameText_list, List.forall₂_map_left_iff, List.forall₂_map_right_iff]
  simp only [sameText_str]
  rw [← List.forall₂_eq_eq_eq, List.forall₂_map_left_iff, List.forall₂_map_right_iff]

theorem sameText_optionalText {text text' : Option String} :
    SameText P (optionalText text) (optionalText text') ↔
      text.map (normalizeText P) = text'.map (normalizeText P) := by
  cases text with
  | none =>
    cases text' with
    | none => simp [optionalText]
    | some text' => simp [optionalText, not_sameText_none_str]
  | some text =>
    cases text' with
    | none => simpa [optionalText] using fun h => not_sameText_none_str (SameText.symm h)
    | some text' => simp [optionalText]

theorem sameText_optionalInt {number number' : Option ℤ} :
    SameText P (optionalInt number) (optionalInt number') ↔
      number = number' ∧ ∀ n, number = some n → n.natAbs ≤ 2 ^ 53 - 1 := by
  cases number with
  | none =>
    cases number' with
    | none => simp [optionalInt]
    | some n => simp [optionalInt, not_sameText_none_int]
  | some n =>
    cases number' with
    | none => simpa [optionalInt] using fun h => not_sameText_none_int (SameText.symm h)
    | some m => simp [optionalInt]

/-! ### What the projection shows -/

/-- The condition of a node as the projection has it. -/
def WorkflowNode.conditionValue (node : WorkflowNode) : PyValue :=
  (node.condition.map ConditionValue.toPy).getD .none

/-- The nodes are the same in what the projection shows of them. -/
structure NodesMatch (P : Primitives) (a b : WorkflowNode) : Prop where
  nodeId : normalizeText P a.nodeId = normalizeText P b.nodeId
  kind : normalizeText P a.kind = normalizeText P b.kind
  dependencies : (sortedStrings a.dependencies).map (normalizeText P) =
    (sortedStrings b.dependencies).map (normalizeText P)
  requirementIds : (sortedStrings a.requirementIds).map (normalizeText P) =
    (sortedStrings b.requirementIds).map (normalizeText P)
  acceptanceIds : (sortedStrings a.acceptanceIds).map (normalizeText P) =
    (sortedStrings b.acceptanceIds).map (normalizeText P)
  condition : SameText P a.conditionValue b.conditionValue
  scopeRef : a.scopeRef.map (normalizeText P) = b.scopeRef.map (normalizeText P)
  resourceClaims : (sortedStrings a.resourceClaims).map (normalizeText P) =
    (sortedStrings b.resourceClaims).map (normalizeText P)
  costCap : a.costCap = b.costCap
  recipeId : a.recipeId.map (normalizeText P) = b.recipeId.map (normalizeText P)

/-- The projections of nodes have one text when the nodes match, and the cap is in range. -/
theorem sameText_nodeProjection {a b : WorkflowNode} :
    SameText P (nodeProjection a) (nodeProjection b) ↔
      NodesMatch P a b ∧ ∀ cap, a.costCap = some cap → cap.natAbs ≤ 2 ^ 53 - 1 := by
  let fields (node : WorkflowNode) : List (String × PyValue) :=
    [("id", .str node.nodeId), ("kind", .str node.kind),
      ("deps", strings (sortedStrings node.dependencies)),
      ("req", strings (sortedStrings node.requirementIds)),
      ("acc", strings (sortedStrings node.acceptanceIds)), ("cond", node.conditionValue),
      ("scope", optionalText node.scopeRef), ("res", strings (sortedStrings node.resourceClaims)),
      ("cap", optionalInt node.costCap), ("recipe", optionalText node.recipeId)]
  have hfields := sameText_record (P := P) ["id", "kind", "deps", "req", "acc", "cond", "scope",
    "res", "cap", "recipe"] (by decide) (by decide) (fields a) (fields b) rfl rfl
  refine hfields.trans ?_
  simp only [fields, List.forall₂_cons, List.forall₂_nil_left_iff, true_and, and_true, sameText_str,
    sameText_strings, sameText_optionalText, sameText_optionalInt]
  constructor
  · rintro ⟨hid, hkind, hdeps, hreq, hacc, hcond, hscope, hres, ⟨hcap, hrange⟩, hrecipe⟩
    exact ⟨⟨hid, hkind, hdeps, hreq, hacc, hcond, hscope, hres, hcap, hrecipe⟩, hrange⟩
  · rintro ⟨h, hrange⟩
    exact ⟨h.nodeId, h.kind, h.dependencies, h.requirementIds, h.acceptanceIds, h.condition,
      h.scopeRef, h.resourceClaims, ⟨h.costCap, hrange⟩, h.recipeId⟩

/-- The nodes in the order of their ids. -/
def byId (nodes : List WorkflowNode) : List WorkflowNode :=
  nodes.mergeSort fun a b => a.nodeId ≤ b.nodeId

/-- Workflows have one text when their revisions are the same and their nodes match. -/
theorem sameText_workflowValue {revision revision' : ℤ} {nodes nodes' : List WorkflowNode} :
    SameText P (workflowValue revision nodes) (workflowValue revision' nodes') ↔
      (revision = revision' ∧ revision.natAbs ≤ 2 ^ 53 - 1) ∧
        List.Forall₂ (fun a b => NodesMatch P a b ∧
          ∀ cap, a.costCap = some cap → cap.natAbs ≤ 2 ^ 53 - 1) (byId nodes) (byId nodes') := by
  have hfields := sameText_record (P := P) ["revision", "nodes"] (by decide) (by decide)
    [("revision", .int revision), ("nodes", .list ((byId nodes).map nodeProjection))]
    [("revision", .int revision'), ("nodes", .list ((byId nodes').map nodeProjection))] rfl rfl
  refine hfields.trans ?_
  simp only [List.forall₂_cons, List.forall₂_nil_left_iff, true_and, and_true, sameText_int,
    sameText_list, List.forall₂_map_left_iff, List.forall₂_map_right_iff, sameText_nodeProjection]

/-! ### What the digest determines -/

mutual

/-- The JSON value of a condition, its texts as they are. -/
def ConditionValue.exact : ConditionValue → Json
  | .none | .float | .other => .null
  | .bool b => .bool b
  | .int n => .int n
  | .str s => .str s
  | .list items => .arr (exactItems items)
  | .mapping isDict entries => if isDict then .obj (exactEntries entries) else .null

/-- The items of a list. -/
def ConditionValue.exactItems : List ConditionValue → List Json
  | [] => []
  | item :: items => exact item :: exactItems items

/-- The entries of a mapping. -/
def ConditionValue.exactEntries : List (PyKey × ConditionValue) → List (String × Json)
  | [] => []
  | (.str key, item) :: entries => (key, exact item) :: exactEntries entries
  | (.other, _) :: entries => exactEntries entries

end

/-- The condition of a node, up to the order of keys. -/
def WorkflowNode.exactCondition (node : WorkflowNode) : Option Json :=
  node.condition.map fun condition => condition.exact.sorted

/-- The nodes agree in every field, up to the order in which sets are listed. -/
structure NodesAgree (a b : WorkflowNode) : Prop where
  nodeId : a.nodeId = b.nodeId
  kind : a.kind = b.kind
  dependencies : a.dependencies.Perm b.dependencies
  requirementIds : a.requirementIds.Perm b.requirementIds
  acceptanceIds : a.acceptanceIds.Perm b.acceptanceIds
  condition : a.exactCondition = b.exactCondition
  scopeRef : a.scopeRef = b.scopeRef
  resourceClaims : a.resourceClaims.Perm b.resourceClaims
  costCap : a.costCap = b.costCap
  recipeId : a.recipeId = b.recipeId
  retryClass : a.retryClass = b.retryClass
  maxAttempts : a.maxAttempts = b.maxAttempts
  compensationRef : a.compensationRef = b.compensationRef

/-- The nodes agree in what the projection does not show: the three fields that it leaves out, and
the texts themselves. -/
structure UnseenAgree (a b : WorkflowNode) : Prop where
  retryClass : a.retryClass = b.retryClass
  maxAttempts : a.maxAttempts = b.maxAttempts
  compensationRef : a.compensationRef = b.compensationRef
  texts : [[a.nodeId, a.kind], sortedStrings a.dependencies, sortedStrings a.requirementIds,
      sortedStrings a.acceptanceIds, a.scopeRef.toList, sortedStrings a.resourceClaims,
      a.recipeId.toList] =
    [[b.nodeId, b.kind], sortedStrings b.dependencies, sortedStrings b.requirementIds,
      sortedStrings b.acceptanceIds, b.scopeRef.toList, sortedStrings b.resourceClaims,
      b.recipeId.toList]
  condition : a.exactCondition = b.exactCondition

/-- Nodes that match agree exactly when they agree in what is not shown. -/
theorem NodesMatch.agree_iff {a b : WorkflowNode} (h : NodesMatch P a b) :
    NodesAgree a b ↔ UnseenAgree a b := by
  constructor
  · intro hagree
    refine ⟨hagree.retryClass, hagree.maxAttempts, hagree.compensationRef, ?_, hagree.condition⟩
    rw [hagree.nodeId, hagree.kind, sortedStrings_eq_iff.mpr hagree.dependencies,
      sortedStrings_eq_iff.mpr hagree.requirementIds,
      sortedStrings_eq_iff.mpr hagree.acceptanceIds, hagree.scopeRef,
      sortedStrings_eq_iff.mpr hagree.resourceClaims, hagree.recipeId]
  · intro hunseen
    have htexts := hunseen.texts
    simp only [List.cons.injEq, and_true] at htexts
    obtain ⟨⟨hid, hkind⟩, hdeps, hreq, hacc, hscope, hres, hrecipe⟩ := htexts
    have hoption {text text' : Option String} (heq : text.toList = text'.toList) :
        text = text' := by
      cases text <;> cases text' <;> simp_all
    exact ⟨hid, hkind, sortedStrings_eq_iff.mp hdeps, sortedStrings_eq_iff.mp hreq,
      sortedStrings_eq_iff.mp hacc, hunseen.condition, hoption hscope,
      sortedStrings_eq_iff.mp hres, h.costCap, hoption hrecipe, hunseen.retryClass,
      hunseen.maxAttempts, hunseen.compensationRef⟩

end

/-! ### Compiled workflows -/

/-- Compiled workflows of one digest have the same nodes, which agree in every field. -/
def DigestBinds (w w' : CompiledWorkflow) : Prop :=
  w.workflowDigest = w'.workflowDigest →
    List.Forall₂ NodesAgree (byId w.nodes) (byId w'.nodes)

section

variable {P : Primitives} {reprText : String → String} {reprValue : ConditionValue → String}

/-- What a compiled workflow is made of. -/
theorem digest_of_compileWorkflow {nodes : List WorkflowNode} {revision : ℤ}
    {knownRecipes knownRequirements : Option (List String)} {w : CompiledWorkflow}
    (h : compileWorkflow reprText reprValue P nodes revision knownRecipes knownRequirements =
      .ok w) :
    w.nodes = nodes ∧ digest P (workflowValue revision nodes) = .ok w.workflowDigest := by
  obtain ⟨-, -, order, d, -, hdigest, rfl⟩ := compileWorkflow_eq_ok.mp h
  exact ⟨rfl, hdigest⟩

/-- **When a workflow digest binds the nodes**: unless both workflows have one revision and nodes
that match, and some node differs in its retry class, its attempts or its compensation, or in a text
whose normal form is the same. -/
theorem digestBinds_iff {nodes nodes' : List WorkflowNode} {revision revision' : ℤ}
    {knownRecipes knownRecipes' knownRequirements knownRequirements' : Option (List String)}
    {w w' : CompiledWorkflow}
    (hw : compileWorkflow reprText reprValue P nodes revision knownRecipes knownRequirements =
      .ok w)
    (hw' : compileWorkflow reprText reprValue P nodes' revision' knownRecipes' knownRequirements' =
      .ok w')
    (hsha : CollisionFree P {workflowValue revision nodes, workflowValue revision' nodes'}) :
    DigestBinds w w' ↔
      (revision = revision' → List.Forall₂ (NodesMatch P) (byId nodes) (byId nodes') →
        List.Forall₂ UnseenAgree (byId nodes) (byId nodes')) := by
  obtain ⟨rfl, hdigest⟩ := digest_of_compileWorkflow hw
  obtain ⟨rfl, hdigest'⟩ := digest_of_compileWorkflow hw'
  obtain ⟨hrevision, hnodes⟩ := digest_workflowValue_isOk.mp ⟨_, hdigest⟩
  have hcaps : ∀ a ∈ byId w.nodes, ∀ cap, a.costCap = some cap → cap.natAbs ≤ 2 ^ 53 - 1 :=
    fun a ha => (hnodes a ((List.mergeSort_perm _ _).subset ha)).2
  have hsame : w.workflowDigest = w'.workflowDigest ↔
      revision = revision' ∧ List.Forall₂ (NodesMatch P) (byId w.nodes) (byId w'.nodes) := by
    rw [digest_eq_iff hsha hdigest hdigest', sameText_workflowValue, and_iff_left hrevision]
    refine and_congr_right fun _ => ⟨fun h => h.imp fun _ _ => And.left, fun h => ?_⟩
    exact List.forall₂_iff_zip.mpr ⟨h.length_eq, fun hab => ⟨List.forall₂_zip h hab,
      hcaps _ (List.of_mem_zip hab).1⟩⟩
  have hagree (hmatch : List.Forall₂ (NodesMatch P) (byId w.nodes) (byId w'.nodes)) :
      List.Forall₂ NodesAgree (byId w.nodes) (byId w'.nodes) ↔
        List.Forall₂ UnseenAgree (byId w.nodes) (byId w'.nodes) := by
    simp only [List.forall₂_iff_zip]
    exact and_congr_right fun _ => forall₂_congr fun a b => forall_congr' fun hab =>
      (List.forall₂_zip hmatch hab).agree_iff
  rw [DigestBinds, hsame, and_imp]
  exact forall_congr' fun _ => forall_congr' fun hmatch => hagree hmatch

end

/-- A node on its own, which may be tried this often. -/
def loneNode (maxAttempts : ℤ) : WorkflowNode := { nodeId := "a", kind := "read", maxAttempts }

theorem loneNode_compiles {maxAttempts : ℤ} (h : 1 ≤ maxAttempts) :
    ∃ w, compileWorkflow id (fun _ => "") Primitives.ascii [loneNode maxAttempts] = .ok w := by
  have hres : Resolved [loneNode maxAttempts] := ⟨List.nodup_singleton _, by simp [loneNode]⟩
  have hplain : ∀ node ∈ [loneNode maxAttempts], Plain none node := by
    rintro _ (_ | ⟨_, ⟨⟩⟩)
    exact ⟨rfl, nofun⟩
  refine (compileWorkflow_isOk hres hplain).mpr ⟨Nat.le_of_ble_eq_true rfl, ?_, ?_, by decide, ?_⟩
  · rintro _ (_ | ⟨_, ⟨⟩⟩)
    exact ⟨List.mem_cons_self, h, by simp [loneNode], nofun⟩
  · -- nothing depends on anything, so no chain has two nodes
    rintro (_ | ⟨a, _ | ⟨b, chain⟩⟩) hchain hlinks
    · exact Nat.zero_le _
    · exact Nat.le_of_ble_eq_true rfl
    · obtain rfl : a = loneNode maxAttempts := List.mem_singleton.mp (hchain List.mem_cons_self)
      exact absurd (List.isChain_cons_cons.mp hlinks).1 List.not_mem_nil
  · rintro _ (_ | ⟨_, ⟨⟩⟩) cap hcap
    cases hcap

theorem digestBinds_iff_loneNode :
    ∃ w, compileWorkflow id (fun _ => "") Primitives.ascii [loneNode 1] = .ok w ∧
      (DigestBinds w w ↔ ((0 : ℤ) = 0 →
        List.Forall₂ (NodesMatch Primitives.ascii) (byId [loneNode 1]) (byId [loneNode 1]) →
        List.Forall₂ UnseenAgree (byId [loneNode 1]) (byId [loneNode 1]))) := by
  obtain ⟨w, hw⟩ := loneNode_compiles (le_refl 1)
  exact ⟨w, hw, digestBinds_iff hw hw (collisionFree_of_subsingleton (by simp))⟩

/-- A node that is tried once and one that is tried twice give one digest. -/
theorem attempts_unbound :
    ∃ w w', compileWorkflow id (fun _ => "") Primitives.ascii [loneNode 1] = .ok w ∧
      compileWorkflow id (fun _ => "") Primitives.ascii [loneNode 2] = .ok w' ∧
      ¬DigestBinds w w' := by
  obtain ⟨w, hw⟩ := loneNode_compiles (le_refl 1)
  obtain ⟨w', hw'⟩ := loneNode_compiles (show (1 : ℤ) ≤ 2 by decide)
  refine ⟨w, w', hw, hw', fun hbinds => ?_⟩
  obtain ⟨hnodes, hdigest⟩ := digest_of_compileWorkflow hw
  obtain ⟨hnodes', hdigest'⟩ := digest_of_compileWorkflow hw'
  -- the projections of the two are one and the same
  have hsame : workflowValue 0 [loneNode 1] = workflowValue 0 [loneNode 2] := by
    simp only [workflowValue, List.mergeSort_singleton]
    rfl
  rw [hsame] at hdigest
  have hagree := hbinds (Except.ok.inj (hdigest.symm.trans hdigest'))
  rw [hnodes, hnodes', byId, byId, List.mergeSort_singleton, List.mergeSort_singleton,
    List.forall₂_cons] at hagree
  exact absurd hagree.1.maxAttempts (by decide)

end CyranoAgent
