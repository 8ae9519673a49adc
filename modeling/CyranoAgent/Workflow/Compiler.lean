import CyranoAgent.Lib.Levels
import CyranoAgent.Planning.Review
import CyranoAgent.Planning.Subject

/-!
# The workflow compiler

`compileWorkflow` checks the nodes one by one, settles them in rounds, each round taking the nodes
whose dependencies are settled, and digests what it checked. The rounds are the levels of the
dependency relation (`settleRounds_isOk`), so the depth limit is one on chains of dependencies, and
`compileWorkflow_isOk` says of nodes without conditions exactly which are compiled.
-/

namespace CyranoAgent

open Lib Planning

/-- The Python values that a condition tells apart. A mapping need not be a `dict`; `other` is every
type that is none of these. -/
inductive ConditionValue
  | none
  | bool (b : Bool)
  | int (n : ℤ)
  | float
  | str (s : String)
  | list (items : List ConditionValue)
  | mapping (isDict : Bool) (entries : List (PyKey × ConditionValue))
  | other

namespace ConditionValue

/-- `isinstance(value, (str, int, float, bool, type(None)))`. -/
def isScalar : ConditionValue → Bool
  | .none | .bool _ | .int _ | .float | .str _ => true
  | _ => false

/-- `mapping.get(key)`. -/
def get? (entries : List (PyKey × ConditionValue)) (key : String) : Option ConditionValue :=
  (entries.find? fun entry => entry.1 = .str key).map Prod.snd

theorem sizeOf_entry_lt {entries : List (PyKey × ConditionValue)}
    {entry : PyKey × ConditionValue} (h : entry ∈ entries) : sizeOf entry.2 < sizeOf entries := by
  have hmem := List.sizeOf_lt_of_mem h
  obtain ⟨key, value⟩ := entry
  simp only [Prod.mk.sizeOf_spec] at hmem ⊢
  omega

theorem sizeOf_get?_lt {entries : List (PyKey × ConditionValue)} {key : String}
    {value : ConditionValue} (h : get? entries key = some value) :
    sizeOf value < sizeOf entries := by
  obtain ⟨entry, hentry, rfl⟩ := Option.map_eq_some_iff.mp h
  exact sizeOf_entry_lt (List.mem_of_find?_eq_some hentry)

mutual

/-- The value that a digest sees: it takes neither floats nor mappings that are not a `dict`. -/
def toPy : ConditionValue → PyValue
  | .none => .none
  | .bool b => .bool b
  | .int n => .int n
  | .float => .other
  | .str s => .str s
  | .list items => .list (toPyItems items)
  | .mapping isDict entries => if isDict then .dict (toPyEntries entries) else .other
  | .other => .other

/-- The items of a list. -/
def toPyItems : List ConditionValue → List PyValue
  | [] => []
  | item :: items => toPy item :: toPyItems items

/-- The entries of a mapping. -/
def toPyEntries : List (PyKey × ConditionValue) → PyMapping
  | [] => []
  | (key, item) :: entries => (key, toPy item) :: toPyEntries entries

end

end ConditionValue

/-- `WorkflowNode`. -/
structure WorkflowNode where
  nodeId : String
  kind : String
  dependencies : List String := []
  requirementIds : List String := []
  acceptanceIds : List String := []
  condition : Option ConditionValue := none
  scopeRef : Option String := none
  resourceClaims : List String := []
  retryClass : String := "none"
  maxAttempts : ℤ := 1
  costCap : Option ℤ := none
  recipeId : Option String := none
  compensationRef : Option String := none

/-- `CompiledWorkflow`. -/
structure CompiledWorkflow where
  workflowDigest : String
  revision : ℤ
  nodes : List WorkflowNode
  order : List String
  budgetTotal : ℤ

/-- `NODE_KINDS`. -/
def nodeKinds : List String :=
  ["read", "agent_task", "verify", "human_decision", "join", "apply_candidate"]

/-- `CONDITION_OPS`. -/
def conditionOps : List String := ["eq", "ne", "and", "or", "not"]

/-- `MAX_DEPTH`. -/
def maxDepth : ℕ := 32

/-- `MAX_NODES`. -/
def maxNodes : ℕ := 256

/-- `CyranoError("INPUT_INVALID", detail)`. -/
def inputInvalid (detail : String) : Failure := .cyrano "INPUT_INVALID" detail

section

variable (reprText : String → String) (reprValue : ConditionValue → String)

/-- `walk`, below the top of a condition. -/
def walk (settled : List String) : ConditionValue → Except Failure Unit
  | .mapping isDict entries =>
    match ConditionValue.get? entries "op" with
    | some (.str op) =>
      if op = "field" then
        match ConditionValue.get? entries "node", ConditionValue.get? entries "name" with
        | some (.str ref), some (.str _) =>
          if ref ∈ settled then .ok ()
          else .error (inputInvalid ("field ref must name a settled ancestor: " ++
            reprValue (.mapping isDict entries)))
        | _, _ => .error (inputInvalid ("field ref must name a settled ancestor: " ++
            reprValue (.mapping isDict entries)))
      else if op = "literal" then
        if ((ConditionValue.get? entries "value").getD .none).isScalar then .ok ()
        else .error (inputInvalid "literal must be a scalar")
      else if op ∈ conditionOps then
        match _hargs : ConditionValue.get? entries "args" with
        | some (.list args) =>
          if args = [] then .error (inputInvalid (op ++ " needs args"))
          else if op = "not" ∧ args.length ≠ 1 then .error (inputInvalid "not takes one arg")
          else if (op = "eq" ∨ op = "ne") ∧ args.length ≠ 2 then
            .error (inputInvalid (op ++ " takes two args"))
          else args.attach.forM fun arg => walk settled arg.1
        | _ => .error (inputInvalid (op ++ " needs args"))
      else .error (inputInvalid ("condition op " ++ reprText op ++ " is not allowed"))
    | some (.list _) => .error (.python "TypeError" "unhashable type: 'list'")
    | some (.mapping _ _) => .error (.python "TypeError" "unhashable type: 'dict'")
    | some op => .error (inputInvalid ("condition op " ++ reprValue op ++ " is not allowed"))
    | none => .error (inputInvalid ("condition op " ++ reprValue .none ++ " is not allowed"))
  | value => if value.isScalar then .ok () else .error (inputInvalid "condition not an AST")
termination_by value => sizeOf value
decreasing_by
  have hmem := List.sizeOf_lt_of_mem arg.2
  have hlist := ConditionValue.sizeOf_get?_lt _hargs
  simp only [ConditionValue.mapping.sizeOf_spec, ConditionValue.list.sizeOf_spec] at hlist ⊢
  omega

/-- `_validate_condition`. -/
def validateCondition (settled : List String) (condition : ConditionValue) : Except Failure Unit :=
  if condition.isScalar then
    .error (inputInvalid "a condition is a typed AST node, not a scalar")
  else walk reprText reprValue settled condition

/-- What a node binds and the registry lacks, `set(requirement_ids) - known_requirements`. -/
def unbound (known : List String) (node : WorkflowNode) : List String :=
  node.requirementIds.filter (· ∉ known)

/-- The checks of a node, `seen` being the ids of the nodes before it. -/
def checkNode (knownRequirements : Option (List String)) (seen : List String)
    (node : WorkflowNode) : Except Failure Unit :=
  if node.nodeId ∈ seen then
    .error (inputInvalid ("duplicate node " ++ reprText node.nodeId))
  else if node.kind ∉ nodeKinds then
    .error (inputInvalid ("unknown node kind " ++ reprText node.kind))
  else if node.maxAttempts < 1 then .error (inputInvalid (node.nodeId ++ " max_attempts < 1"))
  else if node.kind ∈ ["agent_task", "verify", "apply_candidate"] ∧ node.costCap = none then
    .error (.cyrano "BUDGET_UNBOUND" (node.nodeId ++ " has no cost cap"))
  else match knownRequirements with
    | none => .ok ()
    | some known =>
      if unbound known node ≠ [] then
        .error (.cyrano "UNBOUND_REQUIREMENT" (node.nodeId ++ " binds unknown " ++
          reprStrings reprText (sortedStrings (unbound known node).dedup)))
      else .ok ()

/-- The loop over the nodes. -/
def checkNodes (knownRequirements : Option (List String)) :
    List String → List WorkflowNode → Except Failure Unit
  | _, [] => .ok ()
  | seen, node :: nodes =>
    match checkNode reprText knownRequirements seen node with
    | .error e => .error e
    | .ok () => checkNodes knownRequirements (seen ++ [node.nodeId]) nodes

/-- The nodes that a round takes: not settled, with settled dependencies, in the order of ids. -/
def readyNodes (nodes : List WorkflowNode) (settled : List String) : List WorkflowNode :=
  (nodes.filter fun node => node.nodeId ∉ settled ∧ node.dependencies ⊆ settled).mergeSort
    fun a b => a.nodeId ≤ b.nodeId

/-- What a round does with a node. -/
def settleNode (nodes : List WorkflowNode) (knownRecipes : Option (List String))
    (settled : List String) (node : WorkflowNode) : Except Failure (List String) :=
  let missing := node.dependencies.filter (· ∉ nodes.map (·.nodeId))
  if missing ≠ [] ∨ node.nodeId ∈ node.dependencies then
    .error (.cyrano "DAG_CYCLE" (node.nodeId ++ " depends on " ++
      if missing = [] then "itself" else reprStrings reprText (sortedStrings missing.dedup)))
  else
    match node.condition.elim (.ok ()) (validateCondition reprText reprValue settled) with
    | .error e => .error e
    | .ok () =>
      match node.recipeId, knownRecipes with
      | some recipe, some known =>
        if recipe ∉ known then
          .error (.cyrano "CAPABILITY_UNAVAILABLE" ("unregistered recipe " ++ reprText recipe))
        else .ok (settled ++ [node.nodeId])
      | _, _ => .ok (settled ++ [node.nodeId])

/-- The loop over the nodes of a round. The conditions see what the round has settled before. -/
def settleNodes (nodes : List WorkflowNode) (knownRecipes : Option (List String)) :
    List WorkflowNode → List String → Except Failure (List String)
  | [], settled => .ok settled
  | node :: ready, settled =>
    match settleNode reprText reprValue nodes knownRecipes settled node with
    | .error e => .error e
    | .ok settled => settleNodes nodes knownRecipes ready settled

/-- The rounds, `left` of them being left before `MAX_DEPTH`. The settled ids, in the order in
which they are settled, are `order`. -/
def settleRounds (nodes : List WorkflowNode) (knownRecipes : Option (List String)) :
    ℕ → List String → Except Failure (List String)
  | left, settled =>
    if nodes.length ≤ settled.length then .ok settled
    else if readyNodes nodes settled = [] then
      .error (.cyrano "DAG_CYCLE" ("unresolvable dependencies: " ++ reprStrings reprText
        (sortedStrings ((nodes.map (·.nodeId)).filter (· ∉ settled)))))
    else match left with
      | 0 => .error (.cyrano "DAG_CYCLE" "dependency depth exceeded")
      | left + 1 =>
        match settleNodes reprText reprValue nodes knownRecipes (readyNodes nodes settled) settled
        with
        | .error e => .error e
        | .ok settled => settleRounds nodes knownRecipes left settled

/-- The projection of a node. -/
def nodeProjection (node : WorkflowNode) : PyValue :=
  .dict [(.str "id", .str node.nodeId), (.str "kind", .str node.kind),
    (.str "deps", strings (sortedStrings node.dependencies)),
    (.str "req", strings (sortedStrings node.requirementIds)),
    (.str "acc", strings (sortedStrings node.acceptanceIds)),
    (.str "cond", (node.condition.map ConditionValue.toPy).getD .none),
    (.str "scope", optionalText node.scopeRef),
    (.str "res", strings (sortedStrings node.resourceClaims)),
    (.str "cap", optionalInt node.costCap), (.str "recipe", optionalText node.recipeId)]

/-- What a workflow digest is taken of. -/
def workflowValue (revision : ℤ) (nodes : List WorkflowNode) : PyValue :=
  .dict [(.str "revision", .int revision),
    (.str "nodes", .list ((nodes.mergeSort fun a b => a.nodeId ≤ b.nodeId).map nodeProjection))]

/-- `compile_workflow`. -/
def compileWorkflow (P : Primitives) (nodes : List WorkflowNode) (revision : ℤ := 0)
    (knownRecipes knownRequirements : Option (List String) := none) :
    Except Failure CompiledWorkflow :=
  if maxNodes < nodes.length then .error (inputInvalid "too many nodes")
  else do
    checkNodes reprText knownRequirements [] nodes
    let order ← settleRounds reprText reprValue nodes knownRecipes maxDepth []
    let workflowDigest ← digest P (workflowValue revision nodes)
    return {
      workflowDigest, revision, nodes, order
      budgetTotal := (nodes.map fun node => node.costCap.getD 0).sum }

/-- `units_to_nodes`. -/
def unitsToNodes (units : List WorkUnitSpec) : List WorkflowNode :=
  units.map fun u =>
    { nodeId := u.unitId
      kind := "agent_task"
      dependencies := u.dependencies
      requirementIds := u.requirementIds
      acceptanceIds := u.acceptanceIds
      resourceClaims := u.writePaths
      costCap := u.costCap
      recipeId := u.testRecipe }

end

/-! ### The checks of the nodes -/

section

variable {reprText : String → String} {reprValue : ConditionValue → String}
  {knownRecipes knownRequirements : Option (List String)} {nodes : List WorkflowNode}
  {node : WorkflowNode} {seen settled : List String} {k : ℕ}

/-- A node passes the checks of its own: a known kind, an attempt, a cap where it spends, and known
requirements. -/
structure Checked (knownRequirements : Option (List String)) (node : WorkflowNode) : Prop where
  kind : node.kind ∈ nodeKinds
  attempts : 1 ≤ node.maxAttempts
  capped : node.kind ∈ ["agent_task", "verify", "apply_candidate"] → node.costCap ≠ none
  bound : ∀ known, knownRequirements = some known → ∀ r ∈ node.requirementIds, r ∈ known

theorem checkNode_eq_ok {u : Unit} :
    checkNode reprText knownRequirements seen node = .ok u ↔
      node.nodeId ∉ seen ∧ Checked knownRequirements node := by
  unfold checkNode
  split
  next hseen => simp [hseen]
  next hseen =>
    rw [and_iff_right hseen]
    split
    next hkind => exact iff_of_false (by simp) fun h => hkind h.kind
    next hkind =>
      split
      next hattempts =>
        exact iff_of_false (by simp) fun h => absurd h.attempts (by omega)
      next hattempts =>
        split
        next hcap => exact iff_of_false (by simp) fun h => h.capped hcap.1 hcap.2
        next hcap =>
          have hrest : (∀ known, knownRequirements = some known →
              ∀ r ∈ node.requirementIds, r ∈ known) ↔ Checked knownRequirements node :=
            ⟨fun h => ⟨not_not.mp hkind, by omega, fun hspends hnone => hcap ⟨hspends, hnone⟩, h⟩,
              fun h => h.bound⟩
          rw [← hrest]
          cases knownRequirements with
          | none => simp
          | some known => simp [unbound]

/-- **What the loop over the nodes checks**: different ids, and every node for itself. -/
theorem checkNodes_eq_ok {u : Unit} (hseen : seen.Nodup) :
    checkNodes reprText knownRequirements seen nodes = .ok u ↔
      (seen ++ nodes.map (·.nodeId)).Nodup ∧ ∀ node ∈ nodes, Checked knownRequirements node := by
  induction nodes generalizing seen with
  | nil => simp [checkNodes, hseen]
  | cons node nodes ih =>
    rw [checkNodes, List.forall_mem_cons]
    cases hnode : checkNode reprText knownRequirements seen node with
    | error e =>
      refine iff_of_false (by simp) ?_
      rintro ⟨hnodup, hchecked, -⟩
      have hfresh : node.nodeId ∉ seen := fun hmem =>
        (List.nodup_append.mp hnodup).2.2 _ hmem node.nodeId (by simp) rfl
      cases hnode.symm.trans (checkNode_eq_ok (u := ()).mpr ⟨hfresh, hchecked⟩)
    | ok u =>
      obtain ⟨hfresh, hchecked⟩ := checkNode_eq_ok.mp hnode
      have hseen' : (seen ++ [node.nodeId]).Nodup := by
        refine List.nodup_append.mpr ⟨hseen, List.nodup_singleton _, fun a ha b hb => ?_⟩
        rw [List.mem_singleton.mp hb]
        exact fun heq => hfresh (heq ▸ ha)
      dsimp only
      rw [ih hseen', List.map_cons, List.append_assoc, List.singleton_append,
        and_iff_right hchecked]

/-! ### The rounds -/

/-- One node depends on another. -/
def Depends (nodes : List WorkflowNode) (a b : WorkflowNode) : Prop :=
  b ∈ nodes ∧ b.nodeId ∈ a.dependencies

/-- The nodes have different ids and their dependencies are nodes. -/
structure Resolved (nodes : List WorkflowNode) : Prop where
  unique : (nodes.map (·.nodeId)).Nodup
  closed : ∀ node ∈ nodes, ∀ dep ∈ node.dependencies, ∃ a ∈ nodes, a.nodeId = dep

/-- A node without a condition, of a known recipe. -/
structure Plain (knownRecipes : Option (List String)) (node : WorkflowNode) : Prop where
  condition : node.condition = none
  recipe : ∀ recipe known, node.recipeId = some recipe → knownRecipes = some known → recipe ∈ known

/-- The ids that `k` rounds settle, each once. -/
structure Settled (nodes : List WorkflowNode) (k : ℕ) (settled : List String) : Prop where
  nodup : settled.Nodup
  mem_iff : ∀ nodeId, nodeId ∈ settled ↔
    ∃ node ∈ nodes, node.nodeId = nodeId ∧ Below (Depends nodes) k node

theorem Resolved.eq_of_nodeId (hres : Resolved nodes) {a b : WorkflowNode} (ha : a ∈ nodes)
    (hb : b ∈ nodes) (heq : a.nodeId = b.nodeId) : a = b :=
  List.inj_on_of_nodup_map hres.unique ha hb heq

/-- A node is settled when it is below the level of the rounds. -/
theorem Settled.nodeId_mem_iff (hset : Settled nodes k settled) (hres : Resolved nodes)
    (hnode : node ∈ nodes) : node.nodeId ∈ settled ↔ Below (Depends nodes) k node := by
  rw [hset.mem_iff]
  constructor
  · rintro ⟨a, ha, heq, hbelow⟩
    exact hres.eq_of_nodeId ha hnode heq ▸ hbelow
  · intro hbelow
    exact ⟨node, hnode, rfl, hbelow⟩

/-- The dependencies of a node are settled when the node is below the next level. -/
theorem Settled.dependencies_subset_iff (hset : Settled nodes k settled) (hres : Resolved nodes)
    (hnode : node ∈ nodes) :
    node.dependencies ⊆ settled ↔ Below (Depends nodes) (k + 1) node := by
  constructor
  · rintro hdeps a ⟨ha, hdep⟩
    exact (hset.nodeId_mem_iff hres ha).mp (hdeps hdep)
  · intro hbelow dep hdep
    obtain ⟨a, ha, rfl⟩ := hres.closed node hnode dep hdep
    exact (hset.nodeId_mem_iff hres ha).mpr (hbelow a ⟨ha, hdep⟩)

theorem mem_readyNodes :
    node ∈ readyNodes nodes settled ↔
      node ∈ nodes ∧ node.nodeId ∉ settled ∧ node.dependencies ⊆ settled := by
  simp [readyNodes]

/-- **A round takes the nodes of the next level.** -/
theorem Settled.mem_readyNodes (hset : Settled nodes k settled) (hres : Resolved nodes) :
    node ∈ readyNodes nodes settled ↔ node ∈ nodes ∧ ¬Below (Depends nodes) k node ∧
      Below (Depends nodes) (k + 1) node := by
  rw [CyranoAgent.mem_readyNodes]
  refine and_congr_right fun hnode => ?_
  rw [hset.nodeId_mem_iff hres hnode, hset.dependencies_subset_iff hres hnode]

/-- A round settles each id once. -/
theorem nodup_round (hunique : (nodes.map (·.nodeId)).Nodup) (hsettled : settled.Nodup) :
    (settled ++ (readyNodes nodes settled).map (·.nodeId)).Nodup := by
  have hnodup : ((readyNodes nodes settled).map (·.nodeId)).Nodup := by
    have hperm : (readyNodes nodes settled).Perm (nodes.filter fun node =>
        node.nodeId ∉ settled ∧ node.dependencies ⊆ settled) := List.mergeSort_perm _ _
    rw [(hperm.map _).nodup_iff]
    exact hunique.sublist (List.filter_sublist.map _)
  refine List.nodup_append.mpr ⟨hsettled, hnodup, fun nodeId hold a ha => ?_⟩
  obtain ⟨node, hnode, rfl⟩ := List.mem_map.mp ha
  rintro rfl
  exact (mem_readyNodes.mp hnode).2.1 hold

/-- **What a round settles.** -/
theorem Settled.succ (hset : Settled nodes k settled) (hres : Resolved nodes) :
    Settled nodes (k + 1) (settled ++ (readyNodes nodes settled).map (·.nodeId)) := by
  constructor
  · exact nodup_round hres.unique hset.nodup
  · intro nodeId
    rw [List.mem_append, hset.mem_iff, List.mem_map]
    constructor
    · rintro (⟨node, hnode, rfl, hbelow⟩ | ⟨node, hready, rfl⟩)
      · exact ⟨node, hnode, rfl, hbelow.succ⟩
      · obtain ⟨hnode, -, hbelow⟩ := (hset.mem_readyNodes hres).mp hready
        exact ⟨node, hnode, rfl, hbelow⟩
    · rintro ⟨node, hnode, rfl, hbelow⟩
      by_cases hold : Below (Depends nodes) k node
      · exact .inl ⟨node, hnode, rfl, hold⟩
      · exact .inr ⟨node, (hset.mem_readyNodes hres).mpr ⟨hnode, hold, hbelow⟩, rfl⟩

/-- The rounds are over when every node is settled. -/
theorem Settled.length_le_iff (hset : Settled nodes k settled) (hres : Resolved nodes) :
    nodes.length ≤ settled.length ↔ ∀ node ∈ nodes, Below (Depends nodes) k node := by
  have hsub : settled ⊆ nodes.map (·.nodeId) := by
    intro nodeId hmem
    obtain ⟨node, hnode, rfl, -⟩ := (hset.mem_iff nodeId).mp hmem
    exact List.mem_map_of_mem hnode
  rw [← List.length_map (·.nodeId)]
  constructor
  · intro hle node hnode
    have hperm := (hset.nodup.subperm hsub).perm_of_length_le hle
    exact (hset.nodeId_mem_iff hres hnode).mp (hperm.mem_iff.mpr (List.mem_map_of_mem hnode))
  · intro hall
    refine (hres.unique.subperm fun nodeId hmem => ?_).length_le
    obtain ⟨node, hnode, rfl⟩ := List.mem_map.mp hmem
    exact (hset.nodeId_mem_iff hres hnode).mpr (hall node hnode)

/-- A node passes the checks of its placement after the nodes of `settled`: its condition, and its
recipe. -/
structure Passes (reprText : String → String) (reprValue : ConditionValue → String)
    (knownRecipes : Option (List String)) (settled : List String) (node : WorkflowNode) : Prop where
  condition : ∀ condition ∈ node.condition,
    validateCondition reprText reprValue settled condition = .ok ()
  recipe : ∀ recipe known, node.recipeId = some recipe → knownRecipes = some known → recipe ∈ known

/-- What comes before an id in an order. -/
def before (order : List String) (nodeId : String) : List String := order.takeWhile (· ≠ nodeId)

theorem before_append_cons {first rest : List String} {nodeId : String} (h : nodeId ∉ first) :
    before (first ++ nodeId :: rest) nodeId = first := by
  have hfirst : ∀ other ∈ first, (decide (other ≠ nodeId)) = true := fun other hother =>
    decide_eq_true fun heq => h (heq ▸ hother)
  rw [before, List.takeWhile_append_of_pos hfirst, List.takeWhile_cons_of_neg (by simp),
    List.append_nil]

theorem before_append {first rest : List String} {nodeId : String} (h : nodeId ∈ first) :
    before (first ++ rest) nodeId = before first nodeId := by
  obtain ⟨front, back, rfl, hnew⟩ := List.eq_append_cons_of_mem h
  rw [List.append_assoc, List.cons_append, before_append_cons hnew, before_append_cons hnew]

/-- **What settles a node**: known dependencies, not itself among them, and its own checks. -/
theorem settleNode_eq_ok {settled' : List String} :
    settleNode reprText reprValue nodes knownRecipes settled node = .ok settled' ↔
      (node.dependencies ⊆ nodes.map (·.nodeId) ∧ node.nodeId ∉ node.dependencies) ∧
        Passes reprText reprValue knownRecipes settled node ∧
          settled' = settled ++ [node.nodeId] := by
  have hmissing : node.dependencies.filter (· ∉ nodes.map (·.nodeId)) = [] ↔
      node.dependencies ⊆ nodes.map (·.nodeId) := by
    rw [List.filter_eq_nil_iff]
    exact forall₂_congr fun dep _ => by simp
  unfold settleNode
  dsimp only
  split
  next hbad =>
    refine iff_of_false (by simp) fun h => ?_
    exact hbad.elim (fun hno => hno (hmissing.mpr h.1.1)) fun hself => h.1.2 hself
  next hgood =>
    obtain ⟨hdeps, hself⟩ := not_or.mp hgood
    rw [and_iff_right ⟨hmissing.mp (not_not.mp hdeps), hself⟩]
    have hcondition : node.condition.elim (.ok ()) (validateCondition reprText reprValue settled) =
        .ok () ↔ ∀ condition ∈ node.condition,
          validateCondition reprText reprValue settled condition = .ok () := by
      cases node.condition <;> simp
    have hpasses (hrecipe : ∀ recipe known, node.recipeId = some recipe →
          knownRecipes = some known → recipe ∈ known) :
        Passes reprText reprValue knownRecipes settled node ↔ ∀ condition ∈ node.condition,
          validateCondition reprText reprValue settled condition = .ok () :=
      ⟨fun h => h.condition, fun h => ⟨h, hrecipe⟩⟩
    split
    next e he =>
      refine iff_of_false (by simp) fun h => ?_
      exact absurd (he.symm.trans (hcondition.mpr h.1.condition)) (by simp)
    next hok =>
      have hconditions := hcondition.mp hok
      cases hrecipe : node.recipeId with
      | none =>
        rw [hpasses (by simp [hrecipe]), and_iff_right hconditions, Except.ok.injEq, eq_comm]
      | some recipe =>
        cases knownRecipes with
        | none => rw [hpasses (by simp), and_iff_right hconditions, Except.ok.injEq, eq_comm]
        | some known =>
          dsimp only
          split
          next hunknown =>
            exact iff_of_false (by simp) fun h => hunknown (h.1.recipe _ _ hrecipe rfl)
          next hregistered =>
            rw [hpasses (by simpa [hrecipe] using hregistered), and_iff_right hconditions,
              Except.ok.injEq, eq_comm]

/-- **What settles the nodes of a round**: each passes after what comes before it. -/
theorem settleNodes_eq_ok {ready : List WorkflowNode} {settled' : List String}
    (hnodup : (settled ++ ready.map (·.nodeId)).Nodup) :
    settleNodes reprText reprValue nodes knownRecipes ready settled = .ok settled' ↔
      (∀ node ∈ ready,
        (node.dependencies ⊆ nodes.map (·.nodeId) ∧ node.nodeId ∉ node.dependencies) ∧
          Passes reprText reprValue knownRecipes
            (before (settled ++ ready.map (·.nodeId)) node.nodeId) node) ∧
        settled' = settled ++ ready.map (·.nodeId) := by
  induction ready generalizing settled with
  | nil => simp [settleNodes, eq_comm]
  | cons node ready ih =>
    have hlist : settled ++ (node :: ready).map (·.nodeId) =
        (settled ++ [node.nodeId]) ++ ready.map (·.nodeId) := by simp
    have hfresh : node.nodeId ∉ settled := fun hmem =>
      (List.nodup_append.mp hnodup).2.2 _ hmem _ List.mem_cons_self rfl
    have hbefore : before (settled ++ (node :: ready).map (·.nodeId)) node.nodeId = settled :=
      before_append_cons hfresh
    rw [settleNodes, List.forall_mem_cons, hbefore]
    rw [hlist] at hnodup ⊢
    cases hnode : settleNode reprText reprValue nodes knownRecipes settled node with
    | error e =>
      refine iff_of_false (by simp) fun h => ?_
      exact absurd (hnode.symm.trans (settleNode_eq_ok.mpr ⟨h.1.1.1, h.1.1.2, rfl⟩)) (by simp)
    | ok settled'' =>
      obtain ⟨hdeps, hpasses, rfl⟩ := settleNode_eq_ok.mp hnode
      dsimp only
      rw [ih hnodup, and_iff_right (show _ ∧ _ from ⟨hdeps, hpasses⟩)]

/-- The ids that `k` rounds place, in their order. -/
def placed (nodes : List WorkflowNode) : ℕ → List String
  | 0 => []
  | k + 1 => placed nodes k ++ (readyNodes nodes (placed nodes k)).map (·.nodeId)

theorem settled_placed (hres : Resolved nodes) : ∀ k, Settled nodes k (placed nodes k)
  | 0 => ⟨List.nodup_nil, by simp [placed, Below]⟩
  | k + 1 => (settled_placed hres k).succ hres

/-- Later rounds place behind. -/
theorem placed_prefix (nodes : List WorkflowNode) (k j : ℕ) :
    placed nodes k <+: placed nodes (k + j) := by
  induction j with
  | zero => exact List.prefix_rfl
  | succ j ih => exact ih.trans (List.prefix_append _ _)

/-- A later round does not change what comes before a node. -/
theorem before_placed {nodeId : String} (h : nodeId ∈ placed nodes k) (j : ℕ) :
    before (placed nodes (k + j)) nodeId = before (placed nodes k) nodeId := by
  obtain ⟨rest, hrest⟩ := placed_prefix nodes k j
  rw [← hrest, before_append h]

/-- When every node is placed, the rounds are over. -/
theorem placed_of_below (hres : Resolved nodes)
    (hall : ∀ node ∈ nodes, Below (Depends nodes) k node) (j : ℕ) :
    placed nodes (k + j) = placed nodes k := by
  induction j with
  | zero => rfl
  | succ j ih =>
    have hready : readyNodes nodes (placed nodes k) = [] := by
      refine List.eq_nil_iff_forall_not_mem.mpr fun node hnode => ?_
      obtain ⟨hmem, hnew, -⟩ := ((settled_placed hres k).mem_readyNodes hres).mp hnode
      exact hnew (hall node hmem)
    rw [← Nat.add_assoc, placed, ih, hready, List.map_nil, List.append_nil]

/-- **What the rounds settle**: in the rounds that are left, all the nodes when they are below the
level of the last one and each that is not settled yet passes after what comes before it. -/
theorem settleRounds_eq_ok (hres : Resolved nodes) (left : ℕ) {order : List String} :
    settleRounds reprText reprValue nodes knownRecipes left (placed nodes k) = .ok order ↔
      (∀ node ∈ nodes, Below (Depends nodes) (k + left) node) ∧
        (∀ node ∈ nodes, ¬ Below (Depends nodes) k node → Passes reprText reprValue knownRecipes
          (before (placed nodes (k + left)) node.nodeId) node) ∧
        order = placed nodes (k + left) := by
  induction left generalizing k with
  | zero =>
    have hset := settled_placed hres k
    rw [settleRounds, Nat.add_zero, ← hset.length_le_iff hres]
    split
    next hall =>
      have hbelow := (hset.length_le_iff hres).mp hall
      simp only [hall, true_and, Except.ok.injEq]
      rw [and_iff_right fun node hnode hnew => absurd (hbelow node hnode) hnew, eq_comm]
    next hsome =>
      refine iff_of_false ?_ fun h => hsome h.1
      split <;> simp
  | succ left ih =>
    have hset := settled_placed hres k
    rw [settleRounds]
    split
    next hall =>
      have hbelow := (hset.length_le_iff hres).mp hall
      rw [and_iff_right fun node hnode => (hbelow node hnode).mono (Nat.le_add_right _ _),
        and_iff_right fun node hnode hnew => absurd (hbelow node hnode) hnew,
        placed_of_below hres hbelow, Except.ok.injEq, eq_comm]
    next hsome =>
      split
      next hstuck =>
        -- a round without ready nodes is one that settles nothing new
        refine iff_of_false (by simp) fun h => hsome ?_
        refine (hset.length_le_iff hres).mpr fun node hnode => ?_
        have hstill : ∀ a, a ∈ nodes → Below (Depends nodes) (k + 1) a →
            Below (Depends nodes) k a := by
          intro a ha hnext
          by_contra hold
          have hready := (hset.mem_readyNodes hres).mpr ⟨ha, hold, hnext⟩
          rw [hstuck] at hready
          cases hready
        exact below_of_stagnates (s := (· ∈ nodes)) (fun _ a _ hdep => hdep.1) hstill (left + 1)
          hnode (h.1 node hnode)
      next hready =>
        have hlevel : k + (left + 1) = k + 1 + left := by omega
        have hreadyPasses : (∀ node ∈ readyNodes nodes (placed nodes k),
            (node.dependencies ⊆ nodes.map (·.nodeId) ∧ node.nodeId ∉ node.dependencies) ∧
              Passes reprText reprValue knownRecipes
                (before (placed nodes (k + 1)) node.nodeId) node) ↔
            ∀ node ∈ nodes, ¬ Below (Depends nodes) k node → Below (Depends nodes) (k + 1) node →
              Passes reprText reprValue knownRecipes
                (before (placed nodes (k + (left + 1))) node.nodeId) node := by
          have hbefore {node : WorkflowNode} (hnode : node ∈ nodes)
              (hbelow : Below (Depends nodes) (k + 1) node) :
              before (placed nodes (k + (left + 1))) node.nodeId =
                before (placed nodes (k + 1)) node.nodeId := by
            rw [hlevel, before_placed]
            exact ((settled_placed hres (k + 1)).nodeId_mem_iff hres hnode).mpr hbelow
          constructor
          · intro h node hnode hnew hbelow
            rw [hbefore hnode hbelow]
            exact (h node ((hset.mem_readyNodes hres).mpr ⟨hnode, hnew, hbelow⟩)).2
          · intro h node hmem
            obtain ⟨hnode, hnew, hbelow⟩ := (hset.mem_readyNodes hres).mp hmem
            obtain ⟨-, hfresh, hdeps⟩ := mem_readyNodes.mp hmem
            refine ⟨⟨fun dep hdep => ?_, fun hself => hfresh (hdeps hself)⟩, ?_⟩
            · obtain ⟨a, ha, rfl⟩ := hres.closed node hnode dep hdep
              exact List.mem_map_of_mem ha
            · rw [← hbefore hnode hbelow]
              exact h node hnode hnew hbelow
        have hround (settled' : List String) : settleNodes reprText reprValue nodes knownRecipes
            (readyNodes nodes (placed nodes k)) (placed nodes k) = .ok settled' ↔ _ :=
          settleNodes_eq_ok (settled_placed hres (k + 1)).nodup
        rcases hrun : settleNodes reprText reprValue nodes knownRecipes
            (readyNodes nodes (placed nodes k)) (placed nodes k) with e | settled'
        · refine iff_of_false (by simp) fun h => ?_
          have hok := (hround (placed nodes (k + 1))).mpr
            ⟨hreadyPasses.mpr fun node hnode hnew _ => h.2.1 node hnode hnew, rfl⟩
          cases hrun.symm.trans hok
        · obtain ⟨hpasses, rfl⟩ := (hround _).mp hrun
          refine (ih (k := k + 1)).trans ?_
          rw [← hlevel]
          refine and_congr_right fun _ => and_congr_left fun _ => ?_
          constructor
          · intro h node hnode hnew
            by_cases hbelow : Below (Depends nodes) (k + 1) node
            · exact hreadyPasses.mp hpasses node hnode hnew hbelow
            · exact h node hnode hbelow
          · intro h node hnode hnew
            exact h node hnode fun hold => hnew hold.succ

/-- Plain nodes are settled in the rounds that are left exactly when all of them are below the level
of the last one. -/
theorem settleRounds_isOk (reprText : String → String) (reprValue : ConditionValue → String)
    (hres : Resolved nodes) (hplain : ∀ node ∈ nodes, Plain knownRecipes node) (left : ℕ) :
    (∃ order,
      settleRounds reprText reprValue nodes knownRecipes left (placed nodes k) = .ok order) ↔
      ∀ node ∈ nodes, Below (Depends nodes) (k + left) node := by
  have hpasses : ∀ node ∈ nodes, ∀ settled,
      Passes reprText reprValue knownRecipes settled node := by
    intro node hnode settled
    refine ⟨fun condition hcondition => ?_, (hplain node hnode).recipe⟩
    rw [(hplain node hnode).condition] at hcondition
    cases hcondition
  simp only [settleRounds_eq_ok hres, exists_and_left, exists_eq, and_true]
  exact and_iff_left fun node hnode _ => hpasses node hnode _

/-- No chain of dependencies has more than `depth` nodes. -/
def ChainsWithin (depth : ℕ) (nodes : List WorkflowNode) : Prop :=
  ∀ chain : List WorkflowNode, chain ⊆ nodes →
    chain.IsChain (fun a b => b.nodeId ∈ a.dependencies) → chain.length ≤ depth

/-- **The rounds measure chains of dependencies.** -/
theorem below_iff_chainsWithin {depth : ℕ} :
    (∀ node ∈ nodes, Below (Depends nodes) depth node) ↔ ChainsWithin depth nodes := by
  constructor
  · intro hbelow chain hchain hlinks
    cases chain with
    | nil => exact Nat.zero_le depth
    | cons node chain =>
      refine below_iff.mp (hbelow node (hchain List.mem_cons_self)) chain ?_
      exact hlinks.imp_of_mem_imp fun a b _ hb hdep => ⟨hchain hb, hdep⟩
  · intro hwithin node hnode
    refine below_iff.mpr fun chain hlinks => ?_
    refine hwithin (node :: chain) ?_ (hlinks.imp fun a b hdep => hdep.2)
    have hmem : ∀ {first : WorkflowNode} {rest : List WorkflowNode}, first ∈ nodes →
        (first :: rest).IsChain (Depends nodes) → first :: rest ⊆ nodes := by
      intro first rest hfirst hlinks
      induction rest generalizing first with
      | nil => simpa using hfirst
      | cons a rest ih =>
        obtain ⟨hdep, hlinks⟩ := List.isChain_cons_cons.mp hlinks
        exact List.cons_subset.mpr ⟨hfirst, ih hdep.1 hlinks⟩
    exact hmem hnode hlinks

/-! ### The digest -/

/-- The keys of the documents that the compiler hashes. -/
def workflowKeys : List String :=
  ["id", "kind", "deps", "req", "acc", "cond", "scope", "res", "cap", "recipe", "revision", "nodes"]

theorem ascii_workflowKeys : asciiKeys workflowKeys = true := by decide

theorem normalize_strings_isOk {P : Primitives} (items : List String) :
    ∃ v, normalize P (strings items) = .ok v := by
  refine normalize_list_isOk.mpr fun item hitem => ?_
  obtain ⟨text, -, rfl⟩ := List.mem_map.mp hitem
  exact ⟨_, normalize_str text⟩

theorem normalize_optionalText_isOk {P : Primitives} (text : Option String) :
    ∃ v, normalize P (optionalText text) = .ok v := by
  cases text with
  | none => exact ⟨.null, by rw [optionalText, normalize]⟩
  | some text => exact ⟨_, normalize_str text⟩

theorem normalize_optionalInt_isOk {P : Primitives} {number : Option ℤ} :
    (∃ v, normalize P (optionalInt number) = .ok v) ↔
      ∀ n, number = some n → n.natAbs ≤ 2 ^ 53 - 1 := by
  cases number with
  | none => exact iff_of_true ⟨.null, by rw [optionalInt, normalize]⟩ (by simp)
  | some n => simp [optionalInt, normalize_int_eq_ok]

/-- The projection of a node has a normal form when its condition has one and its cap is in
range. -/
theorem normalize_nodeProjection_isOk {P : Primitives} :
    (∃ v, normalize P (nodeProjection node) = .ok v) ↔
      (∃ v, normalize P ((node.condition.map ConditionValue.toPy).getD .none) = .ok v) ∧
        ∀ cap, node.costCap = some cap → cap.natAbs ≤ 2 ^ 53 - 1 := by
  refine (normalize_record_isOk ascii_workflowKeys [("id", .str node.nodeId),
    ("kind", .str node.kind), ("deps", strings (sortedStrings node.dependencies)),
    ("req", strings (sortedStrings node.requirementIds)),
    ("acc", strings (sortedStrings node.acceptanceIds)),
    ("cond", (node.condition.map ConditionValue.toPy).getD .none),
    ("scope", optionalText node.scopeRef),
    ("res", strings (sortedStrings node.resourceClaims)),
    ("cap", optionalInt node.costCap), ("recipe", optionalText node.recipeId)] (by simp)
    (by simp [workflowKeys])).trans ?_
  simp [normalize_strings_isOk, normalize_optionalText_isOk, normalize_optionalInt_isOk]

/-- A workflow has a digest when its revision and caps are in range and its conditions normal. -/
theorem digest_workflowValue_isOk {P : Primitives} {revision : ℤ} :
    (∃ d, digest P (workflowValue revision nodes) = .ok d) ↔
      revision.natAbs ≤ 2 ^ 53 - 1 ∧ ∀ node ∈ nodes,
        (∃ v, normalize P ((node.condition.map ConditionValue.toPy).getD .none) = .ok v) ∧
          ∀ cap, node.costCap = some cap → cap.natAbs ≤ 2 ^ 53 - 1 := by
  rw [digest_isOk]
  refine (normalize_record_isOk ascii_workflowKeys [("revision", .int revision),
    ("nodes", .list ((nodes.mergeSort fun a b => a.nodeId ≤ b.nodeId).map nodeProjection))]
    (by simp) (by simp [workflowKeys])).trans ?_
  simp [normalize_list_isOk, normalize_nodeProjection_isOk, normalize_int_eq_ok]

/-- **What a compilation goes through**: the limit on size, the checks of the nodes, the rounds and
the digest. -/
theorem compileWorkflow_eq_ok {P : Primitives} {revision : ℤ} {w : CompiledWorkflow} :
    compileWorkflow reprText reprValue P nodes revision knownRecipes knownRequirements = .ok w ↔
      nodes.length ≤ maxNodes ∧ checkNodes reprText knownRequirements [] nodes = .ok () ∧
        ∃ order workflowDigest,
          settleRounds reprText reprValue nodes knownRecipes maxDepth [] = .ok order ∧
          digest P (workflowValue revision nodes) = .ok workflowDigest ∧
          w = ⟨workflowDigest, revision, nodes, order,
            (nodes.map fun node => node.costCap.getD 0).sum⟩ := by
  unfold compileWorkflow
  split
  next hlarge => exact iff_of_false (by simp) fun h => absurd h.1 (by omega)
  next hsmall =>
    rw [and_iff_right (by omega)]
    rcases checkNodes reprText knownRequirements [] nodes with e | u
    · exact iff_of_false (by rintro ⟨⟩) (by simp)
    rcases settleRounds reprText reprValue nodes knownRecipes maxDepth [] with e | order
    · exact iff_of_false (by rintro ⟨⟩) (by simp)
    rcases digest P (workflowValue revision nodes) with e | d
    · exact iff_of_false (by rintro ⟨⟩) (by simp)
    · constructor
      · intro h
        cases h
        exact ⟨rfl, order, d, rfl, rfl, rfl⟩
      · rintro ⟨-, _, _, ⟨⟩, ⟨⟩, rfl⟩
        rfl

/-- **What is compiled**, of resolved nodes without conditions and of known recipes: what keeps the
limits on size and depth, passes the checks of the nodes and has integers in range. -/
theorem compileWorkflow_isOk {P : Primitives} {revision : ℤ} (hres : Resolved nodes)
    (hplain : ∀ node ∈ nodes, Plain knownRecipes node) :
    (∃ w, compileWorkflow reprText reprValue P nodes revision knownRecipes knownRequirements =
        .ok w) ↔
      nodes.length ≤ maxNodes ∧ (∀ node ∈ nodes, Checked knownRequirements node) ∧
        ChainsWithin maxDepth nodes ∧ revision.natAbs ≤ 2 ^ 53 - 1 ∧
          ∀ node ∈ nodes, ∀ cap, node.costCap = some cap → cap.natAbs ≤ 2 ^ 53 - 1 := by
  have hchecked : checkNodes reprText knownRequirements [] nodes = .ok () ↔
      ∀ node ∈ nodes, Checked knownRequirements node := by
    rw [checkNodes_eq_ok List.nodup_nil, List.nil_append, and_iff_right hres.unique]
  have hrounds : (∃ order,
      settleRounds reprText reprValue nodes knownRecipes maxDepth [] = .ok order) ↔ _ :=
    settleRounds_isOk (k := 0) reprText reprValue hres hplain maxDepth
  rw [Nat.zero_add, below_iff_chainsWithin] at hrounds
  have hdigest : (∃ d, digest P (workflowValue revision nodes) = .ok d) ↔
      revision.natAbs ≤ 2 ^ 53 - 1 ∧
        ∀ node ∈ nodes, ∀ cap, node.costCap = some cap → cap.natAbs ≤ 2 ^ 53 - 1 := by
    refine digest_workflowValue_isOk.trans (and_congr_right fun _ => forall₂_congr fun node h => ?_)
    refine and_iff_right ⟨.null, ?_⟩
    rw [(hplain node h).condition, Option.map_none, Option.getD_none, normalize]
  rw [← hchecked, ← hrounds, ← hdigest]
  constructor
  · rintro ⟨w, h⟩
    obtain ⟨hsize, hchecks, order, d, horder, hdigested, -⟩ := compileWorkflow_eq_ok.mp h
    exact ⟨hsize, hchecks, ⟨order, horder⟩, d, hdigested⟩
  · rintro ⟨hsize, hchecks, ⟨order, horder⟩, d, hdigested⟩
    exact ⟨_, compileWorkflow_eq_ok.mpr ⟨hsize, hchecks, order, d, horder, hdigested, rfl⟩⟩

end

end CyranoAgent
