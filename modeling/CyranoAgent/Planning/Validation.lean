import CyranoAgent.Planning.Review
import CyranoAgent.Planning.Subject
import Mathlib.Logic.Function.Basic

/-!
# Static plan validation

`validatePlan` runs the ten checks of a plan in their order and reports what each of them found. A
plan is ready for review when no check failed and none is unverifiable; `Ready` lists what this
says of the plan (`ready_of_validatePlan`).

The search for a cycle calls itself along the dependencies. `limit` is the number of nested calls
that the interpreter has left; beyond it the search raises.
-/

namespace CyranoAgent

namespace Planning

/-- `CHECK_IDS`. -/
inductive CheckId
  | planShape | requirementCoverage | testBinding | interfaceCompatibility | dagAcyclic
  | writeConflict | effectDeclaration | budgetBound | recipeCapability | writeScopeBounded
  deriving DecidableEq, Repr

/-- The statuses of a check. -/
inductive CheckStatus
  | passed | failed | unverifiable | notApplicable
  deriving DecidableEq, Repr

/-- `PlanCheck`. -/
structure PlanCheck where
  checkId : CheckId
  status : CheckStatus
  detail : String
  refs : List String := []
  deriving DecidableEq, Repr

/-- `PlanCheckReport`. -/
structure PlanCheckReport where
  checks : List PlanCheck
  violations : List String
  cyclePath : List String := []
  readyForReview : Bool := false
  deriving DecidableEq, Repr

/-- The registries that a plan is validated under. `verifiedNoChange` holds the requirements that
have evidence. -/
structure Registries where
  activeRequirements : Option (List String) := none
  verifiedNoChange : List String := []
  knownRecipes : Option (List String) := none
  knownInterfaces : List (String × String) := []

/-- What a check adds: its result, and the code of a failure. -/
structure Finding where
  check : PlanCheck
  violation : Option String := none

/-- `fail`. -/
def failed (checkId : CheckId) (code detail : String) (refs : List String := []) : Finding :=
  ⟨⟨checkId, .failed, detail, refs⟩, some code⟩

/-- `ok`. -/
def passed (checkId : CheckId) (detail : String) : Finding :=
  ⟨⟨checkId, .passed, detail, []⟩, none⟩

/-- `sorted(set(items))`. -/
def sortedSet (items : List String) : List String := sortedStrings items.dedup

/-- The unit of an id. -/
def unit? (units : List WorkUnitSpec) (unitId : String) : Option WorkUnitSpec :=
  units.find? fun u => u.unitId = unitId

/-- `{u.unit_id: u for u in units}`: the last unit of an id, in the place of the first. -/
def byId (units : List WorkUnitSpec) : List WorkUnitSpec :=
  units.foldl (fun result u =>
    if (unit? result u.unitId).isSome then result.map fun v => if v.unitId = u.unitId then u else v
    else result ++ [u]) []

/-! ### Cycles and reachability -/

/-- The colors of the search. -/
inductive Color
  | white | gray | black
  deriving DecidableEq, Repr

/-- The colors of the units. -/
abbrev Colors := String → Color

/-- The loop of `visit` over the dependencies of a node, `stack` ending in the node. -/
def visitDependencies (units : List WorkUnitSpec)
    (visit : String → Colors → Except Failure (List String × Colors)) (stack : List String) :
    List String → Colors → Except Failure (List String × Colors)
  | [], color => .ok ([], color)
  | dep :: deps, color =>
    if unit? units dep = none then visitDependencies units visit stack deps color
    else match color dep with
      | .gray => .ok (stack.dropWhile (· ≠ dep) ++ [dep], color)
      | .black => visitDependencies units visit stack deps color
      | .white =>
        match visit dep color with
        | .error e => .error e
        | .ok (found, color) =>
          if found ≠ [] then .ok (found, color)
          else visitDependencies units visit stack deps color

/-- `visit`, within `_find_cycle`. -/
def visit (units : List WorkUnitSpec) : ℕ → List String → String → Colors →
    Except Failure (List String × Colors)
  | 0, _, _, _ => .error (.python "RecursionError" "maximum recursion depth exceeded")
  | limit + 1, stack, node, color =>
    match visitDependencies units (visit units limit (stack ++ [node])) (stack ++ [node])
        (((unit? units node).map (·.dependencies)).getD []) (Function.update color node .gray) with
    | .error e => .error e
    | .ok (found, color) =>
      if found ≠ [] then .ok (found, color) else .ok ([], Function.update color node .black)

/-- The loop of `_find_cycle` over the nodes. -/
def findCycleFrom (units : List WorkUnitSpec) (limit : ℕ) :
    List WorkUnitSpec → Colors → Except Failure (List String)
  | [], _ => .ok []
  | u :: rest, color =>
    if color u.unitId = .white then
      match visit units limit [] u.unitId color with
      | .error e => .error e
      | .ok (found, color) => if found ≠ [] then .ok found else findCycleFrom units limit rest color
    else findCycleFrom units limit rest color

/-- `_find_cycle`. -/
def findCycle (units : List WorkUnitSpec) (limit : ℕ) : Except Failure (List String) :=
  findCycleFrom units limit units fun _ => .white

/-- Seeing a unit leaves fewer to see. -/
theorem length_unseen_lt {units : List WorkUnitSpec} {u : WorkUnitSpec} {seen : List String}
    (hu : u ∈ units) (hunseen : u.unitId ∉ seen) :
    (units.filter fun v => v.unitId ∉ u.unitId :: seen).length <
      (units.filter fun v => v.unitId ∉ seen).length := by
  have hfilter : (units.filter fun v => v.unitId ∉ u.unitId :: seen) =
      (units.filter fun v => v.unitId ∉ seen).filter fun v => v.unitId ≠ u.unitId := by
    rw [List.filter_filter]
    congr 1
    funext v
    simp [Bool.decide_and]
  rw [hfilter]
  refine List.length_filter_lt_length_iff_exists.mpr ⟨u, ?_, by simp⟩
  simpa using ⟨hu, hunseen⟩

/-- The loop of `_reachable`, with the top of the stack in front. -/
def reachableFrom (units : List WorkUnitSpec) (dst : String) (seen stack : List String) : Bool :=
  match stack with
  | [] => false
  | node :: stack =>
    if node = dst then true
    else if _hseen : node ∈ seen then reachableFrom units dst seen stack
    else match _hunit : unit? units node with
      | none => reachableFrom units dst seen stack
      | some u => reachableFrom units dst (node :: seen) (u.dependencies.reverse ++ stack)
termination_by ((units.filter fun u => u.unitId ∉ seen).length, stack.length)
decreasing_by
  · exact Prod.Lex.right _ (Nat.lt_succ_self _)
  · exact Prod.Lex.right _ (Nat.lt_succ_self _)
  · obtain rfl : u.unitId = node := by simpa using List.find?_some _hunit
    exact Prod.Lex.left _ _ (length_unseen_lt (List.mem_of_find?_eq_some _hunit) _hseen)

/-- `_reachable`. -/
def reachable (units : List WorkUnitSpec) (src dst : String) : Bool :=
  reachableFrom units dst [] [src]

/-! ### The checks -/

/-- A check that looks for what is bad: it fails with what it found, under a code. -/
def noneOf (checkId : CheckId) (code : String) (bad : List String) (detail : String)
    (passedDetail : String) : List Finding :=
  if bad ≠ [] then [failed checkId code detail bad] else [passed checkId passedDetail]

section

variable (reprText : String → String) (plan : GovernedWorkPlan) (registries : Registries)

/-- What is wrong with the shape of a unit. -/
def unitShape (u : WorkUnitSpec) : List Finding :=
  let missing := u.dependencies.filter fun dep => unit? (byId plan.units) dep = none
  (if missing ≠ [] ∨ u.unitId ∈ u.dependencies then
    [failed .planShape "MISSING_DEPENDENCY"
      (u.unitId ++ ": " ++ reprStrings reprText (sortedSet missing)) [u.unitId]] else []) ++
  (if u.requirementIds = [] ∨ u.acceptanceIds = [] then
    [failed .planShape "UNTRACEABLE_WORK" (u.unitId ++ " lacks requirement/acceptance ids")
      [u.unitId]] else []) ++
  (if u.writePaths = [] then
    [failed .planShape "PLAN_INCOMPLETE" (u.unitId ++ " declares no create/write targets")
      [u.unitId]] else [])

/-- What is wrong with the shape of the plan. -/
def shapeFailures : List Finding :=
  (if plan.units = [] then [failed .planShape "INVALID_PLAN" "work_units is empty"] else []) ++
  (if ¬(plan.units.map (·.unitId)).Nodup then
    [failed .planShape "INPUT_INVALID" "duplicate work unit ids"] else []) ++
  plan.units.flatMap (unitShape reprText plan)

/-- Check 1: units exist, ids are unique, references resolve. -/
def planShape : List Finding :=
  if shapeFailures reprText plan ≠ [] then shapeFailures reprText plan
  else [passed .planShape "shape ok"]

/-- The requirements with neither work nor evidence. -/
def uncovered : List String :=
  (registries.activeRequirements.getD plan.requirements).filter fun r =>
    (∀ u ∈ plan.units, r ∉ u.requirementIds) ∧ r ∉ registries.verifiedNoChange

/-- Check 2. -/
def requirementCoverage : List Finding :=
  noneOf .requirementCoverage "UNBOUND_REQUIREMENT" (uncovered plan registries)
    ("no work or verified_no_change evidence: " ++
      reprStrings reprText (uncovered plan registries)) "all covered"

/-- The ids of the units with a property. -/
def unitsWith (p : WorkUnitSpec → Prop) [DecidablePred p] : List String :=
  (plan.units.filter p).map (·.unitId)

/-- `not text`, for a text or `None`. -/
def Lacking (text : Option String) : Prop := text = none ∨ text = some ""

instance (text : Option String) : Decidable (Lacking text) := inferInstanceAs (Decidable (_ ∨ _))

/-- Check 3: every acceptance needs a recipe and an oracle. -/
def testBinding : List Finding :=
  let weak := unitsWith plan fun u => Lacking u.testRecipe ∨ Lacking u.testOracle
  noneOf .testBinding "TEST_RECIPE_MISSING" weak
    ("acceptance without trusted recipe/oracle: " ++ reprStrings reprText weak) "oracles bound"

/-- `produced.get(name)`: the last unit that produces a name. -/
def producer? (name : String) : Option String :=
  ((plan.units.filter fun u => name ∈ u.produces).map (·.unitId)).getLast?

/-- `interfaces.get(f"{unit_id}.{name}")`. -/
def interface? (unitId name : String) : Option String :=
  (registries.knownInterfaces.find? fun entry => entry.1 = unitId ++ "." ++ name).map Prod.snd

/-- The consumed names that are not produced, or under another contract. -/
def mismatched : List String :=
  plan.units.flatMap fun u => u.consumes.filterMap fun name =>
    match producer? plan name with
    | none => some (u.unitId ++ ":" ++ name ++ ":unproduced")
    | some producer =>
      if interface? registries producer name ≠ interface? registries u.unitId name then
        some (u.unitId ++ ":" ++ name ++ ":mismatch")
      else none

/-- Check 4. -/
def interfaceCompatibility : List Finding :=
  noneOf .interfaceCompatibility "INTERFACE_MISMATCH" (mismatched plan registries)
    ("; ".intercalate (mismatched plan registries)) "signatures align"

/-- Check 5, for the cycle that was found. -/
def dagAcyclic (cycle : List String) : List Finding :=
  noneOf .dagAcyclic "DAG_CYCLE" cycle (" -> ".intercalate cycle) "acyclic"

/-- The units that write a path, `writers[path]`. -/
def owners (path : String) : List String :=
  plan.units.flatMap fun u => (u.writePaths.filter (· = path)).map fun _ => u.unitId

/-- Two writers of a path are unordered. -/
def Unordered (left right : String) : Prop :=
  left ≠ right ∧ ¬(reachable (byId plan.units) left right ∨ reachable (byId plan.units) right left)

instance (left right : String) : Decidable (Unordered plan left right) :=
  inferInstanceAs (Decidable (_ ∧ _))

/-- The paths that are written by units without an order, `conflicts` up to the order and the
repetitions that `sorted(set(conflicts))` removes. -/
def conflicts : List String :=
  (plan.units.flatMap (·.writePaths)).filter fun path =>
    2 ≤ (owners plan path).length ∧
      ∃ left ∈ owners plan path, ∃ right ∈ owners plan path, Unordered plan left right

/-- Check 6: write-set conflicts need an explicit serialization edge. -/
def writeConflict : List Finding :=
  noneOf .writeConflict "RESOURCE_CONFLICT" (sortedSet (conflicts plan))
    ("unordered writers share " ++ reprStrings reprText (sortedSet (conflicts plan)))
    "writes serialized"

/-- Check 7: the effects of the units are on the plan. -/
def effectDeclaration : List Finding :=
  let undeclared := plan.units.flatMap fun u =>
    (u.effects.filter (· ∉ plan.externalEffects)).map fun e => u.unitId ++ ":" ++ e
  noneOf .effectDeclaration "UNDECLARED_EFFECT" undeclared
    ("unit effects absent from plan effects: " ++ reprStrings reprText undeclared)
    "effects declared"

/-- Check 8: a cap must exist and cover the unit caps. -/
def budgetBound : List Finding :=
  match plan.budgetCap with
  | none => [failed .budgetBound "BUDGET_UNBOUND" "no plan budget cap"]
  | some cap =>
    let uncapped := unitsWith plan fun u => u.costCap = none
    let total := (plan.units.map fun u => u.costCap.getD 0).sum
    if uncapped ≠ [] then
      [failed .budgetBound "BUDGET_UNBOUND"
        ("units without cost cap: " ++ reprStrings reprText uncapped) uncapped]
    else if cap < total then
      [failed .budgetBound "BUDGET_UNBOUND"
        ("unit caps " ++ toString total ++ " exceed plan cap " ++ toString cap)]
    else [passed .budgetBound "budget bounded"]

/-- Check 9: recipes must resolve to registered trusted recipes. -/
def recipeCapability : List Finding :=
  let known := registries.knownRecipes.getD []
  if known ≠ [] then
    let unknown := unitsWith plan fun u =>
      (u.testRecipe.any fun recipe => recipe ≠ "" ∧ recipe ∉ known) = true
    noneOf .recipeCapability "CAPABILITY_UNAVAILABLE" unknown
      ("unregistered recipes: " ++ reprStrings reprText unknown) "recipes known"
  else [⟨⟨.recipeCapability, .unverifiable, "no recipe registry supplied", []⟩, none⟩]

/-- A write path without bounds. -/
def Wild (path : String) : Prop :=
  path ∈ ["*", "**", "**/*"] ∨ path.toList.head? = some '/' ∨
    ".." ∈ (path.toList.splitOn '/').map String.ofList

instance (path : String) : Decidable (Wild path) := inferInstanceAs (Decidable (_ ∨ _))

/-- Check 10: no wildcard, absolute, or escaping path. -/
def writeScopeBounded : List Finding :=
  let wild := unitsWith plan fun u => ∃ path ∈ u.writePaths, Wild path
  noneOf .writeScopeBounded "UNBOUNDED_WRITE_SET" wild
    ("wildcard write scope: " ++ reprStrings reprText wild) "writes bounded"

/-- What the checks find, in their order. -/
def findings (cycle : List String) : List Finding :=
  planShape reprText plan ++ requirementCoverage reprText plan registries ++
    testBinding reprText plan ++ interfaceCompatibility plan registries ++ dagAcyclic cycle ++
    writeConflict reprText plan ++ effectDeclaration reprText plan ++ budgetBound reprText plan ++
    recipeCapability reprText plan registries ++ writeScopeBounded reprText plan

/-- The report of what was found. -/
def report (cycle : List String) (found : List Finding) : PlanCheckReport where
  checks := found.map (·.check)
  violations := found.filterMap (·.violation)
  cyclePath := cycle
  readyForReview := found.filterMap (·.violation) = [] ∧
    ∀ finding ∈ found, finding.check.status ≠ .unverifiable

/-- `validate_plan`. -/
def validatePlan (limit : ℕ) : Except Failure PlanCheckReport :=
  if (byId plan.units).length = plan.units.length then
    (findCycle (byId plan.units) limit).map fun cycle =>
      report cycle (findings reprText plan registries cycle)
  else .ok (report [] (findings reprText plan registries []))

end

/-! ### What a ready plan is -/

/-- What a report that is ready says of its plan, the search for a cycle having found `cycle`. -/
structure Ready (plan : GovernedWorkPlan) (registries : Registries) (cycle : List String) :
    Prop where
  nonempty : plan.units ≠ []
  unique : (plan.units.map (·.unitId)).Nodup
  resolved : ∀ u ∈ plan.units, ∀ dep ∈ u.dependencies, ∃ v ∈ plan.units, v.unitId = dep
  notSelf : ∀ u ∈ plan.units, u.unitId ∉ u.dependencies
  traceable : ∀ u ∈ plan.units, u.requirementIds ≠ [] ∧ u.acceptanceIds ≠ []
  writes : ∀ u ∈ plan.units, u.writePaths ≠ []
  covered : uncovered plan registries = []
  tested : ∀ u ∈ plan.units, ¬Lacking u.testRecipe ∧ ¬Lacking u.testOracle
  interfaces : mismatched plan registries = []
  acyclic : cycle = []
  serialized : conflicts plan = []
  declared : ∀ u ∈ plan.units, ∀ e ∈ u.effects, e ∈ plan.externalEffects
  budget : ∃ cap, plan.budgetCap = some cap ∧ (∀ u ∈ plan.units, u.costCap ≠ none) ∧
    (plan.units.map fun u => u.costCap.getD 0).sum ≤ cap
  recipes : ∃ known, registries.knownRecipes = some known ∧ known ≠ [] ∧
    ∀ u ∈ plan.units, ∀ recipe, u.testRecipe = some recipe → recipe = "" ∨ recipe ∈ known
  bounded : ∀ u ∈ plan.units, ∀ path ∈ u.writePaths, ¬Wild path

/-- Findings without a failure and without an open end. -/
def Clean (found : List Finding) : Prop :=
  ∀ finding ∈ found, finding.violation = none ∧ finding.check.status ≠ .unverifiable

section

variable {reprText : String → String} {plan : GovernedWorkPlan} {registries : Registries}
  {cycle : List String} {limit : ℕ}

theorem clean_append {found found' : List Finding} :
    Clean (found ++ found') ↔ Clean found ∧ Clean found' := List.forall_mem_append

theorem clean_passed (checkId : CheckId) (detail : String) : Clean [passed checkId detail] := by
  simp [Clean, passed]

theorem not_clean_failed (checkId : CheckId) (code detail : String) (refs : List String) :
    ¬Clean [failed checkId code detail refs] := by
  simp [Clean, failed]

/-- A check that looks for what is bad is clean when there is nothing bad. -/
theorem clean_noneOf {checkId : CheckId} {code detail passedDetail : String} {bad : List String} :
    Clean (noneOf checkId code bad detail passedDetail) ↔ bad = [] := by
  unfold noneOf
  split
  next hbad => exact iff_of_false (not_clean_failed _ _ _ _) hbad
  next hbad => exact iff_of_true (clean_passed _ _) (not_not.mp hbad)

theorem readyForReview_report {found : List Finding} :
    (report cycle found).readyForReview = true ↔ Clean found := by
  rw [report, decide_eq_true_eq, List.filterMap_eq_nil_iff]
  exact ⟨fun h finding hfinding => ⟨h.1 finding hfinding, h.2 finding hfinding⟩,
    fun h => ⟨fun finding hfinding => (h finding hfinding).1,
      fun finding hfinding => (h finding hfinding).2⟩⟩

theorem unit?_eq_none {units : List WorkUnitSpec} {unitId : String} :
    unit? units unitId = none ↔ ∀ u ∈ units, u.unitId ≠ unitId := by
  simp [unit?]

/-- Units with different ids are kept as they are. -/
theorem byId_eq_self {units : List WorkUnitSpec} (h : (units.map (·.unitId)).Nodup) :
    byId units = units := by
  -- the units before those that are still to come
  have hfold : ∀ rest result : List WorkUnitSpec, ((result ++ rest).map (·.unitId)).Nodup →
      rest.foldl (fun result u =>
        if (unit? result u.unitId).isSome then
          result.map fun v => if v.unitId = u.unitId then u else v
        else result ++ [u]) result = result ++ rest := by
    intro rest
    induction rest with
    | nil => intro result _; simp
    | cons u rest ih =>
      intro result hnodup
      have hnew : unit? result u.unitId = none := by
        refine unit?_eq_none.mpr fun v hv heq => ?_
        rw [List.map_append] at hnodup
        exact (List.nodup_append.mp hnodup).2.2 _ (List.mem_map_of_mem hv) u.unitId (by simp) heq
      rw [List.foldl_cons, hnew, Option.isSome_none, if_neg Bool.false_ne_true,
        ih (result ++ [u]) (by simpa using hnodup), List.append_assoc, List.singleton_append]
  exact hfold units [] (by simpa using h)

theorem unitsWith_eq_nil {p : WorkUnitSpec → Prop} [DecidablePred p] :
    unitsWith plan p = [] ↔ ∀ u ∈ plan.units, ¬p u := by
  simp [unitsWith]

theorem sortedSet_eq_nil {items : List String} : sortedSet items = [] ↔ items = [] := by
  simp [List.eq_nil_iff_forall_not_mem, sortedSet, sortedStrings]

/-- What is wrong with the shape of a plan is a failure. -/
theorem violation_shapeFailures {finding : Finding}
    (h : finding ∈ shapeFailures reprText plan) : finding.violation ≠ none := by
  simp only [shapeFailures, unitShape, List.mem_append, List.mem_flatMap, List.mem_ite_nil_right,
    List.mem_singleton] at h
  rcases h with (⟨-, rfl⟩ | ⟨-, rfl⟩) | ⟨u, -, (⟨-, rfl⟩ | ⟨-, rfl⟩) | ⟨-, rfl⟩⟩ <;>
    simp [failed]

/-- What the checks of the shape ask for. -/
theorem shapeFailures_eq_nil :
    shapeFailures reprText plan = [] ↔ plan.units ≠ [] ∧ (plan.units.map (·.unitId)).Nodup ∧
      ∀ u ∈ plan.units, ((∀ dep ∈ u.dependencies, ∃ v ∈ plan.units, v.unitId = dep) ∧
        u.unitId ∉ u.dependencies) ∧ (u.requirementIds ≠ [] ∧ u.acceptanceIds ≠ []) ∧
          u.writePaths ≠ [] := by
  simp only [shapeFailures, List.append_eq_nil_iff, ite_eq_right_iff, List.flatMap_eq_nil_iff,
    List.cons_ne_nil, imp_false, and_assoc, not_not]
  refine and_congr_right fun _ => and_congr_right fun hunique => forall₂_congr fun u _ => ?_
  simp only [unitShape, byId_eq_self hunique, List.append_eq_nil_iff, ite_eq_right_iff,
    List.cons_ne_nil, imp_false, not_or, and_assoc, not_not, List.filter_eq_nil_iff,
    decide_eq_true_eq, unit?_eq_none, not_forall, exists_prop]

/-- **When the shape of a plan is sound.** -/
theorem clean_planShape :
    Clean (planShape reprText plan) ↔ shapeFailures reprText plan = [] := by
  unfold planShape
  split
  next hbad =>
    refine iff_of_false (fun hclean => ?_) hbad
    obtain ⟨finding, hfinding⟩ := List.exists_mem_of_ne_nil _ hbad
    exact violation_shapeFailures hfinding (hclean finding hfinding).1
  next hbad => exact iff_of_true (clean_passed _ _) (not_not.mp hbad)

/-- The budget is bounded: there is a cap, every unit has one, and they fit. -/
theorem clean_budgetBound :
    Clean (budgetBound reprText plan) ↔ ∃ cap, plan.budgetCap = some cap ∧
      (∀ u ∈ plan.units, u.costCap ≠ none) ∧
        (plan.units.map fun u => u.costCap.getD 0).sum ≤ cap := by
  unfold budgetBound
  cases plan.budgetCap with
  | none => exact iff_of_false (not_clean_failed _ _ _ _) (by simp)
  | some cap =>
    simp only [Option.some.injEq, exists_eq_left']
    split
    next huncapped =>
      refine iff_of_false (not_clean_failed _ _ _ _) fun h => huncapped ?_
      exact unitsWith_eq_nil.mpr fun u hu => h.1 u hu
    next hcapped =>
      have hcaps := unitsWith_eq_nil.mp (not_not.mp hcapped)
      split
      next hover => exact iff_of_false (not_clean_failed _ _ _ _) fun h => absurd h.2 (by omega)
      next hfits => exact iff_of_true (clean_passed _ _) ⟨hcaps, by omega⟩

/-- The recipes are known: there is a registry, with every recipe in it. -/
theorem clean_recipeCapability :
    Clean (recipeCapability reprText plan registries) ↔ ∃ known,
      registries.knownRecipes = some known ∧ known ≠ [] ∧
        ∀ u ∈ plan.units, ∀ recipe, u.testRecipe = some recipe → recipe = "" ∨ recipe ∈ known := by
  unfold recipeCapability
  cases registries.knownRecipes with
  | none => simp [Clean]
  | some known =>
    simp only [Option.getD_some, Option.some.injEq, exists_eq_left']
    split
    next hsome =>
      rw [clean_noneOf, unitsWith_eq_nil, and_iff_right hsome]
      refine forall₂_congr fun u _ => ?_
      cases u.testRecipe with
      | none => simp
      | some recipe => simp [or_iff_not_imp_left]
    next hnone => simp [not_not.mp hnone, Clean]

/-- **What is clean in every check.** -/
theorem clean_findings :
    Clean (findings reprText plan registries cycle) ↔ Ready plan registries cycle := by
  simp only [findings, clean_append, clean_planShape, shapeFailures_eq_nil, requirementCoverage,
    testBinding, interfaceCompatibility, dagAcyclic, writeConflict, effectDeclaration,
    writeScopeBounded, clean_noneOf, unitsWith_eq_nil, sortedSet_eq_nil, clean_budgetBound,
    clean_recipeCapability]
  constructor
  · rintro ⟨⟨⟨⟨⟨⟨⟨⟨⟨⟨hsome, hunique, hshape⟩, hcovered⟩, htested⟩, hinterfaces⟩, hacyclic⟩,
      hserialized⟩, hdeclared⟩, hbudget⟩, hrecipes⟩, hbounded⟩
    exact {
      nonempty := hsome
      unique := hunique
      resolved := fun u hu => (hshape u hu).1.1
      notSelf := fun u hu => (hshape u hu).1.2
      traceable := fun u hu => (hshape u hu).2.1
      writes := fun u hu => (hshape u hu).2.2
      covered := hcovered
      tested := fun u hu => not_or.mp (htested u hu)
      interfaces := hinterfaces
      acyclic := hacyclic
      serialized := hserialized
      declared := fun u hu => by
        simpa using List.flatMap_eq_nil_iff.mp hdeclared u hu
      budget := hbudget
      recipes := hrecipes
      bounded := fun u hu path hpath hwild => hbounded u hu ⟨path, hpath, hwild⟩ }
  · intro h
    refine ⟨⟨⟨⟨⟨⟨⟨⟨⟨⟨h.nonempty, h.unique, fun u hu => ⟨⟨h.resolved u hu, h.notSelf u hu⟩,
      h.traceable u hu, h.writes u hu⟩⟩, h.covered⟩, fun u hu => not_or.mpr (h.tested u hu)⟩,
      h.interfaces⟩, h.acyclic⟩, h.serialized⟩, ?_⟩, h.budget⟩, h.recipes⟩, ?_⟩
    · refine List.flatMap_eq_nil_iff.mpr fun u hu => ?_
      simpa using h.declared u hu
    · rintro u hu ⟨path, hpath, hwild⟩
      exact h.bounded u hu path hpath hwild

/-- **What readiness says**: a report is ready exactly when its plan is sound in every check. -/
theorem readyForReview_iff {r : PlanCheckReport}
    (h : validatePlan reprText plan registries limit = .ok r) :
    r.readyForReview = true ↔ Ready plan registries r.cyclePath := by
  unfold validatePlan at h
  split at h
  next hsame =>
    cases hcycle : findCycle (byId plan.units) limit with
    | error failure => simp [hcycle, Except.map] at h
    | ok cycle =>
      rw [hcycle] at h
      cases h
      exact readyForReview_report.trans clean_findings
  next hsame =>
    cases h
    exact readyForReview_report.trans clean_findings

end

/-- A plan that is found ready. -/
theorem exists_ready (reprText : String → String) (plan : GovernedWorkPlan)
    (registries : Registries) (limit : ℕ)
    (h : (validatePlan reprText plan registries limit).map (·.readyForReview) = .ok true) :
    ∃ r, validatePlan reprText plan registries limit = .ok r ∧ r.readyForReview = true := by
  cases hrun : validatePlan reprText plan registries limit with
  | error e =>
    rw [hrun] at h
    cases h
  | ok r =>
    rw [hrun] at h
    exact ⟨r, rfl, Except.ok.inj h⟩

end Planning

end CyranoAgent
