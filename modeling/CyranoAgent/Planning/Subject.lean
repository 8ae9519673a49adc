import CyranoAgent.Contracts.Canonical

/-!
# Plan review subjects

A governed plan, and the sealed subject that reviews and approvals bind: `buildSubject` projects
the plan without its presentation, refuses documents that refer back to a subject or an
approval, and digests the rest; `subjectDigest` is the digest that a decision names.
-/

namespace CyranoAgent

namespace Planning

/-- `PRESENTATION_KEYS`. -/
def presentationKeys : List String :=
  ["progress", "display_text", "cursor", "review_response", "approval_ref",
    "execution_permit_ref", "signature", "execution_result", "title", "notes"]

/-- `WorkUnitSpec`. -/
structure WorkUnitSpec where
  unitId : String
  requirementIds : List String
  acceptanceIds : List String
  dependencies : List String := []
  writePaths : List String := []
  readRefs : List String := []
  consumes : List String := []
  produces : List String := []
  exclusiveResources : List String := []
  testRecipe : Option String := none
  testOracle : Option String := none
  costCap : Option ℤ := none
  effects : List String := []
  recovery : Option String := none
  owner : String := "implementer"
  deriving DecidableEq

/-- `GovernedWorkPlan`. -/
structure GovernedWorkPlan where
  planId : String
  revision : ℤ
  requirements : List String
  units : List WorkUnitSpec
  deliveryMode : String := "patch_only"
  budgetCap : Option ℤ := none
  externalEffects : List String := []
  rollback : Option String := none
  deriving DecidableEq

/-- `PlanReviewSubject`. -/
structure PlanReviewSubject where
  subjectId : String
  planId : String
  revision : ℤ
  scope : List (String × String)
  requirementsDigest : String
  workPlanDigest : String
  sourceSnapshotDigest : String
  testPlanDigest : String
  budgetCap : Option ℤ
  externalEffects : List String
  recoveryRef : Option String
  deriving DecidableEq

mutual

/-- `_strip_presentation`. -/
def stripPresentation : PyValue → PyValue
  | .list items => .list (stripItems items)
  | .dict entries => .dict (stripEntries entries)
  | value => value

/-- `[_strip_presentation(v) for v in value]`. -/
def stripItems : List PyValue → List PyValue
  | [] => []
  | item :: items => stripPresentation item :: stripItems items

/-- The entries of a mapping that are not presentation. -/
def stripEntries : List (PyKey × PyValue) → List (PyKey × PyValue)
  | [] => []
  | (key, item) :: entries =>
    if presentationKeys.any fun name => key = .str name then stripEntries entries
    else (key, stripPresentation item) :: stripEntries entries

end

mutual

/-- `_reject_subject_refs`. The text of a key that is not a string is not told apart. -/
def rejectSubjectRefs : PyValue → String → Except Failure Unit
  | .list items, path => rejectItems items path 0
  | .dict entries, path => rejectEntries entries path
  | _, _ => .ok ()

/-- The loop over a list. -/
def rejectItems : List PyValue → String → ℕ → Except Failure Unit
  | [], _, _ => .ok ()
  | item :: items, path, index =>
    match rejectSubjectRefs item (path ++ "[" ++ toString index ++ "]") with
    | .error e => .error e
    | .ok _ => rejectItems items path (index + 1)

/-- The loop over a mapping. -/
def rejectEntries : List (PyKey × PyValue) → String → Except Failure Unit
  | [], _ => .ok ()
  | (.other, item) :: entries, path =>
    match rejectSubjectRefs item (path ++ ".?") with
    | .error e => .error e
    | .ok _ => rejectEntries entries path
  | (.str key, item) :: entries, path =>
    if key ∈ ["subject_digest", "approval_receipt", "permit"] then
      .error (.cyrano "INVALID_SUBJECT_PROJECTION"
        (path ++ "." ++ key ++ " feeds back into the subject"))
    else
      match rejectSubjectRefs item (path ++ "." ++ key) with
      | .error e => .error e
      | .ok _ => rejectEntries entries path

end

/-- A list of strings as a value. -/
def strings (items : List String) : PyValue := .list (items.map .str)

/-- `sorted(items)`. -/
def sortedStrings (items : List String) : List String := items.mergeSort (· ≤ ·)

theorem perm_sortedStrings (items : List String) : (sortedStrings items).Perm items :=
  List.mergeSort_perm _ _

theorem mem_sortedStrings {items : List String} {text : String} :
    text ∈ sortedStrings items ↔ text ∈ items :=
  (perm_sortedStrings items).mem_iff

theorem sortedStrings_eq_iff {items items' : List String} :
    sortedStrings items = sortedStrings items' ↔ items.Perm items' := by
  have hsorted (items : List String) : (sortedStrings items).Pairwise (· ≤ ·) :=
    List.pairwise_mergeSort' _ items
  constructor
  · intro h
    exact (perm_sortedStrings items).symm.trans (h ▸ perm_sortedStrings items')
  · intro h
    have hperm := (perm_sortedStrings items).trans (h.trans (perm_sortedStrings items').symm)
    exact hperm.eq_of_pairwise' (hsorted items) (hsorted items')

/-- A string or `None`. -/
def optionalText : Option String → PyValue
  | some s => .str s
  | none => .none

/-- An integer or `None`. -/
def optionalInt : Option ℤ → PyValue
  | some n => .int n
  | none => .none

/-- The projection of a unit. -/
def unitProjection (u : WorkUnitSpec) : PyValue :=
  .dict [(.str "unit_id", .str u.unitId),
    (.str "requirement_ids", strings (sortedStrings u.requirementIds)),
    (.str "acceptance_ids", strings (sortedStrings u.acceptanceIds)),
    (.str "dependencies", strings (sortedStrings u.dependencies)),
    (.str "write_paths", strings (sortedStrings u.writePaths)),
    (.str "consumes", strings (sortedStrings u.consumes)),
    (.str "produces", strings (sortedStrings u.produces)),
    (.str "exclusive_resources", strings (sortedStrings u.exclusiveResources)),
    (.str "test_recipe", optionalText u.testRecipe),
    (.str "test_oracle", optionalText u.testOracle),
    (.str "cost_cap", optionalInt u.costCap),
    (.str "effects", strings (sortedStrings u.effects)),
    (.str "recovery", optionalText u.recovery), (.str "owner", .str u.owner)]

/-- `plan_projection`. -/
def planProjection (plan : GovernedWorkPlan) : PyValue :=
  .dict [(.str "plan_id", .str plan.planId), (.str "revision", .int plan.revision),
    (.str "delivery_mode", .str plan.deliveryMode),
    (.str "budget_cap", optionalInt plan.budgetCap),
    (.str "external_effects", strings (sortedStrings plan.externalEffects)),
    (.str "rollback", optionalText plan.rollback),
    (.str "requirements", strings (sortedStrings plan.requirements)),
    (.str "units", .list ((plan.units.mergeSort fun u v => u.unitId ≤ v.unitId).map
      unitProjection))]

/-- A mapping of strings as a value. -/
def textMapping (entries : List (String × String)) : PyValue :=
  .dict (entries.map fun entry => (.str entry.1, .str entry.2))

section

variable (P : Primitives)

/-- `build_subject`. -/
def buildSubject (plan : GovernedWorkPlan) (requirementsDoc sourceSnapshot : PyMapping)
    (scope : List (String × String)) (subjectId : String) : Except Failure PlanReviewSubject := do
  let projection := stripPresentation (planProjection plan)
  rejectSubjectRefs projection "plan"
  rejectSubjectRefs (textMapping scope) "scope"
  rejectSubjectRefs (.dict requirementsDoc) "requirements"
  rejectSubjectRefs (.dict sourceSnapshot) "source_snapshot"
  if plan.requirements = [] then .error (.cyrano "INVALID_PLAN" "a plan needs requirements")
  else do
    let requirementsDigest ← digest P (stripPresentation (.dict requirementsDoc))
    let workPlanDigest ← digest P projection
    let sourceSnapshotDigest ← digest P (stripPresentation (.dict sourceSnapshot))
    let testPlanDigest ← digest P (strings (sortedStrings
      (plan.units.map fun u => u.testRecipe.getD "")))
    .ok { subjectId, planId := plan.planId, revision := plan.revision, scope, requirementsDigest,
          workPlanDigest, sourceSnapshotDigest, testPlanDigest, budgetCap := plan.budgetCap,
          externalEffects := sortedStrings plan.externalEffects, recoveryRef := plan.rollback }

/-- The document under the digest of a subject. -/
def PlanReviewSubject.document (subject : PlanReviewSubject) : PyValue :=
  .dict [(.str "subject_id", .str subject.subjectId), (.str "plan_id", .str subject.planId),
    (.str "revision", .int subject.revision), (.str "scope", textMapping subject.scope),
    (.str "requirements_digest", .str subject.requirementsDigest),
    (.str "work_plan_digest", .str subject.workPlanDigest),
    (.str "source_snapshot_digest", .str subject.sourceSnapshotDigest),
    (.str "test_plan_digest", .str subject.testPlanDigest),
    (.str "budget_cap", optionalInt subject.budgetCap),
    (.str "external_effects", strings (sortedStrings subject.externalEffects)),
    (.str "recovery_ref", optionalText subject.recoveryRef)]

/-- `subject_digest`. -/
def subjectDigest (subject : PlanReviewSubject) : Except Failure String :=
  digest P subject.document

end

end Planning

end CyranoAgent
