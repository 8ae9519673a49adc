import CyranoAgent.Planning.Impact

/-!
# Classifying a change of a plan

`classifyChange` judges a proposed plan against an approved one: a change that shows in no
projection is one of presentation, a change of recipes between authorised alternatives is delegated,
and every other one changes the meaning of the execution, needs a new review and affects the reverse
closure of the units it touches.
-/

namespace CyranoAgent

open Lib

/-! ### Equality of projections -/

mutual

/-- `==` on the values that a projection is made of. Values of types that the model does not tell
apart are different. -/
def PyValue.eq : PyValue → PyValue → Bool
  | .none, .none => true
  | .bool a, .bool b => a = b
  | .bool a, .int n => n = if a then 1 else 0
  | .int n, .bool a => n = if a then 1 else 0
  | .int m, .int n => m = n
  | .str s, .str t => s = t
  | .list items, .list items' => eqItems items items'
  | .dict entries, .dict entries' => entries.length = entries'.length && eqEntries entries entries'
  | _, _ => false

/-- `==` on the items of lists. -/
def PyValue.eqItems : List PyValue → List PyValue → Bool
  | [], [] => true
  | item :: items, item' :: items' => item.eq item' && eqItems items items'
  | _, _ => false

/-- The entries of a mapping are entries of another. -/
def PyValue.eqEntries : PyMapping → PyMapping → Bool
  | [], _ => true
  | (.str key, item) :: entries, mapping =>
    ((PyMapping.get? mapping key).any fun item' => item.eq item') && eqEntries entries mapping
  | (.other, _) :: _, _ => false

end

namespace Planning

/-- `presentation_only_change`. -/
def presentationOnlyChange (old new : PyValue) : Bool :=
  (stripPresentation old).eq (stripPresentation new)

/-! ### The classification -/

/-- `CLASSIFICATIONS`. -/
inductive Classification
  | presentationOnly | delegatedChoice | executionMeaningChange | unknown
  deriving DecidableEq

/-- `ChangeImpact`. -/
structure ChangeImpact where
  classification : Classification
  changedRequirements : List String := []
  changedPaths : List String := []
  affectedUnits : List String := []
  invalidatedReviews : List String := []
  requiresNewReview : Bool
  requiresNewApproval : Bool

/-- A unit is kept, or swaps one authorised recipe for another. -/
def delegatedUnit (alternatives : List String) (prev unit : WorkUnitSpec) : Bool :=
  if prev = unit then true
  else
    let oldRecipe := prev.testRecipe.getD ""
    let newRecipe := unit.testRecipe.getD ""
    { prev with testRecipe := some newRecipe } = unit &&
      newRecipe ∈ alternatives && oldRecipe ∈ alternatives

/-- `_delegated_only`. -/
def delegatedOnly (oldPlan newPlan : GovernedWorkPlan) (alternatives : List String) : Bool :=
  { oldPlan with units := [], revision := 0 } = { newPlan with units := [], revision := 0 } &&
    oldPlan.units.length = newPlan.units.length &&
      newPlan.units.all fun unit =>
        (oldPlan.unitsById.get? unit.unitId).any fun prev => delegatedUnit alternatives prev unit

/-- The paths that a plan writes. -/
def GovernedWorkPlan.writes (plan : GovernedWorkPlan) : List String :=
  plan.units.flatMap (·.writePaths)

/-- The paths that the new plan writes and the old one does not. -/
def pathsAdded (oldPlan newPlan : GovernedWorkPlan) : List String :=
  sortedStrings (newPlan.writes.filter (· ∉ oldPlan.writes)).dedup

/-- The owners that `_reverse_closure` takes: those that are true, as strings. -/
def isNamed (owner _uid : String) : Bool := owner ≠ ""

/-- The seeds of `_reverse_closure`: what the new plan adds or changes, and what writes one of the
paths. -/
def seedsOf (oldUnits newUnits : Dict String WorkUnitSpec) (changedPaths : List String) :
    List String :=
  (newUnits.entries.filter fun entry => oldUnits.get? entry.1 ≠ some entry.2 ∨
    ∃ path ∈ entry.2.writePaths, path ∈ changedPaths).map Prod.fst

/-- `_reverse_closure`. -/
def reverseClosure (oldUnits newUnits : Dict String WorkUnitSpec) (changedPaths : List String) :
    List String :=
  traverse (dependentsOf newUnits isNamed) (seedsOf oldUnits newUnits changedPaths)

/-- `classify_change`. -/
def classifyChange (oldPlan newPlan : GovernedWorkPlan)
    (authorizedAlternatives : List String := []) (unclassifiable : Bool := false) : ChangeImpact :=
  let changedPaths := pathsAdded oldPlan newPlan
  if unclassifiable then
    { classification := .unknown
      changedPaths
      affectedUnits := sortedStrings newPlan.unitsById.keys
      requiresNewReview := true
      requiresNewApproval := true }
  else if presentationOnlyChange (planProjection oldPlan) (planProjection newPlan) then
    { classification := .presentationOnly
      requiresNewReview := false
      requiresNewApproval := false }
  else if delegatedOnly oldPlan newPlan authorizedAlternatives then
    { classification := .delegatedChoice
      requiresNewReview := false
      requiresNewApproval := false }
  else
    { classification := .executionMeaningChange
      changedRequirements := sortedStrings
        (newPlan.requirements.filter (· ∉ oldPlan.requirements) ++
          oldPlan.requirements.filter (· ∉ newPlan.requirements)).dedup
      changedPaths
      affectedUnits := reverseClosure oldPlan.unitsById newPlan.unitsById changedPaths
      requiresNewReview := true
      requiresNewApproval := true }

end Planning

end CyranoAgent
