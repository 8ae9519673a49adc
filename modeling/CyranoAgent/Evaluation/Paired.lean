import CyranoAgent.Planning.Subject

/-!
# Sealed paired evaluation

`sealExperiment` fixes an experiment before it runs: it checks the specification and gives the
manifest an id, the digest of some of its fields. `runPreregisteredStudy` seals the specification
it is given again, compares the ids, and records trials under the manifest.

A specification is any mapping of Python objects. Of these the code takes their text, their truth
and floating-point numbers from the language (`Objects`); booleans are integers, and print as what
they are.
-/

namespace CyranoAgent

open Lib Planning

/-- The Python objects of a specification, over the floating-point numbers `F`; `other` is any
other object, with its truth and its text. -/
inductive SpecValue (F : Type)
  | none
  | bool (b : Bool)
  | int (n : ℤ)
  | float (x : F)
  | str (s : String)
  | seq (items : List (SpecValue F))
  | other (truth : Bool) (text : String)

/-- What the code takes from the language for these objects. -/
structure Objects (F : Type) where
  /-- `float(n)`, `none` when it overflows. -/
  ofInt : ℤ → Option F
  nonzero : F → Bool
  /-- `str(value)`. -/
  text : SpecValue F → String
  text_str : ∀ s, text (.str s) = s

/-- A specification or a permit: a mapping with string keys. -/
abbrev Spec (F : Type) := List (String × SpecValue F)

/-- `spec.get(key, default)`. -/
def specField {F : Type} (spec : Spec F) (key : String) (default : SpecValue F) : SpecValue F :=
  (spec.lookup key).getD default

/-- What `isinstance(value, int)` lets through. -/
inductive IntValue
  | bool (b : Bool)
  | int (n : ℤ)
  deriving DecidableEq

/-- The number, as comparisons and arithmetic take it. -/
def IntValue.toInt : IntValue → ℤ
  | .bool b => if b then 1 else 0
  | .int n => n

/-- The value, as it is digested. -/
def IntValue.toPy : IntValue → PyValue
  | .bool b => .bool b
  | .int n => .int n

namespace SpecValue

variable {F : Type}

/-- `value` where `isinstance(value, int)`. -/
def asInt : SpecValue F → Option IntValue
  | .bool b => some (.bool b)
  | .int n => some (.int n)
  | _ => Option.none

/-- `isinstance(value, (int, float))`. -/
def isNumber : SpecValue F → Bool
  | .bool _ | .int _ | .float _ => true
  | _ => false

/-- `bool(value)`. -/
def truth (O : Objects F) : SpecValue F → Bool
  | .none => false
  | .bool b => b
  | .int n => n ≠ 0
  | .float x => O.nonzero x
  | .str s => s ≠ ""
  | .seq items => !items.isEmpty
  | .other b _ => b

/-- The texts of a sequence, none of any other object. -/
def texts (O : Objects F) : SpecValue F → List String
  | .seq items => items.map O.text
  | _ => []

/-- `float(value)` of a number. -/
def toFloat (O : Objects F) : SpecValue F → Except Failure F
  | .float x => .ok x
  | .int n => (O.ofInt n).elim
      (.error (.python "OverflowError" "int too large to convert to float")) .ok
  | .bool b => (O.ofInt (if b then 1 else 0)).elim
      (.error (.python "OverflowError" "int too large to convert to float")) .ok
  | _ => .error (.python "TypeError" "float() argument must be a string or a real number")

end SpecValue

/-! ### Sealing -/

/-- `EvaluationManifest`. -/
structure EvaluationManifest (F : Type) where
  manifestId : String
  baselineDigest : String
  candidateDigest : String
  suiteDigest : String
  runtimeDigest : String
  planDigest : String
  families : List String
  holdout : List String
  budgetUnits : IntValue
  qualityMargin : F
  minPairs : IntValue
  nondeterministicProvider : Bool
  changes : List String
  policyDigest : String
  modelDigest : String
  routeDigest : String

/-- `PROTECTED`. -/
def protectedPrefixes : List String :=
  ["policies/trust/", "policies/permissions/", "policies/promotion/", "evaluation/sealed/",
    "evaluation/judges/", "approvals/", "audit/"]

/-- `check_leakage`. -/
def checkLeakage (train holdout : List String) : List String :=
  sortedStrings (train.filter (· ∈ holdout)).dedup

/-- The value whose digest is the id of a manifest. -/
def sealedValue (baseline candidate suite runtime plan policy model route : String)
    (budget : IntValue) (families holdout : List String) : PyValue :=
  .dict [(.str "base", .str baseline), (.str "cand", .str candidate), (.str "suite", .str suite),
    (.str "runtime", .str runtime), (.str "plan", .str plan), (.str "policy", .str policy),
    (.str "model", .str model), (.str "route", .str route), (.str "budget", budget.toPy),
    (.str "families", strings (sortedStrings families)),
    (.str "holdout", strings (sortedStrings holdout))]

section

variable {F : Type} (O : Objects F) (P : Primitives)

/-- The first of the required fields that is missing or empty. -/
def missingField? (spec : Spec F) : Option String :=
  ["baseline_digest", "candidate_digest", "suite_digest", "runtime_digest", "plan_digest"].find?
    fun key => !(specField spec key .none).truth O

/-- The criteria that must be registered: the budget, the margin and the pairs. -/
def registeredCriteria (spec : Spec F) : Except Failure (IntValue × IntValue) :=
  let unregistered : Failure := .cyrano "MISSING_PREREGISTRATION"
    "budget, margin and min_pairs must be registered"
  match (specField spec "budget_units" .none).asInt, (specField spec "min_pairs" .none).asInt with
  | some budget, some minPairs =>
    if budget.toInt ≤ 0 ∨ (specField spec "quality_margin" .none).isNumber = false ∨
        minPairs.toInt ≤ 0 then .error unregistered
    else .ok (budget, minPairs)
  | _, _ => .error unregistered

/-- `memory_refs_after_cutoff` is a sequence that is not empty. -/
def afterCutoff (spec : Spec F) : Bool :=
  match specField spec "memory_refs_after_cutoff" (.seq []) with
  | .seq items => !items.isEmpty
  | _ => false

/-- `seal_experiment`. -/
def sealExperiment (spec : Spec F) : Except Failure (EvaluationManifest F) := do
  match missingField? O spec with
  | some key => throw (.cyrano "MISSING_PREREGISTRATION" ("missing " ++ key))
  | none => pure ()
  let (budget, minPairs) ← registeredCriteria spec
  let families := (specField spec "families" (.seq [])).texts O
  let holdout := (specField spec "holdout" (.seq [])).texts O
  match checkLeakage families holdout with
  | leak :: _ => throw (.cyrano "DATA_LEAKAGE" ("family in train and holdout: " ++ leak))
  | [] => pure ()
  if afterCutoff spec then
    throw (.cyrano "DATA_LEAKAGE" "post-cutoff evaluation evidence entered memory")
  let changes := (specField spec "changes" (.seq [])).texts O
  match changes.find? fun change =>
      protectedPrefixes.any fun start => start.toList.isPrefixOf change.toList with
  | some change =>
    throw (.cyrano "PROTECTED_FIELD" ("protected change needs manual route: " ++ change))
  | none => pure ()
  let text (key : String) := O.text (specField spec key (.str ""))
  let manifestId ← digest P (sealedValue (text "baseline_digest") (text "candidate_digest")
    (text "suite_digest") (text "runtime_digest") (text "plan_digest") (text "policy_digest")
    (text "model_digest") (text "route_digest") budget families holdout)
  let qualityMargin ← (specField spec "quality_margin" .none).toFloat O
  return {
    manifestId, families, holdout, qualityMargin, minPairs, changes
    baselineDigest := text "baseline_digest"
    candidateDigest := text "candidate_digest"
    suiteDigest := text "suite_digest"
    runtimeDigest := text "runtime_digest"
    planDigest := text "plan_digest"
    budgetUnits := budget
    nondeterministicProvider :=
      (specField spec "nondeterministic_provider" (.bool false)).truth O
    policyDigest := text "policy_digest"
    modelDigest := text "model_digest"
    routeDigest := text "route_digest" }

end

/-! ### Trials -/

/-- `TrialResult`. -/
structure TrialResult where
  pairId : String
  family : String
  arm : String
  status : String
  outcome : String
  costUnits : Option ℤ
  orderIndex : ℤ

/-- `PairSummary`. -/
structure PairSummary where
  pairId : String
  family : String
  complete : Bool
  baselineOutcome : String
  candidateOutcome : String

/-- `TrialLedger`. -/
structure TrialLedger (F : Type) where
  manifest : EvaluationManifest F
  trials : List TrialResult

/-- What `settle` reports. -/
structure PairSettlement where
  manifestId : String
  plannedPairs : IntValue
  actualPairs : ℕ
  incompletePairs : ℕ
  denominatorIntact : Bool
  nondeterministicProvider : Bool

namespace TrialLedger

variable {F : Type}

/-- `record`. -/
def record (reprText : String → String) (ledger : TrialLedger F) (trial : TrialResult) :
    Except Failure (TrialLedger F) :=
  if trial.arm ∉ ["baseline", "candidate"] then
    .error (.cyrano "INPUT_INVALID" ("arm " ++ reprText trial.arm))
  else if ledger.manifest.families ≠ [] ∧ trial.family ∉ ledger.manifest.families then
    .error (.cyrano "INPUT_INVALID" ("family " ++ reprText trial.family ++ " not in manifest"))
  else if trial.outcome ∉ ["pass", "fail", "unknown"] then
    .error (.cyrano "INPUT_INVALID" trial.outcome)
  else if ledger.trials.any fun prior => prior.pairId = trial.pairId ∧ prior.arm = trial.arm then
    .error (.cyrano "INPUT_INVALID" ("duplicate specimen " ++ trial.pairId ++ "/" ++ trial.arm))
  else .ok { ledger with trials := ledger.trials ++ [trial] }

/-- The last trial of an arm of a pair. -/
def arm? (ledger : TrialLedger F) (pairId arm : String) : Option TrialResult :=
  (ledger.trials.filter fun trial => trial.pairId = pairId ∧ trial.arm = arm).getLast?

/-- The summary of one pair. -/
def pair (ledger : TrialLedger F) (pairId : String) : PairSummary :=
  let base := ledger.arm? pairId "baseline"
  let cand := ledger.arm? pairId "candidate"
  { pairId
    family := ((base.orElse fun _ => cand).map (·.family)).getD ""
    complete := base.any (·.status = "completed") && cand.any (·.status = "completed")
    baselineOutcome := (base.map (·.outcome)).getD "unknown"
    candidateOutcome := (cand.map (·.outcome)).getD "unknown" }

/-- `pairs`. -/
def pairs (ledger : TrialLedger F) : List PairSummary :=
  (sortedStrings (ledger.trials.map (·.pairId)).dedup).map ledger.pair

/-- `settle`. -/
def settle (ledger : TrialLedger F) : PairSettlement :=
  let pairs := ledger.pairs
  let incomplete := pairs.filter fun pair => !pair.complete
  { manifestId := ledger.manifest.manifestId
    plannedPairs := ledger.manifest.minPairs
    actualPairs := (pairs.filter (·.complete)).length
    incompletePairs := incomplete.length
    denominatorIntact := ledger.manifest.minPairs.toInt ≤ pairs.length && incomplete.isEmpty
    nondeterministicProvider := ledger.manifest.nondeterministicProvider }

end TrialLedger

/-! ### Studies -/

/-- `ExperimentPermit`. -/
structure ExperimentPermit where
  permitId : String
  specDigest : String
  budgetUnits : IntValue
  allowedFamilies : List String
  expiresAt : IntValue

/-- `BudgetAccount`. -/
structure BudgetAccount where
  total : ℤ
  spent : ℤ

/-- `begin_spend`. -/
def beginSpend (account : BudgetAccount) (units : ℤ) : Except Failure BudgetAccount :=
  if units ≤ 0 then .error (.cyrano "INPUT_INVALID" "spend must be positive")
  else if account.total < account.spent + units then
    .error (.cyrano "BUDGET_EXHAUSTED"
      ("need " ++ toString units ++ ", have " ++ toString (account.total - account.spent)))
  else .ok { account with spent := account.spent + units }

/-- What a study reports. -/
structure StudyReport (F : Type) where
  permitId : String
  manifestId : String
  ledger : TrialLedger F
  settle : PairSettlement
  spentUnits : ℤ
  remainingUnits : ℤ

section

variable {F : Type} (O : Objects F) (P : Primitives) (reprText : String → String)

/-- `authorize_experiment`. -/
def authorizeExperiment (spec : Spec F) (permit : Option (Spec F)) (now : ℤ) :
    Except Failure ExperimentPermit := do
  match permit with
  | none => throw (.cyrano "PERMISSION_DENIED" "an experiment requires a permit")
  | some permit =>
    let expires := (specField permit "expires_at" (.int 0)).asInt
    if expires.any fun expires => expires.toInt ≤ now then
      throw (.cyrano "PERMISSION_DENIED" "permit expired")
    match (specField permit "budget_units" (.int 0)).asInt with
    | none => throw (.cyrano "BUDGET_EXHAUSTED" "a zero budget runs no paid call")
    | some budget =>
      if budget.toInt ≤ 0 then
        throw (.cyrano "BUDGET_EXHAUSTED" "a zero budget runs no paid call")
      let specDigest ← digest P (.dict ((spec.mergeSort fun a b => a.1 ≤ b.1).map fun entry =>
        (.str entry.1, .str (O.text entry.2))))
      let allowed := (specField permit "families" (.seq [])).texts O
      let outside := ((specField spec "families" (.seq [])).texts O).filter (· ∉ allowed)
      match sortedStrings outside.dedup with
      | family :: _ => throw (.cyrano "SCOPE_DENIED" ("family outside permit: " ++ family))
      | [] => pure ()
      return {
        permitId := O.text (specField permit "permit_id" (.str specDigest))
        specDigest
        budgetUnits := budget
        allowedFamilies := allowed
        expiresAt := expires.getD (.int 0) }

/-- One trial of a study: what it cost is debited, and it is recorded. -/
def runTrial (state : BudgetAccount × TrialLedger F) (trial : TrialResult) :
    Except Failure (BudgetAccount × TrialLedger F) := do
  let account ← match trial.costUnits with
    | some units =>
      if trial.status = "completed" ∧ units ≠ 0 then beginSpend state.1 units else pure state.1
    | none => pure state.1
  let ledger ← state.2.record reprText trial
  return (account, ledger)

/-- `run_preregistered_study`. -/
def runPreregisteredStudy (manifest : EvaluationManifest F) (spec : Spec F)
    (permit : Option (Spec F)) (trials : List TrialResult) (now : ℤ) :
    Except Failure (StudyReport F) := do
  let again ← sealExperiment O P spec
  if again.manifestId ≠ manifest.manifestId then
    throw (.cyrano "INPUT_INVALID" "spec does not reproduce the manifest")
  let experiment ← authorizeExperiment O P spec permit now
  let (account, ledger) ←
    trials.foldlM (runTrial reprText) (⟨experiment.budgetUnits.toInt, 0⟩, ⟨manifest, []⟩)
  return {
    permitId := experiment.permitId
    manifestId := manifest.manifestId
    ledger
    settle := ledger.settle
    spentUnits := account.spent
    remainingUnits := account.total - account.spent }

end

end CyranoAgent
