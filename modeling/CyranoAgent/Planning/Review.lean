import Mathlib.Data.Int.Notation
import Mathlib.Logic.Function.Basic
import CyranoAgent.Lib.Action
import CyranoAgent.Contracts.Types

/-!
# Independent plan review

`ReviewBoard`: the review rounds of subject digests, the findings of their reviewers, and the
two gates that ask whether a digest was reviewed. A round is known by its place on the board.
-/

namespace CyranoAgent

open Lib Lib.Action

namespace Planning

/-- `ReviewerBinding`. -/
structure ReviewerBinding where
  reviewerRunId : String
  authorRunId : String
  modelId : String
  authorModelId : String
  readOnly : Bool
  blind : Bool

/-- `ReviewFinding`. -/
structure ReviewFinding where
  findingId : String
  subjectDigest : String
  reviewerRunId : String
  severity : String
  summary : String
  evidenceIds : List String
  requirementRefs : List String := []
  state : String := "open"

/-- The verdict of a round. -/
inductive Verdict
  | approve | changesRequired | unverifiable
  deriving DecidableEq, Repr

/-- The text of a verdict. -/
def Verdict.text : Verdict → String
  | .approve => "approve"
  | .changesRequired => "changes_required"
  | .unverifiable => "unverifiable"

/-- `ReviewRecord`. -/
structure ReviewRecord where
  subjectDigest : String
  reviewerRunId : String
  verdict : Verdict
  findings : List ReviewFinding := []
  rounds : ℤ := 1

/-- What `finish_review` returns. -/
inductive ReviewOutcome
  | reviewed | changesRequired | deferred | unverifiable
  deriving DecidableEq, Repr

/-- `ReviewBoard`. -/
structure ReviewBoard where
  maxRounds : ℤ := 3
  reviews : List ReviewRecord := []
  findings : String → Option ReviewFinding := fun _ => none

/-- `BLOCKING`. -/
def blocking : List String := ["critical", "high"]

/-- The states a resolution may lead to. -/
def resolutions : List String := ["fixed_verified", "refuted_verified", "risk_accepted"]

/-- The text of a list of strings, from the text of a string. -/
def reprStrings (reprText : String → String) (items : List String) : String :=
  "[" ++ ", ".intercalate (items.map reprText) ++ "]"

namespace ReviewBoard

/-- The findings of a round that block it. -/
def openBlocking (B : ReviewBoard) (record : ReviewRecord) : List ReviewFinding :=
  record.findings.filter fun f =>
    (B.findings f.findingId).any (fun current => current.state = "open") && f.severity ∈ blocking

/-- `is_reviewed`. -/
def isReviewed (B : ReviewBoard) (subjectDigest : String) : Bool :=
  B.reviews.any fun r => r.subjectDigest = subjectDigest ∧ r.verdict = .approve

/-- `require_reviewed`. -/
def requireReviewed (reprText : String → String) (B : ReviewBoard) (subjectDigest : String) :
    Except Failure Unit :=
  match (B.reviews.filter fun r => r.subjectDigest = subjectDigest).getLast? with
  | none => .error (.cyrano "STALE_REVIEW" "no review binds this subject digest")
  | some latest =>
    if B.openBlocking latest ≠ [] then
      .error (.cyrano "REVIEW_FINDINGS_OPEN"
        ("unresolved: " ++ reprStrings reprText ((B.openBlocking latest).map (·.findingId))))
    else if latest.verdict ≠ .approve then
      .error (.cyrano "STALE_REVIEW" ("latest verdict is " ++ latest.verdict.text))
    else .ok ()

/-- What a call on the board is. -/
abbrev BoardOp (α : Type) := Lib.Action ReviewBoard Failure α

/-- `request_review`: the place of the new round. `reviewerInput` lists the keys of the input. -/
def requestReview (reprText : String → String) (subjectDigest : String)
    (binding : ReviewerBinding) (reviewerInput : List String) : BoardOp ℕ := do
  raiseIf (binding.reviewerRunId = binding.authorRunId)
    (.cyrano "REVIEWER_NOT_INDEPENDENT" "reviewer run must differ from the author run")
  raiseIf (binding.readOnly = false)
    (.cyrano "REVIEWER_NOT_INDEPENDENT" "reviewer holds write grant")
  let leaked := ["author_notes", "author_verdict", "prior_verdict"].filter (· ∈ reviewerInput)
  raiseIf (binding.blind ∧ leaked ≠ [])
    (.cyrano "INPUT_INVALID" ("blind review input carries " ++ reprStrings reprText leaked))
  let B ← get
  let record : ReviewRecord :=
    { subjectDigest, reviewerRunId := binding.reviewerRunId, verdict := .unverifiable }
  set { B with reviews := B.reviews ++ [record] }
  return B.reviews.length

/-- Set the verdict of a round. -/
def setVerdict (record : ℕ) (verdict : Verdict) : BoardOp Unit :=
  modify fun B => { B with reviews := B.reviews.modify record fun r => { r with verdict } }

/-- `submit_finding`. A round that is not on the board does not come up. -/
def submitFinding (record : ℕ) (finding : ReviewFinding) : BoardOp ReviewFinding := do
  let B ← get
  match B.reviews[record]? with
  | none => return finding
  | some r =>
    raiseIf (finding.subjectDigest ≠ r.subjectDigest)
      (.cyrano "STALE_REVIEW" "finding targets a different subject")
    raiseIf (finding.severity ∈ blocking ∧ finding.evidenceIds = [])
      (.cyrano "INVALID_FINDING" "a blocking finding requires evidence ids")
    set { B with
      findings := Function.update B.findings finding.findingId (some finding)
      reviews := B.reviews.modify record fun r => { r with findings := r.findings ++ [finding] } }
    return finding

/-- `resolve_finding`. -/
def resolveFinding (reprText : String → String) (findingId resolvingRunId decision : String)
    (newSubjectDigest : String) (evidenceIds : List String) (testPlanChanged : Bool) :
    BoardOp ReviewFinding := do
  let B ← get
  match B.findings findingId with
  | none => throw (.python "KeyError" (reprText findingId))
  | some finding =>
    raiseIf (resolvingRunId ≠ finding.reviewerRunId)
      (.cyrano "AUTHORITY_DENIED" "only the finding reviewer or adjudicator resolves")
    raiseIf (testPlanChanged = true)
      (.cyrano "TEST_PLAN_CHANGED" "the oracle changed; the fix is a new subject")
    raiseIf (decision ∉ resolutions)
      (.cyrano "INVALID_FINDING" ("bad resolution " ++ reprText decision))
    raiseIf (decision = "fixed_verified" ∧ evidenceIds = [])
      (.cyrano "INVALID_FINDING" "a fix needs verification evidence")
    raiseIf (decision = "refuted_verified" ∧ evidenceIds = [])
      (.cyrano "INVALID_FINDING" "a rebuttal needs counter-evidence")
    let resolved := { finding with state := decision, subjectDigest := newSubjectDigest }
    set { B with findings := Function.update B.findings findingId (some resolved) }
    return resolved

/-- `finish_review`. -/
def finishReview (record : ℕ) (reviewerOk : Bool) : BoardOp ReviewOutcome := do
  let B ← get
  match B.reviews[record]? with
  | none => return .unverifiable
  | some r =>
    if reviewerOk = false then do
      setVerdict record .unverifiable
      return .unverifiable
    else if B.maxRounds ≤ r.rounds ∧ B.openBlocking r ≠ [] then do
      setVerdict record .changesRequired
      return .deferred
    else if B.openBlocking r ≠ [] then do
      setVerdict record .changesRequired
      return .changesRequired
    else do
      setVerdict record .approve
      return .reviewed

end ReviewBoard

end Planning

end CyranoAgent
