import CyranoAgent.Contracts.Types
import Mathlib.Data.Int.Basic
import Mathlib.Data.List.Basic

/-!
# Verifying an artifact

`verify_artifact` folds the results of a run into a verdict, `report_from_run` puts the runner's
exit code in front of it, and `assess_run` decides from the report whether the change may be
applied.

Each of them lets something through. The fold keeps the last result of each check and refuses the
statuses it knows, so a mandatory check may be verified though one of its results did not pass
(`verifyArtifact_sound_iff`); only three exit codes count as runner errors, so a killed runner may
be verified (`reportFromRun_sound_iff`); and the verified digest is compared with nothing, so
another artifact may be applied (`assessRun_sound_iff`).
-/

namespace CyranoAgent

namespace Verification

/-! ### Verdicts -/

/-- `CHECK_STATES`. -/
def checkStates : List String := ["passed", "failed", "skipped", "not_run"]

/-- `CheckResult`. -/
structure CheckResult where
  checkId : String
  status : String
  evidenceRef : String := ""
  deriving DecidableEq, Repr

/-- `VerificationReport`. -/
structure VerificationReport where
  artifactDigest : String
  verdict : String
  results : List CheckResult
  findings : List String
  rawEvidenceRef : Option String
  deriving DecidableEq, Repr

/-- `{c.check_id: c for c in checks}`: of the results of a check the last one stays. -/
def byId (checks : List CheckResult) (checkId : String) : Option CheckResult :=
  checks.reverse.find? fun c => c.checkId = checkId

/-- The loop over the mandatory checks: the tamper findings, and the checks that did not run. -/
def inspectRequired (checks : List CheckResult) (oracle : List (String × String)) :
    List String → List String × List String
  | [] => ([], [])
  | checkId :: rest =>
    let (tampered, notRun) := inspectRequired checks oracle rest
    match byId checks checkId, oracle.lookup checkId with
    | none, some _ => (s!"TEST_TAMPERED:{checkId} removed" :: tampered, notRun)
    | none, none => (tampered, checkId :: notRun)
    | some seen, expected =>
      if expected.any (seen.evidenceRef ≠ ·) then
        (s!"TEST_TAMPERED:{checkId} oracle changed" :: tampered, notRun)
      else if seen.status ∈ ["skipped", "not_run"] then (tampered, checkId :: notRun)
      else (tampered, notRun)

/-- `verify_artifact`. -/
def verifyArtifact (artifactDigest : String) (results : List CheckResult) (mandatory : List String)
    (rawEvidenceRef : Option String) (expectedOracle : Option (List (String × String)) := none) :
    VerificationReport :=
  let report (verdict : String) (findings : List String) : VerificationReport :=
    ⟨artifactDigest, verdict, results, findings, rawEvidenceRef⟩
  let required := mandatory.eraseDups
  if rawEvidenceRef = none then report "unverifiable" ["RAW_EVIDENCE_MISSING"]
  else if results.filter (fun c => c.status ∈ ["passed", "failed"]) = [] then
    report "not_run" ["NO_CHECKS_EXECUTED"]
  else
    let (tampered, notRun) := inspectRequired results (expectedOracle.getD []) required
    let failed := (results.filter fun c => c.status = "failed").map CheckResult.checkId
    if tampered ≠ [] then report "tampered" tampered
    else if notRun ≠ [] then report "not_run" (notRun.map fun c => s!"MANDATORY_NOT_RUN:{c}")
    else if failed ≠ [] then report "failed" (failed.map fun c => s!"CHECK_FAILED:{c}")
    else report "verified" []

/-! ### What is verified -/

/-- The result that `verify_artifact` looks at for a mandatory check is as it wants it: it carries
the expected oracle, if there is one, and was neither skipped nor left out. -/
def Fulfilled (checks : List CheckResult) (oracle : List (String × String)) (checkId : String) :
    Prop :=
  ∃ seen, byId checks checkId = some seen ∧
    (∀ expected, oracle.lookup checkId = some expected → seen.evidenceRef = expected) ∧
    seen.status ≠ "skipped" ∧ seen.status ≠ "not_run"

/-- What `verify_artifact` asks of its inputs. -/
structure Accepted (results : List CheckResult) (mandatory : List String)
    (rawEvidenceRef : Option String) (oracle : List (String × String)) : Prop where
  raw : rawEvidenceRef.isSome
  executed : ∃ c ∈ results, c.status = "passed"
  not_failed : ∀ c ∈ results, c.status ≠ "failed"
  fulfilled : ∀ checkId ∈ mandatory, Fulfilled results oracle checkId

/-- A result that the fold does not tell from a passed one: a later result of the check takes its
place, or its status is none of the four. -/
def Overlooked (results : List CheckResult) (c : CheckResult) : Prop :=
  byId results c.checkId ≠ some c ∨ c.status ∉ checkStates

section

variable {checks results : List CheckResult} {oracle : List (String × String)}

theorem mem_of_byId {checkId : String} {c : CheckResult} (h : byId checks checkId = some c) :
    c ∈ checks ∧ c.checkId = checkId :=
  ⟨List.mem_reverse.mp (List.mem_of_find?_eq_some h), by simpa using List.find?_some h⟩

theorem inspectRequired_eq_nil_iff (required : List String) :
    inspectRequired checks oracle required = ([], []) ↔
      ∀ checkId ∈ required, Fulfilled checks oracle checkId := by
  induction required with
  | nil => simp [inspectRequired]
  | cons checkId rest ih =>
    rw [List.forall_mem_cons, ← ih, inspectRequired, Fulfilled]
    rcases inspectRequired checks oracle rest with ⟨tampered, notRun⟩
    rcases byId checks checkId with _ | seen
    · rcases oracle.lookup checkId <;> simp
    · rcases oracle.lookup checkId with _ | expected
      · by_cases hskipped : seen.status = "skipped" ∨ seen.status = "not_run"
        · rcases hskipped with h | h <;> simp [h]
        · rw [not_or] at hskipped
          simp [hskipped]
      · by_cases hexpected : seen.evidenceRef = expected
        · by_cases hskipped : seen.status = "skipped" ∨ seen.status = "not_run"
          · rcases hskipped with h | h <;> simp [h, hexpected]
          · rw [not_or] at hskipped
            simp [hskipped, hexpected]
        · simp [hexpected]

/-- **The verdict is `verified` exactly on accepted inputs.** -/
theorem verifyArtifact_verified_iff {artifactDigest : String} {mandatory : List String}
    {rawEvidenceRef : Option String} {expectedOracle : Option (List (String × String))} :
    (verifyArtifact artifactDigest results mandatory rawEvidenceRef expectedOracle).verdict =
        "verified" ↔
      Accepted results mandatory rawEvidenceRef (expectedOracle.getD []) := by
  have hrequired : inspectRequired results (expectedOracle.getD []) mandatory.eraseDups =
        ([], []) ↔
      ∀ checkId ∈ mandatory, Fulfilled results (expectedOracle.getD []) checkId := by
    rw [inspectRequired_eq_nil_iff]
    simp only [List.mem_eraseDups]
  have hexecuted : results.filter (fun c => c.status ∈ ["passed", "failed"]) = [] ↔
      ∀ c ∈ results, c.status ≠ "passed" ∧ c.status ≠ "failed" := by
    simp [List.filter_eq_nil_iff]
  have hfailed : (results.filter fun c => c.status = "failed").map CheckResult.checkId = [] ↔
      ∀ c ∈ results, c.status ≠ "failed" := by
    simp [List.filter_eq_nil_iff]
  rw [verifyArtifact]
  generalize inspectRequired results (expectedOracle.getD []) mandatory.eraseDups = findings
    at hrequired ⊢
  obtain ⟨tampered, notRun⟩ := findings
  rw [Prod.mk.injEq] at hrequired
  dsimp only
  split_ifs with hraw hnone htampered hnotRun hsome
  · exact iff_of_false (by simp) fun h => by simpa [hraw] using h.raw
  · refine iff_of_false (by simp) fun h => ?_
    obtain ⟨c, hc, hpassed⟩ := h.executed
    exact (hexecuted.mp hnone c hc).1 hpassed
  · exact iff_of_false (by simp) fun h => htampered (hrequired.mpr h.fulfilled).1
  · exact iff_of_false (by simp) fun h => hnotRun (hrequired.mpr h.fulfilled).2
  · exact iff_of_false (by simp) fun h => hsome (hfailed.mpr h.not_failed)
  · rw [not_not] at htampered hnotRun hsome
    rw [hexecuted] at hnone
    push Not at hnone
    obtain ⟨c, hc, hstatus⟩ := hnone
    refine iff_of_true rfl ⟨Option.isSome_iff_ne_none.mpr hraw, ⟨c, hc, ?_⟩, hfailed.mp hsome,
      hrequired.mp ⟨htampered, hnotRun⟩⟩
    by_contra hpassed
    exact hfailed.mp hsome c hc (hstatus hpassed)

/-- A result of a mandatory check that did not pass was overlooked, if the inputs are accepted. -/
theorem Accepted.overlooked {mandatory : List String} {rawEvidenceRef : Option String}
    (h : Accepted results mandatory rawEvidenceRef oracle) {c : CheckResult} (hc : c ∈ results)
    (hmandatory : c.checkId ∈ mandatory) (hpassed : c.status ≠ "passed") :
    Overlooked results c := by
  by_contra hseen
  rw [Overlooked, not_or, not_not, not_not] at hseen
  obtain ⟨seen, hlast, -, hskipped, hnotRun⟩ := h.fulfilled _ hmandatory
  obtain rfl : seen = c := Option.some.inj (hlast.symm.trans hseen.1)
  have hfailed := h.not_failed seen hc
  simp [checkStates, hpassed, hskipped, hnotRun, hfailed] at hseen

/-- **A verified artifact passed its mandatory checks, in every result of theirs and with the
expected oracle**, unless the fold overlooks a result that did not pass. -/
theorem verifyArtifact_sound_iff {artifactDigest : String} {mandatory : List String}
    {rawEvidenceRef : Option String} {expectedOracle : Option (List (String × String))} :
    ((verifyArtifact artifactDigest results mandatory rawEvidenceRef expectedOracle).verdict =
        "verified" →
      rawEvidenceRef.isSome ∧ ∀ checkId ∈ mandatory,
        (∃ c ∈ results, c.checkId = checkId ∧ c.status = "passed" ∧
          ∀ expected, (expectedOracle.getD []).lookup checkId = some expected →
            c.evidenceRef = expected) ∧
        ∀ c ∈ results, c.checkId = checkId → c.status = "passed") ↔
      ¬(Accepted results mandatory rawEvidenceRef (expectedOracle.getD []) ∧
        ∃ c ∈ results, c.checkId ∈ mandatory ∧ c.status ≠ "passed" ∧ Overlooked results c) := by
  rw [verifyArtifact_verified_iff]
  constructor
  · rintro hsound ⟨haccepted, c, hc, hmandatory, hpassed, -⟩
    exact hpassed (((hsound haccepted).2 _ hmandatory).2 c hc rfl)
  · intro hoverlooked haccepted
    have hpassed (c) (hc : c ∈ results) (hmandatory : c.checkId ∈ mandatory) :
        c.status = "passed" := by
      by_contra hpassed
      exact hoverlooked ⟨haccepted, c, hc, hmandatory, hpassed,
        haccepted.overlooked hc hmandatory hpassed⟩
    refine ⟨haccepted.raw, fun checkId hmandatory => ⟨?_, fun c hc heq => ?_⟩⟩
    · obtain ⟨seen, hseen, horacle, -⟩ := haccepted.fulfilled checkId hmandatory
      obtain ⟨hmem, rfl⟩ := mem_of_byId hseen
      exact ⟨seen, hmem, rfl, hpassed seen hmem hmandatory, horacle⟩
    · exact hpassed c hc (by rwa [heq])

/-- A mandatory check whose runner broke is verified beside another check that passed. -/
theorem not_verifyArtifact_sound : ¬((verifyArtifact "sha256:x"
      [⟨"unit", "passed", "ev"⟩, ⟨"integration", "error", "ev"⟩] ["integration"]
      (some "junit.xml")).verdict = "verified" →
    ∀ c ∈ [CheckResult.mk "unit" "passed" "ev", ⟨"integration", "error", "ev"⟩],
      c.checkId ∈ ["integration"] → c.status = "passed") := by
  decide

/-! ### Runs -/

/-- `RawRunReport`. -/
structure RawRunReport where
  exitCode : ℤ
  results : List CheckResult
  rawRef : String
  summary : String
  deriving DecidableEq, Repr

/-- A `testcase` element of a JUnit report: its attributes, and which elements it has within. -/
structure TestCase where
  classname : Option String
  name : Option String
  failure : Bool := false
  skipped : Bool := false
  error : Bool := false

/-- What `run_test_recipe` reads from a `testcase` element. -/
def TestCase.checkResult (junitPath : String) (case : TestCase) : CheckResult where
  checkId := case.classname.getD "None" ++ "." ++ case.name.getD "None"
  status :=
    if case.failure then "failed" else if case.skipped then "skipped"
    else if case.error then "failed" else "passed"
  evidenceRef := junitPath

/-- What `run_test_recipe` reports once the runner has ended; there are no cases when the report is
missing or is not XML. -/
def runTestRecipe (exitCode : ℤ) (summary junitPath : String) (cases : Option (List TestCase)) :
    RawRunReport where
  exitCode := exitCode
  results := (cases.getD []).map (TestCase.checkResult junitPath)
  rawRef := junitPath
  summary := summary

/-- `report_from_run`. -/
def reportFromRun (run : RawRunReport) (artifactDigest : String) (mandatory : List String) :
    VerificationReport :=
  if run.exitCode ∈ [2, 3, 4] then
    ⟨artifactDigest, "unverifiable", run.results, ["RUNNER_ERROR", run.summary], some run.rawRef⟩
  else verifyArtifact artifactDigest run.results mandatory (some run.rawRef)

/-- The statuses that a recipe reports are known, so only a duplicate is overlooked. -/
theorem runTestRecipe_overlooked {exitCode : ℤ} {summary junitPath : String}
    {cases : Option (List TestCase)} {c : CheckResult}
    (hc : c ∈ (runTestRecipe exitCode summary junitPath cases).results) :
    Overlooked (runTestRecipe exitCode summary junitPath cases).results c ↔
      byId (runTestRecipe exitCode summary junitPath cases).results c.checkId ≠ some c := by
  obtain ⟨case, -, rfl⟩ := List.mem_map.mp hc
  refine or_iff_left (not_not.mpr ?_)
  rw [TestCase.checkResult]
  split_ifs <;> simp [checkStates]

/-- **A verified run ended with exit code 0, with a test that passed and none that failed**, exactly
when its exit code is one of those that `report_from_run` was written for, or its results are not
accepted. -/
theorem reportFromRun_sound_iff {run : RawRunReport} {artifactDigest : String}
    {mandatory : List String} :
    ((reportFromRun run artifactDigest mandatory).verdict = "verified" →
      run.exitCode = 0 ∧ (∃ c ∈ run.results, c.status = "passed") ∧
        ∀ c ∈ run.results, c.status ≠ "failed") ↔
      run.exitCode ∈ [0, 2, 3, 4] ∨ ¬Accepted run.results mandatory (some run.rawRef) [] := by
  have hverified : (reportFromRun run artifactDigest mandatory).verdict = "verified" ↔
      run.exitCode ∉ [2, 3, 4] ∧ Accepted run.results mandatory (some run.rawRef) [] := by
    rw [reportFromRun]
    split_ifs with hrunner
    · simp [hrunner]
    · rw [verifyArtifact_verified_iff, and_iff_right hrunner]
      rfl
  rw [hverified]
  constructor
  · intro hsound
    by_contra hcode
    rw [not_or, not_not] at hcode
    have hrunner : run.exitCode ∉ [2, 3, 4] := fun hmem => hcode.1 (List.mem_cons_of_mem _ hmem)
    exact hcode.1 (by rw [(hsound ⟨hrunner, hcode.2⟩).1]; decide)
  · rintro hcode ⟨hrunner, haccepted⟩
    refine ⟨?_, haccepted.executed, haccepted.not_failed⟩
    rcases hcode with hcode | hcode
    · exact (List.mem_cons.mp hcode).resolve_right hrunner
    · exact absurd haccepted hcode

/-- A runner that was killed after its first test leaves a report, and is verified. -/
theorem not_reportFromRun_sound : ∃ run,
    (reportFromRun run "sha256:x" ["test_x.test_a"]).verdict = "verified" ∧ run.exitCode ≠ 0 :=
  ⟨runTestRecipe (-9) "" "junit.xml" (some [⟨some "test_x", some "test_a", false, false, false⟩]),
    by decide⟩

end

/-! ### Completion -/

/-- `require_fresh_verification`. -/
def requireFreshVerification (report : VerificationReport) (currentArtifactDigest : String)
    (code : String := "STALE_EVIDENCE") : Except Failure Unit :=
  if report.verdict ≠ "verified" then .error (.cyrano "UNVERIFIED" report.verdict)
  else if report.artifactDigest ≠ currentArtifactDigest then
    .error (.cyrano code "artifact changed since verification")
  else .ok ()

/-- A report is fresh when it verified the current artifact. -/
theorem requireFreshVerification_eq_ok {report : VerificationReport} {current code : String} :
    requireFreshVerification report current code = .ok () ↔
      report.verdict = "verified" ∧ report.artifactDigest = current := by
  rw [requireFreshVerification]
  split_ifs <;> simp_all

/-- `CompletionAssessment`. -/
structure CompletionAssessment where
  status : String
  outcome : String
  mayApply : Bool
  sourceChanged : Bool
  learningStatus : String
  findings : List String
  deriving DecidableEq, Repr

/-- `findings or ("NOT_RUN",)`. -/
def orNotRun (findings : List String) : List String :=
  if findings = [] then ["NOT_RUN"] else findings

/-- `assess_run`. -/
def assessRun (requestKind deliveryMode : String) (verification : Option VerificationReport)
    (reviewedDigest currentDigest : Option String) (sourceChanged : Bool)
    (lessonStatus : String := "not_requested") : Except Failure CompletionAssessment :=
  if requestKind = "analysis" then
    .ok ⟨"answered", "answered", false, false, lessonStatus, []⟩
  else
    match verification with
    | none =>
      .ok ⟨"unverifiable", "failed", false, sourceChanged, lessonStatus, ["VERIFICATION_MISSING"]⟩
    | some verification =>
      if verification.verdict = "tampered" then
        .ok ⟨"blocked", "failed", false, sourceChanged, lessonStatus, verification.findings⟩
      else if verification.verdict ∈ ["not_run", "unverifiable"] then
        .ok ⟨"blocked", "failed", false, sourceChanged, lessonStatus,
          orNotRun verification.findings⟩
      else if reviewedDigest ≠ none ∧ currentDigest ≠ none ∧ reviewedDigest ≠ currentDigest then
        .error (.cyrano "STALE_EVIDENCE" "code changed after the reviewed digest")
      else if verification.verdict = "failed" then
        .ok ⟨"blocked", "failed", false, sourceChanged, lessonStatus, verification.findings⟩
      else if sourceChanged = false then
        .ok ⟨"complete", "verified_no_change", false, false, lessonStatus, []⟩
      else
        .ok ⟨"complete", "changed", deliveryMode = "apply_to_source", sourceChanged, lessonStatus,
          []⟩

/-- What `assess_run` asks of its inputs before the change may be applied. -/
structure LetThrough (requestKind deliveryMode : String) (report : VerificationReport)
    (reviewedDigest currentDigest : Option String) (sourceChanged : Bool) : Prop where
  not_analysis : requestKind ≠ "analysis"
  delivery : deliveryMode = "apply_to_source"
  changed : sourceChanged = true
  verdict : report.verdict ∉ ["tampered", "not_run", "unverifiable", "failed"]
  reviewed : reviewedDigest = none ∨ currentDigest = none ∨ reviewedDigest = currentDigest

/-- **A change may be applied exactly when its report is let through.** -/
theorem assessRun_mayApply_iff (requestKind deliveryMode lessonStatus : String)
    (verification : Option VerificationReport) (reviewedDigest currentDigest : Option String)
    (sourceChanged : Bool) :
    (∃ a, assessRun requestKind deliveryMode verification reviewedDigest currentDigest sourceChanged
        lessonStatus = .ok a ∧ a.mayApply = true) ↔
      ∃ report, verification = some report ∧
        LetThrough requestKind deliveryMode report reviewedDigest currentDigest sourceChanged := by
  have hrefused {a : CompletionAssessment} (ha : a.mayApply = false) :
      ¬∃ b, (Except.ok a : Except Failure CompletionAssessment) = .ok b ∧ b.mayApply = true := by
    rintro ⟨b, hb, hb'⟩
    rw [← Except.ok.inj hb, ha] at hb'
    cases hb'
  unfold assessRun
  by_cases hanalysis : requestKind = "analysis"
  · rw [if_pos hanalysis]
    exact iff_of_false (hrefused rfl) fun ⟨_, _, h⟩ => h.not_analysis hanalysis
  · rw [if_neg hanalysis]
    rcases verification with _ | report
    · exact iff_of_false (hrefused rfl) (by simp)
    · simp only [Option.some.injEq, exists_eq_left']
      split_ifs with htampered hnotRun hstale hfailed hchanged
      · exact iff_of_false (hrefused rfl) fun h => h.verdict (by simp [htampered])
      · refine iff_of_false (hrefused rfl) fun h => h.verdict ?_
        exact List.mem_cons_of_mem _ (List.mem_append_left ["failed"] hnotRun)
      · refine iff_of_false (by simp) fun h => ?_
        rcases h.reviewed with hnone | hnone | heq
        · exact hstale.1 hnone
        · exact hstale.2.1 hnone
        · exact hstale.2.2 heq
      · exact iff_of_false (hrefused rfl) fun h => h.verdict (by simp [hfailed])
      · exact iff_of_false (hrefused rfl) fun h => by simpa [hchanged] using h.changed
      · constructor
        · rintro ⟨a, ha, happly⟩
          rw [← Except.ok.inj ha] at happly
          refine ⟨hanalysis, of_decide_eq_true happly, by simpa using hchanged, ?_, by tauto⟩
          simp only [List.mem_cons, List.not_mem_nil, or_false, not_or] at hnotRun ⊢
          exact ⟨htampered, hnotRun.1, hnotRun.2, hfailed⟩
        · exact fun h => ⟨_, rfl, decide_eq_true h.delivery⟩

/-- **What may be applied was verified and reviewed as it is now**, unless a report is let through
whose verdict is another, or whose digest is not the current one, or without a review. -/
theorem assessRun_sound_iff {requestKind deliveryMode lessonStatus : String}
    {verification : Option VerificationReport} {reviewedDigest currentDigest : Option String}
    {sourceChanged : Bool} :
    (∀ a, assessRun requestKind deliveryMode verification reviewedDigest currentDigest sourceChanged
        lessonStatus = .ok a → a.mayApply = true →
      ∃ report, verification = some report ∧ report.verdict = "verified" ∧
        currentDigest = some report.artifactDigest ∧ reviewedDigest = currentDigest) ↔
      ¬∃ report, verification = some report ∧
        LetThrough requestKind deliveryMode report reviewedDigest currentDigest sourceChanged ∧
        (report.verdict ≠ "verified" ∨ reviewedDigest = none ∨
          currentDigest ≠ some report.artifactDigest) := by
  have hmay := assessRun_mayApply_iff requestKind deliveryMode lessonStatus verification
    reviewedDigest currentDigest sourceChanged
  constructor
  · rintro hsound ⟨report, hreport, hthrough, hgap⟩
    obtain ⟨a, ha, happly⟩ := hmay.mpr ⟨report, hreport, hthrough⟩
    obtain ⟨report', hreport', hverdict, hcurrent, hreviewed⟩ := hsound a ha happly
    obtain rfl : report = report' := Option.some.inj (hreport.symm.trans hreport')
    rcases hgap with h | h | h
    · exact h hverdict
    · rw [h, hcurrent] at hreviewed
      cases hreviewed
    · exact h hcurrent
  · intro hgap a ha happly
    obtain ⟨report, hreport, hthrough⟩ := hmay.mp ⟨a, ha, happly⟩
    have hfull : report.verdict = "verified" ∧ reviewedDigest ≠ none ∧
        currentDigest = some report.artifactDigest := by
      by_contra hnot
      exact hgap ⟨report, hreport, hthrough, by tauto⟩
    refine ⟨report, hreport, hfull.1, hfull.2.2, ?_⟩
    rcases hthrough.reviewed with h | h | h
    · exact absurd h hfull.2.1
    · rw [hfull.2.2] at h
      cases h
    · exact h

/-- What may be applied after `require_fresh_verification` was verified as it is now, and reviewed
so if it was reviewed at all. -/
theorem assessRun_sound_of_fresh {requestKind deliveryMode lessonStatus code current : String}
    {report : VerificationReport} {reviewedDigest : Option String} {sourceChanged : Bool}
    (hfresh : requireFreshVerification report current code = .ok ()) {a : CompletionAssessment}
    (ha : assessRun requestKind deliveryMode (some report) reviewedDigest (some current)
      sourceChanged lessonStatus = .ok a) (happly : a.mayApply = true) :
    report.verdict = "verified" ∧ report.artifactDigest = current ∧
      (reviewedDigest = none ∨ reviewedDigest = some current) := by
  obtain ⟨hverdict, hdigest⟩ := requireFreshVerification_eq_ok.mp hfresh
  obtain ⟨_, -, hthrough⟩ := (assessRun_mayApply_iff requestKind deliveryMode lessonStatus
    (some report) reviewedDigest (some current) sourceChanged).mp ⟨a, ha, happly⟩
  exact ⟨hverdict, hdigest, hthrough.reviewed.imp_right fun h => h.resolve_left (by simp)⟩

/-- A branch that was verified is merged: the reviewed and current digest is the merged tree's. -/
theorem not_assessRun_sound : ∃ a, assessRun "change" "apply_to_source"
      (some (verifyArtifact "sha256:branch" [⟨"c1", "passed", "ev"⟩] ["c1"] (some "junit.xml")))
      (some "sha256:merged") (some "sha256:merged") true = .ok a ∧ a.mayApply = true ∧
    (verifyArtifact "sha256:branch" [⟨"c1", "passed", "ev"⟩] ["c1"]
      (some "junit.xml")).artifactDigest ≠ "sha256:merged" :=
  ⟨⟨"complete", "changed", true, true, "not_requested", []⟩, by decide, rfl, by decide⟩

end Verification

end CyranoAgent
