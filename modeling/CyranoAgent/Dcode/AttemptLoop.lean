import CyranoAgent.Dcode.Currency
import CyranoAgent.Memory.Corrections

/-!
# The attempts of an approved run

`attemptLoop` is the attempt loop of `run_governed_work`: each turn checks that the run is current,
sends a prompt to the agent, verifies the obligations and writes their ledgers, until they are
satisfied, no correction is left, or a check refuses. What surrounds an attempt, that is the answers
of the gates and of the agent, the work tree, and what was touched, is an `AttemptWorld`.

`Verified` says what the loop has verified so far, and `ledgersAgree_iff` when the ledgers of a run
agree with its last reports.
-/

namespace CyranoAgent

open Lib Memory Planning

namespace Dcode

/-! ### The bridge -/

/-- `REQUIRED`, sorted. -/
def requiredProbes : List String :=
  ["async_middleware", "cancel_recovery", "child_observation", "context_manifest",
    "extension_loading", "sandbox_isolation", "tool_mediation", "trusted_approval"]

/-- `AttemptRequest`. -/
structure AttemptRequest where
  attemptId : String
  inputSnapshot : String
  contextDigest : String
  permitRef : String
  runtimeLockDigest : String

/-- `RuntimeHandle`, as far as an attempt reads it. -/
structure RuntimeHandle where
  verified : Bool
  runtimeLockDigest : String

/-- `AttemptReceipt`. Its usage is empty. -/
structure AttemptReceipt where
  attemptId : String
  resultRef : String
  contextDigest : String
  events : List String

/-- `execute_attempt`, with the events of the bridge. -/
def executeAttempt (handle : RuntimeHandle) (allowed : Bool) (budget : ℤ)
    (handler : Except Failure String) (request : AttemptRequest) (events : List String) :
    Except Failure AttemptReceipt × List String :=
  if ¬handle.verified then
    (.error (.cyrano "DCODE_RUNTIME_NOT_VERIFIED" (", ".intercalate requiredProbes)), events)
  else if request.runtimeLockDigest ≠ handle.runtimeLockDigest then
    (.error (.cyrano "STALE_SNAPSHOT" "attempt bound to a different runtime lock"), events)
  else
    let bound := events ++ ["attempt.bound:" ++ request.attemptId]
    if ¬allowed then
      (.error (.cyrano "SCOPE_DENIED" ("guard refused " ++ request.attemptId)), bound)
    else if budget ≤ 0 then
      (.error (.cyrano "BUDGET_EXCEEDED" "attempt budget exhausted"), bound)
    else
      let frozen := bound ++ ["attempt.frozen:" ++ request.contextDigest]
      match handler with
      | .error e => (.error e, frozen)
      | .ok resultRef =>
        let settled := frozen ++ ["attempt.settled:" ++ request.attemptId]
        (.ok ⟨request.attemptId, resultRef, request.contextDigest, settled⟩, settled)

/-! ### The loop -/

/-- `GovernedRunConfig`, with what the attempts read of it. -/
structure AttemptConfig extends GovernedRunConfig where
  taskText : String
  costCap : Option ℤ := none
  maxAttempts : ℤ := 4

/-- What an approved run has when its attempts start: its permit, its context, a verified runtime,
its checkers, its workspace and the view that it recalled. -/
structure AttemptSetting where
  permitId : String
  contextDigest : String
  handle : RuntimeHandle
  registry : TrustedCheckerRegistry
  root : List String
  recallView : Option MemoryView

/-- What surrounds an attempt. -/
structure AttemptWorld where
  /-- What `on_attempt_start` does. -/
  started : Except Failure Unit
  /-- The memory gate and the clock, at the currency check. -/
  gate : MemoryGate
  now : Readings
  /-- The permit is revoked. -/
  revoked : Bool
  /-- What the agent answers to a prompt. -/
  invoke : String → Except Failure String
  /-- The model calls that left evidence on the wire. -/
  modelCalls : ℕ
  latencyMs : ℤ
  /-- The work tree, the touched paths and the memory, when obligations are verified. -/
  tree : FileTree
  touched : List String
  isCurrent : String → ℤ → Bool
  view : Option MemoryView

/-- What the loop changes. -/
structure LoopState where
  attempt : ℕ := 0
  reports : List ObligationCheckReport := []
  receipts : List AttemptReceipt := []
  dispatched : Bool := false
  spent : ℤ := 0
  events : List String := []
  ledgers : CorrectionTracker := ∅

/-- What becomes of a turn of the loop. -/
inductive Turn
  | next (s : LoopState)
  | done (s : LoopState)
  | refused (code : String) (s : LoopState)

/-- The name of a state of a verdict, `state.upper()`. -/
def stateName : VerdictState → String
  | .satisfied => "SATISFIED"
  | .violated => "VIOLATED"
  | .unverifiable => "UNVERIFIABLE"

/-- `_feedback`. -/
def feedback (reports : List ObligationCheckReport) : String :=
  "\n".intercalate ("OBLIGATION CHECK FAILED" ::
    (reports.filter fun report => ¬report.Satisfied).map fun report =>
      "- " ++ stateName report.verdict.state ++ " " ++ report.obligationId ++ ": " ++
        report.verdict.detail)

section

variable (py : Python) (P : Primitives) (reprText : String → String) (config : AttemptConfig)
  (setting : AttemptSetting) (run : PreparedRun)

/-- The cap of a unit, under that of the run. -/
def unitCap (unit : WorkUnitSpec) : Option ℤ :=
  match config.costCap, unit.costCap with
  | none, cap => cap
  | some cap', some cap => some (min cap cap')
  | some cap', none => some cap'

/-- An entry of `unit_caps`: the unit that an obligation is attached to has to be there. -/
def capEntry (attached : String × String) : Except Failure (String × Option ℤ) :=
  match run.plan.units.find? (·.unitId = attached.2) with
  | some unit => .ok (attached.1, unitCap config unit)
  | none => .error (.python "RuntimeError" "coroutine raised StopIteration")

/-- `unit_caps`. -/
def unitCaps : Except Failure (Dict String (Option ℤ)) :=
  (run.attached.mapM (capEntry config run)).map .ofList

/-- `correction_cap`. -/
def correctionCap (caps : Dict String (Option ℤ)) (obligationId : String) : Option ℤ :=
  match caps.get? obligationId with
  | some (some cap) => some cap
  | _ => config.costCap

/-- `budget_remaining`. -/
def budgetRemaining (spent : ℤ) : ℤ := max 0 (config.plan.budgetCap.getD 0 - spent)

/-- The prompt of an attempt. -/
def promptOf (s : LoopState) : String :=
  if s.attempt = 1 then config.taskText else feedback s.reports

/-- The request of an attempt, through the bridge. -/
def sendPrompt (world : AttemptWorld) (s : LoopState) :
    Except Failure (Except Failure AttemptReceipt × List String) := do
  let prompt := promptOf config s
  let inputSnapshot ← digest P (.str prompt)
  let request : AttemptRequest := {
    attemptId := config.runId ++ "-a" ++ toString s.attempt, inputSnapshot
    contextDigest := setting.contextDigest, permitRef := setting.permitId
    runtimeLockDigest := setting.handle.runtimeLockDigest }
  return executeAttempt setting.handle (!world.revoked) (budgetRemaining config s.spent)
    (world.invoke prompt) request s.events

/-- What an attempt verifies. -/
def reportsIn (world : AttemptWorld) : Except Failure (List ObligationCheckReport) :=
  verifyObligations py P world.tree setting.root setting.registry world.touched
    (some world.isCurrent) world.view run.projection.obligations

/-- The end of a turn, with the reports on what the agent has left. -/
def settleTurn (caps : Dict String (Option ℤ)) (world : AttemptWorld) (s : LoopState)
    (reports : List ObligationCheckReport) : Except Failure Turn := do
  let cost : AttemptCost :=
    { modelCalls := world.modelCalls, latencyMs := world.latencyMs, units := 1 }
  let ledgers ← reports.foldlM
    (CorrectionTracker.recordReport cost (correctionCap config caps)) s.ledgers
  let s := { s with reports, ledgers }
  if ObligationsSatisfied reports then return .done s
  let unmet := reports.filter fun report => ¬report.Satisfied
  if ∃ report ∈ unmet, CorrectionTracker.MayCorrect ledgers report.obligationId
      (correctionCap config caps report.obligationId) then return .next s
  else
    let ledgers ← unmet.foldlM CorrectionTracker.closeLedger ledgers
    return .done { s with ledgers }

/-- One turn of the loop. -/
def attemptTurn (caps : Dict String (Option ℤ)) (world : AttemptWorld) (s : LoopState) :
    Except Failure Turn := do
  let s := { s with attempt := s.attempt + 1 }
  world.started
  match currencyCheck P reprText config.toGovernedRunConfig world.gate world.now
      setting.recallView run.projection.obligations with
  | .error (.cyrano code _) => return .refused code s
  | .error e => .error e
  | .ok () =>
    let (outcome, events) ← sendPrompt P config setting world s
    match outcome with
    | .error (.cyrano code _) =>
      return .refused code { s with
        events, dispatched := s.dispatched || decide (0 < world.modelCalls) }
    | .error e => .error e
    | .ok receipt => do
      let reports ← reportsIn py P setting run world
      settleTurn config caps world { s with
        events, dispatched := true, receipts := s.receipts ++ [receipt], spent := s.spent + 1 }
        reports

/-- The turns of the loop, as long as attempts are left, and the refusal that ended them. -/
def attemptLoop (caps : Dict String (Option ℤ)) (worlds : ℕ → AttemptWorld) :
    ℕ → LoopState → Except Failure (LoopState × Option String)
  | 0, s => .ok (s, none)
  | left + 1, s => do
    match ← attemptTurn py P reprText config setting run caps (worlds s.attempt) s with
    | .next s => attemptLoop caps worlds left s
    | .done s => return (s, none)
    | .refused code s => return (s, some code)

/-- The statuses of a run, as far as its attempts leave them. -/
inductive RunStatus
  | satisfied | corrected | violated | unverifiable | refused | aborted
  deriving DecidableEq, Repr

/-- The status that the attempts leave. -/
def statusOf (s : LoopState) (refusal : Option String) : RunStatus :=
  if refusal.isSome then if s.dispatched then .aborted else .refused
  else if ObligationsSatisfied s.reports then
    if ∃ o ∈ run.projection.obligations, ∃ ledger ∈ s.ledgers.get? o.obligationId,
        ledger.firstFailure.isSome then .corrected
    else .satisfied
  else if ∃ report ∈ s.reports, report.verdict.state = .violated then .violated
  else .unverifiable

/-- What the attempts of a run leave. -/
structure AttemptsEnd where
  status : RunStatus
  refusalCode : Option String
  final : LoopState

/-- The attempts of a run. -/
def runAttempts (worlds : ℕ → AttemptWorld) : Except Failure AttemptsEnd := do
  let caps ← unitCaps config run
  let (final, refusalCode) ←
    attemptLoop py P reprText config setting run caps worlds config.maxAttempts.toNat {}
  return { status := statusOf run final refusalCode, refusalCode, final }

end

/-! ### What the loop has verified -/

/-- What the loop has verified: the reports of its attempts, in order, which the ledgers follow. -/
structure Verified (py : Python) (P : Primitives) (setting : AttemptSetting) (run : PreparedRun)
    (worlds : ℕ → AttemptWorld) (history : List (List ObligationCheckReport)) (s : LoopState) :
    Prop where
  attempts : history.length = s.attempt
  verified : ∀ k reports, history[k]? = some reports →
    reportsIn py P setting run (worlds k) = .ok reports
  last : s.reports = history.getLast?.getD []
  follows : s.ledgers.Follows history.flatten

/-- No failure of the last attempt was satisfied in an earlier one. -/
def NoRegression (py : Python) (P : Primitives) (setting : AttemptSetting) (run : PreparedRun)
    (worlds : ℕ → AttemptWorld) (attempts : ℕ) : Prop :=
  ∀ last, reportsIn py P setting run (worlds (attempts - 1)) = .ok last →
    ∀ report ∈ last, ¬report.Satisfied → ∀ k < attempts, ∀ reports,
      reportsIn py P setting run (worlds k) = .ok reports → ∀ earlier ∈ reports,
        earlier.obligationId = report.obligationId → ¬earlier.Satisfied

section

variable {py : Python} {P : Primitives} {reprText : String → String} {config : AttemptConfig}
  {setting : AttemptSetting} {run : PreparedRun} {worlds : ℕ → AttemptWorld}
  {caps : Dict String (Option ℤ)} {world : AttemptWorld} {s s' : LoopState} {turn : Turn}
  {history : List (List ObligationCheckReport)} {reports : List ObligationCheckReport}

/-- Each obligation has a report, and each report an obligation. -/
theorem reportsIn_spec (h : reportsIn py P setting run world = .ok reports) :
    (∀ o ∈ run.projection.obligations, ∃ report ∈ reports,
      report.obligationId = o.obligationId) ∧
    ∀ report ∈ reports, ∃ o ∈ run.projection.obligations,
      o.obligationId = report.obligationId := by
  have hreports := mapM_eq_ok.mp h
  constructor
  · intro o ho
    obtain ⟨report, hreport, heq⟩ := exists_of_mem_left hreports ho
    obtain ⟨verdict, -, rfl⟩ := except_map_eq_ok.mp heq
    exact ⟨_, hreport, rfl⟩
  · intro report hreport
    obtain ⟨o, ho, heq⟩ := exists_of_mem_right hreports hreport
    obtain ⟨verdict, -, rfl⟩ := except_map_eq_ok.mp heq
    exact ⟨o, ho, rfl⟩

/-- The state that a turn leaves. -/
def Turn.state : Turn → LoopState
  | .next s | .done s | .refused _ s => s

variable (config caps world reports) in
/-- The end of a turn keeps the reports, and the ledgers follow them. -/
theorem settleTurn_spec {before : List ObligationCheckReport} (h : s.ledgers.Follows before) :
    ∃ turn, settleTurn config caps world s reports = .ok turn ∧
      (∀ code s', turn ≠ .refused code s') ∧
      turn.state.attempt = s.attempt ∧ turn.state.reports = reports ∧
        turn.state.ledgers.Follows (before ++ reports) := by
  obtain ⟨ledgers, hledgers, hfollows⟩ := h.record_all
    { modelCalls := world.modelCalls, latencyMs := world.latencyMs, units := 1 }
    (correctionCap config caps) reports
  rw [settleTurn]
  simp only [hledgers, bind, Except.bind]
  split_ifs
  · exact ⟨_, rfl, by simp, rfl, rfl, hfollows⟩
  · exact ⟨_, rfl, by simp, rfl, rfl, hfollows⟩
  · obtain ⟨closed, hclosed, hfollows⟩ :=
      hfollows.close_all (reports.filter fun report => ¬report.Satisfied)
    rw [hclosed]
    exact ⟨_, rfl, by simp, rfl, rfl, hfollows⟩

/-- **What a turn does**: it is refused, or it verifies once more. -/
theorem attemptTurn_cases
    (h : attemptTurn py P reprText config setting run caps world s = .ok turn) :
    (∃ code s', turn = .refused code s') ∨
      ∃ reports s₁, reportsIn py P setting run world = .ok reports ∧
        s₁.attempt = s.attempt + 1 ∧ s₁.ledgers = s.ledgers ∧
          settleTurn config caps world s₁ reports = .ok turn := by
  obtain ⟨-, -, h⟩ := except_bind_eq_ok.mp h
  rcases hcurrent : currencyCheck P reprText config.toGovernedRunConfig world.gate world.now
      setting.recallView run.projection.obligations with (⟨code, message⟩ | e) | _
  · rw [hcurrent] at h
    exact .inl ⟨code, _, (Except.ok.inj h).symm⟩
  · rw [hcurrent] at h
    cases h
  rw [hcurrent] at h
  obtain ⟨⟨outcome, events⟩, -, h⟩ := except_bind_eq_ok.mp h
  rcases outcome with (⟨code, message⟩ | e) | receipt
  · exact .inl ⟨code, _, (Except.ok.inj h).symm⟩
  · cases h
  · obtain ⟨reports, hreports, h⟩ := except_bind_eq_ok.mp h
    refine .inr ⟨reports, _, hreports, ?_, ?_, h⟩ <;> rfl

/-- The reports of the attempts that were made. -/
theorem Verified.mem_flatten_iff (h : Verified py P setting run worlds history s)
    {report : ObligationCheckReport} :
    report ∈ history.flatten ↔ ∃ k < s.attempt, ∃ reports,
      reportsIn py P setting run (worlds k) = .ok reports ∧ report ∈ reports := by
  rw [List.mem_flatten]
  constructor
  · rintro ⟨reports, hreports, hreport⟩
    obtain ⟨k, hk⟩ := List.mem_iff_getElem?.mp hreports
    obtain ⟨hlt, -⟩ := List.getElem?_eq_some_iff.mp hk
    exact ⟨k, h.attempts ▸ hlt, reports, h.verified k reports hk, hreport⟩
  · rintro ⟨k, hk, reports, hok, hreport⟩
    rw [← h.attempts] at hk
    have hkth := h.verified k history[k] (List.getElem?_eq_getElem hk)
    rw [hok, Except.ok.injEq] at hkth
    exact ⟨history[k], List.getElem_mem hk, hkth ▸ hreport⟩

/-- A turn that is not refused verifies once more. -/
theorem Verified.concat (h : Verified py P setting run worlds history s)
    (hturn : attemptTurn py P reprText config setting run caps (worlds s.attempt) s = .ok turn)
    (hgoesOn : ∀ code s', turn ≠ .refused code s') :
    ∃ reports, Verified py P setting run worlds (history ++ [reports]) turn.state := by
  rcases attemptTurn_cases hturn with ⟨code, s', rfl⟩ |
    ⟨reports, s₁, hreports, hattempt, hledgers, hend⟩
  · exact absurd rfl (hgoesOn code s')
  have hfollows : s₁.ledgers.Follows history.flatten := hledgers ▸ h.follows
  obtain ⟨turn', hturn', -, hattempt', hreports', hfollows'⟩ :=
    settleTurn_spec config caps (worlds s.attempt) reports hfollows
  obtain rfl : turn' = turn := by rwa [hend, Except.ok.injEq, eq_comm] at hturn'
  refine ⟨reports, ?_, ?_, ?_, ?_⟩
  · rw [hattempt', hattempt, List.length_append, h.attempts, List.length_singleton]
  · intro k reports' hk
    rw [List.getElem?_append] at hk
    split_ifs at hk with hlt
    · exact h.verified k reports' hk
    · obtain ⟨hzero, rfl⟩ : k - history.length = 0 ∧ reports = reports' := by
        simpa [List.getElem?_singleton] using hk
      obtain rfl : k = s.attempt := by
        rw [← h.attempts]
        omega
      exact hreports
  · rw [hreports', List.getLast?_append]
    simp
  · rw [List.flatten_append, List.flatten_singleton]
    exact hfollows'

/-- **What the loop has verified when it ends without a refusal.** -/
theorem attemptLoop_spec {left : ℕ} {final : LoopState}
    (h : Verified py P setting run worlds history s)
    (hloop : attemptLoop py P reprText config setting run caps worlds left s = .ok (final, none)) :
    ∃ more, Verified py P setting run worlds (history ++ more) final := by
  induction left generalizing s history with
  | zero =>
    obtain ⟨rfl, -⟩ := Prod.mk.inj (Except.ok.inj hloop)
    exact ⟨[], by rwa [List.append_nil]⟩
  | succ left ih =>
    rw [attemptLoop] at hloop
    obtain ⟨turn, hturn, hloop⟩ := except_bind_eq_ok.mp hloop
    rcases turn with s' | s' | ⟨code, s'⟩
    · obtain ⟨reports, hverified⟩ := h.concat hturn (by simp)
      obtain ⟨more, hfinal⟩ := ih hverified hloop
      refine ⟨reports :: more, ?_⟩
      rwa [List.append_assoc] at hfinal
    · obtain ⟨reports, hverified⟩ := h.concat hturn (by simp)
      obtain ⟨rfl, -⟩ := Prod.mk.inj (Except.ok.inj hloop)
      exact ⟨[reports], hverified⟩
    · simp [pure, Except.pure] at hloop

/-- **When the ledgers of a run agree with its last reports**: when no failure of its last attempt
was satisfied in an earlier one. -/
theorem ledgersAgree_iff {ended : AttemptsEnd}
    (hrun : runAttempts py P reprText config setting run worlds = .ok ended)
    (hend : ended.refusalCode = none) :
    LedgersAgree run.projection.obligations ended.final.ledgers ended.final.reports ↔
      NoRegression py P setting run worlds ended.final.attempt := by
  obtain ⟨caps, -, hrun⟩ := except_bind_eq_ok.mp hrun
  obtain ⟨⟨final, refusal⟩, hloop, hrun⟩ := except_bind_eq_ok.mp hrun
  obtain rfl := Except.ok.inj hrun
  obtain rfl : refusal = none := hend
  have hstart : Verified py P setting run worlds [] {} :=
    ⟨rfl, by simp, rfl, CorrectionTracker.follows_nil⟩
  obtain ⟨history, hverified⟩ := attemptLoop_spec hstart hloop
  rw [List.nil_append] at hverified
  rcases List.eq_nil_or_concat' history with rfl | ⟨before, last, rfl⟩
  · -- no attempt was made
    have hzero : final.attempt = 0 := hverified.attempts.symm
    have hnone : final.reports = [] := hverified.last
    refine (hverified.follows.agree_iff (by simp [hnone]) (by simp [hnone]) ?_).trans ?_
    · exact fun _ _ hne => absurd rfl hne
    · simp [hnone, NoRegression, hzero]
  have hlast : final.reports = last := by simpa using hverified.last
  have hlength : final.attempt = before.length + 1 := by simp [← hverified.attempts]
  have hreports : reportsIn py P setting run (worlds (final.attempt - 1)) = .ok last :=
    hverified.verified _ _ (by simp [hlength])
  obtain ⟨hcovers, hnames⟩ := reportsIn_spec hreports
  rw [← hlast] at hcovers hnames
  refine (hverified.follows.agree_iff (by simp [hlast]) hnames fun o ho _ => hcovers o ho).trans ?_
  simp only [hlast, hverified.mem_flatten_iff]
  constructor
  · intro hnever last' hlast' report hreport hfails k hk reports hok earlier hearlier
    obtain rfl : last' = last := by rwa [hreports, Except.ok.injEq, eq_comm] at hlast'
    exact hnever report hreport hfails earlier ⟨k, hk, reports, hok, hearlier⟩
  · rintro hnever report hreport hfails earlier ⟨k, hk, reports, hok, hearlier⟩
    exact hnever last hreports report hreport hfails k hk reports hok earlier hearlier

end

/-! ### A correction that breaks what was satisfied -/

/-- The obligation of a rule with a checker. -/
def checkedBy (checkerId : String) : RuleObligation where
  obligationId := checkerId
  memoryId := checkerId
  revision := 1
  scopeId := "s"
  checkerId
  checkerDigest := checkerId
  spec := ⟨checkerId, checkerId, {}, [], ""⟩
  requirementId := checkerId
  acceptanceId := checkerId
  provenance := []

/-- Two obligations of one unit. -/
def twoObligations : PreparedRun where
  projection := ⟨[checkedBy "a", checkedBy "b"], []⟩
  plan := {
    planId := "p", revision := 1, requirements := ["a", "b"], budgetCap := some 4
    units := [{
      unitId := "u1", requirementIds := ["a", "b"], acceptanceIds := ["a", "b"]
      costCap := some 4 }] }
  attached := [("a", "u1"), ("b", "u1")]
  requirementsDoc := []
  subject := ⟨"p", "p", 1, [], "", "", "", "", some 4, [], none⟩
  subjectDigest := ""
  checkReport := { checks := [], violations := [], readyForReview := true }
  recallEvidence := none

/-- Each of the files `a.py` and `b.py` has to have a document. -/
def documentChecker (name : String) : CheckerSpec where
  checkerId := name
  kind := .pairedFiles
  params := [(.str "trigger", .str (name ++ ".py")), (.str "derive", .str (name ++ ".json"))]
  digest := name

/-- What the first attempt leaves: the document of `a.py`. -/
def firstTree : FileTree where
  nodes := .ofList [([], .directory), (["a.py"], .file .empty), (["b.py"], .file .empty),
    (["a.json"], .file ruleBody.toByteArray)]
  root := by decide
  parents := by decide
  names := by decide

/-- What the second attempt leaves: the document of `b.py`, and no longer that of `a.py`. -/
def secondTree : FileTree where
  nodes := .ofList [([], .directory), (["a.py"], .file .empty), (["b.py"], .file .empty),
    (["b.json"], .file ruleBody.toByteArray)]
  root := by decide
  parents := by decide
  names := by decide

/-- A run of the two obligations, with at most two attempts. -/
def twoAttempts : AttemptConfig where
  plan := twoObligations.plan
  scopeId := "s"
  requirementsDoc := []
  sourceSnapshot := []
  scope := []
  taskText := "document"
  maxAttempts := 2

/-- Its setting: the checkers of the two files, in an empty workspace. -/
def twoCheckers : AttemptSetting where
  permitId := "permit"
  contextDigest := ""
  handle := ⟨true, "lock"⟩
  registry := {
    specs := .ofList [("a", documentChecker "a"), ("b", documentChecker "b")], blobs := ∅ }
  root := []
  recallView := none

/-- An attempt that leaves a work tree, when nothing else changes. -/
def leaves (tree : FileTree) (touched : List String) : AttemptWorld where
  started := .ok ()
  gate := { availableSourceDigests := [], registry := ∅, isCurrent := fun _ _ => true }
  now := ⟨1, 1, 1, 1⟩
  revoked := false
  invoke _ := .ok "result"
  modelCalls := 1
  latencyMs := 1
  tree
  touched
  isCurrent _ _ := true
  view := none

/-- The first attempt documents `a.py`; the second one `b.py`, at the cost of `a.py`. -/
def backAndForth : ℕ → AttemptWorld
  | 0 => leaves firstTree ["a.json"]
  | _ => leaves secondTree ["a.json", "b.json"]

theorem exists_backAndForth : ∃ ended,
    runAttempts textPython rulePrimitives id twoAttempts twoCheckers twoObligations backAndForth =
      .ok ended ∧ ended.refusalCode = none ∧
        ended.final.ledgers.get? "a" = some ⟨"a", none, [], .satisfied, 0⟩ ∧
          ∃ report ∈ ended.final.reports, report.obligationId = "a" ∧ ¬report.Satisfied := by
  refine ⟨_, rfl, ?_, rfl, ?_⟩ <;> decide

/-- Whether the ledgers of this run agree is decided by its reports. -/
theorem ledgersAgree_iff_backAndForth : ∃ ended,
    runAttempts textPython rulePrimitives id twoAttempts twoCheckers twoObligations backAndForth =
      .ok ended ∧
      (LedgersAgree twoObligations.projection.obligations ended.final.ledgers ended.final.reports ↔
        NoRegression textPython rulePrimitives twoCheckers twoObligations backAndForth
          ended.final.attempt) := by
  obtain ⟨ended, hrun, hend, -⟩ := exists_backAndForth
  exact ⟨ended, hrun, ledgersAgree_iff hrun hend⟩

/-- **A ledger stays satisfied when its obligation is violated**: the second attempt corrects one
obligation and breaks the other. -/
theorem not_ledgersAgree : ¬∀ (py : Python) (P : Primitives) (reprText : String → String)
    (config : AttemptConfig) (setting : AttemptSetting) (run : PreparedRun)
    (worlds : ℕ → AttemptWorld) (ended : AttemptsEnd),
    runAttempts py P reprText config setting run worlds = .ok ended → ended.refusalCode = none →
      LedgersAgree run.projection.obligations ended.final.ledgers ended.final.reports := by
  intro hclaim
  obtain ⟨ended, hrun, hend, hledger, report, hreport, hid, hfails⟩ := exists_backAndForth
  have hagree := hclaim _ _ _ _ _ _ _ _ hrun hend
  exact hfails ((hagree.settled (checkedBy "a") List.mem_cons_self _ hledger (by decide)).2
    report hreport hid)

end Dcode

end CyranoAgent
