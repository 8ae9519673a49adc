import CyranoAgent.Dcode.GovernedRun

/-!
# What becomes of the rules of a scope

An approved run binds each rule that its recall returned, or names why it is excluded
(`bound_or_named_iff`). A rule that the recall leaves behind its limit, or that the query does not
ask for, is neither bound nor named: `noRuleDropped_iff` says when there is none.
-/

namespace CyranoAgent

open Lib Lib.Action Memory Kernel Planning

namespace Dcode

section

variable {P : Primitives} {reprText : String → String} {limit : ℕ} {config : GovernedRunConfig}
  {memory : MemoryGate} {approval : ApprovalGate} {now : Readings} {inputs : RunInputs}
  {projection : ObligationProjection} {attachment : ObligationAttachment}
  {prepared : PreparedRun} {run : ApprovedRun} {D D' : ApprovalDesk}

/-! ### What an approved run went through -/

/-- The record of the desk is of the subject. -/
theorem subjectDigest_of_askApproval {subjectDigest text : String} {record : DisplayRecord}
    {outcome : DecisionResult}
    (h : (askApproval P reprText config approval now subjectDigest text).run D =
      (.ok (record, outcome), D')) : record.subjectDigest = subjectDigest := by
  obtain ⟨record', D₁, hpresent, h⟩ := bind_eq_ok.mp h
  obtain ⟨⟨⟩, D₂, hopen, h⟩ := bind_eq_ok.mp h
  obtain ⟨outcome', D₃, hsubmit, h⟩ := bind_eq_ok.mp h
  obtain ⟨rfl, rfl⟩ : record' = record ∧ outcome' = outcome := by simpa using congrArg Prod.fst h
  rw [ApprovalDesk.present, run_bind_ok (run_modify _ D), run_bind_ok (run_get _)] at hpresent
  obtain ⟨displayDigest, D₄, -, hpresent⟩ := bind_eq_ok.mp hpresent
  rw [run_bind_ok (run_modify _ _), run_pure] at hpresent
  exact Except.ok.inj (congrArg Prod.fst hpresent) ▸ rfl

/-- What a run has sealed before it asks for approval. -/
structure Sealed (P : Primitives) (config : GovernedRunConfig) (prepared : PreparedRun) : Prop where
  requirementsDoc : config.requirementsDoc.get? "obligations" = none ∧ prepared.requirementsDoc =
    config.requirementsDoc ++ obligationsRequirementsDoc prepared.projection.obligations
  subject : buildSubject P prepared.plan prepared.requirementsDoc config.sourceSnapshot
    config.scope "subject" = .ok prepared.subject
  digest : subjectDigest P prepared.subject = .ok prepared.subjectDigest

theorem sealRun_eq_ok
    (h : sealRun P reprText limit config memory inputs projection attachment =
      .ok (.goesOn prepared)) :
    Sealed P config prepared ∧ prepared.projection = projection ∧
      prepared.plan = attachment.plan ∧ prepared.recallEvidence = inputs.evidence := by
  rw [sealRun] at h
  split_ifs at h with hclash
  · cases h
  obtain ⟨subject, hsubject, h⟩ := except_bind_eq_ok.mp h
  obtain ⟨sealed, hdigest, h⟩ := except_bind_eq_ok.mp h
  obtain ⟨report, -, h⟩ := except_bind_eq_ok.mp h
  dsimp only at h
  split_ifs at h with hready
  · cases h
  cases hcurrent : assertObligationsCurrent memory.isCurrent (memory.liveView.getD inputs.view)
    projection.obligations with
  | error e =>
    rw [hcurrent] at h
    cases e with
    | cyrano code message => cases h
    | python type message => cases h
  | ok _ =>
    rw [hcurrent] at h
    obtain rfl : _ = prepared := by simpa using h
    exact ⟨⟨⟨by simpa using hclash, rfl⟩, hsubject, hdigest⟩, rfl, rfl, rfl⟩

/-- A run that goes on has projected its inputs and bound all of their obligations. -/
theorem prepareRun_eq_ok
    (h : prepareRun P reprText limit config memory now = .ok (.goesOn prepared)) :
    ∃ inputs, runInputs config memory now = .ok inputs ∧
      projectObligations P reprText (projectionContext config memory now inputs) inputs.records =
        .ok prepared.projection ∧
      prepared.recallEvidence = inputs.evidence ∧ Sealed P config prepared ∧
      ∀ o ∈ prepared.projection.obligations, Binds prepared.plan o := by
  rw [prepareRun] at h
  cases hinputs : runInputs config memory now with
  | error e =>
    rw [hinputs] at h
    cases e with
    | cyrano code message => cases h
    | python type message => cases h
  | ok inputs =>
    rw [hinputs] at h
    obtain ⟨projection, hprojection, h⟩ := except_bind_eq_ok.mp h
    dsimp only at h
    split_ifs at h with hbound
    · cases h
    obtain ⟨hunattached, -⟩ := not_or.mp hbound
    obtain ⟨hsealed, rfl, hplan, hevidence⟩ := sealRun_eq_ok h
    refine ⟨inputs, rfl, hprojection, hevidence, hsealed, fun o ho => ?_⟩
    rw [hplan]
    refine (binds_attachObligations ho).resolve_left fun hmem => ?_
    rw [not_not.mp hunattached] at hmem
    exact List.not_mem_nil hmem

/-- An approved run was prepared, and approved for the subject that it had sealed. -/
theorem runGovernedWork_eq_ok
    (h : (runGovernedWork P reprText limit config memory approval now).run D =
      (.ok (.goesOn run), D')) :
    prepareRun P reprText limit config memory now = .ok (.goesOn run.toPreparedRun) ∧
      run.record.subjectDigest = run.subjectDigest ∧ run.outcome.status = .approved := by
  obtain ⟨outcome, D₁, hlift, h⟩ := bind_eq_ok.mp h
  obtain ⟨hprepare, -⟩ := lift_eq_ok.mp hlift
  cases outcome with
  | refused evidence => cases h
  | goesOn prepared =>
    obtain ⟨⟨record, outcome⟩, D₂, hask, h⟩ := bind_eq_ok.mp h
    dsimp only at h
    split_ifs at h with happroved
    · cases h
    · obtain rfl : _ = run := by simpa using congrArg Prod.fst h
      exact ⟨hprepare, subjectDigest_of_askApproval hask, not_not.mp happroved⟩

end

/-! ### Rules that are dropped -/

/-- The recall of a gate: `task_recall` over the live store, with the query terms of the gate. -/
def recallThrough (P : Primitives) (reprText : String → String) (S : MemoryStore)
    (queryTerms : Option (List String)) (context : RecallContext) : Except Failure RecallOutcome :=
  (runAlone reprText (taskRecall P { context with queryTerms }) S).1

/-- A rule of the scope that is active, unexpired, from an available source and evidenced when the
run recalls. -/
structure Applicable (S : MemoryStore) (config : GovernedRunConfig) (memory : MemoryGate)
    (now : Readings) (r : MemoryRecord) : Prop where
  stored : S.record? config.scopeId r.memoryId = some r
  rule : IsScopeRule r
  eligible : Eligible now.recalled memory.availableSourceDigests r

/-- The obligation is bound into the subject that the run had approved: the subject is sealed over a
plan and a requirements document that both name it. -/
structure BoundInto (P : Primitives) (config : GovernedRunConfig) (run : ApprovedRun)
    (o : RuleObligation) : Prop where
  projected : o ∈ run.projection.obligations
  binds : Binds run.plan o
  documented : ∃ entries entry, run.requirementsDoc.get? "obligations" = some (.dict entries) ∧
    (.str o.obligationId, entry) ∈ entries
  sealed : Sealed P config run.toPreparedRun
  approved : run.record.subjectDigest = run.subjectDigest ∧ run.outcome.status = .approved

/-- The id is among those that the evidence of the run excludes. -/
def Named (run : ApprovedRun) (memoryId : String) : Prop :=
  memoryId ∈ run.projection.excluded.map Prod.fst ∨
    ∃ evidence ∈ run.recallEvidence, memoryId ∈ evidence.excluded.map Prod.fst

/-- Every rule that applies is bound or named. -/
def NoRuleDropped (P : Primitives) (S : MemoryStore) (config : GovernedRunConfig)
    (memory : MemoryGate) (now : Readings) (run : ApprovedRun) : Prop :=
  ∀ r, Applicable S config memory now r →
    (∃ o, SourceOf r o ∧ BoundInto P config run o) ∨ Named run r.memoryId

/-- The query asks for the record, and fewer records than the limit come before it. -/
def WithinRecall (S : MemoryStore) (config : GovernedRunConfig) (memory : MemoryGate)
    (now : Readings) (queryTerms : Option (List String)) (r : MemoryRecord) : Prop :=
  AskedFor queryTerms r ∧ recallRank (S.recordsOf config.scopeId) now.recalled
    memory.availableSourceDigests queryTerms r < config.recallLimit

section

variable {P : Primitives} {reprText : String → String} {limit : ℕ} {config : GovernedRunConfig}
  {memory : MemoryGate} {approval : ApprovalGate} {now : Readings} {prepared : PreparedRun}
  {run : ApprovedRun} {D D' : ApprovalDesk} {S : MemoryStore} {queryTerms : Option (List String)}
  {r : MemoryRecord}

/-- What is projected is documented. -/
theorem documented_of_sealed (h : Sealed P config prepared) {o : RuleObligation}
    (ho : o ∈ prepared.projection.obligations) :
    ∃ entries entry, prepared.requirementsDoc.get? "obligations" = some (.dict entries) ∧
      (.str o.obligationId, entry) ∈ entries := by
  obtain ⟨hnone, hdoc⟩ := h.requirementsDoc
  have hkey : o.obligationId ∈ (obligationEntries prepared.projection.obligations).keys := by
    refine Dict.mem_keys_ofList_iff.mpr ?_
    simp only [List.map_map, List.mem_map, List.mem_insertionSort, Function.comp_apply]
    exact ⟨o, ho, rfl⟩
  obtain ⟨entry, hentry, hid⟩ := List.mem_map.mp hkey
  have hdocumented : prepared.requirementsDoc.get? "obligations" =
      some (.dict ((obligationEntries prepared.projection.obligations).entries.map fun entry =>
        (.str entry.1, entry.2))) := by
    rw [PyMapping.get?, Option.map_eq_none_iff] at hnone
    rw [hdoc, PyMapping.get?, List.find?_append, hnone, Option.none_or]
    rfl
  exact ⟨_, entry.2, hdocumented, List.mem_map.mpr ⟨entry, hentry, by rw [hid]⟩⟩

/-- A run that goes on with the recall of a store has projected what this recalled. -/
theorem recalled_of_prepareRun
    (hrecall : memory.recallTask = some (recallThrough P reprText S queryTerms))
    (hprepare : prepareRun P reprText limit config memory now = .ok (.goesOn prepared)) :
    ∃ recalled result,
      RecallOf P S { recallContext config memory now with queryTerms } recalled result ∧
        prepared.recallEvidence = some recalled.evidence ∧
        projectObligations P reprText (projectionContext config memory now ⟨recalled.records,
          recalled.ruleBodies, some recalled.memoryView, some recalled.evidence⟩) result.records =
            .ok prepared.projection := by
  obtain ⟨inputs, hinputs, hproject, hevidence, -, -⟩ := prepareRun_eq_ok hprepare
  rw [runInputs, hrecall] at hinputs
  obtain ⟨recalled, hcall, rfl⟩ := except_map_eq_ok.mp hinputs
  obtain ⟨result, hfound⟩ := taskRecall_eq_ok (Prod.ext hcall rfl)
  rw [hfound.records] at hproject
  exact ⟨recalled, result, hfound, hevidence, hproject⟩

/-- What a recall selects from a store: records of the scope that are eligible and asked for, if
fewer than the limit come before them. -/
theorem RecallOf.mem_records_iff {recalled : RecallOutcome} {result : RecallResult}
    (h : RecallOf P S { recallContext config memory now with queryTerms } recalled result) :
    r ∈ result.records ↔ (r ∈ S.recordsOf config.scopeId ∧
      Eligible now.recalled memory.availableSourceDigests r) ∧
        WithinRecall S config memory now queryTerms r := by
  have hscope : ∀ r' ∈ S.recordsOf config.scopeId, r'.scopeId = config.scopeId := fun r' hr' =>
    (MemoryStore.key_of_record? (MemoryStore.mem_recordsOf.mp hr')).1
  refine (mem_selectRecall_iff h.selected hscope (nodup_ids_recordsOf S config.scopeId)).trans ?_
  simp only [WithinRecall, and_assoc]
  exact Iff.rfl

/-- **What becomes of an applicable rule**: an approved run binds it or names it exactly when its
recall returned it. -/
theorem bound_or_named_iff
    (hrecall : memory.recallTask = some (recallThrough P reprText S queryTerms))
    (hrun : (runGovernedWork P reprText limit config memory approval now).run D =
      (.ok (.goesOn run), D')) (h : Applicable S config memory now r) :
    ((∃ o, SourceOf r o ∧ BoundInto P config run o) ∨ Named run r.memoryId) ↔
      WithinRecall S config memory now queryTerms r := by
  obtain ⟨hprepare, happroved⟩ := runGovernedWork_eq_ok hrun
  obtain ⟨_, -, -, -, hsealed, hbinds⟩ := prepareRun_eq_ok hprepare
  obtain ⟨recalled, result, hfound, hevidence, hproject⟩ := recalled_of_prepareRun hrecall hprepare
  have hscope : ∀ r' ∈ S.recordsOf config.scopeId, r'.scopeId = config.scopeId := fun r' hr' =>
    (MemoryStore.key_of_record? (MemoryStore.mem_recordsOf.mp hr')).1
  have hids := nodup_ids_recordsOf S config.scopeId
  have hr : r ∈ S.recordsOf config.scopeId := MemoryStore.mem_recordsOf.mpr h.stored
  -- the recall names only what is not eligible
  have hnamed : ¬∃ evidence ∈ run.recallEvidence, r.memoryId ∈ evidence.excluded.map Prod.fst := by
    rintro ⟨evidence, hmem, hid⟩
    rw [hevidence, Option.mem_some_iff] at hmem
    subst hmem
    obtain ⟨r', hr', hother, hsame⟩ :=
      (mem_excluded_selectRecall_iff hfound.selected hscope).mp (hfound.mem_excluded_iff.mp hid)
    obtain rfl := List.inj_on_of_nodup_map hids hr' hr hsame
    exact hother h.eligible
  have hprojected := projectObligations_iff hproject (hscope r hr) h.rule fun r' hr' hid =>
    List.inj_on_of_nodup_map hids (hfound.mem_records_iff.mp hr').1.1 hr hid
  have hbound : (∃ o, SourceOf r o ∧ BoundInto P config run o) ↔
      ∃ o ∈ run.projection.obligations, SourceOf r o := by
    constructor
    · rintro ⟨o, hsource, hinto⟩
      exact ⟨o, hinto.projected, hsource⟩
    · rintro ⟨o, ho, hsource⟩
      exact ⟨o, hsource, ho, hbinds o ho, documented_of_sealed hsealed ho, hsealed, happroved⟩
  rw [Named, or_iff_left hnamed, hbound, hprojected, hfound.mem_records_iff]
  exact and_iff_right ⟨hr, h.eligible⟩

/-- **When an approved run drops no rule**: when the query asks for each rule that applies, and
fewer records than the limit come before it. Recall names neither what it cuts off at its limit nor
what the query does not ask for. -/
theorem noRuleDropped_iff
    (hrecall : memory.recallTask = some (recallThrough P reprText S queryTerms))
    (hrun : (runGovernedWork P reprText limit config memory approval now).run D =
      (.ok (.goesOn run), D')) :
    NoRuleDropped P S config memory now run ↔
      ∀ r, Applicable S config memory now r → WithinRecall S config memory now queryTerms r :=
  forall_congr' fun _ => imp_congr_right fun h => bound_or_named_iff hrecall hrun h

/-! ### Runs that are approved -/

variable (P reprText) in
/-- A new desk approves what it is asked, in time. -/
theorem exists_askApproval (hchoose : approval.decide = none)
    (hlive : now.submitted < now.presented + config.permitTtl) (subjectDigest text : String) :
    ∃ record outcome D', (askApproval P reprText config approval now subjectDigest text).run {} =
      (.ok (record, outcome), D') ∧ outcome.status = .approved := by
  obtain ⟨shown, hshown⟩ := ApprovalDesk.exists_digest_shown P text subjectDigest
  let record : DisplayRecord := ⟨"req" ++ toString (0 + 1), 1, shown, subjectDigest,
    approval.audience, config.runId ++ "-nonce", now.presented + config.permitTtl, "execute", []⟩
  let presented : ApprovalDesk := { seq := 1, requests := [record] }
  have hrequest : presented.request? record.requestId = some record := by
    simp [presented, ApprovalDesk.request?]
  have hopen : (ApprovalDesk.openDisplay record.requestId).run presented =
      (.ok (), { presented with opened := [record.requestId] }) := by
    rw [ApprovalDesk.openDisplay, run_bind_ok (run_get _), hrequest]
    rfl
  let asked : Submit := {
    requestId := record.requestId, actor := approval.audience, nonce := record.nonce
    decision := "approve", shownText := text, displayRevision := 1
    clientEventId := config.runId ++ "-decision", now := now.submitted }
  obtain ⟨receipt, hreceipt⟩ := ApprovalDesk.exists_digest_receipt P record asked
  have hsubmit := ApprovalDesk.run_submit_approve (P := P) reprText
    (D := { presented with opened := [record.requestId] }) (s := asked) hrequest rfl rfl rfl
    hlive hshown rfl rfl (List.mem_singleton_self _) ⟨rfl, rfl⟩ hreceipt
  have hask : (askApproval P reprText config approval now subjectDigest text).run {} =
      (.ok (record, ⟨.approved, "approve", some receipt, ["*"]⟩), ApprovalDesk.decided
        { presented with opened := [record.requestId] } (config.runId ++ "-decision")
        ⟨.approved, "approve", some receipt, ["*"]⟩) := by
    rw [askApproval, hchoose, run_bind_ok (ApprovalDesk.run_present hshown _ _ _ _ _)]
    refine (run_bind_ok hopen).trans ?_
    exact run_bind_ok hsubmit
  exact ⟨record, _, _, hask, rfl⟩

variable (approval) in
/-- A run that goes on and asks a new desk is approved. -/
theorem exists_approved
    (hprepare : prepareRun P reprText limit config memory now = .ok (.goesOn prepared))
    (hchoose : approval.decide = none)
    (hlive : now.submitted < now.presented + config.permitTtl) :
    ∃ run D', (runGovernedWork P reprText limit config memory approval now).run {} =
      (.ok (.goesOn run), D') ∧ run.toPreparedRun = prepared := by
  obtain ⟨record, outcome, D', hask, happroved⟩ :=
    exists_askApproval P reprText hchoose hlive prepared.subjectDigest (shownText prepared)
  refine ⟨{ prepared with record, outcome }, D', ?_, rfl⟩
  rw [runGovernedWork, hprepare, run_bind_ok (run_lift_ok _ _)]
  refine (run_bind_ok hask).trans ?_
  dsimp only
  rw [if_neg (not_not.mpr happroved)]
  rfl

end

/-! ### A note ahead of a rule -/

/-- An active record of the scope. -/
def activeRecord (memoryId kind : String) (rank : ℤ) : MemoryRecord where
  memoryId
  revision := 2
  scopeId := "s"
  kind
  status := .active
  contentDigest := "sha256:" ++ memoryId
  sourceDigest := "src"
  evidenceRefs := ["e"]
  createdAt := 1
  expiresAt := none
  supersedes := none
  rank

/-- A rule that the checker `pytest` checks. -/
def ruleBody : String := "\x7b\"rule_id\": \"tests\", \"checker_id\": \"pytest\"\x7d"

/-- The primitives on ASCII text, with the rule as the only document that they decode. -/
def rulePrimitives : Primitives := { Primitives.ascii with
  loads := fun data => if data = ruleBody.toByteArray then
      some (.dict [(.str "rule_id", .str "tests"), (.str "checker_id", .str "pytest")])
    else none }

/-- A note, and a rule of a lower rank. -/
def noteAndRule : MemoryStore where
  rows := [⟨activeRecord "m1" "fact" 1, .empty⟩,
    ⟨activeRecord "m2" "scope_rule" 0, ruleBody.toByteArray⟩]
  unique := by decide
  bindable := by decide

/-- A run with one unit of work for the requirements, and a recall limit. -/
def oneUnitRun (requirements : List String) (recallLimit : ℤ) : GovernedRunConfig where
  plan := {
    planId := "p", revision := 1, requirements, budgetCap := some 1
    units := [{
      unitId := "u1", requirementIds := requirements, acceptanceIds := requirements
      writePaths := ["src/a.py"], testRecipe := some "pytest", testOracle := some "exit 0"
      costCap := some 1 }] }
  scopeId := "s"
  requirementsDoc := []
  sourceSnapshot := []
  scope := []
  recallLimit

/-- A gate that recalls from the store. -/
def recallGate : MemoryGate where
  availableSourceDigests := ["src"]
  registry := .ofList [("pytest", "sha256:c")]
  isCurrent _ _ := true
  recallTask := some (recallThrough rulePrimitives id noteAndRule none)

/-- The run, on a new desk. -/
def runOf (requirements : List String) (recallLimit : ℤ) :
    Except Failure (Proceeding ApprovedRun) × ApprovalDesk :=
  (runGovernedWork rulePrimitives id 9 (oneUnitRun requirements recallLimit) recallGate
    ⟨"ada", none⟩ ⟨1, 1, 1, 1⟩).run {}

/-- The run is approved, if it comes that far. -/
theorem exists_runOf (requirements : List String) (recallLimit : ℤ)
    (h : Proceeding.GoesOn (prepareRun rulePrimitives id 9 (oneUnitRun requirements recallLimit)
      recallGate ⟨1, 1, 1, 1⟩)) :
    ∃ run D', runOf requirements recallLimit = (.ok (.goesOn run), D') := by
  obtain ⟨prepared, hprepare⟩ := Proceeding.goesOn_iff.mp h
  obtain ⟨run, D', hrun, -⟩ := exists_approved ⟨"ada", none⟩ hprepare rfl
    (show (1 : ℤ) < 1 + 3600 by decide)
  exact ⟨run, D', hrun⟩

/-- The rule is within a limit of two, and the run with it drops no rule. -/
theorem noRuleDropped_iff_two : ∃ run, (runOf [] 2).1 = .ok (.goesOn run) ∧
    (NoRuleDropped rulePrimitives noteAndRule (oneUnitRun [] 2) recallGate ⟨1, 1, 1, 1⟩ run ↔
      ∀ r, Applicable noteAndRule (oneUnitRun [] 2) recallGate ⟨1, 1, 1, 1⟩ r →
        WithinRecall noteAndRule (oneUnitRun [] 2) recallGate ⟨1, 1, 1, 1⟩ none r) := by
  obtain ⟨run, D', hrun⟩ := exists_runOf [] 2 (by decide +kernel)
  exact ⟨run, congrArg Prod.fst hrun, noRuleDropped_iff rfl hrun⟩

/-- **A rule is dropped**: with a limit of one, a note of a higher rank takes the place of the rule,
and the run is approved without an obligation and without a word about the rule. -/
theorem not_noRuleDropped : ¬∀ (P : Primitives) (reprText : String → String) (limit : ℕ)
    (config : GovernedRunConfig) (memory : MemoryGate) (approval : ApprovalGate) (now : Readings)
    (D D' : ApprovalDesk) (S : MemoryStore) (queryTerms : Option (List String)) (run : ApprovedRun),
    memory.recallTask = some (recallThrough P reprText S queryTerms) →
      (runGovernedWork P reprText limit config memory approval now).run D =
        (.ok (.goesOn run), D') →
      NoRuleDropped P S config memory now run := by
  intro hclaim
  obtain ⟨run, D', hrun⟩ := exists_runOf ["R1"] 1 (by decide +kernel)
  have hlaw := hclaim _ _ _ _ _ _ _ _ _ _ none run rfl hrun
  have happlicable : Applicable noteAndRule (oneUnitRun ["R1"] 1) recallGate ⟨1, 1, 1, 1⟩
      (activeRecord "m2" "scope_rule" 0) := ⟨by decide, by decide, by decide⟩
  have hwithin : WithinRecall noteAndRule (oneUnitRun ["R1"] 1) recallGate ⟨1, 1, 1, 1⟩ none
      (activeRecord "m2" "scope_rule" 0) :=
    (bound_or_named_iff rfl hrun happlicable).mp (hlaw _ happlicable)
  exact absurd hwithin.2 (by decide)

end Dcode

end CyranoAgent
