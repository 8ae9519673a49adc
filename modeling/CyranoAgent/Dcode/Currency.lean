import CyranoAgent.Dcode.RuleCoverage

/-!
# The currency check of an approved run

`currencyCheck` is what a run does before each attempt and each model call: it asserts that the
obligations it has sealed are current, recalls again, and refuses to go on if a projection of what
it recalled has other obligations. The projection of the run is made under the kinds that its gate
admits, and that of the check is not. `reprojection_spec` says what the check makes of an unchanged
store, and `noFalseDrift_iff` when it agrees with the run.
-/

namespace CyranoAgent

open Lib Lib.Action Memory Kernel Planning

namespace Dcode

/-- The ids of the obligations are the same. -/
def SameIds (obligations obligations' : List RuleObligation) : Prop :=
  (∀ o ∈ obligations, ∃ o' ∈ obligations', o'.obligationId = o.obligationId) ∧
    ∀ o' ∈ obligations', ∃ o ∈ obligations, o.obligationId = o'.obligationId

instance (obligations obligations' : List RuleObligation) :
    Decidable (SameIds obligations obligations') := inferInstanceAs (Decidable (_ ∧ _))

section

variable (P : Primitives) (reprText : String → String) (config : GovernedRunConfig)
  (memory : MemoryGate) (now : Readings)

/-- What a check projects under: no kinds are admitted. -/
def recheckContext (fresh : RecallOutcome) : ProjectionContext where
  scopeId := config.scopeId
  now := now.projected
  availableSourceDigests := memory.availableSourceDigests
  ruleBodies := fresh.ruleBodies
  memoryView := some fresh.memoryView
  checkerDigests := memory.registry
  admittedKinds := []

/-- `drifted` in `currency_check`. -/
def reproject (fresh : RecallOutcome) : Except Failure ObligationProjection :=
  projectObligations P reprText (recheckContext config memory now fresh) fresh.records

/-- `currency_check`, of the obligations of a run and the view that it has recalled. A check reads
the clock twice: when it recalls and when it projects. -/
def currencyCheck (recallView : Option MemoryView) (obligations : List RuleObligation) :
    Except Failure Unit := do
  assertObligationsCurrent memory.isCurrent (memory.liveView.getD recallView) obligations
  match memory.recallTask with
  | none => return ()
  | some recallTask => do
    let fresh ← recallTask (recallContext config memory now)
    let drifted ← reproject P reprText config memory now fresh
    if SameIds drifted.obligations obligations then return ()
    else .error (.cyrano "OBLIGATION_DRIFT" "applicable rule set changed after approval; replan")

end

/-! ### What is unchanged, and what should follow -/

/-- The gate of a check recalls from the same store as that of the run, and has its sources and its
checkers. -/
structure Unchanged (memory memory' : MemoryGate) : Prop where
  recallTask : memory'.recallTask = memory.recallTask
  sources : memory'.availableSourceDigests = memory.availableSourceDigests
  registry : memory'.registry = memory.registry

/-- No record of the scope reaches its expiry: each is expired at all readings of the run and the
check, or at none. -/
def NoneExpires (S : MemoryStore) (config : GovernedRunConfig) (now later : Readings) : Prop :=
  ∀ r ∈ S.recordsOf config.scopeId, ∀ t ∈ [now.projected, later.recalled, later.projected],
    r.Unexpired t ↔ r.Unexpired now.recalled

/-- The check projects the very obligations of the run, and sees no drift. -/
structure NoFalseDrift (P : Primitives) (reprText : String → String) (config : GovernedRunConfig)
    (memory : MemoryGate) (later : Readings) (recallView : Option MemoryView) (run : ApprovedRun) :
    Prop where
  reprojected : ∃ recallTask fresh drifted, memory.recallTask = some recallTask ∧
    recallTask (recallContext config memory later) = .ok fresh ∧
      reproject P reprText config memory later fresh = .ok drifted ∧
        ∀ o, o ∈ drifted.obligations ↔ o ∈ run.projection.obligations
  silent : ∀ message, currencyCheck P reprText config memory later recallView
    run.projection.obligations ≠ .error (.cyrano "OBLIGATION_DRIFT" message)

/-- The body that is stored for a rule parses, and names a checker of the registry. -/
def HasChecker (P : Primitives) (reprText : String → String) (S : MemoryStore)
    (config : GovernedRunConfig) (memory : MemoryGate) (r : MemoryRecord) : Prop :=
  ∃ body spec checkerDigest, contentOf S config.scopeId r.contentDigest = some body ∧
    parseScopeRule P reprText body = .ok spec ∧
      memory.registry.get? spec.checkerId = some checkerDigest

/-- No rule that the run recalls and can check is of a kind that only its gate admits. -/
def OnlyScopeRules (P : Primitives) (reprText : String → String) (S : MemoryStore)
    (config : GovernedRunConfig) (memory : MemoryGate) (now : Readings)
    (queryTerms : Option (List String)) : Prop :=
  ∀ r, Applicable S config memory now r → WithinRecall S config memory now queryTerms r →
    HasChecker P reprText S config memory r → r.kind ∈ memory.admittedKinds → r.kind = ruleKind

/-! ### What the check makes of an unchanged store -/

section

variable {P : Primitives} {reprText : String → String} {limit : ℕ} {config : GovernedRunConfig}
  {memory memory' : MemoryGate} {approval : ApprovalGate} {now later : Readings}
  {prepared : PreparedRun} {run : ApprovedRun} {D D' : ApprovalDesk} {S : MemoryStore}
  {queryTerms : Option (List String)} {recallView : Option MemoryView} {r : MemoryRecord}
  {obligations : List RuleObligation}

theorem assertObligationsCurrent_ne_drift {isCurrent : String → ℤ → Bool} {view : Option MemoryView}
    (message : String) : assertObligationsCurrent isCurrent view obligations ≠
      .error (.cyrano "OBLIGATION_DRIFT" message) := by
  induction obligations with
  | nil => simp [assertObligationsCurrent]
  | cons o rest ih =>
    rw [assertObligationsCurrent]
    split_ifs
    · simp
    · simp
    · exact ih

/-- A recalled record is in force, so no view of the store revokes it. -/
theorem not_mem_revokedIds (hr : r ∈ S.recordsOf config.scopeId) (hactive : r.status = .active) :
    r.memoryId ∉ revokedIds S config.scopeId := by
  intro hmem
  obtain ⟨r', hr', hid⟩ : ∃ r' ∈ (S.recordsOf config.scopeId).filter fun r => r.status ≠ .active,
      r'.memoryId = r.memoryId := by
    simpa [revokedIds, sortedSet, sortedStrings] using hmem
  obtain ⟨hr', hother⟩ := List.mem_filter.mp hr'
  obtain rfl := List.inj_on_of_nodup_map (nodup_ids_recordsOf S config.scopeId) hr' hr hid
  exact of_decide_eq_true hother hactive

/-- A recalled rule is projected exactly when its kind is registered and it has a checker. -/
theorem ruleOf_recalled_iff {C : ProjectionContext} {result : RecallResult} {viewDigest : String}
    (hbodies : C.ruleBodies = bodiesOf S config.scopeId result.records ∅)
    (hview : C.memoryView = some ⟨viewDigest, "task-recall", revokedIds S config.scopeId⟩)
    (hregistry : C.checkerDigests = memory.registry)
    (hids : (result.records.map (·.memoryId)).Nodup) (hmem : r ∈ result.records)
    (hr : r ∈ S.recordsOf config.scopeId) (hrule : IsScopeRule r)
    (heligible : Eligible C.now C.availableSourceDigests r) :
    (∃ rule, ruleOf P reprText C r = .ok rule) ↔ r.kind ∈ registeredRuleKinds C.admittedKinds ∧
      HasChecker P reprText S config memory r := by
  have husable : ∀ view ∈ C.memoryView, Usable r.memoryId view := by
    rw [hview]
    rintro view hmem
    obtain rfl := Option.mem_some_iff.mp hmem
    exact not_mem_revokedIds hr heligible.1
  have hbody : C.ruleBodies.get? r.memoryId = contentOf S config.scopeId r.contentDigest := by
    rw [hbodies]
    exact get?_bodiesOf hids hmem hrule rfl
  simp only [ruleOf_eq_ok_iff, lifecycleReason_eq_none_iff, hbody, hregistry]
  constructor
  · rintro ⟨rule, ⟨-, -, hkind⟩, body, hcontent, hparse, hchecker⟩
    exact ⟨hkind, body, rule.1, rule.2, hcontent, hparse, hchecker⟩
  · rintro ⟨hkind, body, spec, checkerDigest, hcontent, hparse, hchecker⟩
    exact ⟨(spec, checkerDigest), ⟨heligible, husable, hkind⟩, body, hcontent, hparse, hchecker⟩

/-- Whether a record of the scope is eligible does not change if none expires. -/
theorem eligible_iff_of_noneExpires (hnone : NoneExpires S config now later)
    (hr : r ∈ S.recordsOf config.scopeId) {t : ℤ}
    (ht : t ∈ [now.projected, later.recalled, later.projected]) (sources : List String) :
    Eligible t sources r ↔ Eligible now.recalled sources r := by
  rw [Eligible, Eligible, hnone r hr t ht]

/-- The check recalls what the run has recalled. -/
theorem recalled_again {recalled : RecallOutcome} {result : RecallResult}
    (hfound : RecallOf P S { recallContext config memory now with queryTerms } recalled result)
    (hsame : Unchanged memory memory') (hnone : NoneExpires S config now later) :
    ∃ fresh,
      recallThrough P reprText S queryTerms (recallContext config memory' later) = .ok fresh ∧
        fresh.records = recalled.records ∧ fresh.ruleBodies = recalled.ruleBodies ∧
          fresh.memoryView = recalled.memoryView := by
  have hselect : selectRecall (S.recordsOf config.scopeId) config.scopeId later.recalled
      memory.availableSourceDigests queryTerms config.recallLimit = .ok result := by
    refine (selectRecall_congr fun r hr _ => ?_).trans hfound.selected
    exact eligible_iff_of_noneExpires hnone hr (by simp) _
  obtain ⟨fresh, hfresh, hfound'⟩ := taskRecall_later hfound hselect
  have hcontext : recallContext config memory' later =
      { recallContext config memory now with now := later.recalled } := by
    rw [recallContext, recallContext, hsame.sources]
  refine ⟨fresh, ?_, hfound'⟩
  rw [hcontext]
  exact congrArg Prod.fst hfresh

/-- **What the check makes of an unchanged store**: it projects no other obligations than those of
the run, and all of them exactly when each rule that the run recalls and can check is a
`scope_rule`. -/
theorem reprojection_spec
    (hrecall : memory.recallTask = some (recallThrough P reprText S queryTerms))
    (hprepare : prepareRun P reprText limit config memory now = .ok (.goesOn prepared))
    (hsame : Unchanged memory memory') (hnone : NoneExpires S config now later) :
    ∃ fresh drifted,
      recallThrough P reprText S queryTerms (recallContext config memory' later) = .ok fresh ∧
        reproject P reprText config memory' later fresh = .ok drifted ∧
        drifted.obligations ⊆ prepared.projection.obligations ∧
        (prepared.projection.obligations ⊆ drifted.obligations ↔
          OnlyScopeRules P reprText S config memory now queryTerms) := by
  obtain ⟨recalled, result, hfound, -, hproject⟩ := recalled_of_prepareRun hrecall hprepare
  obtain ⟨fresh, hfresh, hrecords, hbodies, hview⟩ := recalled_again hfound hsame hnone
  obtain ⟨viewDigest, -, hrecalledView⟩ := hfound.view
  let C := projectionContext config memory now ⟨recalled.records, recalled.ruleBodies,
    some recalled.memoryView, some recalled.evidence⟩
  let C' := recheckContext config memory' later fresh
  have hscope : ∀ r ∈ S.recordsOf config.scopeId, r.scopeId = config.scopeId := fun r hr =>
    (MemoryStore.key_of_record? (MemoryStore.mem_recordsOf.mp hr)).1
  have hmem : ∀ r ∈ result.records, (r ∈ S.recordsOf config.scopeId ∧
      Eligible now.recalled memory.availableSourceDigests r) ∧
        WithinRecall S config memory now queryTerms r := fun r => hfound.mem_records_iff.mp
  have hids := nodup_ids_selectRecall hfound.selected hscope
    (nodup_ids_recordsOf S config.scopeId)
  -- what each of the two projections makes of a recalled rule
  have heligible : ∀ r ∈ result.records,
      Eligible now.projected memory.availableSourceDigests r := fun r hr =>
    (eligible_iff_of_noneExpires hnone (hmem r hr).1.1 (by simp) _).mpr (hmem r hr).1.2
  have hprojects : ∀ r ∈ result.records, IsScopeRule r →
      ((∃ rule, ruleOf P reprText C r = .ok rule) ↔
        r.kind ∈ registeredRuleKinds memory.admittedKinds ∧
          HasChecker P reprText S config memory r) := fun r hr hrule =>
    ruleOf_recalled_iff hfound.ruleBodies (congrArg some hrecalledView) rfl hids hr
      (hmem r hr).1.1 hrule (heligible r hr)
  have hprojects' : ∀ r ∈ result.records, IsScopeRule r →
      ((∃ rule, ruleOf P reprText C' r = .ok rule) ↔
        r.kind ∈ registeredRuleKinds [] ∧ HasChecker P reprText S config memory r) := by
    intro r hr hrule
    refine ruleOf_recalled_iff (hbodies.trans hfound.ruleBodies)
      (congrArg some (hview.trans hrecalledView)) hsame.registry hids hr (hmem r hr).1.1 hrule ?_
    have hlater : Eligible later.projected memory.availableSourceDigests r :=
      (eligible_iff_of_noneExpires hnone (hmem r hr).1.1 (by simp) _).mpr (hmem r hr).1.2
    rw [← hsame.sources] at hlater
    exact hlater
  have hfewer : ∀ r ∈ result.records, ∀ rule, ruleOf P reprText C' r = .ok rule →
      ruleOf P reprText C r = .ok rule := fun r hr rule =>
    ruleOf_mono (congrArg some hview.symm) hbodies.symm hsame.registry.symm (heligible r hr)
      fun hkind => List.mem_cons.mpr (.inl (List.mem_singleton.mp hkind))
  have hsorted : ∀ {r}, r ∈ result.records.insertionSort (fun r r' => r.memoryId ≤ r'.memoryId) ↔
      r ∈ result.records := List.mem_insertionSort _
  have hsortedIds := (List.perm_insertionSort (fun r r' : MemoryRecord => r.memoryId ≤ r'.memoryId)
    result.records).map (·.memoryId) |>.nodup_iff.mpr hids
  rw [projectObligations] at hproject
  obtain ⟨drifted, hdrifted, hsub, hiff⟩ := projectFrom_restrict
    (show C'.scopeId = C.scopeId from rfl) (fun r hr => hfewer r (hsorted.mp hr))
    (fun r hr => hscope r (hmem r (hsorted.mp hr)).1.1) hsortedIds (fun _ _ => List.not_mem_nil)
    hproject
  refine ⟨fresh, drifted, hfresh, ?_, hsub, hiff.trans ?_⟩
  · rw [reproject, projectObligations, hrecords, hfound.records]
    exact hdrifted
  constructor
  · intro hall r happlicable hwithin hchecker hadmitted
    have hr : r ∈ result.records := hfound.mem_records_iff.mpr
      ⟨⟨MemoryStore.mem_recordsOf.mpr happlicable.stored, happlicable.eligible⟩, hwithin⟩
    obtain ⟨rule, hruleOf⟩ := (hprojects r hr happlicable.rule).mpr
      ⟨(mem_registeredRuleKinds_iff happlicable.rule).mpr (.inr hadmitted), hchecker⟩
    have hruleOf' := hall r (hsorted.mpr hr) happlicable.rule rule hruleOf
    exact List.mem_singleton.mp ((hprojects' r hr happlicable.rule).mp ⟨rule, hruleOf'⟩).1
  · intro honly r hr hrule rule hruleOf
    have hr := hsorted.mp hr
    obtain ⟨hkind, hchecker⟩ := (hprojects r hr hrule).mp ⟨rule, hruleOf⟩
    have hscopeRule : r.kind = ruleKind := by
      rcases (mem_registeredRuleKinds_iff hrule).mp hkind with hkind | hadmitted
      · exact hkind
      · exact honly r ⟨MemoryStore.mem_recordsOf.mp (hmem r hr).1.1, hrule, (hmem r hr).1.2⟩
          (hmem r hr).2 hchecker hadmitted
    obtain ⟨rule', hruleOf'⟩ := (hprojects' r hr hrule).mpr
      ⟨List.mem_singleton.mpr hscopeRule, hchecker⟩
    have hboth := hfewer r hr rule' hruleOf'
    rw [hruleOf] at hboth
    rw [Except.ok.inj hboth]
    exact hruleOf'

/-- A check agrees with a prepared run exactly when each rule that this recalls and can check is a
`scope_rule`. -/
theorem noFalseDrift_iff_of_prepared
    (hrecall : memory.recallTask = some (recallThrough P reprText S queryTerms))
    (hprepare : prepareRun P reprText limit config memory now = .ok (.goesOn run.toPreparedRun))
    (hsame : Unchanged memory memory') (hnone : NoneExpires S config now later) :
    NoFalseDrift P reprText config memory' later recallView run ↔
      OnlyScopeRules P reprText S config memory now queryTerms := by
  obtain ⟨fresh, drifted, hfresh, hdrifted, hsub, hiff⟩ :=
    reprojection_spec hrecall hprepare hsame hnone
  have hrecall' := hsame.recallTask.trans hrecall
  rw [← hiff]
  constructor
  · rintro ⟨⟨recallTask, fresh', drifted', htask, hfresh', hdrifted', hall⟩, -⟩
    rw [hrecall', Option.some.injEq] at htask
    subst htask
    rw [hfresh, Except.ok.injEq] at hfresh'
    subst hfresh'
    rw [hdrifted, Except.ok.injEq] at hdrifted'
    subst hdrifted'
    exact fun o ho => (hall o).mpr ho
  · intro hall
    refine ⟨⟨_, fresh, drifted, hrecall', hfresh, hdrifted, fun o => ⟨@hsub o, @hall o⟩⟩, ?_⟩
    intro message herror
    have hids : SameIds drifted.obligations run.projection.obligations :=
      ⟨fun o ho => ⟨o, hsub ho, rfl⟩, fun o ho => ⟨o, hall ho, rfl⟩⟩
    rw [currencyCheck] at herror
    rcases hcurrent : assertObligationsCurrent memory'.isCurrent
        (memory'.liveView.getD recallView) run.projection.obligations with e | _
    · rw [hcurrent] at herror
      obtain rfl := Except.error.inj herror
      exact assertObligationsCurrent_ne_drift message hcurrent
    · simp [hcurrent, hrecall', hfresh, hdrifted, hids, bind, Except.bind, pure,
        Except.pure] at herror

/-- **When the check raises no false drift**: when no rule that the run recalls, with a body that
parses and a registered checker, is of a kind that only the gate of the run admits. -/
theorem noFalseDrift_iff
    (hrecall : memory.recallTask = some (recallThrough P reprText S queryTerms))
    (hrun : (runGovernedWork P reprText limit config memory approval now).run D =
      (.ok (.goesOn run), D'))
    (hsame : Unchanged memory memory') (hnone : NoneExpires S config now later) :
    NoFalseDrift P reprText config memory' later recallView run ↔
      OnlyScopeRules P reprText S config memory now queryTerms :=
  noFalseDrift_iff_of_prepared hrecall (runGovernedWork_eq_ok hrun).1 hsame hnone

end

/-- A check of the run that recalls a note and a rule, at a later time. -/
theorem noFalseDrift_iff_noteAndRule : ∃ run, (runOf [] 2).1 = .ok (.goesOn run) ∧
    (NoFalseDrift rulePrimitives id (oneUnitRun [] 2) recallGate ⟨7, 7, 7, 7⟩ none run ↔
      OnlyScopeRules rulePrimitives id noteAndRule (oneUnitRun [] 2) recallGate ⟨1, 1, 1, 1⟩
        none) := by
  obtain ⟨run, D', hrun⟩ := exists_runOf [] 2 (by decide +kernel)
  have hnone : NoneExpires noteAndRule (oneUnitRun [] 2) ⟨1, 1, 1, 1⟩ ⟨7, 7, 7, 7⟩ := by
    unfold NoneExpires
    decide
  exact ⟨run, congrArg Prod.fst hrun, noFalseDrift_iff rfl hrun ⟨rfl, rfl, rfl⟩ hnone⟩

/-! ### A kind that only the gate of a run admits -/

/-- A rule of a kind of its own. -/
def styleRule : MemoryStore where
  rows := [⟨activeRecord "m1" "scope_rule.style" 0, ruleBody.toByteArray⟩]
  unique := by decide
  bindable := by decide

/-- A gate that recalls the rule, and admits its kind. -/
def styleGate : MemoryGate where
  availableSourceDigests := ["src"]
  registry := .ofList [("pytest", "sha256:c")]
  isCurrent _ _ := true
  recallTask := some (recallThrough rulePrimitives id styleRule none)
  admittedKinds := ["scope_rule.style"]

/-- **A false drift**: the run is approved with the obligation of a rule of an admitted kind, which
the check of the unchanged store does not project. -/
theorem not_noFalseDrift : ¬∀ (P : Primitives) (reprText : String → String) (limit : ℕ)
    (config : GovernedRunConfig) (memory memory' : MemoryGate) (approval : ApprovalGate)
    (now later : Readings) (D D' : ApprovalDesk) (S : MemoryStore)
    (queryTerms : Option (List String)) (recallView : Option MemoryView) (run : ApprovedRun),
    memory.recallTask = some (recallThrough P reprText S queryTerms) →
      (runGovernedWork P reprText limit config memory approval now).run D =
        (.ok (.goesOn run), D') →
      Unchanged memory memory' → NoneExpires S config now later →
      NoFalseDrift P reprText config memory' later recallView run := by
  intro hclaim
  have hgoesOn : Proceeding.GoesOn (prepareRun rulePrimitives id 9 (oneUnitRun [] 2) styleGate
      ⟨1, 1, 1, 1⟩) := by decide +kernel
  obtain ⟨prepared, hprepare⟩ := Proceeding.goesOn_iff.mp hgoesOn
  obtain ⟨run, D', hrun, hprepared⟩ := exists_approved ⟨"ada", none⟩ hprepare rfl
    (show (1 : ℤ) < 1 + 3600 by decide)
  have hnone : NoneExpires styleRule (oneUnitRun [] 2) ⟨1, 1, 1, 1⟩ ⟨1, 1, 1, 1⟩ := by
    unfold NoneExpires
    decide
  have hlaw := hclaim _ _ _ _ _ styleGate _ _ _ _ _ _ none none run rfl hrun ⟨rfl, rfl, rfl⟩ hnone
  rw [noFalseDrift_iff_of_prepared rfl (hprepared ▸ hprepare) ⟨rfl, rfl, rfl⟩ hnone] at hlaw
  have happlicable : Applicable styleRule (oneUnitRun [] 2) styleGate ⟨1, 1, 1, 1⟩
      (activeRecord "m1" "scope_rule.style" 0) := ⟨by decide, by decide, by decide⟩
  have hchecker : HasChecker rulePrimitives id styleRule (oneUnitRun [] 2) styleGate
      (activeRecord "m1" "scope_rule.style" 0) :=
    ⟨ruleBody.toByteArray, ⟨"tests", "pytest", ⟨[], []⟩, [], ""⟩, "sha256:c", by decide,
      by decide, by decide⟩
  have hkind := hlaw _ happlicable ⟨by decide, by decide⟩ hchecker (by decide)
  exact absurd hkind (by decide)

end Dcode

end CyranoAgent
