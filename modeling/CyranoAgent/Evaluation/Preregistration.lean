import CyranoAgent.Evaluation.Paired
import CyranoAgent.Workflow.Digests

/-!
# What a manifest id binds

The id of a manifest is the digest of eleven of its fields, texts in their normal form and families
sorted. The quality margin, the number of pairs, the changes and whether the provider is
nondeterministic are not among them, and a study compares nothing but the id. `bindsCriteria_iff`
says for which pairs of sealed experiments the id determines every criterion all the same.
-/

namespace CyranoAgent

open Lib Planning

variable {F : Type}

/-! ### What is sealed -/

/-- The sealed value of a manifest. -/
def EvaluationManifest.value (m : EvaluationManifest F) : PyValue :=
  sealedValue m.baselineDigest m.candidateDigest m.suiteDigest m.runtimeDigest m.planDigest
    m.policyDigest m.modelDigest m.routeDigest m.budgetUnits m.families m.holdout

/-- The digests a manifest names. -/
def EvaluationManifest.digests (m : EvaluationManifest F) : List String :=
  [m.baselineDigest, m.candidateDigest, m.suiteDigest, m.runtimeDigest, m.planDigest,
    m.policyDigest, m.modelDigest, m.routeDigest]

/-- The manifests are the same in what is sealed of them. -/
structure SealedMatch (P : Primitives) (m m' : EvaluationManifest F) : Prop where
  digests : m.digests.map (normalizeText P) = m'.digests.map (normalizeText P)
  budgetUnits : m.budgetUnits = m'.budgetUnits
  families : (sortedStrings m.families).map (normalizeText P) =
    (sortedStrings m'.families).map (normalizeText P)
  holdout : (sortedStrings m.holdout).map (normalizeText P) =
    (sortedStrings m'.holdout).map (normalizeText P)

/-- The experiments are judged by the same criteria, families and changes in any order. -/
structure SameCriteria (m m' : EvaluationManifest F) : Prop where
  digests : m.digests = m'.digests
  families : m.families.Perm m'.families
  holdout : m.holdout.Perm m'.holdout
  budgetUnits : m.budgetUnits.toInt = m'.budgetUnits.toInt
  qualityMargin : m.qualityMargin = m'.qualityMargin
  minPairs : m.minPairs.toInt = m'.minPairs.toInt
  nondeterministicProvider : m.nondeterministicProvider = m'.nondeterministicProvider
  changes : m.changes.Perm m'.changes

/-- The manifests agree in what is not sealed: the four criteria that are left out, and the texts
themselves. -/
structure UnsealedAgree (m m' : EvaluationManifest F) : Prop where
  qualityMargin : m.qualityMargin = m'.qualityMargin
  minPairs : m.minPairs.toInt = m'.minPairs.toInt
  nondeterministicProvider : m.nondeterministicProvider = m'.nondeterministicProvider
  changes : m.changes.Perm m'.changes
  texts : [m.digests, sortedStrings m.families, sortedStrings m.holdout] =
    [m'.digests, sortedStrings m'.families, sortedStrings m'.holdout]

/-- Manifests that match have the same criteria exactly when they agree in what is not sealed. -/
theorem SealedMatch.sameCriteria_iff {P : Primitives} {m m' : EvaluationManifest F}
    (h : SealedMatch P m m') : SameCriteria m m' ↔ UnsealedAgree m m' := by
  constructor
  · intro hsame
    refine ⟨hsame.qualityMargin, hsame.minPairs, hsame.nondeterministicProvider, hsame.changes, ?_⟩
    rw [hsame.digests, sortedStrings_eq_iff.mpr hsame.families,
      sortedStrings_eq_iff.mpr hsame.holdout]
  · intro hunsealed
    have htexts := hunsealed.texts
    simp only [List.cons.injEq, and_true] at htexts
    obtain ⟨hdigests, hfamilies, hholdout⟩ := htexts
    exact ⟨hdigests, sortedStrings_eq_iff.mp hfamilies, sortedStrings_eq_iff.mp hholdout,
      congrArg IntValue.toInt h.budgetUnits, hunsealed.qualityMargin, hunsealed.minPairs,
      hunsealed.nondeterministicProvider, hunsealed.changes⟩

section

variable {P : Primitives}

theorem sameText_intValue {n n' : IntValue} :
    SameText P n.toPy n'.toPy ↔ n = n' ∧ ∀ k, n = .int k → k.natAbs ≤ 2 ^ 53 - 1 := by
  cases n with
  | bool b =>
    cases n' with
    | bool b' => simp [IntValue.toPy, SameText, normalize, Json.sorted]
    | int k =>
      refine iff_of_false ?_ (by simp)
      rintro ⟨j, j', hj, hj', hsorted⟩
      obtain ⟨-, rfl⟩ := normalize_int_eq_ok.mp hj'
      rw [IntValue.toPy, normalize] at hj
      cases hj
      simp [Json.sorted] at hsorted
  | int k =>
    cases n' with
    | bool b =>
      refine iff_of_false ?_ (by simp)
      rintro ⟨j, j', hj, hj', hsorted⟩
      obtain ⟨-, rfl⟩ := normalize_int_eq_ok.mp hj
      rw [IntValue.toPy, normalize] at hj'
      cases hj'
      simp [Json.sorted] at hsorted
    | int k' => simp [IntValue.toPy]

/-- The sealed values have one text when the manifests match, and the budget is in range. -/
theorem sameText_value {m m' : EvaluationManifest F} :
    SameText P m.value m'.value ↔
      SealedMatch P m m' ∧ ∀ k, m.budgetUnits = .int k → k.natAbs ≤ 2 ^ 53 - 1 := by
  let fields (m : EvaluationManifest F) : List (String × PyValue) :=
    [("base", .str m.baselineDigest), ("cand", .str m.candidateDigest),
      ("suite", .str m.suiteDigest), ("runtime", .str m.runtimeDigest),
      ("plan", .str m.planDigest), ("policy", .str m.policyDigest),
      ("model", .str m.modelDigest), ("route", .str m.routeDigest),
      ("budget", m.budgetUnits.toPy), ("families", strings (sortedStrings m.families)),
      ("holdout", strings (sortedStrings m.holdout))]
  have hfields := sameText_record (P := P) ["base", "cand", "suite", "runtime", "plan", "policy",
    "model", "route", "budget", "families", "holdout"] (by decide) (by decide) (fields m)
    (fields m') rfl rfl
  refine hfields.trans ?_
  simp only [fields, List.forall₂_cons, List.forall₂_nil_left_iff, true_and, and_true, sameText_str,
    sameText_strings, sameText_intValue]
  constructor
  · rintro ⟨hbase, hcand, hsuite, hruntime, hplan, hpolicy, hmodel, hroute, ⟨hbudget, hrange⟩,
      hfamilies, hholdout⟩
    refine ⟨⟨?_, hbudget, hfamilies, hholdout⟩, hrange⟩
    simp only [EvaluationManifest.digests, List.map_cons, List.map_nil, hbase, hcand, hsuite,
      hruntime, hplan, hpolicy, hmodel, hroute]
  · rintro ⟨h, hrange⟩
    have hdigests := h.digests
    simp only [EvaluationManifest.digests, List.map_cons, List.map_nil, List.cons.injEq,
      and_true] at hdigests
    obtain ⟨hbase, hcand, hsuite, hruntime, hplan, hpolicy, hmodel, hroute⟩ := hdigests
    exact ⟨hbase, hcand, hsuite, hruntime, hplan, hpolicy, hmodel, hroute, ⟨h.budgetUnits, hrange⟩,
      h.families, h.holdout⟩

end

/-! ### Sealed experiments -/

section

variable {O : Objects F} {P : Primitives} {reprText : String → String} {spec spec' : Spec F}
  {m m' : EvaluationManifest F}

/-- **The id of a sealed experiment is the digest of its sealed value.** -/
theorem digest_value_of_sealed (h : sealExperiment O P spec = .ok m) :
    digest P m.value = .ok m.manifestId := by
  rw [sealExperiment] at h
  rcases hmissing : missingField? O spec with _ | key <;>
    simp only [hmissing, bind, Except.bind, pure, Except.pure, throw, throwThe,
      MonadExceptOf.throw, reduceCtorEq] at h
  rcases hcriteria : registeredCriteria spec with e | ⟨budget, minPairs⟩ <;>
    simp only [hcriteria, reduceCtorEq] at h
  split at h
  · cases h
  split at h
  · cases h
  split at h
  · cases h
  generalize hvalue : sealedValue _ _ _ _ _ _ _ _ _ _ _ = value at h
  rcases hid : digest P value with e | manifestId <;> simp only [hid, reduceCtorEq] at h
  rcases hmargin : (specField spec "quality_margin" .none).toFloat O with e | margin <;>
    simp only [hmargin, reduceCtorEq] at h
  cases h
  rw [EvaluationManifest.value, hvalue, hid]

/-- A study that reports has the specification's id, and reports it. -/
theorem manifestId_of_study {permit : Option (Spec F)} {trials : List TrialResult} {now : ℤ}
    {report : StudyReport F} (h' : sealExperiment O P spec' = .ok m')
    (h : runPreregisteredStudy O P reprText m spec' permit trials now = .ok report) :
    m.manifestId = m'.manifestId ∧ report.manifestId = m.manifestId := by
  rw [runPreregisteredStudy, h'] at h
  simp only [bind, Except.bind] at h
  split at h
  · cases h
  next hid =>
    rcases hpermit : authorizeExperiment O P spec' permit now with e | experiment <;>
      simp only [hpermit, pure, Except.pure, reduceCtorEq] at h
    split at h
    · cases h
    · cases h
      exact ⟨(not_not.mp hid).symm, rfl⟩

/-- The id of `m` binds the criteria of `m'`: equal ids have equal criteria, and a study that is
recorded under the one id was specified by the criteria of the other. -/
structure BindsCriteria (O : Objects F) (P : Primitives) (m : EvaluationManifest F)
    (spec' : Spec F) (m' : EvaluationManifest F) : Prop where
  equal_ids : m.manifestId = m'.manifestId → SameCriteria m m'
  studies : ∀ reprText permit trials now report,
    runPreregisteredStudy O P reprText m spec' permit trials now = .ok report →
      report.manifestId = m.manifestId ∧ SameCriteria m m'

/-- **When a manifest id binds the criteria**: unless the two experiments match in what is sealed,
up to the normal form of texts, and differ in the margin, the pairs, the changes or the provider,
or in a text whose normal form is the same. -/
theorem bindsCriteria_iff (h : sealExperiment O P spec = .ok m)
    (h' : sealExperiment O P spec' = .ok m') (hsha : CollisionFree P {m.value, m'.value}) :
    BindsCriteria O P m spec' m' ↔ (SealedMatch P m m' → UnsealedAgree m m') := by
  have hid := digest_value_of_sealed h
  have hrange : ∀ k, m.budgetUnits = .int k → k.natAbs ≤ 2 ^ 53 - 1 := by
    obtain ⟨v, hv⟩ := (digest_isOk P).mp ⟨_, hid⟩
    have hself : SameText P m.value m.value := ⟨v, v, hv, hv, rfl⟩
    exact (sameText_value.mp hself).2
  have hsame : m.manifestId = m'.manifestId ↔ SealedMatch P m m' := by
    rw [digest_eq_iff hsha hid (digest_value_of_sealed h'), sameText_value, and_iff_left hrange]
  constructor
  · intro hbinds hmatch
    exact hmatch.sameCriteria_iff.mp (hbinds.equal_ids (hsame.mpr hmatch))
  · intro hunsealed
    have hids (heq : m.manifestId = m'.manifestId) : SameCriteria m m' :=
      (hsame.mp heq).sameCriteria_iff.mpr (hunsealed (hsame.mp heq))
    refine ⟨hids, fun reprText permit trials now report hstudy => ?_⟩
    obtain ⟨heq, hreport⟩ := manifestId_of_study h' hstudy
    exact ⟨hreport, hids heq⟩

end

/-- Objects of which only the texts and the numbers matter, a number being its own float. -/
def plainObjects : Objects ℤ where
  ofInt := some
  nonzero n := n ≠ 0
  text
    | .str s => s
    | _ => ""
  text_str _ := rfl

/-- An experiment that wants this many pairs. -/
def pairedSpec (minPairs : ℤ) : Spec ℤ :=
  [("baseline_digest", .str "b"), ("candidate_digest", .str "c"), ("suite_digest", .str "s"),
    ("runtime_digest", .str "r"), ("plan_digest", .str "p"), ("budget_units", .int 10),
    ("quality_margin", .int 0), ("min_pairs", .int minPairs)]

theorem exists_sealed (minPairs : ℤ)
    (h : (sealExperiment plainObjects .ascii (pairedSpec minPairs)).isOk = true) :
    ∃ m, sealExperiment plainObjects .ascii (pairedSpec minPairs) = .ok m := by
  rcases hm : sealExperiment plainObjects .ascii (pairedSpec minPairs) with e | m
  · rw [hm] at h
    cases h
  · exact ⟨m, rfl⟩

/-- An experiment beside itself. -/
theorem bindsCriteria_iff_pairedSpec :
    ∃ m, sealExperiment plainObjects .ascii (pairedSpec 5) = .ok m ∧
      (BindsCriteria plainObjects .ascii m (pairedSpec 5) m ↔
        (SealedMatch .ascii m m → UnsealedAgree m m)) := by
  obtain ⟨m, hm⟩ := exists_sealed 5 (by decide +kernel)
  exact ⟨m, hm, bindsCriteria_iff hm hm (collisionFree_of_subsingleton (by simp))⟩

/-- No field is missing in such an experiment. -/
example : missingField? plainObjects (pairedSpec 5) = none := by decide +kernel

/-- **The pairs are not bound**: an experiment of five pairs and one of a single pair have the same
id. -/
theorem pairs_unbound :
    ∃ m m', sealExperiment plainObjects .ascii (pairedSpec 5) = .ok m ∧
      sealExperiment plainObjects .ascii (pairedSpec 1) = .ok m' ∧
      ¬BindsCriteria plainObjects .ascii m (pairedSpec 1) m' := by
  obtain ⟨m, hm⟩ := exists_sealed 5 (by decide +kernel)
  obtain ⟨m', hm'⟩ := exists_sealed 1 (by decide +kernel)
  refine ⟨m, m', hm, hm', fun hbinds => ?_⟩
  have hids : (sealExperiment plainObjects .ascii (pairedSpec 5)).map (·.manifestId) =
      (sealExperiment plainObjects .ascii (pairedSpec 1)).map (·.manifestId) := by decide +kernel
  have hpairs : (sealExperiment plainObjects .ascii (pairedSpec 5)).map (·.minPairs.toInt) =
      .ok 5 := by decide +kernel
  have hpairs' : (sealExperiment plainObjects .ascii (pairedSpec 1)).map (·.minPairs.toInt) =
      .ok 1 := by decide +kernel
  rw [hm, hm'] at hids
  rw [hm] at hpairs
  rw [hm'] at hpairs'
  have hfive : m.minPairs.toInt = 5 := Except.ok.inj hpairs
  have hone : m'.minPairs.toInt = 1 := Except.ok.inj hpairs'
  have hsame := (hbinds.equal_ids (Except.ok.inj hids)).minPairs
  rw [hfive, hone] at hsame
  exact absurd hsame (by decide)

end CyranoAgent
