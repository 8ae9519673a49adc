import CyranoAgent.Lib.Dict
import CyranoAgent.Lib.Glob
import CyranoAgent.Memory.Service
import CyranoAgent.Planning.Validation

/-!
# Obligations

A `scope_rule` memory becomes an obligation of a plan only through `projectObligations`, which drops
a record with a reason or projects it once. `attachObligations` links the obligations into the
requirements and the units of a plan.

`json.loads` makes string keys only; the message of a body that is no JSON ends with the text of the
decoder, which is left out.
-/

namespace CyranoAgent

open Lib

namespace Memory

/-- `RULE_KIND`. -/
def ruleKind : String := "scope_rule"

/-- A text starts with another one. -/
def StartsWith (text start : String) : Prop := start.toList <+: text.toList

instance (text start : String) : Decidable (StartsWith text start) :=
  inferInstanceAs (Decidable (_ <+: _))

/-- `registered_rule_kinds`. -/
def registeredRuleKinds (admitted : List String) : List String :=
  ruleKind :: admitted.filter fun k => StartsWith k (ruleKind ++ ".")

/-- `OPERATIONS`. -/
def operations : List String := ["create", "modify", "rename", "delete", "repair"]

/-- `RuleSelector`. -/
structure RuleSelector where
  writeGlobs : List String := []
  operations : List String := []
  deriving DecidableEq, Repr

/-- `RuleException`. -/
structure RuleException where
  exceptionId : String
  pathGlobs : List String
  deriving DecidableEq, Repr

/-- `ScopeRuleSpec`. -/
structure ScopeRuleSpec where
  ruleId : String
  checkerId : String
  selector : RuleSelector
  exceptions : List RuleException
  summary : String
  deriving DecidableEq, Repr

/-- `RuleObligation`. -/
structure RuleObligation where
  obligationId : String
  memoryId : String
  revision : ℤ
  scopeId : String
  checkerId : String
  checkerDigest : String
  spec : ScopeRuleSpec
  requirementId : String
  acceptanceId : String
  provenance : List String
  deriving DecidableEq, Repr

/-- `ObligationProjection`. -/
structure ObligationProjection where
  obligations : List RuleObligation
  excluded : List (String × String)
  deriving DecidableEq, Repr

/-! ### The body of a rule -/

section

variable (P : Primitives) (reprText : String → String)

/-- `CyranoError("INPUT_INVALID", message)`. -/
def invalid (message : String) : Failure := .cyrano "INPUT_INVALID" message

/-- `_str_tuple`. -/
def strTuple (value : PyValue) (field : String) : Except Failure (List String) :=
  match value with
  | .list items =>
    match items.mapM fun item => match item with
      | .str s => if s = "" then none else some s
      | _ => none with
    | some texts => .ok texts
    | none => .error (invalid (field ++ " holds non-strings"))
  | _ => .error (invalid (field ++ " must be a list"))

/-- The keys of a mapping that are not allowed. -/
def unknownKeys (mapping : PyMapping) (allowed : List String) : List String :=
  mapping.filterMap fun entry => match entry.1 with
    | .str key => if key ∈ allowed then none else some key
    | .other => none

/-- The check of the keys of a mapping. -/
def checkKeys (mapping : PyMapping) (allowed : List String) (what : String) : Except Failure Unit :=
  if unknownKeys mapping allowed = [] then .ok ()
  else .error (invalid (what ++ " unknown keys " ++
    Planning.reprStrings reprText (Planning.sortedSet (unknownKeys mapping allowed))))

/-- A text that has to be there and not empty. -/
def neededText (value : Option PyValue) (message : String) : Except Failure String :=
  match value with
  | some (.str s) => if s = "" then .error (invalid message) else .ok s
  | _ => .error (invalid message)

/-- One of the exceptions of a rule. -/
def parseException (index : ℕ) (item : PyValue) : Except Failure RuleException :=
  match item with
  | .dict entries => do
    checkKeys reprText entries ["exception_id", "path_globs"] "exception"
    let exceptionId ← neededText (PyMapping.get? entries "exception_id")
      "exception needs exception_id"
    let pathGlobs ← strTuple ((PyMapping.get? entries "path_globs").getD (.list [])) "path_globs"
    return { exceptionId, pathGlobs }
  | _ => .error (invalid ("exception " ++ toString index ++ " must be a mapping"))

/-- The exceptions of a rule. -/
def parseExceptions (value : PyValue) : Except Failure (List RuleException) :=
  match value with
  | .list items => (items.zipIdx).mapM fun item => parseException reprText item.2 item.1
  | _ => .error (invalid "exceptions must be a list")

/-- The selector of a rule. -/
def parseSelector (value : PyValue) : Except Failure RuleSelector :=
  match value with
  | .dict entries => do
    checkKeys reprText entries ["write_globs", "operations"] "applicability"
    let writeGlobs ← strTuple ((PyMapping.get? entries "write_globs").getD (.list [])) "write_globs"
    let ops ← strTuple ((PyMapping.get? entries "operations").getD (.list [])) "operations"
    let bad := ops.filter (· ∉ operations)
    if bad ≠ [] then
      .error (invalid ("operations " ++
        Planning.reprStrings reprText (Planning.sortedSet bad) ++ " unsupported"))
    else return { writeGlobs, operations := ops }
  | _ => .error (invalid "applicability must be a mapping")

/-- `parse_scope_rule`. -/
def parseScopeRule (content : ByteArray) : Except Failure ScopeRuleSpec :=
  match P.loads content with
  | none => .error (invalid "scope_rule body is not JSON: ")
  | some (.dict body) => do
    checkKeys reprText body ["rule_id", "checker_id", "applicability", "exceptions", "summary"]
      "scope_rule"
    let ruleId ← neededText (PyMapping.get? body "rule_id") "scope_rule needs rule_id"
    let checkerId ← neededText (PyMapping.get? body "checker_id") "scope_rule needs checker_id"
    let selector ← parseSelector reprText ((PyMapping.get? body "applicability").getD (.dict []))
    let exceptions ← parseExceptions reprText ((PyMapping.get? body "exceptions").getD (.list []))
    match (PyMapping.get? body "summary").getD (.str "") with
    | .str summary => return { ruleId, checkerId, selector, exceptions, summary }
    | _ => .error (invalid "summary must be a string")
  | some _ => .error (invalid "scope_rule body must be a mapping")

end

/-! ### Projection -/

/-- `is_scope_rule`. -/
def IsScopeRule (r : MemoryRecord) : Prop :=
  r.kind = ruleKind ∨ StartsWith r.kind (ruleKind ++ ".")

instance (r : MemoryRecord) : Decidable (IsScopeRule r) := inferInstanceAs (Decidable (_ ∨ _))

/-- `obligation_requirement_id`. -/
def obligationRequirementId (memoryId : String) (revision : ℤ) : String :=
  "RULE:" ++ memoryId ++ ":r" ++ toString revision

/-- `obligation_acceptance_id`. -/
def obligationAcceptanceId (memoryId : String) (revision : ℤ) (checkerId : String) : String :=
  "RULE:" ++ memoryId ++ ":r" ++ toString revision ++ ":" ++ checkerId

/-- `MemoryView`. -/
structure MemoryView where
  viewDigest : String
  releaseDigest : String
  revokedIds : List String
  deriving DecidableEq, Repr

/-- `memory_entry_usable`. -/
def Usable (entryId : String) (view : MemoryView) : Prop := entryId ∉ view.revokedIds

instance (entryId : String) (view : MemoryView) : Decidable (Usable entryId view) :=
  inferInstanceAs (Decidable (_ ∉ _))

/-- What a projection is made under. -/
structure ProjectionContext where
  scopeId : String
  now : ℤ
  availableSourceDigests : List String
  ruleBodies : Dict String ByteArray
  memoryView : Option MemoryView
  checkerDigests : Dict String String
  admittedKinds : List String

section

variable (P : Primitives) (reprText : String → String) (C : ProjectionContext)

/-- Why the record is not eligible, if it is not. -/
def lifecycleReason (r : MemoryRecord) : Option String :=
  if r.status ≠ .active then some ("inactive:" ++ r.status.text)
  else if ¬r.Unexpired C.now then some "expired"
  else if r.sourceDigest ∉ C.availableSourceDigests then some "stale_source"
  else if r.evidenceRefs = [] then some "no_evidence"
  else if ∃ view ∈ C.memoryView, ¬Usable r.memoryId view then some "revoked"
  else if r.kind ∉ registeredRuleKinds C.admittedKinds then some "unregistered_kind"
  else none

/-- The code of an exception. -/
def codeOf : Failure → String
  | .cyrano code _ => code
  | .python type _ => type

/-- The specification of a rule and the digest of its checker, or the reason why there is none. -/
def ruleOf (r : MemoryRecord) : Except String (ScopeRuleSpec × String) :=
  match lifecycleReason C r with
  | some reason => .error reason
  | none =>
    match C.ruleBodies.get? r.memoryId with
    | none => .error "no_rule_body"
    | some body =>
      match parseScopeRule P reprText body with
      | .error e => .error ("invalid_rule:" ++ codeOf e)
      | .ok spec =>
        match C.checkerDigests.get? spec.checkerId with
        | none => .error "checker_unresolved"
        | some checkerDigest => .ok (spec, checkerDigest)

/-- What the id of an obligation is a digest of. -/
def obligationValue (r : MemoryRecord) (spec : ScopeRuleSpec) : PyValue :=
  .dict [(.str "memory_id", .str r.memoryId), (.str "revision", .int r.revision),
    (.str "checker_id", .str spec.checkerId), (.str "scope_id", .str r.scopeId)]

/-- The obligation of a rule. -/
def obligationOf (r : MemoryRecord) (spec : ScopeRuleSpec) (checkerDigest obligationId : String) :
    RuleObligation where
  obligationId
  memoryId := r.memoryId
  revision := r.revision
  scopeId := r.scopeId
  checkerId := spec.checkerId
  checkerDigest
  spec
  requirementId := obligationRequirementId r.memoryId r.revision
  acceptanceId := obligationAcceptanceId r.memoryId r.revision spec.checkerId
  provenance := r.sourceDigest :: r.evidenceRefs

/-- The loop of `project_obligations`, `seen` being the ids already met. -/
def projectFrom : List String → List MemoryRecord → Except Failure ObligationProjection
  | _, [] => .ok ⟨[], []⟩
  | seen, r :: rest =>
    if r.scopeId ≠ C.scopeId ∨ ¬IsScopeRule r ∨ r.memoryId ∈ seen then projectFrom seen rest
    else
      match ruleOf P reprText C r with
      | .error reason => do
        let projection ← projectFrom (r.memoryId :: seen) rest
        return { projection with excluded := (r.memoryId, reason) :: projection.excluded }
      | .ok (spec, checkerDigest) => do
        let obligationId ← digest P (obligationValue r spec)
        let projection ← projectFrom (r.memoryId :: seen) rest
        return { projection with
          obligations := obligationOf r spec checkerDigest obligationId :: projection.obligations }

/-- `project_obligations`. -/
def projectObligations (records : List MemoryRecord) : Except Failure ObligationProjection :=
  projectFrom P reprText C [] (records.insertionSort fun r r' => r.memoryId ≤ r'.memoryId)

end

/-- The kinds of rules, without admitted ones. -/
@[simp] theorem registeredRuleKinds_nil : registeredRuleKinds [] = [ruleKind] := rfl

/-- A rule is of a registered kind if it is a `scope_rule`, or of an admitted kind. -/
theorem mem_registeredRuleKinds_iff {r : MemoryRecord} (hrule : IsScopeRule r)
    {admitted : List String} :
    r.kind ∈ registeredRuleKinds admitted ↔ r.kind = ruleKind ∨ r.kind ∈ admitted := by
  rw [registeredRuleKinds, List.mem_cons, List.mem_filter, decide_eq_true_eq]
  constructor
  · exact Or.imp_right And.left
  · rintro (hkind | hadmitted)
    · exact .inl hkind
    · exact hrule.imp_right fun hstarts => ⟨hadmitted, hstarts⟩

/-! ### What a projection makes of a record -/

/-- The record is the source of the obligation. -/
structure SourceOf (r : MemoryRecord) (o : RuleObligation) : Prop where
  memoryId : o.memoryId = r.memoryId
  revision : o.revision = r.revision
  scopeId : o.scopeId = r.scopeId
  provenance : o.provenance = r.sourceDigest :: r.evidenceRefs

theorem sourceOf_obligationOf (r : MemoryRecord) (spec : ScopeRuleSpec)
    (checkerDigest obligationId : String) :
    SourceOf r (obligationOf r spec checkerDigest obligationId) := ⟨rfl, rfl, rfl, rfl⟩

section

variable {P : Primitives} {reprText : String → String} {C : ProjectionContext}
  {seen : List String} {r : MemoryRecord} {records : List MemoryRecord}
  {projection : ObligationProjection}

/-- A record is eligible for a projection: for a recall, in the view and by its kind. -/
theorem lifecycleReason_eq_none_iff :
    lifecycleReason C r = none ↔ Eligible C.now C.availableSourceDigests r ∧
      (∀ view ∈ C.memoryView, Usable r.memoryId view) ∧
        r.kind ∈ registeredRuleKinds C.admittedKinds := by
  have hnext : ∀ (c : Prop) [Decidable c] (reason : String) (rest : Option String),
      (if c then some reason else rest) = none ↔ ¬c ∧ rest = none := by
    intro c _ reason rest
    by_cases hc : c
    · simp [hc]
    · simp [hc]
  have hview : (¬∃ view ∈ C.memoryView, ¬Usable r.memoryId view) ↔
      ∀ view ∈ C.memoryView, Usable r.memoryId view := by
    push Not
    exact Iff.rfl
  rw [lifecycleReason, hnext, hnext, hnext, hnext, hnext, hnext, hview, Eligible]
  simp only [ne_eq, not_not, and_true, and_assoc]

/-- **What is projected**: an eligible record with a body that parses and a registered checker. -/
theorem ruleOf_eq_ok_iff {rule : ScopeRuleSpec × String} :
    ruleOf P reprText C r = .ok rule ↔ lifecycleReason C r = none ∧
      ∃ body, C.ruleBodies.get? r.memoryId = some body ∧
        parseScopeRule P reprText body = .ok rule.1 ∧
          C.checkerDigests.get? rule.1.checkerId = some rule.2 := by
  rw [ruleOf]
  cases lifecycleReason C r with
  | some reason => simp
  | none =>
    cases C.ruleBodies.get? r.memoryId with
    | none => simp
    | some body =>
      rcases hparse : parseScopeRule P reprText body with e | spec
      · simp [hparse]
      · rcases hchecker : C.checkerDigests.get? spec.checkerId with _ | checkerDigest
        · simp only [hparse, hchecker, reduceCtorEq, false_iff]
          rintro ⟨-, body', hbody, hspec, hdigest⟩
          obtain rfl := Option.some.inj hbody
          rw [hparse] at hspec
          obtain rfl := Except.ok.inj hspec
          rw [hchecker] at hdigest
          cases hdigest
        · simp only [hparse, hchecker, Except.ok.injEq, true_and]
          constructor
          · rintro rfl
            exact ⟨body, rfl, hparse, hchecker⟩
          · rintro ⟨body', hbody, hspec, hdigest⟩
            obtain rfl := Option.some.inj hbody
            rw [hparse] at hspec
            obtain rfl := Except.ok.inj hspec
            rw [hchecker] at hdigest
            exact Prod.ext rfl (Option.some.inj hdigest)

/-- A rule that is projected is projected under any context in which it is eligible, with the same
view, bodies and checkers, and which registers its kind. -/
theorem ruleOf_mono {C' : ProjectionContext} {rule : ScopeRuleSpec × String}
    (hview : C.memoryView = C'.memoryView) (hbodies : C.ruleBodies = C'.ruleBodies)
    (hcheckers : C.checkerDigests = C'.checkerDigests)
    (heligible : Eligible C.now C.availableSourceDigests r)
    (hkind : r.kind ∈ registeredRuleKinds C'.admittedKinds →
      r.kind ∈ registeredRuleKinds C.admittedKinds)
    (h : ruleOf P reprText C' r = .ok rule) : ruleOf P reprText C r = .ok rule := by
  rw [ruleOf_eq_ok_iff, lifecycleReason_eq_none_iff] at h ⊢
  obtain ⟨⟨-, husable, hregistered⟩, hrule⟩ := h
  rw [hview, hbodies, hcheckers]
  exact ⟨⟨heligible, husable, hkind hregistered⟩, hrule⟩

/-- **What the loop does with its first record**: it passes it over, excludes it with a reason, or
projects it under a digest. -/
theorem projectFrom_cons_iff :
    projectFrom P reprText C seen (r :: records) = .ok projection ↔
      ((r.scopeId ≠ C.scopeId ∨ ¬IsScopeRule r ∨ r.memoryId ∈ seen) ∧
        projectFrom P reprText C seen records = .ok projection) ∨
      ¬(r.scopeId ≠ C.scopeId ∨ ¬IsScopeRule r ∨ r.memoryId ∈ seen) ∧
        ∃ tail, projectFrom P reprText C (r.memoryId :: seen) records = .ok tail ∧
          ((∃ reason, ruleOf P reprText C r = .error reason ∧
            projection = { tail with excluded := (r.memoryId, reason) :: tail.excluded }) ∨
          ∃ rule oid, ruleOf P reprText C r = .ok rule ∧
            digest P (obligationValue r rule.1) = .ok oid ∧
            projection = { tail with
              obligations := obligationOf r rule.1 rule.2 oid :: tail.obligations }) := by
  rw [projectFrom]
  by_cases hskip : r.scopeId ≠ C.scopeId ∨ ¬IsScopeRule r ∨ r.memoryId ∈ seen
  · rw [if_pos hskip]
    exact ⟨fun h => .inl ⟨hskip, h⟩, fun h => (h.resolve_right fun h => h.1 hskip).2⟩
  · rw [if_neg hskip]
    have hrest : ∀ {p q : Prop}, ((r.scopeId ≠ C.scopeId ∨ ¬IsScopeRule r ∨ r.memoryId ∈ seen) ∧ p ∨
        ¬(r.scopeId ≠ C.scopeId ∨ ¬IsScopeRule r ∨ r.memoryId ∈ seen) ∧ q) ↔ q :=
      ⟨fun h => (h.resolve_left fun h => hskip h.1).2, fun h => .inr ⟨hskip, h⟩⟩
    rw [hrest]
    cases hrule : ruleOf P reprText C r with
    | error reason =>
      simp only [except_bind_eq_ok]
      constructor
      · rintro ⟨tail, htail, hprojection⟩
        exact ⟨tail, htail, .inl ⟨reason, rfl, (Except.ok.inj hprojection).symm⟩⟩
      · rintro ⟨tail, htail, ⟨_, hreason, rfl⟩ | ⟨rule, oid, hok, -⟩⟩
        · obtain rfl := Except.error.inj hreason
          exact ⟨tail, htail, rfl⟩
        · cases hok
    | ok rule =>
      simp only [except_bind_eq_ok]
      constructor
      · rintro ⟨oid, hoid, tail, htail, hprojection⟩
        exact ⟨tail, htail, .inr ⟨rule, oid, rfl, hoid, (Except.ok.inj hprojection).symm⟩⟩
      · rintro ⟨tail, htail, ⟨_, hreason, -⟩ | ⟨_, oid, hok, hoid, rfl⟩⟩
        · cases hreason
        · obtain rfl := Except.ok.inj hok
          exact ⟨oid, hoid, tail, htail, rfl⟩

/-- What the loop does with its first record: it passes it over, excludes it or projects it. -/
theorem projectFrom_cons
    (h : projectFrom P reprText C seen (r :: records) = .ok projection) :
    ((r.scopeId ≠ C.scopeId ∨ ¬IsScopeRule r ∨ r.memoryId ∈ seen) ∧
        projectFrom P reprText C seen records = .ok projection) ∨
      ∃ tail, projectFrom P reprText C (r.memoryId :: seen) records = .ok tail ∧
        ((∃ reason, projection =
            { tail with excluded := (r.memoryId, reason) :: tail.excluded }) ∨
          ∃ o, SourceOf r o ∧ projection = { tail with obligations := o :: tail.obligations }) := by
  obtain hskip | ⟨-, tail, htail, ⟨reason, -, rfl⟩ | ⟨rule, oid, -, -, rfl⟩⟩ :=
    projectFrom_cons_iff.mp h
  · exact .inl hskip
  · exact .inr ⟨tail, htail, .inl ⟨reason, rfl⟩⟩
  · exact .inr ⟨tail, htail, .inr ⟨_, sourceOf_obligationOf .., rfl⟩⟩

/-- An obligation comes from one of the records. -/
theorem exists_source_of_projectFrom
    (h : projectFrom P reprText C seen records = .ok projection) {o : RuleObligation}
    (ho : o ∈ projection.obligations) : ∃ r ∈ records, SourceOf r o := by
  induction records generalizing seen projection with
  | nil =>
    obtain rfl := Except.ok.inj h
    exact absurd ho List.not_mem_nil
  | cons r records ih =>
    obtain ⟨-, h⟩ | ⟨tail, htail, ⟨reason, rfl⟩ | ⟨o', hsource, rfl⟩⟩ := projectFrom_cons h
    · obtain ⟨r', hr', hsource⟩ := ih h ho
      exact ⟨r', List.mem_cons_of_mem r hr', hsource⟩
    · obtain ⟨r', hr', hsource⟩ := ih htail ho
      exact ⟨r', List.mem_cons_of_mem r hr', hsource⟩
    · rcases List.mem_cons.mp ho with rfl | ho
      · exact ⟨r, List.mem_cons_self, hsource⟩
      · obtain ⟨r', hr', hsource⟩ := ih htail ho
        exact ⟨r', List.mem_cons_of_mem r hr', hsource⟩

/-- An excluded id is that of one of the records. -/
theorem exists_record_of_excluded
    (h : projectFrom P reprText C seen records = .ok projection) {memoryId : String}
    (hid : memoryId ∈ projection.excluded.map Prod.fst) :
    ∃ r ∈ records, r.memoryId = memoryId := by
  induction records generalizing seen projection with
  | nil =>
    obtain rfl := Except.ok.inj h
    exact absurd hid List.not_mem_nil
  | cons r records ih =>
    obtain ⟨-, h⟩ | ⟨tail, htail, ⟨reason, rfl⟩ | ⟨o, -, rfl⟩⟩ := projectFrom_cons h
    · obtain ⟨r', hr', heq⟩ := ih h hid
      exact ⟨r', List.mem_cons_of_mem r hr', heq⟩
    · rcases List.mem_cons.mp hid with rfl | hid
      · exact ⟨r, List.mem_cons_self, rfl⟩
      · obtain ⟨r', hr', heq⟩ := ih htail hid
        exact ⟨r', List.mem_cons_of_mem r hr', heq⟩
    · obtain ⟨r', hr', heq⟩ := ih htail hid
      exact ⟨r', List.mem_cons_of_mem r hr', heq⟩

/-- A rule of the scope is projected or excluded, if no other record has its id. -/
theorem projected_or_excluded (h : projectFrom P reprText C seen records = .ok projection)
    (hr : r ∈ records) (hscope : r.scopeId = C.scopeId) (hrule : IsScopeRule r)
    (hseen : r.memoryId ∉ seen)
    (halone : ∀ r' ∈ records, r'.memoryId = r.memoryId → r' = r) :
    (∃ o ∈ projection.obligations, SourceOf r o) ∨
      r.memoryId ∈ projection.excluded.map Prod.fst := by
  induction records generalizing seen projection with
  | nil => exact absurd hr List.not_mem_nil
  | cons r' records ih =>
    have hlater := fun r'' hr'' => halone r'' (List.mem_cons_of_mem r' hr'')
    by_cases hsame : r' = r
    · subst hsame
      obtain ⟨hskip, -⟩ | ⟨tail, -, ⟨reason, rfl⟩ | ⟨o, hsource, rfl⟩⟩ := projectFrom_cons h
      · exact absurd hskip (by simp [hscope, hrule, hseen])
      · exact .inr List.mem_cons_self
      · exact .inl ⟨o, List.mem_cons_self, hsource⟩
    · have hr : r ∈ records := (List.mem_cons.mp hr).resolve_left fun h => hsame h.symm
      have hother : r.memoryId ≠ r'.memoryId := fun h =>
        hsame (halone r' List.mem_cons_self h.symm)
      obtain ⟨-, h⟩ | ⟨tail, htail, hprojection⟩ := projectFrom_cons h
      · exact ih h hr hseen hlater
      · have hunseen : r.memoryId ∉ r'.memoryId :: seen :=
          List.not_mem_cons_of_ne_of_not_mem hother hseen
        have htail := ih htail hr hunseen hlater
        obtain ⟨reason, rfl⟩ | ⟨o, -, rfl⟩ := hprojection
        · exact htail.imp_right (List.mem_cons_of_mem _)
        · exact htail.imp_left fun ⟨o', ho', hsource⟩ =>
            ⟨o', List.mem_cons_of_mem o ho', hsource⟩

/-- **A projection under a context that makes fewer rules of the records**, of one scope and with
different ids: it makes fewer obligations, and all of them exactly when no rule is missing. -/
theorem projectFrom_restrict {C' : ProjectionContext} (hsame : C'.scopeId = C.scopeId)
    (hfewer : ∀ r ∈ records, ∀ rule, ruleOf P reprText C' r = .ok rule →
      ruleOf P reprText C r = .ok rule)
    (hscope : ∀ r ∈ records, r.scopeId = C.scopeId) (hids : (records.map (·.memoryId)).Nodup)
    (hseen : ∀ r ∈ records, r.memoryId ∉ seen)
    (h : projectFrom P reprText C seen records = .ok projection) :
    ∃ projection', projectFrom P reprText C' seen records = .ok projection' ∧
      projection'.obligations ⊆ projection.obligations ∧
      (projection.obligations ⊆ projection'.obligations ↔ ∀ r ∈ records, IsScopeRule r →
        ∀ rule, ruleOf P reprText C r = .ok rule → ruleOf P reprText C' r = .ok rule) := by
  induction records generalizing seen projection with
  | nil =>
    obtain rfl := Except.ok.inj h
    exact ⟨⟨[], []⟩, rfl, List.Subset.refl _, by simp⟩
  | cons r records ih =>
    obtain ⟨hfewer₁, hfewer⟩ := List.forall_mem_cons.mp hfewer
    obtain ⟨hscope₁, hscope⟩ := List.forall_mem_cons.mp hscope
    obtain ⟨hseen₁, hseen⟩ := List.forall_mem_cons.mp hseen
    obtain ⟨hid, hids⟩ := List.nodup_cons.mp hids
    have hunseen : ∀ r' ∈ records, r'.memoryId ∉ r.memoryId :: seen := by
      intro r' hr' hmem
      rcases List.mem_cons.mp hmem with heq | hmem
      · exact hid (List.mem_map.mpr ⟨r', hr', heq⟩)
      · exact hseen r' hr' hmem
    rw [projectFrom] at h ⊢
    rw [hsame]
    by_cases hrule : IsScopeRule r
    · have hnot : ¬(r.scopeId ≠ C.scopeId ∨ ¬IsScopeRule r ∨ r.memoryId ∈ seen) := by
        simp [hscope₁, hrule, hseen₁]
      rw [if_neg hnot] at h ⊢
      simp only [List.forall_mem_cons, hrule, forall_true_left]
      cases hr : ruleOf P reprText C r with
      | error reason =>
        cases hr' : ruleOf P reprText C' r with
        | ok rule' => simp [hfewer₁ rule' hr'] at hr
        | error reason' =>
          simp only [hr] at h
          obtain ⟨tail, htail, hprojection⟩ := except_bind_eq_ok.mp h
          obtain rfl := Except.ok.inj hprojection
          obtain ⟨tail', htail', hsub, hiff⟩ := ih hfewer hscope hids hunseen htail
          refine ⟨_, except_bind_eq_ok.mpr ⟨tail', htail', rfl⟩, hsub, ?_⟩
          simpa using hiff
      | ok rule =>
        simp only [hr] at h
        obtain ⟨oid, hoid, h⟩ := except_bind_eq_ok.mp h
        obtain ⟨tail, htail, hprojection⟩ := except_bind_eq_ok.mp h
        obtain rfl := Except.ok.inj hprojection
        obtain ⟨tail', htail', hsub, hiff⟩ := ih hfewer hscope hids hunseen htail
        -- the obligation of the first record is not among those of the others
        have hother : ∀ p seen C'', projectFrom P reprText C'' seen records = .ok p →
            ∀ o ∈ p.obligations, o.memoryId ≠ r.memoryId := by
          intro p seen C'' hp o ho heq
          obtain ⟨r', hr', hsource⟩ := exists_source_of_projectFrom hp ho
          exact hid (List.mem_map.mpr ⟨r', hr', hsource.memoryId.symm.trans heq⟩)
        cases hr' : ruleOf P reprText C' r with
        | error reason' =>
          refine ⟨_, except_bind_eq_ok.mpr ⟨tail', htail', rfl⟩,
            List.subset_cons_of_subset _ hsub, iff_of_false (fun hall => ?_) (by simp)⟩
          exact hother tail' _ _ htail' _ (hall List.mem_cons_self) rfl
        | ok rule' =>
          obtain rfl : rule = rule' := by
            have := hfewer₁ rule' hr'
            rw [hr] at this
            exact Except.ok.inj this
          refine ⟨_, except_bind_eq_ok.mpr ⟨oid, hoid, except_bind_eq_ok.mpr ⟨tail', htail', rfl⟩⟩,
            List.cons_subset_cons _ hsub, ?_⟩
          have hcons : ∀ o ∈ tail.obligations,
              o ∈ obligationOf r rule.1 rule.2 oid :: tail'.obligations →
                o ∈ tail'.obligations := by
            intro o ho hmem
            refine (List.mem_cons.mp hmem).resolve_left fun heq => ?_
            exact hother tail _ _ htail o ho (congrArg RuleObligation.memoryId heq)
          rw [List.cons_subset, and_iff_right List.mem_cons_self]
          simp only [Except.ok.injEq, imp_self, implies_true, true_and]
          rw [← hiff]
          exact ⟨fun hall o ho => hcons o ho (hall ho), fun hall =>
            List.subset_cons_of_subset _ hall⟩
    · have hskip : r.scopeId ≠ C.scopeId ∨ ¬IsScopeRule r ∨ r.memoryId ∈ seen := .inr (.inl hrule)
      rw [if_pos hskip] at h ⊢
      obtain ⟨projection', hprojection', hsub, hiff⟩ := ih hfewer hscope hids hseen h
      refine ⟨projection', hprojection', hsub, ?_⟩
      simpa [hrule] using hiff

end

/-- **A projection records what becomes of each rule**: when ids name records, the rules of the
scope that are given are each the source of an obligation or excluded by id, and no other record
is. -/
theorem projectObligations_iff {P : Primitives} {reprText : String → String}
    {C : ProjectionContext} {records : List MemoryRecord} {projection : ObligationProjection}
    (h : projectObligations P reprText C records = .ok projection) {r : MemoryRecord}
    (hscope : r.scopeId = C.scopeId) (hrule : IsScopeRule r)
    (halone : ∀ r' ∈ records, r'.memoryId = r.memoryId → r' = r) :
    ((∃ o ∈ projection.obligations, SourceOf r o) ∨
      r.memoryId ∈ projection.excluded.map Prod.fst) ↔ r ∈ records := by
  rw [projectObligations] at h
  have hmem : ∀ {r' : MemoryRecord},
      r' ∈ records.insertionSort (fun r r' => r.memoryId ≤ r'.memoryId) ↔ r' ∈ records :=
    List.mem_insertionSort _
  constructor
  · rintro (⟨o, ho, hsource⟩ | hexcluded)
    · obtain ⟨r', hr', hsource'⟩ := exists_source_of_projectFrom h ho
      have hid : r'.memoryId = r.memoryId := hsource'.memoryId.symm.trans hsource.memoryId
      exact halone r' (hmem.mp hr') hid ▸ hmem.mp hr'
    · obtain ⟨r', hr', hid⟩ := exists_record_of_excluded h hexcluded
      exact halone r' (hmem.mp hr') hid ▸ hmem.mp hr'
  · intro hr
    exact projected_or_excluded h (hmem.mpr hr) hscope hrule List.not_mem_nil
      fun r' hr' => halone r' (hmem.mp hr')

/-! ### Attachment -/

open Planning (GovernedWorkPlan WorkUnitSpec)

/-- `applies_to_paths`. -/
def AppliesToPaths (selector : RuleSelector) (paths : List String) : Prop :=
  selector.writeGlobs = [] ∨
    ∃ path ∈ paths, ∃ glob ∈ selector.writeGlobs, Glob.fnmatchcase path glob = true

instance (selector : RuleSelector) (paths : List String) :
    Decidable (AppliesToPaths selector paths) := inferInstanceAs (Decidable (_ ∨ _))

/-- `ObligationAttachment`. -/
structure ObligationAttachment where
  plan : GovernedWorkPlan
  attached : List (String × String)
  unattached : List RuleObligation

/-- What the loop of `attach_obligations` changes. -/
structure Attaching where
  requirementIds : List String
  units : Dict String WorkUnitSpec
  attached : List (String × String) := []
  unattached : List RuleObligation := []

/-- The units that an obligation is for: its explicit targets, or those it applies to. -/
def targetedUnits (plan : GovernedWorkPlan) (targets : Dict String (List String))
    (o : RuleObligation) : List String :=
  match targets.get? o.obligationId with
  | some unitIds => unitIds
  | none =>
    (plan.units.filter fun u => AppliesToPaths o.spec.selector u.writePaths).map (·.unitId)

/-- Link an obligation into a unit. -/
def linkUnit (o : RuleObligation) (A : Attaching) (unitId : String) : Attaching :=
  match A.units.get? unitId with
  | none => A
  | some unit =>
    { A with
      units := A.units.set unitId { unit with
        requirementIds := (unit.requirementIds ++ [o.requirementId]).eraseDups
        acceptanceIds := (unit.acceptanceIds ++ [o.acceptanceId]).eraseDups }
      attached := A.attached ++ [(o.obligationId, unitId)] }

/-- One turn of the loop. -/
def attachOne (plan : GovernedWorkPlan) (targets : Dict String (List String)) (A : Attaching)
    (o : RuleObligation) : Attaching :=
  let bound := (targetedUnits plan targets o).eraseDups.filter (· ∈ A.units.keys)
  if bound = [] then { A with unattached := A.unattached ++ [o] }
  else bound.foldl (linkUnit o) { A with requirementIds := A.requirementIds ++ [o.requirementId] }

/-- `attach_obligations`. -/
def attachObligations (plan : GovernedWorkPlan) (obligations : List RuleObligation)
    (targets : Dict String (List String)) : ObligationAttachment :=
  let A := obligations.foldl (attachOne plan targets)
    { requirementIds := plan.requirements
      units := .ofList (plan.units.map fun u => (u.unitId, u)) }
  { plan := { plan with
      requirements := Planning.sortedSet A.requirementIds
      units := plan.units.filterMap fun u => A.units.get? u.unitId }
    attached := A.attached, unattached := A.unattached }

/-! ### What an attachment binds -/

/-- A plan requires what the obligation requires, and one of its units answers for it. -/
structure Binds (plan : GovernedWorkPlan) (o : RuleObligation) : Prop where
  required : o.requirementId ∈ plan.requirements
  carried : ∃ u ∈ plan.units, o.requirementId ∈ u.requirementIds ∧ o.acceptanceId ∈ u.acceptanceIds

namespace Attaching

variable {A A' A'' : Attaching} {o : RuleObligation}

/-- What the loop has made of a plan binds the obligation. -/
def Links (A : Attaching) (o : RuleObligation) : Prop :=
  o.requirementId ∈ A.requirementIds ∧ ∃ unitId u, A.units.get? unitId = some u ∧
    o.requirementId ∈ u.requirementIds ∧ o.acceptanceId ∈ u.acceptanceIds

/-- The loop only adds: no unit is new or gone, and none loses an id. -/
structure Extends (A A' : Attaching) : Prop where
  requirementIds : A.requirementIds ⊆ A'.requirementIds
  unattached : A.unattached ⊆ A'.unattached
  keys : A'.units.keys = A.units.keys
  units : ∀ unitId u, A.units.get? unitId = some u → ∃ u', A'.units.get? unitId = some u' ∧
    u.requirementIds ⊆ u'.requirementIds ∧ u.acceptanceIds ⊆ u'.acceptanceIds

theorem Extends.refl (A : Attaching) : Extends A A :=
  ⟨List.Subset.refl _, List.Subset.refl _, rfl, fun _ u hu =>
    ⟨u, hu, List.Subset.refl _, List.Subset.refl _⟩⟩

theorem Extends.trans (h : Extends A A') (h' : Extends A' A'') : Extends A A'' where
  requirementIds := List.Subset.trans h.requirementIds h'.requirementIds
  unattached := List.Subset.trans h.unattached h'.unattached
  keys := h'.keys.trans h.keys
  units := by
    intro unitId u hu
    obtain ⟨u', hu', hreqs, haccs⟩ := h.units unitId u hu
    obtain ⟨u'', hu'', hreqs', haccs'⟩ := h'.units unitId u' hu'
    exact ⟨u'', hu'', List.Subset.trans hreqs hreqs', List.Subset.trans haccs haccs'⟩

theorem Extends.foldl {β : Type} {f : Attaching → β → Attaching}
    (hf : ∀ A b, Extends A (f A b)) (bs : List β) (A : Attaching) : Extends A (bs.foldl f A) := by
  induction bs generalizing A with
  | nil => exact .refl A
  | cons b bs ih => exact (hf A b).trans (ih (f A b))

theorem Links.mono (h : A.Links o) (hextends : Extends A A') : A'.Links o := by
  obtain ⟨hrequired, unitId, u, hu, hreq, hacc⟩ := h
  obtain ⟨u', hu', hreqs, haccs⟩ := hextends.units unitId u hu
  exact ⟨hextends.requirementIds hrequired, unitId, u', hu', hreqs hreq, haccs hacc⟩

end Attaching

section

open Attaching

variable {plan : GovernedWorkPlan} {targets : Dict String (List String)} {A : Attaching}
  {o : RuleObligation} {unitId : String}

theorem extends_linkUnit (o : RuleObligation) (A : Attaching) (unitId : String) :
    Extends A (linkUnit o A unitId) := by
  rw [linkUnit]
  cases hunit : A.units.get? unitId with
  | none => exact .refl A
  | some unit =>
    have hkey : unitId ∈ A.units.keys := Dict.mem_keys_iff.mpr ⟨unit, hunit⟩
    refine ⟨List.Subset.refl _, List.Subset.refl _, Dict.keys_set_of_mem hkey, fun id u hu => ?_⟩
    rw [Dict.get?_set]
    split_ifs with hid
    · rw [hid, hunit, Option.some.injEq] at hu
      subst hu
      exact ⟨_, rfl, by simp +contextual [List.subset_def], by simp +contextual [List.subset_def]⟩
    · exact ⟨u, hu, List.Subset.refl _, List.Subset.refl _⟩

/-- Linking a known unit binds the obligation. -/
theorem links_linkUnit (hrequired : o.requirementId ∈ A.requirementIds)
    (hkey : unitId ∈ A.units.keys) : (linkUnit o A unitId).Links o := by
  obtain ⟨unit, hunit⟩ := Dict.mem_keys_iff.mp hkey
  rw [linkUnit, hunit]
  exact ⟨hrequired, unitId, _, Dict.get?_set_self, by simp, by simp⟩

theorem extends_attachOne (A : Attaching) (o : RuleObligation) :
    Extends A (attachOne plan targets A o) := by
  rw [attachOne]
  split_ifs
  · exact ⟨List.Subset.refl _, List.subset_append_left _ _, rfl, (Extends.refl A).units⟩
  · have hrequired : Extends A { A with requirementIds := A.requirementIds ++ [o.requirementId] } :=
      ⟨List.subset_append_left _ _, List.Subset.refl _, rfl, (Extends.refl A).units⟩
    exact hrequired.trans (.foldl (extends_linkUnit o) _ _)

/-- One turn leaves the obligation unattached, or binds it. -/
theorem links_attachOne (A : Attaching) (o : RuleObligation) :
    o ∈ (attachOne plan targets A o).unattached ∨ (attachOne plan targets A o).Links o := by
  rw [attachOne]
  cases hbound : (targetedUnits plan targets o).eraseDups.filter (· ∈ A.units.keys) with
  | nil => exact .inl (List.mem_append_right _ (List.mem_singleton_self o))
  | cons unitId rest =>
    have hmem : unitId ∈ (targetedUnits plan targets o).eraseDups.filter (· ∈ A.units.keys) :=
      hbound ▸ List.mem_cons_self
    have hkey : unitId ∈ A.units.keys := of_decide_eq_true (List.mem_filter.mp hmem).2
    refine .inr ?_
    rw [if_neg (List.cons_ne_nil _ _), List.foldl_cons]
    have hlinks : (linkUnit o { A with
        requirementIds := A.requirementIds ++ [o.requirementId] } unitId).Links o :=
      links_linkUnit (List.mem_append_right _ (List.mem_singleton_self _)) hkey
    exact hlinks.mono (.foldl (extends_linkUnit o) _ _)

theorem links_foldl {obligations : List RuleObligation} (ho : o ∈ obligations) (A : Attaching) :
    o ∈ (obligations.foldl (attachOne plan targets) A).unattached ∨
      (obligations.foldl (attachOne plan targets) A).Links o := by
  induction obligations generalizing A with
  | nil => exact absurd ho List.not_mem_nil
  | cons o' obligations ih =>
    rcases List.mem_cons.mp ho with rfl | ho
    · have hrest : Extends (attachOne plan targets A o)
          (obligations.foldl (attachOne plan targets) (attachOne plan targets A o)) :=
        .foldl extends_attachOne obligations _
      exact (links_attachOne A o).imp (@hrest.unattached _) fun h => h.mono hrest
    · exact ih ho _

/-- **An attachment binds** each obligation that it does not return unattached. -/
theorem binds_attachObligations {obligations : List RuleObligation} (ho : o ∈ obligations) :
    o ∈ (attachObligations plan obligations targets).unattached ∨
      Binds (attachObligations plan obligations targets).plan o := by
  let A : Attaching :=
    { requirementIds := plan.requirements
      units := .ofList (plan.units.map fun u => (u.unitId, u)) }
  have hextends : Extends A (obligations.foldl (attachOne plan targets) A) :=
    .foldl extends_attachOne obligations A
  refine (links_foldl ho A).imp_right fun ⟨hrequired, unitId, u, hu, hreq, hacc⟩ => ⟨?_, u, ?_,
    hreq, hacc⟩
  · simpa [attachObligations, Planning.sortedSet, Planning.sortedStrings] using hrequired
  · -- the ids that the loop knows are those of the units
    have hkey : unitId ∈ A.units.keys := hextends.keys ▸ Dict.mem_keys_iff.mpr ⟨u, hu⟩
    obtain ⟨entry, hentry, hid⟩ := List.mem_map.mp (Dict.mem_keys_ofList_iff.mp hkey)
    obtain ⟨unit, hunit, rfl⟩ := List.mem_map.mp hentry
    subst hid
    exact List.mem_filterMap.mpr ⟨unit, hunit, hu⟩

end

/-- `missing_obligations`. -/
def missingObligations (plan : GovernedWorkPlan) (obligations : List RuleObligation) :
    List RuleObligation :=
  obligations.filter fun o => o.requirementId ∉ plan.requirements

/-- What the requirements document says of an obligation. -/
def obligationEntry (o : RuleObligation) : PyValue :=
  .dict [(.str "memory_id", .str o.memoryId), (.str "revision", .int o.revision),
    (.str "checker_id", .str o.checkerId), (.str "checker_digest", .str o.checkerDigest),
    (.str "requirement_id", .str o.requirementId), (.str "acceptance_id", .str o.acceptanceId),
    (.str "provenance", Planning.strings o.provenance)]

/-- The obligations by id, in the order of their ids. -/
def obligationEntries (obligations : List RuleObligation) : Dict String PyValue :=
  .ofList ((obligations.insertionSort fun o o' => o.obligationId ≤ o'.obligationId).map fun o =>
    (o.obligationId, obligationEntry o))

/-- `obligations_requirements_doc`. -/
def obligationsRequirementsDoc (obligations : List RuleObligation) : PyMapping :=
  [(.str "obligations", .dict ((obligationEntries obligations).entries.map fun entry =>
    (.str entry.1, entry.2)))]

/-- `assert_obligations_current`. -/
def assertObligationsCurrent (isCurrent : String → ℤ → Bool) (memoryView : Option MemoryView) :
    List RuleObligation → Except Failure Unit
  | [] => .ok ()
  | o :: rest =>
    if ∃ view ∈ memoryView, ¬Usable o.memoryId view then
      .error (.cyrano "MEMORY_REVOKED" ("rule " ++ o.memoryId ++ " revoked in pinned view"))
    else if isCurrent o.memoryId o.revision = false then
      .error (.cyrano "STALE_REVISION"
        ("rule " ++ o.memoryId ++ " moved past r" ++ toString o.revision))
    else assertObligationsCurrent isCurrent memoryView rest

end Memory

end CyranoAgent
