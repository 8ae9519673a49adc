import CyranoAgent.Memory.Checkers

/-!
# Verification of obligations

`verifyObligations` evaluates the checker of each obligation over a work tree. The paths of an
exception are covered, unless one of its patterns matches a touched path: then the exception is
released. Patterns are expanded by `Path.glob` and released by `fnmatchcase`, which differ, and a
pair of files is covered through either of its two paths. `forfeits_iff` says when touching a path
nonetheless forfeits its exemption.
-/

namespace CyranoAgent

open Lib

namespace Memory

/-- `ObligationCheckReport`. -/
structure ObligationCheckReport where
  obligationId : String
  memoryId : String
  verdict : CheckerVerdict

/-- The exception is released: a touched path matches one of its patterns. -/
def RuleException.Touched (touched : List String) (e : RuleException) : Prop :=
  ∃ path ∈ touched, ∃ glob ∈ e.pathGlobs, Glob.fnmatchcase path glob = true

instance (touched : List String) (e : RuleException) : Decidable (e.Touched touched) :=
  inferInstanceAs (Decidable (∃ path ∈ touched, _))

/-- `released_exceptions`. -/
def releasedExceptions (spec : ScopeRuleSpec) (touched : List String) : List String :=
  (spec.exceptions.filter fun e => e.Touched touched).map (·.exceptionId)

section

variable (py : Python) (P : Primitives) (T : FileTree) (root : List String)

/-- The paths that the patterns of an exception find. -/
def exceptionPaths (e : RuleException) : Except Failure (List String) :=
  (e.pathGlobs.mapM fun glob => (globPaths py T root glob).map (·.map posix)).map List.flatten

/-- `_covered_paths`. -/
def coveredPaths (spec : ScopeRuleSpec) (released : List String) : Except Failure (List String) :=
  ((spec.exceptions.filter (·.exceptionId ∉ released)).mapM (exceptionPaths py T root)).map
    List.flatten

/-- Why an obligation is not checked, if it is not. -/
def uncheckable (isCurrent : Option (String → ℤ → Bool)) (memoryView : Option MemoryView)
    (o : RuleObligation) : Option CheckerVerdict :=
  if ∃ view ∈ memoryView, ¬Usable o.memoryId view then
    some ⟨.unverifiable, "MEMORY_REVOKED " ++ o.memoryId, []⟩
  else if ∃ current ∈ isCurrent, current o.memoryId o.revision = false then
    some ⟨.unverifiable, "STALE_REVISION " ++ o.memoryId ++ " r" ++ toString o.revision, []⟩
  else none

/-- The verdict on an obligation. What a pattern of an exception raises is not caught. -/
def obligationVerdict (registry : TrustedCheckerRegistry) (touched : List String)
    (isCurrent : Option (String → ℤ → Bool)) (memoryView : Option MemoryView)
    (o : RuleObligation) : Except Failure CheckerVerdict :=
  match uncheckable isCurrent memoryView o with
  | some verdict => .ok verdict
  | none =>
    match registry.resolve (fun s => py.repr (.str s)) o.checkerId (some o.checkerDigest) with
    | .error e => .ok ⟨.unverifiable, failureDetail e, []⟩
    | .ok spec =>
      (coveredPaths py T root o.spec (releasedExceptions o.spec touched)).map fun covered =>
        evaluate py P T root spec touched covered

/-- `verify_obligations`. -/
def verifyObligations (registry : TrustedCheckerRegistry) (touched : List String)
    (isCurrent : Option (String → ℤ → Bool)) (memoryView : Option MemoryView)
    (obligations : List RuleObligation) : Except Failure (List ObligationCheckReport) :=
  obligations.mapM fun o =>
    (obligationVerdict py P T root registry touched isCurrent memoryView o).map fun verdict =>
      ⟨o.obligationId, o.memoryId, verdict⟩

end

/-! ### What is covered -/

section

variable {py : Python} {T : FileTree} {root : List String} {spec : ScopeRuleSpec}
  {touched released covered : List String} {path : String}

theorem mem_releasedExceptions_iff {exceptionId : String} :
    exceptionId ∈ releasedExceptions spec touched ↔
      ∃ e ∈ spec.exceptions, e.exceptionId = exceptionId ∧ e.Touched touched := by
  simp only [releasedExceptions, List.mem_map, List.mem_filter, decide_eq_true_eq]
  constructor
  · rintro ⟨e, ⟨he, htouched⟩, hid⟩
    exact ⟨e, he, hid, htouched⟩
  · rintro ⟨e, he, hid, htouched⟩
    exact ⟨e, ⟨he, htouched⟩, hid⟩

/-- A pattern finds a path of the work tree. -/
def Finds (py : Python) (T : FileTree) (root : List String) (glob path : String) : Prop :=
  ∃ found, T.glob py.minor root glob = .ok found ∧ ∃ parts ∈ found, posix parts = path

/-- What is in one of the results, if there is no failure. -/
theorem mem_flatten_of_mapM {α β : Type} {f : α → Except Failure (List β)} {as : List α}
    {bs : List (List β)} (h : as.mapM f = .ok bs) {b : β} :
    b ∈ bs.flatten ↔ ∃ a ∈ as, ∃ result, f a = .ok result ∧ b ∈ result := by
  rw [List.mem_flatten]
  constructor
  · rintro ⟨result, hresult, hb⟩
    obtain ⟨a, ha, hok⟩ := exists_of_mem_right (mapM_eq_ok.mp h) hresult
    exact ⟨a, ha, result, hok, hb⟩
  · rintro ⟨a, ha, result, hok, hb⟩
    obtain ⟨result', hresult', hok'⟩ := exists_of_mem_left (mapM_eq_ok.mp h) ha
    rw [hok, Except.ok.injEq] at hok'
    exact ⟨result', hresult', hok' ▸ hb⟩

theorem globPaths_eq_ok {glob : String} {found : List (List String)} :
    globPaths py T root glob = .ok found ↔ T.glob py.minor root glob = .ok found := by
  rw [globPaths]
  rcases T.glob py.minor root glob with (_ | _ | _) | found' <;> simp

theorem mem_exceptionPaths_iff {e : RuleException} {paths : List String}
    (h : exceptionPaths py T root e = .ok paths) :
    path ∈ paths ↔ ∃ glob ∈ e.pathGlobs, Finds py T root glob path := by
  obtain ⟨all, hall, rfl⟩ := except_map_eq_ok.mp h
  rw [mem_flatten_of_mapM hall]
  refine exists_congr fun glob => and_congr_right fun _ => ?_
  simp only [except_map_eq_ok, globPaths_eq_ok, Finds]
  constructor
  · rintro ⟨_, ⟨found, hfound, rfl⟩, hpath⟩
    exact ⟨found, hfound, List.mem_map.mp hpath⟩
  · rintro ⟨found, hfound, hpath⟩
    exact ⟨_, ⟨found, hfound, rfl⟩, List.mem_map.mpr hpath⟩

/-- **What is covered**: what a pattern of an exception finds that is not released. -/
theorem mem_coveredPaths_iff (h : coveredPaths py T root spec released = .ok covered) :
    path ∈ covered ↔ ∃ e ∈ spec.exceptions, e.exceptionId ∉ released ∧
      ∃ glob ∈ e.pathGlobs, Finds py T root glob path := by
  obtain ⟨all, hall, rfl⟩ := except_map_eq_ok.mp h
  rw [mem_flatten_of_mapM hall]
  simp only [List.mem_filter, decide_eq_true_eq, and_assoc]
  refine exists_congr fun e => and_congr_right fun he => and_congr_right fun hheld => ?_
  constructor
  · rintro ⟨paths, hpaths, hpath⟩
    exact (mem_exceptionPaths_iff hpaths).mp hpath
  · intro hfinds
    obtain ⟨paths, -, hpaths⟩ := exists_of_mem_left (mapM_eq_ok.mp hall)
      (List.mem_filter.mpr ⟨he, decide_eq_true hheld⟩)
    exact ⟨paths, hpaths, (mem_exceptionPaths_iff hpaths).mpr hfinds⟩

end

/-! ### What touching a path forfeits -/

/-- A path of the pair is touched. -/
def FilePair.IsTouched (touched : List String) (pair : FilePair) : Prop :=
  pair.rel ∈ touched ∨ pair.derivedRel ∈ touched

/-- The pairs of files that a checker is about. -/
def pairsOf (py : Python) (T : FileTree) (root : List String) (checker : CheckerSpec) :
    Except Failure (List FilePair) :=
  match checker.kind with
  | .pairedFiles => do
    let trigger ← textParam py checker.params "trigger"
    let derive ← textParam py checker.params "derive"
    pairedFiles py T root trigger derive
  | _ => .ok []

/-- Touching a path forfeits its exemption: no touched path is covered, and each pair with a touched
path is checked. -/
structure Forfeits (py : Python) (T : FileTree) (root : List String) (checker : CheckerSpec)
    (touched covered : List String) : Prop where
  untouched : ∀ path ∈ covered, path ∉ touched
  checked : ∀ pairs, pairsOf py T root checker = .ok pairs → ∀ pair ∈ pairs,
    pair.IsTouched touched → pair ∈ checkedPairs covered pairs

/-- The path is touched, or belongs to a pair with a touched path. -/
def Concerned (py : Python) (T : FileTree) (root : List String) (checker : CheckerSpec)
    (touched : List String) (path : String) : Prop :=
  path ∈ touched ∨ ∃ pairs, pairsOf py T root checker = .ok pairs ∧ ∃ pair ∈ pairs,
    pair.IsTouched touched ∧ (path = pair.rel ∨ path = pair.derivedRel)

section

variable {py : Python} {P : Primitives} {T : FileTree} {root : List String} {spec : ScopeRuleSpec}
  {checker : CheckerSpec} {touched covered : List String}

/-- **When touching forfeits**: when each exception of which a pattern finds a touched path, or a
path of a pair with a touched one, has a pattern that matches a touched path, as a text. -/
theorem forfeits_iff
    (h : coveredPaths py T root spec (releasedExceptions spec touched) = .ok covered) :
    Forfeits py T root checker touched covered ↔
      ∀ e ∈ spec.exceptions, ∀ glob ∈ e.pathGlobs, ∀ path, Finds py T root glob path →
        Concerned py T root checker touched path →
          ∃ e' ∈ spec.exceptions, e'.exceptionId = e.exceptionId ∧ e'.Touched touched := by
  simp only [← mem_releasedExceptions_iff]
  constructor
  · intro hforfeits e he glob hglob path hfinds hconcerned
    by_contra hheld
    have hcovered : path ∈ covered :=
      (mem_coveredPaths_iff h).mpr ⟨e, he, hheld, glob, hglob, hfinds⟩
    rcases hconcerned with htouched | ⟨pairs, hpairs, pair, hpair, htouched, hpath⟩
    · exact hforfeits.untouched path hcovered htouched
    · have hchecked := hforfeits.checked pairs hpairs pair hpair htouched
      have hskipped : pair.Skipped covered := by
        rcases hpath with rfl | rfl
        · exact .inl hcovered
        · exact .inr hcovered
      simp [checkedPairs, hskipped] at hchecked
  · intro hreleases
    -- what is covered is no concern of the touched paths
    have hapart : ∀ path ∈ covered, ¬Concerned py T root checker touched path := by
      intro path hpath hconcerned
      obtain ⟨e, he, hheld, glob, hglob, hfinds⟩ := (mem_coveredPaths_iff h).mp hpath
      exact hheld (hreleases e he glob hglob path hfinds hconcerned)
    refine ⟨fun path hpath htouched => hapart path hpath (.inl htouched), ?_⟩
    intro pairs hpairs pair hpair htouched
    refine List.mem_filter.mpr ⟨hpair, decide_eq_true ?_⟩
    rintro (hskipped | hskipped)
    · exact hapart _ hskipped (.inr ⟨pairs, hpairs, pair, hpair, htouched, .inl rfl⟩)
    · exact hapart _ hskipped (.inr ⟨pairs, hpairs, pair, hpair, htouched, .inr rfl⟩)

/-- Plain patterns cover no touched path. -/
theorem untouched_of_plain
    (h : coveredPaths py T root spec (releasedExceptions spec touched) = .ok covered)
    (hplain : ∀ e ∈ spec.exceptions, ∀ glob ∈ e.pathGlobs, Plain glob) :
    ∀ path ∈ covered, path ∉ touched := by
  intro path hpath htouched
  obtain ⟨e, he, hheld, glob, hglob, found, hfound, parts, hparts, rfl⟩ :=
    (mem_coveredPaths_iff h).mp hpath
  have hmatch := fnmatchcase_of_mem_glob (hplain e he glob hglob) hfound hparts
  exact hheld (mem_releasedExceptions_iff.mpr ⟨e, he, rfl, _, htouched, glob, hglob, hmatch⟩)

/-- What is wrong with a checked pair is a violation, and what is wrong with a skipped one is
not. -/
theorem violated_iff {verdict : CheckerVerdict} (hkind : checker.kind = .pairedFiles)
    (h : evalPairedFiles py P T root checker.params covered = .ok verdict) :
    ∃ pairs required fields, pairsOf py T root checker = .ok pairs ∧
      (verdict.state = .violated ↔ ∃ pair ∈ checkedPairs covered pairs, ∃ violations,
        pairViolations py P T root required fields pair = .ok violations ∧ violations ≠ []) := by
  obtain ⟨trigger, htrigger, h⟩ := except_bind_eq_ok.mp h
  obtain ⟨derive, hderive, h⟩ := except_bind_eq_ok.mp h
  obtain ⟨fields, -, h⟩ := except_bind_eq_ok.mp h
  obtain ⟨pairs, hpairs, h⟩ := except_bind_eq_ok.mp h
  obtain ⟨violations, hviolations, h⟩ := except_bind_eq_ok.mp h
  obtain rfl := Except.ok.inj h
  refine ⟨pairs, isTruthy ((checker.params.get? "required").getD (.bool true)), fields, ?_, ?_⟩
  · rw [pairsOf, hkind]
    exact except_bind_eq_ok.mpr ⟨trigger, htrigger, except_bind_eq_ok.mpr ⟨derive, hderive, hpairs⟩⟩
  · rw [verdictOn_violated_iff]
    constructor
    · intro hne
      obtain ⟨violation, hmem⟩ := List.exists_mem_of_ne_nil _ hne
      obtain ⟨pair, hpair, result, hresult, hmem⟩ := (mem_flatten_of_mapM hviolations).mp hmem
      exact ⟨pair, hpair, result, hresult, List.ne_nil_of_mem hmem⟩
    · rintro ⟨pair, hpair, result, hresult, hne⟩
      obtain ⟨violation, hmem⟩ := List.exists_mem_of_ne_nil _ hne
      exact List.ne_nil_of_mem
        ((mem_flatten_of_mapM hviolations).mpr ⟨pair, hpair, result, hresult, hmem⟩)

end

/-! ### A touched path under two stars -/

/-- Python 3.13, on texts. -/
def textPython : Python where
  minor := 13
  equal
    | .str s, .str t => s = t
    | _, _ => false
  repr
    | .str s => "'" ++ s ++ "'"
    | _ => ""
  unparsable _ := ""
  unreadable _ := ""

/-- Two files at the top of a work tree, and one below. -/
def legacyTree : FileTree where
  nodes := .ofList [([], .directory), (["a.json"], .file .empty), (["b.py"], .file .empty),
    (["meta"], .directory), (["meta", "b.json"], .file .empty)]
  root := by decide
  parents := by decide
  names := by decide

/-- A rule with an exception for old files of any directory, and one for derived files. -/
def legacyRule : ScopeRuleSpec where
  ruleId := "r"
  checkerId := "paired"
  selector := {}
  exceptions := [⟨"legacy", ["**/a.json"]⟩, ⟨"derived", ["meta/*.json"]⟩]
  summary := ""

/-- Each Python file has a derived file. -/
def pairedChecker : CheckerSpec where
  checkerId := "paired"
  kind := .pairedFiles
  params := [(.str "trigger", .str "*.py"), (.str "derive", .str "meta/\x7bstem\x7d.json")]
  digest := ""

/-- What is touched: an old file, and a trigger file. -/
def legacyTouched : List String := ["a.json", "b.py"]

theorem coveredPaths_legacy :
    coveredPaths textPython legacyTree [] legacyRule (releasedExceptions legacyRule legacyTouched) =
      .ok ["a.json", "meta/b.json"] := by
  decide

theorem pairsOf_legacy :
    pairsOf textPython legacyTree [] pairedChecker =
      .ok [{ rel := "b.py", stem := "b", derivedRel := "meta/b.json" }] := by
  decide

/-- Whether touching forfeits here is decided by the exceptions. -/
theorem forfeits_iff_legacy :
    Forfeits textPython legacyTree [] pairedChecker legacyTouched ["a.json", "meta/b.json"] ↔
      ∀ e ∈ legacyRule.exceptions, ∀ glob ∈ e.pathGlobs, ∀ path,
        Finds textPython legacyTree [] glob path →
          Concerned textPython legacyTree [] pairedChecker legacyTouched path →
            ∃ e' ∈ legacyRule.exceptions, e'.exceptionId = e.exceptionId ∧
              e'.Touched legacyTouched :=
  forfeits_iff coveredPaths_legacy

/-- **A touched path stays exempt**, when two stars find it at the top; **and a touched trigger file
is not checked**, when its derived file is covered. -/
theorem not_forfeits :
    (¬∀ (py : Python) (T : FileTree) (root : List String) (spec : ScopeRuleSpec)
      (touched covered : List String),
      coveredPaths py T root spec (releasedExceptions spec touched) = .ok covered →
        ∀ path ∈ covered, path ∉ touched) ∧
    ¬∀ (py : Python) (T : FileTree) (root : List String) (spec : ScopeRuleSpec)
      (checker : CheckerSpec) (touched covered : List String),
      coveredPaths py T root spec (releasedExceptions spec touched) = .ok covered →
        ∀ pairs, pairsOf py T root checker = .ok pairs → ∀ pair ∈ pairs,
          pair.IsTouched touched → pair ∈ checkedPairs covered pairs := by
  constructor
  · intro hclaim
    exact hclaim _ _ _ _ _ _ coveredPaths_legacy "a.json" (by decide) (by decide)
  · intro hclaim
    have hchecked := hclaim _ _ _ _ _ _ _ coveredPaths_legacy _ pairsOf_legacy
      { rel := "b.py", stem := "b", derivedRel := "meta/b.json" } (List.mem_singleton_self _)
      (.inl (by decide))
    exact absurd hchecked (by decide)

end Memory

end CyranoAgent
