import CyranoAgent.Evaluation.Paired
import CyranoAgent.Lib.Outcome
import CyranoAgent.Lib.PosixPath

/-!
# The route of a candidate

`classify` routes a candidate by its target paths: to manual review where one of them is protected,
to the replay-screened route where all of them are policies of exploration and both attestations are
given, and else to the actual route. It compares the texts of the paths, so that another spelling of
a path may take another route; `routedByMeaning_iff` says of which candidates it cannot.
-/

namespace CyranoAgent

open Lib

namespace Improvement

/-- Where policies of exploration are. -/
def explorationPath : String := "policies/exploration/"

/-- `Impact`. -/
structure Impact where
  effectClass : String
  path : String
  requiresLive : Bool
  reason : String
  deriving DecidableEq, Repr

/-- `path.startswith(start)`. -/
def StartsWith (start path : String) : Prop := start.toList <+: path.toList

instance (start path : String) : Decidable (StartsWith start path) :=
  inferInstanceAs (Decidable (_ <+: _))

/-- A target path that is not accepted. -/
def InvalidPath (path : String) : Prop :=
  path.toList.head? = some '/' ∨ ".." ∈ pathParts path ∨ '\\' ∈ path.toList

instance (path : String) : Decidable (InvalidPath path) := inferInstanceAs (Decidable (_ ∨ _))

/-- `classify`. -/
def classify (paths : List String) (inputSemanticsUnchanged policyIrValidated : Bool) :
    Except Failure Impact :=
  if paths = [] then .error (.cyrano "EMPTY_CANDIDATE" "a candidate must contain a real change")
  else
    match paths.find? fun path => InvalidPath path with
    | some path => .error (.cyrano "INVALID_PATCH_PATH" path)
    | none =>
      if ∃ path ∈ paths, ∃ start ∈ protectedPrefixes, StartsWith start path then
        .ok ⟨"protected_change", "manual_policy_change", true, "protected owner"⟩
      else if (∀ path ∈ paths, StartsWith explorationPath path) ∧
          inputSemanticsUnchanged = true ∧ policyIrValidated = true then
        .ok ⟨"scheduling_only", "A", true, "screen by supported replay"⟩
      else .ok ⟨"transition_changing", "B", true, "input semantics changed or unknown"⟩

/-- The paths of a candidate under other spellings, each with the normal form it had. -/
def Respelled (paths paths' : List String) : Prop :=
  List.Forall₂ (fun path path' => pathParts path = pathParts path') paths paths'

/-- The normal form of a path is below a protected directory. -/
def Protected (path : String) : Prop :=
  ∃ start ∈ protectedPrefixes, StartsWith start (posix (pathParts path))

/-- The route depends on what the paths mean: other spellings that are accepted have the same, and
where a path is protected it is the manual one. -/
structure RoutedByMeaning (paths : List String) (inputSemanticsUnchanged policyIrValidated : Bool)
    (impact : Impact) : Prop where
  respelled : ∀ paths' impact', Respelled paths paths' →
    classify paths' inputSemanticsUnchanged policyIrValidated = .ok impact' →
      impact'.path = impact.path
  manual : (∃ path ∈ paths, Protected path) → impact.path = "manual_policy_change"

/-- The normal form of a path is a directory, or below it. -/
def Under (start path : String) : Prop := pathParts start <+: pathParts path

instance (start path : String) : Decidable (Under start path) :=
  inferInstanceAs (Decidable (_ <+: _))

variable {paths paths' : List String} {path start : String}
  {inputSemanticsUnchanged policyIrValidated : Bool} {impact : Impact}

/-! ### Texts and what they mean -/

/-- A directory, as the classifier writes it: a slash at its end, and none in front. -/
structure IsDirectoryText (start : String) : Prop where
  ends : ∃ dir : String, start = dir ++ "/"
  first : ∃ c ∈ start.toList.head?, c ≠ '/' ∧ c ≠ '.'
  plain : '\\' ∉ start.toList

theorem isDirectoryText_of_mem (h : start ∈ protectedPrefixes) : IsDirectoryText start := by
  simp only [protectedPrefixes, List.mem_cons, List.not_mem_nil, or_false] at h
  rcases h with rfl | rfl | rfl | rfl | rfl | rfl | rfl
  · exact ⟨⟨"policies/trust", rfl⟩, ⟨'p', rfl, by decide⟩, by decide⟩
  · exact ⟨⟨"policies/permissions", rfl⟩, ⟨'p', rfl, by decide⟩, by decide⟩
  · exact ⟨⟨"policies/promotion", rfl⟩, ⟨'p', rfl, by decide⟩, by decide⟩
  · exact ⟨⟨"evaluation/sealed", rfl⟩, ⟨'e', rfl, by decide⟩, by decide⟩
  · exact ⟨⟨"evaluation/judges", rfl⟩, ⟨'e', rfl, by decide⟩, by decide⟩
  · exact ⟨⟨"approvals", rfl⟩, ⟨'a', rfl, by decide⟩, by decide⟩
  · exact ⟨⟨"audit", rfl⟩, ⟨'a', rfl, by decide⟩, by decide⟩

theorem isDirectoryText_exploration : IsDirectoryText explorationPath :=
  ⟨⟨"policies/exploration", rfl⟩, ⟨'p', rfl, by decide⟩, by decide⟩

/-- The parts behind a directory. -/
theorem pathParts_directory (hstart : IsDirectoryText start) (rest : String) :
    pathParts (start ++ rest) = pathParts start ++ pathParts rest := by
  obtain ⟨dir, rfl⟩ := hstart.ends
  have hdir : pathParts (dir ++ "/") = pathParts dir := by
    have hempty := pathParts_append_slash dir ""
    rwa [String.append_empty, show pathParts "" = [] from rfl, List.append_nil] at hempty
  rw [pathParts_append_slash, hdir]

/-- A text that starts with a directory is under it. -/
theorem under_of_startsWith (hstart : IsDirectoryText start) (h : StartsWith start path) :
    Under start path := by
  obtain ⟨chars, hchars⟩ := h
  have hpath : path = start ++ String.ofList chars := by
    rw [← String.toList_inj, String.toList_append, String.toList_ofList, hchars]
  rw [Under, hpath, pathParts_directory hstart]
  exact List.prefix_append _ _

/-- What is below a directory can be written with the text of the directory in front. -/
def respell (start path : String) : String :=
  start ++ "/".intercalate ((pathParts path).drop (pathParts start).length)

theorem startsWith_respell (start path : String) : StartsWith start (respell start path) := by
  rw [StartsWith, respell, String.toList_append]
  exact List.prefix_append _ _

/-- A protected path loses its dots and doubled slashes. -/
example : respell "policies/trust/" "policies/./trust//root.json" = "policies/trust/root.json" := by
  decide +kernel

/-- Parts are found again. -/
theorem pathParts_intercalate {parts : List String} (h : ∀ part ∈ parts, part ∈ pathParts path) :
    pathParts ("/".intercalate parts) = parts := by
  have hempty : "/".intercalate parts =
      String.ofList (List.replicate 0 '/') ++ "/".intercalate parts := String.empty_append.symm
  rw [hempty, pathParts_eq]
  refine filter_components (by decide) (fun part hpart => ?_) 0
  have hmem := List.mem_filter.mp (h part hpart)
  exact ⟨hmem.2, (of_mem_components hmem.1).1⟩

/-- The normal form of a path has its parts. -/
theorem pathParts_posix (path : String) : pathParts (posix (pathParts path)) = pathParts path := by
  rw [posix]
  split_ifs with hnone
  · rw [hnone]
    rfl
  · exact pathParts_intercalate fun _ hpart => hpart

/-- The other spelling means the same. -/
theorem pathParts_respell (hstart : IsDirectoryText start) (h : Under start path) :
    pathParts (respell start path) = pathParts path := by
  obtain ⟨rest, hrest⟩ := h
  have hdrop : (pathParts path).drop (pathParts start).length = rest := by
    rw [← hrest, List.drop_left]
  rw [respell, pathParts_directory hstart, hdrop, pathParts_intercalate, hrest]
  intro part hpart
  rw [← hrest]
  exact List.mem_append_right _ hpart

/-- A path with a dot in front, which means the same. -/
def dotted (path : String) : String := "." ++ "/" ++ path

theorem pathParts_dotted (path : String) : pathParts (dotted path) = pathParts path := by
  rw [dotted, pathParts_append_slash]
  rfl

theorem not_startsWith_dotted (hstart : IsDirectoryText start) (path : String) :
    ¬StartsWith start (dotted path) := by
  rintro ⟨chars, hchars⟩
  obtain ⟨c, hc, -, hdot⟩ := hstart.first
  have hhead : (start.toList ++ chars).head? = some c := by
    rw [List.head?_append, Option.mem_def.mp hc]
    rfl
  rw [hchars, dotted] at hhead
  simp only [String.toList_append] at hhead
  exact hdot (Option.some.inj hhead).symm

/-! ### What is accepted -/

/-- Another spelling of a path is accepted, if it is relative and has no backslash. -/
theorem not_invalidPath_of_parts {path' : String} (h : ¬InvalidPath path)
    (hparts : pathParts path' = pathParts path) (hrelative : path'.toList.head? ≠ some '/')
    (hplain : '\\' ∉ path'.toList) : ¬InvalidPath path' := by
  simp only [InvalidPath, not_or] at h ⊢
  exact ⟨hrelative, hparts ▸ h.2.1, hplain⟩

theorem not_invalidPath_dotted (h : ¬InvalidPath path) : ¬InvalidPath (dotted path) := by
  refine not_invalidPath_of_parts h (pathParts_dotted path) ?_ ?_
  · simp [dotted]
  · simp only [InvalidPath, not_or] at h
    simpa [dotted] using h.2.2

theorem not_invalidPath_respell (hstart : IsDirectoryText start) (hunder : Under start path)
    (h : ¬InvalidPath path) : ¬InvalidPath (respell start path) := by
  refine not_invalidPath_of_parts h (pathParts_respell hstart hunder) ?_ ?_
  · obtain ⟨c, hc, hslash, -⟩ := hstart.first
    rw [respell, String.toList_append, List.head?_append, Option.mem_def.mp hc]
    simpa using hslash
  · rw [respell, String.toList_append, List.mem_append, not_or]
    refine ⟨hstart.plain, fun hmem => ?_⟩
    rcases of_mem_intercalate hmem with hslash | ⟨part, hpart, hc⟩
    · exact absurd hslash (by decide)
    · simp only [InvalidPath, not_or] at h
      have hcomponent := List.mem_of_mem_filter (List.mem_of_mem_drop hpart)
      exact h.2.2 ((of_mem_components hcomponent).2 hc)

/-- **What a candidate is routed to.** -/
theorem classify_eq_ok :
    classify paths inputSemanticsUnchanged policyIrValidated = .ok impact ↔
      paths ≠ [] ∧ (∀ path ∈ paths, ¬InvalidPath path) ∧
        impact = if ∃ path ∈ paths, ∃ start ∈ protectedPrefixes, StartsWith start path then
            ⟨"protected_change", "manual_policy_change", true, "protected owner"⟩
          else if (∀ path ∈ paths, StartsWith explorationPath path) ∧
              inputSemanticsUnchanged = true ∧ policyIrValidated = true then
            ⟨"scheduling_only", "A", true, "screen by supported replay"⟩
          else ⟨"transition_changing", "B", true, "input semantics changed or unknown"⟩ := by
  rw [classify]
  by_cases hempty : paths = []
  · simp [hempty]
  rw [if_neg hempty]
  cases hfind : paths.find? fun path => InvalidPath path with
  | some path =>
    have hinvalid := List.find?_some hfind
    refine iff_of_false (by simp) fun h => ?_
    exact h.2.1 path (List.mem_of_find?_eq_some hfind) (of_decide_eq_true hinvalid)
  | none =>
    have hvalid : ∀ path ∈ paths, ¬InvalidPath path := by simpa using hfind
    rw [and_iff_right hempty, and_iff_right hvalid]
    dsimp only
    split_ifs <;> rw [Except.ok.injEq, eq_comm]

/-- With a dot in front of every path no candidate is protected, and none is for exploration. -/
theorem classify_dotted (hne : paths ≠ []) (hvalid : ∀ path ∈ paths, ¬InvalidPath path) :
    classify (paths.map dotted) inputSemanticsUnchanged policyIrValidated =
      .ok ⟨"transition_changing", "B", true, "input semantics changed or unknown"⟩ := by
  refine classify_eq_ok.mpr ⟨by simpa using hne, ?_, ?_⟩
  · exact List.forall_mem_map.mpr fun path hpath => not_invalidPath_dotted (hvalid path hpath)
  · rw [if_neg, if_neg]
    · rintro ⟨hall, -⟩
      obtain ⟨path, hpath⟩ := List.exists_mem_of_ne_nil _ hne
      exact not_startsWith_dotted isDirectoryText_exploration path
        (List.forall_mem_map.mp hall path hpath)
    · rintro ⟨path', hpath', start, hstart, hstarts⟩
      obtain ⟨path, -, rfl⟩ := List.mem_map.mp hpath'
      exact not_startsWith_dotted (isDirectoryText_of_mem hstart) path hstarts

theorem respelled_map {f : String → String}
    (h : ∀ path ∈ paths, pathParts (f path) = pathParts path) :
    Respelled paths (paths.map f) := by
  rw [Respelled, List.forall₂_map_right_iff, List.forall₂_same]
  exact fun path hpath => (h path hpath).symm

/-- A candidate with a path that is under a protected directory is routed to manual review under
one of its spellings. -/
theorem exists_manual (hvalid : ∀ path ∈ paths, ¬InvalidPath path) (hpath : path ∈ paths)
    (hstart : start ∈ protectedPrefixes) (hunder : Under start path) :
    ∃ paths' impact', Respelled paths paths' ∧
      classify paths' inputSemanticsUnchanged policyIrValidated = .ok impact' ∧
        impact'.path = "manual_policy_change" := by
  have htext := isDirectoryText_of_mem hstart
  let f := fun p => if Under start p then respell start p else p
  have hparts : ∀ p ∈ paths, pathParts (f p) = pathParts p := by
    intro p _
    by_cases hp : Under start p
    · simp only [f, if_pos hp, pathParts_respell htext hp]
    · simp only [f, if_neg hp]
  refine ⟨paths.map f, _, respelled_map hparts, classify_eq_ok.mpr ⟨?_, ?_, rfl⟩, ?_⟩
  · simpa using List.ne_nil_of_mem hpath
  · refine List.forall_mem_map.mpr fun p hp => ?_
    by_cases hunder' : Under start p
    · simpa only [f, if_pos hunder'] using not_invalidPath_respell htext hunder' (hvalid p hp)
    · simpa only [f, if_neg hunder'] using hvalid p hp
  · rw [if_pos]
    refine ⟨f path, List.mem_map_of_mem hpath, start, hstart, ?_⟩
    simpa only [f, if_pos hunder] using startsWith_respell start path

/-- A candidate of paths that are under the policies of exploration, attested, is routed to the
replay under one of its spellings. -/
theorem exists_replay (hne : paths ≠ []) (hvalid : ∀ path ∈ paths, ¬InvalidPath path)
    (hunder : ∀ path ∈ paths, Under explorationPath path) :
    ∃ paths' impact', Respelled paths paths' ∧ classify paths' true true = .ok impact' ∧
      impact'.path = "A" := by
  have htext := isDirectoryText_exploration
  refine ⟨paths.map (respell explorationPath), _,
    respelled_map fun p hp => pathParts_respell htext (hunder p hp),
    classify_eq_ok.mpr ⟨by simpa using hne, ?_, rfl⟩, ?_⟩
  · exact List.forall_mem_map.mpr fun p hp =>
      not_invalidPath_respell htext (hunder p hp) (hvalid p hp)
  · rw [if_neg, if_pos]
    · exact ⟨List.forall_mem_map.mpr fun p _ => startsWith_respell explorationPath p, rfl, rfl⟩
    · rintro ⟨path', hpath', start, hstart, hstarts⟩
      obtain ⟨p, -, rfl⟩ := List.mem_map.mp hpath'
      -- no protected directory starts like the policies of exploration
      have happart : ∀ start ∈ protectedPrefixes, ¬start.toList <+: explorationPath.toList ∧
          ¬explorationPath.toList <+: start.toList := by decide
      rcases List.prefix_or_prefix_of_prefix hstarts (startsWith_respell explorationPath p) with
        hprefix | hprefix
      · exact (happart start hstart).1 hprefix
      · exact (happart start hstart).2 hprefix

/-- **When the route of a candidate depends on what its paths mean**: no path is a protected
directory or below one, and not all of them are policies of exploration, attested. -/
theorem routedByMeaning_iff
    (h : classify paths inputSemanticsUnchanged policyIrValidated = .ok impact) :
    RoutedByMeaning paths inputSemanticsUnchanged policyIrValidated impact ↔
      (∀ path ∈ paths, ∀ start ∈ protectedPrefixes, ¬Under start path) ∧
        ¬((∀ path ∈ paths, Under explorationPath path) ∧
          inputSemanticsUnchanged = true ∧ policyIrValidated = true) := by
  obtain ⟨hne, hvalid, himpact⟩ := classify_eq_ok.mp h
  constructor
  · intro hrouted
    have hactual : "B" = impact.path := hrouted.respelled (paths.map dotted) _
      (respelled_map fun path _ => pathParts_dotted path) (classify_dotted hne hvalid)
    refine ⟨fun path hpath start hstart hunder => ?_, ?_⟩
    · obtain ⟨paths', impact', hrespelled, hclassify, hmanual⟩ :=
        exists_manual hvalid hpath hstart hunder
      have hsame := hrouted.respelled paths' impact' hrespelled hclassify
      rw [hmanual, ← hactual] at hsame
      exact absurd hsame (by decide)
    · rintro ⟨hunder, rfl, rfl⟩
      obtain ⟨paths', impact', hrespelled, hclassify, hreplay⟩ := exists_replay hne hvalid hunder
      have hsame := hrouted.respelled paths' impact' hrespelled hclassify
      rw [hreplay, ← hactual] at hsame
      exact absurd hsame (by decide)
  · rintro ⟨hfree, hscheduling⟩
    -- under every spelling the route is the actual one
    have hactual : ∀ paths' impact', Respelled paths paths' →
        classify paths' inputSemanticsUnchanged policyIrValidated = .ok impact' →
          impact'.path = "B" := by
      intro paths' impact' hrespelled hclassify
      obtain ⟨-, -, rfl⟩ := classify_eq_ok.mp hclassify
      rw [if_neg, if_neg]
      · rintro ⟨hall, hattested⟩
        refine hscheduling ⟨fun path hpath => ?_, hattested⟩
        obtain ⟨path', hpath', hparts⟩ := exists_of_mem_left hrespelled hpath
        rw [Under, hparts]
        exact under_of_startsWith isDirectoryText_exploration (hall path' hpath')
      · rintro ⟨path', hpath', start, hstart, hstarts⟩
        obtain ⟨path, hpath, hparts⟩ := exists_of_mem_right hrespelled hpath'
        refine hfree path hpath start hstart ?_
        rw [Under, hparts]
        exact under_of_startsWith (isDirectoryText_of_mem hstart) hstarts
    refine ⟨fun paths' impact' hrespelled hclassify => ?_, ?_⟩
    · rw [hactual paths' impact' hrespelled hclassify,
        hactual paths impact (List.forall₂_refl paths) h]
    · rintro ⟨path, hpath, start, hstart, hstarts⟩
      refine absurd ?_ (hfree path hpath start hstart)
      rw [Under, ← pathParts_posix path]
      exact under_of_startsWith (isDirectoryText_of_mem hstart) hstarts

/-- Paths that are neither protected nor for exploration. -/
theorem routedByMeaning_iff_source : ∃ impact,
    classify ["src/a.py", "src//b.py"] true true = .ok impact ∧
      (RoutedByMeaning ["src/a.py", "src//b.py"] true true impact ↔
        (∀ path ∈ ["src/a.py", "src//b.py"], ∀ start ∈ protectedPrefixes, ¬Under start path) ∧
          ¬((∀ path ∈ ["src/a.py", "src//b.py"], Under explorationPath path) ∧
            true = true ∧ true = true)) := by
  have hclassify : classify ["src/a.py", "src//b.py"] true true =
      .ok ⟨"transition_changing", "B", true, "input semantics changed or unknown"⟩ := by
    decide
  exact ⟨_, hclassify, routedByMeaning_iff hclassify⟩

/-- The dot in front is enough. -/
example : ¬StartsWith "policies/trust/" "./policies/trust/root.json" := by decide +kernel

/-- **A protected path that is routed past manual review**: a dot in front hides it. -/
theorem not_routedByMeaning : ¬∀ (paths : List String)
    (inputSemanticsUnchanged policyIrValidated : Bool) (impact : Impact),
    classify paths inputSemanticsUnchanged policyIrValidated = .ok impact →
      RoutedByMeaning paths inputSemanticsUnchanged policyIrValidated impact := by
  intro hclaim
  have hrouted := hclaim ["./policies/trust/root.json"] false false
    ⟨"transition_changing", "B", true, "input semantics changed or unknown"⟩ (by decide)
  have hmanual := hrouted.manual ⟨_, List.mem_cons_self, "policies/trust/", by decide,
    by decide⟩
  exact absurd hmanual (by decide)

end Improvement

end CyranoAgent
