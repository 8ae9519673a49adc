import CyranoAgent.Backends.Composite

/-!
# The backend over a mapping of files

`StateBackend` answers searches from the mapping of files of the agent's state. It reports only
paths of its own files (`honest_state`), which is what a composite relies on.
-/

namespace CyranoAgent

namespace Backends

open Lib

/-- A backend over files in the agent's state, with the glob matcher it is linked with. Two of
them are told apart by their names. -/
structure StateBackend where
  name : String
  files : Dict Text FileData
  library : GlobLibrary

namespace StateBackend

variable (S : StateBackend)

/-! ### Listing -/

/-- A directory path with its slash. -/
def directoryPath (path : Text) : Text := if ['/'] <:+ path then path else path ++ ['/']

/-- The part of a path before its first slash. -/
def firstName (relative : Text) : Text := relative.takeWhile (· ≠ '/')

/-- The entry of a file. -/
def fileInfo (entry : Text × FileData) : FileInfo (StateBackend × Text) where
  path := entry.1
  isDir := some false
  size := some (fileDataToString entry.2).length
  modifiedAt := some (entry.2.modifiedAt.getD "")
  mark := some (S, entry.1)

/-- List a directory, its files and the directories in it. -/
def ls (path : Text) : LsResult (StateBackend × Text) :=
  let normalizedPath := directoryPath path
  let inside := S.files.entries.filter fun entry => normalizedPath <+: entry.1
  let nested := inside.filter fun entry => '/' ∈ entry.1.drop normalizedPath.length
  let direct := inside.filter fun entry => '/' ∉ entry.1.drop normalizedPath.length
  let subdirs := (nested.map fun entry =>
    normalizedPath ++ firstName (entry.1.drop normalizedPath.length) ++ ['/']).dedup
  { entries := some <| sortByPath <| direct.map S.fileInfo ++
      (subdirs.insertionSort (· ≤ ·)).map fun subdir =>
        { path := subdir, isDir := some true, size := some 0, modifiedAt := some "",
          mark := some (S, subdir) } }

/-! ### Searches -/

/-- Search the files for a literal text. -/
def grep (pattern : Text) (path glob : Option Text) (maxCount : Option ℤ) :
    GrepResult (StateBackend × Text) :=
  let result : GrepResult (StateBackend × Text) :=
    grepMatchesFromFiles S.library S.files pattern (some (path.getD ['/'])) glob maxCount
  { result with
    found := result.found.map fun all => all.map fun found =>
      { found with mark := some (S, found.path) } }

/-- The paths that a pattern matches, the latest modified first, in one text. -/
def globSearchFiles (library : GlobLibrary) (files : Dict Text FileData) (pattern : Text)
    (path : Option Text) : Except String Text :=
  match normalizePath path with
  | .error _ => .ok "No files found".toList
  | .ok normalizedPath => do
    let matcher ← compileGrepIncludeGlob library pattern
    let found := ((filterFilesByPath files normalizedPath).filter fun entry =>
      matcher (relativeToRoot entry.1 normalizedPath)).insertionSort fun a b =>
        b.2.modifiedAt.getD "" ≤ a.2.modifiedAt.getD ""
    if found = [] then return "No files found".toList
    else return ['\n'].intercalate (found.map Prod.fst)

/-- Match a pattern against the paths of the files. -/
def glob (pattern : Text) (path : Option Text) : GlobResult (StateBackend × Text) :=
  match globSearchFiles S.library S.files pattern path with
  | .error reason => { error := some reason }
  | .ok result =>
    if result = "No files found".toList then { found := some [] }
    else
      { found := some <| result.lfLines.map fun path =>
          { path, isDir := some false
            size := some (((S.files.get? path).map fun fileData =>
              (fileDataToString fileData).length).getD 0)
            modifiedAt := some (((S.files.get? path).bind FileData.modifiedAt).getD "")
            mark := some (S, path) } }

end StateBackend

instance : BackendProtocol StateBackend (StateBackend × Text) where
  ls S path := .result (S.ls path)
  grep S pattern path glob maxCount := .result (S.grep pattern path glob (maxCount.getD none))
  methodAcceptsMaxCount _ := true
  glob S pattern path := .result (S.glob pattern path)

/-! ### A backend over a mapping reports its own files -/

section

variable {S : StateBackend}

/-- Every stored path is absolute and of one line. -/
def StateBackend.Plain (S : StateBackend) : Prop :=
  ∀ key ∈ S.files.keys, ['/'] <+: key ∧ '\n' ∉ key

theorem StateBackend.files_of_ls {path : Text} {info : FileInfo (StateBackend × Text)}
    (h : info ∈ (S.ls path).files) :
    info.path ∈ S.files.keys ∧ info.mark = some (S, info.path) := by
  obtain ⟨-, hmem, hdir⟩ := mem_ls_files.1 h
  rw [StateBackend.ls] at hmem
  dsimp only at hmem
  rw [Option.getD_some, sortByPath, (List.perm_insertionSort _ _).mem_iff, List.mem_append] at hmem
  rcases hmem with hmem | hmem
  · obtain ⟨entry, hentry, rfl⟩ := List.mem_map.1 hmem
    have hstored := List.mem_of_mem_filter (List.mem_of_mem_filter hentry)
    exact ⟨List.mem_map_of_mem hstored, rfl⟩
  · obtain ⟨subdir, -, rfl⟩ := List.mem_map.1 hmem
    exact absurd rfl hdir

theorem StateBackend.files_of_grep {pattern : Text} {path glob : Option Text} {maxCount : Option ℤ}
    {found : GrepMatch (StateBackend × Text)}
    (h : found ∈ (S.grep pattern path glob maxCount).reported) :
    found.path ∈ S.files.keys ∧ found.mark = some (S, found.path) := by
  obtain ⟨herrs, hmem⟩ := mem_reported.1 h
  rw [StateBackend.grep] at herrs hmem
  dsimp only at herrs hmem
  cases hfound : (grepMatchesFromFiles (ι := StateBackend × Text) S.library S.files pattern
      (some (path.getD ['/'])) glob maxCount).found with
  | none => simp [hfound] at hmem
  | some all =>
    rw [hfound] at hmem
    obtain ⟨own, hown, rfl⟩ := List.mem_map.1 hmem
    have hreported : own ∈ (grepMatchesFromFiles S.library S.files pattern
        (some (path.getD ['/'])) glob maxCount).reported :=
      mem_reported.2 ⟨herrs, by rw [hfound]; exact hown⟩
    obtain ⟨-, -, fileData, hget, -⟩ := mem_grep hreported
    exact ⟨Dict.mem_keys_iff.2 ⟨fileData, hget⟩, rfl⟩

/-- The paths of a glob come back from the one text they are joined in. -/
theorem StateBackend.files_of_glob (hplain : S.Plain) {pattern : Text} {path : Option Text}
    {info : FileInfo (StateBackend × Text)} (h : info ∈ (S.glob pattern path).files) :
    info.path ∈ S.files.keys ∧ info.mark = some (S, info.path) := by
  obtain ⟨-, hmem, -⟩ := mem_glob_files.1 h
  rw [StateBackend.glob] at hmem
  split at hmem
  next => exact absurd hmem List.not_mem_nil
  next result hresult =>
    split_ifs at hmem with hnone
    · exact absurd hmem List.not_mem_nil
    obtain ⟨found, hfound, rfl⟩ := List.mem_map.1 hmem
    refine ⟨?_, rfl⟩
    rw [globSearchFiles] at hresult
    split at hresult
    next => exact absurd (Except.ok.inj hresult).symm hnone
    next root _ =>
      obtain ⟨matcher, -, hjoined⟩ := except_bind_eq_ok.1 hresult
      dsimp only at hjoined
      split_ifs at hjoined with hnil
      · exact absurd (Except.ok.inj hjoined).symm hnone
      rw [← Except.ok.inj hjoined] at hfound
      have hkeys : ∀ path ∈ (((filterFilesByPath S.files root).filter fun entry =>
          matcher (relativeToRoot entry.1 root)).insertionSort fun a b =>
            b.2.modifiedAt.getD "" ≤ a.2.modifiedAt.getD "").map Prod.fst,
          path ∈ S.files.keys := by
        intro path hpath
        obtain ⟨entry, hentry, rfl⟩ := List.mem_map.1 hpath
        rw [(List.perm_insertionSort _ _).mem_iff] at hentry
        have hget := get?_of_mem_filterFilesByPath (List.mem_of_mem_filter hentry)
        exact Dict.mem_keys_iff.2 ⟨entry.2, hget⟩
      have hlines := List.splitOn_intercalate '\n' (fun path hpath =>
        (hplain path (hkeys path hpath)).2) (by simpa using hnil)
      exact hkeys found (hlines ▸ hfound)

/-- **A backend over a mapping of absolute paths is honest.** -/
theorem honest_state (hplain : S.Plain) : Honest S := by
  intro search answer hanswer
  suffices h : answer.1 ∈ S.files.keys ∧ answer.2 = some (S, answer.1) from
    ⟨h.2, (hplain _ h.1).1⟩
  cases search with
  | ls path =>
    obtain ⟨info, hinfo, rfl⟩ := List.mem_map.1 hanswer
    exact StateBackend.files_of_ls hinfo
  | grep pattern path glob maxCount =>
    obtain ⟨found, hfound, rfl⟩ := List.mem_map.1 hanswer
    exact StateBackend.files_of_grep (mem_of_mem_applyGrepMaxCount hfound)
  | glob pattern path =>
    obtain ⟨info, hinfo, rfl⟩ := List.mem_map.1 hanswer
    exact StateBackend.files_of_glob hplain hinfo

end

end Backends

end CyranoAgent
