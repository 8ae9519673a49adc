import Mathlib
import CyranoAgent.Lib.Dict
import CyranoAgent.Lib.Lines
import CyranoAgent.Lib.Outcome

/-!
# Stored files and their search

The file data that the in-memory backends keep, the paths a search starts from, and
`grepMatchesFromFiles`, the literal search over a mapping of files: line by line, split at line
feeds, up to a cap. What a search reports is said once, line by line (`mem_grep`,
`mem_grep_of_mem`).
-/

namespace CyranoAgent

namespace Backends

open Lib

/-! ### File data -/

/-- The content of a stored file: a text, or the list of lines of the older format. -/
inductive Content where
  | text (content : Text)
  | lines (content : List Text)
  deriving DecidableEq, Repr

/-- A stored file. -/
structure FileData where
  content : Content
  encoding : Option String
  createdAt : Option String
  modifiedAt : Option String
  deriving DecidableEq, Repr

/-- The content as a single text. -/
def normalizeContent (fileData : FileData) : Text :=
  match fileData.content with
  | .text content => content
  | .lines content => ['\n'].intercalate content

/-- The name under which the backends convert stored content. -/
def fileDataToString (fileData : FileData) : Text := normalizeContent fileData

/-- File data with another content, its timestamps carried through. -/
def copyFileDataWithContent (fileData : FileData) (content : Text) : FileData where
  content := .text content
  encoding := some (fileData.encoding.getD "utf-8")
  createdAt := fileData.createdAt
  modifiedAt := fileData.modifiedAt

/-! ### What backends answer -/

/-- One entry of a listing. The keys that no code here reads are one mark, copied with the
entry. -/
structure FileInfo (ι : Type) where
  path : Text
  isDir : Option Bool := none
  size : Option ℕ := none
  modifiedAt : Option String := none
  mark : Option ι := none

/-- One line that a search found. -/
structure GrepMatch (ι : Type) where
  path : Text
  line : ℕ
  text : Text
  mark : Option ι := none

/-- The answer of `ls`. -/
structure LsResult (ι : Type) where
  error : Option String := none
  entries : Option (List (FileInfo ι)) := none

/-- The answer of `grep`. -/
structure GrepResult (ι : Type) where
  error : Option String := none
  found : Option (List (GrepMatch ι)) := none
  truncated : Bool := false

/-- Why a glob answer is incomplete. -/
inductive GlobTruncationReason where
  | budget
  | unreadable
  | transport
  deriving DecidableEq, Repr

/-- The answer of `glob`. -/
structure GlobResult (ι : Type) where
  error : Option String := none
  found : Option (List (FileInfo ι)) := none
  truncated : Bool := false
  truncationReason : Option GlobTruncationReason := none

/-- `if result.error`: an error, and not the empty text. -/
def errs (error : Option String) : Bool := error.any (· ≠ "")

/-! ### Search roots and include globs -/

/-- The characters that `str.strip` removes. -/
def whitespace : List Char :=
  ['\t', '\n', '\x0b', '\x0c', '\r', '\x1c', '\x1d', '\x1e', '\x1f', ' ', '\u0085', '\u00a0',
    '\u1680', '\u2000', '\u2001', '\u2002', '\u2003', '\u2004', '\u2005', '\u2006', '\u2007',
    '\u2008', '\u2009', '\u200a', '\u2028', '\u2029', '\u202f', '\u205f', '\u3000']

/-- `text.strip() == ""`. -/
def blank (text : Text) : Bool := text.all (· ∈ whitespace)

/-- `text.rstrip("/")`. -/
def rstripSlash (text : Text) : Text := text.rdropWhile (· = '/')

/-- `text.lstrip("/")`. -/
def lstripSlash (text : Text) : Text := text.dropWhile (· = '/')

/-- The canonical form of a search root, or `ValueError`. -/
def normalizePath (path : Option Text) : Except String Text :=
  let path := if path.getD [] = [] then ['/'] else path.getD []
  if blank path then .error "Path cannot be empty"
  else
    let normalized := if ['/'] <+: path then path else '/' :: path
    .ok (if normalized ≠ ['/'] ∧ ['/'] <:+ normalized then rstripSlash normalized else normalized)

/-- The files at a search root or below it. -/
def filterFilesByPath (files : Dict Text FileData) (normalizedPath : Text) :
    List (Text × FileData) :=
  match files.get? normalizedPath with
  | some fileData => [(normalizedPath, fileData)]
  | none =>
    if normalizedPath = ['/'] then files.entries.filter fun entry => ['/'] <+: entry.1
    else files.entries.filter fun entry => normalizedPath ++ ['/'] <+: entry.1

/-- A file's path relative to the search root. -/
def relativeToRoot (filePath normalizedPath : Text) : Text :=
  if normalizedPath = ['/'] then filePath.drop 1
  else if filePath = normalizedPath then (filePath.reverse.takeWhile (· ≠ '/')).reverse
  else filePath.drop (normalizedPath.length + 1)

/-- `PurePosixPath(text).name`. -/
def posixName (text : Text) : Text :=
  ((text.splitOn '/').filter fun part => part ≠ [] ∧ part ≠ ['.']).getLast?.getD []

/-- The glob matcher that the code is linked with, and how a pattern is quoted in a message:
`wcmatch.glob.compile` with its `BRACE` and `GLOBSTAR` flags, and `repr`. -/
structure GlobLibrary where
  compile : Text → Except String (Text → Bool)
  quoted : Text → String

/-- An include glob as a matcher of relative paths. -/
def compileGrepIncludeGlob (library : GlobLibrary) (pattern : Text) :
    Except String (Text → Bool) :=
  let separated := pattern.map fun ch => if ch = '\\' then '/' else ch
  if ['.', '.'] ∈ separated.splitOn '/' then
    .error s!"Path traversal not allowed in glob pattern {library.quoted pattern}"
  else
    match library.compile (lstripSlash pattern) with
    | .error reason => .error s!"Invalid glob pattern {library.quoted pattern}: {reason}"
    | .ok compiled =>
      if '/' ∈ pattern then .ok compiled else .ok fun relPath => compiled (posixName relPath)

/-! ### The literal search -/

variable {ι : Type}

/-- The lines of a file with their numbers. -/
def numberedLines (entry : Text × FileData) : List (Text × ℕ × Text) :=
  ((normalizeContent entry.2).lfLines.zipIdx 1).map fun numbered =>
    (entry.1, numbered.2, numbered.1)

/-- The scan over the lines of all files: a further match beyond the cap stops it. -/
def scanLines (pattern : Text) (maxCount : Option ℤ) :
    List (Text × ℕ × Text) → List (GrepMatch ι) → GrepResult ι
  | [], acc => { found := some acc }
  | (path, line, text) :: rest, acc =>
    if pattern <:+: text then
      if maxCount.any fun cap => cap ≤ (acc.length : ℤ) then
        { found := some acc, truncated := true }
      else scanLines pattern maxCount rest (acc ++ [{ path, line, text }])
    else scanLines pattern maxCount rest acc

/-- The files that a search looks at. -/
def searchedFiles (library : GlobLibrary) (files : Dict Text FileData) (normalizedPath : Text)
    (glob : Option Text) : Except String (List (Text × FileData)) :=
  let filtered := filterFilesByPath files normalizedPath
  if glob.getD [] = [] then .ok filtered
  else do
    let matcher ← compileGrepIncludeGlob library (glob.getD [])
    return filtered.filter fun entry => matcher (relativeToRoot entry.1 normalizedPath)

/-- Structured matches of a literal text in a mapping of files. -/
def grepMatchesFromFiles (library : GlobLibrary) (files : Dict Text FileData) (pattern : Text)
    (path glob : Option Text) (maxCount : Option ℤ) : GrepResult ι :=
  match normalizePath path with
  | .error _ => { found := some [] }
  | .ok normalizedPath =>
    match searchedFiles library files normalizedPath glob with
    | .error reason => { error := some reason }
    | .ok filtered => scanLines pattern maxCount (filtered.flatMap numberedLines) []

/-- The matches of a search without an error. -/
def GrepResult.reported (result : GrepResult ι) : List (GrepMatch ι) :=
  if errs result.error then [] else result.found.getD []

/-! ### What a search reports -/

section

variable {library : GlobLibrary} {files : Dict Text FileData} {pattern : Text}
  {path glob : Option Text} {maxCount : Option ℤ} {found : GrepMatch ι}

theorem mem_scanLines {lines : List (Text × ℕ × Text)} : ∀ {acc : List (GrepMatch ι)},
    found ∈ (scanLines pattern maxCount lines acc).reported →
      found ∈ acc ∨ (found.path, found.line, found.text) ∈ lines ∧ pattern <:+: found.text := by
  induction lines with
  | nil => exact fun h => .inl h
  | cons entry lines ih =>
    obtain ⟨entryPath, line, text⟩ := entry
    intro acc h
    rw [scanLines] at h
    split_ifs at h with hin hcap
    · exact .inl h
    · rcases ih h with hmem | ⟨hmem, hpattern⟩
      · rcases List.mem_append.1 hmem with hmem | hmem
        · exact .inl hmem
        · rw [List.mem_singleton.1 hmem]
          exact .inr ⟨List.mem_cons_self, hin⟩
      · exact .inr ⟨List.mem_cons_of_mem _ hmem, hpattern⟩
    · rcases ih h with hmem | ⟨hmem, hpattern⟩
      · exact .inl hmem
      · exact .inr ⟨List.mem_cons_of_mem _ hmem, hpattern⟩

/-- Without a cap every line with the pattern is reported. -/
theorem mem_scanLines_uncapped {lines : List (Text × ℕ × Text)} {entryPath text : Text} {line : ℕ}
    (hin : pattern <:+: text) : ∀ {acc : List (GrepMatch ι)},
    { path := entryPath, line, text } ∈ acc ∨ (entryPath, line, text) ∈ lines →
      { path := entryPath, line, text } ∈ (scanLines pattern none lines acc).reported := by
  induction lines with
  | nil => exact fun h => h.resolve_right List.not_mem_nil
  | cons entry lines ih =>
    obtain ⟨firstPath, first, firstText⟩ := entry
    intro acc h
    rw [scanLines]
    split_ifs with hfirst hcap
    · exact absurd hcap (by simp)
    · refine ih ?_
      rcases h with h | h
      · exact .inl (List.mem_append_left _ h)
      · rcases List.mem_cons.1 h with heq | h
        · simp only [Prod.mk.injEq] at heq
          obtain ⟨rfl, rfl, rfl⟩ := heq
          exact .inl (by simp)
        · exact .inr h
    · refine ih ?_
      rcases h with h | h
      · exact .inl h
      · rcases List.mem_cons.1 h with heq | h
        · simp only [Prod.mk.injEq] at heq
          obtain ⟨rfl, rfl, rfl⟩ := heq
          exact absurd hin hfirst
        · exact .inr h

theorem mem_numberedLines {entry : Text × FileData} {entryPath text : Text} {line : ℕ} :
    (entryPath, line, text) ∈ numberedLines entry ↔
      entry.1 = entryPath ∧ 1 ≤ line ∧
        (normalizeContent entry.2).lfLines[line - 1]? = some text := by
  rw [numberedLines, List.mem_map]
  constructor
  · rintro ⟨⟨found, n⟩, hmem, heq⟩
    simp only [Prod.mk.injEq] at heq
    obtain ⟨rfl, rfl, rfl⟩ := heq
    exact ⟨rfl, List.mem_zipIdx_iff_le_and_getElem?_sub.1 hmem⟩
  · rintro ⟨rfl, hline, hget⟩
    exact ⟨(text, line), List.mem_zipIdx_iff_le_and_getElem?_sub.2 ⟨hline, hget⟩, rfl⟩

/-- The files under a search root are among the stored ones. -/
theorem get?_of_mem_filterFilesByPath {root : Text} {entry : Text × FileData}
    (h : entry ∈ filterFilesByPath files root) : files.get? entry.1 = some entry.2 := by
  rw [filterFilesByPath] at h
  split at h
  next fileData hget =>
    rw [List.mem_singleton.1 h]
    exact hget
  next =>
    split_ifs at h <;> exact Dict.get?_eq_some_iff.2 (List.mem_filter.1 h).1

theorem get?_of_mem_searchedFiles {root : Text} {filtered : List (Text × FileData)}
    {entry : Text × FileData} (h : searchedFiles library files root glob = .ok filtered)
    (hmem : entry ∈ filtered) : files.get? entry.1 = some entry.2 := by
  rw [searchedFiles] at h
  split_ifs at h
  · rw [← Except.ok.inj h] at hmem
    exact get?_of_mem_filterFilesByPath hmem
  · obtain ⟨matcher, -, hfilter⟩ := except_bind_eq_ok.1 h
    rw [← Except.ok.inj hfilter] at hmem
    exact get?_of_mem_filterFilesByPath (List.mem_filter.1 hmem).1

/-- **A match is a numbered line** of a stored file, with the pattern in it. -/
theorem mem_grep (h : found ∈
      (grepMatchesFromFiles library files pattern path glob maxCount).reported) :
    pattern <:+: found.text ∧ 1 ≤ found.line ∧ ∃ fileData,
      files.get? found.path = some fileData ∧
        (normalizeContent fileData).lfLines[found.line - 1]? = some found.text := by
  rw [grepMatchesFromFiles] at h
  split at h
  next => exact absurd h List.not_mem_nil
  next root _ =>
    split at h
    next reason _ => exact absurd h (by rw [GrepResult.reported]; split_ifs <;> simp)
    next filtered hfiltered =>
      obtain ⟨hmem, hpattern⟩ := (mem_scanLines h).resolve_left List.not_mem_nil
      obtain ⟨entry, hentry, hline⟩ := List.mem_flatMap.1 hmem
      obtain ⟨hpath, hone, hget⟩ := mem_numberedLines.1 hline
      refine ⟨hpattern, hone, entry.2, ?_, hget⟩
      rw [← hpath]
      exact get?_of_mem_searchedFiles hfiltered hentry

/-- Without a glob and a cap, every line with the pattern below the search root is reported. -/
theorem mem_grep_of_mem {root entryPath text : Text} {line : ℕ} {fileData : FileData}
    (hpath : normalizePath path = .ok root)
    (hfile : (entryPath, fileData) ∈ filterFilesByPath files root) (hin : pattern <:+: text)
    (hline : 1 ≤ line) (htext : (normalizeContent fileData).lfLines[line - 1]? = some text) :
    ({ path := entryPath, line, text } : GrepMatch ι) ∈
      (grepMatchesFromFiles library files pattern path none none).reported := by
  have hfiltered : searchedFiles library files root none = .ok (filterFilesByPath files root) := by
    rw [searchedFiles, if_pos (show (none : Option Text).getD [] = [] from rfl)]
  rw [grepMatchesFromFiles, hpath]
  simp only [hfiltered]
  refine mem_scanLines_uncapped hin (.inr (List.mem_flatMap.2 ⟨_, hfile, ?_⟩))
  exact mem_numberedLines.2 ⟨rfl, hline, htext⟩

end

end Backends

end CyranoAgent
