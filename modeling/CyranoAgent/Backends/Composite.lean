import CyranoAgent.Backends.Files
import CyranoAgent.Lib.Ranking

/-!
# A backend composed of others

`CompositeBackend` mounts backends under path prefixes beside a default one. A path is routed to
the longest prefix it starts with, and what a mounted backend reports gets its prefix in front. The
two are inverse to each other on exactly the reported files that no longer route covers
(`opensBack_iff`): a search also reports files which another route shadows, and the path of such a
file opens something else.
-/

namespace CyranoAgent

namespace Backends

open Lib

/-! ### Backends -/

/-- What `ls` of a backend returns: a result, or the entries alone. -/
inductive LsAnswer (ι : Type) where
  | result (result : LsResult ι)
  | legacy (entries : List (FileInfo ι))

/-- What `grep` of a backend returns: a result, the matches alone, or the text of an error. -/
inductive GrepAnswer (ι : Type) where
  | result (result : GrepResult ι)
  | legacy (found : List (GrepMatch ι))
  | failure (error : String)

/-- What `glob` of a backend returns: a result, or the matches alone. -/
inductive GlobAnswer (ι : Type) where
  | result (result : GlobResult ι)
  | legacy (found : List (FileInfo ι))

/-- The searches that a backend answers. `grep` takes its cap as a keyword where the signature has
one. -/
class BackendProtocol (B : Type) (ι : outParam Type) where
  ls : B → Text → LsAnswer ι
  grep : B → Text → Option Text → Option Text → Option (Option ℤ) → GrepAnswer ι
  methodAcceptsMaxCount : B → Bool
  glob : B → Text → Option Text → GlobAnswer ι

section

variable {ι : Type}

/-- Normalize the answer of `ls`. -/
def coerceLsResult : LsAnswer ι → LsResult ι
  | .result result => result
  | .legacy entries => { entries := some entries }

/-- Normalize the answer of `grep`. -/
def coerceGrepResult : GrepAnswer ι → GrepResult ι
  | .result result => result
  | .failure error => { error := some error }
  | .legacy found => { found := some found }

/-- `found[:cap]`. -/
def sliceTo (found : List (GrepMatch ι)) (cap : ℤ) : List (GrepMatch ι) :=
  if 0 ≤ cap then found.take cap.toNat else found.take (found.length + cap).toNat

theorem mem_of_mem_sliceTo {found : GrepMatch ι} {all : List (GrepMatch ι)} {cap : ℤ}
    (h : found ∈ sliceTo all cap) : found ∈ all := by
  rw [sliceTo] at h
  split_ifs at h <;> exact List.mem_of_mem_take h

/-- Enforce a match cap after a search has completed. -/
def applyGrepMaxCount (result : GrepResult ι) (maxCount : Option ℤ) : GrepResult ι :=
  match maxCount, result.found with
  | some cap, some found =>
    if (found.length : ℤ) ≤ cap then result
    else { error := result.error, found := some (sliceTo found cap), truncated := true }
  | _, _ => result

/-- The budget left for the next routed search. -/
def remainingGrepBudget (maxCount : Option ℤ) (collected : ℕ) : Option ℤ :=
  maxCount.map fun cap => max (cap - collected) 0

/-- A match with its route in front of the path. -/
def remapGrepPath (found : GrepMatch ι) (routePrefix : Text) : GrepMatch ι :=
  { found with path := routePrefix.dropLast ++ found.path }

/-- An entry with its route in front of the path. -/
def remapFileInfoPath (info : FileInfo ι) (routePrefix : Text) : FileInfo ι :=
  { info with path := routePrefix.dropLast ++ info.path }

/-- `text.strip("/")`. -/
def stripSlash (text : Text) : Text := rstripSlash (lstripSlash text)

/-- A pattern relative to the route it targets, or as it is. -/
def stripRouteFromPattern (pattern routePrefix : Text) : Text :=
  let barePattern := lstripSlash pattern
  let barePrefix := stripSlash routePrefix ++ ['/']
  if barePrefix <+: barePattern then '/' :: barePattern.drop barePrefix.length else pattern

/-- A pattern for a routed backend, or none where an anchored pattern targets no route. -/
def routeGlobPattern (pattern routePrefix : Text) : Option Text :=
  let rewritten := stripRouteFromPattern pattern routePrefix
  if rewritten = pattern ∧ ['/'] <+: pattern then none else some rewritten

/-- The error of a glob answer. -/
def GlobAnswer.errs : GlobAnswer ι → Bool
  | .result answer => Backends.errs answer.error
  | .legacy _ => false

/-- The matches of a glob answer. -/
def GlobAnswer.found : GlobAnswer ι → List (FileInfo ι)
  | .result answer => answer.found.getD []
  | .legacy infos => infos

/-- A glob answer as a result. -/
def coerceGlobResult : GlobAnswer ι → GlobResult ι
  | .result result => result
  | .legacy found => { found := some found }

/-- The `truncated` flag of a glob answer. -/
def globTruncated : GlobAnswer ι → Bool
  | .result result => result.truncated
  | .legacy _ => false

/-- The truncation reason of a glob answer. -/
def globTruncationReason : GlobAnswer ι → Option GlobTruncationReason
  | .result result => result.truncationReason
  | .legacy _ => none

/-- Combine truncation reasons, an unreadable subtree first. -/
def mergeTruncationReason (current incoming : Option GlobTruncationReason) :
    Option GlobTruncationReason :=
  if current = some .unreadable ∨ incoming = some .unreadable then some .unreadable
  else current.or incoming

/-- Sort entries by their paths. -/
def sortByPath (entries : List (FileInfo ι)) : List (FileInfo ι) :=
  entries.insertionSort fun a b => a.path ≤ b.path

/-- Collect the routed results up to the first that errs. -/
def mergeRouted : List (Text × GlobAnswer ι) → List (FileInfo ι) → Bool →
    Option GlobTruncationReason → GlobResult ι
  | [], results, truncated, reason =>
    { found := some (sortByPath results), truncated, truncationReason := reason }
  | (routePrefix, subResult) :: rest, results, truncated, reason =>
    if subResult.errs then coerceGlobResult subResult
    else
      mergeRouted rest (results ++ subResult.found.map (remapFileInfoPath · routePrefix))
        (truncated || globTruncated subResult)
        (mergeTruncationReason reason (globTruncationReason subResult))

/-- Merge the default backend's glob answer with those of the routes: the first error wins. -/
def mergeGlobResults (defaultResult : GlobAnswer ι) (routed : List (Text × GlobAnswer ι)) :
    GlobResult ι :=
  if defaultResult.errs then coerceGlobResult defaultResult
  else
    mergeRouted routed defaultResult.found (globTruncated defaultResult)
      (mergeTruncationReason none (globTruncationReason defaultResult))

end

/-! ### Routing -/

section

variable {B : Type}

/-- A backend that routes file operations by path. -/
structure CompositeBackend (B : Type) where
  default : B
  routes : Dict Text B

/-- The routes, longest first. -/
def CompositeBackend.sortedRoutes (C : CompositeBackend B) : List (Text × B) :=
  C.routes.entries.insertionSort fun a b => b.1.length ≤ a.1.length

/-- A route's prefix with its slash. -/
def normalizedPrefix (routePrefix : Text) : Text :=
  if ['/'] <:+ routePrefix then routePrefix else routePrefix ++ ['/']

/-- The backend for a path, the path inside that backend, and the route taken. -/
def routeForPath (default : B) : List (Text × B) → Text → B × Text × Option Text
  | [], path => (default, path, none)
  | (routePrefix, backend) :: rest, path =>
    if path = rstripSlash routePrefix then (backend, ['/'], some routePrefix)
    else if normalizedPrefix routePrefix <+: path then
      let suffix := path.drop (normalizedPrefix routePrefix).length
      (backend, if suffix ≠ [] then '/' :: suffix else ['/'], some routePrefix)
    else routeForPath default rest path

namespace CompositeBackend

variable (C : CompositeBackend B)

/-- The route of a path. -/
def route (path : Text) : B × Text × Option Text := routeForPath C.default C.sortedRoutes path

/-- The backend for a path and the path inside it. -/
def getBackendAndKey (key : Text) : B × Text := ((C.route key).1, (C.route key).2.1)

/-- Read a file through the composite: the backend of its path reads it under its own path. -/
def read {R : Type} (backendRead : B → Text → ℤ → ℤ → R) (filePath : Text) (offset limit : ℤ) : R :=
  backendRead (C.getBackendAndKey filePath).1 (C.getBackendAndKey filePath).2 offset limit

/-! ### Searches -/

variable {ι : Type} [BackendProtocol B ι]

/-- List a directory: of its route, of the root with the routes as directories, or of the default
backend. -/
def ls (path : Text) : LsResult ι :=
  match C.route path with
  | (backend, backendPath, some routePrefix) =>
    let lsResult := coerceLsResult (BackendProtocol.ls backend backendPath)
    if errs lsResult.error then lsResult
    else { entries := some ((lsResult.entries.getD []).map (remapFileInfoPath · routePrefix)) }
  | (_, _, none) =>
    let defaultResult := coerceLsResult (BackendProtocol.ls C.default path)
    if path = ['/'] then
      if errs defaultResult.error then defaultResult
      else
        { entries := some (sortByPath (defaultResult.entries.getD [] ++ C.sortedRoutes.map fun r =>
            { path := r.1, isDir := some true, size := some 0, modifiedAt := some "" })) }
    else defaultResult

end CompositeBackend

/-- Search a backend, under the cap that its signature may not take. -/
def grepBackend {ι : Type} [BackendProtocol B ι] (backend : B) (pattern : Text)
    (path glob : Option Text) (maxCount : Option ℤ) : GrepResult ι :=
  let raw :=
    if BackendProtocol.methodAcceptsMaxCount (ι := ι) backend then
      BackendProtocol.grep backend pattern path glob (some maxCount)
    else BackendProtocol.grep backend pattern path glob none
  applyGrepMaxCount (coerceGrepResult raw) maxCount

namespace CompositeBackend

variable (C : CompositeBackend B) {ι : Type} [BackendProtocol B ι]

/-- Search the routes in order, until the budget is spent or one errs. -/
def grepRoutes (pattern : Text) (glob : Option Text) (maxCount : Option ℤ) :
    List (Text × B) → List (GrepMatch ι) → Bool →
      Except (GrepResult ι) (List (GrepMatch ι) × Bool)
  | [], allMatches, truncated => .ok (allMatches, truncated)
  | (routePrefix, backend) :: rest, allMatches, truncated =>
    let remaining := remainingGrepBudget maxCount allMatches.length
    if remaining = some 0 then .ok (allMatches, true)
    else
      let grepResult := grepBackend backend pattern (some ['/']) glob remaining
      if errs grepResult.error then .error grepResult
      else
        grepRoutes pattern glob maxCount rest
          (allMatches ++ (grepResult.found.getD []).map (remapGrepPath · routePrefix))
          (truncated || grepResult.truncated)

/-- Search every backend, the default one first, and merge what they found. -/
def grepAll (pattern : Text) (path glob : Option Text) (maxCount : Option ℤ) : GrepResult ι :=
  let defaultResult := grepBackend C.default pattern path glob maxCount
  if errs defaultResult.error then defaultResult
  else
    match grepRoutes pattern glob maxCount C.routes.entries (defaultResult.found.getD [])
        defaultResult.truncated with
    | .error grepResult => grepResult
    | .ok (allMatches, truncated) =>
      match maxCount with
      | some cap =>
        if cap < (allMatches.length : ℤ) then
          { found := some (sliceTo allMatches cap), truncated := true }
        else { found := some allMatches, truncated }
      | none => { found := some allMatches, truncated }

/-- Search for a literal text: in the route of the path, everywhere from the root or without a
path, else in the default backend. -/
def grep (pattern : Text) (path glob : Option Text) (maxCount : Option ℤ) : GrepResult ι :=
  match path with
  | none => C.grepAll pattern none glob maxCount
  | some path =>
    match C.route path with
    | (backend, backendPath, some routePrefix) =>
      let grepResult := grepBackend backend pattern (some backendPath) glob maxCount
      if errs grepResult.error then grepResult
      else
        { found := some ((grepResult.found.getD []).map (remapGrepPath · routePrefix))
          truncated := grepResult.truncated }
    | (_, _, none) =>
      if path = ['/'] then C.grepAll pattern (some path) glob maxCount
      else grepBackend C.default pattern (some path) glob maxCount

/-- The answers of the routes that a pattern can match, up to the first that errs. -/
def globRoutes (pattern : Text) : List (Text × B) → List (Text × GlobAnswer ι)
  | [] => []
  | (routePrefix, backend) :: rest =>
    match routeGlobPattern pattern routePrefix with
    | none => globRoutes pattern rest
    | some routedPattern =>
      let subResult := BackendProtocol.glob backend routedPattern (some ['/'])
      (routePrefix, subResult) ::
        if subResult.errs then [] else globRoutes pattern rest

/-- Match a pattern in every backend. -/
def globAll (pattern : Text) (path : Option Text) : GlobResult ι :=
  let defaultResult := BackendProtocol.glob C.default pattern path
  if defaultResult.errs then mergeGlobResults defaultResult []
  else mergeGlobResults defaultResult (globRoutes pattern C.routes.entries)

/-- Find files by a pattern: in the route of the path, everywhere from the root or without a path,
else in the default backend. -/
def glob (pattern : Text) (path : Option Text) : GlobResult ι :=
  match path with
  | none => C.globAll pattern none
  | some path =>
    match C.route path with
    | (backend, backendPath, some routePrefix) =>
      let globResult := BackendProtocol.glob backend pattern (some backendPath)
      if globResult.errs then coerceGlobResult globResult
      else
        { found := some (globResult.found.map (remapFileInfoPath · routePrefix))
          truncated := globTruncated globResult
          truncationReason := globTruncationReason globResult }
    | (_, _, none) =>
      if path = ['/'] then C.globAll pattern (some path)
      else coerceGlobResult (BackendProtocol.glob C.default pattern (some path))

end CompositeBackend

/-! ### What a search reports -/

/-- A search. -/
inductive Search where
  | ls (path : Text)
  | grep (pattern : Text) (path glob : Option Text) (maxCount : Option ℤ)
  | glob (pattern : Text) (path : Option Text)

section

variable {ι : Type}

/-- The files of a listing without an error. -/
def LsResult.files (result : LsResult ι) : List (FileInfo ι) :=
  if errs result.error then [] else (result.entries.getD []).filter (·.isDir ≠ some true)

/-- The files of a glob result without an error. -/
def GlobResult.files (result : GlobResult ι) : List (FileInfo ι) :=
  if errs result.error then [] else (result.found.getD []).filter (·.isDir ≠ some true)

variable [BackendProtocol B ι]

/-- The files that a backend reports to a search, each with its path and mark. -/
def answers (backend : B) : Search → List (Text × Option ι)
  | .ls path =>
    (coerceLsResult (BackendProtocol.ls backend path)).files.map fun info => (info.path, info.mark)
  | .grep pattern path glob maxCount =>
    (grepBackend backend pattern path glob maxCount).reported.map fun found =>
      (found.path, found.mark)
  | .glob pattern path =>
    (coerceGlobResult (BackendProtocol.glob backend pattern path)).files.map fun info =>
      (info.path, info.mark)

/-- The files that the composite reports to a search. -/
def CompositeBackend.reports (C : CompositeBackend B) : Search → List (Text × Option ι)
  | .ls path => (C.ls path).files.map fun info => (info.path, info.mark)
  | .grep pattern path glob maxCount =>
    (C.grep pattern path glob maxCount).reported.map fun found => (found.path, found.mark)
  | .glob pattern path => (C.glob pattern path).files.map fun info => (info.path, info.mark)

/-- The mounted backends: the default one without a prefix, and the routes. -/
def CompositeBackend.mounts (C : CompositeBackend B) : List (Option Text × B) :=
  (none, C.default) :: C.routes.entries.map fun entry => (some entry.1, entry.2)

/-- The path of a backend's file in the composite. -/
def place : Option Text → Text → Text
  | none, path => path
  | some routePrefix, path => routePrefix.dropLast ++ path

/-- A report of the composite is a report of a mounted backend, under its place. -/
def CompositeBackend.Originates (C : CompositeBackend B) (report : Text × Option ι) : Prop :=
  ∃ mount ∈ C.mounts, ∃ search, ∃ answer ∈ answers mount.2 search,
    report = (place mount.1 answer.1, answer.2)

end

/-- A backend reports absolute paths of its own files, and marks each report with itself and the
path it reports. -/
def Honest [BackendProtocol B (B × Text)] (backend : B) : Prop :=
  ∀ search, ∀ answer ∈ answers (ι := B × Text) backend search,
    answer.2 = some (backend, answer.1) ∧ ['/'] <+: answer.1

end

/-! ### Members of a result -/

section

variable {ι : Type}

theorem mem_ls_files {result : LsResult ι} {info : FileInfo ι} :
    info ∈ result.files ↔
      errs result.error = false ∧ info ∈ result.entries.getD [] ∧ info.isDir ≠ some true := by
  rw [LsResult.files]
  split_ifs with herrs <;> simp [herrs]

theorem mem_glob_files {result : GlobResult ι} {info : FileInfo ι} :
    info ∈ result.files ↔
      errs result.error = false ∧ info ∈ result.found.getD [] ∧ info.isDir ≠ some true := by
  rw [GlobResult.files]
  split_ifs with herrs <;> simp [herrs]

theorem mem_reported {result : GrepResult ι} {found : GrepMatch ι} :
    found ∈ result.reported ↔ errs result.error = false ∧ found ∈ result.found.getD [] := by
  rw [GrepResult.reported]
  split_ifs with herrs <;> simp [herrs]

/-- A cap reports nothing new. -/
theorem mem_of_mem_applyGrepMaxCount {result : GrepResult ι} {maxCount : Option ℤ}
    {found : GrepMatch ι} (h : found ∈ (applyGrepMaxCount result maxCount).reported) :
    found ∈ result.reported := by
  unfold applyGrepMaxCount at h
  split at h
  next cap all hall =>
    split_ifs at h
    · exact h
    · obtain ⟨herrs, hmem⟩ := mem_reported.1 h
      refine mem_reported.2 ⟨herrs, ?_⟩
      rw [hall]
      exact mem_of_mem_sliceTo hmem
  next => exact h

end

end Backends

end CyranoAgent
