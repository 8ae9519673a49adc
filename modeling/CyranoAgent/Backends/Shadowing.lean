import CyranoAgent.Backends.State

/-!
# Files that a route shadows

Routing is the inverse of remapping exactly where no longer route covers the path
(`getBackendAndKey_route_iff`, `getBackendAndKey_default_iff`). Whatever a search of the composite
reports comes from one mounted backend (`originates`), so that each report opens back when that
condition holds of it, and not otherwise (`opensBack_iff`).
-/

namespace CyranoAgent

namespace Backends

open Lib

/-! ### Prefixes -/

/-- A prefix that starts and ends with a slash. -/
def Slashed (routePrefix : Text) : Prop := ['/'] <+: routePrefix ∧ ['/'] <:+ routePrefix

/-- A path is a route's root or below it. -/
def Matches (routePrefix path : Text) : Prop :=
  path = rstripSlash routePrefix ∨ normalizedPrefix routePrefix <+: path

instance (routePrefix path : Text) : Decidable (Matches routePrefix path) :=
  inferInstanceAs (Decidable (_ ∨ _))

/-- The path inside the backend of a route that a path matches. -/
def keyUnder (routePrefix path : Text) : Text :=
  if path = rstripSlash routePrefix then ['/']
  else '/' :: path.drop (normalizedPrefix routePrefix).length

section

variable {routePrefix path rest : Text}

theorem normalizedPrefix_of_slashed (h : Slashed routePrefix) :
    normalizedPrefix routePrefix = routePrefix := if_pos h.2

/-- A prefix without its slash ends with none. -/
theorem not_suffix_rstripSlash (text : Text) : ¬ ['/'] <:+ rstripSlash text := by
  rintro ⟨start, hstart⟩
  have hidem : rstripSlash (rstripSlash text) = rstripSlash text :=
    List.rdropWhile_idempotent _ _
  rw [← hstart, rstripSlash, List.rdropWhile_concat_pos _ _ _ (by simp)] at hidem
  have hlen := (List.rdropWhile_prefix (fun ch => decide (ch = '/')) (l := start)).length_le
  rw [hidem, List.length_append, List.length_singleton] at hlen
  omega

theorem length_rstripSlash_lt (h : Slashed routePrefix) :
    (rstripSlash routePrefix).length < routePrefix.length := by
  have hpre : rstripSlash routePrefix <+: routePrefix := List.rdropWhile_prefix _ _
  refine lt_of_le_of_ne hpre.length_le fun heq => not_suffix_rstripSlash routePrefix ?_
  rw [hpre.eq_of_length heq]
  exact h.2

/-- A slashed prefix that a path inside it matches is no longer than the path. -/
theorem prefix_of_matches (h : Slashed routePrefix) (hmatch : Matches routePrefix path)
    (hpath : path ≠ rstripSlash routePrefix) : routePrefix <+: path := by
  have hprefix := hmatch.resolve_left hpath
  rwa [normalizedPrefix_of_slashed h] at hprefix

end

/-! ### The route that is taken -/

section

variable {B : Type}

theorem routeForPath_eq (default : B) (routes : List (Text × B)) (path : Text) :
    routeForPath default routes path =
      (routes.find? fun entry => Matches entry.1 path).elim (default, path, none) fun entry =>
        (entry.2, keyUnder entry.1 path, some entry.1) := by
  induction routes with
  | nil => rfl
  | cons entry routes ih =>
    obtain ⟨routePrefix, backend⟩ := entry
    rw [routeForPath, List.find?_cons]
    by_cases hroot : path = rstripSlash routePrefix
    · have hmatch : Matches routePrefix path := .inl hroot
      simp [hroot, keyUnder, Matches]
    by_cases hbelow : normalizedPrefix routePrefix <+: path
    · have hmatch : Matches routePrefix path := .inr hbelow
      simp [hroot, hbelow, hmatch, keyUnder]
    · have hmatch : ¬ Matches routePrefix path := not_or.2 ⟨hroot, hbelow⟩
      simp [hroot, hbelow, hmatch, ih]

instance : Std.Total fun a b : Text × B => b.1.length ≤ a.1.length :=
  ⟨fun a b => Nat.le_total b.1.length a.1.length⟩

instance : IsTrans (Text × B) fun a b => b.1.length ≤ a.1.length :=
  ⟨fun _ _ _ hab hbc => hbc.trans hab⟩

namespace CompositeBackend

variable (C : CompositeBackend B)

/-- Every prefix of the routes starts and ends with a slash. -/
def WellFormed : Prop := ∀ entry ∈ C.routes.entries, Slashed entry.1

/-- **The route taken** is the longest that the path matches, or none. -/
theorem getBackendAndKey_cases (path : Text) :
    (C.getBackendAndKey path = (C.default, path) ∧
      ∀ entry ∈ C.routes.entries, ¬ Matches entry.1 path) ∨
    ∃ taken ∈ C.routes.entries, Matches taken.1 path ∧
      C.getBackendAndKey path = (taken.2, keyUnder taken.1 path) ∧
      ∀ entry ∈ C.routes.entries, Matches entry.1 path → entry.1.length ≤ taken.1.length := by
  rw [getBackendAndKey, route, routeForPath_eq]
  cases hfind : C.sortedRoutes.find? fun entry => Matches entry.1 path with
  | none =>
    refine .inl ⟨rfl, fun entry hentry hmatch => ?_⟩
    have hmem : entry ∈ C.sortedRoutes := (List.perm_insertionSort _ _).mem_iff.2 hentry
    exact List.find?_eq_none.1 hfind entry hmem (decide_eq_true hmatch)
  | some taken =>
    obtain ⟨hmem, hmatch, hlongest⟩ := of_find?_insertionSort hfind
    exact .inr ⟨taken, hmem, of_decide_eq_true hmatch, rfl,
      fun entry hentry h => hlongest entry hentry (decide_eq_true h)⟩

variable {C} {path : Text}

/-- Two slashed prefixes of one length that a path is below are the same. -/
theorem eq_of_prefix_of_length {first second : Text} (hfirst : first <+: path)
    (hsecond : second <+: path) (hlen : first.length = second.length) : first = second :=
  (List.prefix_of_prefix_length_le hfirst hsecond hlen.le).eq_of_length hlen

/-- The entries of a route table with one prefix are one. -/
theorem eq_of_fst_eq {entry other : Text × B} (h : entry ∈ C.routes.entries)
    (h' : other ∈ C.routes.entries) (hfst : entry.1 = other.1) : entry = other := by
  have hget := Dict.get?_eq_some_iff.2 h
  rw [hfst, Dict.get?_eq_some_iff.2 h'] at hget
  exact Prod.ext hfst (Option.some.inj hget).symm

/-- Remapping puts an absolute path right behind the prefix. -/
theorem dropLast_append {routePrefix : Text} (h : Slashed routePrefix) (rest : Text) :
    routePrefix.dropLast ++ '/' :: rest = routePrefix ++ rest := by
  obtain ⟨start, rfl⟩ := h.2
  rw [List.dropLast_concat, List.append_assoc]
  rfl

/-- **The file of a route opens back** when no longer route covers its path. -/
theorem getBackendAndKey_route_iff (hwf : C.WellFormed) {entry : Text × B}
    (hentry : entry ∈ C.routes.entries) (rest : Text) :
    C.getBackendAndKey (entry.1 ++ rest) = (entry.2, '/' :: rest) ↔
      ∀ other ∈ C.routes.entries, Matches other.1 (entry.1 ++ rest) →
        other.1.length ≤ entry.1.length := by
  have hown : entry.1 <+: entry.1 ++ rest := List.prefix_append _ _
  have hmatch : Matches entry.1 (entry.1 ++ rest) := by
    refine .inr ?_
    rwa [normalizedPrefix_of_slashed (hwf entry hentry)]
  rcases getBackendAndKey_cases C (entry.1 ++ rest) with
    ⟨-, hnone⟩ | ⟨taken, htaken, htmatch, hkey, hlongest⟩
  · exact absurd hmatch (hnone entry hentry)
  have hslashed := hwf taken htaken
  have hge := hlongest entry hentry hmatch
  rw [hkey, keyUnder, normalizedPrefix_of_slashed hslashed]
  by_cases hroot : entry.1 ++ rest = rstripSlash taken.1
  · -- The path is the root of a longer route, without its slash.
    have hlt := length_rstripSlash_lt hslashed
    rw [← hroot, List.length_append] at hlt
    refine iff_of_false (fun heq => ?_) fun hall => ?_
    · rw [if_pos hroot] at heq
      have hnil : rest = [] := (List.cons.inj (Prod.ext_iff.1 heq).2).2.symm
      rw [hnil, List.append_nil] at hroot
      exact not_suffix_rstripSlash taken.1 (hroot ▸ (hwf entry hentry).2)
    · have hle := hall taken htaken htmatch
      omega
  · have hprefix := prefix_of_matches hslashed htmatch hroot
    rw [if_neg hroot]
    constructor
    · intro heq other hother hmatch'
      have hdrop : (entry.1 ++ rest).drop taken.1.length = rest :=
        (List.cons.inj (Prod.ext_iff.1 heq).2).2
      have hlen := congrArg List.length hdrop
      have hle := hprefix.length_le
      have hother' := hlongest other hother hmatch'
      rw [List.length_drop, List.length_append] at hlen
      rw [List.length_append] at hle
      omega
    · intro hall
      have hlen := (hall taken htaken htmatch).antisymm hge
      have hsame := eq_of_prefix_of_length hprefix hown hlen
      rw [eq_of_fst_eq htaken hentry hsame, List.drop_left]

/-- **The file of the default backend opens back** when no route covers its path, unless the
default backend itself is mounted at the root. -/
theorem getBackendAndKey_default_iff (hwf : C.WellFormed) (rest : Text) :
    C.getBackendAndKey ('/' :: rest) = (C.default, '/' :: rest) ↔
      ∀ entry ∈ C.routes.entries, Matches entry.1 ('/' :: rest) → entry = (['/'], C.default) := by
  rcases getBackendAndKey_cases C ('/' :: rest) with
    ⟨hkey, hnone⟩ | ⟨taken, htaken, htmatch, hkey, hlongest⟩
  · exact iff_of_true hkey fun entry hentry hmatch => absurd hmatch (hnone entry hentry)
  have hslashed := hwf taken htaken
  have hroot_of_length {entry : Text × B} (hentry : entry ∈ C.routes.entries)
      (hlen : entry.1.length ≤ 1) : entry.1 = ['/'] :=
    ((hwf entry hentry).1.eq_of_length_le hlen).symm
  rw [hkey, keyUnder, normalizedPrefix_of_slashed hslashed]
  constructor
  · intro heq entry hentry hmatch
    have hroot : ¬ '/' :: rest = rstripSlash taken.1 := by
      intro hroot
      rw [if_pos hroot] at heq
      have hnil : rest = [] := (List.cons.inj (Prod.ext_iff.1 heq).2).2.symm
      rw [hnil] at hroot
      exact not_suffix_rstripSlash taken.1 (hroot ▸ List.suffix_rfl)
    rw [if_neg hroot] at heq
    have hprefix := prefix_of_matches hslashed htmatch hroot
    have hdrop : ('/' :: rest).drop taken.1.length = rest :=
      (List.cons.inj (Prod.ext_iff.1 heq).2).2
    have hlen := congrArg List.length hdrop
    have hle := hprefix.length_le
    rw [List.length_drop, List.length_cons] at hlen
    rw [List.length_cons] at hle
    have htaken' : taken = (['/'], C.default) :=
      Prod.ext (hroot_of_length htaken (by omega)) (Prod.ext_iff.1 heq).1
    have hone := hlongest entry hentry hmatch
    rw [htaken'] at hone htaken
    exact eq_of_fst_eq hentry htaken (hroot_of_length hentry hone)
  · intro hall
    rw [hall taken htaken htmatch]
    have hroot : ¬ '/' :: rest = rstripSlash ['/'] := by
      rw [show rstripSlash ['/'] = [] by decide]
      exact List.cons_ne_nil _ _
    rw [if_neg hroot]
    rfl

/-! ### Where a report comes from -/

variable {ι : Type} [BackendProtocol B ι]

/-- What the default backend answers is reported as it is. -/
theorem originates_default {search : Search} {report : Text × Option ι}
    (h : report ∈ answers C.default search) : C.Originates report :=
  ⟨(none, C.default), List.mem_cons_self, search, report, h, rfl⟩

/-- What the backend of a route answers is reported behind its prefix. -/
theorem originates_route {entry : Text × B} (hentry : entry ∈ C.routes.entries) {search : Search}
    {answer : Text × Option ι} (h : answer ∈ answers entry.2 search) :
    C.Originates (entry.1.dropLast ++ answer.1, answer.2) :=
  ⟨(some entry.1, entry.2), List.mem_cons_of_mem _ (List.mem_map_of_mem hentry), search, answer,
    h, rfl⟩

/-- The route of a path is one of the table. -/
theorem mem_of_route_eq_some {backend : B} {backendPath routePrefix : Text}
    (h : C.route path = (backend, backendPath, some routePrefix)) :
    (routePrefix, backend) ∈ C.routes.entries := by
  rw [route, routeForPath_eq] at h
  cases hfind : C.sortedRoutes.find? fun entry => Matches entry.1 path with
  | none => rw [hfind] at h; simp at h
  | some taken =>
    rw [hfind] at h
    simp only [Option.elim_some, Prod.mk.injEq, Option.some.injEq] at h
    obtain ⟨rfl, -, rfl⟩ := h
    exact (of_find?_insertionSort hfind).1

/-- A listing names files of one mounted backend. -/
theorem originates_ls {info : FileInfo ι} (h : info ∈ (C.ls path).files) :
    C.Originates (info.path, info.mark) := by
  have hdefault (hmem : info ∈ (coerceLsResult (BackendProtocol.ls C.default path)).files) :
      C.Originates (info.path, info.mark) := by
    have hanswer : (info.path, info.mark) ∈ answers C.default (.ls path) :=
      List.mem_map_of_mem hmem
    exact originates_default hanswer
  rw [ls] at h
  split at h
  next backend backendPath routePrefix hroute =>
    dsimp only at h
    split_ifs at h with herrs
    · exact absurd herrs (by simp [(mem_ls_files.1 h).1])
    obtain ⟨-, hmem, hdir⟩ := mem_ls_files.1 h
    obtain ⟨own, hown, rfl⟩ := List.mem_map.1 hmem
    have hanswer : (own.path, own.mark) ∈ answers backend (.ls backendPath) :=
      List.mem_map_of_mem (mem_ls_files.2 ⟨Bool.eq_false_iff.2 herrs, hown, hdir⟩)
    exact originates_route (mem_of_route_eq_some hroute) hanswer
  next =>
    dsimp only at h
    split_ifs at h with hroot herrs
    · exact hdefault h
    · obtain ⟨-, hmem, hdir⟩ := mem_ls_files.1 h
      rw [Option.getD_some, sortByPath, (List.perm_insertionSort _ _).mem_iff,
        List.mem_append] at hmem
      rcases hmem with hmem | hmem
      · exact hdefault (mem_ls_files.2 ⟨Bool.eq_false_iff.2 herrs, hmem, hdir⟩)
      · -- The routes themselves are listed as directories.
        obtain ⟨entry, -, rfl⟩ := List.mem_map.1 hmem
        exact absurd rfl hdir
    · exact hdefault h

section

variable {pattern : Text} {searchPath glob : Option Text} {maxCount : Option ℤ}

theorem originates_grep_default {found : GrepMatch ι}
    (h : found ∈ (grepBackend C.default pattern searchPath glob maxCount).reported) :
    C.Originates (found.path, found.mark) := by
  have hanswer : (found.path, found.mark) ∈
      answers C.default (.grep pattern searchPath glob maxCount) := List.mem_map_of_mem h
  exact originates_default hanswer

theorem originates_grep_route {entry : Text × B} (hentry : entry ∈ C.routes.entries)
    {found : GrepMatch ι}
    (h : found ∈ (grepBackend entry.2 pattern searchPath glob maxCount).reported) :
    C.Originates ((remapGrepPath found entry.1).path, (remapGrepPath found entry.1).mark) := by
  have hanswer : (found.path, found.mark) ∈
      answers entry.2 (.grep pattern searchPath glob maxCount) := List.mem_map_of_mem h
  exact originates_route hentry hanswer

/-- The loop over the routes adds matches that a routed backend reported. -/
theorem originates_grepRoutes : ∀ {routes : List (Text × B)} {all : List (GrepMatch ι)}
    {truncated : Bool} {result : List (GrepMatch ι) × Bool},
    (∀ entry ∈ routes, entry ∈ C.routes.entries) →
    (∀ found ∈ all, C.Originates (found.path, found.mark)) →
    grepRoutes pattern glob maxCount routes all truncated = .ok result →
      ∀ found ∈ result.1, C.Originates (found.path, found.mark)
  | [], all, truncated, result, _, hall, h => by
    rw [grepRoutes, Except.ok.injEq] at h
    rw [← h]
    exact hall
  | (routePrefix, backend) :: routes, all, truncated, result, hroutes, hall, h => by
    rw [grepRoutes] at h
    dsimp only at h
    split_ifs at h with hspent herrs
    · rw [← Except.ok.inj h]
      exact hall
    · obtain ⟨hentry, hroutes⟩ := List.forall_mem_cons.1 hroutes
      refine originates_grepRoutes hroutes (fun found hfound => ?_) h
      rcases List.mem_append.1 hfound with hfound | hfound
      · exact hall found hfound
      · obtain ⟨own, hown, rfl⟩ := List.mem_map.1 hfound
        exact originates_grep_route hentry (mem_reported.2 ⟨Bool.eq_false_iff.2 herrs, hown⟩)

/-- The loop over the routes stops with a result that errs. -/
theorem errs_of_grepRoutes_eq_error {result : GrepResult ι} :
    ∀ {routes : List (Text × B)} {all : List (GrepMatch ι)} {truncated : Bool},
    grepRoutes pattern glob maxCount routes all truncated = .error result →
      errs result.error = true
  | [], all, truncated, h => by
    rw [grepRoutes] at h
    cases h
  | (routePrefix, backend) :: routes, all, truncated, h => by
    rw [grepRoutes] at h
    dsimp only at h
    split_ifs at h with hspent herrs
    · exact (Except.error.inj h) ▸ herrs
    · exact errs_of_grepRoutes_eq_error h

theorem originates_grepAll {found : GrepMatch ι}
    (h : found ∈ (C.grepAll pattern searchPath glob maxCount).reported) :
    C.Originates (found.path, found.mark) := by
  rw [grepAll] at h
  split_ifs at h with herrs
  · exact originates_grep_default h
  have hdefault : ∀ found ∈ (grepBackend C.default pattern searchPath glob maxCount).found.getD [],
      C.Originates (found.path, found.mark) := fun found hfound =>
    originates_grep_default (mem_reported.2 ⟨Bool.eq_false_iff.2 herrs, hfound⟩)
  cases hroutes : grepRoutes pattern glob maxCount C.routes.entries
      ((grepBackend C.default pattern searchPath glob maxCount).found.getD [])
      (grepBackend C.default pattern searchPath glob maxCount).truncated with
  | error result =>
    rw [hroutes] at h
    exact absurd (errs_of_grepRoutes_eq_error hroutes) (by simp [(mem_reported.1 h).1])
  | ok result =>
    have hall := originates_grepRoutes (fun _ h => h) hdefault hroutes
    rw [hroutes] at h
    obtain ⟨allMatches, truncated⟩ := result
    cases maxCount with
    | none => exact hall found (mem_reported.1 h).2
    | some cap =>
      dsimp only at h
      split_ifs at h with hcap
      · exact hall found (mem_of_mem_sliceTo (mem_reported.1 h).2)
      · exact hall found (mem_reported.1 h).2

/-- A search for a text names files of one mounted backend for each match. -/
theorem originates_grep {found : GrepMatch ι}
    (h : found ∈ (C.grep pattern searchPath glob maxCount).reported) :
    C.Originates (found.path, found.mark) := by
  cases searchPath with
  | none => exact originates_grepAll h
  | some searchPath =>
    rw [grep] at h
    split at h
    next backend backendPath routePrefix hroute =>
      dsimp only at h
      split_ifs at h with herrs
      · exact absurd herrs (by simp [(mem_reported.1 h).1])
      obtain ⟨own, hown, rfl⟩ := List.mem_map.1 (mem_reported.1 h).2
      exact originates_grep_route (mem_of_route_eq_some hroute)
        (mem_reported.2 ⟨Bool.eq_false_iff.2 herrs, hown⟩)
    next =>
      split_ifs at h with hroot
      · exact originates_grepAll h
      · exact originates_grep_default h

end

section

variable {pattern : Text} {searchPath : Option Text}

/-- The files of a glob answer without an error. -/
theorem mem_coerceGlobResult_files {answer : GlobAnswer ι} {info : FileInfo ι} :
    info ∈ (coerceGlobResult answer).files ↔
      answer.errs = false ∧ info ∈ answer.found ∧ info.isDir ≠ some true := by
  cases answer <;> exact mem_glob_files

theorem originates_glob_default {info : FileInfo ι}
    (h : info ∈ (coerceGlobResult (BackendProtocol.glob C.default pattern searchPath)).files) :
    C.Originates (info.path, info.mark) := by
  have hanswer : (info.path, info.mark) ∈ answers C.default (.glob pattern searchPath) :=
    List.mem_map_of_mem h
  exact originates_default hanswer

theorem originates_glob_route {entry : Text × B} (hentry : entry ∈ C.routes.entries)
    {info : FileInfo ι}
    (h : info ∈ (coerceGlobResult (BackendProtocol.glob entry.2 pattern searchPath)).files) :
    C.Originates
      ((remapFileInfoPath info entry.1).path, (remapFileInfoPath info entry.1).mark) := by
  have hanswer : (info.path, info.mark) ∈ answers entry.2 (.glob pattern searchPath) :=
    List.mem_map_of_mem h
  exact originates_route hentry hanswer

/-- The answers collected are those of routes. -/
theorem mem_globRoutes {asked : Text × GlobAnswer ι} : ∀ {routes : List (Text × B)},
    asked ∈ globRoutes pattern routes → ∃ entry ∈ routes, entry.1 = asked.1 ∧
      ∃ routed, BackendProtocol.glob entry.2 routed (some ['/']) = asked.2
  | [], h => absurd h List.not_mem_nil
  | (routePrefix, backend) :: routes, h => by
    rw [globRoutes] at h
    split at h
    next =>
      obtain ⟨entry, hentry, hasked⟩ := mem_globRoutes h
      exact ⟨entry, List.mem_cons_of_mem _ hentry, hasked⟩
    next routed _ =>
      rcases List.mem_cons.1 h with rfl | h
      · exact ⟨_, List.mem_cons_self, rfl, routed, rfl⟩
      · split_ifs at h
        · exact absurd h List.not_mem_nil
        · obtain ⟨entry, hentry, hasked⟩ := mem_globRoutes h
          exact ⟨entry, List.mem_cons_of_mem _ hentry, hasked⟩

/-- Merging keeps the origin of each file. -/
theorem originates_mergeRouted : ∀ {routed : List (Text × GlobAnswer ι)} {all : List (FileInfo ι)}
    {truncated : Bool} {reason : Option GlobTruncationReason} {info : FileInfo ι},
    (∀ asked ∈ routed, ∀ own ∈ (coerceGlobResult asked.2).files,
      C.Originates ((remapFileInfoPath own asked.1).path, (remapFileInfoPath own asked.1).mark)) →
    (∀ own ∈ all, own.isDir ≠ some true → C.Originates (own.path, own.mark)) →
    info ∈ (mergeRouted routed all truncated reason).files → C.Originates (info.path, info.mark)
  | [], all, truncated, reason, info, _, hall, h => by
    rw [mergeRouted] at h
    obtain ⟨-, hmem, hdir⟩ := mem_glob_files.1 h
    rw [Option.getD_some, sortByPath, (List.perm_insertionSort _ _).mem_iff] at hmem
    exact hall info hmem hdir
  | (routePrefix, answer) :: routed, all, truncated, reason, info, hrouted, hall, h => by
    obtain ⟨hfirst, hrouted⟩ := List.forall_mem_cons.1 hrouted
    rw [mergeRouted] at h
    split_ifs at h with herrs
    · exact absurd herrs (by simp [(mem_coerceGlobResult_files.1 h).1])
    refine originates_mergeRouted hrouted (fun own hown hdir => ?_) h
    rcases List.mem_append.1 hown with hown | hown
    · exact hall own hown hdir
    · obtain ⟨info, hinfo, rfl⟩ := List.mem_map.1 hown
      exact hfirst info
        (mem_coerceGlobResult_files.2 ⟨Bool.eq_false_iff.2 herrs, hinfo, hdir⟩)

theorem originates_globAll {info : FileInfo ι} (h : info ∈ (C.globAll pattern searchPath).files) :
    C.Originates (info.path, info.mark) := by
  rw [globAll] at h
  split_ifs at h with herrs
  · rw [mergeGlobResults, if_pos herrs] at h
    exact originates_glob_default h
  rw [mergeGlobResults, if_neg herrs] at h
  refine originates_mergeRouted (fun asked hasked own hown => ?_) (fun own hown hdir => ?_) h
  · obtain ⟨entry, hentry, hfst, routed, hanswer⟩ := mem_globRoutes hasked
    rw [← hanswer] at hown
    rw [← hfst]
    exact originates_glob_route hentry hown
  · exact originates_glob_default
      (mem_coerceGlobResult_files.2 ⟨Bool.eq_false_iff.2 herrs, hown, hdir⟩)

/-- A search for a pattern names files of one mounted backend. -/
theorem originates_glob {info : FileInfo ι} (h : info ∈ (C.glob pattern searchPath).files) :
    C.Originates (info.path, info.mark) := by
  cases searchPath with
  | none => exact originates_globAll h
  | some searchPath =>
    rw [glob] at h
    split at h
    next backend backendPath routePrefix hroute =>
      dsimp only at h
      split_ifs at h with herrs
      · exact absurd herrs (by simp [(mem_coerceGlobResult_files.1 h).1])
      obtain ⟨-, hmem, hdir⟩ := mem_glob_files.1 h
      obtain ⟨own, hown, rfl⟩ := List.mem_map.1 hmem
      exact originates_glob_route (mem_of_route_eq_some hroute)
        (mem_coerceGlobResult_files.2 ⟨Bool.eq_false_iff.2 herrs, hown, hdir⟩)
    next =>
      split_ifs at h with hroot
      · exact originates_globAll h
      · exact originates_glob_default h

end

/-- **What the composite reports, a mounted backend answered.** -/
theorem originates {search : Search} {report : Text × Option ι} (h : report ∈ C.reports search) :
    C.Originates report := by
  cases search with
  | ls path =>
    obtain ⟨info, hinfo, rfl⟩ := List.mem_map.1 h
    exact originates_ls hinfo
  | grep pattern path glob maxCount =>
    obtain ⟨found, hfound, rfl⟩ := List.mem_map.1 h
    exact originates_grep hfound
  | glob pattern path =>
    obtain ⟨info, hinfo, rfl⟩ := List.mem_map.1 h
    exact originates_glob hinfo

end CompositeBackend

end

/-! ### Reports that open back -/

section

variable {B : Type}

namespace CompositeBackend

variable (C : CompositeBackend B)

/-- A reported path is routed to the backend and the path that reported it. -/
def OpensBack (report : Text × Option (B × Text)) : Prop :=
  report.2 = some (C.getBackendAndKey report.1)

/-- A report that opens back is read by the backend that reported it, under the path it reported. -/
theorem read_of_opensBack {R : Type} {path own : Text} {backend : B}
    (h : C.OpensBack (path, some (backend, own))) (backendRead : B → Text → ℤ → ℤ → R)
    (offset limit : ℤ) :
    C.read backendRead path offset limit = backendRead backend own offset limit := by
  rw [read, ← Option.some.inj h]

/-- No other route takes the path of a backend's file: for a route no longer one matches the path,
and for the default backend none does except a root at which it is mounted itself. -/
def Uncovered : Option Text × B → Text → Prop
  | (none, backend), path =>
    ∀ entry ∈ C.routes.entries, Matches entry.1 path → entry = (['/'], backend)
  | (some routePrefix, _), path =>
    ∀ entry ∈ C.routes.entries, Matches entry.1 (routePrefix.dropLast ++ path) →
      entry.1.length ≤ routePrefix.length

variable {C}

/-- The file of a mounted backend opens back when it is uncovered. -/
theorem getBackendAndKey_place_iff (hwf : C.WellFormed) {mount : Option Text × B}
    (hmount : mount ∈ C.mounts) {path : Text} (hpath : ['/'] <+: path) :
    C.getBackendAndKey (place mount.1 path) = (mount.2, path) ↔ C.Uncovered mount path := by
  obtain ⟨rest, rfl⟩ := hpath
  rcases List.mem_cons.1 hmount with rfl | hmem
  · exact getBackendAndKey_default_iff hwf rest
  · obtain ⟨entry, hentry, rfl⟩ := List.mem_map.1 hmem
    have hplace : entry.1.dropLast ++ (['/'] ++ rest) = entry.1 ++ rest :=
      dropLast_append (hwf entry hentry) rest
    have hiff := getBackendAndKey_route_iff hwf hentry rest
    simp only [place, Uncovered, hplace]
    exact hiff

end CompositeBackend

variable [BackendProtocol B (B × Text)]

namespace CompositeBackend

variable {C : CompositeBackend B}

/-- **A report opens back exactly when it is uncovered**: each file that a search of a composite
names was answered by one of its mounted backends, and reading its path through the composite
reaches that backend and that path when no longer route covers it, and only then. -/
theorem opensBack_iff (hwf : C.WellFormed) (hhonest : ∀ mount ∈ C.mounts, Honest mount.2)
    (search : Search) : ∀ report ∈ C.reports search, ∃ mount ∈ C.mounts, ∃ path,
      report = (place mount.1 path, some (mount.2, path)) ∧
        (C.OpensBack report ↔ C.Uncovered mount path) := by
  intro report hreport
  obtain ⟨mount, hmount, asked, answer, hanswer, rfl⟩ := originates hreport
  obtain ⟨hmark, habsolute⟩ := hhonest mount hmount asked answer hanswer
  refine ⟨mount, hmount, answer.1, by rw [hmark], ?_⟩
  rw [OpensBack, hmark, Option.some.injEq, eq_comm]
  exact getBackendAndKey_place_iff hwf hmount habsolute

end CompositeBackend

end

/-! ### A composite of two backends over mappings -/

/-- The matcher of every path. -/
def everyPath : GlobLibrary where
  compile := fun _ => .ok fun _ => true
  quoted := fun text => String.ofList text

/-- A backend over one file that holds one word. -/
def wordFile (name : String) (path word : Text) : StateBackend where
  name
  files := Dict.ofList
    [(path, { content := .text word, encoding := none, createdAt := none, modifiedAt := none })]
  library := everyPath

/-- A route for memories beside a default backend that holds one file. -/
def memoriesBeside (path : Text) : CompositeBackend StateBackend where
  default := wordFile "state" path ['x']
  routes := Dict.ofList [("/memories/".toList, wordFile "memories" "/m.md".toList ['x'])]

theorem wellFormed_memoriesBeside (path : Text) : (memoriesBeside path).WellFormed := by
  intro entry hentry
  rw [List.mem_singleton.1 hentry]
  exact ⟨by decide, by decide⟩

theorem honest_wordFile (name : String) {path : Text} (word : Text) (habsolute : ['/'] <+: path)
    (hline : '\n' ∉ path) : Honest (wordFile name path word) :=
  honest_state fun key hkey => by
    rw [List.mem_singleton.1 hkey]
    exact ⟨habsolute, hline⟩

theorem honest_memoriesBeside {path : Text} (habsolute : ['/'] <+: path) (hline : '\n' ∉ path) :
    ∀ mount ∈ (memoriesBeside path).mounts, Honest mount.2 := by
  intro mount hmount
  rcases List.mem_cons.1 hmount with rfl | hmem
  · exact honest_wordFile _ _ habsolute hline
  · rw [List.mem_singleton.1 hmem]
    exact honest_wordFile _ _ (by decide) (by decide)

/-- The file that the default backend has at `/n.md` opens back. -/
theorem opensBack_iff_memoriesBeside :
    ∃ report ∈ (memoriesBeside "/n.md".toList).reports (.grep ['x'] none none none),
      report.1 = "/n.md".toList ∧
        ∃ mount ∈ (memoriesBeside "/n.md".toList).mounts, ∃ path,
          report = (place mount.1 path, some (mount.2, path)) ∧
            ((memoriesBeside "/n.md".toList).OpensBack report ↔
              (memoriesBeside "/n.md".toList).Uncovered mount path) := by
  have hpaths : ((memoriesBeside "/n.md".toList).reports (.grep ['x'] none none none)).map
      Prod.fst = ["/n.md".toList, "/memories/m.md".toList] := by decide
  obtain ⟨report, hreport, heq⟩ := List.mem_map.1 (hpaths ▸ List.mem_cons_self)
  exact ⟨report, hreport, heq, CompositeBackend.opensBack_iff (wellFormed_memoriesBeside _)
    (honest_memoriesBeside (by decide) (by decide)) _ report hreport⟩

/-- **A file of the default backend under the name of a route** is found by the search and opens as
a file of the route. -/
theorem not_opensBack : ¬ ∀ C : CompositeBackend StateBackend, C.WellFormed →
    (∀ mount ∈ C.mounts, Honest mount.2) →
      ∀ search, ∀ report ∈ C.reports search, C.OpensBack report := by
  intro h
  have hreports : ((memoriesBeside "/memories/n.md".toList).reports
      (.grep ['x'] none none none)).map
        (fun report => (report.1, report.2.map fun mark => (mark.1.name, mark.2))) =
      [("/memories/n.md".toList, some ("state", "/memories/n.md".toList)),
        ("/memories/m.md".toList, some ("memories", "/m.md".toList))] := by decide
  obtain ⟨report, hreport, heq⟩ := List.mem_map.1 (hreports ▸ List.mem_cons_self)
  have hopens := h (memoriesBeside "/memories/n.md".toList) (wellFormed_memoriesBeside _)
    (honest_memoriesBeside (by decide) (by decide)) _ report hreport
  obtain ⟨hpath, hmark⟩ := Prod.mk.inj heq
  rw [CompositeBackend.OpensBack, hpath] at hopens
  rw [hopens] at hmark
  exact absurd hmark (by decide)

end Backends

end CyranoAgent
