import CyranoAgent.Backends.Channel
import CyranoAgent.Backends.State
import CyranoAgent.Lib.PosixPath

/-!
# Deleting under permission rules

A permission rule allows, denies or interrupts operations on the paths that its patterns match, and
the first rule that matches decides (`checkFsPermission`). A delete takes a path with all that is
below it: `findDeleteDenyPatterns` compares the patterns of all deny rules with the path, whatever
their order, and leaves it to the first rule only where the backend reports a plain file.

`deleteTool_spec`: no file that the tool removes is one that may not be written, and
`deleteTool_file`: a plain file is removed exactly when it may be written. The matcher is
`wcmatch.glob.globmatch` with the flags `BRACE` and `GLOBSTAR`; what the comparison relies on is
`Globs`.
-/

namespace CyranoAgent

namespace Backends

open Lib

/-! ### Pure paths -/

/-- `to_posix_path`. -/
def toPosixPath (path : String) : String :=
  String.ofList (path.toList.map fun c => if c = '\\' then '/' else c)

/-- `PurePosixPath(path).parts`: the root, if there is one, and the names. -/
def posixParts (path : String) : List String :=
  match initialSlashes path with
  | 0 => pathParts path
  | 1 => "/" :: pathParts path
  | _ => "//" :: pathParts path

/-- `str(PurePosixPath(*parts))`. -/
def posixText : List String → String
  | [] => "."
  | root :: names =>
    if root = "/" ∨ root = "//" then root ++ "/".intercalate names
    else "/".intercalate (root :: names)

/-- `PurePosixPath(path).is_relative_to(other)`. -/
def isRelativeTo (path other : String) : Prop := posixParts other <+: posixParts path

instance (path other : String) : Decidable (isRelativeTo path other) :=
  inferInstanceAs (Decidable (_ <+: _))

/-- `str(PurePosixPath(path).parent)`, where the root is its own parent. -/
def posixParent (path : String) : String :=
  let parts := posixParts path
  posixText (if parts = ["/"] ∨ parts = ["//"] then parts else parts.dropLast)

/-- `_GLOB_WILDCARD_CHARS`. -/
def globWildcardChars : List Char := ['*', '?', '[', '{']

/-- Some character is a wildcard. -/
def wild (text : String) : Bool := text.toList.any (· ∈ globWildcardChars)

/-- `_glob_anchor`. -/
def globAnchor (pattern : String) : String :=
  let safe := (posixParts (toPosixPath pattern)).takeWhile fun part => !wild part
  if safe = [] then "/" else posixText safe

/-- `_paths_overlap`. -/
def pathsOverlap (callPath ruleAnchor : String) : Bool :=
  posixParts callPath = posixParts ruleAnchor ∨ isRelativeTo callPath ruleAnchor ∨
    isRelativeTo ruleAnchor callPath

/-- `validate_path`, without allowed prefixes. -/
def validatePath (path : String) : Except String String :=
  if ".." ∈ posixParts (toPosixPath path) ∨ path.toList.head? = some '~' then
    .error s!"Path traversal not allowed: {path}"
  else if (path.toList.head?.any Char.isAlpha) ∧ (path.toList.drop 1).head? = some ':' then
    .error (s!"Windows absolute paths are not supported: {path}. Please use virtual paths " ++
      "starting with / (e.g., /workspace/file.txt)")
  else
    let normalized := toPosixPath (normpath path)
    let normalized := if normalized.toList.head? = some '/' then normalized else "/" ++ normalized
    if ".." ∈ components normalized then
      .error s!"Path traversal detected after normalization: {path} -> {normalized}"
    else .ok normalized

/-! ### Rules -/

/-- What a rule is about. -/
inductive FilesystemOperation where
  | read
  | write
  deriving DecidableEq, Repr

/-- The effect of a rule. -/
inductive PermissionMode where
  | allow
  | deny
  | interrupt
  deriving DecidableEq, Repr

/-- A rule whose patterns were validated. -/
structure FilesystemPermission where
  operations : List FilesystemOperation
  paths : List String
  mode : PermissionMode := .allow
  validated : ∀ path ∈ paths, path.toList.head? = some '/' ∧
    ".." ∉ posixParts (toPosixPath path) ∧ "~" ∉ posixParts (toPosixPath path)

section

variable (globmatch : String → String → Bool)

/-- `_check_fs_permission`: the first rule that matches decides. -/
def checkFsPermission (operation : FilesystemOperation) (path : String) :
    List FilesystemPermission → PermissionMode
  | [] => .allow
  | rule :: rules =>
    if operation ∈ rule.operations ∧ rule.paths.any (globmatch path) then rule.mode
    else checkFsPermission operation path rules

/-- `_wildcard_delete_overlap`. -/
def wildcardDeleteOverlap (pattern anchor target : String) : Bool :=
  if anchor = "/" then true
  else if globmatch target pattern then true
  else if isRelativeTo anchor target then true
  else if ¬ isRelativeTo target anchor then false
  else
    let anchorDepth := (posixParts anchor).length
    match (posixParts pattern).drop anchorDepth with
    | [last] =>
      if ['*', '*'] <:+: last.toList then true
      else (List.range' anchorDepth ((posixParts target).length - anchorDepth)).any fun depth =>
        globmatch (posixText ((posixParts target).take depth)) pattern
    | _ => true

/-- A pattern that a delete of the target may run into. -/
def overlaps (target pattern : String) : Bool :=
  if wild pattern then wildcardDeleteOverlap globmatch pattern (globAnchor pattern) target
  else pathsOverlap target (globAnchor pattern)

/-- `_find_delete_deny_patterns_for_leaf`. -/
def findDeleteDenyPatternsForLeaf (target : String) : List FilesystemPermission → List String
  | [] => []
  | rule :: rules =>
    let matched := rule.paths.filter (globmatch target)
    if .write ∉ rule.operations ∨ matched = [] then findDeleteDenyPatternsForLeaf target rules
    else if rule.mode = .deny then matched
    else []

/-- `_find_delete_deny_patterns`. -/
def findDeleteDenyPatterns (rules : List FilesystemPermission) (target : String)
    (hasDescendants : Bool) : List String :=
  if hasDescendants then
    rules.foldl (fun denying rule =>
      if rule.mode ≠ .deny ∨ .write ∉ rule.operations then denying
      else rule.paths.foldl (fun denying pattern =>
        if pattern ∉ denying ∧ overlaps globmatch target pattern then denying ++ [pattern]
        else denying) denying) []
  else findDeleteDenyPatternsForLeaf globmatch target rules

end

/-! ### The tool -/

/-- `_leaf_from_parent_listing`. -/
def leafFromParentListing {ι : Type} (result : LsResult ι) (target : String) : Bool :=
  if result.error.isSome then true
  else
    let found := (result.entries.getD []).filter fun entry =>
      rstripSlash entry.path = rstripSlash target.toList
    if found.isEmpty then true else found.any fun entry => entry.isDir = some true

/-- `_delete_target_may_have_descendants`, given what `ls` answers, if it is implemented. -/
def deleteTargetMayHaveDescendants {ι : Type} (ls : String → Option (LsResult ι)) (target : String)
    (permissionsConfigured : Bool) : Bool :=
  if !permissionsConfigured then false
  else
    match ls target with
    | none => true
    | some result =>
      match result.error with
      | some error => !decide ("not_a_directory".toList <:+: error.toList)
      | none =>
        if !(result.entries.getD []).isEmpty then true
        else
          match ls (posixParent target) with
          | none => true
          | some parent => leafFromParentListing parent target

/-- What a tool answers. -/
structure ToolMessage where
  content : String
  status : String

/-- The state backend over what a channel holds. -/
def FilesChannel.backend (library : GlobLibrary) (channel : FilesChannel) : StateBackend :=
  ⟨"state", channel.readFiles, library⟩

/-- What the tool takes a target of a channel for. -/
def FilesChannel.mayHaveDescendants (library : GlobLibrary)
    (permissions : List FilesystemPermission) (channel : FilesChannel) (target : String) : Bool :=
  deleteTargetMayHaveDescendants (fun path => some ((channel.backend library).ls path.toList))
    target !permissions.isEmpty

/-- The `delete` tool over the state backend of a channel. -/
def deleteTool (globmatch : String → String → Bool) (library : GlobLibrary)
    (permissions : List FilesystemPermission) (channel : FilesChannel) (filePath : String) :
    ToolMessage × FilesChannel :=
  match validatePath filePath with
  | .error reason => (⟨s!"Error: {reason}", "error"⟩, channel)
  | .ok validatedPath =>
    let hasDescendants := channel.mayHaveDescendants library permissions validatedPath
    let denyingPatterns :=
      findDeleteDenyPatterns globmatch permissions validatedPath hasDescendants
    if denyingPatterns ≠ [] then
      (⟨s!"Error: permission denied for write on {validatedPath} (matches deny rule(s): " ++
        ", ".intercalate denyingPatterns ++ ")", "error"⟩, channel)
    else
      let deleted := channel.delete validatedPath.toList
      if errs deleted.1.error then (⟨deleted.1.error.getD "", "error"⟩, deleted.2)
      else (⟨"Deleted " ++ String.ofList (deleted.1.path.getD []), "success"⟩, deleted.2)

/-! ### Patterns and the paths near them -/

/-- A pattern written with slashes alone, and one of them in front. -/
structure Plain (pattern : String) : Prop where
  slashes : '\\' ∉ pattern.toList
  root : initialSlashes pattern = 1

/-- The components in front of the first wildcard. -/
def literalHead (pattern : String) : List String :=
  (pathParts pattern).takeWhile fun part => !wild part

/-- What the comparison relies on of the matcher, for plain patterns and normal paths: what a
pattern matches starts with the components in front of its first wildcard; and if just one component
stands behind these, and no globstar is written in it, then a pattern that matches a path matches
what is above it, as far up as that component. -/
structure Globs (globmatch : String → String → Bool) : Prop where
  head : ∀ {pattern : String} {P : NormalPath}, Plain pattern → P.slashes = 1 →
    globmatch P.text pattern → literalHead pattern <+: P.names
  level : ∀ {pattern last : String} {P : NormalPath}, Plain pattern → P.slashes = 1 →
    pathParts pattern = literalHead pattern ++ [last] → ¬ ['*', '*'] <:+: last.toList →
      globmatch P.text pattern → ∀ depth, (literalHead pattern).length < depth →
        globmatch (posixText ("/" :: P.names.take depth)) pattern

section

variable {P target : NormalPath} {pattern : String}

theorem posixParts_text (h : P.slashes = 1) : posixParts P.text = "/" :: P.names := by
  have hups := P.ups_eq (by omega)
  rw [posixParts, NormalPath.initialSlashes_text, h, NormalPath.pathParts_text, NormalPath.parts,
    hups]
  rfl

theorem posixText_names (h : P.slashes = 1) : posixText ("/" :: P.names) = P.text := by
  have hups := P.ups_eq (by omega)
  rw [NormalPath.text_eq (.inl (by omega)), h, NormalPath.parts, hups, posixText, if_pos (.inl rfl)]
  rfl

/-- Of normal paths, being relative is going on with other names. -/
theorem isRelativeTo_text (hP : P.slashes = 1) (ht : target.slashes = 1) :
    isRelativeTo P.text target.text ↔ target.names <+: P.names := by
  rw [isRelativeTo, posixParts_text hP, posixParts_text ht, List.cons_prefix_cons]
  exact and_iff_right rfl

theorem toPosixPath_eq (h : Plain pattern) : toPosixPath pattern = pattern := by
  have hmap : (pattern.toList.map fun c => if c = '\\' then '/' else c) = pattern.toList := by
    refine (List.map_congr_left fun c hc => ?_).trans (List.map_id _)
    refine if_neg ?_
    rintro rfl
    exact h.slashes hc
  rw [toPosixPath, hmap, String.ofList_toList]

theorem posixParts_plain (h : Plain pattern) : posixParts pattern = "/" :: pathParts pattern := by
  rw [posixParts, h.root]
  rfl

/-- The anchor of a pattern is the path of the components in front of its first wildcard. -/
theorem exists_anchor (h : Plain pattern) (hup : ".." ∉ pathParts pattern) :
    ∃ anchor : NormalPath, anchor.slashes = 1 ∧ anchor.names = literalHead pattern ∧
      globAnchor pattern = anchor.text := by
  have hproper : ∀ name ∈ literalHead pattern, ProperName name := by
    intro name hname
    have hmem : name ∈ pathParts pattern := (List.takeWhile_prefix _).subset hname
    refine (properName_of_mem_pathParts hmem).resolve_right ?_
    rintro rfl
    exact hup hmem
  refine ⟨⟨1, 0, literalHead pattern, by omega, fun _ => rfl, hproper⟩, rfl, rfl, ?_⟩
  have hsafe : (posixParts (toPosixPath pattern)).takeWhile (fun part => !wild part) =
      "/" :: literalHead pattern := by
    rw [toPosixPath_eq h, posixParts_plain h]
    rfl
  rw [globAnchor, hsafe]
  exact posixText_names (P := ⟨1, 0, literalHead pattern, by omega, fun _ => rfl, hproper⟩) rfl

/-- A path that a pattern matches, near the target of a delete that the pattern does not run into:
there is none, be it above the target, the target, or below it. -/
theorem not_globmatch_of_not_overlaps {globmatch : String → String → Bool}
    (hglob : Globs globmatch) (hplain : Plain pattern) (hup : ".." ∉ pathParts pattern)
    (ht : target.slashes = 1) (hP : P.slashes = 1)
    (hnear : target.names <+: P.names ∨ P.names <+: target.names)
    (hno : overlaps globmatch target.text pattern = false) : ¬ globmatch P.text pattern := by
  intro hmatch
  obtain ⟨anchor, hslashes, hnames, hanchor⟩ := exists_anchor hplain hup
  have hhead : anchor.names <+: P.names := by
    rw [hnames]
    exact hglob.head hplain hP hmatch
  -- the anchor and the target are on one line, one above the other
  have hline : target.names <+: anchor.names ∨ anchor.names <+: target.names := by
    rcases hnear with hbelow | habove
    · exact List.prefix_or_prefix_of_prefix hbelow hhead
    · exact .inr (hhead.trans habove)
  rw [overlaps, hanchor] at hno
  split_ifs at hno with hwild
  · rw [wildcardDeleteOverlap, posixParts_text hslashes, posixParts_text ht,
      posixParts_plain hplain] at hno
    split_ifs at hno with hroot htarget habove hbelow
    · rw [isRelativeTo_text hslashes ht] at habove
      rw [isRelativeTo_text ht hslashes] at hbelow
      have hdeeper : anchor.names.length < target.names.length :=
        lt_of_le_of_ne hbelow.length_le fun heq =>
          habove ((hbelow.eq_of_length heq) ▸ List.prefix_rfl)
      have hrest : literalHead pattern ++ (pathParts pattern).drop (literalHead pattern).length =
          pathParts pattern := List.prefix_iff_eq_append.mp (List.takeWhile_prefix _)
      simp only [List.length_cons, List.drop_succ_cons, hnames] at hno
      split at hno
      next last hlast =>
        rw [hlast] at hrest
        split_ifs at hno with hstar
        have hlevel := hglob.level hplain hP hrest.symm hstar hmatch
        rcases hnear with hbeneath | hover
        · -- what it matches below the target, it matches there
          have htake := hlevel target.names.length (hnames ▸ hdeeper)
          rw [← List.prefix_iff_eq_take.mp hbeneath, posixText_names ht] at htake
          exact htarget htake
        · -- what it matches above the target is one of its ancestors
          have hshorter : P.names.length < target.names.length := by
            refine lt_of_le_of_ne hover.length_le fun heq => htarget ?_
            rw [← posixText_names ht, ← hover.eq_of_length heq, posixText_names hP]
            exact hmatch
          have hlonger : (literalHead pattern).length ≤ P.names.length := hnames ▸ hhead.length_le
          refine List.any_eq_false.mp hno (P.names.length + 1) ?_ ?_
          · rw [List.mem_range'_1]
            omega
          · rw [List.take_succ_cons, ← List.prefix_iff_eq_take.mp hover, posixText_names hP]
            exact hmatch
      next => exact absurd hno (by simp)
    · rw [isRelativeTo_text hslashes ht] at habove
      rw [isRelativeTo_text ht hslashes] at hbelow
      exact hline.elim habove hbelow
  · rw [pathsOverlap, decide_eq_false_iff_not, not_or, not_or, isRelativeTo_text ht hslashes,
      isRelativeTo_text hslashes ht] at hno
    exact hline.elim hno.2.2 hno.2.1

end

/-! ### Rules and the paths near them -/

/-- The patterns of a rule do not go up. -/
theorem FilesystemPermission.not_up (rule : FilesystemPermission) {pattern : String}
    (hpattern : pattern ∈ rule.paths) (hplain : Plain pattern) : ".." ∉ pathParts pattern := by
  have hvalid := (rule.validated pattern hpattern).2.1
  rw [toPosixPath_eq hplain, posixParts_plain hplain] at hvalid
  exact fun hmem => hvalid (List.mem_cons_of_mem _ hmem)

section

variable {globmatch : String → String → Bool} {rules : List FilesystemPermission}
  {target pattern : String}

/-- A decision but to allow has a rule and a pattern. -/
theorem exists_of_checkFsPermission {operation : FilesystemOperation} {path : String}
    {mode : PermissionMode} (h : checkFsPermission globmatch operation path rules = mode)
    (hmode : mode ≠ .allow) :
    ∃ rule ∈ rules, rule.mode = mode ∧ operation ∈ rule.operations ∧
      ∃ pattern ∈ rule.paths, globmatch path pattern := by
  induction rules with
  | nil => exact absurd h.symm hmode
  | cons rule rules ih =>
    rw [checkFsPermission] at h
    split_ifs at h with hrule
    · exact ⟨rule, List.mem_cons_self, h, hrule.1, List.any_eq_true.mp hrule.2⟩
    · obtain ⟨other, hmem, hdeny⟩ := ih h
      exact ⟨other, List.mem_cons_of_mem _ hmem, hdeny⟩

/-- A plain file is denied a delete exactly when it may not be written. -/
theorem findDeleteDenyPatternsForLeaf_eq_nil :
    findDeleteDenyPatternsForLeaf globmatch target rules = [] ↔
      checkFsPermission globmatch .write target rules ≠ .deny := by
  induction rules with
  | nil => simp [findDeleteDenyPatternsForLeaf, checkFsPermission]
  | cons rule rules ih =>
    rw [findDeleteDenyPatternsForLeaf, checkFsPermission]
    have hmatched : rule.paths.filter (globmatch target) = [] ↔
        rule.paths.any (globmatch target) = false := by
      rw [List.filter_eq_nil_iff, List.any_eq_false]
    cases hany : rule.paths.any (globmatch target) with
    | false => simp [hmatched, hany, ih]
    | true =>
      by_cases hwrite : .write ∈ rule.operations
      · by_cases hdeny : rule.mode = .deny <;> simp [hmatched, hany, hwrite, hdeny]
      · simp [hwrite, ih]

/-- The patterns of one rule that a delete runs into are among those that are found. -/
theorem mem_foldl_overlaps {patterns denying : List String} :
    pattern ∈ patterns.foldl (fun denying pattern =>
        if pattern ∉ denying ∧ overlaps globmatch target pattern then denying ++ [pattern]
        else denying) denying ↔
      pattern ∈ denying ∨ pattern ∈ patterns ∧ overlaps globmatch target pattern := by
  induction patterns generalizing denying with
  | nil => simp
  | cons first patterns ih =>
    rw [List.foldl_cons, ih]
    by_cases hfirst : first ∈ denying
    · by_cases heq : pattern = first <;> simp_all
    · cases hover : overlaps globmatch target first <;> by_cases heq : pattern = first <;>
        simp_all

/-- **What a recursive delete runs into**: the patterns of all rules that deny writing, in any
order. -/
theorem mem_findDeleteDenyPatterns :
    pattern ∈ findDeleteDenyPatterns globmatch rules target true ↔
      ∃ rule ∈ rules, rule.mode = .deny ∧ .write ∈ rule.operations ∧ pattern ∈ rule.paths ∧
        overlaps globmatch target pattern := by
  rw [findDeleteDenyPatterns, if_pos rfl]
  suffices hall : ∀ denying, pattern ∈ rules.foldl (fun denying rule =>
      if rule.mode ≠ .deny ∨ .write ∉ rule.operations then denying
      else rule.paths.foldl (fun denying pattern =>
        if pattern ∉ denying ∧ overlaps globmatch target pattern then denying ++ [pattern]
        else denying) denying) denying ↔ pattern ∈ denying ∨
          ∃ rule ∈ rules, rule.mode = .deny ∧ .write ∈ rule.operations ∧ pattern ∈ rule.paths ∧
            overlaps globmatch target pattern by simpa using hall []
  induction rules with
  | nil => simp
  | cons rule rules ih =>
    intro denying
    simp only [List.foldl_cons, ih, List.mem_cons, exists_eq_or_imp]
    split_ifs with hskip
    · have hrule : ¬ (rule.mode = .deny ∧ .write ∈ rule.operations ∧ pattern ∈ rule.paths ∧
          overlaps globmatch target pattern) := fun hrule =>
        hskip.elim (· hrule.1) (· hrule.2.1)
      rw [or_iff_right hrule]
    · obtain ⟨hmode, hwrite⟩ := not_or.mp hskip
      rw [mem_foldl_overlaps, and_iff_right (not_not.mp hmode), and_iff_right (not_not.mp hwrite),
        or_assoc]

/-- **A delete that runs into no pattern meets no denial**: neither of the target, nor of anything
above it or below it, whatever the order of the rules. -/
theorem checkFsPermission_ne_deny (hglob : Globs globmatch)
    (hplain : ∀ rule ∈ rules, ∀ pattern ∈ rule.paths, Plain pattern) {P Q : NormalPath}
    (hP : P.slashes = 1) (hQ : Q.slashes = 1) (hnear : P.names <+: Q.names ∨ Q.names <+: P.names)
    (hnone : findDeleteDenyPatterns globmatch rules P.text true = []) :
    checkFsPermission globmatch .write Q.text rules ≠ .deny := by
  intro hdeny
  obtain ⟨rule, hrule, hmode, hwrite, pattern, hpattern, hmatch⟩ :=
    exists_of_checkFsPermission hdeny PermissionMode.noConfusion
  have hpl := hplain rule hrule pattern hpattern
  have hclear : overlaps globmatch P.text pattern = false := by
    rw [← Bool.not_eq_true]
    intro hover
    have hfound := mem_findDeleteDenyPatterns.mpr ⟨rule, hrule, hmode, hwrite, hpattern, hover⟩
    rw [hnone] at hfound
    exact List.not_mem_nil hfound
  exact not_globmatch_of_not_overlaps hglob hpl (rule.not_up hpattern hpl) hP hQ hnear hclear hmatch

end

/-! ### What the tool removes -/

section

variable {S : StateBackend} {path : Text} {target P : NormalPath}

/-- The entry of a directory in a listing. -/
def subdirInfo (S : StateBackend) (subdir : Text) : FileInfo (StateBackend × Text) where
  path := subdir
  isDir := some true
  size := some 0
  modifiedAt := some ""
  mark := some (S, subdir)

/-- What a listing holds: the files in the directory, and the directories that others are in. -/
theorem mem_ls_entries {info : FileInfo (StateBackend × Text)} :
    info ∈ (S.ls path).entries.getD [] ↔ ∃ entry ∈ S.files.entries,
      StateBackend.directoryPath path <+: entry.1 ∧
        if '/' ∈ entry.1.drop (StateBackend.directoryPath path).length then
          info = subdirInfo S (StateBackend.directoryPath path ++ StateBackend.firstName
            (entry.1.drop (StateBackend.directoryPath path).length) ++ ['/'])
        else info = S.fileInfo entry := by
  rw [StateBackend.ls]
  simp only [Option.getD_some, sortByPath, List.mem_insertionSort, List.mem_append, List.mem_map,
    List.mem_dedup, List.mem_filter, decide_eq_true_eq]
  generalize StateBackend.directoryPath path = directory
  constructor
  · rintro (⟨entry, ⟨⟨hentry, hinside⟩, hdirect⟩, rfl⟩ |
      ⟨_, ⟨entry, ⟨⟨hentry, hinside⟩, hnested⟩, rfl⟩, rfl⟩)
    · exact ⟨entry, hentry, hinside, by rw [if_neg hdirect]⟩
    · exact ⟨entry, hentry, hinside, by rw [if_pos hnested]; rfl⟩
  · rintro ⟨entry, hentry, hinside, hinfo⟩
    split_ifs at hinfo with hnested
    · exact .inr ⟨_, ⟨entry, ⟨⟨hentry, hinside⟩, hnested⟩, rfl⟩, hinfo.symm⟩
    · exact .inl ⟨entry, ⟨⟨hentry, hinside⟩, hnested⟩, hinfo.symm⟩

/-- A listing is empty when nothing is stored below the directory. -/
theorem isEmpty_ls_iff : ((S.ls path).entries.getD []).isEmpty ↔
    ∀ key ∈ S.files.keys, ¬ StateBackend.directoryPath path <+: key := by
  rw [List.isEmpty_iff, List.eq_nil_iff_forall_not_mem]
  constructor
  · intro hnone key hkey hinside
    obtain ⟨entry, hentry, rfl⟩ := List.mem_map.mp hkey
    by_cases hnested : '/' ∈ entry.1.drop (StateBackend.directoryPath path).length
    · exact hnone _ (mem_ls_entries.mpr ⟨entry, hentry, hinside, by rw [if_pos hnested]⟩)
    · exact hnone _ (mem_ls_entries.mpr ⟨entry, hentry, hinside, by rw [if_neg hnested]⟩)
  · intro hnone info hinfo
    obtain ⟨entry, hentry, hinside, -⟩ := mem_ls_entries.mp hinfo
    exact hnone entry.1 (List.mem_map_of_mem hentry) hinside

/-! #### Normal paths as keys -/

theorem text_eq_root (ht : target.slashes = 1) (hroot : target.names = []) :
    target.text.toList = ['/'] := by
  rw [← posixText_names ht, hroot]
  rfl

/-- The text of a path that goes on with a name. -/
theorem text_concat (hP : P.slashes = 1) {names : List String} {name : String}
    (hnames : P.names = names ++ [name]) :
    P.text.toList = (if names = [] then ['/'] else
      '/' :: ("/".intercalate names).toList ++ ['/']) ++ name.toList := by
  rw [← posixText_names hP, posixText, if_pos (.inl rfl), hnames]
  split_ifs with hnone
  · rw [hnone, List.nil_append, String.intercalate_singleton, String.toList_append]
    rfl
  · rw [String.intercalate_append_of_ne_nil hnone (by simp), String.intercalate_singleton]
    simp

/-- The text of a path with names does not end with a slash. -/
theorem not_slash_suffix_text (ht : target.slashes = 1) (hnames : target.names ≠ []) :
    ¬ ['/'] <:+ target.text.toList := by
  obtain ⟨names, name, hconcat⟩ := (List.eq_nil_or_concat' target.names).resolve_left hnames
  have hproper := target.proper name (by simp [hconcat])
  obtain ⟨chars, c, hc⟩ := (List.eq_nil_or_concat' name.toList).resolve_left fun hnil =>
    hproper.1 (by simp [String.toList_eq_nil_iff.mp hnil])
  rw [text_concat ht hconcat, hc, ← List.append_assoc]
  rintro ⟨before, hbefore⟩
  have hlast := congrArg List.getLast? hbefore
  rw [List.getLast?_concat, List.getLast?_concat, Option.some.injEq] at hlast
  exact hproper.2 (by rw [hc, hlast]; simp)

theorem rstripSlash_text (ht : target.slashes = 1) (hnames : target.names ≠ []) :
    rstripSlash target.text.toList = target.text.toList := by
  rw [rstripSlash, List.rdropWhile_eq_self_iff]
  intro hne hlast
  refine not_slash_suffix_text ht hnames ⟨target.text.toList.dropLast, ?_⟩
  rw [← of_decide_eq_true hlast, List.dropLast_append_getLast]

/-- A path with the text of another one and a slash in front goes on with other names. -/
theorem names_of_below (ht : target.slashes = 1) (hP : P.slashes = 1)
    (h : target.text.toList ++ ['/'] <+: P.text.toList) : target.names <+: P.names := by
  have htext : (target.text ++ "/").toList = target.text.toList ++ ['/'] := by simp
  obtain ⟨-, rest, hrest⟩ := NormalPath.parts_of_prefix (htext ▸ h)
  rw [NormalPath.parts, NormalPath.parts, P.ups_eq (by omega), target.ups_eq (by omega)] at hrest
  exact ⟨rest, hrest.symm⟩

/-- What is at the target of a delete or below it goes on with other names. -/
theorem names_of_under (ht : target.slashes = 1) (hP : P.slashes = 1)
    (h : Registers.Under target.text.toList P.text.toList) : target.names <+: P.names := by
  by_cases hnames : target.names = []
  · rw [hnames]
    exact List.nil_prefix
  · rw [Registers.Under, rstripSlash_text ht hnames] at h
    rcases h with heq | hbelow
    · rw [NormalPath.text_injective (String.toList_inj.mp heq)]
    · exact names_of_below ht hP hbelow

/-- A path that is deleted with a target and not below it is the target. -/
theorem eq_of_under (ht : target.slashes = 1) (hP : P.slashes = 1)
    (h : Registers.Under target.text.toList P.text.toList)
    (hbelow : ¬ StateBackend.directoryPath target.text.toList <+: P.text.toList) : P = target := by
  by_cases hnames : target.names = []
  · rw [text_eq_root ht hnames] at hbelow
    refine absurd ?_ hbelow
    obtain ⟨rest, hrest⟩ : ∃ rest, P.text.toList = '/' :: rest := by
      rw [← posixText_names hP, posixText, if_pos (.inl rfl), String.toList_append]
      exact ⟨_, rfl⟩
    rw [hrest]
    exact ⟨rest, rfl⟩
  · rw [Registers.Under, rstripSlash_text ht hnames] at h
    rw [StateBackend.directoryPath, if_neg (not_slash_suffix_text ht hnames)] at hbelow
    exact NormalPath.text_injective (String.toList_inj.mp (h.resolve_right hbelow))

variable {globmatch : String → String → Bool} {library : GlobLibrary}
  {rules : List FilesystemPermission} {channel : FilesChannel} {filePath : String}

/-- The files behind the tool, for a path that is valid. -/
theorem snd_deleteTool {target : String} (hvalid : validatePath filePath = .ok target) :
    (deleteTool globmatch library rules channel filePath).2 =
      if findDeleteDenyPatterns globmatch rules target
          (channel.mayHaveDescendants library rules target) = [] then
        (channel.delete target.toList).2
      else channel := by
  rw [deleteTool, hvalid]
  dsimp only
  by_cases hnone : findDeleteDenyPatterns globmatch rules target
      (channel.mayHaveDescendants library rules target) = []
  · rw [if_neg (not_not.mpr hnone), if_pos hnone]
    split_ifs <;> rfl
  · rw [if_pos hnone, if_neg hnone]

/-- What is taken for a plain file has an empty listing. -/
theorem isEmpty_of_leaf {ι : Type} {ls : String → Option (LsResult ι)} {target : String}
    {result : LsResult ι} (hls : ls target = some result) (herror : result.error = none)
    (hleaf : deleteTargetMayHaveDescendants ls target true = false) :
    (result.entries.getD []).isEmpty := by
  by_contra hne
  rw [Bool.not_eq_true] at hne
  simp [deleteTargetMayHaveDescendants, hls, herror, hne] at hleaf

/-- A target with an empty listing that its parent's shows as a file is taken for a plain file. -/
theorem mayHaveDescendants_eq_false {ι : Type} {ls : String → Option (LsResult ι)}
    {target : String} {result parent : LsResult ι} (hls : ls target = some result)
    (herror : result.error = none) (hempty : (result.entries.getD []).isEmpty)
    (hparent : ls (posixParent target) = some parent)
    (hleaf : leafFromParentListing parent target = false) (permissionsConfigured : Bool) :
    deleteTargetMayHaveDescendants ls target permissionsConfigured = false := by
  cases permissionsConfigured with
  | false => rfl
  | true => simp [deleteTargetMayHaveDescendants, hls, herror, hempty, hparent, hleaf]

/-- What is taken for a plain file has nothing below it. -/
theorem not_below_of_leaf {target : String} (hrules : rules ≠ [])
    (hleaf : channel.mayHaveDescendants library rules target = false) {key : Text}
    (hkey : channel.registers key ≠ none) :
    ¬ StateBackend.directoryPath target.toList <+: key := by
  have hconfigured : rules.isEmpty = false := by simp [hrules]
  rw [FilesChannel.mayHaveDescendants, hconfigured] at hleaf
  refine isEmpty_ls_iff.mp (isEmpty_of_leaf rfl rfl hleaf) key ?_
  by_contra hmem
  exact hkey (Dict.get?_eq_none_iff.mpr hmem)

/-- **No file that the tool removes is one that may not be written.** Under permission rules with
plain patterns, whatever their order, the tool only removes files at the path that it is given or
below it, and none of them is denied to `write_file`. -/
theorem deleteTool_spec (hglob : Globs globmatch)
    (hplain : ∀ rule ∈ rules, ∀ pattern ∈ rule.paths, Plain pattern)
    (hvalid : validatePath filePath = .ok target.text) (ht : target.slashes = 1)
    (hP : P.slashes = 1)
    (hchanged : (deleteTool globmatch library rules channel filePath).2.registers P.text.toList ≠
      channel.registers P.text.toList) :
    (deleteTool globmatch library rules channel filePath).2.registers P.text.toList = none ∧
      target.names <+: P.names ∧ checkFsPermission globmatch .write P.text rules ≠ .deny := by
  rw [snd_deleteTool hvalid] at hchanged ⊢
  split_ifs at hchanged ⊢ with hnone
  · rw [FilesChannel.registers_delete] at hchanged ⊢
    dsimp only at hchanged ⊢
    split_ifs at hchanged ⊢ with hunder
    · refine ⟨rfl, names_of_under ht hP hunder, ?_⟩
      cases hscope : channel.mayHaveDescendants library rules target.text with
      | true =>
        rw [hscope] at hnone
        have hbelow := names_of_under ht hP hunder
        exact checkFsPermission_ne_deny hglob hplain ht hP (.inl hbelow) hnone
      | false =>
        rw [hscope] at hnone
        by_cases hrules : rules = []
        · rw [hrules]
          exact PermissionMode.noConfusion
        · have hbelow := not_below_of_leaf hrules hscope (Ne.symm hchanged)
          have hsame := eq_of_under ht hP hunder hbelow
          rw [hsame]
          exact findDeleteDenyPatternsForLeaf_eq_nil.mp hnone
    · exact absurd rfl hchanged
  · exact absurd rfl hchanged

/-! #### Plain files -/

/-- The path of the directory that a path is in, with its slash, is what is in front of its name. -/
theorem text_eq_directoryPath (ht : target.slashes = 1) (hP : P.slashes = 1) {name : String}
    (hnames : target.names = P.names ++ [name]) :
    target.text.toList = StateBackend.directoryPath P.text.toList ++ name.toList := by
  rw [text_concat ht hnames, StateBackend.directoryPath]
  by_cases hroot : P.names = []
  · rw [if_pos hroot, text_eq_root hP hroot]
    rfl
  · rw [if_neg hroot, if_neg (not_slash_suffix_text hP hroot), ← posixText_names hP, posixText,
      if_pos (.inl rfl), String.toList_append]
    rfl

theorem posixParent_text (ht : target.slashes = 1) (hP : P.slashes = 1) {name : String}
    (hnames : target.names = P.names ++ [name]) : posixParent target.text = P.text := by
  have hparts : posixParts target.text = "/" :: (P.names ++ [name]) := by
    rw [posixParts_text ht, hnames]
  rw [posixParent, hparts, if_neg (by simp), ← List.cons_append, List.dropLast_concat,
    posixText_names hP]

/-- A directory in a listing that is called like the target has something of it below. -/
theorem below_of_subdir {directory name relative : Text} (hname : '/' ∉ name)
    (hne : name ≠ []) (hnested : '/' ∈ relative)
    (hcalled : rstripSlash (directory ++ StateBackend.firstName relative ++ ['/']) =
      directory ++ name) : directory ++ name ++ ['/'] <+: directory ++ relative := by
  have hsplit : StateBackend.firstName relative ++ relative.dropWhile (· ≠ '/') = relative :=
    List.takeWhile_append_dropWhile
  have hfirst : '/' ∉ StateBackend.firstName relative := fun hmem => by
    simpa using List.mem_takeWhile_imp hmem
  generalize StateBackend.firstName relative = first at hcalled hsplit hfirst
  rw [rstripSlash, List.rdropWhile_concat_pos _ _ _ (by simp)] at hcalled
  have hprefix : name <+: first := by
    rw [← List.prefix_append_right_inj directory, ← hcalled]
    exact List.rdropWhile_prefix _ _
  have hkept : (directory ++ first).rdropWhile (· = '/') = directory ++ first := by
    have hne' : first ≠ [] := fun hnil => hne (List.prefix_nil.mp (hnil ▸ hprefix))
    rw [List.rdropWhile_eq_self_iff]
    intro _ hlast
    rw [List.getLast_append_of_ne_nil _ hne'] at hlast
    exact hfirst (of_decide_eq_true hlast ▸ List.getLast_mem hne')
  obtain rfl : first = name := List.append_cancel_left (hkept.symm.trans hcalled)
  obtain ⟨rest, hrest⟩ : ∃ rest, relative.dropWhile (· ≠ '/') = '/' :: rest := by
    have hne' : relative.dropWhile (· ≠ '/') ≠ [] := fun hnil => by
      simpa using List.dropWhile_eq_nil_iff.mp hnil '/' hnested
    have hhead := List.head_dropWhile_not (· ≠ '/') hne'
    rw [decide_eq_false_iff_not, not_not] at hhead
    exact ⟨_, (hhead ▸ List.cons_head_tail hne').symm⟩
  refine ⟨rest, ?_⟩
  rw [← hsplit, hrest]
  simp

/-- The listing of its directory shows a plain file as one. -/
theorem leafFromParentListing_ls (ht : target.slashes = 1) (hP : P.slashes = 1) {name : String}
    (hnames : target.names = P.names ++ [name]) (hstored : S.files.get? target.text.toList ≠ none)
    (hbelow : ∀ key ∈ S.files.keys, ¬ target.text.toList ++ ['/'] <+: key) :
    leafFromParentListing (S.ls P.text.toList) target.text = false := by
  have hproper := target.proper name (by simp [hnames])
  have hname : name.toList ≠ [] := fun hnil =>
    hproper.1 (by simp [String.toList_eq_nil_iff.mp hnil])
  have htext := text_eq_directoryPath ht hP hnames
  have hstrip := rstripSlash_text ht (by simp [hnames])
  rw [leafFromParentListing, if_neg (by simp [StateBackend.ls])]
  -- the listing has it
  obtain ⟨fileData, hfile⟩ := Option.ne_none_iff_exists'.mp hstored
  have hentry := Dict.get?_eq_some_iff.mp hfile
  have hlisted : S.fileInfo (target.text.toList, fileData) ∈
      (S.ls P.text.toList).entries.getD [] := by
    refine mem_ls_entries.mpr ⟨_, hentry, ⟨name.toList, htext.symm⟩, ?_⟩
    rw [if_neg]
    dsimp only
    rw [htext, List.drop_left]
    exact hproper.2
  dsimp only
  rw [if_neg]
  · -- and has no directory of its name
    rw [List.any_eq_false]
    intro info hinfo
    obtain ⟨hmem, hcalled⟩ := List.mem_filter.mp hinfo
    have hcalled := of_decide_eq_true hcalled
    obtain ⟨entry, hkey, hinside, hshown⟩ := mem_ls_entries.mp hmem
    split_ifs at hshown with hnested
    · obtain ⟨relative, hrelative⟩ := hinside
      rw [← hrelative, List.drop_left] at hshown hnested
      rw [hshown, hstrip, htext] at hcalled
      have hlonger := below_of_subdir hproper.2 hname hnested hcalled
      rw [← htext, hrelative] at hlonger
      exact absurd hlonger (hbelow entry.1 (List.mem_map_of_mem hkey))
    · rw [hshown]
      simp [StateBackend.fileInfo]
  · rw [List.isEmpty_iff]
    exact List.ne_nil_of_mem (List.mem_filter.mpr ⟨hlisted, by simp [StateBackend.fileInfo]⟩)

/-- **A plain file is removed exactly when it may be written.** A stored path with nothing below it
is a plain file to the state backend, and the first rule that matches it decides. -/
theorem deleteTool_file (hvalid : validatePath filePath = .ok target.text) (ht : target.slashes = 1)
    (hnames : target.names ≠ []) (hstored : channel.registers target.text.toList ≠ none)
    (hbelow : ∀ key, channel.registers key ≠ none → ¬ target.text.toList ++ ['/'] <+: key) :
    (deleteTool globmatch library rules channel filePath).2.registers target.text.toList = none ↔
      checkFsPermission globmatch .write target.text rules ≠ .deny := by
  have hleaf : channel.mayHaveDescendants library rules target.text = false := by
    obtain ⟨names, name, hconcat⟩ := (List.eq_nil_or_concat' target.names).resolve_left hnames
    let parent : NormalPath := ⟨1, 0, names, by omega, fun _ => rfl, fun other hother =>
      target.proper other (by simp [hconcat, hother])⟩
    have hkeys : ∀ key ∈ channel.readFiles.keys, ¬ target.text.toList ++ ['/'] <+: key :=
      fun key hkey => hbelow key fun hnone => Dict.get?_eq_none_iff.mp hnone hkey
    have hempty : (((channel.backend library).ls target.text.toList).entries.getD []).isEmpty := by
      rw [isEmpty_ls_iff, StateBackend.directoryPath, if_neg (not_slash_suffix_text ht hnames)]
      exact hkeys
    have hparent : posixParent target.text = parent.text := posixParent_text ht rfl hconcat
    have hlisting := leafFromParentListing_ls (S := channel.backend library) (P := parent) ht rfl
      hconcat hstored hkeys
    exact mayHaveDescendants_eq_false rfl rfl hempty (by rw [hparent]) hlisting _
  rw [snd_deleteTool hvalid, hleaf, ← findDeleteDenyPatternsForLeaf_eq_nil,
    findDeleteDenyPatterns, if_neg Bool.false_ne_true]
  split_ifs with hnone
  · rw [FilesChannel.registers_delete]
    refine iff_of_true (if_pos (.inl ?_)) hnone
    rw [rstripSlash_text ht hnames]
  · exact iff_of_false hstored hnone

/-! #### Logs that are kept -/

/-- The logs of a directory may not be written. -/
def keepLogs : FilesystemPermission where
  operations := [.write]
  paths := ["/work/*.log"]
  mode := .deny
  validated := by decide

/-- The matcher of the logs of the directory, where there is one. -/
def matchesLog (path pattern : String) : Bool := path = "/work/app.log" ∧ pattern = "/work/*.log"

/-- The one log. -/
def appLog : NormalPath := ⟨1, 0, ["work", "app.log"], by decide, fun _ => rfl, by decide⟩

theorem globs_matchesLog : Globs matchesLog where
  head := by
    rintro pattern P - - hmatch
    obtain ⟨hpath, rfl⟩ := of_decide_eq_true hmatch
    obtain rfl : P = appLog := NormalPath.text_injective (hpath.trans (by decide))
    decide
  level := by
    rintro pattern last P - - - - hmatch depth hdepth
    obtain ⟨hpath, rfl⟩ := of_decide_eq_true hmatch
    obtain rfl : P = appLog := NormalPath.text_injective (hpath.trans (by decide))
    rw [List.take_of_length_le hdepth]
    decide

/-- A directory for scratch files. -/
def scratch : NormalPath := ⟨1, 0, ["tmp"], by decide, fun _ => rfl, by decide⟩

/-- A file in it. -/
def scratchFile : NormalPath := ⟨1, 0, ["tmp", "a"], by decide, fun _ => rfl, by decide⟩

/-- A log, and a file in the directory for scratch files. -/
def logAndScratch : FilesChannel where
  committed := some <| Dict.ofList
    [(appLog.text.toList, createFileData [] "t"), (scratchFile.text.toList, createFileData [] "t")]

/-- The library of a matcher that nothing here calls. -/
def idleGlob : GlobLibrary where
  compile _ := .error ""
  quoted _ := ""

/-- The directory for scratch files goes with its file. -/
theorem deleteTool_spec_scratch :
    (deleteTool matchesLog idleGlob [keepLogs] logAndScratch "/tmp").2.registers
        scratchFile.text.toList = none ∧
      scratch.names <+: scratchFile.names ∧
        checkFsPermission matchesLog .write scratchFile.text [keepLogs] ≠ .deny := by
  have hvalid : validatePath "/tmp" = .ok scratch.text := by decide
  refine deleteTool_spec globs_matchesLog ?_ hvalid rfl rfl ?_
  · rintro rule hrule pattern hpattern
    obtain rfl := List.mem_singleton.mp hrule
    obtain rfl := List.mem_singleton.mp hpattern
    exact ⟨by decide, by decide⟩
  · decide

/-- The log is a plain file, and stays. -/
theorem deleteTool_file_log :
    (deleteTool matchesLog idleGlob [keepLogs] logAndScratch "/work/app.log").2.registers
        appLog.text.toList = none ↔
      checkFsPermission matchesLog .write appLog.text [keepLogs] ≠ .deny := by
  have hvalid : validatePath "/work/app.log" = .ok appLog.text := by decide
  have hkeys : ∀ key ∈ logAndScratch.readFiles.keys, ¬ appLog.text.toList ++ ['/'] <+: key := by
    decide
  refine deleteTool_file hvalid rfl (by decide) (by decide) fun key hkey => hkeys key ?_
  by_contra hmem
  exact hkey (Dict.get?_eq_none_iff.mpr hmem)

end

end Backends

end CyranoAgent
