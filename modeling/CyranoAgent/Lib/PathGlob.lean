import CyranoAgent.Lib.Dict
import CyranoAgent.Lib.Glob
import Mathlib

/-!
# Paths that a pattern finds in a file tree

`FileTree.glob` is `Path.glob`: the segments of a pattern are matched one after the other against
the names in a directory, and `**` goes down any number of directories. A pattern without brackets
and without the segments that mean something of their own is plain: `fnmatchcase_of_mem_glob` says
that `fnmatchcase` matches all that a plain pattern finds. The other patterns may find what
`fnmatchcase` does not match, as `**/x` finds `x`.

Symbolic links are left out. `minor` is the minor version of Python 3, from 12 on.
-/

namespace Lib

/-- What a path leads to. -/
inductive TreeNode
  | directory
  | file (content : ByteArray)
  deriving DecidableEq

/-- A name that a directory can have in it. -/
def ProperName (name : String) : Prop := name ∉ ["", ".", ".."] ∧ '/' ∉ name.toList

instance (name : String) : Decidable (ProperName name) := inferInstanceAs (Decidable (_ ∧ _))

/-- A file system: what there is, by the names that lead to it from the root. -/
structure FileTree where
  nodes : Dict (List String) TreeNode
  root : nodes.get? [] = some .directory
  parents : ∀ path ∈ nodes.keys, path ≠ [] → nodes.get? path.dropLast = some .directory
  names : ∀ path ∈ nodes.keys, ∀ name ∈ path, ProperName name

/-- The parts of a path. -/
def pathParts (text : String) : List String :=
  ((text.toList.splitOn '/').map String.ofList).filter fun part => part ≠ "" ∧ part ≠ "."

/-- `as_posix`. -/
def posix (path : List String) : String := if path = [] then "." else "/".intercalate path

namespace FileTree

variable (T : FileTree)

/-- There is a directory. -/
def IsDirectory (path : List String) : Prop := T.nodes.get? path = some .directory

instance (path : List String) : Decidable (T.IsDirectory path) :=
  inferInstanceAs (Decidable (_ = _))

/-- The names in a directory. -/
def children (path : List String) : List String :=
  T.nodes.keys.filterMap fun p => if p ≠ [] ∧ p.dropLast = path then p.getLast? else none

/-- What is at a path or below it. -/
def below (path : List String) : List (List String) := T.nodes.keys.filter (path <+: ·)

/-- Where a path leads from a directory. -/
def resolve (path : List String) : List String → Option (List String)
  | [] => if path ∈ T.nodes.keys then some path else none
  | part :: parts =>
    if ¬T.IsDirectory path then none
    else if part = ".." then resolve path.dropLast parts
    else resolve (path ++ [part]) parts

/-- What the text of a path leads to from a directory, `root / text`. -/
def lookup (path : List String) (text : String) : Option TreeNode :=
  (T.resolve (if text.toList.head? = some '/' then [] else path) (pathParts text)).bind T.nodes.get?

end FileTree

/-! ### Patterns -/

/-- A segment of a pattern. `everything` is a last `**`, where it finds files too. -/
inductive Segment
  | parent
  | recursive
  | everything
  | name (pattern : String)
  deriving DecidableEq, Repr

/-- Why a pattern is not accepted. -/
inductive PatternError
  | absolute
  | unacceptable
  | mixed
  deriving DecidableEq, Repr

/-- A pattern that finds directories only. -/
def DirectoriesOnly (pattern : String) : Prop := pattern.toList.getLast? = some '/'

instance (pattern : String) : Decidable (DirectoriesOnly pattern) :=
  inferInstanceAs (Decidable (_ = _))

/-- The segment that a part of a pattern is. -/
def segmentOf (star : Segment) (part : String) : Segment :=
  if part = "**" then star else if part = ".." then .parent else .name part

/-- The segments of a pattern, where a last `**` is `last`. -/
def segmentsOf (last : Segment) : List String → List Segment
  | [] => []
  | [part] => [segmentOf last part]
  | part :: parts => segmentOf .recursive part :: segmentsOf last parts

/-- The segments of a pattern, if it is accepted. -/
def parsePattern (minor : ℕ) (pattern : String) : Except PatternError (List Segment) :=
  let parts := pathParts pattern
  if pattern.toList.head? = some '/' then .error .absolute
  else if parts = [] then .error .unacceptable
  else if minor < 13 ∧ ∃ part ∈ parts, part ≠ "**" ∧ ['*', '*'] <:+: part.toList then .error .mixed
  else .ok (segmentsOf (if minor < 13 then .recursive else .everything) parts)

namespace FileTree

variable (T : FileTree)

/-- What the segments find from a directory on: the path from there, and where it leads. -/
def select : List Segment → List String → List (List String × List String)
  | [], path => [([], path)]
  | .parent :: segments, path =>
    if T.IsDirectory path then
      (select segments path.dropLast).map fun found => (".." :: found.1, found.2)
    else []
  | .name pattern :: segments, path =>
    ((T.children path).filter (Glob.fnmatchcase · pattern)).flatMap fun name =>
      (select segments (path ++ [name])).map fun found => (name :: found.1, found.2)
  | .recursive :: segments, path =>
    ((T.below path).filter (T.IsDirectory ·)).flatMap fun p =>
      (select segments p).map fun found => (p.drop path.length ++ found.1, found.2)
  | .everything :: segments, path =>
    if T.IsDirectory path then
      (T.below path).flatMap fun p =>
        (select segments p).map fun found => (p.drop path.length ++ found.1, found.2)
    else []

/-- `root.glob(pattern)`, as paths from the root on. -/
def glob (minor : ℕ) (root : List String) (pattern : String) :
    Except PatternError (List (List String)) :=
  (parsePattern minor pattern).map fun segments =>
    (((T.select segments root).filter fun found =>
      DirectoriesOnly pattern → T.IsDirectory found.2).map Prod.fst).dedup

end FileTree

/-! ### Plain patterns -/

/-- A pattern of names: no brackets, and no segment that is empty or means something of its own. -/
def Plain (pattern : String) : Prop :=
  ∀ part ∈ pattern.toList.splitOn '/',
    '[' ∉ part ∧ String.ofList part ∉ ["", ".", "..", "**"]

instance (pattern : String) : Decidable (Plain pattern) :=
  inferInstanceAs (Decidable (∀ part ∈ pattern.toList.splitOn '/', _))

theorem parsePattern_eq_ok {minor : ℕ} {pattern : String} {segments : List Segment}
    (h : parsePattern minor pattern = .ok segments) :
    ∃ last, segments = segmentsOf last (pathParts pattern) := by
  simp only [parsePattern] at h
  split_ifs at h
  · exact ⟨_, (Except.ok.inj h).symm⟩
  · exact ⟨_, (Except.ok.inj h).symm⟩

/-- What a glob finds was selected by the segments of its pattern. -/
theorem FileTree.exists_select_of_mem_glob {T : FileTree} {minor : ℕ} {root path : List String}
    {pattern : String} {found : List (List String)} (h : T.glob minor root pattern = .ok found)
    (hpath : path ∈ found) :
    ∃ last target, (path, target) ∈ T.select (segmentsOf last (pathParts pattern)) root := by
  cases hparse : parsePattern minor pattern with
  | error e =>
    rw [glob, hparse] at h
    cases h
  | ok segments =>
    obtain ⟨last, rfl⟩ := parsePattern_eq_ok hparse
    rw [glob, hparse] at h
    rw [← Except.ok.inj h, List.mem_dedup, List.mem_map] at hpath
    obtain ⟨⟨_, target⟩, hfound, rfl⟩ := hpath
    exact ⟨last, target, List.mem_of_mem_filter hfound⟩

/-- The segments of names are names. -/
theorem segmentsOf_of_names {last : Segment} {parts : List String}
    (h : ∀ part ∈ parts, part ≠ ".." ∧ part ≠ "**") :
    segmentsOf last parts = parts.map .name := by
  induction parts with
  | nil => rfl
  | cons part parts ih =>
    obtain ⟨⟨hparent, hstar⟩, hparts⟩ := List.forall_mem_cons.mp h
    have hsegment : ∀ star, segmentOf star part = .name part := fun star => by
      rw [segmentOf, if_neg hstar, if_neg hparent]
    cases parts with
    | nil => rw [segmentsOf, hsegment, List.map_singleton]
    | cons part' parts =>
      have hcons : segmentsOf last (part :: part' :: parts) =
        segmentOf .recursive part :: segmentsOf last (part' :: parts) := rfl
      rw [hcons, hsegment, ih hparts]
      rfl

/-- Names find paths name by name. -/
theorem FileTree.forall₂_of_mem_select {T : FileTree} {patterns : List String}
    {path : List String} {found : List String × List String}
    (h : found ∈ T.select (patterns.map .name) path) :
    List.Forall₂ (fun name pattern => Glob.fnmatchcase name pattern = true) found.1 patterns := by
  induction patterns generalizing path found with
  | nil =>
    rw [List.map_nil, select, List.mem_singleton] at h
    rw [h]
    exact .nil
  | cons pattern patterns ih =>
    rw [List.map_cons, select, List.mem_flatMap] at h
    obtain ⟨name, hname, h⟩ := h
    obtain ⟨found', hfound, rfl⟩ := List.mem_map.mp h
    exact .cons (List.mem_filter.mp hname).2 (ih hfound)

/-- Names that match one by one match together. -/
theorem fnmatchcase_intercalate {names patterns : List String}
    (hbracket : ∀ pattern ∈ patterns, '[' ∉ pattern.toList)
    (h : List.Forall₂ (fun name pattern => Glob.fnmatchcase name pattern = true) names patterns) :
    Glob.fnmatchcase ("/".intercalate names) ("/".intercalate patterns) = true := by
  induction h with
  | nil => rfl
  | @cons name pattern names patterns hmatch hrest ih =>
    obtain ⟨hpattern, hpatterns⟩ := List.forall_mem_cons.mp hbracket
    cases hrest with
    | nil => simpa using hmatch
    | @cons name' pattern' names patterns hmatch' hrest =>
      have hjoined := ih hpatterns
      rw [String.intercalate_cons_cons, String.intercalate_cons_cons]
      rw [Glob.fnmatchcase] at hmatch hjoined ⊢
      rw [String.toList_append, String.toList_append, String.toList_append, String.toList_append,
        List.append_assoc, List.append_assoc, Glob.tokens_append hpattern,
        ← Glob.tokens_eq_map hpattern]
      have hslash : Glob.matchesAll [.char '/'] ['/'] = true := rfl
      exact Glob.matchesAll_append hmatch (Glob.matchesAll_append hslash hjoined)

/-- **What a plain pattern finds matches it** as a text. -/
theorem fnmatchcase_of_mem_glob {T : FileTree} {minor : ℕ} {root path : List String}
    {pattern : String} {found : List (List String)} (hplain : Plain pattern)
    (h : T.glob minor root pattern = .ok found) (hpath : path ∈ found) :
    Glob.fnmatchcase (posix path) pattern = true := by
  -- the parts of the pattern are all there is between its separators
  let parts := (pattern.toList.splitOn '/').map String.ofList
  have hparts : pathParts pattern = parts := by
    refine List.filter_eq_self.mpr fun part hpart => ?_
    obtain ⟨chars, hchars, rfl⟩ := List.mem_map.mp hpart
    have hproper := (hplain chars hchars).2
    simp_all
  have hnames : ∀ part ∈ parts, part ≠ ".." ∧ part ≠ "**" := by
    intro part hpart
    obtain ⟨chars, hchars, rfl⟩ := List.mem_map.mp hpart
    have hproper := (hplain chars hchars).2
    simp_all
  have hpattern : "/".intercalate parts = pattern := by
    rw [← String.toList_inj, String.toList_intercalate, List.map_map]
    have hid : String.toList ∘ String.ofList = id := funext fun chars => String.toList_ofList
    rw [hid, List.map_id]
    exact List.intercalate_splitOn '/'
  have hne : parts ≠ [] := by simp [parts]
  obtain ⟨last, target, hselect⟩ := FileTree.exists_select_of_mem_glob h hpath
  rw [hparts, segmentsOf_of_names hnames] at hselect
  have hmatch := FileTree.forall₂_of_mem_select hselect
  have hnonempty : path ≠ [] := by
    rintro rfl
    exact hne (List.forall₂_nil_left_iff.mp hmatch)
  rw [posix, if_neg hnonempty, ← hpattern]
  refine fnmatchcase_intercalate (fun part hpart => ?_) hmatch
  obtain ⟨chars, hchars, rfl⟩ := List.mem_map.mp hpart
  rw [String.toList_ofList]
  exact (hplain chars hchars).1

end Lib
