import CyranoAgent.Kernel.Files
import CyranoAgent.Lib.Splice

/-!
# Anchored edits

`validate_patch` checks the hunks against a snapshot of the files. `apply_candidate` takes them file
by file: it checks a file, makes the edits of its hunks from the last to the first, and writes it,
before it checks the next one. So a file that is refused finds the files before it written
(`blocked_untouched_iff`).
-/

namespace CyranoAgent

namespace Kernel

open Lib FileProgram

/-! ### Records -/

/-- `PatchAnchor`; `stop` is its `end`. -/
structure PatchAnchor where
  path : String
  start : ℤ
  stop : ℤ
  expectedDigest : String
  deriving DecidableEq

/-- `EditHunk`. -/
structure EditHunk where
  anchor : PatchAnchor
  replacement : Bytes
  deriving DecidableEq

/-- `ApplyResult`. -/
structure ApplyResult where
  digests : List (String × String)
  journalId : String
  deriving DecidableEq

/-- What the journal of an apply holds, by its `status`. -/
inductive EditJournal
  | prepared (preimages : List (String × String))
  | needsReconciliation (error : String)
  | blocked (error : String)
  | applied (digests : List (String × String))
  deriving DecidableEq

/-! ### Validation -/

/-- Where a slice bound falls in a sequence of this length. -/
def sliceIndex (length : ℕ) (i : ℤ) : ℕ :=
  if i < 0 then (i + length).toNat else min i.toNat length

/-- `content[start:stop]`. -/
def byteSlice (content : Bytes) (start stop : ℤ) : Bytes :=
  (content.take (sliceIndex content.length stop)).drop (sliceIndex content.length start)

/-- `_range_digest`. -/
def rangeDigest (content : Bytes) (start stop : ℤ) : Except Failure String :=
  if start < 0 ∨ (content.length : ℤ) < stop ∨ stop < start then
    .error (.cyrano "INPUT_INVALID" "bad byte range")
  else .ok (fileDigest (byteSlice content start stop))

/-- The checks of a hunk in `validate_patch`. -/
def validateHunk (snapshot : List (String × Bytes)) (hunk : EditHunk) : Except Failure Unit := do
  checkPath hunk.anchor.path
  match snapshot.lookup hunk.anchor.path with
  | none => .error (.cyrano "SOURCE_MISSING" hunk.anchor.path)
  | some content => do
    let actual ← rangeDigest content hunk.anchor.start hunk.anchor.stop
    if actual ≠ hunk.anchor.expectedDigest then
      .error (.cyrano "PATCH_STALE" hunk.anchor.path)
    else .ok ()

/-- `validate_patch`. -/
def validatePatch (hunks : List EditHunk) (snapshot : List (String × Bytes)) :
    Except Failure Unit :=
  hunks.forM (validateHunk snapshot)

/-! ### Application -/

/-- `content[:start] + replacement + content[stop:]`. -/
def applyHunk (content : Bytes) (hunk : EditHunk) : Bytes :=
  content.take (sliceIndex content.length hunk.anchor.start) ++ hunk.replacement ++
    content.drop (sliceIndex content.length hunk.anchor.stop)

/-- The hunks of a file, from the last start to the first. -/
def applyHunks (content : Bytes) (hunks : List EditHunk) : Bytes :=
  (hunks.insertionSort fun a b => b.anchor.start ≤ a.anchor.start).foldl applyHunk content

/-- `by_path`: the hunks of each path, in the order in which the paths come up. -/
def byPath (hunks : List EditHunk) : List (String × List EditHunk) :=
  (hunks.map (·.anchor.path)).eraseDups.map fun path =>
    (path, hunks.filter (·.anchor.path = path))

/-- The body of the loop over the paths. -/
def applyGroup (digests : List (String × String)) (group : String × List EditHunk) :
    FileProgram EditJournal (String × String) := do
  .done (checkPath group.1)
  let linked ← isSymlink (pathParts group.1)
  Program.raiseIf (linked = true) (.cyrano "PATH_ESCAPE" (group.1 ++ " became a symlink"))
  let content ← readBytes (pathParts group.1)
  match digests.lookup group.1 with
  | none => Program.raise (.python "KeyError" group.1)
  | some digest => do
    Program.raiseIf (fileDigest content ≠ digest)
      (.cyrano "PATCH_CONFLICT" (group.1 ++ " changed since validation"))
    writeBytes (pathParts group.1) (applyHunks content group.2)
    return (group.1, fileDigest (applyHunks content group.2))

/-- The loop over the paths, with the digests it makes. -/
def applyGroups (digests : List (String × String)) :
    List (String × List EditHunk) → FileProgram EditJournal (List (String × String))
  | [] => pure []
  | group :: groups => do
    let row ← applyGroup digests group
    let rows ← applyGroups digests groups
    return row :: rows

/-- The exceptions of the file operations that `except OSError` catches. -/
def isOSError : Failure → Bool
  | .cyrano _ _ => false
  | .python type _ => type ∈ ["OSError", "FileNotFoundError", "IsADirectoryError"]

/-- The journal after the loop, and what an exception of the loop becomes. -/
def closeJournal (name : String) :
    Except Failure (List (String × String)) → FileProgram EditJournal (List (String × String))
  | .ok digests => do
    writeJournal name (.applied digests)
    return digests
  | .error e =>
    if isOSError e then do
      writeJournal name (.needsReconciliation e.text)
      Program.raise (.cyrano "APPLY_INCOMPLETE" e.text)
    else
      match e with
      | .cyrano code message => do
        writeJournal name (.blocked code)
        Program.raise (.cyrano code message)
      | .python type text => Program.raise (.python type text)

/-- `apply_candidate`; `digests` are its `preimage_digests`. -/
def applyCandidate (hunks : List EditHunk) (digests : List (String × String)) :
    FileProgram EditJournal ApplyResult := do
  let count ← countJournals
  let journalId := "j" ++ (count + 1).repr
  writeJournal (journalId ++ ".json") (.prepared digests)
  let applied ← attempt (applyGroups digests (byPath hunks))
  let newDigests ← closeJournal (journalId ++ ".json") applied
  return ⟨newDigests, journalId⟩

/-! ### Runs over the paths -/

section

variable {node : List String → Node} {digests : List (String × String)}
  {group : String × List EditHunk}
  {groups : List (String × List EditHunk)}

/-- The codes of a refusal. -/
def blockedCodes : List String := ["PATCH_CONFLICT", "PATH_ESCAPE", "ACL_DENIED"]

/-- A path is refused, while the files hold `c`. -/
def Refused (node : List String → Node) (digests : List (String × String)) (c : ℕ → Bytes)
    (path : String) : Prop :=
  checkPath path ≠ .ok () ∨ (node (pathParts path)).isSymlink = true ∨
    ∃ id digest, (node (pathParts path)).file? = some id ∧ digests.lookup path = some digest ∧
      fileDigest (c id) ≠ digest

/-- A path passes the checks, while the files hold `c`. -/
def Cleared (node : List String → Node) (digests : List (String × String)) (c : ℕ → Bytes)
    (path : String) : Prop :=
  checkPath path = .ok () ∧ ∃ id, node (pathParts path) = .file id ∧
    digests.lookup path = some (fileDigest (c id))

/-- What the hunks of a path make of the contents of the files. -/
def editGroup (node : List String → Node) (c : ℕ → Bytes) (group : String × List EditHunk) :
    ℕ → Bytes :=
  match (node (pathParts group.1)).file? with
  | some id => Function.update c id (applyHunks (c id) group.2)
  | none => c

/-- What the hunks of several paths make of the contents of the files, one path after the other. -/
def edited (node : List String → Node) (c : ℕ → Bytes) (groups : List (String × List EditHunk)) :
    ℕ → Bytes :=
  groups.foldl (editGroup node) c

/-- The paths pass the checks in turn, each with what the paths before it have made of the files,
and no write raises. -/
def ClearedInTurn (node : List String → Node) (digests : List (String × String)) :
    (ℕ → Bytes) → List (Option TornWrite) → List (String × List EditHunk) → Prop
  | _, _, [] => True
  | c, faults, group :: groups =>
    Cleared node digests c group.1 ∧ faults.head?.join = none ∧
      ClearedInTurn node digests (editGroup node c group) faults.tail groups

variable {s t : Files EditJournal}

theorem Cleared.not_refused {c : ℕ → Bytes} {path : String} (h : Cleared node digests c path) :
    ¬Refused node digests c path := by
  obtain ⟨hpath, id, hnode, hdigest⟩ := h
  rintro (hdenied | hlinked | ⟨other, digest, htarget, hother, hne⟩)
  · exact hdenied hpath
  · rw [hnode] at hlinked
    cases hlinked
  · rw [hnode, Node.file?] at htarget
    obtain rfl := Option.some.inj htarget
    exact hne (Option.some.inj (hdigest.symm.trans hother))

theorem run_applyGroup_cleared (h : Cleared s.node digests s.bytes group.1)
    (hfault : s.fault = none) :
    ∃ row t, run (applyGroup digests group) s = (.ok row, t) ∧ t.node = s.node ∧
      t.bytes = editGroup s.node s.bytes group ∧ t.faults = s.faults.tail := by
  obtain ⟨hpath, id, hnode, hdigest⟩ := h
  have htarget : (s.node (pathParts group.1)).file? = some id := by rw [hnode, Node.file?]
  have hread : run (readBytes (pathParts group.1)) s = (.ok (s.bytes id), s) :=
    readBytes_eq_ok.mpr ⟨⟨id, htarget, rfl⟩, rfl⟩
  have hwrite : run (writeBytes (pathParts group.1) (applyHunks (s.bytes id) group.2)) s =
      (.ok (), (s.writeFile id (applyHunks (s.bytes id) group.2)).2) :=
    writeBytes_eq_ok.mpr ⟨id, htarget, hfault, rfl⟩
  refine ⟨(group.1, fileDigest (applyHunks (s.bytes id) group.2)),
    (s.writeFile id (applyHunks (s.bytes id) group.2)).2, ?_, rfl, ?_, rfl⟩
  · rw [applyGroup, hpath, run_bind_ok (run_done _), run_bind_ok (run_isSymlink _), hnode]
    change run (readBytes (pathParts group.1) >>= _) s = _
    rw [run_bind_ok hread, hdigest]
    change run (Program.raiseIf (fileDigest (s.bytes id) ≠ fileDigest (s.bytes id)) _ >>= _) s = _
    rw [run_bind_ok ((raiseIf_eq_ok (u := ())).mpr ⟨not_not.mpr rfl, rfl⟩), run_bind_ok hwrite,
      run_pure]
  · rw [editGroup, htarget]
    simp [Files.writeFile, hfault]

/-- What becomes of a path: it passes the checks and is written, it is refused with nothing changed,
or an exception is raised that is none of the program's own. -/
theorem run_applyGroup_cases (digests : List (String × String))
    (group : String × List EditHunk) (s : Files EditJournal) :
    Cleared s.node digests s.bytes group.1 ∧ s.fault = none ∨
      Refused s.node digests s.bytes group.1 ∧ (∃ code message, code ∈ blockedCodes ∧
        run (applyGroup digests group) s = (.error (.cyrano code message), s)) ∨
      ¬Refused s.node digests s.bytes group.1 ∧ ∃ type text t,
        run (applyGroup digests group) s = (.error (.python type text), t) := by
  rw [applyGroup]
  by_cases hpath : checkPath group.1 = .ok ()
  swap
  · have hdenied : checkPath group.1 = .error (.cyrano "ACL_DENIED" group.1) := by
      rw [checkPath] at hpath ⊢
      split at hpath
      · next h => rw [if_pos h]
      · exact absurd rfl hpath
    refine .inr (.inl ⟨.inl hpath, "ACL_DENIED", group.1, by decide, ?_⟩)
    rw [hdenied, run_bind_error (run_done _)]
  rw [hpath, run_bind_ok (run_done _), run_bind_ok (run_isSymlink _)]
  rcases hlinked : (s.node (pathParts group.1)).isSymlink
  swap
  · exact .inr (.inl ⟨.inr (.inl hlinked), "PATH_ESCAPE", _, by decide, rfl⟩)
  change _ ∨ (_ ∧ ∃ code message, _ ∧ run (readBytes (pathParts group.1) >>= _) s = _) ∨
    _ ∧ ∃ type text t, run (readBytes (pathParts group.1) >>= _) s = _
  rcases htarget : (s.node (pathParts group.1)).file? with _ | id
  · obtain ⟨type, text, hread⟩ := exists_readBytes_error htarget
    refine .inr (.inr ⟨?_, type, text, s, run_bind_error hread⟩)
    rintro (hdenied | hlink | ⟨id, digest, hid, -⟩)
    · exact hdenied hpath
    · rw [hlinked] at hlink
      cases hlink
    · rw [htarget] at hid
      cases hid
  have hread : run (readBytes (pathParts group.1)) s = (.ok (s.bytes id), s) :=
    readBytes_eq_ok.mpr ⟨⟨id, htarget, rfl⟩, rfl⟩
  rw [run_bind_ok hread]
  have hrefused : Refused s.node digests s.bytes group.1 ↔
      ∃ digest, digests.lookup group.1 = some digest ∧ fileDigest (s.bytes id) ≠ digest := by
    simp [Refused, hpath, hlinked, htarget]
  rw [hrefused]
  rcases hlookup : digests.lookup group.1 with _ | digest
  · exact .inr (.inr ⟨by simp, "KeyError", group.1, s, rfl⟩)
  by_cases hdigest : fileDigest (s.bytes id) = digest
  swap
  · refine .inr (.inl ⟨⟨digest, rfl, hdigest⟩, "PATCH_CONFLICT",
      group.1 ++ " changed since validation", by decide, ?_⟩)
    change run (Program.raiseIf _ _ >>= _) s = _
    rw [Program.raiseIf, if_pos hdigest]
    exact run_bind_error (run_raise _)
  have hnode : s.node (pathParts group.1) = .file id := by
    rcases hnode : s.node (pathParts group.1) <;> rw [hnode] at htarget hlinked
    · cases htarget
    · cases htarget
    · exact congrArg Node.file (Option.some.inj htarget)
    · cases hlinked
  rcases hfault : s.fault with _ | torn
  · refine .inl ⟨⟨hpath, id, hnode, ?_⟩, rfl⟩
    rw [hlookup, hdigest]
  · refine .inr (.inr ⟨by simpa using hdigest, "OSError", torn.error,
      (s.writeFile id (applyHunks (s.bytes id) group.2)).2, ?_⟩)
    change run (Program.raiseIf _ _ >>= _) s = _
    rw [run_bind_ok ((raiseIf_eq_ok (u := ())).mpr ⟨not_not.mpr hdigest, rfl⟩)]
    refine run_bind_error ((run_writeBytes _ htarget).trans (Prod.ext ?_ rfl))
    simp [Files.writeFile, hfault]

/-- Paths that are cleared in turn are written. -/
theorem run_applyGroups_cleared (h : ClearedInTurn s.node digests s.bytes s.faults groups) :
    ∃ rows t, run (applyGroups digests groups) s = (.ok rows, t) ∧
      t.bytes = edited s.node s.bytes groups := by
  induction groups generalizing s with
  | nil => exact ⟨[], s, rfl, rfl⟩
  | cons group groups ih =>
    obtain ⟨hcleared, hfault, hrest⟩ := h
    obtain ⟨row, t, hrun, hnode, hbytes, hfaults⟩ := run_applyGroup_cleared hcleared hfault
    rw [← hbytes, ← hfaults, ← hnode] at hrest
    obtain ⟨rows, r, hrows, hr⟩ := ih hrest
    refine ⟨row :: rows, r, ?_, ?_⟩
    · rw [applyGroups, run_bind_ok hrun, run_bind_ok hrows, run_pure]
    · rw [hr, hnode, hbytes, edited, edited, List.foldl_cons]

/-- **A path that is refused finds the paths before it written.** -/
theorem run_applyGroups_refused {done : List (String × List EditHunk)}
    (rest : List (String × List EditHunk)) (h : ClearedInTurn s.node digests s.bytes s.faults done)
    (hgroup : Refused s.node digests (edited s.node s.bytes done) group.1) :
    ∃ code message t, code ∈ blockedCodes ∧
      run (applyGroups digests (done ++ group :: rest)) s = (.error (.cyrano code message), t) ∧
      t.bytes = edited s.node s.bytes done := by
  induction done generalizing s with
  | nil =>
    rcases run_applyGroup_cases digests group s with
      hcleared | ⟨-, code, message, hcode, hrun⟩ | hno
    · exact absurd hgroup hcleared.1.not_refused
    · exact ⟨code, message, s, hcode, run_bind_error hrun, rfl⟩
    · exact absurd hgroup hno.1
  | cons first done ih =>
    obtain ⟨hcleared, hfault, hrest⟩ := h
    obtain ⟨row, t, hrun, hnode, hbytes, hfaults⟩ := run_applyGroup_cleared hcleared hfault
    rw [← hbytes, ← hfaults, ← hnode] at hrest
    rw [edited, List.foldl_cons, ← hbytes, ← hnode] at hgroup
    obtain ⟨code, message, r, hcode, hrows, hr⟩ := ih hrest hgroup
    refine ⟨code, message, r, hcode, ?_, ?_⟩
    · rw [List.cons_append, applyGroups, run_bind_ok hrun]
      exact run_bind_error hrows
    · rw [hr, hnode, hbytes, edited, edited, List.foldl_cons]

/-- Only a path that is refused raises an exception of the program's own. -/
theorem exists_refused {code message : String}
    (h : run (applyGroups digests groups) s = (.error (.cyrano code message), t)) :
    ∃ done group rest, groups = done ++ group :: rest ∧
      ClearedInTurn s.node digests s.bytes s.faults done ∧
      Refused s.node digests (edited s.node s.bytes done) group.1 := by
  induction groups generalizing s with
  | nil => cases h
  | cons group groups ih =>
    rcases run_applyGroup_cases digests group s with
      ⟨hcleared, hfault⟩ | ⟨hrefused, -⟩ | ⟨-, type, text, r, hrun⟩
    · obtain ⟨row, r, hrun, hnode, hbytes, hfaults⟩ := run_applyGroup_cleared hcleared hfault
      have hrows : run (applyGroups digests groups) r = (.error (.cyrano code message), t) := by
        rw [applyGroups, run_bind_ok hrun, run_bind] at h
        rcases hrows : run (applyGroups digests groups) r with ⟨_ | _, _⟩ <;> rw [hrows] at h
        · exact h
        · cases h
      obtain ⟨done, first, rest, hsplit, hturn, hrefused⟩ := ih hrows
      refine ⟨group :: done, first, rest, by rw [hsplit, List.cons_append], ⟨hcleared, hfault, ?_⟩,
        ?_⟩
      · rwa [hnode, hbytes, hfaults] at hturn
      · rwa [hnode, hbytes] at hrefused
    · exact ⟨[], group, groups, rfl, trivial, hrefused⟩
    · rw [applyGroups, run_bind_error hrun] at h
      cases h

/-! ### Refusals -/

/-- The files and the journal, when the loop over the paths begins. -/
def prepared (s : Files EditJournal) (digests : List (String × String)) : Files EditJournal :=
  (s.putJournal ("j" ++ (s.journals.length + 1).repr ++ ".json") none).putJournal
    ("j" ++ (s.journals.length + 1).repr ++ ".json") (some (.prepared digests))

theorem run_applyCandidate (hunks : List EditHunk) (digests : List (String × String))
    (s : Files EditJournal) :
    run (applyCandidate hunks digests) s =
      let loop := run (applyGroups digests (byPath hunks)) (prepared s digests)
      run (closeJournal ("j" ++ (s.journals.length + 1).repr ++ ".json") loop.1 >>= fun rows =>
        pure ⟨rows, "j" ++ (s.journals.length + 1).repr⟩) loop.2 := by
  rw [applyCandidate, run_bind_ok run_countJournals, run_bind_ok (run_writeJournal _ _),
    run_bind_ok (run_attempt _)]
  rfl

/-- A loop that refuses a path ends the apply; the files stay as it left them. -/
theorem run_applyCandidate_refused {hunks : List EditHunk} {code message : String}
    (h : run (applyGroups digests (byPath hunks)) (prepared s digests) =
      (.error (.cyrano code message), t)) :
    ∃ r, run (applyCandidate hunks digests) s = (.error (.cyrano code message), r) ∧
      r.bytes = t.bytes := by
  rw [run_applyCandidate, h]
  exact ⟨_, rfl, rfl⟩

/-- An apply that raises the code of a refusal has refused a path. -/
theorem exists_run_applyGroups {hunks : List EditHunk} {code message : String}
    (h : run (applyCandidate hunks digests) s = (.error (.cyrano code message), t))
    (hcode : code ∈ blockedCodes) : ∃ r, run (applyGroups digests (byPath hunks))
      (prepared s digests) = (.error (.cyrano code message), r) := by
  rw [run_applyCandidate] at h
  rcases hloop : run (applyGroups digests (byPath hunks)) (prepared s digests) with
    ⟨(⟨code', message'⟩ | ⟨type, text⟩) | rows, r⟩ <;> rw [hloop] at h
  · obtain ⟨herror, -⟩ := Prod.mk.inj h
    exact ⟨r, by rw [Except.error.inj herror]⟩
  · simp only [closeJournal] at h
    split at h
    · cases h
      simp [blockedCodes] at hcode
    · cases h
  · cases h

/-- **An apply that is blocked leaves every file as it was exactly when**, wherever a path is
refused after others were cleared, the hunks of these together change no file. -/
theorem blocked_untouched_iff (hunks : List EditHunk) (digests : List (String × String))
    (s : Files EditJournal) :
    (∀ code message t, run (applyCandidate hunks digests) s = (.error (.cyrano code message), t) →
        code ∈ blockedCodes → t.bytes = s.bytes) ↔
      ∀ done group rest, byPath hunks = done ++ group :: rest →
        ClearedInTurn s.node digests s.bytes s.faults done →
        Refused s.node digests (edited s.node s.bytes done) group.1 →
        edited s.node s.bytes done = s.bytes := by
  constructor
  · intro hall done group rest hsplit hturn hrefused
    obtain ⟨code, message, t, hcode, hrun, hbytes⟩ := run_applyGroups_refused
      (s := prepared s digests) rest hturn hrefused
    rw [← hsplit] at hrun
    obtain ⟨r, happly, hr⟩ := run_applyCandidate_refused hrun
    exact hbytes.symm.trans (hr.symm.trans (hall code message r happly hcode))
  · intro hall code message t happly hcode
    obtain ⟨r, hrun⟩ := exists_run_applyGroups happly hcode
    obtain ⟨done, group, rest, hsplit, hturn, hrefused⟩ := exists_refused hrun
    obtain ⟨code', message', u, -, hrun', hu⟩ := run_applyGroups_refused
      (s := prepared s digests) rest hturn hrefused
    rw [← hsplit, hrun] at hrun'
    obtain ⟨herror, rfl⟩ := Prod.mk.inj hrun'
    obtain ⟨v, happly', hv⟩ := run_applyCandidate_refused hrun
    obtain ⟨-, rfl⟩ := Prod.mk.inj (happly.symm.trans happly')
    rw [hv, hu]
    exact hall done group rest hsplit hturn hrefused

/-- Two files, `a` and `b`, of one byte each. For examples. -/
def twoFiles : Files EditJournal where
  node parts := if parts = ["a"] then .file 0 else if parts = ["b"] then .file 1 else .missing
  bytes _ := [1]

/-- A hunk that replaces that byte. For examples. -/
def byteHunk (path : String) : EditHunk := ⟨⟨path, 0, 1, fileDigest [1]⟩, [2]⟩

/-- The second file has changed since validation: the apply is blocked, and the first one is
written. -/
theorem not_blocked_untouched : ∃ t,
    run (applyCandidate [byteHunk "a", byteHunk "b"] [("a", fileDigest [1]), ("b", fileDigest [9])])
        twoFiles = (.error (.cyrano "PATCH_CONFLICT" "b changed since validation"), t) ∧
      t.bytes 0 = [2] ∧ twoFiles.bytes 0 = [1] := by
  have hrun : let out := run (applyCandidate [byteHunk "a", byteHunk "b"]
        [("a", fileDigest [1]), ("b", fileDigest [9])]) twoFiles
      out.1 = .error (.cyrano "PATCH_CONFLICT" "b changed since validation") ∧
        out.2.bytes 0 = [2] := by
    decide +kernel
  exact ⟨_, Prod.ext hrun.1 rfl, hrun.2, rfl⟩

end

end Kernel

end CyranoAgent
