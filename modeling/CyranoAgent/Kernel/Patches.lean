import CyranoAgent.Kernel.Files
import CyranoAgent.Lib.Undo

/-!
# Applying patches, and rolling them back

`apply_to_target` checks every patch against its preimage, then writes the postimages one after the
other and records each write in a row; the journal is written at the end. `rollback_source` goes
through the rows in that same order and puts each preimage back, where the postimage is current.

Read as rows of cells (`undoRows`), the rollback is `UndoRow.undo` (`run_rollbackRows`), and the
rows of each file are those of the writes to it, `writesTo` (`run_writePatches`).
-/

namespace CyranoAgent

namespace Kernel

open Lib FileProgram

/-! ### Records -/

/-- `ApplyGrant`. -/
structure ApplyGrant where
  purpose : String
  subjectDigest : String
  approvedPaths : Option (List String) := none
  deriving DecidableEq

/-- `FilePatch`. -/
structure FilePatch where
  path : String
  preimageDigest : String
  postimage : Bytes
  deriving DecidableEq

/-- `ApplyEntry`. -/
structure ApplyEntry where
  path : String
  preimageDigest : String
  postimageDigest : String
  status : String
  deriving DecidableEq

/-- `ApplyJournal`; `path` is the name of the entry in the journal directory. -/
structure ApplyJournal where
  journalId : String
  status : String
  entries : List ApplyEntry
  path : String
  deriving DecidableEq

/-- A row of a journal file, its preimage decoded. -/
structure JournalRow where
  path : String
  preimageDigest : String
  preimage : Bytes
  postimageDigest : String
  status : String
  error : Option String
  deriving DecidableEq

/-- The entry of a row. -/
def JournalRow.entry (row : JournalRow) : ApplyEntry :=
  ⟨row.path, row.preimageDigest, row.postimageDigest, row.status⟩

/-- What a journal file holds. -/
structure JournalFile where
  status : String
  files : List JournalRow
  deriving DecidableEq

/-- `RollbackReport`. -/
structure RollbackReport where
  status : String
  restored : List String
  conflictPreserved : List String
  needsHumanDecision : Bool
  deriving DecidableEq

/-! ### Programs -/

/-- The checks of a patch in `apply_to_target`. -/
def checkPatch (grant : ApplyGrant) (patch : FilePatch) : FileProgram JournalFile Unit := do
  .done (checkPath patch.path)
  Program.raiseIf ((grant.approvedPaths.any (patch.path ∉ ·)) = true)
    (.cyrano "ACL_DENIED" patch.path)
  let linked ← isSymlink (pathParts patch.path)
  Program.raiseIf (linked = true) (.cyrano "PATH_ESCAPE" patch.path)
  let there ← fileExists (pathParts patch.path)
  Program.raiseIf (there = false) (.cyrano "SOURCE_MISSING" patch.path)
  let content ← readBytes (pathParts patch.path)
  Program.raiseIf (fileDigest content ≠ patch.preimageDigest)
    (.cyrano "PREIMAGE_CONFLICT" patch.path)

/-- `journal_id`. -/
def applyJournalId (grant : ApplyGrant) (patches : List FilePatch) : String :=
  "apply-" ++ String.ofList ((Sha256.hexdigest
    (grant.subjectDigest ++ "|" ++ "|".intercalate (patches.map (·.path))).toByteArray).toList.take
      12)

/-- The name of a journal file. -/
def journalName (journalId : String) : String := journalId ++ ".json"

/-- The row of a patch whose file held `preimage`. -/
def patchRow (patch : FilePatch) (preimage : Bytes) (written : Except Failure Unit) :
    JournalRow where
  path := patch.path
  preimageDigest := patch.preimageDigest
  preimage := preimage
  postimageDigest := fileDigest patch.postimage
  status := match written with
    | .ok _ => "applied"
    | .error _ => "failed"
  error := match written with
    | .ok _ => none
    | .error e => some e.text

/-- The write of a patch, and its row. -/
def writePatch (patch : FilePatch) : FileProgram JournalFile JournalRow := do
  let preimage ← readBytes (pathParts patch.path)
  let written ← tryWrite (pathParts patch.path) patch.postimage
  return patchRow patch preimage written

/-- The loop that writes the patches. -/
def writePatches : List FilePatch → FileProgram JournalFile (List JournalRow)
  | [] => pure []
  | patch :: patches => do
    let row ← writePatch patch
    let rows ← writePatches patches
    return row :: rows

/-- `status` of an apply. -/
def applyStatus (rows : List JournalRow) : String :=
  if rows.all (·.status = "applied") then "applied" else "partial"

/-- What `apply_to_target` does with a grant of the right purpose. -/
def applyGranted (patches : List FilePatch) (grant : ApplyGrant) :
    FileProgram JournalFile ApplyJournal := do
  patches.forM (checkPatch grant)
  let rows ← writePatches patches
  let journalId := applyJournalId grant patches
  writeJournal (journalName journalId) ⟨applyStatus rows, rows⟩
  return ⟨journalId, applyStatus rows, rows.map JournalRow.entry, journalName journalId⟩

/-- `apply_to_target`. -/
def applyToTarget (patches : List FilePatch) (grant : Option ApplyGrant) :
    FileProgram JournalFile ApplyJournal :=
  match grant with
  | none => Program.raise (.cyrano "APPROVAL_REQUIRED" "no source-apply grant")
  | some grant => do
    Program.raiseIf (grant.purpose ≠ "source_apply") (.cyrano "PURPOSE_MISMATCH" grant.purpose)
    applyGranted patches grant

/-- The loop of `rollback_source`: the paths that were restored, and those that were preserved. -/
def rollbackRows : List JournalRow → FileProgram JournalFile (List String × List String)
  | [] => pure ([], [])
  | row :: rows =>
    if row.status ≠ "applied" then rollbackRows rows
    else do
      let content ← readBytes (pathParts row.path)
      if fileDigest content ≠ row.postimageDigest then do
        let (restored, preserved) ← rollbackRows rows
        return (restored, row.path :: preserved)
      else do
        writeBytes (pathParts row.path) row.preimage
        let (restored, preserved) ← rollbackRows rows
        return (row.path :: restored, preserved)

/-- `tuple(sorted(paths))`. -/
def sortPaths (paths : List String) : List String := paths.insertionSort (· ≤ ·)

/-- `rollback_source`. -/
def rollbackSource (journal : ApplyJournal) : FileProgram JournalFile RollbackReport := do
  let loaded ← readJournal journal.path
  let (restored, preserved) ← rollbackRows loaded.files
  if preserved ≠ [] then
    return ⟨"reconciling", sortPaths restored, sortPaths preserved, true⟩
  else return ⟨"rolled_back", sortPaths restored, [], false⟩

/-! ### The checks -/

section

variable {grant : ApplyGrant} {patch : FilePatch} {patches : List FilePatch}
  {s t : Files JournalFile} {k : ℕ}

/-- A patch passes the checks. -/
structure Passes (s : Files JournalFile) (grant : ApplyGrant) (patch : FilePatch) : Prop where
  path : checkPath patch.path = .ok ()
  approved : ∀ paths, grant.approvedPaths = some paths → patch.path ∈ paths
  file : ∃ id, s.node (pathParts patch.path) = .file id ∧
    fileDigest (s.bytes id) = patch.preimageDigest

theorem Passes.isSome_target (h : Passes s grant patch) : (s.target patch.path).isSome := by
  obtain ⟨id, hnode, -⟩ := h.file
  simp [Files.target, hnode, Node.file?]

theorem run_checkPatch {u : Unit} :
    run (checkPatch grant patch) s = (.ok u, t) ↔ Passes s grant patch ∧ s = t := by
  have happroved : ¬(grant.approvedPaths.any (patch.path ∉ ·)) = true ↔
      ∀ paths, grant.approvedPaths = some paths → patch.path ∈ paths := by
    rcases grant.approvedPaths <;> simp
  simp only [checkPatch, bind_eq_ok, run_done, raiseIf_eq_ok, run_isSymlink, run_fileExists,
    readBytes_eq_ok, Prod.mk.injEq, Except.ok.injEq, happroved]
  constructor
  · rintro ⟨_, _, ⟨hpath, rfl⟩, _, _, ⟨hallowed, rfl⟩, linked, _, ⟨rfl, rfl⟩, _, _, ⟨hlinked, rfl⟩,
      there, _, ⟨rfl, rfl⟩, _, _, ⟨hthere, rfl⟩, content, _, ⟨⟨id, hid, rfl⟩, rfl⟩, hdigest, rfl⟩
    refine ⟨⟨hpath, hallowed, id, ?_, not_not.mp hdigest⟩, rfl⟩
    rcases hnode : s.node (pathParts patch.path) <;> rw [hnode] at hid hlinked
    · cases hid
    · cases hid
    · exact congrArg Node.file (Option.some.inj hid)
    · exact absurd rfl hlinked
  · rintro ⟨⟨hpath, hallowed, id, hnode, hdigest⟩, rfl⟩
    refine ⟨(), _, ⟨hpath, rfl⟩, (), _, ⟨hallowed, rfl⟩, _, _, ⟨rfl, rfl⟩, (), _, ⟨?_, rfl⟩, _, _,
      ⟨rfl, rfl⟩, (), _, ⟨?_, rfl⟩, _, _, ⟨⟨id, ?_, rfl⟩, rfl⟩, not_not.mpr hdigest, rfl⟩
    all_goals simp [hnode, Node.isSymlink, Node.isThere, Node.file?]

theorem run_checkPatches {u : PUnit} :
    run (patches.forM (checkPatch grant)) s = (.ok u, t) ↔
      (∀ patch ∈ patches, Passes s grant patch) ∧ s = t := by
  induction patches generalizing s with
  | nil =>
    change run (pure PUnit.unit) s = _ ↔ _
    simp
  | cons patch patches ih =>
    change run (checkPatch grant patch >>= fun _ => patches.forM (checkPatch grant)) s = _ ↔ _
    simp only [bind_eq_ok, run_checkPatch, ih, List.forall_mem_cons]
    constructor
    · rintro ⟨_, _, ⟨hpatch, rfl⟩, hrest, rfl⟩
      exact ⟨⟨hpatch, hrest⟩, rfl⟩
    · rintro ⟨⟨hpatch, hrest⟩, rfl⟩
      exact ⟨(), s, ⟨hpatch, rfl⟩, hrest, rfl⟩

/-! ### The writes -/

/-- The writes to a file, as the patches and the faults have it: each went through or not, and left
its contents. -/
def writesTo (target : String → Option ℕ) (k : ℕ) :
    List (Option TornWrite) → List FilePatch → List (Bool × Bytes)
  | _, [] => []
  | faults, patch :: patches =>
    let rest := writesTo target k faults.tail patches
    if target patch.path = some k then
      match faults.head?.join with
      | none => (true, patch.postimage) :: rest
      | some torn => (false, torn.left) :: rest
    else rest

/-- What the patches to a file write, in their order. -/
def postimagesTo (target : String → Option ℕ) (k : ℕ) (patches : List FilePatch) : List Bytes :=
  (patches.filter fun patch => target patch.path = some k).map FilePatch.postimage

/-- The rows of a journal that a rollback undoes, as rows of files. -/
def undoRows (target : String → Option ℕ) (rows : List JournalRow) :
    List (UndoRow ℕ Bytes String) :=
  rows.filterMap fun row =>
    if row.status = "applied" then
      (target row.path).map fun id => ⟨id, row.preimage, row.postimageDigest⟩
    else none

/-- What writing patches does to files `s`: the rows it makes, and the files it leaves. -/
structure Written (s : Files JournalFile) (patches : List FilePatch) (rows : List JournalRow)
    (t : Files JournalFile) : Prop where
  node : t.node = s.node
  journals : t.journals = s.journals
  bytes : ∀ k, t.bytes k = UndoRow.leaves (s.bytes k) (writesTo s.target k s.faults patches)
  cells : ∀ k, (undoRows s.target rows).filter (·.cell = k) =
    UndoRow.cellRows fileDigest k (s.bytes k) (writesTo s.target k s.faults patches)
  targets : ∀ row ∈ rows, (s.target row.path).isSome
  applied : (∀ row ∈ rows, row.status = "applied") → ∀ k,
    writesTo s.target k s.faults patches = (postimagesTo s.target k patches).map (Prod.mk true)

/-- A write and its row, in front of those of the other patches. -/
theorem Written.cons {id : ℕ} (hid : s.target patch.path = some id) {rows : List JournalRow}
    (h : Written (s.writeFile id patch.postimage).2 patches rows t) :
    Written s (patch :: patches)
      (patchRow patch (s.bytes id) (s.writeFile id patch.postimage).1 :: rows) t := by
  have hfaults : (s.writeFile id patch.postimage).2.faults = s.faults.tail := rfl
  have htarget : (s.writeFile id patch.postimage).2.target = s.target := rfl
  have hbytes := h.bytes
  have hundo := h.cells
  have happlied := h.applied
  rw [hfaults, htarget] at hbytes hundo happlied
  have hpath (written) : (patchRow patch (s.bytes id) written).path = patch.path := rfl
  refine ⟨h.node, h.journals, fun k => ?_, fun k => ?_, ?_, ?_⟩
  · rw [hbytes k, writesTo, hid]
    by_cases hk : k = id
    · subst hk
      rcases hfault : s.fault with _ | torn <;>
        simp [show s.faults.head?.join = s.fault from rfl, Files.writeFile, hfault,
          UndoRow.leaves_cons]
    · simp [Ne.symm hk, Files.writeFile, hk]
  · rw [undoRows, List.filterMap_cons, hpath, hid, writesTo, hid]
    by_cases hk : k = id
    · subst hk
      have hrows := hundo k
      rcases hfault : s.fault with _ | torn <;>
        simp [show s.faults.head?.join = s.fault from rfl, Files.writeFile, hfault, patchRow,
          UndoRow.cellRows] at hrows ⊢ <;> exact hrows
    · have hrows := hundo k
      rcases hfault : s.fault with _ | torn <;>
        simp [Ne.symm hk, Files.writeFile, hfault, hk, patchRow] at hrows ⊢ <;> exact hrows
  · exact List.forall_mem_cons.mpr ⟨by simp [hpath, hid], h.targets⟩
  · intro hall k
    rw [List.forall_mem_cons] at hall
    have hfault : s.fault = none := by
      rcases hfault : s.fault with _ | torn
      · rfl
      · simp [Files.writeFile, hfault, patchRow] at hall
    rw [writesTo, postimagesTo, happlied hall.2 k, show s.faults.head?.join = s.fault from rfl,
      hfault]
    by_cases hk : s.target patch.path = some k <;> simp [hk, postimagesTo]

/-- **Writing patches to files makes a row for each, and what the writes leave.** -/
theorem run_writePatches (h : ∀ patch ∈ patches, (s.target patch.path).isSome) :
    ∃ rows t, run (writePatches patches) s = (.ok rows, t) ∧ Written s patches rows t := by
  induction patches generalizing s with
  | nil =>
    refine ⟨[], s, rfl, rfl, rfl, fun k => rfl, fun k => rfl, by simp, ?_⟩
    simp [writesTo, postimagesTo]
  | cons patch patches ih =>
    rw [List.forall_mem_cons] at h
    obtain ⟨id, hid⟩ := Option.isSome_iff_exists.mp h.1
    obtain ⟨rows, t, hrun, hwritten⟩ := ih (s := (s.writeFile id patch.postimage).2) h.2
    refine ⟨_, t, ?_, hwritten.cons hid⟩
    have hread : run (readBytes (pathParts patch.path)) s = (.ok (s.bytes id), s) :=
      readBytes_eq_ok.mpr ⟨⟨id, hid, rfl⟩, rfl⟩
    have hwrite : run (writePatch patch) s =
        (.ok (patchRow patch (s.bytes id) (s.writeFile id patch.postimage).1),
          (s.writeFile id patch.postimage).2) := by
      rw [writePatch, run_bind_ok hread, run_bind_ok (run_tryWrite _ hid), run_pure]
    rw [writePatches, run_bind_ok hwrite, run_bind_ok hrun, run_pure]

/-! ### The rollback -/

/-- **The rollback of rows undoes them as rows of files**; the paths it preserves are those of the
rows kept aside. -/
theorem run_rollbackRows {rows : List JournalRow} (hfaults : s.faults = [])
    (htargets : ∀ row ∈ rows, (s.target row.path).isSome) :
    ∃ restored preserved t, run (rollbackRows rows) s = (.ok (restored, preserved), t) ∧
      t.node = s.node ∧
      t.bytes = (UndoRow.undo fileDigest s.bytes (undoRows s.target rows)).1 ∧
      preserved.map s.target = ((UndoRow.undo fileDigest s.bytes (undoRows s.target rows)).2).map
        fun row => some row.cell := by
  induction rows generalizing s with
  | nil => exact ⟨[], [], s, rfl, rfl, rfl, rfl⟩
  | cons row rows ih =>
    rw [List.forall_mem_cons] at htargets
    rw [rollbackRows]
    by_cases hstatus : row.status = "applied"
    swap
    · have hrows : undoRows s.target (row :: rows) = undoRows s.target rows := by
        simp [undoRows, hstatus]
      rw [if_pos hstatus, hrows]
      exact ih hfaults htargets.2
    obtain ⟨id, hid⟩ := Option.isSome_iff_exists.mp htargets.1
    have hrows : undoRows s.target (row :: rows) =
        ⟨id, row.preimage, row.postimageDigest⟩ :: undoRows s.target rows := by
      simp [undoRows, hstatus, hid]
    have hread : run (readBytes (pathParts row.path)) s = (.ok (s.bytes id), s) :=
      readBytes_eq_ok.mpr ⟨⟨id, hid, rfl⟩, rfl⟩
    rw [if_neg (not_not.mpr hstatus), run_bind_ok hread, hrows, UndoRow.undo]
    by_cases hdigest : fileDigest (s.bytes id) = row.postimageDigest
    · have hfault : s.fault = none := by simp [Files.fault, hfaults]
      have hwrite : run (writeBytes (pathParts row.path) row.preimage) s =
          (.ok (), (s.writeFile id row.preimage).2) :=
        writeBytes_eq_ok.mpr ⟨id, hid, hfault, rfl⟩
      have hbytes : (s.writeFile id row.preimage).2.bytes =
          Function.update s.bytes id row.preimage := by
        simp [Files.writeFile, hfault]
      obtain ⟨restored, preserved, t, hrun, hnode, ht, hpreserved⟩ :=
        ih (s := (s.writeFile id row.preimage).2) (by simp [Files.writeFile, hfaults]) htargets.2
      rw [hbytes] at ht hpreserved
      refine ⟨row.path :: restored, preserved, t, ?_, hnode, ?_, ?_⟩
      · rw [if_neg (not_not.mpr hdigest), run_bind_ok hwrite, run_bind_ok hrun, run_pure]
      · rw [if_pos hdigest]
        exact ht
      · rw [if_pos hdigest]
        exact hpreserved
    · obtain ⟨restored, preserved, t, hrun, hnode, ht, hpreserved⟩ := ih hfaults htargets.2
      refine ⟨restored, row.path :: preserved, t, ?_, hnode, ?_, ?_⟩
      · rw [if_pos hdigest, run_bind_ok hrun, run_pure]
      · rw [if_neg hdigest]
        exact ht
      · rw [if_neg hdigest, List.map_cons, List.map_cons, hid, hpreserved]

/-! ### Both programs -/

theorem Written.isSome_target {rows : List JournalRow} (h : Written s patches rows t) :
    ∀ row ∈ rows, (t.target row.path).isSome := by
  rw [show t.target = s.target from funext fun path => by rw [Files.target, Files.target, h.node]]
  exact h.targets

/-- **An apply that returns has passed the checks, written its patches and then its journal.** -/
theorem applyToTarget_eq_ok {grant : Option ApplyGrant} {journal : ApplyJournal}
    (h : run (applyToTarget patches grant) s = (.ok journal, t)) :
    ∃ g rows u, grant = some g ∧ (∀ patch ∈ patches, Passes s g patch) ∧
      Written s patches rows u ∧ t.node = u.node ∧ t.bytes = u.bytes ∧
      t.journal? journal.path = some ⟨journal.status, rows⟩ ∧
      journal.status = applyStatus rows := by
  rcases grant with _ | g
  · cases h
  rw [applyToTarget, bind_eq_ok] at h
  obtain ⟨_, _, hpurpose, hgranted⟩ := h
  obtain ⟨-, rfl⟩ := raiseIf_eq_ok.mp hpurpose
  rw [applyGranted, bind_eq_ok] at hgranted
  obtain ⟨_, _, hchecks, hwrites⟩ := hgranted
  obtain ⟨hpasses, rfl⟩ := run_checkPatches.mp hchecks
  obtain ⟨rows, u, hrun, hwritten⟩ := run_writePatches fun patch hpatch =>
    (hpasses patch hpatch).isSome_target
  rw [run_bind_ok hrun, run_bind_ok (run_writeJournal _ _), run_pure] at hwrites
  obtain ⟨hjournal, rfl⟩ := Prod.mk.inj hwrites
  obtain rfl := Except.ok.inj hjournal
  refine ⟨g, rows, u, rfl, hpasses, hwritten, rfl, rfl, ?_, rfl⟩
  rw [Files.journal?_putJournal, if_pos rfl]

/-- **A rollback undoes the rows of its journal as rows of files.** -/
theorem run_rollbackSource {journal : ApplyJournal} {file : JournalFile} (hfaults : s.faults = [])
    (hjournal : s.journal? journal.path = some file)
    (htargets : ∀ row ∈ file.files, (s.target row.path).isSome) :
    ∃ report t, run (rollbackSource journal) s = (.ok report, t) ∧ t.node = s.node ∧
      t.bytes = (UndoRow.undo fileDigest s.bytes (undoRows s.target file.files)).1 ∧
      (∀ k, (∃ path ∈ report.conflictPreserved, s.target path = some k) ↔
        ∃ row ∈ (UndoRow.undo fileDigest s.bytes (undoRows s.target file.files)).2, row.cell = k) ∧
      (report.status = "rolled_back" ↔
        (UndoRow.undo fileDigest s.bytes (undoRows s.target file.files)).2 = []) := by
  obtain ⟨restored, preserved, t, hrun, hnode, hbytes, hpreserved⟩ :=
    run_rollbackRows hfaults htargets
  have hread := run_readJournal hjournal
  have hpaths (k : ℕ) : (∃ path ∈ preserved, s.target path = some k) ↔
      ∃ row ∈ (UndoRow.undo fileDigest s.bytes (undoRows s.target file.files)).2, row.cell = k := by
    have hmem := congrArg (some k ∈ ·) hpreserved
    simpa using hmem
  have hnil : preserved = [] ↔
      (UndoRow.undo fileDigest s.bytes (undoRows s.target file.files)).2 = [] := by
    rw [← List.map_eq_nil_iff (f := s.target), hpreserved, List.map_eq_nil_iff]
  simp only [← hpaths, ← hnil, rollbackSource, run_bind_ok hread, run_bind_ok hrun]
  by_cases hnone : preserved = []
  · rw [if_neg (not_not.mpr hnone)]
    exact ⟨_, t, run_pure _, hnode, hbytes, by simp [hnone], by simp [hnone]⟩
  · rw [if_pos hnone]
    exact ⟨_, t, run_pure _, hnode, hbytes, by simp [sortPaths], by simp [hnone]⟩

end

/-- Files of which one has a name, `a`; each holds one byte. For examples. -/
def oneFile (faults : List (Option TornWrite)) : Files JournalFile where
  node parts := if parts = ["a"] then .file 0 else .missing
  bytes _ := [1]
  faults := faults

end Kernel

end CyranoAgent
