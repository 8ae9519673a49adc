import CyranoAgent.Kernel.Patches

/-!
# Rolling an apply back

A file that is patched once is restored. The rows of a file that is patched more often, or under
several spellings, are undone in the order of its writes, which brings back its first contents only
where the images alternate (`rollback_inverse_iff`). A write that raised has no row that a rollback
undoes, so what it left stays without a word, unless the rows of the file's other writes bring its
contents back or are kept aside (`rollback_accounts_iff`).
-/

namespace CyranoAgent

namespace Kernel

open Lib FileProgram

section

variable {patches : List FilePatch} {grant : Option ApplyGrant} {s t : Files JournalFile}
  {journal : ApplyJournal}

/-- What a file of the patches holds, as its rows are undone in their order. -/
def undoneContents (s : Files JournalFile) (patches : List FilePatch) (k : ℕ) : List Bytes :=
  let writes := writesTo s.target k s.faults patches
  UndoRow.undone (UndoRow.leaves (s.bytes k) writes)
    (UndoRow.cellRows fileDigest k (s.bytes k) writes)

/-- The marks of the rows of a file. -/
def rowMarks (s : Files JournalFile) (patches : List FilePatch) (k : ℕ) : List String :=
  (UndoRow.cellRows fileDigest k (s.bytes k) (writesTo s.target k s.faults patches)).map
    UndoRow.mark

/-- Each row of a file finds its postimage, as the rows are undone in their order. -/
def RowsMatch (s : Files JournalFile) (patches : List FilePatch) (k : ℕ) : Prop :=
  rowMarks s patches k = (undoneContents s patches k).dropLast.map fileDigest

/-- **An apply and the rollback after it, file by file.** -/
theorem run_apply_rollback (happly : run (applyToTarget patches grant) s = (.ok journal, t)) :
    ∃ report r, run (rollbackSource journal) { t with faults := [] } = (.ok report, r) ∧
      r.node = s.node ∧
      (∀ k, (∃ path ∈ report.conflictPreserved, s.target path = some k) ↔ ¬RowsMatch s patches k) ∧
      (report.status = "rolled_back" ↔ ∀ k, RowsMatch s patches k) ∧
      ∀ k, RowsMatch s patches k → (undoneContents s patches k).getLast? = some (r.bytes k) := by
  obtain ⟨g, rows, u, rfl, -, hwritten, hnode, hbytes, hjournal, -⟩ := applyToTarget_eq_ok happly
  have htarget : t.target = s.target := funext fun path => by
    rw [Files.target, Files.target, hnode, hwritten.node]
  obtain ⟨report, r, hrun, hrnode, hrbytes, hpreserved, hstatus⟩ :=
    run_rollbackSource (s := { t with faults := [] }) rfl hjournal fun row hrow => by
      change (t.target row.path).isSome
      rw [htarget]
      exact hwritten.targets row hrow
  change (∀ k, (∃ path ∈ report.conflictPreserved, t.target path = some k) ↔
    ∃ row ∈ (UndoRow.undo fileDigest t.bytes (undoRows t.target rows)).2, row.cell = k)
    at hpreserved
  change _ = (UndoRow.undo fileDigest t.bytes (undoRows t.target rows)).1 at hrbytes
  change _ ↔ (UndoRow.undo fileDigest t.bytes (undoRows t.target rows)).2 = [] at hstatus
  rw [htarget, hbytes] at hrbytes hpreserved hstatus
  have hcell (k : ℕ) :
      ((∃ row ∈ (UndoRow.undo fileDigest u.bytes (undoRows s.target rows)).2, row.cell = k) ↔
        ¬RowsMatch s patches k) ∧
      (RowsMatch s patches k → (undoneContents s patches k).getLast? =
        some ((UndoRow.undo fileDigest u.bytes (undoRows s.target rows)).1 k)) := by
    have h := UndoRow.undo_cell fileDigest u.bytes (undoRows s.target rows) k
    rw [hwritten.cells, hwritten.bytes, UndoRow.matches_iff] at h
    exact h
  refine ⟨report, r, hrun, ?_, fun k => (hpreserved k).trans (hcell k).1, ?_, ?_⟩
  · rw [hrnode]
    exact hnode.trans hwritten.node
  · rw [hstatus, List.eq_nil_iff_forall_not_mem]
    constructor
    · intro hnone k
      by_contra hmatch
      obtain ⟨row, hrow, -⟩ := (hcell k).1.mpr hmatch
      exact hnone row hrow
    · exact fun hmatch row hrow => (hcell row.cell).1.mp ⟨row, hrow, rfl⟩ (hmatch row.cell)
  · intro k hmatch
    rw [hrbytes]
    exact (hcell k).2 hmatch

/-- **After an apply that wrote everything, a rollback restores every file exactly when** each row
of a file finds its postimage in the order of the rows, and the file ends as it was. Where `b₀` are
its bytes and `b₁`, …, `bₙ` the postimages of the patches to it, it holds `bₙ`, `b₀`, …, `bₙ₋₁` in
turn. -/
theorem rollback_inverse_iff (happly : run (applyToTarget patches grant) s = (.ok journal, t))
    (hstatus : journal.status = "applied") :
    (∃ report r, run (rollbackSource journal) { t with faults := [] } = (.ok report, r) ∧
        report.status = "rolled_back" ∧ r.node = s.node ∧ r.bytes = s.bytes) ↔
      ∀ k, let posts := postimagesTo s.target k patches
        let undone := posts.getLast?.getD (s.bytes k) :: (s.bytes k :: posts).dropLast
        posts.map fileDigest = undone.dropLast.map fileDigest ∧
          undone.getLast? = some (s.bytes k) := by
  obtain ⟨g, rows, u, rfl, -, hwritten, -, -, -, hjournalStatus⟩ := applyToTarget_eq_ok happly
  obtain ⟨report, r, hrun, hnode, -, hrolled, hlast⟩ := run_apply_rollback happly
  have happlied : ∀ row ∈ rows, row.status = "applied" := by
    rw [hjournalStatus, applyStatus] at hstatus
    split at hstatus
    · next hall => simpa using hall
    · simp at hstatus
  have hwrites (k : ℕ) := hwritten.applied happlied k
  have hundone (k : ℕ) : undoneContents s patches k =
      (postimagesTo s.target k patches).getLast?.getD (s.bytes k) ::
        (s.bytes k :: postimagesTo s.target k patches).dropLast := by
    rw [undoneContents, hwrites, UndoRow.undone, (UndoRow.cellRows_written k _ _).1,
      UndoRow.leaves, List.getLast?_map, Option.map_map]
    simp [Function.comp_def]
  have hmarks (k : ℕ) : rowMarks s patches k =
      (postimagesTo s.target k patches).map fileDigest := by
    rw [rowMarks, hwrites, (UndoRow.cellRows_written k _ _).2]
  simp only [← hundone, ← hmarks]
  constructor
  · rintro ⟨report', r', hrun', hstatus', -, hbytes⟩ k
    obtain ⟨hreport, rfl⟩ := Prod.mk.inj (hrun'.symm.trans hrun)
    obtain rfl := Except.ok.inj hreport
    have hmatch := hrolled.mp hstatus'
    exact ⟨hmatch k, by rw [hlast k (hmatch k), hbytes]⟩
  · intro hall
    refine ⟨report, r, hrun, hrolled.mpr fun k => (hall k).1, hnode, funext fun k => ?_⟩
    exact Option.some.inj ((hlast k (hall k).1).symm.trans (hall k).2)

/-- An apply and the rollback of its journal. -/
def applyAndRollback (patches : List FilePatch) (grant : Option ApplyGrant) :
    FileProgram JournalFile (ApplyJournal × RollbackReport) := do
  let journal ← applyToTarget patches grant
  let report ← rollbackSource journal
  return (journal, report)

theorem exists_of_applyAndRollback {α : Type} (patches : List FilePatch) (grant : Option ApplyGrant)
    (s : Files JournalFile) {f : ApplyJournal → RollbackReport → Files JournalFile → α} {b : α}
    (h : (run (applyAndRollback patches grant) s).1.map (fun out =>
      f out.1 out.2 (run (applyAndRollback patches grant) s).2) = .ok b) :
    ∃ journal t report r, run (applyToTarget patches grant) s = (.ok journal, t) ∧
      run (rollbackSource journal) t = (.ok report, r) ∧ f journal report r = b := by
  obtain ⟨out, hrun, hb⟩ := exists_of_map_eq_ok h
  obtain ⟨journal, t, happly, hrest⟩ := bind_eq_ok.mp hrun
  obtain ⟨report, r, hrollback, hreturn⟩ := bind_eq_ok.mp hrest
  rw [run_pure] at hreturn
  obtain ⟨hout, hr⟩ := Prod.mk.inj hreturn
  rw [← Except.ok.inj hout, ← hr] at hb
  exact ⟨journal, t, report, r, happly, hrollback, hb⟩

/-- How the runs of the examples end: one patch, two patches to a file, a write that is refused, and
one that is torn. -/
theorem runs_oneFile :
    (run (applyToTarget [⟨"a", fileDigest [1], [2]⟩] (some ⟨"source_apply", "s", none⟩))
        (oneFile [])).1.map ApplyJournal.status = .ok "applied" ∧
      (let ran := run (applyAndRollback [⟨"a", fileDigest [1], [2]⟩, ⟨"a", fileDigest [1], [3]⟩]
          (some ⟨"source_apply", "s", none⟩)) (oneFile [])
       ran.1.map (fun out => (out.1.status, out.2.status, ran.2.bytes 0)) =
          .ok ("applied", "reconciling", [2])) ∧
      (run (applyToTarget [⟨"a", fileDigest [1], [2]⟩] (some ⟨"source_apply", "s", none⟩))
        (oneFile [some ⟨"No space left on device", [1]⟩])).1.map ApplyJournal.status =
          .ok "partial" ∧
      (let ran := run (applyAndRollback [⟨"a", fileDigest [1], [2, 2]⟩]
          (some ⟨"source_apply", "s", none⟩)) (oneFile [some ⟨"No space left on device", [2]⟩])
       ran.1.map (fun out => (out.1.status, out.2, ran.2.bytes 0)) =
          .ok ("partial", ⟨"rolled_back", [], [], false⟩, [2])) := by
  refine ⟨?_, ?_, ?_, ?_⟩ <;> decide +kernel

/-- A file that is patched once. -/
theorem rollback_inverse_iff_once : ∃ journal t,
    run (applyToTarget [⟨"a", fileDigest [1], [2]⟩] (some ⟨"source_apply", "s", none⟩))
        (oneFile []) = (.ok journal, t) ∧
      ((∃ report r, run (rollbackSource journal) { t with faults := [] } = (.ok report, r) ∧
          report.status = "rolled_back" ∧ r.node = (oneFile []).node ∧
          r.bytes = (oneFile []).bytes) ↔
        ∀ k, let posts := postimagesTo (oneFile []).target k [⟨"a", fileDigest [1], [2]⟩]
          let undone := posts.getLast?.getD ((oneFile []).bytes k) ::
            ((oneFile []).bytes k :: posts).dropLast
          posts.map fileDigest = undone.dropLast.map fileDigest ∧
            undone.getLast? = some ((oneFile []).bytes k)) := by
  obtain ⟨journal, hrun, hstatus⟩ := exists_of_map_eq_ok runs_oneFile.1
  exact ⟨journal, _, hrun, rollback_inverse_iff hrun hstatus⟩

/-- Two patches to a file are undone in the order of their writes: the first row no longer finds its
postimage, and the second brings back what the first patch wrote. -/
theorem not_rollback_inverse : ∃ journal t report r,
    run (applyToTarget [⟨"a", fileDigest [1], [2]⟩, ⟨"a", fileDigest [1], [3]⟩]
        (some ⟨"source_apply", "s", none⟩)) (oneFile []) = (.ok journal, t) ∧
      journal.status = "applied" ∧ run (rollbackSource journal) t = (.ok report, r) ∧
      report.status = "reconciling" ∧ r.bytes 0 = [2] ∧ (oneFile []).bytes 0 = [1] := by
  obtain ⟨journal, t, report, r, happly, hrollback, hout⟩ := exists_of_applyAndRollback
    [⟨"a", fileDigest [1], [2]⟩, ⟨"a", fileDigest [1], [3]⟩] (some ⟨"source_apply", "s", none⟩)
    (oneFile []) (f := fun journal report r => (journal.status, report.status, r.bytes 0))
    runs_oneFile.2.1
  simp only [Prod.mk.injEq] at hout
  exact ⟨journal, t, report, r, happly, hout.1, hrollback, hout.2.1, hout.2.2, rfl⟩

/-- **After an apply, a rollback restores or reports every file of the patches exactly when** each
file whose rows find their postimages in their order ends as it was. -/
theorem rollback_accounts_iff (happly : run (applyToTarget patches grant) s = (.ok journal, t)) :
    (∃ report r, run (rollbackSource journal) { t with faults := [] } = (.ok report, r) ∧
        ∀ patch ∈ patches, ∀ k, s.target patch.path = some k →
          r.bytes k = s.bytes k ∨ ∃ path ∈ report.conflictPreserved, s.target path = some k) ↔
      ∀ patch ∈ patches, ∀ k, s.target patch.path = some k → RowsMatch s patches k →
        (undoneContents s patches k).getLast? = some (s.bytes k) := by
  obtain ⟨report, r, hrun, -, hpreserved, -, hlast⟩ := run_apply_rollback happly
  have hfile (k : ℕ) : (r.bytes k = s.bytes k ∨
        ∃ path ∈ report.conflictPreserved, s.target path = some k) ↔
      (RowsMatch s patches k → (undoneContents s patches k).getLast? = some (s.bytes k)) := by
    rw [hpreserved]
    constructor
    · rintro (hbytes | hkept) hmatch
      · rw [hlast k hmatch, hbytes]
      · exact absurd hmatch hkept
    · intro hend
      by_cases hmatch : RowsMatch s patches k
      · exact .inl (Option.some.inj ((hlast k hmatch).symm.trans (hend hmatch)))
      · exact .inr hmatch
  simp only [← hfile]
  constructor
  · rintro ⟨report', r', hrun', hall⟩
    obtain ⟨hreport, rfl⟩ := Prod.mk.inj (hrun'.symm.trans hrun)
    obtain rfl := Except.ok.inj hreport
    exact hall
  · exact fun hall => ⟨report, r, hrun, hall⟩

/-- A file whose write raises before it has changed anything. -/
theorem rollback_accounts_iff_refused : ∃ journal t,
    run (applyToTarget [⟨"a", fileDigest [1], [2]⟩] (some ⟨"source_apply", "s", none⟩))
        (oneFile [some ⟨"No space left on device", [1]⟩]) = (.ok journal, t) ∧
      ((∃ report r, run (rollbackSource journal) { t with faults := [] } = (.ok report, r) ∧
          ∀ patch ∈ [FilePatch.mk "a" (fileDigest [1]) [2]], ∀ k,
            (oneFile [some ⟨"No space left on device", [1]⟩]).target patch.path = some k →
            r.bytes k = (oneFile [some ⟨"No space left on device", [1]⟩]).bytes k ∨
              ∃ path ∈ report.conflictPreserved,
                (oneFile [some ⟨"No space left on device", [1]⟩]).target path = some k) ↔
        ∀ patch ∈ [FilePatch.mk "a" (fileDigest [1]) [2]], ∀ k,
          (oneFile [some ⟨"No space left on device", [1]⟩]).target patch.path = some k →
          RowsMatch (oneFile [some ⟨"No space left on device", [1]⟩])
              [⟨"a", fileDigest [1], [2]⟩] k →
            (undoneContents (oneFile [some ⟨"No space left on device", [1]⟩])
                [⟨"a", fileDigest [1], [2]⟩] k).getLast? =
              some ((oneFile [some ⟨"No space left on device", [1]⟩]).bytes k)) := by
  obtain ⟨journal, hrun, -⟩ := exists_of_map_eq_ok runs_oneFile.2.2.1
  exact ⟨journal, _, hrun, rollback_accounts_iff hrun⟩

/-- The only write is torn: the rollback reports that everything is rolled back. -/
theorem not_rollback_accounts : ∃ journal t report r,
    run (applyToTarget [⟨"a", fileDigest [1], [2, 2]⟩] (some ⟨"source_apply", "s", none⟩))
        (oneFile [some ⟨"No space left on device", [2]⟩]) = (.ok journal, t) ∧
      journal.status = "partial" ∧ run (rollbackSource journal) t = (.ok report, r) ∧
      report = ⟨"rolled_back", [], [], false⟩ ∧ r.bytes 0 = [2] ∧ (oneFile []).bytes 0 = [1] := by
  obtain ⟨journal, t, report, r, happly, hrollback, hout⟩ := exists_of_applyAndRollback
    [⟨"a", fileDigest [1], [2, 2]⟩] (some ⟨"source_apply", "s", none⟩)
    (oneFile [some ⟨"No space left on device", [2]⟩])
    (f := fun journal report r => (journal.status, report, r.bytes 0)) runs_oneFile.2.2.2
  simp only [Prod.mk.injEq] at hout
  exact ⟨journal, t, report, r, happly, hout.1, hrollback, hout.2.1, hout.2.2, rfl⟩

end

end Kernel

end CyranoAgent
