import CyranoAgent.Kernel.Patches
import CyranoAgent.Lib.Stops

/-!
# Crashes of an apply, and the journals of earlier ones

The journal of an apply is written after all its patches, under a name made of the subject and the
paths. So a crash finds files changed whose preimages no journal holds, and a later apply of the
same subject and paths replaces the journal of an earlier one.

A `SourceDesk` is the files with the journals of the applies that were not rolled back. Its
operations are applies and rollbacks, stopped anywhere and with any faults, and edits by others.
`Guarded` is what an apply would have to find: every preimage in another journal, and no journal
under its own name. In runs whose applies are guarded, journals are kept and every change is
recorded (`changes_held_of_guarded`); an apply that is not guarded can be stopped where this fails
(`guarded_of_changes_held`).
-/

namespace CyranoAgent

namespace Kernel

open Lib FileProgram

/-! ### Where the programs write -/

section

variable {grant : ApplyGrant} {patches patches' : List FilePatch} {s t : Files JournalFile}

/-- Operations that write nothing. -/
def Reads : FileOp JournalFile → Prop
  | .isSymlink _ | .fileExists _ | .read _ | .journalCount | .readJournal _ => True
  | _ => False

/-- Operations that read, write to a file of the patches, or write the journal of this name. -/
def WritesOf (patches : List FilePatch) (name : String) : FileOp JournalFile → Prop
  | .write parts _ => ∃ patch ∈ patches, parts = pathParts patch.path
  | .openJournal other | .fillJournal other _ => other = name
  | _ => True

/-- Operations that leave the journals alone. -/
def SparesJournals : FileOp JournalFile → Prop
  | .openJournal _ | .fillJournal _ _ => False
  | _ => True

theorem perform_reads {op : FileOp JournalFile} (h : Reads op) (s : Files JournalFile) :
    ((fileAct op).run s).2 = s := by
  cases op <;> first | rfl | exact h.elim

/-- What the operations of an apply leave alone: names, other files, and other journals. -/
structure Around (s : Files JournalFile) (patches : List FilePatch) (name : String)
    (t : Files JournalFile) : Prop where
  node : t.node = s.node
  bytes : ∀ k, (∀ patch ∈ patches, s.target patch.path ≠ some k) → t.bytes k = s.bytes k
  journals : ∀ other, other ≠ name → t.journal? other = s.journal? other

theorem around_refl (s : Files JournalFile) (patches : List FilePatch) (name : String) :
    Around s patches name s :=
  ⟨rfl, fun _ _ => rfl, fun _ _ => rfl⟩

theorem Around.perform {name : String} {op : FileOp JournalFile} (hop : WritesOf patches name op)
    (h : Around s patches name t) : Around s patches name ((fileAct op).run t).2 := by
  cases op with
  | write parts data =>
    obtain ⟨patch, hpatch, rfl⟩ := hop
    change Around s patches name ((FileOp.write (pathParts patch.path) data).perform t).2
    rw [FileOp.perform]
    rcases hid : (t.node (pathParts patch.path)).file? with _ | id
    · exact h
    · refine ⟨h.node, fun k hk => ?_, h.journals⟩
      have hne : k ≠ id := by
        rintro rfl
        rw [h.node] at hid
        exact hk patch hpatch hid
      rw [← h.bytes k hk]
      exact Function.update_of_ne hne _ _
  | openJournal other =>
    obtain rfl : other = name := hop
    refine ⟨h.node, h.bytes, fun name hname => ?_⟩
    change (t.putJournal other none).journal? name = _
    rw [Files.journal?_putJournal, if_neg hname, h.journals name hname]
  | fillJournal other file =>
    obtain rfl : other = name := hop
    refine ⟨h.node, h.bytes, fun name hname => ?_⟩
    change (t.putJournal other (some file)).journal? name = _
    rw [Files.journal?_putJournal, if_neg hname, h.journals name hname]
  | _ => exact h

theorem SparesJournals.perform {op : FileOp JournalFile} (h : SparesJournals op)
    (s : Files JournalFile) : ((fileAct op).run s).2.journals = s.journals := by
  cases op with
  | write parts data =>
    change ((FileOp.write parts data).perform s).2.journals = _
    rw [FileOp.perform]
    rcases (s.node parts).file? <;> rfl
  | openJournal | fillJournal => exact h.elim
  | _ => rfl

/-! ### What the programs perform -/

/-- The checks only read. -/
theorem performs_checks : Program.Performs Reads (patches.forM (checkPatch grant)) := by
  refine Program.performs_forM fun patch _ => ?_
  refine Program.performs_done.bind fun _ => Program.performs_raiseIf.bind fun _ => ?_
  refine Program.Performs.bind ⟨trivial, fun _ => trivial⟩ fun _ => ?_
  refine Program.performs_raiseIf.bind fun _ => ?_
  refine Program.Performs.bind ⟨trivial, fun _ => trivial⟩ fun _ => ?_
  refine Program.performs_raiseIf.bind fun _ => ?_
  exact Program.Performs.bind ⟨trivial, fun _ => trivial⟩ fun _ => Program.performs_raiseIf

/-- The writes are to the files of the patches. -/
theorem performs_writePatches {name : String} (hsub : ∀ patch ∈ patches, patch ∈ patches') :
    Program.Performs (WritesOf patches' name) (writePatches patches) := by
  induction patches with
  | nil => trivial
  | cons patch patches ih =>
    rw [List.forall_mem_cons] at hsub
    refine Program.Performs.bind (.bind ⟨trivial, fun _ => trivial⟩ fun _ => ?_) fun _ => ?_
    · exact .bind ⟨⟨patch, hsub.1, rfl⟩, fun _ => trivial⟩ fun _ => trivial
    · exact (ih hsub.2).bind fun _ => trivial

/-- A rollback leaves the journals alone. -/
theorem performs_rollbackSource (journal : ApplyJournal) :
    Program.Performs SparesJournals (rollbackSource journal) := by
  have hrows (rows : List JournalRow) : Program.Performs SparesJournals (rollbackRows rows) := by
    induction rows with
    | nil => trivial
    | cons row rows ih =>
      rw [rollbackRows]
      split
      · exact ih
      · refine Program.Performs.bind ⟨trivial, fun _ => trivial⟩ fun _ => ?_
        split
        · exact ih.bind fun _ => trivial
        · exact .bind ⟨trivial, fun _ => trivial⟩ fun _ => ih.bind fun _ => trivial
  refine Program.Performs.bind ⟨trivial, fun _ => trivial⟩ fun file => ?_
  refine (hrows file.files).bind fun _ => ?_
  dsimp only
  split <;> trivial

/-! ### Where an apply stops -/

/-- The grant is for a source apply, and all patches pass the checks. -/
def Admitted (s : Files JournalFile) (patches : List FilePatch) (grant : Option ApplyGrant)
    (g : ApplyGrant) : Prop :=
  grant = some g ∧ g.purpose = "source_apply" ∧ ∀ patch ∈ patches, Passes s g patch

/-- **An apply that is stopped has changed nothing, or it is admitted and keeps to its own.** -/
theorem stopped_applyToTarget (patches : List FilePatch) (grant : Option ApplyGrant)
    (s : Files JournalFile) (n : ℕ) :
    (Program.stopped fileAct n (applyToTarget patches grant) s).2 = s ∨
      ∃ g, Admitted s patches grant g ∧
        Around s patches (journalName (applyJournalId g patches))
          (Program.stopped fileAct n (applyToTarget patches grant) s).2 := by
  rcases grant with _ | g
  · left
    rw [applyToTarget, Program.raise, Program.stopped_done]
  rw [applyToTarget]
  by_cases hpurpose : g.purpose = "source_apply"
  swap
  · left
    rw [Program.raiseIf, if_pos hpurpose]
    change (Program.stopped fileAct n (.done (.error _)) s).2 = s
    rw [Program.stopped_done]
  rw [Program.raiseIf, if_neg (not_not.mpr hpurpose)]
  change (Program.stopped fileAct n (applyGranted patches g) s).2 = s ∨ _
  rw [applyGranted]
  rcases Program.stopped_bind_cases (patches.forM (checkPatch g)) _ s n with
    hstop | ⟨m, u, t, hrun, hstop⟩
  · left
    rw [hstop]
    refine Program.stopped_inv (I := (· = s)) performs_checks ?_ rfl n
    rintro op _ hop rfl
    exact perform_reads hop _
  · obtain ⟨hpasses, rfl⟩ := run_checkPatches.mp hrun
    refine .inr ⟨g, ⟨rfl, hpurpose, hpasses⟩, ?_⟩
    change Around s patches _ (Program.stopped fileAct n (applyGranted patches g) s).2
    rw [applyGranted, hstop]
    refine Program.stopped_inv (A := WritesOf patches (journalName (applyJournalId g patches)))
      (.bind (performs_writePatches fun _ hpatch => hpatch) fun rows => ?_)
      (fun op t hop h => h.perform hop) (around_refl _ _ _) m
    exact .bind ⟨rfl, fun _ => ⟨rfl, fun _ => trivial⟩⟩ fun _ => trivial

end

/-! ### The desk -/

/-- Files, and the journals of the applies that were not rolled back. -/
structure SourceDesk where
  files : Files JournalFile
  unrolled : List (String × JournalFile) := []

/-- What happens to the files: applies and rollbacks, with faults and stopped after some operations
unless they end before, and edits by others. -/
inductive SourceOp
  | apply (patches : List FilePatch) (grant : Option ApplyGrant)
      (faults : List (Option TornWrite)) (stop : ℕ)
  | rollback (journal : ApplyJournal) (faults : List (Option TornWrite)) (stop : ℕ)
  | edit (id : ℕ) (content : Bytes)

namespace SourceDesk

/-- The journal of an apply that came to its end. -/
def journalOf (p : FileProgram JournalFile ApplyJournal) (s : Files JournalFile) :
    Option (String × JournalFile) :=
  match p with
  | .done (.ok journal) => (s.journal? journal.path).map (journal.path, ·)
  | _ => none

/-- A rollback came to its end, and restored everything. -/
def IsRolledBack (p : FileProgram JournalFile RollbackReport) : Bool :=
  match p with
  | .done (.ok report) => report.status = "rolled_back"
  | _ => false

/-- Perform an operation. -/
def act : SourceOp → SourceDesk → Unit × SourceDesk
  | .apply patches grant faults stop, d =>
    let out := Program.stopped fileAct stop (applyToTarget patches grant)
      { d.files with faults := faults }
    ((), ⟨out.2, (journalOf out.1 out.2).toList ++ d.unrolled⟩)
  | .rollback journal faults stop, d =>
    let out := Program.stopped fileAct stop (rollbackSource journal)
      { d.files with faults := faults }
    ((), ⟨out.2, if IsRolledBack out.1 = true then
        d.unrolled.filter fun entry => entry.1 ≠ journal.path
      else d.unrolled⟩)
  | .edit id content, d =>
    ((), { d with files := { d.files with bytes := Function.update d.files.bytes id content } })

/-- The journals of the applies that were not rolled back are as these left them. -/
def JournalsKept (d : SourceDesk) : Prop :=
  ∀ entry ∈ d.unrolled, d.files.journal? entry.1 = some entry.2

instance (d : SourceDesk) : Decidable d.JournalsKept :=
  inferInstanceAs (Decidable (∀ entry ∈ d.unrolled, d.files.journal? entry.1 = some entry.2))

end SourceDesk

/-- A journal other than this one holds these contents of a file, as those before a write. -/
def HeldBeside (s : Files JournalFile) (name : String) (k : ℕ) (content : Bytes) : Prop :=
  ∃ other file, other ≠ name ∧ s.journal? other = some file ∧
    ∃ row ∈ file.files, s.target row.path = some k ∧ row.preimage = content

/-- A journal holds these contents of a file, as those before a write. -/
def Held (s : Files JournalFile) (k : ℕ) (content : Bytes) : Prop :=
  ∃ other file, s.journal? other = some file ∧
    ∃ row ∈ file.files, s.target row.path = some k ∧ row.preimage = content

/-- The files that differ are held as they were. -/
def ChangesHeld (s t : Files JournalFile) : Prop :=
  ∀ k, t.bytes k ≠ s.bytes k → Held t k (s.bytes k)

/-- An apply finds every file of its patches in another journal as it is, and no journal under its
name that is still needed. -/
def Guarded (d : SourceDesk) : SourceOp → Prop
  | .apply patches grant _ _ => ∀ g, Admitted d.files patches grant g →
    (∀ patch ∈ patches, ∀ k, d.files.target patch.path = some k →
      HeldBeside d.files (journalName (applyJournalId g patches)) k (d.files.bytes k)) ∧
    ∀ entry ∈ d.unrolled, entry.1 ≠ journalName (applyJournalId g patches)
  | _ => True

/-- A patch of the file `a`, for examples. -/
def onePatch : List FilePatch := [⟨"a", fileDigest [1], [2]⟩]

/-- A grant, for examples. -/
def oneGrant : ApplyGrant := ⟨"source_apply", "s", none⟩

/-- The file `a`, which a journal holds, for examples. -/
def heldDesk : SourceDesk where
  files := { oneFile [] with
    journals := [("apply-0.json",
      some ⟨"applied", [⟨"a", fileDigest [1], [1], fileDigest [1], "applied", none⟩]⟩)] }
  unrolled := [("apply-0.json",
    ⟨"applied", [⟨"a", fileDigest [1], [1], fileDigest [1], "applied", none⟩]⟩)]

section

variable {patches : List FilePatch} {grant : Option ApplyGrant} {d d₀ : SourceDesk}

theorem journal?_of_mem_journalOf {p : FileProgram JournalFile ApplyJournal}
    {s : Files JournalFile} {entry : String × JournalFile}
    (h : entry ∈ (SourceDesk.journalOf p s).toList) : s.journal? entry.1 = some entry.2 := by
  rw [Option.mem_toList] at h
  rcases p with ⟨_ | journal⟩ | ⟨op, next⟩
  · cases h
  · obtain ⟨file, hfile, rfl⟩ := Option.map_eq_some_iff.mp h
    exact hfile
  · cases h

theorem admitted_withFaults {s : Files JournalFile} {g : ApplyGrant}
    (faults : List (Option TornWrite)) :
    Admitted { s with faults := faults } patches grant g ↔ Admitted s patches grant g :=
  and_congr_right fun _ => and_congr_right fun _ => forall₂_congr fun _ _ =>
    ⟨fun h => ⟨h.path, h.approved, h.file⟩, fun h => ⟨h.path, h.approved, h.file⟩⟩

/-- A guarded apply keeps the journals and holds what it has changed, wherever it is stopped. -/
theorem act_apply {faults : List (Option TornWrite)} {stop : ℕ}
    (hguard : Guarded d (.apply patches grant faults stop)) (hkept : d.JournalsKept) :
    (SourceDesk.act (.apply patches grant faults stop) d).2.JournalsKept ∧
      ChangesHeld d.files (SourceDesk.act (.apply patches grant faults stop) d).2.files := by
  rcases stopped_applyToTarget patches grant { d.files with faults := faults } stop with
    hstop | ⟨g, hadmitted, hstop⟩
  · constructor
    · intro entry hentry
      rcases List.mem_append.mp hentry with hnew | hold
      · exact journal?_of_mem_journalOf hnew
      · change Files.journal? (Program.stopped _ _ _ _).2 _ = _
        rw [hstop]
        exact hkept entry hold
    · intro k hk
      change Files.bytes (Program.stopped _ _ _ _).2 k ≠ _ at hk
      rw [hstop] at hk
      exact absurd rfl hk
  · obtain ⟨hheld, hfree⟩ := hguard g ((admitted_withFaults faults).mp hadmitted)
    constructor
    · intro entry hentry
      rcases List.mem_append.mp hentry with hnew | hold
      · exact journal?_of_mem_journalOf hnew
      · exact (hstop.journals entry.1 (hfree entry hold)).trans (hkept entry hold)
    · intro k hk
      by_cases htarget : ∃ patch ∈ patches, d.files.target patch.path = some k
      · obtain ⟨patch, hpatch, htarget⟩ := htarget
        obtain ⟨other, file, hother, hfile, row, hrow, hcell, hcontent⟩ :=
          hheld patch hpatch k htarget
        refine ⟨other, file, (hstop.journals other hother).trans hfile, row, hrow, ?_, hcontent⟩
        change (Node.file? (Files.node (Program.stopped _ _ _ _).2 _)) = _
        rw [hstop.node]
        exact hcell
      · push Not at htarget
        exact absurd (hstop.bytes k htarget) hk

theorem act_rollback {journal : ApplyJournal} {faults : List (Option TornWrite)} {stop : ℕ}
    (hkept : d.JournalsKept) :
    (SourceDesk.act (.rollback journal faults stop) d).2.JournalsKept := by
  have hjournals : (Program.stopped fileAct stop (rollbackSource journal)
      { d.files with faults := faults }).2.journals = d.files.journals :=
    Program.stopped_inv (I := fun t => t.journals = d.files.journals)
      (performs_rollbackSource journal) (fun op t hop ht => (hop.perform t).trans ht)
      (s := { d.files with faults := faults }) rfl stop
  intro entry hentry
  have hold : entry ∈ d.unrolled := by
    change entry ∈ (if _ then _ else d.unrolled) at hentry
    split at hentry
    · exact List.mem_of_mem_filter hentry
    · exact hentry
  rw [← hkept entry hold]
  change Files.journal? (Program.stopped _ _ _ _).2 _ = _
  rw [Files.journal?, hjournals, Files.journal?]

/-- **In every run whose applies are guarded, the journals of the applies that were not rolled back
are kept, and wherever an apply is stopped the files it has changed are held as they were.** -/
theorem changes_held_of_guarded {h : List (Entry SourceDesk SourceOp Unit)}
    (hrun : Run SourceDesk.act d₀ h d) (hkept : d₀.JournalsKept)
    (hguarded : ∀ e ∈ h, Guarded e.before e.op) :
    d.JournalsKept ∧ ∀ e ∈ h, ∀ patches grant faults stop,
      e.op = .apply patches grant faults stop → ChangesHeld e.before.files e.after.files := by
  have hstep (e) (he : e ∈ h) : e.after = (SourceDesk.act e.op e.before).2 :=
    congrArg Entry.after (hrun.eq_perform he)
  obtain ⟨hlast, hall⟩ := hrun.inv_entries (I := SourceDesk.JournalsKept) hkept
    fun h₁ e h₂ heq _ hbefore => by
      have he : e ∈ h := by simp [heq]
      have hguard := hguarded e he
      rw [hstep e he]
      rcases hop : e.op with
        ⟨patches, grant, faults, stop⟩ | ⟨journal, faults, stop⟩ | ⟨id, content⟩
      · rw [hop] at hguard
        exact (act_apply hguard hbefore).1
      · exact act_rollback hbefore
      · exact hbefore
  refine ⟨hlast, fun e he patches grant faults stop hop => ?_⟩
  have hguard := hguarded e he
  rw [hop] at hguard
  rw [hstep e he, hop]
  exact (act_apply hguard (hall e he).1).2

/-- An apply that finds its file in the journal of another, stopped in the middle. -/
theorem changes_held_of_guarded_once :
    (exec SourceDesk.act heldDesk [.apply onePatch (some oneGrant) [] 5]).2.JournalsKept ∧
      ∀ e ∈ (exec SourceDesk.act heldDesk [.apply onePatch (some oneGrant) [] 5]).1,
        ∀ patches grant faults stop, e.op = .apply patches grant faults stop →
          ChangesHeld e.before.files e.after.files := by
  refine changes_held_of_guarded (run_exec _ _ _) (by decide +kernel) fun e he => ?_
  obtain rfl := List.mem_singleton.mp he
  rintro g ⟨hg, -, -⟩
  obtain rfl := Option.some.inj hg
  refine ⟨fun patch hpatch k hk => ?_, by decide +kernel⟩
  obtain rfl := List.mem_singleton.mp hpatch
  obtain rfl : 0 = k := Option.some.inj hk
  exact ⟨"apply-0.json", _, by decide +kernel, rfl, _, List.mem_singleton_self _, rfl, rfl⟩

/-- The one name leads to the one file. -/
example : (oneFile []).target "a" = some 0 ∧ (oneFile []).target "b" = none := by decide +kernel

/-- A crash after the first write: the file has changed, and there is no journal at all. And of two
applies of one subject and path, the second replaces the journal of the first. -/
theorem not_changes_held :
    ¬ChangesHeld (oneFile [])
        (Program.stopped fileAct 5 (applyToTarget onePatch (some oneGrant)) (oneFile [])).2 ∧
      ¬(exec SourceDesk.act ⟨oneFile [], []⟩ [.apply onePatch (some oneGrant) [] 20,
        .apply [⟨"a", fileDigest [2], [3]⟩] (some oneGrant) [] 20]).2.JournalsKept := by
  refine ⟨fun hheld => ?_, by decide +kernel⟩
  obtain ⟨other, file, hfile, -⟩ := hheld 0 (by decide +kernel)
  have hnone : (Program.stopped fileAct 5 (applyToTarget onePatch (some oneGrant))
      (oneFile [])).2.journals.length = 0 := by decide +kernel
  rw [Files.journal?, List.eq_nil_of_length_eq_zero hnone] at hfile
  cases hfile

/-! ### Applies that are not guarded -/

/-- An admitted apply can be stopped between the two operations that write its journal. -/
theorem exists_stop_open {s : Files JournalFile} {g : ApplyGrant}
    (hadmitted : Admitted s patches grant g) :
    ∃ n rows u, Written s patches rows u ∧
      (Program.stopped fileAct n (applyToTarget patches grant) s).2 =
        u.putJournal (journalName (applyJournalId g patches)) none := by
  obtain ⟨rfl, hpurpose, hpasses⟩ := hadmitted
  obtain ⟨rows, u, hwrites, hwritten⟩ := run_writePatches fun patch hpatch =>
    (hpasses patch hpatch).isSome_target
  have hchecks : run (patches.forM (checkPatch g)) s = (.ok PUnit.unit, s) :=
    run_checkPatches.mpr ⟨hpasses, rfl⟩
  obtain ⟨m, hm⟩ := Program.exists_stopped_bind (fun _ : PUnit => do
    let rows ← writePatches patches
    writeJournal (journalName (applyJournalId g patches)) ⟨applyStatus rows, rows⟩
    return (⟨applyJournalId g patches, applyStatus rows, rows.map JournalRow.entry,
      journalName (applyJournalId g patches)⟩ : ApplyJournal)) hchecks
  obtain ⟨n, hn⟩ := Program.exists_stopped_bind (fun rows => do
    writeJournal (journalName (applyJournalId g patches)) ⟨applyStatus rows, rows⟩
    return (⟨applyJournalId g patches, applyStatus rows, rows.map JournalRow.entry,
      journalName (applyJournalId g patches)⟩ : ApplyJournal)) hwrites
  refine ⟨m + (n + 1), rows, u, hwritten, ?_⟩
  rw [applyToTarget, Program.raiseIf, if_neg (not_not.mpr hpurpose)]
  change (Program.stopped fileAct (m + (n + 1)) (applyGranted patches g) s).2 = _
  have hstop := (hm (n + 1)).trans (hn 1)
  exact congrArg Prod.snd hstop

/-- Where every write raises, the files of the patches hold what it leaves. -/
theorem leaves_torn {target : String → Option ℕ} {k : ℕ} (torn : TornWrite) (a : Bytes)
    (patches : List FilePatch) :
    UndoRow.leaves a (writesTo target k (List.replicate patches.length (some torn)) patches) =
      if ∃ patch ∈ patches, target patch.path = some k then torn.left else a := by
  induction patches generalizing a with
  | nil => simp [writesTo, UndoRow.leaves]
  | cons patch patches ih =>
    rw [List.length_cons, List.replicate_succ, writesTo]
    by_cases hk : target patch.path = some k
    · simp [hk, UndoRow.leaves_cons, ih]
    · simp [hk, ih]

/-- An admitted apply whose writes all raise, stopped while its journal is torn. -/
theorem exists_torn {g : ApplyGrant} (hadmitted : Admitted d.files patches grant g)
    (torn : TornWrite) :
    ∃ faults stop t, SourceDesk.act (.apply patches grant faults stop) d = ((), t) ∧
      t.files.target = d.files.target ∧
      (∀ name, t.files.journal? name =
        if name = journalName (applyJournalId g patches) then none else d.files.journal? name) ∧
      (∀ k, (∃ patch ∈ patches, d.files.target patch.path = some k) →
        t.files.bytes k = torn.left) ∧
      ∀ entry ∈ d.unrolled, entry ∈ t.unrolled := by
  obtain ⟨stop, rows, u, hwritten, hstop⟩ := exists_stop_open
    ((admitted_withFaults (List.replicate patches.length (some torn))).mpr hadmitted)
  refine ⟨List.replicate patches.length (some torn), stop, _, rfl, ?_, fun name => ?_,
    fun k hk => ?_, ?_⟩
  · change Files.target (Program.stopped _ _ _ _).2 = _
    rw [hstop]
    exact funext fun path => congrArg (fun node : List String → Node =>
      (node (pathParts path)).file?) hwritten.node
  · change Files.journal? (Program.stopped _ _ _ _).2 _ = _
    rw [hstop, Files.journal?_putJournal]
    refine if_congr Iff.rfl rfl ?_
    rw [Files.journal?, hwritten.journals, Files.journal?]
  · change Files.bytes (Program.stopped _ _ _ _).2 k = _
    rw [hstop]
    refine (hwritten.bytes k).trans ((leaves_torn torn _ patches).trans (if_pos hk))
  · exact fun entry hentry => List.mem_append_right _ hentry

/-- **An apply is guarded if it keeps the journals and holds what it has changed**, wherever it is
stopped and with any faults. -/
theorem guarded_of_changes_held
    (h : ∀ faults stop, (SourceDesk.act (.apply patches grant faults stop) d).2.JournalsKept ∧
      ChangesHeld d.files (SourceDesk.act (.apply patches grant faults stop) d).2.files)
    (faults : List (Option TornWrite)) (stop : ℕ) :
    Guarded d (.apply patches grant faults stop) := by
  intro g hadmitted
  constructor
  · intro patch hpatch k hk
    obtain ⟨faults, stop, t, hact, htarget, hjournals, hbytes, -⟩ :=
      exists_torn hadmitted ⟨"", 0 :: d.files.bytes k⟩
    obtain ⟨-, hheld⟩ := h faults stop
    rw [hact] at hheld
    obtain ⟨other, file, hfile, row, hrow, hcell, hcontent⟩ := hheld k (by
      rw [hbytes k ⟨patch, hpatch, hk⟩]
      exact List.cons_ne_self _ _)
    rw [hjournals] at hfile
    split at hfile
    · cases hfile
    · next hother =>
      exact ⟨other, file, hother, hfile, row, hrow, by rwa [← htarget], hcontent⟩
  · intro entry hentry heq
    obtain ⟨faults, stop, t, hact, -, hjournals, -, hunrolled⟩ :=
      exists_torn hadmitted ⟨"", []⟩
    obtain ⟨hkept, -⟩ := h faults stop
    rw [hact] at hkept
    have hlost := hkept entry (hunrolled entry hentry)
    rw [hjournals, if_pos heq] at hlost
    cases hlost

end

end Kernel

end CyranoAgent
