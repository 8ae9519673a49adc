import CyranoAgent.Kernel.AnchoredEdit
import CyranoAgent.Lib.Firsts

/-!
# Hunks that are accepted, and edits made at once

A patch that `validate_patch` accepts has hunks of ranges of the snapshot, which may overlap. On the
unchanged files `apply_candidate` makes the edits of each file from the last to the first
(`run_applyCandidate_unchanged`), which are edits made at once exactly where the hunks of a file are
apart and no insertion stands in front of a hunk with the same start (`made_at_once_iff`).
-/

namespace CyranoAgent

namespace Kernel

open Lib FileProgram

/-! ### Hunks as edits -/

/-- The edit of a hunk of a validated range. -/
def EditHunk.edit (hunk : EditHunk) : Edit UInt8 :=
  ⟨hunk.anchor.start.toNat, hunk.anchor.stop.toNat, hunk.replacement⟩

/-- The path and the range of a hunk. -/
def EditHunk.place (hunk : EditHunk) : String × ℤ × ℤ :=
  (hunk.anchor.path, hunk.anchor.start, hunk.anchor.stop)

/-- A hunk passes `validate_patch`. -/
structure Accepted (snapshot : List (String × Bytes)) (hunk : EditHunk) : Prop where
  path : checkPath hunk.anchor.path = .ok ()
  range : ∃ content, snapshot.lookup hunk.anchor.path = some content ∧ 0 ≤ hunk.anchor.start ∧
    hunk.anchor.start ≤ hunk.anchor.stop ∧ hunk.anchor.stop ≤ content.length ∧
    fileDigest (byteSlice content hunk.anchor.start hunk.anchor.stop) = hunk.anchor.expectedDigest

section

variable {snapshot : List (String × Bytes)} {hunk : EditHunk} {hunks hunks' : List EditHunk}

theorem validateHunk_eq_ok {u : Unit} :
    validateHunk snapshot hunk = .ok u ↔ Accepted snapshot hunk := by
  rw [validateHunk]
  constructor
  · intro h
    rcases hpath : checkPath hunk.anchor.path with _ | ⟨⟩ <;> rw [hpath] at h
    · cases h
    rcases hlookup : snapshot.lookup hunk.anchor.path with _ | content <;> rw [hlookup] at h
    · cases h
    change (rangeDigest content hunk.anchor.start hunk.anchor.stop >>= _) = _ at h
    rw [rangeDigest] at h
    split at h
    · cases h
    next hrange =>
    push Not at hrange
    change (if _ then _ else _) = _ at h
    split at h
    · cases h
    next hdigest =>
    exact ⟨hpath, content, hlookup, hrange.1, hrange.2.2, hrange.2.1, not_not.mp hdigest⟩
  · rintro ⟨hpath, content, hlookup, hstart, hle, hstop, hdigest⟩
    rw [hpath, hlookup]
    change (rangeDigest content hunk.anchor.start hunk.anchor.stop >>= _) = _
    rw [rangeDigest, if_neg (by omega)]
    change (if _ then _ else _) = _
    rw [if_neg (not_not.mpr hdigest)]

theorem validatePatch_eq_ok {u : Unit} :
    validatePatch hunks snapshot = .ok u ↔ ∀ hunk ∈ hunks, Accepted snapshot hunk := by
  rw [validatePatch]
  induction hunks with
  | nil => exact iff_of_true rfl (by simp)
  | cons hunk hunks ih =>
    change (validateHunk snapshot hunk >>= fun _ => hunks.forM (validateHunk snapshot)) = _ ↔ _
    rw [List.forall_mem_cons, ← ih, ← validateHunk_eq_ok (u := ())]
    rcases validateHunk snapshot hunk with _ | ⟨⟩
    · simp [bind, Except.bind]
    · exact ⟨fun h => ⟨rfl, h⟩, And.right⟩

theorem take_sliceIndex (content : Bytes) {i : ℤ} (hi : 0 ≤ i) :
    content.take (sliceIndex content.length i) = content.take i.toNat := by
  rw [sliceIndex, if_neg (not_lt.mpr hi), List.take_eq_take_iff, min_assoc, min_self]

theorem drop_sliceIndex (content : Bytes) {i : ℤ} (hi : 0 ≤ i) :
    content.drop (sliceIndex content.length i) = content.drop i.toNat := by
  rw [sliceIndex, if_neg (not_lt.mpr hi)]
  rcases le_total i.toNat content.length with hle | hle
  · rw [min_eq_left hle]
  · rw [min_eq_right hle, List.drop_length, List.drop_eq_nil_of_le hle]

/-- Hunks of ranges that count from the start are edits. -/
theorem applyHunks_eq_applyEdits (content : Bytes)
    (h : ∀ hunk ∈ hunks, 0 ≤ hunk.anchor.start ∧ 0 ≤ hunk.anchor.stop) :
    applyHunks content hunks = Edit.applyEdits content (hunks.map EditHunk.edit) := by
  have hsort := List.map_insertionSort (r := fun a b : EditHunk => b.anchor.start ≤ a.anchor.start)
    (s := fun a b : Edit UInt8 => b.start ≤ a.start) EditHunk.edit hunks fun a ha b hb => by
      have hleft := (h a ha).1
      have hright := (h b hb).1
      simp only [EditHunk.edit]
      omega
  rw [Edit.applyEdits, Edit.descending, ← hsort, List.foldl_map, applyHunks]
  have hsorted : ∀ hunk ∈ hunks.insertionSort fun a b => b.anchor.start ≤ a.anchor.start,
      0 ≤ hunk.anchor.start ∧ 0 ≤ hunk.anchor.stop :=
    fun hunk hhunk => h hunk ((List.mem_insertionSort _).mp hhunk)
  generalize hunks.insertionSort (fun a b => b.anchor.start ≤ a.anchor.start) = sorted at hsorted ⊢
  induction sorted generalizing content with
  | nil => rfl
  | cons hunk sorted ih =>
    rw [List.forall_mem_cons] at hsorted
    rw [List.foldl_cons, List.foldl_cons, ih _ hsorted.2, applyHunk,
      take_sliceIndex _ hsorted.1.1, drop_sliceIndex _ hsorted.1.2]
    rfl

end

/-! ### The unchanged files -/

section

variable {snapshot : List (String × Bytes)} {hunks hunks' : List EditHunk}
  {s : Files EditJournal} {k : ℕ}

/-- The files are those of the snapshot, and writes to them do not raise. -/
structure Unchanged (s : Files EditJournal) (snapshot : List (String × Bytes)) : Prop where
  files : ∀ path content, snapshot.lookup path = some content →
    ∃ id, s.node (pathParts path) = .file id ∧ s.bytes id = content
  faults : s.faults = []

/-- The `preimage_digests` of a snapshot. -/
def preimages (snapshot : List (String × Bytes)) : List (String × String) :=
  snapshot.map fun entry => (entry.1, fileDigest entry.2)

/-- Each file goes by one name among the hunks. -/
def OneName (s : Files EditJournal) (hunks : List EditHunk) : Prop :=
  ∀ a ∈ hunks, ∀ b ∈ hunks, s.target a.anchor.path = s.target b.anchor.path →
    a.anchor.path = b.anchor.path

/-- The hunks of a file. -/
def hunksOf (s : Files EditJournal) (hunks : List EditHunk) (k : ℕ) : List EditHunk :=
  hunks.filter fun hunk => s.target hunk.anchor.path = some k

/-- The edits of a file. -/
def editsOf (s : Files EditJournal) (hunks : List EditHunk) (k : ℕ) : List (Edit UInt8) :=
  (hunksOf s hunks k).map EditHunk.edit

theorem lookup_preimages {path : String} {content : Bytes}
    (h : snapshot.lookup path = some content) :
    (preimages snapshot).lookup path = some (fileDigest content) := by
  induction snapshot with
  | nil => cases h
  | cons entry snapshot ih =>
    rw [List.lookup_cons] at h
    rw [preimages, List.map_cons, List.lookup_cons]
    rcases hkey : path == entry.1 <;> rw [hkey] at h
    · exact ih h
    · exact congrArg (some <| fileDigest ·) (Option.some.inj h)

/-- Paths of different files are cleared in turn when each is cleared by itself, and each file gets
the edits of its path. -/
theorem clearedInTurn_paths {node : List String → Node} {digests : List (String × String)}
    {paths : List String} {c : ℕ → Bytes} (f : String → List EditHunk) (hnodup : paths.Nodup)
    (hcleared : ∀ path ∈ paths, Cleared node digests c path)
    (hone : ∀ path ∈ paths, ∀ other ∈ paths,
      (node (pathParts path)).file? = (node (pathParts other)).file? → path = other) :
    ClearedInTurn node digests c [] (paths.map fun path => (path, f path)) ∧
      ∀ k, (∀ path ∈ paths, (node (pathParts path)).file? = some k →
          edited node c (paths.map fun path => (path, f path)) k = applyHunks (c k) (f path)) ∧
        ((∀ path ∈ paths, (node (pathParts path)).file? ≠ some k) →
          edited node c (paths.map fun path => (path, f path)) k = c k) := by
  induction paths generalizing c with
  | nil => exact ⟨trivial, fun k => ⟨by simp, fun _ => rfl⟩⟩
  | cons path paths ih =>
    rw [List.nodup_cons] at hnodup
    obtain ⟨hpath, id, hnode, hdigest⟩ := hcleared path (by simp)
    have hfile : (node (pathParts path)).file? = some id := by rw [hnode, Node.file?]
    have hedit : editGroup node c (path, f path) =
        Function.update c id (applyHunks (c id) (f path)) := by
      rw [editGroup, hfile]
    have hne {other : String} (hother : other ∈ paths) :
        (node (pathParts other)).file? ≠ some id := by
      intro heq
      have hsame := hone path (by simp) other (by simp [hother]) (hfile.trans heq.symm)
      exact hnodup.1 (hsame ▸ hother)
    obtain ⟨hturn, hedited⟩ := ih (c := editGroup node c (path, f path)) hnodup.2
      (fun other hother => by
        obtain ⟨hother', id', hnode', hdigest'⟩ := hcleared other (by simp [hother])
        refine ⟨hother', id', hnode', ?_⟩
        have hid : id' ≠ id := by
          rintro rfl
          exact hne hother (by rw [hnode', Node.file?])
        rw [hedit, Function.update_of_ne hid, hdigest'])
      fun p hp q hq => hone p (by simp [hp]) q (by simp [hq])
    refine ⟨⟨⟨hpath, id, hnode, hdigest⟩, rfl, hturn⟩, fun k => ?_⟩
    obtain ⟨hin, hout⟩ := hedited k
    change (∀ p ∈ path :: paths, _ → edited node (editGroup node c (path, f path)) _ k = _) ∧
      (_ → edited node (editGroup node c (path, f path)) _ k = _)
    by_cases hk : k = id
    · subst hk
      have hrest := hout fun other hother => hne hother
      rw [hrest, hedit, Function.update_self]
      refine ⟨List.forall_mem_cons.mpr ⟨fun _ => rfl, fun other hother heq => ?_⟩, fun hnone => ?_⟩
      · exact absurd heq (hne hother)
      · exact absurd hfile (hnone path (by simp))
    · rw [hedit, Function.update_of_ne hk, ← hedit] at hin hout
      refine ⟨List.forall_mem_cons.mpr ⟨fun heq => ?_, hin⟩, fun hnone => ?_⟩
      · exact absurd (Option.some.inj (heq.symm.trans hfile)) hk
      · exact hout fun other hother => hnone other (by simp [hother])

/-- **On the unchanged files an apply makes the edits of each file.** -/
theorem run_applyCandidate_unchanged (hfiles : Unchanged s snapshot)
    (haccepted : ∀ hunk ∈ hunks, Accepted snapshot hunk) (hone : OneName s hunks) :
    ∃ result t, run (applyCandidate hunks (preimages snapshot)) s = (.ok result, t) ∧
      ∀ k, t.bytes k = Edit.applyEdits (s.bytes k) (editsOf s hunks k) := by
  have hpaths : ∀ path ∈ (hunks.map (·.anchor.path)).eraseDups,
      ∃ hunk ∈ hunks, hunk.anchor.path = path := by
    intro path hpath
    simpa using hpath
  have hcleared : ∀ path ∈ (hunks.map (·.anchor.path)).eraseDups,
      Cleared s.node (preimages snapshot) s.bytes path := by
    intro path hpath
    obtain ⟨hunk, hhunk, rfl⟩ := hpaths path hpath
    obtain ⟨hchecked, content, hlookup, -⟩ := haccepted hunk hhunk
    obtain ⟨id, hnode, hbytes⟩ := hfiles.files _ content hlookup
    exact ⟨hchecked, id, hnode, by rw [lookup_preimages hlookup, hbytes]⟩
  obtain ⟨hturn, hedited⟩ := clearedInTurn_paths
    (fun path => hunks.filter (·.anchor.path = path))
    (nodup_eraseDups (hunks.map (·.anchor.path))) hcleared
    (fun path hpath other hother heq => by
      obtain ⟨a, ha, rfl⟩ := hpaths path hpath
      obtain ⟨b, hb, rfl⟩ := hpaths other hother
      exact hone a ha b hb heq)
  rw [← hfiles.faults] at hturn
  obtain ⟨rows, t, hrun, hbytes⟩ :
      ∃ rows t, run (applyGroups (preimages snapshot) (byPath hunks))
        (prepared s (preimages snapshot)) = (.ok rows, t) ∧
          t.bytes = edited s.node s.bytes (byPath hunks) :=
    run_applyGroups_cleared hturn
  refine ⟨_, _, by rw [run_applyCandidate, hrun]; rfl, fun k => ?_⟩
  change t.bytes k = _
  have hranges : ∀ hunk ∈ hunksOf s hunks k, 0 ≤ hunk.anchor.start ∧ 0 ≤ hunk.anchor.stop := by
    intro hunk hhunk
    obtain ⟨-, content, -, hstart, hle, -⟩ := haccepted hunk (List.mem_of_mem_filter hhunk)
    exact ⟨hstart, hstart.trans hle⟩
  rw [editsOf, ← applyHunks_eq_applyEdits _ hranges, hbytes]
  by_cases hk : ∃ hunk ∈ hunks, s.target hunk.anchor.path = some k
  · obtain ⟨hunk, hhunk, htarget⟩ := hk
    have hsame : hunksOf s hunks k = hunks.filter (·.anchor.path = hunk.anchor.path) := by
      refine List.filter_congr fun other hother =>
        decide_eq_decide.mpr ⟨fun heq => ?_, fun heq => ?_⟩
      · exact hone other hother hunk hhunk (heq.trans htarget.symm)
      · rw [heq, htarget]
    rw [hsame]
    exact (hedited k).1 hunk.anchor.path (by simpa using ⟨hunk, hhunk, rfl⟩) htarget
  · push Not at hk
    have hnone : hunksOf s hunks k = [] :=
      List.filter_eq_nil_iff.mpr fun hunk hhunk => by simpa using hk hunk hhunk
    rw [hnone]
    refine (hedited k).2 fun path hpath => ?_
    obtain ⟨hunk, hhunk, rfl⟩ := hpaths path hpath
    exact hk hunk hhunk

/-- The edits of the hunks of a file, whose contents are those of the snapshot, are of its
ranges. -/
theorem apart_editsOf (hfiles : Unchanged s snapshot)
    (haccepted : ∀ hunk ∈ hunks, Accepted snapshot hunk)
    (hdisjoint : (editsOf s hunks k).Pairwise Edit.Disjoint) :
    Edit.Apart (s.bytes k) (editsOf s hunks k) := by
  refine ⟨fun e he => ?_, hdisjoint⟩
  obtain ⟨hunk, hhunk, rfl⟩ := List.mem_map.mp he
  rw [hunksOf, List.mem_filter, decide_eq_true_eq] at hhunk
  obtain ⟨-, content, hlookup, hstart, hle, hstop, -⟩ := haccepted hunk hhunk.1
  obtain ⟨id, hnode, rfl⟩ := hfiles.files _ content hlookup
  have hid : some id = some k := by
    rw [← hhunk.2, Files.target, hnode, Node.file?]
  obtain rfl := Option.some.inj hid
  simp only [Edit.Valid, EditHunk.edit]
  omega

/-- Hunks of one file differ in their range exactly when they differ in their place. -/
theorem place_eq_iff (haccepted : ∀ hunk ∈ hunks, Accepted snapshot hunk) (hone : OneName s hunks) :
    ∀ a ∈ hunksOf s hunks k, ∀ b ∈ hunksOf s hunks k,
      b.place = a.place ↔ (Edit.range ∘ EditHunk.edit) b = (Edit.range ∘ EditHunk.edit) a := by
  intro a ha b hb
  rw [hunksOf, List.mem_filter, decide_eq_true_eq] at ha hb
  have hpath := hone b hb.1 a ha.1 (hb.2.trans ha.2.symm)
  obtain ⟨-, content, -, hstart, hle, -⟩ := haccepted a ha.1
  obtain ⟨-, content', -, hstart', hle', -⟩ := haccepted b hb.1
  simp only [EditHunk.place, hpath, Function.comp_apply, Edit.range, EditHunk.edit, Prod.mk.injEq,
    true_and]
  omega

/-- Hunks of other files may be listed after those of one. -/
theorem relists_hunksOf (s : Files EditJournal) (hunks : List EditHunk) (k : ℕ) :
    Edit.Relists EditHunk.place hunks
      (hunksOf s hunks k ++
        hunks.filter fun hunk => !decide (s.target hunk.anchor.path = some k)) := by
  have hparts : Edit.Relists EditHunk.place hunks _ :=
    Edit.relists_filter_append hunks fun place => decide (s.target place.1 = some k)
  simp only [EditHunk.place] at hparts
  exact hparts

/-! ### Edits made at once -/

/-- If the hunks are accepted, those of each file are apart, and in whatever order hunks of
different places are listed, an apply makes the edits of each file at once. -/
def MadeAtOnce (s : Files EditJournal) (snapshot : List (String × Bytes))
    (hunks : List EditHunk) : Prop :=
  validatePatch hunks snapshot = .ok () →
    (∀ k, (editsOf s hunks k).Pairwise Edit.Disjoint) ∧
      ∀ hunks', Edit.Relists EditHunk.place hunks hunks' →
        ∃ result t, run (applyCandidate hunks' (preimages snapshot)) s = (.ok result, t) ∧
          ∀ k, t.bytes k = Edit.simultaneous (s.bytes k) (editsOf s hunks k)

/-- **Accepted hunks are made at once on the unchanged files** when each file goes by one name among
them, no two hunks of a file overlap, and each hunk absorbs the insertions at its start; and only
when the hunks of a file do not overlap, and absorb these if each file goes by one name. -/
theorem made_at_once_iff (hfiles : Unchanged s snapshot) :
    (OneName s hunks → (validatePatch hunks snapshot = .ok () →
        ∀ k, (editsOf s hunks k).Pairwise Edit.Disjoint ∧
          Edit.Settled (s.bytes k) (editsOf s hunks k)) →
      MadeAtOnce s snapshot hunks) ∧
    (MadeAtOnce s snapshot hunks → validatePatch hunks snapshot = .ok () →
      ∀ k, (editsOf s hunks k).Pairwise Edit.Disjoint ∧
        (OneName s hunks → Edit.Settled (s.bytes k) (editsOf s hunks k))) := by
  constructor
  · intro hone hcond hvalid
    refine ⟨fun k => (hcond hvalid k).1, fun hunks' hrelists => ?_⟩
    have haccepted := validatePatch_eq_ok.mp hvalid
    obtain ⟨result, t, hrun, hbytes⟩ := run_applyCandidate_unchanged hfiles
      (fun hunk (hhunk : hunk ∈ hunks') => haccepted hunk (hrelists.mem_iff.mp hhunk))
      (fun a ha b hb => hone a (hrelists.mem_iff.mp ha) b (hrelists.mem_iff.mp hb))
    refine ⟨result, t, hrun, fun k => ?_⟩
    rw [hbytes k]
    refine (Edit.relisted_eq_iff (apart_editsOf hfiles haccepted (hcond hvalid k).1)).mpr
      (hcond hvalid k).2 _ ?_
    refine Edit.Relists.congr ?_ (place_eq_iff haccepted hone)
    exact hrelists.filter fun place => decide (s.target place.1 = some k)
  · intro hmade hvalid k
    obtain ⟨hdisjoint, hall⟩ := hmade hvalid
    have haccepted := validatePatch_eq_ok.mp hvalid
    refine ⟨hdisjoint k, fun hone => ?_⟩
    refine (Edit.relisted_eq_iff (apart_editsOf hfiles haccepted (hdisjoint k))).mp ?_
    intro items hitems
    have hrelists : Edit.Relists EditHunk.place hunks
        (items ++ hunks.filter fun hunk => !decide (s.target hunk.anchor.path = some k)) := by
      refine (relists_hunksOf s hunks k).trans (Edit.Relists.append ?_ fun _ => rfl)
      exact hitems.congr fun a ha b hb => (place_eq_iff haccepted hone a ha b hb).symm
    obtain ⟨result, t, hrun, hbytes⟩ := hall _ hrelists
    obtain ⟨result', t', hrun', hbytes'⟩ := run_applyCandidate_unchanged hfiles
      (fun hunk hhunk => haccepted hunk (hrelists.mem_iff.mp hhunk))
      (fun a ha b hb => hone a (hrelists.mem_iff.mp ha) b (hrelists.mem_iff.mp hb))
    obtain ⟨-, rfl⟩ := Prod.mk.inj (hrun.symm.trans hrun')
    have hitemsOf : ∀ hunk ∈ items, s.target hunk.anchor.path = some k := fun hunk hhunk =>
      of_decide_eq_true (List.mem_filter.mp (hitems.mem_iff.mp hhunk)).2
    have hedits : editsOf s (items ++ hunks.filter fun hunk =>
        !decide (s.target hunk.anchor.path = some k)) k = items.map EditHunk.edit := by
      have hthese : hunksOf s items k = items :=
        List.filter_eq_self.mpr fun hunk hhunk => decide_eq_true (hitemsOf hunk hhunk)
      have hothers : hunksOf s (hunks.filter fun hunk =>
          !decide (s.target hunk.anchor.path = some k)) k = [] := by
        refine List.filter_eq_nil_iff.mpr fun hunk hhunk => ?_
        rw [List.mem_filter, Bool.not_eq_true', decide_eq_false_iff_not] at hhunk
        rw [decide_eq_true_eq]
        exact hhunk.2
      rw [hunksOf] at hthese hothers
      rw [editsOf, hunksOf, List.filter_append, hthese, hothers, List.append_nil]
    rw [← hedits, ← hbytes' k, hbytes k]
    rfl

/-- A file, `a`, of four bytes. For examples. -/
def fourBytes : Files EditJournal where
  node parts := if parts = ["a"] then .file 0 else .missing
  bytes _ := [1, 2, 3, 4]

/-- A hunk on that file. For examples. -/
def rangeHunk (start stop : ℤ) (replacement : Bytes) : EditHunk :=
  ⟨⟨"a", start, stop, fileDigest (byteSlice [1, 2, 3, 4] start stop)⟩, replacement⟩

theorem unchanged_fourBytes : Unchanged fourBytes [("a", [1, 2, 3, 4])] := by
  refine ⟨fun path content h => ⟨0, ?_⟩, rfl⟩
  rw [List.lookup_cons, List.lookup_nil] at h
  rcases hpath : path == "a" <;> rw [hpath] at h
  · cases h
  · rw [beq_iff_eq] at hpath
    subst hpath
    exact ⟨by decide, Option.some.inj h⟩

/-- Two hunks that touch, and an insertion at the end of the file. -/
theorem made_at_once_iff_touching :
    let hunks := [rangeHunk 1 3 [8], rangeHunk 3 4 [], rangeHunk 4 4 [9]]
    let snapshot := [("a", [1, 2, 3, 4])]
    (OneName fourBytes hunks → (validatePatch hunks snapshot = .ok () →
        ∀ k, (editsOf fourBytes hunks k).Pairwise Edit.Disjoint ∧
          Edit.Settled (fourBytes.bytes k) (editsOf fourBytes hunks k)) →
      MadeAtOnce fourBytes snapshot hunks) ∧
    (MadeAtOnce fourBytes snapshot hunks → validatePatch hunks snapshot = .ok () →
      ∀ k, (editsOf fourBytes hunks k).Pairwise Edit.Disjoint ∧
        (OneName fourBytes hunks →
          Edit.Settled (fourBytes.bytes k) (editsOf fourBytes hunks k))) :=
  made_at_once_iff unchanged_fourBytes

/-- An insertion that is listed in front of a hunk of the same start is made first, and then the
hunk replaces what was inserted. Hunks that overlap are accepted as well. -/
theorem not_made_at_once :
    Unchanged fourBytes [("a", [1, 2, 3, 4])] ∧
      ¬MadeAtOnce fourBytes [("a", [1, 2, 3, 4])] [rangeHunk 1 1 [7], rangeHunk 1 3 [8]] ∧
      ¬MadeAtOnce fourBytes [("a", [1, 2, 3, 4])] [rangeHunk 1 3 [8], rangeHunk 2 4 [9]] := by
  refine ⟨unchanged_fourBytes, fun hmade => ?_, fun hmade => ?_⟩
  · obtain ⟨-, hall⟩ := hmade (by decide +kernel)
    obtain ⟨result, t, hrun, hbytes⟩ := hall _ fun _ => rfl
    have hleft : t.bytes 0 = [1, 8, 3, 4] := by
      rw [show t = _ from (congrArg Prod.snd hrun).symm]
      decide +kernel
    have hright : Edit.simultaneous (fourBytes.bytes 0)
        (editsOf fourBytes [rangeHunk 1 1 [7], rangeHunk 1 3 [8]] 0) = [1, 7, 8, 4] := by
      decide
    exact absurd (hleft.symm.trans ((hbytes 0).trans hright)) (by decide)
  · obtain ⟨hdisjoint, -⟩ := hmade (by decide +kernel)
    have hoverlap : ¬(editsOf fourBytes [rangeHunk 1 3 [8], rangeHunk 2 4 [9]] 0).Pairwise
        Edit.Disjoint := by
      decide
    exact hoverlap (hdisjoint 0)

end

end Kernel

end CyranoAgent
