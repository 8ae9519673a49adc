import CyranoAgent.Backends.Files

/-!
# Reading a stored file by lines

`sliceReadResponse` returns a window of a file, cut at every line boundary, and
`formatContentWithLineNumbers` numbers the lines of what was read, cut at line feeds. A search
numbers its matches by line feeds of the stored text. The three agree on a file exactly when its
line ends are plain (`linesAgree_iff`): a vertical tab, a form feed, a separator or a lone carriage
return inside the text shifts the numbers behind it.
-/

namespace CyranoAgent

namespace Backends

open Lib Lib.Text

/-! ### The window of a read -/

/-- The result of a read. The fields of the window are bound together as the constructor of the
code demands, so that a malformed result cannot be built. -/
structure ReadResult where
  error : Option String := none
  fileData : Option FileData := none
  totalLines : Option ℕ := none
  startLine : Option ℕ := none
  endLine : Option ℕ := none
  nextOffset : Option ℕ := none
  noLinesRequested : Bool := false
  paired : startLine.isSome = endLine.isSome := by rfl
  uninspected : noLinesRequested = true →
    error = none ∧ startLine = none ∧ nextOffset = none ∧ totalLines = none := by simp
  next_window : nextOffset.isSome → startLine.isSome := by simp
  total_window : totalLines.isSome → startLine.isSome := by simp
  window : ∀ first ∈ startLine, ∀ last ∈ endLine, 1 ≤ first ∧ first ≤ last ∧
    (∀ total ∈ totalLines, last ≤ total) ∧ ∀ next ∈ nextOffset, next = last := by simp

/-- The requested window, floored at offset and length zero. -/
def normalizeReadBounds (offset limit : ℤ) : ℕ × ℕ := (offset.toNat, limit.toNat)

/-- A window that asks for lines inside the file runs forward inside it. -/
theorem window_runs {start limit total : ℕ} (hlimit : limit ≠ 0) (hpast : ¬ total ≤ start) :
    ∀ first ∈ some (start + 1), ∀ last ∈ some (min (start + limit) total), 1 ≤ first ∧
      first ≤ last ∧ (∀ whole ∈ some total, last ≤ whole) ∧
        ∀ next ∈ (if min (start + limit) total < total then some (min (start + limit) total)
          else none), next = last := by
  rintro first ⟨⟩ last ⟨⟩
  refine ⟨by omega, by omega, ?_, ?_⟩
  · rintro whole ⟨⟩
    exact Nat.min_le_right _ _
  · rintro next hnext
    split_ifs at hnext
    · exact (Option.some.inj hnext).symm
    · exact absurd hnext (by simp)

/-- The window of a file's lines, carriage returns rewritten. -/
def sliceReadResponse (fileData : FileData) (offset limit : ℤ) : ReadResult :=
  let content := fileDataToString fileData
  let bounds := normalizeReadBounds offset limit
  if blank content then { fileData := some (copyFileDataWithContent fileData content) }
  else if hlimit : bounds.2 = 0 then
    { fileData := some (copyFileDataWithContent fileData []), noLinesRequested := true }
  else
    let lines := content.splitlines
    let endIdx := min (bounds.1 + bounds.2) lines.length
    if hpast : lines.length ≤ bounds.1 then
      { error := some s!"Line offset {bounds.1} exceeds file length ({lines.length} lines)" }
    else
      { fileData := some (copyFileDataWithContent fileData
          (toLf ((lines.drop bounds.1).take (endIdx - bounds.1)).flatten))
        totalLines := some lines.length
        startLine := some (bounds.1 + 1)
        endLine := some endIdx
        nextOffset := if endIdx < lines.length then some endIdx else none
        window := window_runs hlimit hpast }

/-- A result of a read without a window. -/
def ReadResult.plain (error : Option String) (fileData : Option FileData) : ReadResult where
  error := error
  fileData := fileData

/-! ### Line numbers -/

/-- Lines longer than this are continued on further rows. -/
def maxLineLength : ℕ := 5000

/-- The lines that a content is numbered by. -/
def contentLines : Content → List Text
  | .text content => dropBlankEnd content.lfLines
  | .lines content => content

/-- The rows of a line: one for each slice, and one for a line without characters. -/
def lineRows (numbered : Text × ℕ) : List (ℕ × ℕ × Text) :=
  let chunks := slices maxLineLength numbered.1
  (if chunks = [] then [numbered.1] else chunks).zipIdx.map fun chunk =>
    (numbered.2, chunk.2, chunk.1)

/-- The rows of a content: the number of the line, that of the slice, and the slice. -/
def contentRows (content : Content) (startLine : ℕ) : List (ℕ × ℕ × Text) :=
  ((contentLines content).zipIdx startLine).flatMap lineRows

/-- The marker in front of a row, `5` or `5.1`. -/
def rowMarker (row : ℕ × ℕ × Text) : String :=
  if row.2.1 = 0 then s!"{row.1}" else s!"{row.1}.{row.2.1}"

/-- A content with its line numbers. -/
def formatContentWithLineNumbers (content : Content) (startLine : ℕ) : Text :=
  let rows := contentRows content startLine
  let markerWidth := (rows.map fun row => (rowMarker row).length).foldr max 0
  ['\n'].intercalate <| rows.map fun row =>
    ((rowMarker row).toList.leftpad markerWidth ' ') ++ [' ', ' '] ++ row.2.2

/-! ### What a read returns -/

/-- The text of a read without an error. -/
def ReadResult.text? (result : ReadResult) : Option Text :=
  if errs result.error then none else result.fileData.map fileDataToString

section

variable {fileData : FileData}

/-- The text of a window that asks for lines of a file that is not blank. -/
theorem text?_slice {offset limit : ℤ} (hblank : blank (fileDataToString fileData) = false)
    (hlimit : limit.toNat ≠ 0) :
    (sliceReadResponse fileData offset limit).text? =
      let lines := (fileDataToString fileData).splitlines
      if lines.length ≤ offset.toNat then none
      else some (toLf ((lines.drop offset.toNat).take
        (min (offset.toNat + limit.toNat) lines.length - offset.toNat)).flatten) := by
  have hbounds : ¬ (normalizeReadBounds offset limit).2 = 0 := hlimit
  unfold sliceReadResponse
  dsimp only
  rw [if_neg (by simp [hblank]), dif_neg hbounds]
  by_cases hpast : (fileDataToString fileData).splitlines.length ≤ offset.toNat
  · have hpast' : (fileDataToString fileData).splitlines.length ≤
        (normalizeReadBounds offset limit).1 := hpast
    rw [dif_pos hpast', if_pos hpast]
    have herrs (total : ℕ) : errs (some
        s!"Line offset {offset.toNat} exceeds file length ({total} lines)") = true := by
      simp [errs]
    exact if_pos (herrs _)
  · have hpast' : ¬ (fileDataToString fileData).splitlines.length ≤
        (normalizeReadBounds offset limit).1 := hpast
    rw [dif_neg hpast', if_neg hpast]
    rfl

/-- A read of one line returns it, its terminator rewritten, or nothing past the last line. -/
theorem text?_slice_single (hblank : blank (fileDataToString fileData) = false) (i : ℕ) :
    (sliceReadResponse fileData i 1).text? =
      (fileDataToString fileData).splitlines[i]?.map toLf := by
  rw [text?_slice hblank (by decide)]
  simp only [Int.toNat_natCast, Int.toNat_one]
  split_ifs with hpast
  · rw [List.getElem?_eq_none hpast]
    rfl
  · have hlen := Nat.lt_of_not_le hpast
    have hone : min (i + 1) (fileDataToString fileData).splitlines.length - i = 1 := by omega
    rw [hone, List.drop_eq_getElem_cons hlen, List.getElem?_eq_getElem hlen, List.take_succ_cons,
      List.take_zero, List.flatten_singleton]
    rfl

/-- A read of the whole file returns it, its line ends rewritten. -/
theorem text?_slice_whole (hblank : blank (fileDataToString fileData) = false) {limit : ℤ}
    (hlimit : ((fileDataToString fileData).splitlines.length : ℤ) ≤ limit) :
    (sliceReadResponse fileData 0 limit).text? = some (toLf (fileDataToString fileData)) := by
  have hlines : (fileDataToString fileData).splitlines.length ≠ 0 := by
    intro hzero
    have hflat := flatten_splitlines (fileDataToString fileData)
    rw [List.length_eq_zero_iff.1 hzero] at hflat
    rw [← hflat] at hblank
    exact absurd hblank (by decide)
  rw [text?_slice hblank (by omega)]
  simp only [Int.toNat_zero, Nat.zero_add, List.drop_zero, Nat.sub_zero]
  rw [if_neg (by omega), Nat.min_eq_right (by omega), List.take_length, flatten_splitlines]

end

/-! ### The numbered rows -/

/-- The line with a number, put together from its rows. -/
def labelledLine (rows : List (ℕ × ℕ × Text)) (line : ℕ) : Option Text :=
  let own := rows.filter fun row => row.1 = line
  if own = [] then none else some (own.map fun row => row.2.2).flatten

theorem fst_of_mem_lineRows {numbered : Text × ℕ} {row : ℕ × ℕ × Text}
    (h : row ∈ lineRows numbered) : row.1 = numbered.2 := by
  obtain ⟨chunk, -, rfl⟩ := List.mem_map.1 h
  rfl

/-- The rows of a line hold it. -/
theorem flatten_lineRows (numbered : Text × ℕ) :
    ((lineRows numbered).map fun row => row.2.2).flatten = numbered.1 ∧ lineRows numbered ≠ [] := by
  have hmap (chunks : List Text) : ((chunks.zipIdx.map fun chunk =>
      (numbered.2, chunk.2, chunk.1)).map fun row => row.2.2) = chunks := by
    rw [List.map_map]
    exact List.zipIdx_map_fst ..
  have hflat := flatten_slices (n := maxLineLength) (by decide) numbered.1
  rw [lineRows]
  split_ifs with hnil
  · exact ⟨by rw [hmap]; simp, by simp⟩
  · refine ⟨by rw [hmap, hflat], fun h => hnil ?_⟩
    simpa using h

theorem le_fst_of_mem_rows {lines : List Text} {start : ℕ} {row : ℕ × ℕ × Text}
    (h : row ∈ (lines.zipIdx start).flatMap lineRows) : start ≤ row.1 := by
  obtain ⟨numbered, hmem, hrow⟩ := List.mem_flatMap.1 h
  rw [fst_of_mem_lineRows hrow]
  exact (List.mem_zipIdx_iff_le_and_getElem?_sub.1 hmem).1

/-- **The row labels** count the lines. -/
theorem labelledLine_rows {n : ℕ} (lines : List Text) : ∀ {start : ℕ}, start ≤ n →
    labelledLine ((lines.zipIdx start).flatMap lineRows) n = lines[n - start]? := by
  induction lines with
  | nil => exact fun _ => rfl
  | cons line lines ih =>
    intro start hstart
    rw [List.zipIdx_cons, List.flatMap_cons]
    rcases Nat.eq_or_lt_of_le hstart with rfl | hlt
    · have hown : ((lineRows (line, start)) ++ (lines.zipIdx (start + 1)).flatMap lineRows).filter
          (fun row => row.1 = start) = lineRows (line, start) := by
        rw [List.filter_append, List.filter_eq_self.2, List.filter_eq_nil_iff.2, List.append_nil]
        · intro row hrow hfst
          have hle := le_fst_of_mem_rows hrow
          rw [decide_eq_true_iff] at hfst
          omega
        · exact fun row hrow => decide_eq_true (fst_of_mem_lineRows hrow)
      obtain ⟨hflat, hne⟩ := flatten_lineRows (line, start)
      simp only [labelledLine, hown]
      rw [if_neg hne, hflat, Nat.sub_self, List.getElem?_cons_zero]
    · have hnone : (lineRows (line, start)).filter (fun row => row.1 = n) = [] := by
        refine List.filter_eq_nil_iff.2 fun row hrow hfst => ?_
        rw [decide_eq_true_iff, fst_of_mem_lineRows hrow] at hfst
        exact Nat.ne_of_lt hlt hfst
      have hsub : n - start = n - (start + 1) + 1 := by omega
      rw [hsub, List.getElem?_cons_succ, ← ih hlt]
      simp only [labelledLine, List.filter_append, hnone, List.nil_append]

/-- The label of a line of a content that is numbered from one. -/
theorem labelledLine_contentRows (content : Content) {n : ℕ} (h : 1 ≤ n) :
    labelledLine (contentRows content 1) n = (contentLines content)[n - 1]? :=
  labelledLine_rows _ h

/-! ### Search and read -/

/-- A read of the line with a number returns a text up to its terminator, and a read of the whole
file labels that line with the number. -/
def ReadsLine (fileData : FileData) (line : ℕ) (text : Text) : Prop :=
  ∃ single, (sliceReadResponse fileData ((line : ℤ) - 1) 1).text? = some single ∧
    chomp single = chomp text ∧
    ∀ limit : ℤ, ((fileDataToString fileData).splitlines.length : ℤ) ≤ limit →
      ∃ whole, (sliceReadResponse fileData 0 limit).text? = some whole ∧
        ∃ labelled, labelledLine (contentRows (.text whole) 1) line = some labelled ∧
          chomp labelled = chomp single

/-- Every match that a search reports in a file can be read under its line number. -/
def LinesAgree (library : GlobLibrary) (fileData : FileData) : Prop :=
  ∀ (files : Dict Text FileData) (pattern : Text) (path glob : Option Text)
    (maxCount : Option ℤ), pattern ≠ [] →
    ∀ found ∈ (grepMatchesFromFiles (ι := Unit) library files pattern path glob maxCount).reported,
      files.get? found.path = some fileData → ReadsLine fileData found.line found.text

/-- A mapping of one file. -/
def oneFile (fileData : FileData) : Dict Text FileData := Dict.ofList [(['/', 'f'], fileData)]

section

variable {fileData : FileData} {library : GlobLibrary}

/-- A line that a read returns under its number is at that place of the split at boundaries. -/
theorem readsLine_iff (hblank : blank (fileDataToString fileData) = false) {line : ℕ} {text : Text}
    (hline : 1 ≤ line) : ReadsLine fileData line text ↔
      ∃ own, (fileDataToString fileData).splitlines[line - 1]? = some own ∧
        chomp own = chomp text ∧ ∃ labelled,
          (dropBlankEnd (lfLines (toLf (fileDataToString fileData))))[line - 1]? = some labelled ∧
            chomp labelled = chomp own := by
  have hcast : (line : ℤ) - 1 = ((line - 1 : ℕ) : ℤ) := by omega
  rw [ReadsLine, hcast, text?_slice_single hblank]
  constructor
  · rintro ⟨single, hsingle, hchomp, hwhole⟩
    obtain ⟨own, hown, rfl⟩ := Option.map_eq_some_iff.1 hsingle
    have htoLf := chomp_toLf_of_mem (List.mem_of_getElem? hown)
    obtain ⟨whole, hread, labelled, hlabel, heq⟩ := hwhole _ (Int.le_refl _)
    rw [text?_slice_whole hblank (Int.le_refl _)] at hread
    rw [← Option.some.inj hread, labelledLine_contentRows _ hline] at hlabel
    exact ⟨own, hown, htoLf.symm.trans hchomp, labelled, hlabel, heq.trans htoLf⟩
  · rintro ⟨own, hown, hchomp, labelled, hlabel, heq⟩
    have htoLf := chomp_toLf_of_mem (List.mem_of_getElem? hown)
    refine ⟨toLf own, by rw [hown]; rfl, htoLf.trans hchomp, fun limit hlimit => ?_⟩
    refine ⟨_, text?_slice_whole hblank hlimit, labelled, ?_, heq.trans htoLf.symm⟩
    rw [labelledLine_contentRows _ hline]
    exact hlabel

/-- **Search and read agree on the line numbers** of a file exactly when its line ends are plain:
every carriage return stands before a line feed or at the end, and after any other boundary that is
no line feed come only carriage returns and line feeds. -/
theorem linesAgree_iff (hblank : blank (fileDataToString fileData) = false) :
    LinesAgree library fileData ↔ EndsPlain (fileDataToString fileData) := by
  constructor
  · intro hagree
    refine (follows_splitlines_iff _).1 fun i line hget hne => ?_
    -- The nonempty line is its own pattern, searched from a mapping of the one file.
    have hfile : (oneFile fileData).get? ['/', 'f'] = some fileData := rfl
    have hfound : ({ path := ['/', 'f'], line := i + 1, text := line } : GrepMatch Unit) ∈
        (grepMatchesFromFiles library (oneFile fileData) line (some ['/', 'f']) none
          none).reported :=
      mem_grep_of_mem rfl List.mem_cons_self (List.infix_refl line) (Nat.le_add_left 1 i) hget
    have hread := hagree _ _ _ _ _ hne _ hfound hfile
    obtain ⟨own, hown, hchomp, -⟩ := (readsLine_iff hblank (Nat.le_add_left 1 i)).1 hread
    exact ⟨own, hown, hchomp⟩
  · intro hplain files pattern path glob maxCount hpattern found hfound hget
    obtain ⟨hin, hline, fileData', hget', htext⟩ := mem_grep hfound
    obtain rfl : fileData' = fileData := Option.some.inj (hget'.symm.trans hget)
    have hne : found.text ≠ [] := by
      intro hnil
      rw [hnil] at hin
      exact hpattern (List.infix_nil.1 hin)
    obtain ⟨own, hown, hchomp⟩ := (follows_splitlines_iff _).2 hplain _ _ htext hne
    obtain ⟨labelled, hlabel, heq⟩ := follows_dropBlankEnd _ hplain _ _ htext hne
    exact (readsLine_iff hblank hline).2
      ⟨own, hown, hchomp, labelled, hlabel, heq.trans hchomp.symm⟩

end

/-- The matcher of every path. -/
def anyGlob : GlobLibrary where
  compile := fun _ => .ok fun _ => true
  quoted := fun text => String.ofList text

/-- A text with its line feeds and pairs, and no other boundary before the end. -/
def windowsNotes : FileData :=
  { content := .text "# notes\r\n\r\nneedle\r\n".toList, encoding := some "utf-8",
    createdAt := none, modifiedAt := none }

theorem linesAgree_iff_windowsNotes : LinesAgree anyGlob windowsNotes :=
  (linesAgree_iff (by decide)).2 (by decide)

/-- A text with a form feed between its sections. -/
def sectionedNotes : FileData :=
  { content := .text "first\x0csecond\nneedle\n".toList, encoding := some "utf-8",
    createdAt := none, modifiedAt := none }

/-- **The needle behind the form feed** is found on the second line and read on the third. -/
theorem not_linesAgree :
    ¬ ∀ fileData, blank (fileDataToString fileData) = false → LinesAgree anyGlob fileData := by
  intro h
  have hfile : (oneFile sectionedNotes).get? ['/', 'f'] = some sectionedNotes := rfl
  have hfound : ({ path := ['/', 'f'], line := 2, text := "needle".toList } : GrepMatch Unit) ∈
      (grepMatchesFromFiles anyGlob (oneFile sectionedNotes) "needle".toList (some ['/', 'f']) none
        none).reported :=
    mem_grep_of_mem rfl List.mem_cons_self (List.infix_refl _) (by decide) (by decide)
  obtain ⟨single, hread, hchomp, -⟩ := h sectionedNotes (by decide) _ _ _ _ _ (by decide) _ hfound
    hfile
  have hsecond : (sliceReadResponse sectionedNotes 1 1).text? = some "second\n".toList := by rfl
  rw [show ((2 : ℕ) : ℤ) - 1 = 1 from rfl, hsecond] at hread
  rw [← Option.some.inj hread] at hchomp
  exact absurd hchomp (by decide)

end Backends

end CyranoAgent
