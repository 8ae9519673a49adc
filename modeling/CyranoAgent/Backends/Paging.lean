import CyranoAgent.Backends.Reading

/-!
# Paging through a stored file

A reader starts at offset 0 and goes on at the `next_offset` of what it read, under a limit of its
choice for each read. `paging_spec` says that it reaches the end, has then seen every line once and
in order, and holds the content with its carriage returns rewritten: no pair of a carriage return
and a line feed is split between two windows.
-/

namespace CyranoAgent

namespace Backends

open Lib Lib.Text

/-! ### The reads -/

/-- The read `k` of a reader that starts at an offset and follows `next_offset`, if there is one. -/
def page (fileData : FileData) : (ℕ → ℤ) → ℕ → ℕ → Option ReadResult
  | limits, offset, 0 => some (sliceReadResponse fileData offset (limits 0))
  | limits, offset, k + 1 =>
    match (sliceReadResponse fileData offset (limits 0)).nextOffset with
    | none => none
    | some next => page fileData (fun j => limits (j + 1)) next k

/-- The numbers of the lines of a window. -/
def ReadResult.shownLines (result : ReadResult) : List ℕ :=
  match result.startLine, result.endLine with
  | some first, some last => List.range' first (last + 1 - first)
  | _, _ => []

/-- The fields of a result agree: it has no error, and its window lies in the content and ends where
the next one starts. -/
structure Consistent (content : Text) (result : ReadResult) : Prop where
  error : result.error = none
  total : result.totalLines = some content.splitlines.length
  window : ∃ first last, result.startLine = some first ∧ result.endLine = some last ∧ 1 ≤ first ∧
    first ≤ last ∧ last ≤ content.splitlines.length ∧
    result.nextOffset = if last < content.splitlines.length then some last else none

/-- The reads from a line on show all that follows, once and in order, and each of them shows its
lines with their ends rewritten. -/
structure Shows (content : Text) (offset : ℕ) (pages : List ReadResult) : Prop where
  consistent : ∀ result ∈ pages, Consistent content result
  once : pages.flatMap ReadResult.shownLines =
    List.range' (offset + 1) (content.splitlines.length - offset)
  shown : ∀ result ∈ pages, result.text? =
    some (result.shownLines.flatMap fun line => toLf (content.splitlines.getD (line - 1) []))
  whole : (pages.filterMap ReadResult.text?).flatten =
    toLf (content.splitlines.drop offset).flatten

section

variable {fileData : FileData} {offset : ℕ} {limit : ℤ}

/-! ### One read -/

/-- The lines of a window by their numbers. -/
theorem flatMap_range' (lines : List Text) (first count : ℕ) (h : first + count ≤ lines.length) :
    (List.range' (first + 1) count).flatMap (fun line => toLf (lines.getD (line - 1) [])) =
      (((lines.drop first).take count).map toLf).flatten := by
  have hlines : (List.range' (first + 1) count).map (fun line => lines.getD (line - 1) []) =
      (lines.drop first).take count := by
    refine List.ext_getElem (by simp; omega) fun i hi _ => ?_
    rw [List.length_map, List.length_range'] at hi
    have hget : first + 1 + 1 * i - 1 = first + i := by omega
    rw [List.getElem_map, List.getElem_range', hget, List.getElem_take, List.getElem_drop,
      List.getD_eq_getElem _ _ (by omega)]
  rw [← hlines, List.map_map, List.flatMap_def]
  rfl

/-- The result of a read of a line that is there. -/
structure Window (content : Text) (offset last : ℕ) (result : ReadResult) : Prop where
  consistent : Consistent content result
  shown : result.shownLines = List.range' (offset + 1) (last - offset)
  next : result.nextOffset = if last < content.splitlines.length then some last else none
  text : result.text? =
    some (((content.splitlines.drop offset).take (last - offset)).map toLf).flatten

/-- **A read of a line that is there** shows it, and others behind it. -/
theorem exists_window (hblank : blank (fileDataToString fileData) = false) (hlimit : 1 ≤ limit)
    (hoffset : offset < (fileDataToString fileData).splitlines.length) :
    ∃ last, offset < last ∧ last ≤ (fileDataToString fileData).splitlines.length ∧
      Window (fileDataToString fileData) offset last (sliceReadResponse fileData offset limit) := by
  have hpast : ¬(fileDataToString fileData).splitlines.length ≤ offset := not_le.mpr hoffset
  have hzero : limit.toNat ≠ 0 := by omega
  let last := min (offset + limit.toNat) (fileDataToString fileData).splitlines.length
  refine ⟨last, by omega, by omega, ?_⟩
  have hchain := ((isChain_splitlines (fileDataToString fileData)).drop offset).take (last - offset)
  have hne : ∀ line ∈ ((fileDataToString fileData).splitlines.drop offset).take (last - offset),
      line ≠ [] := fun line hmem =>
    ne_nil_of_mem_splitlines (List.mem_of_mem_drop (List.mem_of_mem_take hmem))
  have htext : (sliceReadResponse fileData offset limit).text? = _ := text?_slice hblank hzero
  rw [Int.toNat_natCast] at htext
  dsimp only at htext
  rw [if_neg hpast, toLf_flatten hchain hne] at htext
  have hresult : ∀ result, sliceReadResponse fileData offset limit = result →
      result.error = none ∧ result.totalLines = some (fileDataToString fileData).splitlines.length ∧
        result.startLine = some (offset + 1) ∧ result.endLine = some last ∧
        result.nextOffset = if last < (fileDataToString fileData).splitlines.length then some last
          else none := by
    rintro result rfl
    unfold sliceReadResponse
    dsimp only
    rw [if_neg (by simp [hblank]),
      dif_neg (show ¬(normalizeReadBounds offset limit).2 = 0 from hzero),
      dif_neg (show ¬_ ≤ (normalizeReadBounds offset limit).1 from hpast)]
    exact ⟨rfl, rfl, rfl, rfl, rfl⟩
  obtain ⟨herror, htotal, hstart, hend, hnext⟩ := hresult _ rfl
  refine ⟨⟨herror, htotal, offset + 1, last, hstart, hend, by omega, by omega, by omega, hnext⟩, ?_,
    hnext, htext⟩
  rw [ReadResult.shownLines, hstart, hend]
  dsimp only
  congr 1
  omega

/-! ### All reads -/

theorem shows_nil (content : Text) : Shows content content.splitlines.length [] where
  consistent result h := absurd h List.not_mem_nil
  once := by rw [Nat.sub_self]; rfl
  shown result h := absurd h List.not_mem_nil
  whole := by rw [List.drop_length]; rfl

/-- A read, and those from where it ends. -/
theorem Window.shows {content : Text} {last : ℕ} {result : ReadResult} {pages : List ReadResult}
    (h : Window content offset last result) (hlt : offset < last)
    (hle : last ≤ content.splitlines.length) (hpages : Shows content last pages) :
    Shows content offset (result :: pages) where
  consistent := List.forall_mem_cons.mpr ⟨h.consistent, hpages.consistent⟩
  once := by
    have hlast : last + 1 = offset + 1 + (last - offset) := by omega
    have htotal : content.splitlines.length - offset =
        last - offset + (content.splitlines.length - last) := by omega
    rw [List.flatMap_cons, h.shown, hpages.once, hlast, htotal, List.range'_append_1]
  shown := by
    refine List.forall_mem_cons.mpr ⟨?_, hpages.shown⟩
    rw [h.text, h.shown, flatMap_range' _ _ _ (by omega)]
  whole := by
    have hchain := (isChain_splitlines content).drop offset
    have hne : ∀ line ∈ content.splitlines.drop offset, line ≠ [] := fun line hmem =>
      ne_nil_of_mem_splitlines (List.mem_of_mem_drop hmem)
    have hdrop : content.splitlines.drop last =
        (content.splitlines.drop offset).drop (last - offset) := by
      rw [List.drop_drop]
      congr 1
      omega
    rw [List.filterMap_cons_some h.text, List.flatten_cons, hpages.whole, hdrop,
      toLf_flatten (hchain.drop _) fun line hmem => hne line (List.mem_of_mem_drop hmem),
      toLf_flatten hchain hne, ← List.flatten_append, ← List.map_append, List.take_append_drop]

/-- **The reads from a line on** end, and show all that follows. -/
theorem exists_pages (hblank : blank (fileDataToString fileData) = false) {limits : ℕ → ℤ}
    (hlimits : ∀ k, 1 ≤ limits k)
    (hoffset : offset < (fileDataToString fileData).splitlines.length) :
    ∃ pages : List ReadResult, (∀ k, page fileData limits offset k = pages[k]?) ∧
      Shows (fileDataToString fileData) offset pages := by
  induction hleft : (fileDataToString fileData).splitlines.length - offset
    using Nat.strong_induction_on generalizing offset limits with
  | _ left ih =>
    obtain ⟨last, hlt, hle, hwindow⟩ := exists_window hblank (hlimits 0) hoffset
    by_cases hmore : last < (fileDataToString fileData).splitlines.length
    · obtain ⟨pages, hread, hshows⟩ := ih _ (by omega) (fun k => hlimits (k + 1)) hmore rfl
      refine ⟨_ :: pages, fun k => ?_, hwindow.shows hlt hle hshows⟩
      cases k with
      | zero => rfl
      | succ k =>
        rw [page, hwindow.next, if_pos hmore]
        exact hread k
    · obtain rfl : last = (fileDataToString fileData).splitlines.length := by omega
      refine ⟨[_], fun k => ?_, hwindow.shows hlt hle (shows_nil _)⟩
      cases k with
      | zero => rfl
      | succ k =>
        rw [page, hwindow.next, if_neg hmore]
        rfl

/-- **Paging loses nothing**: the reads of a content that is not blank end, show every line once and
in order, and hold together the content with its line ends rewritten. -/
theorem paging_spec (hblank : blank (fileDataToString fileData) = false) {limits : ℕ → ℤ}
    (hlimits : ∀ k, 1 ≤ limits k) :
    ∃ pages : List ReadResult, (∀ k, page fileData limits 0 k = pages[k]?) ∧
      Shows (fileDataToString fileData) 0 pages ∧
      (pages.filterMap ReadResult.text?).flatten = toLf (fileDataToString fileData) := by
  have hlines : 0 < (fileDataToString fileData).splitlines.length := by
    refine List.length_pos_iff.mpr fun hnil => ?_
    have hflat := flatten_splitlines (fileDataToString fileData)
    rw [hnil] at hflat
    rw [← hflat] at hblank
    cases hblank
  obtain ⟨pages, hread, hshows⟩ := exists_pages hblank hlimits hlines
  refine ⟨pages, hread, hshows, ?_⟩
  rw [hshows.whole, List.drop_zero, flatten_splitlines]

end

theorem paging_spec_windowsNotes :
    ∃ pages : List ReadResult, (∀ k, page windowsNotes (fun k => k + 1) 0 k = pages[k]?) ∧
      Shows (fileDataToString windowsNotes) 0 pages ∧
      (pages.filterMap ReadResult.text?).flatten = toLf (fileDataToString windowsNotes) :=
  paging_spec (by decide) fun k => by omega

end Backends

end CyranoAgent
