import CyranoAgent.Lib.Lines
import CyranoAgent.Lib.Occurrences

/-!
# Replacing a string in a file

`performStringReplacement` counts the occurrences of a string from left to right, without overlap,
and refuses an edit that is not for all of them when it counts more than one. An edit is ambiguous
as soon as the string occurs at two places, also when these overlap. The code finds out exactly when
two of the occurrences are apart (`edits_iff`).
-/

namespace CyranoAgent

namespace Backends

open Lib

/-! ### The replacement -/

/-- `content.count(old)`, of a string that is not empty. -/
def count (old content : Text) : ℕ := (splitOff old 0 content).length - 1

/-- `content.replace(old, new)`, of a string that is not empty. -/
def replace (old new content : Text) : Text := new.intercalate (splitOff old 0 content)

/-- `EMPTY_OLD_STRING_ERROR`. -/
def emptyOldStringError : String :=
  "Error: old_string cannot be empty. Provide the exact text to replace."

/-- The error for a string that does not occur. -/
def notFoundError (content old : Text) : String :=
  -- a string that ends with a line feed may miss it at the end of the file only
  if old.getLast? = some '\n' ∧ 1 < old.length ∧ old.dropLast <:+ content then
    if count old.dropLast content = 1 then
      "Error: old_string ends with a newline, but the file does not end with a newline. Retry " ++
      "with the trailing newline removed from old_string (and from new_string if it also ends " ++
      "with a newline)."
    else
      "Error: old_string ends with a newline, but the file does not end with a newline. With " ++
      s!"the trailing newline removed, old_string would appear {count old.dropLast content} " ++
      "times in the file. Retry with the trailing newline removed and add surrounding context " ++
      "so the match is unique."
  else s!"Error: String not found in file: '{String.ofList old}'"

/-- `perform_string_replacement`: the new content and the number of occurrences, or an error. -/
def performStringReplacement (content old new : Text) (replaceAll : Bool) :
    Except String (Text × ℕ) :=
  if old = [] then .error emptyOldStringError
  else
    let occurrences := count old content
    if occurrences = 0 then .error (notFoundError content old)
    else if 1 < occurrences ∧ replaceAll = false then
      .error (s!"Error: String '{String.ofList old}' appears {occurrences} times in file. Use " ++
        "replace_all=True to replace all instances, or provide a more specific string with " ++
        "surrounding context.")
    else .ok (replace old new content, occurrences)

/-! ### What is asked of an edit -/

/-- The string occurs at one place of the content, overlapping occurrences counted. -/
def Unique (old content : Text) : Prop := ∃! p, OccursAt old content p

/-- What is asked of an outcome. An edit of all occurrences keeps the parts between those that it
replaces and counts; any other edit replaces the only occurrence. There is an error otherwise. -/
def Edits (content old new : Text) (replaceAll : Bool) : Except String (Text × ℕ) → Prop
  | .ok (edited, occurrences) =>
    if replaceAll then
      ∃ parts, parts.length = occurrences + 1 ∧ 0 < occurrences ∧
        content = old.intercalate parts ∧ edited = new.intercalate parts
    else
      ∃ before after, content = before ++ old ++ after ∧ edited = before ++ new ++ after ∧
        ∀ p, OccursAt old content p ↔ p = before.length
  | .error _ => if replaceAll then ∀ p, ¬OccursAt old content p else ¬Unique old content

/-- When the string occurs at two places, two of them do not overlap. -/
def Separates (old content : Text) : Prop :=
  ∀ p q, OccursAt old content p → OccursAt old content q → p < q →
    ∃ p' q', OccursAt old content p' ∧ OccursAt old content q' ∧ p' + old.length ≤ q'

section

variable {content old new : Text} {replaceAll : Bool}

theorem length_splitOff (hne : old ≠ []) :
    (splitOff old 0 content).length = count old content + 1 := by
  have hpos : 0 < (splitOff old 0 content).length :=
    List.length_pos_iff.mpr (splitOff_ne_nil hne)
  rw [count]
  omega

theorem count_eq_zero_iff (hne : old ≠ []) :
    count old content = 0 ↔ ∀ p, ¬OccursAt old content p := by
  rw [← length_splitOff_eq_one_iff hne, length_splitOff hne, Nat.add_eq_right]

theorem count_eq_one_iff (hne : old ≠ []) :
    count old content = 1 ↔ (∃ p, OccursAt old content p) ∧
      ∀ p q, OccursAt old content p → OccursAt old content q → q < p + old.length := by
  rw [← length_splitOff_eq_two_iff hne, length_splitOff hne, Nat.succ_inj]

/-- Two occurrences that are apart are counted. -/
theorem one_lt_count (hne : old ≠ []) {p q : ℕ} (hp : OccursAt old content p)
    (hq : OccursAt old content q) (hpq : p + old.length ≤ q) : 1 < count old content := by
  have hzero : count old content ≠ 0 := fun h => (count_eq_zero_iff hne).mp h p hp
  have hone : count old content ≠ 1 := fun h =>
    absurd (((count_eq_one_iff hne).mp h).2 p q hp hq) (not_lt.mpr hpq)
  omega

/-- When more than one is counted, two occurrences are apart. -/
theorem exists_of_one_lt_count (hne : old ≠ []) (h : 1 < count old content) :
    ∃ p q, OccursAt old content p ∧ OccursAt old content q ∧ p + old.length ≤ q := by
  by_contra hnone
  push Not at hnone
  have hsome : ∃ p, OccursAt old content p := by
    by_contra hnot
    push Not at hnot
    have hzero := (count_eq_zero_iff hne).mpr hnot
    omega
  have hone := (count_eq_one_iff hne).mpr ⟨hsome, hnone⟩
  omega

/-- The one counted occurrence is replaced. -/
theorem exists_replace_eq (hne : old ≠ []) (hone : count old content = 1) :
    ∃ p, OccursAt old content p ∧
      replace old new content = content.take p ++ new ++ content.drop (p + old.length) := by
  have hlength : (splitOff old 0 content).length = _ := length_splitOff hne
  rcases splitOff_cases hne content with ⟨hwhole, -⟩ | ⟨p, hp, -, hsplit⟩
  · rw [hwhole, hone] at hlength
    cases hlength
  · refine ⟨p, hp, ?_⟩
    rw [hsplit, hone, List.length_cons, Nat.succ_inj, length_splitOff_eq_one_iff hne] at hlength
    rcases splitOff_cases hne (content.drop (p + old.length)) with ⟨hrest, -⟩ | ⟨q, hq, -⟩
    · rw [replace, hsplit, hrest, List.intercalate_cons_cons, List.intercalate_singleton]
    · exact absurd hq (hlength q)

/-- An edit of the one counted occurrence is as asked when it is the only one. -/
theorem edits_one (hne : old ≠ []) (hone : count old content = 1) :
    Edits content old new false (.ok (replace old new content, 1)) ↔ Unique old content := by
  constructor
  · rintro ⟨before, after, -, -, honly⟩
    exact ⟨before.length, (honly _).mpr rfl, fun p hp => (honly p).mp hp⟩
  · rintro ⟨q, -, honly⟩
    obtain ⟨p, hp, hreplace⟩ := exists_replace_eq hne hone
    obtain rfl := honly p hp
    refine ⟨content.take p, content.drop (p + old.length), hp.split, hreplace, fun p' => ?_⟩
    have hle : p ≤ content.length := by
      have hfits := congrArg List.length hp.split
      have hpos := List.length_pos_iff.mpr hne
      simp only [List.length_append, List.length_take, List.length_drop] at hfits
      omega
    rw [List.length_take, Nat.min_eq_left hle]
    exact ⟨honly p', fun h => h ▸ hp⟩

/-- The one counted occurrence is the only one, or overlaps with another one. -/
theorem unique_iff_separates (hne : old ≠ []) (hone : count old content = 1) :
    Unique old content ↔ Separates old content := by
  obtain ⟨⟨p, hp⟩, hnear⟩ := (count_eq_one_iff hne).mp hone
  constructor
  · rintro ⟨only, -, honly⟩ p q hp hq hlt
    rw [honly p hp, honly q hq] at hlt
    exact absurd hlt (lt_irrefl only)
  · intro hseparates
    have hle : ∀ p q, OccursAt old content p → OccursAt old content q → ¬p < q := by
      intro p q hp hq hlt
      obtain ⟨p', q', hp', hq', happart⟩ := hseparates p q hp hq hlt
      exact absurd (hnear p' q' hp' hq') (not_lt.mpr happart)
    exact ⟨p, hp, fun q hq => le_antisymm (not_lt.mp (hle p q hp hq)) (not_lt.mp (hle q p hq hp))⟩

/-- **An edit is as asked** exactly when it is for all occurrences, or the string occurs at one
place at most, or two of the places are apart. -/
theorem edits_iff (hne : old ≠ []) :
    Edits content old new replaceAll (performStringReplacement content old new replaceAll) ↔
      replaceAll = true ∨ Separates old content := by
  rw [performStringReplacement, if_neg hne]
  dsimp only
  by_cases hzero : count old content = 0
  · have hnone := (count_eq_zero_iff hne).mp hzero
    rw [if_pos hzero]
    refine iff_of_true ?_ (.inr fun p _ hp => absurd hp (hnone p))
    cases replaceAll with
    | true => exact hnone
    | false => exact fun ⟨p, hp, _⟩ => hnone p hp
  rw [if_neg hzero]
  cases replaceAll with
  | true =>
    rw [if_neg (by simp)]
    refine iff_of_true ?_ (.inl rfl)
    exact ⟨splitOff old 0 content, length_splitOff hne, Nat.pos_of_ne_zero hzero,
      (intercalate_splitOff hne content).symm, rfl⟩
  | false =>
    by_cases hmany : 1 < count old content
    · rw [if_pos ⟨hmany, rfl⟩]
      obtain ⟨p, q, hp, hq, happart⟩ := exists_of_one_lt_count hne hmany
      refine iff_of_true ?_ (.inr fun _ _ _ _ _ => ⟨p, q, hp, hq, happart⟩)
      rintro ⟨only, -, honly⟩
      have hpos := List.length_pos_iff.mpr hne
      rw [honly p hp, honly q hq] at happart
      omega
    · have hone : count old content = 1 := by omega
      rw [if_neg fun h => hmany h.1, hone, edits_one hne hone, unique_iff_separates hne hone]
      simp

theorem edits_iff_once : "b".toList ≠ [] ∧
    (Edits "abc".toList "b".toList "x".toList false
        (performStringReplacement "abc".toList "b".toList "x".toList false) ↔
      false = true ∨ Separates "b".toList "abc".toList) :=
  ⟨by decide, edits_iff (by decide)⟩

/-- **An ambiguous edit goes through**: the string occurs at two places that overlap. -/
theorem not_edits_overlapping : ¬∀ content old new replaceAll, old ≠ [] →
    Edits content old new replaceAll (performStringReplacement content old new replaceAll) := by
  intro hclaim
  obtain ⟨before, after, -, -, honly⟩ :
      Edits "aaa".toList "aa".toList "b".toList false (.ok ("ba".toList, 1)) :=
    hclaim "aaa".toList "aa".toList "b".toList false (by decide)
  have hfirst := (honly 0).mp (by decide)
  have hsecond := (honly 1).mp (by decide)
  omega

end

end Backends

end CyranoAgent
