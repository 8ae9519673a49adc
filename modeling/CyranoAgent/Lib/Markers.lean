import Mathlib.Data.List.Infix
import Mathlib.Tactic.Common

/-!
# Texts that are joined by a marker

A text that is put together from parts, with a marker between them, can be taken apart again when
the marker is in none of the parts and does not overlap with itself (`intercalate_injective`). A
marker is without a border when no end of it is a start of it too; what stands in front of it in a
text is then the same in every reading (`eq_of_append_marker`).
-/

namespace Lib

variable {α : Type} {marker front front' back back' part : List α}

/-- No end of a list, but itself, is a start of it. -/
def Unbordered (marker : List α) : Prop :=
  ∀ k < marker.length, 0 < k → ¬marker.drop k <+: marker

instance [DecidableEq α] (marker : List α) : Decidable (Unbordered marker) :=
  inferInstanceAs (Decidable (∀ k < marker.length, _))

/-- What stands in front of a marker is no longer than what stands in front of another one, unless
the marker is in it. -/
theorem prefix_of_append_marker (hmarker : Unbordered marker)
    (h : front ++ marker ++ back = front' ++ marker ++ back') (hfront' : ¬marker <:+: front')
    (hle : front.length ≤ front'.length) : front = front' := by
  have hprefix : front <+: front' := by
    have hfirst : front <+: front ++ marker ++ back := by
      rw [List.append_assoc]
      exact List.prefix_append _ _
    refine List.prefix_of_prefix_length_le hfirst ?_ hle
    rw [h, List.append_assoc]
    exact List.prefix_append _ _
  obtain ⟨gap, rfl⟩ := hprefix
  have h : marker ++ back = gap ++ marker ++ back' := by
    simpa only [List.append_assoc, List.append_cancel_left_eq] using h
  by_cases hgap : gap = []
  · rw [hgap, List.append_nil]
  exfalso
  rcases le_or_gt marker.length gap.length with hlong | hshort
  · -- the marker is in the gap
    have hin : marker <+: gap := by
      refine List.prefix_of_prefix_length_le (List.prefix_append marker back) ?_ hlong
      rw [h, List.append_assoc]
      exact List.prefix_append _ _
    exact hfront' (hin.isInfix.trans (List.suffix_append front gap).isInfix)
  · -- the marker goes on behind the gap, where it starts again
    refine hmarker gap.length hshort (List.length_pos_iff.mpr hgap) ?_
    have hdrop := congrArg (List.drop gap.length) h
    rw [List.append_assoc gap, List.drop_left, List.drop_append_of_le_length hshort.le] at hdrop
    have hagain : marker.drop gap.length <+: marker ++ back' := by
      rw [← hdrop]
      exact List.prefix_append _ _
    refine List.prefix_of_prefix_length_le hagain (List.prefix_append _ _) ?_
    rw [List.length_drop]
    exact Nat.sub_le _ _

/-- **A text is taken apart at a marker in one way**, if the marker is in neither front. -/
theorem eq_of_append_marker (hmarker : Unbordered marker) (hfront : ¬marker <:+: front)
    (hfront' : ¬marker <:+: front') (h : front ++ marker ++ back = front' ++ marker ++ back') :
    front = front' ∧ back = back' := by
  have hsame : front = front' := by
    rcases le_total front.length front'.length with hle | hle
    · exact prefix_of_append_marker hmarker h hfront' hle
    · exact (prefix_of_append_marker hmarker h.symm hfront hle).symm
  subst hsame
  exact ⟨rfl, List.append_cancel_left h⟩

/-- **Parts that are joined by a marker are found again**, if the marker is in none of them. -/
theorem intercalate_injective (hmarker : Unbordered marker) {parts parts' : List (List α)}
    (hne : parts ≠ []) (hne' : parts' ≠ []) (hparts : ∀ part ∈ parts, ¬marker <:+: part)
    (hparts' : ∀ part ∈ parts', ¬marker <:+: part)
    (h : marker.intercalate parts = marker.intercalate parts') : parts = parts' := by
  -- a part that goes on in the other reading would have the marker in it
  have hlone {part next : List α} {others : List (List α)} (hpart : ¬marker <:+: part)
      (h : part = marker.intercalate (next :: others)) : others = [] := by
    cases others with
    | nil => rfl
    | cons other others =>
      rw [List.intercalate_cons_cons] at h
      refine absurd ?_ hpart
      rw [h, List.append_assoc]
      exact ⟨next, _, (List.append_assoc _ _ _)⟩
  induction parts generalizing parts' with
  | nil => exact absurd rfl hne
  | cons part parts ih =>
    obtain ⟨part', parts', rfl⟩ := List.exists_cons_of_ne_nil hne'
    have hpart := hparts part List.mem_cons_self
    have hpart' := hparts' part' List.mem_cons_self
    by_cases hnil : parts = []
    · subst hnil
      rw [List.intercalate_singleton] at h
      have hnil' := hlone hpart h
      subst hnil'
      rw [h, List.intercalate_singleton]
    by_cases hnil' : parts' = []
    · subst hnil'
      rw [List.intercalate_singleton] at h
      exact absurd (hlone hpart' h.symm) hnil
    rw [List.intercalate_cons_of_ne_nil hnil, List.intercalate_cons_of_ne_nil hnil'] at h
    obtain ⟨hhead, htail⟩ := eq_of_append_marker hmarker hpart hpart' h
    rw [hhead, ih hnil hnil' (fun q hq => hparts q (List.mem_cons_of_mem _ hq))
      (fun q hq => hparts' q (List.mem_cons_of_mem _ hq)) htail]

/-- A marker in a text with something around it is in the text, if it neither starts in front of it
nor ends behind it. -/
theorem infix_of_infix_around {a b : α} {body : List α}
    (h : a :: body ++ [b] <:+: front ++ part ++ back) (hfront : a ∉ front) (hback : b ∉ back) :
    a :: body ++ [b] <:+: part := by
  obtain ⟨before, after, h⟩ := h
  rw [List.append_assoc, List.append_assoc front] at h
  obtain ⟨gap, hgap⟩ : ∃ gap, gap ++ (a :: body ++ [b]) ++ after = part ++ back := by
    rcases List.append_eq_append_iff.mp h with ⟨gap, rfl, hrest⟩ | ⟨gap, rfl, hrest⟩
    · cases gap with
      | nil => exact ⟨[], by simpa using hrest⟩
      | cons c gap =>
        obtain rfl : a = c := by simpa using congrArg List.head? hrest
        exact absurd (List.mem_append_right _ List.mem_cons_self) hfront
    · exact ⟨gap, by rw [hrest, List.append_assoc]⟩
  rcases List.append_eq_append_iff.mp hgap with ⟨rest, rfl, -⟩ | ⟨rest, hrest, rfl⟩
  · exact ⟨gap, rest, rfl⟩
  · rcases List.eq_nil_or_concat rest with rfl | ⟨init, c, rfl⟩
    · rw [List.append_nil] at hrest
      exact ⟨gap, [], by rw [List.append_nil, hrest]⟩
    · obtain rfl : b = c := by
        have hlast := congrArg List.getLast? hrest
        rw [← List.append_assoc, List.getLast?_concat, List.concat_eq_append, ← List.append_assoc,
          List.getLast?_concat] at hlast
        exact Option.some.inj hlast
      exact absurd (List.mem_append_left _ (by simp)) hback

end Lib
