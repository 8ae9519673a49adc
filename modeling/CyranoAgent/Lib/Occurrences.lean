import Mathlib.Data.List.Infix
import Mathlib.Tactic.Common

/-!
# Parts that a text contains

`InOrder parts text` says that the parts occur in a text one after the other, without overlap. A
text keeps its parts when something is put before or behind it (`InOrder.prepend`,
`InOrder.extend`), and the parts of two texts occur in their concatenation (`InOrder.append`).

`splitOff` takes the occurrences of a list from left to right, without overlap, and keeps what is
between them. It finds one occurrence when there is one and no two of them are apart
(`length_splitOff_eq_two_iff`), so that others may overlap with the one it finds.
-/

namespace Lib

variable {α : Type} {parts parts' : List (List α)} {text text' part : List α}

/-- The parts occur in the text, in order and apart. -/
def InOrder : List (List α) → List α → Prop
  | [], _ => True
  | part :: parts, text => ∃ front back, text = front ++ part ++ back ∧ InOrder parts back

theorem inOrder_nil (text : List α) : InOrder [] text := trivial

/-- A longer front keeps the parts. -/
theorem InOrder.prepend (h : InOrder parts text) (front : List α) :
    InOrder parts (front ++ text) := by
  cases parts with
  | nil => trivial
  | cons part parts =>
    obtain ⟨front', back, rfl, hback⟩ := h
    exact ⟨front ++ front', back, by simp, hback⟩

/-- The parts of two texts occur in their concatenation. -/
theorem InOrder.append (h : InOrder parts text) (h' : InOrder parts' text') :
    InOrder (parts ++ parts') (text ++ text') := by
  induction parts generalizing text with
  | nil => exact h'.prepend text
  | cons part parts ih =>
    obtain ⟨front, back, rfl, hback⟩ := h
    exact ⟨front, back ++ text', by simp, ih hback⟩

/-- A longer back keeps the parts. -/
theorem InOrder.extend (h : InOrder parts text) (back : List α) : InOrder parts (text ++ back) := by
  simpa using h.append (inOrder_nil back)

theorem inOrder_singleton (part : List α) : InOrder [part] part := ⟨[], [], by simp, trivial⟩

/-- Parts that are joined occur in order. -/
theorem inOrder_intercalate (separator : List α) (parts : List (List α)) :
    InOrder parts (separator.intercalate parts) := by
  induction parts with
  | nil => trivial
  | cons part parts ih =>
    cases parts with
    | nil => simpa [List.intercalate] using inOrder_singleton part
    | cons next parts =>
      refine ⟨[], separator ++ separator.intercalate (next :: parts), ?_, ih.prepend separator⟩
      simp [List.intercalate]

/-- Each part occurs in the text. -/
theorem InOrder.infix_of_mem (h : InOrder parts text) (hmem : part ∈ parts) : part <:+: text := by
  induction parts generalizing text with
  | nil => cases hmem
  | cons first parts ih =>
    obtain ⟨front, back, rfl, hback⟩ := h
    rcases List.mem_cons.mp hmem with rfl | hmem
    · exact List.infix_append front part back
    · exact (ih hback hmem).trans (List.suffix_append _ back).isInfix

/-! ### Occurrences from left to right -/

section

variable {old : List α} {p q k : ℕ} {c : α} {rest : List α}

/-- A list occurs at a place of a text. -/
def OccursAt (old text : List α) (p : ℕ) : Prop := old <+: text.drop p

instance [DecidableEq α] (old text : List α) (p : ℕ) : Decidable (OccursAt old text p) :=
  inferInstanceAs (Decidable (_ <+: _))

theorem occursAt_drop : OccursAt old (text.drop k) q ↔ OccursAt old text (k + q) := by
  rw [OccursAt, OccursAt, List.drop_drop]

theorem occursAt_cons_succ : OccursAt old (c :: rest) (p + 1) ↔ OccursAt old rest p := by
  rw [OccursAt, OccursAt, List.drop_succ_cons]

/-- The text around an occurrence. -/
theorem OccursAt.split (h : OccursAt old text p) :
    text = text.take p ++ old ++ text.drop (p + old.length) := by
  obtain ⟨back, hback⟩ := h
  have hrest : text.drop (p + old.length) = back := by
    rw [← List.drop_drop, ← hback, List.drop_left]
  rw [hrest, List.append_assoc, hback, List.take_append_drop]

/-- A list occurs behind what is in front of it. -/
theorem occursAt_length (front old back : List α) :
    OccursAt old (front ++ old ++ back) front.length := by
  rw [OccursAt, List.append_assoc, List.drop_left]
  exact List.prefix_append _ _

variable [DecidableEq α]

/-- What is between the occurrences of a list that are taken from left to right, without overlap.
The first elements of the text may belong to the occurrence before. -/
def splitOff (old : List α) : ℕ → List α → List (List α)
  | _, [] => [[]]
  | skip + 1, _ :: rest => splitOff old skip rest
  | 0, c :: rest =>
    if old.isPrefixOf (c :: rest) then [] :: splitOff old (old.length - 1) rest
    else (splitOff old 0 rest).modifyHead (c :: ·)

theorem splitOff_eq_drop (old : List α) (k : ℕ) (text : List α) :
    splitOff old k text = splitOff old 0 (text.drop k) := by
  induction text generalizing k with
  | nil => rw [List.drop_nil, splitOff, splitOff]
  | cons c rest ih =>
    cases k with
    | zero => rfl
    | succ k => exact ih k

/-- **The first occurrence** of a list ends the first part, and the search goes on behind it. -/
theorem splitOff_cases (hne : old ≠ []) (text : List α) :
    (splitOff old 0 text = [text] ∧ ∀ p, ¬OccursAt old text p) ∨
    ∃ p, OccursAt old text p ∧ (∀ q < p, ¬OccursAt old text q) ∧
      splitOff old 0 text = text.take p :: splitOff old 0 (text.drop (p + old.length)) := by
  induction text with
  | nil =>
    refine .inl ⟨rfl, fun p h => hne ?_⟩
    rw [OccursAt, List.drop_nil] at h
    exact List.prefix_nil.mp h
  | cons c rest ih =>
    by_cases hstart : old.isPrefixOf (c :: rest) = true
    · refine .inr ⟨0, List.isPrefixOf_iff_prefix.mp hstart, fun q hq => absurd hq q.not_lt_zero, ?_⟩
      have hpos : 0 < old.length := List.length_pos_iff.mpr hne
      rw [splitOff, if_pos hstart, splitOff_eq_drop, List.take_zero, Nat.zero_add,
        ← Nat.succ_pred_eq_of_pos hpos]
      rfl
    · have hzero : ¬OccursAt old (c :: rest) 0 := fun h =>
        hstart (List.isPrefixOf_iff_prefix.mpr h)
      rw [splitOff, if_neg hstart]
      rcases ih with ⟨hwhole, hnone⟩ | ⟨p, hp, hfirst, hsplit⟩
      · rw [hwhole]
        refine .inl ⟨rfl, fun q => ?_⟩
        cases q with
        | zero => exact hzero
        | succ q => exact fun h => hnone q (occursAt_cons_succ.mp h)
      · rw [hsplit]
        refine .inr ⟨p + 1, occursAt_cons_succ.mpr hp, fun q hq => ?_, ?_⟩
        · cases q with
          | zero => exact hzero
          | succ q => exact fun h => hfirst q (Nat.lt_of_succ_lt_succ hq) (occursAt_cons_succ.mp h)
        · rw [List.modifyHead_cons, List.take_succ_cons, Nat.add_right_comm, List.drop_succ_cons]

theorem splitOff_ne_nil (hne : old ≠ []) : splitOff old 0 text ≠ [] := by
  rcases splitOff_cases hne text with ⟨h, -⟩ | ⟨p, -, -, h⟩ <;> rw [h] <;>
    exact List.cons_ne_nil _ _

/-- **Joined by the list, the parts are the text.** -/
theorem intercalate_splitOff (hne : old ≠ []) (text : List α) :
    old.intercalate (splitOff old 0 text) = text := by
  induction hlen : text.length using Nat.strong_induction_on generalizing text with
  | _ n ih =>
    rcases splitOff_cases hne text with ⟨h, -⟩ | ⟨p, hp, -, h⟩
    · rw [h, List.intercalate_singleton]
    · have hshort : (text.drop (p + old.length)).length < n := by
        have hpos : 0 < old.length := List.length_pos_iff.mpr hne
        have htext : 0 < text.length := by
          rw [hp.split]
          simp only [List.length_append]
          omega
        rw [List.length_drop]
        omega
      rw [h, List.intercalate_cons_of_ne_nil (splitOff_ne_nil hne), ih _ hshort _ rfl]
      exact hp.split.symm

/-- No occurrence is found when there is none. -/
theorem length_splitOff_eq_one_iff (hne : old ≠ []) :
    (splitOff old 0 text).length = 1 ↔ ∀ p, ¬OccursAt old text p := by
  rcases splitOff_cases hne text with ⟨h, hnone⟩ | ⟨p, hp, -, h⟩
  · simp [h, hnone]
  · have hrest : 0 < (splitOff old 0 (text.drop (p + old.length))).length :=
      List.length_pos_iff.mpr (splitOff_ne_nil hne)
    rw [h, List.length_cons]
    exact ⟨fun hone => by omega, fun hnone => absurd hp (hnone p)⟩

/-- **One occurrence is found** when there is one, and no two of them are apart. -/
theorem length_splitOff_eq_two_iff (hne : old ≠ []) :
    (splitOff old 0 text).length = 2 ↔
      (∃ p, OccursAt old text p) ∧
        ∀ p q, OccursAt old text p → OccursAt old text q → q < p + old.length := by
  rcases splitOff_cases hne text with ⟨h, hnone⟩ | ⟨start, hstart, hleast, h⟩
  · rw [h]
    exact ⟨fun htwo => absurd htwo (by simp), fun ⟨⟨p, hp⟩, _⟩ => absurd hp (hnone p)⟩
  · rw [h, List.length_cons, Nat.succ_inj, length_splitOff_eq_one_iff hne]
    simp only [occursAt_drop]
    constructor
    · refine fun hnone => ⟨⟨start, hstart⟩, fun p q hp hq => ?_⟩
      by_contra hle
      have hlater : start ≤ p := not_lt.mp fun hlt => hleast p hlt hp
      refine hnone (q - (start + old.length)) ?_
      rwa [Nat.add_sub_cancel' (by omega)]
    · rintro ⟨-, hnear⟩ q hq
      have hlt := hnear start _ hstart hq
      omega

end

end Lib
