import Mathlib.Data.List.Nodup
import Mathlib.Tactic.Common

/-!
# The first elements of each key

`firsts key seen l` keeps of a list the first element of each key that has not been seen. Every key
of the list that is not seen has one element among them (`exists_mem_firsts`) and no more than one
(`eq_of_mem_firsts`).
-/

namespace Lib

section

variable {α κ : Type} [DecidableEq κ] (key : α → κ)

/-- The first element of each key that is not among the `seen` ones. -/
def firsts (seen : List κ) : List α → List α
  | [] => []
  | a :: l => if key a ∈ seen then firsts seen l else a :: firsts (key a :: seen) l

end

section

variable {α κ : Type} [DecidableEq κ] {key : α → κ} {seen seen' : List κ} {l : List α} {a b : α}

theorem firsts_cons_of_mem (h : key a ∈ seen) : firsts key seen (a :: l) = firsts key seen l :=
  if_pos h

theorem firsts_cons_of_not_mem (h : key a ∉ seen) :
    firsts key seen (a :: l) = a :: firsts key (key a :: seen) l :=
  if_neg h

/-- Only which keys are seen matters. -/
theorem firsts_congr (h : ∀ k, k ∈ seen ↔ k ∈ seen') : firsts key seen l = firsts key seen' l := by
  induction l generalizing seen seen' with
  | nil => rfl
  | cons a l ih =>
    by_cases ha : key a ∈ seen
    · rw [firsts_cons_of_mem ha, firsts_cons_of_mem ((h _).mp ha), ih h]
    · have hcons : ∀ k, k ∈ key a :: seen ↔ k ∈ key a :: seen' := by
        simp only [List.mem_cons, h, implies_true]
      rw [firsts_cons_of_not_mem ha, firsts_cons_of_not_mem fun ha' => ha ((h _).mpr ha'), ih hcons]

theorem firsts_sublist : (firsts key seen l).Sublist l := by
  induction l generalizing seen with
  | nil => exact List.Sublist.slnil
  | cons a l ih =>
    by_cases ha : key a ∈ seen
    · rw [firsts_cons_of_mem ha]
      exact ih.cons a
    · rw [firsts_cons_of_not_mem ha]
      exact ih.cons_cons a

theorem mem_of_mem_firsts (h : a ∈ firsts key seen l) : a ∈ l := firsts_sublist.subset h

theorem not_mem_seen_of_mem_firsts (h : a ∈ firsts key seen l) : key a ∉ seen := by
  induction l generalizing seen with
  | nil => cases h
  | cons b l ih =>
    by_cases hb : key b ∈ seen
    · rw [firsts_cons_of_mem hb] at h
      exact ih h
    · rw [firsts_cons_of_not_mem hb] at h
      obtain rfl | h := List.mem_cons.mp h
      · exact hb
      · exact fun ha => ih h (List.mem_cons_of_mem _ ha)

/-- A key that is not seen has an element among the first ones. -/
theorem exists_mem_firsts (ha : a ∈ l) (hseen : key a ∉ seen) :
    ∃ b ∈ firsts key seen l, key b = key a := by
  induction l generalizing seen with
  | nil => cases ha
  | cons c l ih =>
    by_cases hc : key c ∈ seen
    · rw [firsts_cons_of_mem hc]
      obtain rfl | ha := List.mem_cons.mp ha
      · exact absurd hc hseen
      · exact ih ha hseen
    · rw [firsts_cons_of_not_mem hc]
      by_cases hac : key c = key a
      · exact ⟨c, List.mem_cons_self, hac⟩
      · obtain rfl | ha := List.mem_cons.mp ha
        · exact absurd rfl hac
        · obtain ⟨b, hb, hkey⟩ := ih ha fun h => (List.mem_cons.mp h).elim (hac ·.symm) hseen
          exact ⟨b, List.mem_cons_of_mem _ hb, hkey⟩

/-- The first elements have different keys. -/
theorem firsts_keys_nodup : ((firsts key seen l).map key).Nodup := by
  induction l generalizing seen with
  | nil => exact List.nodup_nil
  | cons a l ih =>
    by_cases ha : key a ∈ seen
    · rw [firsts_cons_of_mem ha]
      exact ih
    · rw [firsts_cons_of_not_mem ha, List.map_cons, List.nodup_cons, List.mem_map]
      refine ⟨?_, ih⟩
      rintro ⟨b, hb, hkey⟩
      exact not_mem_seen_of_mem_firsts hb (hkey ▸ List.mem_cons_self)

theorem eq_of_mem_firsts (ha : a ∈ firsts key seen l) (hb : b ∈ firsts key seen l)
    (hkey : key a = key b) : a = b :=
  List.inj_on_of_nodup_map firsts_keys_nodup ha hb hkey

/-- The first elements of one list more are those of the list, and those of the rest whose keys the
list has not. -/
theorem firsts_append {l' : List α} :
    firsts key seen (l ++ l') = firsts key seen l ++ firsts key (l.map key ++ seen) l' := by
  induction l generalizing seen with
  | nil => rfl
  | cons a l ih =>
    rw [List.cons_append, List.map_cons, List.cons_append]
    by_cases ha : key a ∈ seen
    · have hseen : ∀ k, k ∈ l.map key ++ seen ↔ k ∈ key a :: (l.map key ++ seen) := by
        intro k
        rw [List.mem_cons, List.mem_append]
        exact ⟨Or.inr, fun h => h.elim (fun hk => Or.inr (hk ▸ ha)) id⟩
      rw [firsts_cons_of_mem ha, firsts_cons_of_mem ha, ih, firsts_congr hseen]
    · have hseen : ∀ k, k ∈ l.map key ++ key a :: seen ↔ k ∈ key a :: (l.map key ++ seen) := by
        intro k
        simp only [List.mem_append, List.mem_cons]
        tauto
      rw [firsts_cons_of_not_mem ha, firsts_cons_of_not_mem ha, ih, List.cons_append,
        firsts_congr hseen]

/-- The first elements of the images of a list. -/
theorem firsts_map {β : Type} {f : β → α} {l : List β} :
    firsts key seen (l.map f) = (firsts (key ∘ f) seen l).map f := by
  induction l generalizing seen with
  | nil => rfl
  | cons b l ih =>
    rw [List.map_cons, firsts, firsts, Function.comp_apply]
    split
    · exact ih
    · rw [ih, List.map_cons]

/-- An element of a list is a first one when the list finds it at its key. -/
theorem mem_firsts_iff :
    a ∈ firsts key seen l ↔ key a ∉ seen ∧ l.find? (fun b => key b = key a) = some a := by
  induction l generalizing seen with
  | nil => simp [firsts]
  | cons b l ih =>
    by_cases hb : key b ∈ seen
    · rw [firsts_cons_of_mem hb, ih]
      refine and_congr_right fun ha => ?_
      rw [List.find?_cons_of_neg (by simpa using fun h : key b = key a => ha (h ▸ hb))]
    · rw [firsts_cons_of_not_mem hb, List.mem_cons, ih]
      by_cases hab : key b = key a
      · rw [List.find?_cons_of_pos (by simpa using hab), Option.some.injEq]
        constructor
        · rintro (rfl | ⟨ha, -⟩)
          · exact ⟨hb, rfl⟩
          · exact absurd (hab ▸ List.mem_cons_self) ha
        · rintro ⟨-, rfl⟩
          exact Or.inl rfl
      · rw [List.find?_cons_of_neg (by simpa using hab), List.mem_cons, not_or]
        constructor
        · rintro (rfl | ⟨⟨-, ha⟩, hfind⟩)
          · exact absurd rfl hab
          · exact ⟨ha, hfind⟩
        · rintro ⟨ha, hfind⟩
          exact Or.inr ⟨⟨fun h => hab h.symm, ha⟩, hfind⟩

end

/-! ### Lists without repetitions -/

section

variable {α : Type} [BEq α] [LawfulBEq α] {l : List α} {a : α}

theorem nodup_eraseDups (l : List α) : l.eraseDups.Nodup := by
  induction hn : l.length using Nat.strongRecOn generalizing l with
  | _ n ih =>
    cases l with
    | nil => simp
    | cons a l =>
      have hle := List.length_filter_le (fun b => !b == a) l
      rw [List.eraseDups_cons, List.nodup_cons, List.mem_eraseDups]
      rw [List.length_cons] at hn
      exact ⟨by simp, ih _ (by omega) _ rfl⟩

theorem eraseDups_of_nodup (h : l.Nodup) : l.eraseDups = l := by
  induction l with
  | nil => rfl
  | cons a l ih =>
    obtain ⟨ha, hl⟩ := List.nodup_cons.mp h
    have hfilter : l.filter (fun b => !b == a) = l :=
      List.filter_eq_self.mpr fun b hb => by
        simpa using fun heq : b = a => ha (heq ▸ hb)
    rw [List.eraseDups_cons, hfilter, ih hl]

/-- What is there is not added again. -/
theorem eraseDups_concat_of_mem (h : l.Nodup) (ha : a ∈ l) : (l ++ [a]).eraseDups = l := by
  have hremove : [a].removeAll l = [] := by simpa [List.removeAll] using ha
  rw [List.eraseDups_append, eraseDups_of_nodup h, hremove, List.eraseDups_nil, List.append_nil]

end

end Lib
