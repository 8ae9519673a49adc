import Mathlib.Data.List.Sort

/-!
# The first of a ranking

What stands among the first `n` of a sorted list is what fewer than `n` others rank before
(`mem_take_insertionSort_iff`), and the first that meets a condition ranks before all others that
meet it (`of_find?_insertionSort`).
-/

namespace Lib

section

variable {α : Type} {r : α → α → Prop} [DecidableRel r] {a : α} {l : List α}

/-- An element of a sorted list is among the first `n` when fewer than `n` stand before it. -/
theorem mem_take_iff_of_pairwise [Std.Refl r] (hsorted : l.Pairwise r) (hnodup : l.Nodup)
    (hantisymm : ∀ b ∈ l, r a b → r b a → a = b) (ha : a ∈ l) (n : ℕ) :
    a ∈ l.take n ↔ (l.countP fun b => ¬r a b) < n := by
  induction l generalizing n with
  | nil => exact absurd ha List.not_mem_nil
  | cons b l ih =>
    obtain ⟨hbefore, hsorted⟩ := List.pairwise_cons.mp hsorted
    obtain ⟨hb, hnodup⟩ := List.nodup_cons.mp hnodup
    cases n with
    | zero => simp
    | succ n =>
      rcases List.mem_cons.mp ha with rfl | hmem
      · -- nothing stands before the head
        have hhead : ∀ c ∈ a :: l, r a c := List.forall_mem_cons.mpr ⟨refl_of r a, hbefore⟩
        have hcount : ((a :: l).countP fun c => ¬r a c) = 0 :=
          List.countP_eq_zero.mpr fun c hc => by simpa using hhead c hc
        rw [hcount]
        exact iff_of_true List.mem_cons_self n.succ_pos
      · have hne : a ≠ b := fun h => hb (h ▸ hmem)
        have hba : ¬r a b := fun h =>
          hne (hantisymm b List.mem_cons_self h (hbefore a hmem))
        rw [List.take_succ_cons, List.mem_cons, or_iff_right hne,
          List.countP_cons_of_pos (by simpa using hba), Nat.succ_lt_succ_iff]
        exact ih hsorted hnodup (fun c hc => hantisymm c (List.mem_cons_of_mem b hc)) hmem n

/-- **The first `n` of a ranking** are those that fewer than `n` others rank before. -/
theorem mem_take_insertionSort_iff [Std.Total r] [IsTrans α r] (hnodup : l.Nodup)
    (hantisymm : ∀ b ∈ l, r a b → r b a → a = b) (n : ℕ) :
    a ∈ (l.insertionSort r).take n ↔ a ∈ l ∧ (l.countP fun b => ¬r a b) < n := by
  have hperm := List.perm_insertionSort r l
  by_cases ha : a ∈ l
  · rw [mem_take_iff_of_pairwise (List.pairwise_insertionSort r l) (hperm.nodup_iff.mpr hnodup)
      (fun b hb => hantisymm b (hperm.mem_iff.mp hb)) (hperm.mem_iff.mpr ha), hperm.countP_eq,
      and_iff_right ha]
  · exact iff_of_false (fun h => ha (hperm.mem_iff.mp (List.mem_of_mem_take h))) fun h => ha h.1

/-- **The first of a ranking that meets a condition** ranks before every other that does. -/
theorem of_find?_insertionSort [Std.Total r] [IsTrans α r] {p : α → Bool}
    (h : (l.insertionSort r).find? p = some a) : a ∈ l ∧ p a ∧ ∀ b ∈ l, p b → r a b := by
  obtain ⟨hp, before, after, hsplit, hbefore⟩ := List.find?_eq_some_iff_append.mp h
  have hmem {b : α} : b ∈ l ↔ b ∈ before ++ a :: after := by
    rw [← hsplit, (List.perm_insertionSort r l).mem_iff]
  refine ⟨hmem.mpr (by simp), hp, fun b hb hpb => ?_⟩
  have hsorted := List.pairwise_insertionSort r l
  rw [hsplit] at hsorted
  rcases List.mem_append.mp (hmem.mp hb) with hb | hb
  · exact absurd hpb (by simpa using hbefore b hb)
  · rcases List.mem_cons.mp hb with rfl | hb
    · exact refl_of r b
    · exact List.rel_of_pairwise_cons (List.pairwise_append.mp hsorted).2.1 hb

end

end Lib
