import Mathlib.Data.List.Chain
import Mathlib.Data.Set.Insert
import Mathlib.Logic.Relation
import Mathlib.Tactic.Common

/-!
# Circles, and what a depth-first search has finished with

`r x y` says that `x` leads to `y`. A depth-first search keeps the path it is on. A place of this
path that the search meets again closes a circle (`isCircle_dropWhile`). What it goes back from is
finished: it leads to finished places only, and none of them is on a circle (`Finished.insert`).
-/

namespace Lib

open Relation

variable {α : Type} {r : α → α → Prop} {done : Set α} {x y : α} {path : List α}

/-! ### Circles -/

/-- A chain that ends where it starts. -/
def IsCircle (r : α → α → Prop) (path : List α) : Prop :=
  ∃ x rest, path = x :: (rest ++ [x]) ∧ path.IsChain r

theorem IsCircle.ne_nil (h : IsCircle r path) : path ≠ [] := by
  obtain ⟨x, rest, rfl, -⟩ := h
  exact List.cons_ne_nil _ _

/-- A chain leads from its head to its last place. -/
theorem transGen_of_isChain {l : List α} (h : (x :: (l ++ [y])).IsChain r) : TransGen r x y := by
  induction l generalizing x with
  | nil => exact .single (List.isChain_cons_cons.mp h).1
  | cons z l ih =>
    obtain ⟨hz, hrest⟩ := List.isChain_cons_cons.mp h
    exact .head hz (ih hrest)

/-- A place of a circle leads back to itself. -/
theorem IsCircle.exists_transGen (h : IsCircle r path) : ∃ x, TransGen r x x := by
  obtain ⟨x, rest, rfl, hchain⟩ := h
  exact ⟨x, transGen_of_isChain hchain⟩

/-- **A path that leads to one of its own places** closes a circle there. -/
theorem isCircle_dropWhile [DecidableEq α] {front : List α} (h : (front ++ [x]).IsChain r)
    (hxy : r x y) (hy : y ∈ front ++ [x]) :
    IsCircle r ((front ++ [x]).dropWhile (· ≠ y) ++ [y]) := by
  obtain ⟨before, after, hsplit, hfirst⟩ := List.eq_append_cons_of_mem hy
  have hdrop : (front ++ [x]).dropWhile (· ≠ y) = y :: after := by
    rw [hsplit, List.dropWhile_append_of_pos fun z hz => by
      simpa using fun heq : z = y => hfirst (heq ▸ hz)]
    exact List.dropWhile_cons_of_neg (by simp)
  rw [hdrop]
  refine ⟨y, after, rfl, ?_⟩
  refine List.isChain_append.mpr ⟨?_, .singleton y, fun last hlast z hz => ?_⟩
  · exact hdrop ▸ h.suffix (List.dropWhile_suffix _)
  · have hend : (front ++ [x]).getLast? = (y :: after).getLast? := by
      rw [hsplit, List.getLast?_append_of_ne_nil _ (List.cons_ne_nil _ _)]
    rw [← hend, List.getLast?_concat, Option.mem_some_iff] at hlast
    obtain rfl : y = z := by simpa using hz
    exact hlast ▸ hxy

/-! ### Finished places -/

/-- What is finished leads to what is finished, and not back to itself. -/
structure Finished (r : α → α → Prop) (done : Set α) : Prop where
  closed : ∀ x ∈ done, ∀ y, r x y → y ∈ done
  acyclic : ∀ x ∈ done, ¬TransGen r x x

namespace Finished

theorem mem_of_transGen (h : Finished r done) (hx : x ∈ done) (hxy : TransGen r x y) :
    y ∈ done := by
  induction hxy with
  | single hy => exact h.closed _ hx _ hy
  | tail _ hy ih => exact h.closed _ ih _ hy

/-- **A place is finished** once all that it leads to is. -/
theorem insert (h : Finished r done) (hx : x ∉ done) (hnext : ∀ y, r x y → y ∈ done) :
    Finished r (insert x done) where
  closed z hz y hzy := by
    rcases Set.mem_insert_iff.mp hz with rfl | hz
    · exact Set.mem_insert_of_mem _ (hnext y hzy)
    · exact Set.mem_insert_of_mem _ (h.closed z hz y hzy)
  acyclic z hz := by
    rcases Set.mem_insert_iff.mp hz with rfl | hz
    · -- a circle would go on from what the place leads to, and never leave what was finished before
      intro hcircle
      obtain ⟨y, hy, hback⟩ := TransGen.head'_iff.mp hcircle
      rcases reflTransGen_iff_eq_or_transGen.mp hback with heq | hback
      · exact hx (heq ▸ hnext y hy)
      · exact hx (h.mem_of_transGen (hnext y hy) hback)
    · exact h.acyclic z hz

/-- When everything that leads anywhere is finished, there is no circle. -/
theorem not_transGen (h : Finished r done) (hall : ∀ x y, r x y → x ∈ done) (x : α) :
    ¬TransGen r x x := by
  intro hcircle
  obtain ⟨y, hy, -⟩ := TransGen.head'_iff.mp hcircle
  exact h.acyclic x (hall x y hy) hcircle

end Finished

end Lib
