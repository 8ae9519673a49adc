import Mathlib.Data.List.Chain
import Mathlib.Logic.Relation
import Mathlib.Tactic.Common

/-!
# Levels of a dependency relation

`r v d` says that `v` depends on `d`. What is below level `k` is settled after `k` rounds, when
each round settles what depends on settled things only. `below_iff` reads the levels off the
relation: `v` is below level `k` when no chain of dependencies that starts at `v` has more than `k`
members. A round that settles nothing new is the last one (`below_of_stagnates`).
-/

namespace Lib

variable {α : Type} (r : α → α → Prop)

/-- What `k` rounds settle. -/
def Below : ℕ → α → Prop
  | 0, _ => False
  | k + 1, v => ∀ d, r v d → Below k d

variable {r} {k : ℕ} {v : α}

/-- What is settled stays settled. -/
theorem Below.succ : ∀ {k : ℕ} {v : α}, Below r k v → Below r (k + 1) v
  | 0, _, h => h.elim
  | _ + 1, _, h => fun d hd => Below.succ (h d hd)

theorem Below.mono {m : ℕ} (h : Below r k v) (hle : k ≤ m) : Below r m v := by
  induction m, hle using Nat.le_induction with
  | base => exact h
  | succ m _ ih => exact ih.succ

/-- **Levels and chains**: a thing is below level `k` when no chain of dependencies that starts at
it has more than `k` members. -/
theorem below_iff : Below r k v ↔ ∀ l, List.IsChain r (v :: l) → l.length < k := by
  induction k generalizing v with
  | zero => exact ⟨fun h => h.elim, fun h => absurd (h [] (.singleton v)) (Nat.not_lt_zero _)⟩
  | succ k ih =>
    constructor
    · intro h l hl
      cases l with
      | nil => exact Nat.succ_pos k
      | cons d l =>
        obtain ⟨hd, hl⟩ := List.isChain_cons_cons.mp hl
        exact Nat.succ_lt_succ (ih.mp (h d hd) l hl)
    · intro h d hd
      refine ih.mpr fun l hl => ?_
      have hlonger := h (d :: l) (List.isChain_cons_cons.mpr ⟨hd, hl⟩)
      rw [List.length_cons] at hlonger
      omega

/-- Nothing below a level depends on itself, over any number of steps. -/
theorem Below.acyclic (h : Below r k v) : ¬ Relation.TransGen r v v := by
  induction k generalizing v with
  | zero => exact h.elim
  | succ k ih =>
    intro hcycle
    obtain ⟨d, hd, hback⟩ := Relation.TransGen.head'_iff.mp hcycle
    exact ih (h d hd) (.tail' hback hd)

/-- **A round that settles nothing new is the last**: no later round settles anything. -/
theorem below_of_stagnates {s : α → Prop} (hclosed : ∀ v d, s v → r v d → s d)
    (hstill : ∀ v, s v → Below r (k + 1) v → Below r k v) (j : ℕ) (hs : s v)
    (h : Below r (k + j) v) : Below r k v := by
  induction j generalizing v with
  | zero => exact h
  | succ j ih => exact hstill v hs fun d hd => ih (hclosed v d hs hd) (h d hd)

end Lib
