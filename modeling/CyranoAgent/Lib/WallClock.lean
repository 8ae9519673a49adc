import Mathlib.Algebra.Order.Group.Unbundled.Int
import Mathlib.Data.Int.LeastGreatest
import Mathlib.Order.Bounds.Basic
import Mathlib.Tactic.Common
import Mathlib.Tactic.Linarith

/-!
# Wall clocks

A wall clock is moved now and then, by less than `d` and not again before `3 * d` have passed, and
runs evenly in between. Its readings may repeat after it was moved back and skip after it was moved
forward, but over a time of `3 * d` they grow (`reads_add_lt`). So there is a first time at which it
reads at least `x` (`exists_isLeast`): it then reads `x`, or was just moved over it, and then never
reads what it was moved over (`not_reads`).
-/

namespace Lib

/-- A clock that is `offset u` ahead at `u`. -/
structure WallClock (d : ℤ) where
  offset : ℤ → ℤ
  short : ∀ u, |offset u - offset (u - 1)| < d
  apart : ∀ u v, u < v → offset u ≠ offset (u - 1) → offset v ≠ offset (v - 1) → u + 3 * d ≤ v

namespace WallClock

variable {d : ℤ} (clock : WallClock d) {u v h x y : ℤ}

/-- What the clock reads at `u`. -/
def reads (u : ℤ) : ℤ := u + clock.offset u

/-- The clock is moved at `u`. -/
def Moved (u : ℤ) : Prop := clock.offset u ≠ clock.offset (u - 1)

theorem pos (clock : WallClock d) : 0 < d := (abs_nonneg _).trans_lt (clock.short 0)

variable {clock}

/-! ### Growth -/

/-- A clock that is not moved keeps its offset. -/
theorem offset_eq (huv : u ≤ v) (h : ∀ t, u < t → t ≤ v → ¬clock.Moved t) :
    clock.offset v = clock.offset u := by
  induction v, huv using Int.leInduction with
  | base => rfl
  | succ v huv ih =>
    have hlast : clock.offset (v + 1) = clock.offset (v + 1 - 1) :=
      not_not.mp (h (v + 1) (by omega) le_rfl)
    rw [hlast, add_sub_cancel_right]
    exact ih fun t hut htv => h t hut (by omega)

/-- **Near times**: the clock is moved at most once in `3 * d`, and by less than `d`. -/
theorem abs_offset_sub_lt (huv : u ≤ v) (hnear : v ≤ u + 3 * d) :
    |clock.offset v - clock.offset u| < d := by
  by_cases hmoved : ∃ t, u < t ∧ t ≤ v ∧ clock.Moved t
  · obtain ⟨t, hut, htv, ht⟩ := hmoved
    have hbefore : clock.offset (t - 1) = clock.offset u := by
      refine offset_eq (by omega) fun t' hut' htt' ht' => ?_
      have hapart := clock.apart t' t (by omega) ht' ht
      omega
    have hafter : clock.offset v = clock.offset t := by
      refine offset_eq htv fun t' htt' htv' ht' => ?_
      have hapart := clock.apart t t' htt' ht ht'
      omega
    rw [hafter, ← hbefore]
    exact clock.short t
  · rw [offset_eq huv fun t hut htv ht => hmoved ⟨t, hut, htv, ht⟩, sub_self, abs_zero]
    exact clock.pos

/-- Within `3 * d` the readings and the times differ by less than `d`. -/
theorem reads_near (huv : u ≤ v) (hnear : v ≤ u + 3 * d) :
    clock.reads u + (v - u) < clock.reads v + d ∧ clock.reads v < clock.reads u + (v - u) + d := by
  have h := abs_lt.mp (clock.abs_offset_sub_lt huv hnear)
  rw [reads, reads]
  omega

/-- **Readings fall by less than `d`.** -/
theorem reads_lt_add (huv : u ≤ v) : clock.reads u < clock.reads v + d := by
  have hd := clock.pos
  obtain ⟨n, hn⟩ : ∃ n : ℕ, v - u ≤ 3 * d * n := by
    refine ⟨(v - u).toNat, ?_⟩
    rw [Int.toNat_of_nonneg (by omega)]
    exact le_mul_of_one_le_left (by omega) (by omega)
  induction n generalizing v with
  | zero =>
    obtain rfl : u = v := by simp at hn; omega
    omega
  | succ n ih =>
    by_cases hnear : v ≤ u + 3 * d
    · have h := clock.reads_near huv hnear
      omega
    · have hlast := clock.reads_near (u := v - 3 * d) (v := v) (by omega) (by omega)
      rw [Nat.cast_add, Nat.cast_one, mul_add, mul_one] at hn
      have hfirst := ih (v := v - 3 * d) (by omega) (by omega)
      omega

/-- **Readings grow** by more than `d` in `3 * d`. -/
theorem reads_add_lt (huv : u + 3 * d ≤ v) : clock.reads u + d < clock.reads v := by
  have hlast := clock.reads_near (u := v - 3 * d) (v := v) (by have := clock.pos; omega) (by omega)
  have hfirst := clock.reads_lt_add (u := u) (v := v - 3 * d) (by omega)
  omega

/-- Where the clock is moved, it read no more before, and reads no less after. -/
theorem reads_of_moved (hmoved : clock.Moved h) :
    (u < h → clock.reads u ≤ clock.reads (h - 1)) ∧ (h ≤ u → clock.reads h ≤ clock.reads u) := by
  have hd := clock.pos
  refine ⟨fun hu => ?_, fun hu => ?_⟩
  · by_cases hnear : h ≤ u + 3 * d
    · have heq : clock.offset (h - 1) = clock.offset u := by
        refine offset_eq (by omega) fun t hut hth ht => ?_
        have hapart := clock.apart t h (by omega) ht hmoved
        omega
      rw [reads, reads, heq]
      omega
    · have hgrows := clock.reads_add_lt (u := u) (v := h - 1) (by omega)
      omega
  · by_cases hnear : u < h + 3 * d
    · have heq : clock.offset u = clock.offset h := by
        refine offset_eq hu fun t hht htu ht => ?_
        have hapart := clock.apart h t hht hmoved ht
        omega
      rw [reads, reads, heq]
      omega
    · have hgrows := clock.reads_add_lt (u := h) (v := u) (by omega)
      omega

/-! ### The first time of a reading -/

/-- The readings are unbounded on both sides. -/
theorem reads_mul (clock : WallClock d) (n : ℕ) :
    clock.reads 0 + d * n ≤ clock.reads (3 * d * n) ∧
      clock.reads (-(3 * d * n)) + d * n ≤ clock.reads 0 := by
  induction n with
  | zero => simp
  | succ n ih =>
    have hup := clock.reads_add_lt (u := 3 * d * n) (v := 3 * d * (n + 1 : ℕ))
      (by push_cast; linarith)
    have hdown := clock.reads_add_lt (u := -(3 * d * (n + 1 : ℕ))) (v := -(3 * d * n))
      (by push_cast; linarith)
    push_cast at hup hdown ⊢
    constructor <;> linarith [ih.1, ih.2]

/-- **There is a first time at which the clock reads at least `x`.** -/
theorem exists_isLeast (clock : WallClock d) (x : ℤ) : ∃ h, IsLeast {u | x ≤ clock.reads u} h := by
  have hd := clock.pos
  obtain ⟨n, hn⟩ : ∃ n : ℕ, |x - clock.reads 0| + d ≤ d * n := by
    refine ⟨(|x - clock.reads 0| + 1).toNat, ?_⟩
    have habs := abs_nonneg (x - clock.reads 0)
    rw [Int.toNat_of_nonneg (by omega), mul_add, mul_one]
    exact add_le_add_left (le_mul_of_one_le_left habs (by omega)) d
  have hbound := clock.reads_mul n
  have hx := abs_le.mp (le_refl |x - clock.reads 0|)
  have hbelow : ∀ u, x ≤ clock.reads u → -(3 * d * n) ≤ u := by
    intro u hu
    by_contra hlt
    have hfall := clock.reads_lt_add (u := u) (v := -(3 * d * n)) (by omega)
    omega
  obtain ⟨h, hh, hleast⟩ := Int.exists_least_of_bdd ⟨_, hbelow⟩ ⟨3 * d * n, by omega⟩
  exact ⟨h, hh, fun u hu => hleast u hu⟩

section

variable (hfirst : IsLeast {u | x ≤ clock.reads u} h)

include hfirst

theorem reads_pred_lt : clock.reads (h - 1) < x := by
  by_contra hle
  have hleast : h ≤ h - 1 := hfirst.2 (not_lt.mp hle)
  omega

/-- At the first time the clock reads `x`, or was just moved over it. -/
theorem reads_eq_or_moved : clock.reads h = x ∨ clock.Moved h ∧ x < clock.reads h := by
  have hle : x ≤ clock.reads h := hfirst.1
  have hpred := reads_pred_lt hfirst
  refine hle.eq_or_lt.imp Eq.symm fun hlt => ⟨fun heq => ?_, hlt⟩
  rw [reads] at hpred hlt
  omega

/-- **What the clock was moved over it never reads.** -/
theorem not_reads (hxy : x ≤ y) (hy : y < clock.reads h) (u : ℤ) : clock.reads u ≠ y := by
  obtain heq | ⟨hmoved, -⟩ := reads_eq_or_moved hfirst
  · omega
  · have hpred := reads_pred_lt hfirst
    have hsides := clock.reads_of_moved (u := u) hmoved
    obtain hlt | hge := lt_or_ge u h
    · have hle := hsides.1 hlt
      omega
    · have hle := hsides.2 hge
      omega

/-- What the clock reads at the first time it reads then for the first time. -/
theorem isLeast_reads : IsLeast {u | clock.reads u = clock.reads h} h := by
  refine ⟨rfl, fun u hu => hfirst.2 ?_⟩
  have hle : x ≤ clock.reads h := hfirst.1
  rwa [← show clock.reads u = clock.reads h from hu] at hle

/-- The clock was moved over less than `d`. -/
theorem reads_lt_of_isLeast : clock.reads h < x + d := by
  have hpred := reads_pred_lt hfirst
  have hnear := clock.reads_near (u := h - 1) (v := h) (by omega) (by have := clock.pos; omega)
  omega

end

end WallClock

end Lib
