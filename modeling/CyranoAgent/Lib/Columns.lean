import Mathlib

/-!
# Columns of a weighted list

Every element of a list takes up some room, `weight a`. `column weight l k` is the room that the
first `k` elements take up, and `offset? weight l c` goes back: it walks the list until the room is
used up. It finds the greatest offset whose column is not beyond `c` (`isGreatest_of_offset?`), when
the list is not empty and reaches as far as `c` (`offset?_eq_none_iff`). On the columns of a list
that is not empty it is the inverse of `column` (`offset?_column`).
-/

namespace Lib

variable {α : Type} (weight : α → ℕ)

/-- The room that the first `k` elements take up. -/
def column (l : List α) (k : ℕ) : ℕ := ((l.take k).map weight).sum

/-- The walk from a place behind `index` elements, which take up `units`. -/
def offsetFrom (c : ℤ) : ℕ → ℕ → List α → Option ℕ
  | _, _, [] => none
  | units, index, a :: l =>
    let units := units + weight a
    if c < units then some index
    else if (units : ℤ) = c then some (index + 1)
    else offsetFrom c units (index + 1) l

/-- The offset of a column. -/
def offset? (l : List α) (c : ℤ) : Option ℕ := offsetFrom weight c 0 0 l

variable {weight} {l : List α} {a : α} {j k : ℕ} {c : ℤ}

@[simp] theorem column_zero : column weight l 0 = 0 := rfl

theorem column_cons_succ : column weight (a :: l) (k + 1) = weight a + column weight l k := rfl

/-- Elements that take up room have columns behind them. -/
theorem column_pos (hpos : ∀ a, 0 < weight a) (hk : 0 < k) (hlength : k ≤ l.length) :
    0 < column weight l k := by
  obtain ⟨k, rfl⟩ : ∃ n, k = n + 1 := ⟨k - 1, by omega⟩
  cases l with
  | nil => simp at hlength
  | cons a l =>
    rw [column_cons_succ]
    exact Nat.add_pos_left (hpos a) _

/-! ### Offsets of a column -/

/-- A walk counts on from where it starts. -/
theorem offsetFrom_eq (units index : ℕ) :
    offsetFrom weight c units index l = (offset? weight l (c - units)).map (index + ·) := by
  induction l generalizing c units index with
  | nil => rfl
  | cons a l ih =>
    have hlt : c - (units : ℤ) < ((0 + weight a : ℕ) : ℤ) ↔ c < (units + weight a : ℕ) := by
      push_cast
      omega
    have heq : ((0 + weight a : ℕ) : ℤ) = c - units ↔ ((units + weight a : ℕ) : ℤ) = c := by
      push_cast
      omega
    simp only [offset?, offsetFrom, hlt, heq]
    split_ifs
    · rfl
    · rfl
    · rw [ih, ih, Option.map_map]
      congr 2
      · funext k
        simp only [Function.comp_apply]
        omega
      · push_cast
        omega

/-- One step of the walk. -/
theorem offset?_cons : offset? weight (a :: l) c =
    if c < weight a then some 0 else if (weight a : ℤ) = c then some 1
    else (offset? weight l (c - weight a)).map (1 + ·) := by
  rw [offset?, offsetFrom]
  simp only [offsetFrom_eq, Nat.zero_add]

/-- A walk fails in a list that is empty, or does not reach as far. -/
theorem offset?_eq_none_iff :
    offset? weight l c = none ↔ l = [] ∨ (column weight l l.length : ℤ) < c := by
  induction l generalizing c with
  | nil => simp [offset?, offsetFrom]
  | cons a l ih =>
    rw [offset?_cons, List.length_cons, column_cons_succ]
    split_ifs with hlt heq
    · simp only [false_or, false_iff]
      push_cast
      omega
    · simp only [false_or, false_iff]
      push_cast
      omega
    · rw [Option.map_eq_none_iff, ih]
      simp only [false_or]
      push_cast
      constructor
      · rintro (rfl | hshort)
        · simp only [List.length_nil, column_zero]
          omega
        · omega
      · intro hshort
        exact .inr (by omega)

/-- **A walk ends at the greatest offset whose column is not beyond the one it looks for.** -/
theorem isGreatest_of_offset? (hpos : ∀ a, 0 < weight a) (hc : 0 ≤ c)
    (h : offset? weight l c = some k) :
    IsGreatest {j | j ≤ l.length ∧ (column weight l j : ℤ) ≤ c} k := by
  induction l generalizing c k with
  | nil => cases h
  | cons a l ih =>
    have hroom := hpos a
    rw [offset?_cons] at h
    split_ifs at h with hlt heq
    · obtain rfl := Option.some.inj h
      refine ⟨⟨Nat.zero_le _, by simpa using hc⟩, fun j hj => ?_⟩
      obtain ⟨-, hj⟩ := hj
      rcases j with _ | j
      · exact le_rfl
      · rw [column_cons_succ] at hj
        push_cast at hj
        omega
    · obtain rfl := Option.some.inj h
      refine ⟨⟨by simp, by rw [column_cons_succ, column_zero]; omega⟩, fun j hj => ?_⟩
      obtain ⟨hlength, hj⟩ := hj
      rcases j with _ | j
      · exact Nat.zero_le _
      · rw [column_cons_succ] at hj
        push_cast at hj
        by_contra hbeyond
        have hbehind : 0 < column weight l j := column_pos hpos (by omega) (by simpa using hlength)
        omega
    · obtain ⟨k, hk, rfl⟩ := Option.map_eq_some_iff.mp h
      obtain ⟨⟨hlength, hcolumn⟩, hgreatest⟩ := ih (by omega) hk
      rw [Nat.add_comm 1 k]
      refine ⟨⟨by simpa using hlength, ?_⟩, fun j hj => ?_⟩
      · rw [column_cons_succ]
        push_cast
        omega
      · obtain ⟨hj, hcolumn⟩ := hj
        rcases j with _ | j
        · exact Nat.zero_le _
        · rw [column_cons_succ] at hcolumn
          push_cast at hcolumn
          have := hgreatest ⟨by simpa using hj, by omega⟩
          omega

/-- What a walk finds, on a list that is as long as needed. -/
theorem offset?_eq_some_iff (hpos : ∀ a, 0 < weight a) (hc : 0 ≤ c) :
    offset? weight l c = some k ↔
      l ≠ [] ∧ c ≤ column weight l l.length ∧
        IsGreatest {j | j ≤ l.length ∧ (column weight l j : ℤ) ≤ c} k := by
  constructor
  · intro h
    have hfound : offset? weight l c ≠ none := by simp [h]
    rw [Ne, offset?_eq_none_iff, not_or, not_lt] at hfound
    exact ⟨hfound.1, hfound.2, isGreatest_of_offset? hpos hc h⟩
  · rintro ⟨hne, hlength, hgreatest⟩
    have hfound : offset? weight l c ≠ none := by
      rw [Ne, offset?_eq_none_iff, not_or, not_lt]
      exact ⟨hne, hlength⟩
    obtain ⟨k', hk'⟩ := Option.ne_none_iff_exists'.mp hfound
    rw [hk', (isGreatest_of_offset? hpos hc hk').unique hgreatest]

/-- Columns are those of different offsets. -/
theorem column_le_iff (hpos : ∀ a, 0 < weight a) (hj : j ≤ l.length) (hk : k ≤ l.length) :
    column weight l j ≤ column weight l k ↔ j ≤ k := by
  induction l generalizing j k with
  | nil => simp at hj hk; simp [hj, hk]
  | cons a l ih =>
    have hroom := hpos a
    rcases j with _ | j
    · simp
    · rcases k with _ | k
      · rw [column_cons_succ, column_zero]
        omega
      · rw [column_cons_succ, column_cons_succ, Nat.add_le_add_iff_left,
          ih (by simpa using hj) (by simpa using hk)]
        omega

/-- **The walk to the column of an offset ends there.** -/
theorem offset?_column (hpos : ∀ a, 0 < weight a) (hne : l ≠ []) (hk : k ≤ l.length) :
    offset? weight l (column weight l k) = some k := by
  refine (offset?_eq_some_iff hpos (by omega)).mpr ⟨hne, ?_, ⟨hk, le_rfl⟩, fun j hj => ?_⟩
  · exact_mod_cast (column_le_iff hpos hk le_rfl).mpr hk
  · obtain ⟨hj, hle⟩ := hj
    exact (column_le_iff hpos hj hk).mp (by exact_mod_cast hle)

end Lib
