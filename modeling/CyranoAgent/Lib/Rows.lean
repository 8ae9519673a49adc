import Mathlib.Data.List.Nodup
import Mathlib.Data.List.Sort
import Mathlib.Data.List.MinMax

/-!
# Tables as lists of rows

A table is the list of its rows in insertion order. `Rows.update` and `Rows.delete` are the
`UPDATE … WHERE` and `DELETE … WHERE` of a table, `Rows.insertOrIgnore` and `Rows.replace` the
two forgiving inserts on a key, and `Rows.coalesceMax` is `COALESCE(MAX(column), default)`.

A lookup by key is `List.find?`; the lemmas say what it returns after an update that keeps
the key (`find?_update`), after an append (Mathlib's `List.find?_append`) and when keys are
unique (`find?_eq_some_iff`).
-/

namespace Lib

namespace Rows

variable {ρ κ : Type}

/-- `UPDATE rows SET f WHERE p`. -/
def update (p : ρ → Bool) (f : ρ → ρ) (rows : List ρ) : List ρ :=
  rows.map fun r => if p r then f r else r

/-- `DELETE FROM rows WHERE p`. -/
def delete (p : ρ → Bool) (rows : List ρ) : List ρ := rows.filter fun r => !p r

/-- `INSERT OR IGNORE`: keep the row that already has the key. -/
def insertOrIgnore [DecidableEq κ] (key : ρ → κ) (row : ρ) (rows : List ρ) : List ρ :=
  if rows.any fun r => key r = key row then rows else rows ++ [row]

/-- `INSERT OR REPLACE`: the new row displaces the one that has its key. -/
def replace [DecidableEq κ] (key : ρ → κ) (row : ρ) (rows : List ρ) : List ρ :=
  delete (fun r => key r = key row) rows ++ [row]

/-- `COALESCE(MAX(column), d)` over the selected values. -/
def coalesceMax {α : Type} [Max α] (d : α) (values : List α) : α := values.max?.getD d

/-! ### Updates -/

theorem mem_update {p : ρ → Bool} {f : ρ → ρ} {rows : List ρ} {r : ρ} :
    r ∈ update p f rows ↔ ∃ r₀ ∈ rows, (if p r₀ then f r₀ else r₀) = r := by
  simp [update]

/-- An update that keeps a column keeps the list of its values. -/
theorem map_update {p : ρ → Bool} {f : ρ → ρ} {rows : List ρ} {c : ρ → κ}
    (hf : ∀ r, c (f r) = c r) : (update p f rows).map c = rows.map c := by
  simp only [update, List.map_map, List.map_inj_left, Function.comp_apply]
  intro r _
  split <;> simp [hf]

/-- A lookup that the update cannot disturb finds the updated version of the row it found
before. -/
theorem find?_update {p q : ρ → Bool} {f : ρ → ρ} {rows : List ρ}
    (hq : ∀ r, q (f r) = q r) :
    (update p f rows).find? q = (rows.find? q).map fun r => if p r then f r else r := by
  induction rows with
  | nil => rfl
  | cons r rows ih =>
    have hstep : q (if p r then f r else r) = q r := by split <;> simp [hq]
    simp only [update, List.map_cons, List.find?_cons, hstep]
    cases q r with
    | true => rfl
    | false => exact ih

/-- An update leaves the rows it does not select. -/
theorem mem_update_of_not {p : ρ → Bool} {f : ρ → ρ} {rows : List ρ} {r : ρ} (hr : r ∈ rows)
    (hp : p r = false) : r ∈ update p f rows :=
  mem_update.mpr ⟨r, hr, by simp [hp]⟩

/-- An update that selects no row changes nothing. -/
theorem update_of_forall_not {p : ρ → Bool} {f : ρ → ρ} {rows : List ρ}
    (hp : ∀ r ∈ rows, p r = false) : update p f rows = rows := by
  have hid : ∀ r ∈ rows, (if p r then f r else r) = id r := fun r hr => by simp [hp r hr]
  rw [update, List.map_congr_left hid, List.map_id]

@[simp] theorem mem_delete {p : ρ → Bool} {rows : List ρ} {r : ρ} :
    r ∈ delete p rows ↔ r ∈ rows ∧ p r = false := by
  simp [delete]

/-! ### Keys -/

/-- With unique keys, a row is found under its key. -/
theorem find?_key {rows : List ρ} [DecidableEq κ] {key : ρ → κ} (hn : (rows.map key).Nodup)
    {r : ρ} (hr : r ∈ rows) : rows.find? (fun r' => key r' = key r) = some r := by
  induction rows with
  | nil => simp at hr
  | cons r₀ rows ih =>
    rw [List.map_cons, List.nodup_cons] at hn
    rcases List.mem_cons.mp hr with rfl | hr
    · simp
    · have hne : key r₀ ≠ key r := fun heq => hn.1 (heq ▸ List.mem_map_of_mem hr)
      simp [hne, ih hn.2 hr]

/-- A row is found under its key after every row was changed without its key. -/
theorem find?_map_key {rows : List ρ} [DecidableEq κ] {key : ρ → κ} {f : ρ → ρ}
    (hf : ∀ r ∈ rows, key (f r) = key r) (k : κ) :
    (rows.map f).find? (fun r => key r = k) = (rows.find? fun r => key r = k).map f := by
  induction rows with
  | nil => rfl
  | cons r rows ih =>
    rw [List.forall_mem_cons] at hf
    by_cases hk : key r = k
    · simp [hf.1, hk]
    · simp [hf.1, hk, ih hf.2]

/-- With unique keys, two rows of one key are one row. -/
theorem eq_of_key_eq {rows : List ρ} {key : ρ → κ} (hn : (rows.map key).Nodup) {r r' : ρ}
    (hr : r ∈ rows) (hr' : r' ∈ rows) (hk : key r = key r') : r = r' :=
  List.inj_on_of_nodup_map hn hr hr' hk

/-- A forgiving insert is found under its key when no row had it. -/
theorem find?_insertOrIgnore {rows : List ρ} [DecidableEq κ] {key : ρ → κ} (row : ρ) (k : κ) :
    (insertOrIgnore key row rows).find? (fun r => key r = k) =
      (rows.find? fun r => key r = k).or (if key row = k then some row else none) := by
  by_cases hany : rows.any fun r => key r = key row
  · rw [insertOrIgnore, if_pos hany]
    by_cases hk : key row = k
    · obtain ⟨r, hr, hkey⟩ := List.any_eq_true.mp hany
      have hsome : (rows.find? fun r => key r = k).isSome :=
        List.find?_isSome.mpr ⟨r, hr, by simpa [hk] using hkey⟩
      obtain ⟨r', hr'⟩ := Option.isSome_iff_exists.mp hsome
      rw [hr', Option.some_or]
    · rw [if_neg hk, Option.or_none]
  · rw [insertOrIgnore, if_neg hany, List.find?_append]
    by_cases hk : key row = k <;> simp [hk]

/-- A replacing insert is found under its key, and disturbs no other. -/
theorem find?_replace {rows : List ρ} [DecidableEq κ] {key : ρ → κ} (row : ρ) (k : κ) :
    (replace key row rows).find? (fun r => key r = k) =
      if key row = k then some row else rows.find? fun r => key r = k := by
  rw [replace, List.find?_append, delete, List.find?_filter]
  by_cases hk : key row = k
  · have hnone : rows.find? (fun _ => false) = none := List.find?_eq_none.mpr (by simp)
    simp [hk, hnone]
  · have hsame : (fun r => (!decide (key r = key row)) && decide (key r = k)) =
        fun r => decide (key r = k) := by
      funext r
      by_cases hr : key r = k
      · simp [hr, Ne.symm hk]
      · simp [hr]
    simp_all

/-- Appending a row of a fresh key keeps keys unique. -/
theorem nodup_append {rows : List ρ} {key : ρ → κ} (hn : (rows.map key).Nodup) {row : ρ}
    (hfresh : ∀ r ∈ rows, key r ≠ key row) : ((rows ++ [row]).map key).Nodup := by
  rw [List.map_append, List.nodup_append]
  refine ⟨hn, by simp, ?_⟩
  simpa using hfresh

/-- With unique keys, a selection by key has at most one row. -/
theorem length_filter_le_one {rows : List ρ} {key : ρ → κ} (hn : (rows.map key).Nodup)
    {p : ρ → Bool} {k : κ} (hp : ∀ r, p r = true → key r = k) :
    (rows.filter p).length ≤ 1 := by
  have hkeys : ((rows.filter p).map key).Nodup := hn.sublist (List.filter_sublist.map key)
  have hconst : (rows.filter p).map key = List.replicate (rows.filter p).length k :=
    List.eq_replicate_iff.mpr ⟨List.length_map _, by
      intro k' hk'
      obtain ⟨r, hr, rfl⟩ := List.mem_map.mp hk'
      exact hp r (List.mem_filter.mp hr).2⟩
  exact List.nodup_replicate.mp (hconst ▸ hkeys)

/-! ### Maxima -/

/-- The maximum bounds every value. -/
theorem le_coalesceMax {α : Type} [LinearOrder α] {d v : α} {values : List α}
    (hv : v ∈ values) : v ≤ coalesceMax d values := by
  rcases hm : values.max? with _ | m
  · simp_all
  · rw [coalesceMax, hm, Option.getD_some]
    exact (List.max?_eq_some_iff.mp hm).2 v hv

@[simp] theorem coalesceMax_nil {α : Type} [Max α] (d : α) : coalesceMax d ([] : List α) = d :=
  rfl

end Rows

end Lib
