import CyranoAgent.Lib.Dict

/-!
# Lists with holes, and an index of their places

`Slots` keeps its items in the order of their arrival, some of them removed, and the place of every
key. `upsert` and `remove` go to the place that the index gives, where `Keyed.upsert` and
`Keyed.remove` go through the whole list; `Slots.Indexed` is what makes them agree on the items that
are left (`items_upsert`, `items_remove`). Items without a key are only appended.
-/

namespace Lib

/-! ### Keyed lists -/

namespace Keyed

variable {κ α : Type} (key : α → Option κ)

/-- The keys of a list, in its order. -/
def keys (l : List α) : List κ := l.filterMap key

variable {key} in
theorem mem_keys {k : κ} {l : List α} : k ∈ keys key l ↔ ∃ a ∈ l, key a = some k :=
  List.mem_filterMap

variable {key} in
theorem nodup_keys_append {b : α} {l : List α} (hb : key b = none) (hl : (keys key l).Nodup) :
    (keys key (l ++ [b])).Nodup := by
  have hkeys : keys key (l ++ [b]) = keys key l := by simp [keys, hb]
  rwa [hkeys]

variable [DecidableEq κ]

/-- Put an item in the place of the one with its key, or last. -/
def upsert (k : κ) (b : α) (l : List α) : List α :=
  if k ∈ keys key l then l.map fun a => if key a = some k then b else a else l ++ [b]

/-- Remove the item with a key. -/
def remove (k : κ) (l : List α) : List α := l.filter fun a => key a ≠ some k

variable {key} {k : κ} {a b : α} {l : List α}

/-- An item that takes the place of another has its key. -/
theorem keys_upsert_of_mem (hb : key b = some k) (hk : k ∈ keys key l) :
    keys key (upsert key k b l) = keys key l := by
  rw [upsert, if_pos hk, keys, List.filterMap_map, keys]
  refine List.filterMap_congr fun a _ => ?_
  by_cases ha : key a = some k
  · simp [ha, hb]
  · simp [ha]

theorem nodup_keys_upsert (hb : key b = some k) (hl : (keys key l).Nodup) :
    (keys key (upsert key k b l)).Nodup := by
  by_cases hk : k ∈ keys key l
  · rwa [keys_upsert_of_mem hb hk]
  · rw [upsert, if_neg hk, keys, List.filterMap_append, List.nodup_append]
    refine ⟨hl, by simp [hb], fun x hx y hy heq => hk ?_⟩
    obtain rfl : y = k := by simpa [hb, eq_comm] using hy
    exact heq ▸ hx

theorem nodup_keys_remove (hl : (keys key l).Nodup) : (keys key (remove key k l)).Nodup :=
  hl.sublist (List.Sublist.filterMap key List.filter_sublist)

end Keyed

/-! ### Slots -/

/-- Items in the order of their arrival, with holes, and the places of their keys. -/
structure Slots (κ α : Type) where
  slots : List (Option α) := []
  index : Dict κ ℕ := ∅

namespace Slots

variable {κ α : Type}

/-- The items that are left. -/
def items (S : Slots κ α) : List α := S.slots.filterMap id

/-- Append an item without a key. -/
def push (b : α) (S : Slots κ α) : Slots κ α := { S with slots := S.slots ++ [some b] }

@[simp] theorem items_push {b : α} {S : Slots κ α} : (S.push b).items = S.items ++ [b] := by
  simp [items, push]

variable [DecidableEq κ]

/-- Append an item, and note its place. -/
def pushAt (k : κ) (b : α) (S : Slots κ α) : Slots κ α where
  slots := S.slots ++ [some b]
  index := S.index.set k S.slots.length

/-- Put an item in the place of its key, or last. -/
def upsert (k : κ) (b : α) (S : Slots κ α) : Slots κ α :=
  match S.index.get? k with
  | some i => { S with slots := S.slots.set i (some b) }
  | none => S.pushAt k b

/-- Empty the place of a key, and forget it. -/
def remove (k : κ) (S : Slots κ α) : Slots κ α :=
  match S.index.get? k with
  | some i => { slots := S.slots.set i none, index := S.index.erase k }
  | none => S

/-- The index gives, for every key, the one place where an item has it. -/
def Indexed (key : α → Option κ) (S : Slots κ α) : Prop :=
  ∀ k i, S.index.get? k = some i ↔ ∃ a, S.slots[i]? = some (some a) ∧ key a = some k

variable {key : α → Option κ} {S : Slots κ α} {k : κ} {b : α}

theorem indexed_empty : Indexed key ({} : Slots κ α) := by
  intro k i
  simp

@[simp] theorem items_pushAt : (S.pushAt k b).items = S.items ++ [b] := by simp [items, pushAt]

theorem Indexed.mem_keys (hS : S.Indexed key) :
    k ∈ Keyed.keys key S.items ↔ ∃ i, S.index.get? k = some i := by
  rw [Keyed.mem_keys]
  constructor
  · rintro ⟨a, ha, hk⟩
    obtain ⟨slot, hslot, rfl⟩ := List.mem_filterMap.mp ha
    obtain ⟨i, hi⟩ := List.mem_iff_getElem?.mp hslot
    exact ⟨i, (hS k i).mpr ⟨a, hi, hk⟩⟩
  · rintro ⟨i, hi⟩
    obtain ⟨a, ha, hk⟩ := (hS k i).mp hi
    exact ⟨a, List.mem_filterMap.mpr ⟨some a, List.mem_of_getElem? ha, rfl⟩, hk⟩

/-- At the place of a key, the items that have the key are changed and no others. -/
theorem Indexed.set_eq_map (hS : S.Indexed key) {i : ℕ} (hi : S.index.get? k = some i)
    (slot : Option α) : S.slots.set i slot =
      S.slots.map fun s => if s.bind key = some k then slot else s := by
  refine List.ext_getElem? fun j => ?_
  rw [List.getElem?_set, List.getElem?_map]
  obtain ⟨a, ha, hk⟩ := (hS k i).mp hi
  by_cases hij : i = j
  · obtain rfl := hij
    obtain ⟨hlt, hget⟩ := List.getElem?_eq_some_iff.mp ha
    simp [hlt, hget, hk]
  · rw [if_neg hij]
    cases hj : S.slots[j]? with
    | none => rfl
    | some s =>
      have hne : s.bind key ≠ some k := by
        rintro hs
        obtain ⟨a', rfl, hk'⟩ := Option.bind_eq_some_iff.mp hs
        exact hij (Option.some.inj (hi.symm.trans ((hS k j).mpr ⟨a', hj, hk'⟩)))
      simp [hne]

/-- **The place that the index gives is where the whole list would be searched.** -/
theorem Indexed.items_upsert (hS : S.Indexed key) :
    (S.upsert k b).items = Keyed.upsert key k b S.items := by
  rw [upsert, Keyed.upsert]
  cases hi : S.index.get? k with
  | none =>
    rw [if_neg fun hk => by obtain ⟨i, hi'⟩ := hS.mem_keys.mp hk; simp [hi] at hi']
    exact items_pushAt
  | some i =>
    rw [if_pos (hS.mem_keys.mpr ⟨i, hi⟩)]
    simp only [items, hS.set_eq_map hi, List.filterMap_map, List.map_filterMap]
    refine List.filterMap_congr fun s _ => ?_
    cases s with
    | none => rfl
    | some a => by_cases ha : key a = some k <;> simp [ha]

theorem Indexed.items_remove (hS : S.Indexed key) :
    (S.remove k).items = Keyed.remove key k S.items := by
  rw [remove, Keyed.remove]
  cases hi : S.index.get? k with
  | none =>
    refine (List.filter_eq_self.mpr fun a ha => ?_).symm
    have hne : key a ≠ some k := fun hk => by
      obtain ⟨i, hi'⟩ := hS.mem_keys.mp (Keyed.mem_keys.mpr ⟨a, ha, hk⟩)
      simp [hi] at hi'
    simp [hne]
  | some i =>
    simp only [items, hS.set_eq_map hi, List.filterMap_map, List.filter_filterMap]
    refine List.filterMap_congr fun s _ => ?_
    cases s with
    | none => rfl
    | some a => by_cases ha : key a = some k <;> simp [ha, Option.filter]

/-! ### The index -/

theorem Indexed.push (hS : S.Indexed key) (hb : key b = none) : (S.push b).Indexed key := by
  intro k i
  refine (hS k i).trans (exists_congr fun a => and_congr_left fun hk => ?_)
  rw [Slots.push, List.getElem?_append]
  split_ifs with hlt
  · rfl
  · rw [List.getElem?_eq_none (Nat.not_lt.mp hlt), List.getElem?_singleton]
    split_ifs
    · simp only [Option.some.injEq, false_iff]
      rintro rfl
      rw [hb] at hk
      cases hk
    · rfl

/-- An item of a new key is noted at its place. -/
theorem Indexed.pushAt (hS : S.Indexed key) (hb : key b = some k) (hk : S.index.get? k = none) :
    (S.pushAt k b).Indexed key := by
  intro k' i
  rw [Slots.pushAt, Dict.get?_set]
  by_cases hi : i < S.slots.length
  · rw [List.getElem?_append_left hi, ← hS k' i]
    split_ifs with hkey
    · obtain rfl := hkey
      simp [hk, Nat.ne_of_gt hi]
    · rfl
  · rw [List.getElem?_append_right (Nat.not_lt.mp hi), List.getElem?_singleton]
    have hold : S.index.get? k' ≠ some i := fun hget => by
      obtain ⟨a, ha, -⟩ := (hS k' i).mp hget
      exact hi (List.getElem?_eq_some_iff.mp ha).1
    have hlast : i - S.slots.length = 0 ↔ S.slots.length = i := by omega
    split_ifs with hkey hzero hzero
    · obtain rfl := hkey
      simp [hlast.mp hzero, hb]
    · simp [mt hlast.mpr hzero]
    · simp [hold, hb, Ne.symm hkey]
    · simp [hold]

theorem Indexed.upsert (hS : S.Indexed key) (hb : key b = some k) :
    (S.upsert k b).Indexed key := by
  rw [Slots.upsert]
  cases hi : S.index.get? k with
  | none => exact hS.pushAt hb hi
  | some i =>
    intro k' j
    simp only [hS k' j, hS.set_eq_map hi, List.getElem?_map]
    cases hj : S.slots[j]? with
    | none => simp
    | some s =>
      by_cases hs : s.bind key = some k
      · obtain ⟨a, rfl, ha⟩ := Option.bind_eq_some_iff.mp hs
        simp [ha, hb]
      · simp [hs]

theorem Indexed.remove (hS : S.Indexed key) : (S.remove k).Indexed key := by
  rw [Slots.remove]
  cases hi : S.index.get? k with
  | none => exact hS
  | some i =>
    intro k' j
    rw [Dict.get?_erase]
    simp only [hS.set_eq_map hi, List.getElem?_map]
    split_ifs with hkey
    · obtain rfl := hkey
      cases hj : S.slots[j]? with
      | none => simp
      | some s =>
        by_cases hs : s.bind key = some k'
        · simp [hs]
        · simp only [Option.map_some, if_neg hs, Option.some.injEq, false_iff]
          rintro ⟨a, rfl, ha⟩
          exact hs ha
    · rw [hS k' j]
      cases hj : S.slots[j]? with
      | none => simp
      | some s =>
        by_cases hs : s.bind key = some k
        · obtain ⟨a, rfl, ha⟩ := Option.bind_eq_some_iff.mp hs
          simp [ha, Ne.symm hkey]
        · simp [hs]

end Slots

end Lib
