import Mathlib.Data.List.Forall2
import Mathlib.Data.List.Induction
import Mathlib.Data.List.Nodup
import Mathlib.Data.List.Perm.Basic
import Mathlib.Data.List.Perm.Subperm
import Mathlib.Tactic.Common

/-!
# Dictionaries in insertion order

A `Dict` is the list of its entries, no two of them under one key: setting a key that is there
keeps its place, and a new one comes last. A lookup says all there is to know about a dictionary
except the order (`get?_eq_some_iff`, `perm_iff`).
-/

namespace Lib

/-- A dictionary: entries under different keys. -/
@[ext] structure Dict (κ α : Type) where
  entries : List (κ × α)
  nodup : (entries.map Prod.fst).Nodup

namespace Dict

variable {κ α β : Type}

/-- The dictionary without entries. -/
def empty : Dict κ α := ⟨[], List.nodup_nil⟩

instance : EmptyCollection (Dict κ α) := ⟨empty⟩

instance : Inhabited (Dict κ α) := ⟨empty⟩

/-- The keys, in the order of their insertion. -/
def keys (d : Dict κ α) : List κ := d.entries.map Prod.fst

/-- The values, in the order of their keys. -/
def values (d : Dict κ α) : List α := d.entries.map Prod.snd

theorem nodup_keys (d : Dict κ α) : d.keys.Nodup := d.nodup

/-- Apply a function to the values. -/
def map (f : α → β) (d : Dict κ α) : Dict κ β where
  entries := d.entries.map fun entry => (entry.1, f entry.2)
  nodup := by simpa [Function.comp_def] using d.nodup

variable [DecidableEq κ]

/-- `d.get(key)`. -/
def get? (d : Dict κ α) (key : κ) : Option α :=
  (d.entries.find? fun entry => entry.1 = key).map Prod.snd

/-- The entries after `d[key] = value`. -/
def setEntries (key : κ) (value : α) (entries : List (κ × α)) : List (κ × α) :=
  if key ∈ entries.map Prod.fst then
    entries.map fun entry => if entry.1 = key then (key, value) else entry
  else entries ++ [(key, value)]

/-- Setting a key that is there keeps the keys. -/
theorem keys_setEntries {key : κ} {value : α} {entries : List (κ × α)}
    (hmem : key ∈ entries.map Prod.fst) :
    (setEntries key value entries).map Prod.fst = entries.map Prod.fst := by
  have hsame : (fun entry : κ × α => (if entry.1 = key then (key, value) else entry).1) =
      Prod.fst := by
    funext entry
    split_ifs with heq
    · exact heq.symm
    · rfl
  rw [setEntries, if_pos hmem, List.map_map, Function.comp_def, hsame]

theorem nodup_setEntries (key : κ) (value : α) {entries : List (κ × α)}
    (h : (entries.map Prod.fst).Nodup) : ((setEntries key value entries).map Prod.fst).Nodup := by
  by_cases hmem : key ∈ entries.map Prod.fst
  · rw [keys_setEntries hmem]
    exact h
  · rw [setEntries, if_neg hmem, List.map_append, List.map_cons, List.map_nil, List.nodup_append]
    refine ⟨h, List.nodup_singleton _, fun a ha b hb heq => ?_⟩
    rw [heq, List.mem_singleton.mp hb] at ha
    exact hmem ha

/-- `d[key] = value`. -/
def set (d : Dict κ α) (key : κ) (value : α) : Dict κ α :=
  ⟨setEntries key value d.entries, nodup_setEntries key value d.nodup⟩

/-- `d.pop(key, None)`. -/
def erase (d : Dict κ α) (key : κ) : Dict κ α where
  entries := d.entries.filter fun entry => entry.1 ≠ key
  nodup := (List.filter_sublist.map Prod.fst).nodup d.nodup

/-- `dict(entries)`: the last entry of a key counts. -/
def ofList (entries : List (κ × α)) : Dict κ α :=
  entries.foldl (fun d entry => d.set entry.1 entry.2) empty

/-! ### Lookups -/

variable {d d' : Dict κ α} {key k : κ} {value a : α}

/-- **A lookup finds the entry of its key.** -/
theorem get?_eq_some_iff : d.get? key = some value ↔ (key, value) ∈ d.entries := by
  rw [get?, Option.map_eq_some_iff]
  constructor
  · rintro ⟨⟨k, v⟩, hfind, rfl⟩
    have hkey := List.find?_some hfind
    obtain rfl : k = key := of_decide_eq_true hkey
    exact List.mem_of_find?_eq_some hfind
  · intro hmem
    refine ⟨(key, value), ?_, rfl⟩
    have hpairwise := List.pairwise_map.mp d.nodup
    obtain ⟨before, after, hentries⟩ := List.append_of_mem hmem
    rw [List.find?_eq_some_iff_append]
    refine ⟨by simp, before, after, hentries, fun entry hentry => ?_⟩
    rw [hentries, List.pairwise_append] at hpairwise
    simpa using hpairwise.2.2 entry hentry (key, value) List.mem_cons_self

/-- The entry that a lookup finds is the only one of its key. -/
theorem filter_entries (h : d.get? key = some value) :
    d.entries.filter (fun entry => entry.1 = key) = [(key, value)] := by
  have hpairwise := List.pairwise_map.mp d.nodup
  obtain ⟨before, after, hentries⟩ := List.append_of_mem (get?_eq_some_iff.mp h)
  rw [hentries, List.pairwise_append, List.pairwise_cons] at hpairwise
  obtain ⟨-, ⟨hafter, -⟩, hbefore⟩ := hpairwise
  have hnone : before.filter (fun entry => entry.1 = key) = [] :=
    List.filter_eq_nil_iff.mpr fun entry hentry => by
      simpa using hbefore entry hentry (key, value) List.mem_cons_self
  have hnone' : after.filter (fun entry => entry.1 = key) = [] :=
    List.filter_eq_nil_iff.mpr fun entry hentry => by
      simpa using Ne.symm (hafter entry hentry)
  rw [hentries, List.filter_append, List.filter_cons, hnone, hnone']
  simp

theorem mem_keys_iff : key ∈ d.keys ↔ ∃ value, d.get? key = some value := by
  simp [keys, get?_eq_some_iff]

theorem get?_eq_none_iff : d.get? key = none ↔ key ∉ d.keys := by
  rw [mem_keys_iff, Option.eq_none_iff_forall_ne_some, not_exists]

@[simp] theorem get?_empty : (∅ : Dict κ α).get? key = none := rfl

theorem mem_values_iff : value ∈ d.values ↔ ∃ key, d.get? key = some value := by
  simp [values, get?_eq_some_iff]

theorem mem_setEntries {entries : List (κ × α)} :
    (k, a) ∈ setEntries key value entries ↔
      (k = key ∧ a = value) ∨ k ≠ key ∧ (k, a) ∈ entries := by
  rw [setEntries]
  split_ifs with hmem
  · rw [List.mem_map]
    constructor
    · rintro ⟨entry, hentry, heq⟩
      split_ifs at heq with hkey
      · cases heq
        exact .inl ⟨rfl, rfl⟩
      · subst heq
        exact .inr ⟨hkey, hentry⟩
    · rintro (⟨rfl, rfl⟩ | ⟨hne, hentry⟩)
      · obtain ⟨entry, hentry, hkey⟩ := List.mem_map.mp hmem
        exact ⟨entry, hentry, if_pos hkey⟩
      · exact ⟨(k, a), hentry, if_neg hne⟩
  · rw [List.mem_append, List.mem_singleton, Prod.mk.injEq]
    constructor
    · rintro (hentry | heq)
      · refine .inr ⟨?_, hentry⟩
        rintro rfl
        exact hmem (List.mem_map_of_mem (f := Prod.fst) hentry)
      · exact .inl heq
    · rintro (heq | ⟨-, hentry⟩)
      · exact .inr heq
      · exact .inl hentry

@[simp] theorem get?_set_self : (d.set key value).get? key = some value :=
  get?_eq_some_iff.mpr (mem_setEntries.mpr (.inl ⟨rfl, rfl⟩))

theorem get?_set_of_ne (h : k ≠ key) : (d.set key value).get? k = d.get? k := by
  refine Option.ext fun a => ?_
  rw [get?_eq_some_iff, get?_eq_some_iff, set, mem_setEntries]
  simp [h]

theorem get?_set : (d.set key value).get? k = if k = key then some value else d.get? k := by
  split_ifs with h
  · rw [h, get?_set_self]
  · exact get?_set_of_ne h

theorem get?_erase : (d.erase key).get? k = if k = key then none else d.get? k := by
  refine Option.ext fun a => ?_
  rw [get?_eq_some_iff, erase, List.mem_filter, ← get?_eq_some_iff]
  split_ifs with h <;> simp [h]

theorem keys_set_of_mem (h : key ∈ d.keys) : (d.set key value).keys = d.keys := keys_setEntries h

/-- A new key comes last. -/
theorem entries_set_of_not_mem (h : key ∉ d.keys) :
    (d.set key value).entries = d.entries ++ [(key, value)] := if_neg h

theorem get?_map (f : α → β) : (d.map f).get? key = (d.get? key).map f := by
  rw [get?, get?, map, List.find?_map, Option.map_map, Option.map_map]
  rfl

/-- **Dictionaries of the same lookups have the same entries**, up to their order. -/
theorem perm_iff : d.entries.Perm d'.entries ↔ ∀ key, d.get? key = d'.get? key := by
  constructor
  · intro hperm key
    refine Option.ext fun a => ?_
    rw [get?_eq_some_iff, get?_eq_some_iff]
    exact hperm.mem_iff
  · intro h
    refine (List.perm_ext_iff_of_nodup d.nodup.of_map d'.nodup.of_map).mpr ?_
    rintro ⟨key, value⟩
    rw [← get?_eq_some_iff, h, get?_eq_some_iff]

/-! ### Dictionaries made of entries -/

variable {entries : List (κ × α)} {entries' : List (κ × β)}

theorem ofList_concat (entry : κ × α) :
    ofList (entries ++ [entry]) = (ofList entries).set entry.1 entry.2 := by
  rw [ofList, ofList, List.foldl_append]
  rfl

/-- **The last entry of a key counts.** -/
theorem get?_ofList :
    (ofList entries).get? key =
      (entries.reverse.find? fun entry => entry.1 = key).map Prod.snd := by
  induction entries using List.reverseRecOn with
  | nil => rfl
  | append_singleton entries entry ih =>
    rw [ofList_concat, get?_set, ih, List.reverse_append, List.reverse_singleton,
      List.singleton_append, List.find?_cons]
    by_cases hkey : entry.1 = key
    · simp [hkey]
    · simp [hkey, Ne.symm hkey]

/-- What a lookup finds was among the entries. -/
theorem mem_of_get?_ofList (h : (ofList entries).get? key = some value) :
    (key, value) ∈ entries := by
  rw [get?_ofList, Option.map_eq_some_iff] at h
  obtain ⟨⟨k, a⟩, hfind, rfl⟩ := h
  have hkey := List.find?_some hfind
  obtain rfl : k = key := of_decide_eq_true hkey
  exact List.mem_reverse.mp (List.mem_of_find?_eq_some hfind)

theorem mem_keys_ofList_iff : key ∈ (ofList entries).keys ↔ key ∈ entries.map Prod.fst := by
  simp only [mem_keys_iff, get?_ofList, ← Option.isSome_iff_exists, Option.isSome_map,
    List.find?_isSome, List.mem_reverse, decide_eq_true_eq, List.mem_map]

/-- Entries under different keys are the entries of their dictionary. -/
theorem entries_ofList (h : (entries.map Prod.fst).Nodup) : (ofList entries).entries = entries := by
  induction entries using List.reverseRecOn with
  | nil => rfl
  | append_singleton entries entry ih =>
    rw [List.map_append, List.nodup_append] at h
    obtain ⟨hentries, -, hnew⟩ := h
    have hkey : entry.1 ∉ entries.map Prod.fst := fun hmem =>
      hnew _ hmem _ List.mem_cons_self rfl
    have hset : ((ofList entries).set entry.1 entry.2).entries =
        setEntries entry.1 entry.2 entries := congrArg (setEntries _ _) (ih hentries)
    rw [ofList_concat, hset, setEntries, if_neg hkey]

/-- A dictionary of as many entries as were given has them under different keys. -/
theorem nodup_of_length_ofList (h : (ofList entries).entries.length = entries.length) :
    (entries.map Prod.fst).Nodup := by
  have hsub : (ofList entries).keys.Subperm (entries.map Prod.fst) :=
    List.subperm_of_subset (ofList entries).nodup_keys fun key hkey => mem_keys_ofList_iff.mp hkey
  have hlength : (ofList entries).keys.length = (entries.map Prod.fst).length := by
    rw [keys, List.length_map, List.length_map, h]
  have hperm := hsub.perm_of_length_le (Nat.le_of_eq hlength.symm)
  exact hperm.nodup_iff.mp (ofList entries).nodup_keys

/-- Entries that are related key by key make dictionaries of related lookups. -/
theorem get?_ofList_rel {R : α → β → Prop}
    (h : List.Forall₂ (fun entry entry' => entry.1 = entry'.1 ∧ R entry.2 entry'.2) entries
      entries') : Option.Rel R ((ofList entries).get? key) ((ofList entries').get? key) := by
  rw [get?_ofList, get?_ofList]
  have hreverse := List.rel_reverse h
  generalize entries.reverse = reversed at hreverse
  generalize entries'.reverse = reversed' at hreverse
  induction hreverse with
  | nil => exact .none
  | @cons entry entry' _ _ hentry _ ih =>
    rw [List.find?_cons, List.find?_cons, hentry.1]
    by_cases hkey : entry'.1 = key
    · simpa [hkey] using Option.Rel.some hentry.2
    · simpa [hkey] using ih

end Dict

end Lib
