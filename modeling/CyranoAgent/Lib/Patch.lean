import CyranoAgent.Lib.Dict

/-!
# Dictionaries under updates

An update of a dictionary says, of some keys, which value each is set to or that it is deleted.
`Dict.patch` applies it entry by entry. Of updates that are applied in turn, the last one that
mentions a key decides (`Dict.get?_patchAll`).
-/

namespace Lib

namespace Dict

variable {κ α : Type} [DecidableEq κ]

/-- One entry of an update: `d.pop(key, None)` or `d[key] = value`. -/
def patchEntry (d : Dict κ α) (entry : κ × Option α) : Dict κ α :=
  match entry.2 with
  | none => d.erase entry.1
  | some value => d.set entry.1 value

/-- The dictionary after an update. -/
def patch (d : Dict κ α) (update : Dict κ (Option α)) : Dict κ α :=
  update.entries.foldl patchEntry d

/-- The dictionary after updates, in turn. -/
def patchAll (d : Dict κ α) (updates : List (Dict κ (Option α))) : Dict κ α :=
  updates.foldl patch d

variable {d : Dict κ α} {k : κ} {updates : List (Dict κ (Option α))}

/-- Updates apply in turn. -/
theorem patchAll_append (updates' : List (Dict κ (Option α))) :
    d.patchAll (updates ++ updates') = (d.patchAll updates).patchAll updates' :=
  List.foldl_append

theorem get?_patchEntry (entry : κ × Option α) :
    (d.patchEntry entry).get? k = if k = entry.1 then entry.2 else d.get? k := by
  obtain ⟨key, value⟩ := entry
  cases value with
  | none => exact get?_erase
  | some value => exact get?_set

/-- The entries of an update reach the keys that they mention. -/
theorem get?_foldl_patchEntry {entries : List (κ × Option α)}
    (hnodup : (entries.map Prod.fst).Nodup) :
    (entries.foldl patchEntry d).get? k =
      ((entries.find? fun entry => entry.1 = k).map Prod.snd).getD (d.get? k) := by
  induction entries generalizing d with
  | nil => rfl
  | cons entry entries ih =>
    obtain ⟨hnew, hnodup⟩ := List.nodup_cons.mp hnodup
    rw [List.foldl_cons, ih hnodup, get?_patchEntry, List.find?_cons]
    by_cases hkey : entry.1 = k
    · have hnone : entries.find? (fun entry => entry.1 = k) = none := by
        rw [List.find?_eq_none]
        intro other hother hsame
        refine hnew (List.mem_map.mpr ⟨other, hother, ?_⟩)
        rw [hkey]
        exact of_decide_eq_true hsame
      simp [hkey, hnone]
    · simp [hkey, Ne.symm hkey]

/-- **What a key is after an update.** -/
theorem get?_patch (update : Dict κ (Option α)) :
    (d.patch update).get? k = (update.get? k).getD (d.get? k) :=
  get?_foldl_patchEntry update.nodup

/-- **The last update that mentions a key decides.** -/
theorem get?_patchAll :
    (d.patchAll updates).get? k =
      ((updates.filterMap fun update => update.get? k).getLast?).getD (d.get? k) := by
  induction updates using List.reverseRecOn with
  | nil => rfl
  | append_singleton updates update ih =>
    rw [patchAll, List.foldl_append, List.foldl_cons, List.foldl_nil, get?_patch, ← patchAll, ih,
      List.filterMap_append]
    cases hupdate : update.get? k <;> simp [hupdate]

/-- What is looked up among keys that are given values. -/
theorem get?_ofList_map (f : κ → α) (keys : List κ) :
    (ofList (keys.map fun key => (key, f key))).get? k = if k ∈ keys then some (f k) else none := by
  rw [get?_ofList, ← List.map_reverse, List.find?_map, Option.map_map]
  by_cases hkey : k ∈ keys
  · have hfound : (keys.reverse.find? fun key => decide (key = k)).isSome := by
      rw [List.find?_isSome]
      exact ⟨k, List.mem_reverse.mpr hkey, decide_eq_true rfl⟩
    obtain ⟨key, hfind⟩ := Option.isSome_iff_exists.mp hfound
    obtain rfl : key = k := by simpa using List.find?_some hfind
    rw [if_pos hkey]
    exact congrArg (Option.map _) hfind
  · have hfind : keys.reverse.find? (fun key => decide (key = k)) = none := by
      refine List.find?_eq_none.mpr fun key hmem heq => hkey ?_
      rw [← of_decide_eq_true heq]
      exact List.mem_reverse.mp hmem
    rw [if_neg hkey]
    exact congrArg (Option.map _) hfind

/-- An update of what has no entry under its keys appends what it sets. -/
theorem entries_foldl_patchEntry {entries : List (κ × Option α)}
    (hnodup : (entries.map Prod.fst).Nodup) (hfresh : ∀ entry ∈ entries, entry.1 ∉ d.keys) :
    (entries.foldl patchEntry d).entries =
      d.entries ++ entries.filterMap fun entry => entry.2.map fun value => (entry.1, value) := by
  induction entries generalizing d with
  | nil => simp
  | cons entry entries ih =>
    obtain ⟨key, value⟩ := entry
    obtain ⟨hnew, hrest⟩ := List.nodup_cons.mp hnodup
    obtain ⟨hkey, hothers⟩ := List.forall_mem_cons.mp hfresh
    have hother : ∀ other ∈ entries, other.1 ≠ key := fun other hother heq =>
      hnew (List.mem_map.mpr ⟨other, hother, heq⟩)
    cases value with
    | none =>
      have hsame : d.erase key = d := by
        refine Dict.ext (List.filter_eq_self.mpr fun entry hentry => ?_)
        simp only [decide_eq_true_eq]
        rintro rfl
        exact hkey (List.mem_map_of_mem hentry)
      rw [List.foldl_cons, patchEntry, hsame, ih hrest hothers]
      simp
    | some value =>
      rw [List.foldl_cons, patchEntry, ih hrest, entries_set_of_not_mem hkey]
      · simp
      · intro other hmem
        rw [keys, entries_set_of_not_mem hkey, List.map_append, List.mem_append, not_or]
        refine ⟨hothers other hmem, ?_⟩
        simpa using hother other hmem

/-- What an update makes of the dictionary without entries. -/
theorem patch_empty (update : Dict κ (Option α)) :
    ((∅ : Dict κ α).patch update).entries =
      update.entries.filterMap fun entry => entry.2.map fun value => (entry.1, value) := by
  have hentries := entries_foldl_patchEntry (d := (∅ : Dict κ α)) update.nodup
    fun _ _ => List.not_mem_nil
  exact hentries.trans (List.nil_append _)

end Dict

end Lib
