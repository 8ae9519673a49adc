import CyranoAgent.Contracts.Printing

/-!
# The value that canonical bytes encode

What `_normalize` returns is normal (`normal_of_normalize`), no object within having a key twice;
and normal values are the same up to the order of members exactly when they are equal once sorted
(`Json.same_iff`). So canonical bytes determine the normalised value up to that order
(`canonicalBytes_eq_iff`).
-/

namespace CyranoAgent

/-! ### The same up to the order of members -/

mutual

/-- Values are the same up to the order of members: as Python compares them, but that a boolean is
never an integer. -/
def Json.Same : Json → Json → Prop
  | .null, .null => True
  | .bool a, .bool b => a = b
  | .int m, .int n => m = n
  | .str s, .str t => s = t
  | .arr items, .arr items' => Json.SameItems items items'
  | .obj members, .obj members' =>
    members.length = members'.length ∧ Json.SameMembers members members'
  | _, _ => False

/-- Lists are the same item by item. -/
def Json.SameItems : List Json → List Json → Prop
  | [], [] => True
  | v :: items, w :: items' => Json.Same v w ∧ Json.SameItems items items'
  | _, _ => False

/-- Each member is the same as a member under its key. -/
def Json.SameMembers : List (String × Json) → List (String × Json) → Prop
  | [], _ => True
  | (key, v) :: members, members' =>
    (∃ w, (key, w) ∈ members' ∧ Json.Same v w) ∧ Json.SameMembers members members'

end

mutual

/-- The value and the values within it. -/
def Json.parts : Json → List Json
  | .arr items => .arr items :: Json.partsItems items
  | .obj members => .obj members :: Json.partsMembers members
  | v => [v]

/-- The values within the items of an array. -/
def Json.partsItems : List Json → List Json
  | [] => []
  | v :: items => Json.parts v ++ Json.partsItems items

/-- The values within the values of an object. -/
def Json.partsMembers : List (String × Json) → List Json
  | [] => []
  | (_, v) :: members => Json.parts v ++ Json.partsMembers members

end

/-- What `_normalize` makes of every value: integers are within 53 bits, texts and keys are in
their normal form, and no object has a key twice. -/
def Json.NormalPart (P : Primitives) : Json → Prop
  | .int n => n.natAbs ≤ 2 ^ 53 - 1
  | .str t => ∃ s, t = normalizeText P s
  | .obj members => (members.map Prod.fst).Nodup ∧ ∀ member ∈ members, ∃ key, member.1 = P.nfc key
  | _ => True

/-- The value and all within it are as `_normalize` makes them. -/
def Json.Normal (P : Primitives) (v : Json) : Prop := ∀ u ∈ v.parts, u.NormalPart P

namespace Json

variable {P : Primitives}

theorem mem_partsItems {items : List Json} {u : Json} :
    u ∈ partsItems items ↔ ∃ v ∈ items, u ∈ v.parts := by
  induction items with
  | nil => simp [partsItems]
  | cons v items ih => rw [partsItems, List.mem_append, ih, List.exists_mem_cons_iff]

theorem mem_partsMembers {members : List (String × Json)} {u : Json} :
    u ∈ partsMembers members ↔ ∃ member ∈ members, u ∈ member.2.parts := by
  induction members with
  | nil => simp [partsMembers]
  | cons member members ih => rw [partsMembers, List.mem_append, ih, List.exists_mem_cons_iff]

/-- An array is normal where its items are. -/
theorem normal_arr {items : List Json} : (arr items).Normal P ↔ ∀ v ∈ items, v.Normal P := by
  simp only [Normal, parts, List.forall_mem_cons, NormalPart, true_and, mem_partsItems]
  exact ⟨fun h v hv u hu => h u ⟨v, hv, hu⟩, fun h u ⟨v, hv, hu⟩ => h v hv u hu⟩

/-- An object is normal where its members are, under different keys in their normal form. -/
theorem normal_obj {members : List (String × Json)} :
    (obj members).Normal P ↔ (members.map Prod.fst).Nodup ∧
      ∀ member ∈ members, (∃ key, member.1 = P.nfc key) ∧ member.2.Normal P := by
  simp only [Normal, parts, List.forall_mem_cons, NormalPart, mem_partsMembers, and_assoc]
  refine and_congr_right fun _ => ⟨?_, ?_⟩
  · exact fun h member hmember => ⟨h.1 member hmember, fun u hu => h.2 u ⟨member, hmember, hu⟩⟩
  · exact fun h => ⟨fun member hmember => (h member hmember).1,
      fun u ⟨member, hmember, hu⟩ => (h member hmember).2 u hu⟩

/-- A value without values within. -/
theorem normal_leaf {v : Json} (hv : v.parts = [v]) : v.Normal P ↔ v.NormalPart P := by
  rw [Normal, hv]
  simp

theorem sameMembers_iff {members members' : List (String × Json)} :
    SameMembers members members' ↔
      ∀ member ∈ members, ∃ w, (member.1, w) ∈ members' ∧ member.2.Same w := by
  induction members with
  | nil => simp [SameMembers]
  | cons member members ih => rw [SameMembers, ih, List.forall_mem_cons]

/-! ### Sorted objects -/

/-- The keys of sorted members are the sorted keys. -/
theorem map_fst_insertionSort {α : Type} (members : List (String × α)) :
    (members.insertionSort fun a b => a.1 ≤ b.1).map Prod.fst =
      (members.map Prod.fst).insertionSort (· ≤ ·) :=
  List.map_insertionSort _ _ _ _ fun _ _ _ _ => Iff.rfl

/-- **Members under unique keys are equal once sorted** exactly when they are so up to order. -/
theorem insertionSort_eq_iff {α : Type} {members members' : List (String × α)}
    (hnodup : (members.map Prod.fst).Nodup) :
    members.insertionSort (fun a b => a.1 ≤ b.1) = members'.insertionSort (fun a b => a.1 ≤ b.1) ↔
      members.Perm members' := by
  constructor
  · intro h
    have hperm := List.perm_insertionSort (fun a b : String × α => a.1 ≤ b.1) members
    rw [h] at hperm
    exact hperm.symm.trans (List.perm_insertionSort _ _)
  · intro hperm
    have hsort := List.perm_insertionSort (fun a b : String × α => a.1 ≤ b.1) members
    refine eq_of_perm_of_keys ?_ ?_
      (hsort.trans (hperm.trans (List.perm_insertionSort _ members').symm))
    · -- sorted lists of the same keys
      rw [map_fst_insertionSort, map_fst_insertionSort]
      refine List.Perm.eq_of_pairwise' (List.pairwise_insertionSort _ _)
        (List.pairwise_insertionSort _ _) ?_
      exact (List.perm_insertionSort _ _).trans
        ((hperm.map _).trans (List.perm_insertionSort _ _).symm)
    · exact ((hsort.map Prod.fst).nodup_iff).mpr hnodup

/-- Members are the same up to order where each is the same as one under its key. -/
theorem perm_iff_of_same {members members' : List (String × Json)}
    (hnodup : (members.map Prod.fst).Nodup)
    (hsame : ∀ member ∈ members, ∀ member' ∈ members',
      (member.2.Same member'.2 ↔ member.2.sorted = member'.2.sorted)) :
    (members.map fun member => (member.1, member.2.sorted)).Perm
        (members'.map fun member => (member.1, member.2.sorted)) ↔
      members.length = members'.length ∧
        ∀ member ∈ members, ∃ w, (member.1, w) ∈ members' ∧ member.2.Same w := by
  have hkeys {members : List (String × Json)} (hnodup : (members.map Prod.fst).Nodup) :
      (members.map fun member => (member.1, member.2.sorted)).Nodup := by
    refine List.Nodup.of_map Prod.fst ?_
    simpa [Function.comp_def] using hnodup
  have hsub : members.map (fun member => (member.1, member.2.sorted)) ⊆
        members'.map (fun member => (member.1, member.2.sorted)) ↔
      ∀ member ∈ members, ∃ w, (member.1, w) ∈ members' ∧ member.2.Same w := by
    constructor
    · intro h member hmember
      obtain ⟨member', hmember', heq⟩ := List.mem_map.mp (h (List.mem_map_of_mem hmember))
      obtain ⟨hkey, hsorted⟩ := Prod.mk.inj heq
      refine ⟨member'.2, by rwa [← hkey], ?_⟩
      exact (hsame member hmember member' hmember').mpr hsorted.symm
    · intro h entry hentry
      obtain ⟨member, hmember, rfl⟩ := List.mem_map.mp hentry
      obtain ⟨w, hw, hsame'⟩ := h member hmember
      refine List.mem_map.mpr ⟨(member.1, w), hw, ?_⟩
      rw [(hsame member hmember (member.1, w) hw).mp hsame']
  rw [← hsub]
  constructor
  · intro hperm
    exact ⟨by simpa using hperm.length_eq, hperm.subset⟩
  · rintro ⟨hlength, hsubset⟩
    exact (List.subperm_of_subset (hkeys hnodup) hsubset).perm_of_length_le
      (by simpa using hlength.ge)

mutual

/-- **Normal values are the same up to the order of members exactly when they are equal once
sorted.** -/
theorem same_iff : (v w : Json) → v.Normal P → w.Normal P → (v.Same w ↔ v.sorted = w.sorted)
  | .arr items, w => fun hv hw => by
    cases w with
    | arr items' =>
      rw [Same, Json.sorted, Json.sorted, Json.arr.injEq]
      exact sameItems_iff items items' (normal_arr.mp hv) (normal_arr.mp hw)
    | _ => simp [Same, Json.sorted]
  | .obj members, w => fun hv hw => by
    cases w with
    | obj members' =>
      rw [normal_obj] at hv hw
      have hnodup : ((sortedMembers members).map Prod.fst).Nodup := by
        simpa [sortedMembers_eq_map, Function.comp_def] using hv.1
      rw [Same, sameMembers_iff, Json.sorted, Json.sorted, Json.obj.injEq,
        insertionSort_eq_iff hnodup, sortedMembers_eq_map, sortedMembers_eq_map,
        perm_iff_of_same hv.1]
      exact fun member hmember member' hmember' => same_members_iff members
        (fun member hmember => (hv.2 member hmember).2) member hmember member'.2
        (hw.2 member' hmember').2
    | _ => simp [Same, Json.sorted]
  | .null, w => fun _ _ => by cases w <;> simp [Same, Json.sorted]
  | .bool _, w => fun _ _ => by cases w <;> simp [Same, Json.sorted]
  | .int _, w => fun _ _ => by cases w <;> simp [Same, Json.sorted]
  | .str _, w => fun _ _ => by cases w <;> simp [Same, Json.sorted]

theorem sameItems_iff : (items items' : List Json) → (∀ v ∈ items, v.Normal P) →
    (∀ w ∈ items', w.Normal P) → (SameItems items items' ↔ sortedItems items = sortedItems items')
  | [], items' => fun _ _ => by cases items' <;> simp [SameItems, sortedItems]
  | v :: items, items' => fun hv hw => by
    cases items' with
    | nil => simp [SameItems, sortedItems]
    | cons w items' =>
      rw [List.forall_mem_cons] at hv hw
      rw [SameItems, sortedItems, sortedItems, List.cons.injEq, same_iff v w hv.1 hw.1,
        sameItems_iff items items' hv.2 hw.2]

theorem same_members_iff : (members : List (String × Json)) →
    (∀ member ∈ members, member.2.Normal P) → ∀ member ∈ members, ∀ w : Json, w.Normal P →
      (member.2.Same w ↔ member.2.sorted = w.sorted)
  | [], _ => by simp
  | (_, v) :: members, h => by
    rw [List.forall_mem_cons] at h
    exact List.forall_mem_cons.mpr ⟨fun w hw => same_iff v w h.1 hw, same_members_iff members h.2⟩

end

end Json

/-! ### Normalised values -/

section

variable {P : Primitives}

mutual

/-- **What `_normalize` returns is normal.** -/
theorem normal_of_normalize : (x : PyValue) → ∀ j, normalize P x = .ok j → j.Normal P
  | .none | .bool _ => fun j h => by
    rw [normalize] at h
    obtain rfl := Except.ok.inj h
    exact (Json.normal_leaf rfl).mpr trivial
  | .str s => fun j h => by
    rw [normalize_str] at h
    obtain rfl := Except.ok.inj h
    exact (Json.normal_leaf rfl).mpr ⟨s, rfl⟩
  | .int n => fun j h => by
    obtain ⟨hrange, rfl⟩ := normalize_int_eq_ok.mp h
    exact (Json.normal_leaf rfl).mpr hrange
  | .other => fun j h => by
    rw [normalize] at h
    cases h
  | .list items => fun j h => by
    rw [normalize] at h
    rcases hitems : normalizeItems P items with e | vs <;> rw [hitems] at h
    · cases h
    · obtain rfl := Except.ok.inj h
      exact Json.normal_arr.mpr (normal_of_normalizeItems items vs hitems)
  | .dict entries => fun j h => by
    rw [normalize_dict] at h
    rcases hentries : normalizeEntries P [] entries with e | members <;> rw [hentries] at h
    · cases h
    · obtain rfl := Except.ok.inj h
      exact normal_of_normalizeEntries entries [] members (Json.normal_obj.mpr (by simp)) hentries

theorem normal_of_normalizeItems : (items : List PyValue) →
    ∀ vs, normalizeItems P items = .ok vs → ∀ v ∈ vs, v.Normal P
  | [] => fun vs h => by
    rw [normalizeItems] at h
    obtain rfl := Except.ok.inj h
    simp
  | item :: items => fun vs h => by
    rw [normalizeItems] at h
    rcases hitem : normalize P item with e | v <;> rw [hitem] at h
    · cases h
    · rcases hitems : normalizeItems P items with e | rest <;> rw [hitems] at h
      · cases h
      · obtain rfl := Except.ok.inj h
        exact List.forall_mem_cons.mpr
          ⟨normal_of_normalize item v hitem, normal_of_normalizeItems items rest hitems⟩

/-- The loop over a mapping adds members under new keys. -/
theorem normal_of_normalizeEntries : (entries : List (PyKey × PyValue)) →
    ∀ result members, (Json.obj result).Normal P →
      normalizeEntries P result entries = .ok members → (Json.obj members).Normal P
  | [] => fun result members hresult h => by
    rw [normalizeEntries_nil] at h
    obtain rfl := Except.ok.inj h
    exact hresult
  | (.other, _) :: _ => fun result members _ h => by
    rw [normalizeEntries] at h
    cases h
  | (.str key, item) :: entries => fun result members hresult h => by
    rw [normalizeEntries] at h
    split at h
    · cases h
    · next hfresh =>
      rcases hitem : normalize P item with e | v <;> rw [hitem] at h
      · cases h
      · obtain ⟨hnodup, hmembers⟩ := Json.normal_obj.mp hresult
        refine normal_of_normalizeEntries entries _ members (Json.normal_obj.mpr ⟨?_, ?_⟩) h
        · rw [List.map_append, List.nodup_append_comm]
          refine List.nodup_cons.mpr ⟨fun hmem => hfresh ?_, hnodup⟩
          obtain ⟨member, hmember, hkey⟩ := List.mem_map.mp hmem
          exact List.any_eq_true.mpr ⟨member, hmember, by simpa using hkey⟩
        · rw [List.forall_mem_append]
          refine ⟨hmembers, ?_⟩
          rw [List.forall_mem_singleton]
          exact ⟨⟨key, rfl⟩, normal_of_normalize item v hitem⟩

end

/-- **Canonical bytes are the same exactly when the normalised values are**, up to the order of
members. -/
theorem canonicalBytes_eq_iff {x y : PyValue} {a b : ByteArray}
    (hx : canonicalBytes P x = .ok a) (hy : canonicalBytes P y = .ok b) :
    a = b ↔ ∃ j k, normalize P x = .ok j ∧ normalize P y = .ok k ∧ j.Same k := by
  obtain ⟨j, hj⟩ := (canonicalBytes_isOk P).mp ⟨a, hx⟩
  obtain ⟨k, hk⟩ := (canonicalBytes_isOk P).mp ⟨b, hy⟩
  have hsame := Json.same_iff j k (normal_of_normalize x j hj) (normal_of_normalize y k hk)
  have hbytes : a = b ↔ dumps j = dumps k := by
    rw [canonicalBytes, hj] at hx
    rw [canonicalBytes, hk] at hy
    rw [← Except.ok.inj hx, ← Except.ok.inj hy, String.toByteArray_inj]
    exact ⟨fun h => String.ofList_injective h, fun h => by rw [h]⟩
  rw [hbytes, dumps_eq_iff, ← hsame]
  constructor
  · exact fun h => ⟨j, k, hj, hk, h⟩
  · rintro ⟨j', k', hj', hk', h⟩
    rw [hj, Except.ok.injEq] at hj'
    rw [hk, Except.ok.injEq] at hk'
    rwa [hj', hk']

/-- The same members in two orders, an integer and a boolean among them. -/
theorem canonicalBytes_eq_iff_reordered :
    "\x7b\"a\":1,\"b\":true\x7d".toByteArray = "\x7b\"a\":1,\"b\":true\x7d".toByteArray ↔
      ∃ j k, normalize .ascii (.dict [(.str "a", .int 1), (.str "b", .bool true)]) = .ok j ∧
        normalize .ascii (.dict [(.str "b", .bool true), (.str "a", .int 1)]) = .ok k ∧
        j.Same k :=
  canonicalBytes_eq_iff (by decide) (by decide)

end

end CyranoAgent
