import CyranoAgent.Contracts.Reading

/-!
# Encoding stored bytes again

Canonical bytes that are read as JSON and encoded again are the same bytes when every string value
is in a form that normalising leaves alone. Line ends are replaced once and NFC changes none, so
`\r\r\n` becomes `\r\n`, which the next encoding replaces: **the bytes are a fixed point exactly
when no string value holds `\r\r\n`** (`fixedPoint_iff`). Keys keep their line ends and do not
count.
-/

namespace CyranoAgent

/-! ### Line ends -/

/-- What the code relies on in NFC: it is idempotent, and a line end neither combines with anything
nor comes from anything else. -/
structure NfcLaws (P : Primitives) : Prop where
  idem : ∀ s, P.nfc (P.nfc s) = P.nfc s
  line_end : ∀ (a b : List Char) (c : Char), c = '\r' ∨ c = '\n' →
    (P.nfc (String.ofList (a ++ c :: b))).toList =
      (P.nfc (String.ofList a)).toList ++ c :: (P.nfc (String.ofList b)).toList
  no_line_end : ∀ (a : List Char) (c : Char), c = '\r' ∨ c = '\n' → c ∉ a →
    c ∉ (P.nfc (String.ofList a)).toList
  ne_nil : ∀ a : List Char, a ≠ [] → (P.nfc (String.ofList a)).toList ≠ []

/-- The ASCII primitives leave every text alone. -/
theorem nfcLaws_ascii : NfcLaws .ascii where
  idem _ := rfl
  line_end a b c _ := by simp [Primitives.ascii]
  no_line_end a c _ h := by simpa [Primitives.ascii] using h
  ne_nil a h := by simpa [Primitives.ascii] using h

theorem infix_pair_cons_iff {c d x : Char} {l : List Char} :
    [c, d] <:+: x :: l ↔ (c = x ∧ l.head? = some d) ∨ [c, d] <:+: l := by
  rw [List.infix_cons_iff]
  refine or_congr_left ?_
  cases l with
  | nil => simp
  | cons y l => simp [List.cons_prefix_cons, eq_comm]

/-- Text without line ends in front does not count. -/
theorem infix_pair_append_iff {c d : Char} {a l : List Char} (ha : c ∉ a) :
    [c, d] <:+: a ++ l ↔ [c, d] <:+: l := by
  induction a with
  | nil => rfl
  | cons x a ih =>
    rw [List.mem_cons, not_or] at ha
    rw [List.cons_append, infix_pair_cons_iff, ih ha.2]
    simp [ha.1]

theorem head?_crlfToLf {l : List Char} (hl : l.head? ≠ some '\n') :
    (crlfToLf l).head? = some '\n' ↔ ['\r', '\n'] <+: l := by
  fun_cases crlfToLf l with
  | case1 rest => simp
  | case2 c rest hne =>
    refine iff_of_false (by simpa [crlfToLf] using hl) ?_
    rintro ⟨t, heq⟩
    simp only [List.cons_append, List.nil_append, List.cons.injEq] at heq
    exact hne t heq.1.symm heq.2.symm
  | case3 => simp

/-- **A pair is left where there were two returns before a line feed.** -/
theorem infix_crlfToLf_iff (l : List Char) :
    ['\r', '\n'] <:+: crlfToLf l ↔ ['\r', '\r', '\n'] <:+: l := by
  induction l using crlfToLf.induct with
  | case1 rest ih =>
    rw [crlfToLf, infix_pair_cons_iff, ih, List.infix_cons_iff, List.infix_cons_iff]
    simp [List.cons_prefix_cons]
  | case2 c rest hne ih =>
    rw [crlfToLf, infix_pair_cons_iff, ih, List.infix_cons_iff, List.cons_prefix_cons]
    · refine or_congr_left (and_congr_right fun hc => head?_crlfToLf fun hhead => ?_)
      obtain ⟨t, rfl⟩ := List.head?_eq_some_iff.mp hhead
      exact hne t hc.symm rfl
    · exact hne
  | case3 => simp [crlfToLf]

theorem crlfToLf_eq_self {l : List Char} (hl : ¬['\r', '\n'] <:+: l) : crlfToLf l = l := by
  induction l using crlfToLf.induct with
  | case1 rest ih => exact absurd ⟨[], rest, rfl⟩ hl
  | case2 c rest hne ih =>
    rw [crlfToLf, ih fun h => hl (infix_pair_cons_iff.mpr (.inr h))]
    exact hne
  | case3 => rfl

/-- Replacing line ends leaves as many returns where there is no pair, and fewer where there is. -/
theorem count_crlfToLf (l : List Char) :
    (crlfToLf l).count '\r' ≤ l.count '\r' ∧
      (['\r', '\n'] <:+: l → (crlfToLf l).count '\r' < l.count '\r') := by
  induction l using crlfToLf.induct with
  | case1 rest ih =>
    have hcount : (crlfToLf ('\r' :: '\n' :: rest)).count '\r' <
        ('\r' :: '\n' :: rest).count '\r' := by
      have hle := ih.1
      simp [crlfToLf]
      omega
    exact ⟨hcount.le, fun _ => hcount⟩
  | case2 c rest hne ih =>
    rw [crlfToLf]
    · rw [List.count_cons, List.count_cons, infix_pair_cons_iff]
      refine ⟨by have := ih.1; omega, ?_⟩
      rintro (⟨rfl, hhead⟩ | h)
      · obtain ⟨t, rfl⟩ := List.head?_eq_some_iff.mp hhead
        exact absurd rfl (hne t rfl)
      · have := ih.2 h
        omega
    · exact hne
  | case3 => simp [crlfToLf]

section

variable {P : Primitives}

/-- Text is without line ends, or has a first one. -/
theorem line_end_cases (l : List Char) :
    ('\r' ∉ l ∧ '\n' ∉ l) ∨
      ∃ a c b, l = a ++ c :: b ∧ (c = '\r' ∨ c = '\n') ∧ '\r' ∉ a ∧ '\n' ∉ a := by
  induction l with
  | nil => simp
  | cons x l ih =>
    by_cases hx : x = '\r' ∨ x = '\n'
    · exact .inr ⟨[], x, l, rfl, hx, by simp, by simp⟩
    · rw [not_or] at hx
      rcases ih with ⟨hr, hn⟩ | ⟨a, c, b, rfl, hc, hr, hn⟩
      · exact .inl ⟨by simp [hr, Ne.symm hx.1], by simp [hn, Ne.symm hx.2]⟩
      · exact .inr ⟨x :: a, c, b, rfl, hc, by simp [hr, Ne.symm hx.1], by simp [hn, Ne.symm hx.2]⟩

theorem NfcLaws.head? (hP : NfcLaws P) (l : List Char) :
    (P.nfc (String.ofList l)).toList.head? = some '\n' ↔ l.head? = some '\n' := by
  have hnot {a : List Char} (ha : '\n' ∉ a) : a.head? ≠ some '\n' := fun hhead =>
    ha (List.mem_of_head? hhead)
  rcases line_end_cases l with ⟨-, hn⟩ | ⟨a, c, b, rfl, hc, -, hn⟩
  · exact iff_of_false (hnot (hP.no_line_end l _ (.inr rfl) hn)) (hnot hn)
  · rw [hP.line_end a b c hc]
    rcases a with _ | ⟨x, a⟩
    · rw [show P.nfc (String.ofList []) = "" from P.nfc_ascii _ (by simp)]
      simp
    · have hnfc := hnot (hP.no_line_end _ _ (.inr rfl) hn)
      obtain ⟨y, t, hy⟩ := List.exists_cons_of_ne_nil (hP.ne_nil _ (List.cons_ne_nil x a))
      rw [hy] at hnfc ⊢
      exact iff_of_false hnfc (by simpa using hnot hn)

/-- **NFC keeps line ends**: the pairs of them, and the number of returns. -/
theorem NfcLaws.line_ends (hP : NfcLaws P) (l : List Char) :
    (['\r', '\n'] <:+: (P.nfc (String.ofList l)).toList ↔ ['\r', '\n'] <:+: l) ∧
      (P.nfc (String.ofList l)).toList.count '\r' = l.count '\r' := by
  induction hlength : l.length using Nat.strong_induction_on generalizing l with
  | _ n ih =>
    rcases line_end_cases l with ⟨hr, -⟩ | ⟨a, c, b, rfl, hc, hr, -⟩
    · have hr' := hP.no_line_end l _ (.inl rfl) hr
      refine ⟨iff_of_false (fun h => hr' (h.subset (by simp))) fun h => hr (h.subset (by simp)), ?_⟩
      rw [List.count_eq_zero.mpr hr, List.count_eq_zero.mpr hr']
    · have hr' := hP.no_line_end a _ (.inl rfl) hr
      obtain ⟨hpair, hcount⟩ := ih b.length (by simp at hlength; omega) b rfl
      rw [hP.line_end a b c hc, infix_pair_append_iff hr', infix_pair_append_iff hr,
        infix_pair_cons_iff, infix_pair_cons_iff, hpair, hP.head? b]
      refine ⟨Iff.rfl, ?_⟩
      rw [List.count_append, List.count_append, List.count_cons, List.count_cons, hcount,
        List.count_eq_zero.mpr hr, List.count_eq_zero.mpr hr']

/-- **Normalising a text twice is normalising it once** exactly when it does not hold `\r\r\n`. -/
theorem NfcLaws.normalizeText_idem_iff (hP : NfcLaws P) (s : String) :
    normalizeText P (normalizeText P s) = normalizeText P s ↔
      ¬['\r', '\r', '\n'] <:+: s.toList := by
  obtain ⟨hpair, -⟩ := hP.line_ends (crlfToLf s.toList)
  rw [infix_crlfToLf_iff] at hpair
  rw [← hpair]
  change normalizeText P (normalizeText P s) = _ ↔ ¬['\r', '\n'] <:+: (normalizeText P s).toList
  constructor
  · intro heq hpair
    -- the second time, fewer returns are left
    have hfewer := (count_crlfToLf (normalizeText P s).toList).2 hpair
    rw [← (hP.line_ends _).2] at hfewer
    change (normalizeText P (normalizeText P s)).toList.count '\r' < _ at hfewer
    rw [heq] at hfewer
    exact lt_irrefl _ hfewer
  · intro hpair
    conv_lhs => rw [normalizeText, crlfToLf_eq_self hpair, String.ofList_toList]
    exact hP.idem _

end

/-! ### The strings of a value -/

/-- Induction over a value, its items and the values of its members. -/
@[elab_as_elim]
theorem Json.ind {motive : Json → Prop} (null : motive .null) (bool : ∀ b, motive (.bool b))
    (int : ∀ n, motive (.int n)) (str : ∀ t, motive (.str t))
    (arr : ∀ items : List Json, (∀ v ∈ items, motive v) → motive (.arr items))
    (obj : ∀ members : List (String × Json), (∀ member ∈ members, motive member.2) →
      motive (.obj members)) (v : Json) : motive v := by
  refine @Json.rec motive (fun items => ∀ v ∈ items, motive v)
    (fun members => ∀ member ∈ members, motive member.2) (fun member => motive member.2)
    null bool int str arr obj ?_ ?_ ?_ ?_ (fun _ _ h => h) v
  · simp
  · exact fun _ _ hv hitems => List.forall_mem_cons.mpr ⟨hv, hitems⟩
  · simp
  · exact fun _ _ hmember hmembers => List.forall_mem_cons.mpr ⟨hmember, hmembers⟩

/-- The strings within a value, its keys aside. -/
def Json.texts (v : Json) : List String :=
  v.parts.filterMap fun
    | .str t => some t
    | _ => none

mutual

/-- The value with its strings replaced, its keys aside. -/
def Json.mapTexts (f : String → String) : Json → Json
  | .str t => .str (f t)
  | .arr items => .arr (Json.mapTextsItems f items)
  | .obj members => .obj (Json.mapTextsMembers f members)
  | v => v

/-- The items with their strings replaced. -/
def Json.mapTextsItems (f : String → String) : List Json → List Json
  | [] => []
  | v :: items => Json.mapTexts f v :: Json.mapTextsItems f items

/-- The members with the strings of their values replaced. -/
def Json.mapTextsMembers (f : String → String) : List (String × Json) → List (String × Json)
  | [] => []
  | (key, v) :: members => (key, Json.mapTexts f v) :: Json.mapTextsMembers f members

end

mutual

/-- The strings within a Python value, its keys aside. -/
def PyValue.texts : PyValue → List String
  | .str s => [s]
  | .list items => PyValue.textsItems items
  | .dict entries => PyValue.textsEntries entries
  | _ => []

/-- The strings within the items of a list. -/
def PyValue.textsItems : List PyValue → List String
  | [] => []
  | item :: items => PyValue.texts item ++ PyValue.textsItems items

/-- The strings within the values of a mapping. -/
def PyValue.textsEntries : List (PyKey × PyValue) → List String
  | [] => []
  | (_, item) :: entries => PyValue.texts item ++ PyValue.textsEntries entries

end

namespace Json

theorem texts_arr (items : List Json) : texts (arr items) = items.flatMap texts := by
  have hparts : partsItems items = items.flatMap parts := by
    induction items with
    | nil => rfl
    | cons v items ih => rw [partsItems, ih, List.flatMap_cons]
  rw [texts, parts, List.filterMap_cons, hparts, List.filterMap_flatMap]
  rfl

theorem texts_obj (members : List (String × Json)) :
    texts (obj members) = members.flatMap fun member => member.2.texts := by
  have hparts : partsMembers members = members.flatMap fun member => member.2.parts := by
    induction members with
    | nil => rfl
    | cons member members ih => rw [partsMembers, ih, List.flatMap_cons]
  rw [texts, parts, List.filterMap_cons, hparts, List.filterMap_flatMap]
  rfl

theorem mapTexts_arr (f : String → String) (items : List Json) :
    mapTexts f (arr items) = arr (items.map (mapTexts f)) := by
  have hitems : mapTextsItems f items = items.map (mapTexts f) := by
    induction items with
    | nil => rfl
    | cons v items ih => rw [mapTextsItems, ih, List.map_cons]
  rw [mapTexts, hitems]

theorem mapTexts_obj (f : String → String) (members : List (String × Json)) :
    mapTexts f (obj members) = obj (members.map fun member => (member.1, member.2.mapTexts f)) := by
  have hmembers : mapTextsMembers f members =
      members.map fun member => (member.1, member.2.mapTexts f) := by
    induction members with
    | nil => rfl
    | cons member members ih => rw [mapTextsMembers, ih, List.map_cons]
  rw [mapTexts, hmembers]

theorem sorted_arr (items : List Json) : sorted (arr items) = arr (items.map sorted) := by
  rw [sorted, sortedItems_eq_map]

theorem sorted_obj (members : List (String × Json)) :
    sorted (obj members) = obj ((members.map fun member =>
      (member.1, member.2.sorted)).insertionSort fun a b => a.1 ≤ b.1) := by
  rw [sorted, sortedMembers_eq_map]

/-- A list is left as it is when each of its elements is. -/
theorem map_eq_self_iff {α : Type} {f : α → α} {l : List α} : l.map f = l ↔ ∀ a ∈ l, f a = a := by
  have hmap : l.map f = l.map id ↔ ∀ a ∈ l, f a = id a := List.map_inj_left
  rwa [List.map_id] at hmap

/-- **Replacing strings changes nothing** exactly when each of them is replaced by itself. -/
theorem mapTexts_eq_self_iff {f : String → String} (v : Json) :
    v.mapTexts f = v ↔ ∀ t ∈ v.texts, f t = t := by
  induction v using Json.ind with
  | arr items ih =>
    rw [mapTexts_arr, texts_arr, arr.injEq, map_eq_self_iff]
    simp only [List.mem_flatMap, forall_exists_index, and_imp]
    exact ⟨fun h t v hv => (ih v hv).mp (h v hv) t, fun h v hv => (ih v hv).mpr fun t => h t v hv⟩
  | obj members ih =>
    rw [mapTexts_obj, texts_obj, obj.injEq, map_eq_self_iff]
    simp only [List.mem_flatMap, forall_exists_index, and_imp, Prod.ext_iff, true_and]
    exact ⟨fun h t v hv => (ih v hv).mp (h v hv) t, fun h v hv => (ih v hv).mpr fun t => h t v hv⟩
  | _ => simp [mapTexts, texts, parts]

/-- Sorting members leaves the strings. -/
theorem mem_texts_sorted {t : String} (v : Json) : t ∈ v.sorted.texts ↔ t ∈ v.texts := by
  induction v using Json.ind with
  | arr items ih =>
    simp only [sorted_arr, texts_arr, List.flatMap_map, List.mem_flatMap]
    exact exists_congr fun v => and_congr_right fun hv => ih v hv
  | obj members ih =>
    simp only [sorted_obj, texts_obj, List.mem_flatMap, List.mem_insertionSort, List.mem_map]
    constructor
    · rintro ⟨_, ⟨member, hmember, rfl⟩, ht⟩
      exact ⟨member, hmember, (ih member hmember).mp ht⟩
    · rintro ⟨member, hmember, ht⟩
      exact ⟨_, ⟨member, hmember, rfl⟩, (ih member hmember).mpr ht⟩
  | _ => rfl

/-- Sorting members looks at their keys only. -/
theorem insertionSort_map_values {α β : Type} (g : α → β) (members : List (String × α)) :
    (members.map fun member => (member.1, g member.2)).insertionSort (fun a b => a.1 ≤ b.1) =
      (members.insertionSort fun a b => a.1 ≤ b.1).map fun member => (member.1, g member.2) :=
  (List.map_insertionSort (fun a b : String × α => a.1 ≤ b.1) (fun a b : String × β => a.1 ≤ b.1)
    (fun member => (member.1, g member.2)) members fun _ _ _ _ => Iff.rfl).symm

/-- Strings are replaced before or after sorting. -/
theorem sorted_mapTexts (f : String → String) (v : Json) :
    (v.mapTexts f).sorted = v.sorted.mapTexts f := by
  induction v using Json.ind with
  | arr items ih =>
    rw [mapTexts_arr, sorted_arr, sorted_arr, mapTexts_arr, List.map_map, List.map_map]
    exact congrArg arr (List.map_congr_left ih)
  | obj members ih =>
    have hmembers : (members.map fun member => (member.1, member.2.mapTexts f)).map
          (fun member => (member.1, member.2.sorted)) =
        (members.map fun member => (member.1, member.2.sorted)).map
          fun member => (member.1, member.2.mapTexts f) := by
      rw [List.map_map, List.map_map]
      exact List.map_congr_left fun member hmember => Prod.ext rfl (ih member hmember)
    rw [mapTexts_obj, sorted_obj, sorted_obj, mapTexts_obj, hmembers, insertionSort_map_values]
  | _ => rfl

/-- A sorted value is sorted. -/
theorem sorted_sorted (v : Json) : v.sorted.sorted = v.sorted := by
  induction v using Json.ind with
  | arr items ih =>
    rw [sorted_arr, sorted_arr, List.map_map]
    exact congrArg arr (List.map_congr_left ih)
  | obj members ih =>
    have hmap : (members.map fun member => (member.1, member.2.sorted)).map
          (fun member => (member.1, member.2.sorted)) =
        members.map fun member => (member.1, member.2.sorted) := by
      rw [List.map_map]
      exact List.map_congr_left fun member hmember => by simp [ih member hmember]
    rw [sorted_obj, sorted_obj, ← insertionSort_map_values, hmap]
    exact congrArg obj (List.pairwise_insertionSort _ _).insertionSort_eq
  | _ => rfl

section

variable {P : Primitives}

/-- A normal value is normal once sorted. -/
theorem Normal.sorted {v : Json} (hv : v.Normal P) : v.sorted.Normal P := by
  induction v using Json.ind with
  | arr items ih =>
    rw [sorted_arr, normal_arr, List.forall_mem_map]
    exact fun v hmem => ih v hmem (normal_arr.mp hv v hmem)
  | obj members ih =>
    obtain ⟨hnodup, hmembers⟩ := normal_obj.mp hv
    simp only [sorted_obj, normal_obj, List.mem_insertionSort, List.forall_mem_map]
    refine ⟨?_, fun member hmem => ?_⟩
    swap
    · exact ⟨(hmembers member hmem).1, ih member hmem (hmembers member hmem).2⟩
    rw [((List.perm_insertionSort _ _).map Prod.fst).nodup_iff]
    simpa [Function.comp_def] using hnodup
  | _ => exact hv

end

end Json

/-! ### Encoding again -/

section

variable {P : Primitives}

theorem normalizeItems_map {f : Json → PyValue} {g : Json → Json} {items : List Json}
    (h : ∀ v ∈ items, normalize P (f v) = .ok (g v)) :
    normalizeItems P (items.map f) = .ok (items.map g) := by
  induction items with
  | nil => rfl
  | cons v items ih =>
    rw [List.forall_mem_cons] at h
    rw [List.map_cons, normalizeItems, h.1, ih h.2]
    rfl

/-- The loop over a mapping keeps keys in NFC. -/
theorem normalizeEntries_map {g : Json → Json} {members : List (String × Json)}
    (hkeys : ∀ member ∈ members, P.nfc member.1 = member.1)
    (h : ∀ member ∈ members, normalize P member.2.toPy = .ok (g member.2))
    (result : List (String × Json))
    (hnodup : (result.map Prod.fst ++ members.map Prod.fst).Nodup) :
    normalizeEntries P result (members.map fun member => (.str member.1, member.2.toPy)) =
      .ok (result ++ members.map fun member => (member.1, g member.2)) := by
  induction members generalizing result with
  | nil => simp
  | cons member members ih =>
    rw [List.forall_mem_cons] at hkeys h
    have hfresh : ¬result.any (fun other => other.1 = P.nfc member.1) = true := by
      rw [hkeys.1, List.any_eq_true]
      rintro ⟨other, hother, heq⟩
      have hmem : member.1 ∈ result.map Prod.fst :=
        List.mem_map.mpr ⟨other, hother, by simpa using heq⟩
      exact (List.nodup_append.mp hnodup).2.2 _ hmem _ (by simp) rfl
    have hrest := ih hkeys.2 h.2 (result ++ [(P.nfc member.1, g member.2)])
      (by simpa [hkeys.1] using hnodup)
    rw [hkeys.1, List.append_assoc] at hrest
    rw [List.map_cons, normalizeEntries, if_neg hfresh, h.1, hkeys.1]
    exact hrest

/-- **Normalising a normal value replaces its strings only.** -/
theorem NfcLaws.normalize_toPy (hP : NfcLaws P) {v : Json} (hv : v.Normal P) :
    normalize P v.toPy = .ok (v.mapTexts (normalizeText P)) := by
  induction v using Json.ind with
  | arr items ih =>
    rw [Json.normal_arr] at hv
    rw [Json.toPy, Json.toPyItems_eq_map, normalize, Json.mapTexts_arr,
      normalizeItems_map fun v hmem => ih v hmem (hv v hmem)]
    rfl
  | obj members ih =>
    obtain ⟨hnodup, hmembers⟩ := Json.normal_obj.mp hv
    have hkeys (member) (hmem : member ∈ members) : P.nfc member.1 = member.1 := by
      obtain ⟨key, hkey⟩ := (hmembers member hmem).1
      rw [hkey, hP.idem]
    rw [Json.toPy, Json.toPyMembers_eq_map, normalize_dict, Json.mapTexts_obj,
      normalizeEntries_map hkeys (fun member hmem => ih member hmem (hmembers member hmem).2) []
        (by simpa using hnodup)]
    rfl
  | int n => exact normalize_int_eq_ok.mpr ⟨(Json.normal_leaf rfl).mp hv, rfl⟩
  | str t => exact normalize_str t
  | _ => rfl

mutual

/-- **The strings of a normalised value are the normalised strings.** -/
theorem texts_of_normalize : (x : PyValue) → ∀ j, normalize P x = .ok j →
    j.texts = x.texts.map (normalizeText P)
  | .none | .bool _ => fun j h => by
    rw [normalize] at h
    obtain rfl := Except.ok.inj h
    rfl
  | .str s => fun j h => by
    rw [normalize_str] at h
    obtain rfl := Except.ok.inj h
    rfl
  | .int n => fun j h => by
    obtain ⟨-, rfl⟩ := normalize_int_eq_ok.mp h
    rfl
  | .other => fun j h => by
    rw [normalize] at h
    cases h
  | .list items => fun j h => by
    rw [normalize] at h
    rcases hitems : normalizeItems P items with e | vs <;> rw [hitems] at h
    · cases h
    · obtain rfl := Except.ok.inj h
      rw [Json.texts_arr, PyValue.texts, texts_of_normalizeItems items vs hitems]
  | .dict entries => fun j h => by
    rw [normalize_dict] at h
    rcases hentries : normalizeEntries P [] entries with e | members <;> rw [hentries] at h
    · cases h
    · obtain rfl := Except.ok.inj h
      rw [Json.texts_obj, PyValue.texts, texts_of_normalizeEntries entries [] members hentries]
      rfl

theorem texts_of_normalizeItems : (items : List PyValue) →
    ∀ vs, normalizeItems P items = .ok vs →
      vs.flatMap Json.texts = (PyValue.textsItems items).map (normalizeText P)
  | [] => fun vs h => by
    rw [normalizeItems] at h
    obtain rfl := Except.ok.inj h
    rfl
  | item :: items => fun vs h => by
    rw [normalizeItems] at h
    rcases hitem : normalize P item with e | v <;> rw [hitem] at h
    · cases h
    · rcases hitems : normalizeItems P items with e | rest <;> rw [hitems] at h
      · cases h
      · obtain rfl := Except.ok.inj h
        rw [List.flatMap_cons, PyValue.textsItems, List.map_append,
          texts_of_normalize item v hitem, texts_of_normalizeItems items rest hitems]

theorem texts_of_normalizeEntries : (entries : List (PyKey × PyValue)) →
    ∀ result members, normalizeEntries P result entries = .ok members →
      members.flatMap (fun member => member.2.texts) =
        result.flatMap (fun member => member.2.texts) ++
          (PyValue.textsEntries entries).map (normalizeText P)
  | [] => fun result members h => by
    rw [normalizeEntries_nil] at h
    obtain rfl := Except.ok.inj h
    simp [PyValue.textsEntries]
  | (.other, _) :: _ => fun result members h => by
    rw [normalizeEntries] at h
    cases h
  | (.str key, item) :: entries => fun result members h => by
    rw [normalizeEntries] at h
    split at h
    · cases h
    · rcases hitem : normalize P item with e | v <;> rw [hitem] at h
      · cases h
      · rw [texts_of_normalizeEntries entries _ members h, PyValue.textsEntries, List.map_append,
          ← texts_of_normalize item v hitem]
        simp

end

/-- **Canonical bytes are a fixed point exactly when no string value holds `\r\r\n`**: read as JSON
and encoded again they are the same bytes, of the same digest. -/
theorem fixedPoint_iff (hP : NfcLaws P) {x : PyValue} {data : ByteArray}
    (hx : canonicalBytes P x = .ok data) :
    (∃ v, jsonLoadsBytes data = some v ∧ canonicalBytes P v = .ok data ∧
        digest P v = digest P x) ↔
      ∀ s ∈ x.texts, ¬['\r', '\r', '\n'] <:+: s.toList := by
  obtain ⟨j, hj⟩ := (canonicalBytes_isOk P).mp ⟨data, hx⟩
  have hnormal := (normal_of_normalize x j hj).sorted
  have hdata : data = (String.ofList (plain j.sorted)).toByteArray := by
    rw [canonicalBytes, hj] at hx
    rw [← dumps_eq_plain]
    exact (Except.ok.inj hx).symm
  have hread : jsonLoadsBytes data = some j.sorted.toPy := by
    rw [hdata, jsonLoadsBytes_toByteArray, jsonLoads_plain hnormal]
  -- what is read is normalised to `j` with its strings normalised once more
  have hagain : canonicalBytes P j.sorted.toPy = .ok data ↔
      ∀ t ∈ j.texts, normalizeText P t = t := by
    rw [canonicalBytes, hP.normalize_toPy hnormal, hdata]
    change Except.ok _ = Except.ok _ ↔ _
    rw [Except.ok.injEq, String.toByteArray_inj, ← dumps_eq_plain,
      String.ofList_inj, dumps_eq_iff, Json.sorted_mapTexts, Json.sorted_sorted,
      Json.mapTexts_eq_self_iff]
    exact forall_congr' fun t => imp_congr_left (Json.mem_texts_sorted j)
  rw [texts_of_normalize x j hj, List.forall_mem_map] at hagain
  simp only [hP.normalizeText_idem_iff] at hagain
  rw [← hagain, hread]
  constructor
  · rintro ⟨v, hv, hbytes, -⟩
    rwa [Option.some.inj hv]
  · intro hbytes
    exact ⟨_, rfl, hbytes, by rw [digest, digest, taggedBytes, taggedBytes, hbytes, hx]⟩

/-- A text with two returns before a line feed, alone and as the key of an integer. -/
theorem fixedPoint_iff_key :
    (∃ v, jsonLoadsBytes "\x7b\"\\r\\r\\n\":1\x7d".toByteArray = some v ∧
        canonicalBytes .ascii v = .ok "\x7b\"\\r\\r\\n\":1\x7d".toByteArray ∧
        digest .ascii v = digest .ascii (.dict [(.str "\r\r\n", .int 1)])) ↔
      ∀ s ∈ (PyValue.dict [(.str "\r\r\n", .int 1)]).texts, ¬['\r', '\r', '\n'] <:+: s.toList :=
  fixedPoint_iff nfcLaws_ascii (by decide)

/-- `"\r\r\n"` is stored as `"\r\n"`, which is read back and stored as `"\n"`. -/
theorem not_fixedPoint : canonicalBytes .ascii (.str "\r\r\n") = .ok "\"\\r\\n\"".toByteArray ∧
    jsonLoadsBytes "\"\\r\\n\"".toByteArray = some (.str "\r\n") ∧
    canonicalBytes .ascii (.str "\r\n") ≠ .ok "\"\\r\\n\"".toByteArray := by
  refine ⟨by decide, ?_, by decide⟩
  rw [jsonLoadsBytes_toByteArray]
  exact jsonLoads_plain (P := .ascii) (v := .str "\r\n")
    ((Json.normal_leaf rfl).mpr ⟨"\r\r\n", by decide⟩)

end

end CyranoAgent
