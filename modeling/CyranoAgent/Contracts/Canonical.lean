import Mathlib
import CyranoAgent.Contracts.Types
import CyranoAgent.Lib.Sha256

/-!
# Canonical encoding of contract documents

`canonicalBytes` is CYRANO-C14N-1: a value is normalised (`normalize`: NFC text, LF line
ends, string keys without a collision, integers of at most 53 bits) and printed as JSON with
sorted keys and no blanks (`dumps`). `digest` hashes the canonical bytes under a version tag,
`rawDigest` hashes exact bytes.

Unicode NFC and the JSON decoder come from the standard library and are the fields of
`Primitives`. Of NFC the development uses one law, that ASCII text is already normal. SHA-256
is `Lib.Sha256`; a statement that needs two different documents to have different digests
says of which documents (`CollisionFree`).
-/

namespace CyranoAgent

/-- A key of a Python mapping: a string, or any other object. -/
inductive PyKey
  | str (s : String)
  | other
  deriving DecidableEq, Repr

/-- The Python values `_normalize` tells apart; `other` is every type it refuses. -/
inductive PyValue
  | none
  | bool (b : Bool)
  | int (n : ℤ)
  | str (s : String)
  | list (items : List PyValue)
  | dict (entries : List (PyKey × PyValue))
  | other
  deriving Repr

/-- A Python mapping, in insertion order. -/
abbrev PyMapping := List (PyKey × PyValue)

/-- `mapping.get(key)` for a string key. -/
def PyMapping.get? (mapping : PyMapping) (key : String) : Option PyValue :=
  (mapping.find? fun entry => entry.1 = .str key).map Prod.snd

/-- `value is True`. -/
def PyValue.isTrue : PyValue → Bool
  | .bool true => true
  | _ => false

/-- A normalised value, the `JSON` alias of the source. -/
inductive Json
  | null
  | bool (b : Bool)
  | int (n : ℤ)
  | str (s : String)
  | arr (items : List Json)
  | obj (members : List (String × Json))
  deriving Repr

/-- What the code takes from `unicodedata` and `json`. -/
structure Primitives where
  /-- `unicodedata.normalize("NFC", text)`. -/
  nfc : String → String
  /-- `json.loads(data)`, `none` when it raises. -/
  loads : ByteArray → Option PyValue
  /-- ASCII text is in normal form. -/
  nfc_ascii : ∀ s : String, (∀ c ∈ s.toList, c.val < 128) → nfc s = s

/-- The primitives on documents of ASCII text, where NFC changes nothing. The only document
they decode is the empty one. -/
def Primitives.ascii : Primitives :=
  ⟨id, fun data => if data = "\x7b\x7d".toByteArray then some (.dict []) else none, fun _ _ => rfl⟩

/-! ### Normalisation -/

/-- `value.replace("\r\n", "\n")`. -/
def crlfToLf : List Char → List Char
  | '\r' :: '\n' :: rest => '\n' :: crlfToLf rest
  | c :: rest => c :: crlfToLf rest
  | [] => []

section

variable (P : Primitives)

/-- Text with LF line ends, in NFC. -/
def normalizeText (s : String) : String := P.nfc (String.ofList (crlfToLf s.toList))

mutual

/-- `_normalize`. -/
def normalize : PyValue → Except Failure Json
  | .none => .ok .null
  | .bool b => .ok (.bool b)
  | .int n =>
    if n.natAbs > 2 ^ 53 - 1 then
      .error (.cyrano "CANONICAL_RANGE" "integer exceeds interoperable range")
    else .ok (.int n)
  | .str s => .ok (.str (normalizeText P s))
  | .list items => (normalizeItems items).map .arr
  | .dict entries => (normalizeEntries [] entries).map .obj
  | .other =>
    .error (.cyrano "CANONICAL_TYPE" "use decimal strings, not float or custom objects")

/-- `[_normalize(item) for item in value]`. -/
def normalizeItems : List PyValue → Except Failure (List Json)
  | [] => .ok []
  | item :: items =>
    match normalize item with
    | .error e => .error e
    | .ok v => (normalizeItems items).map (v :: ·)

/-- The loop over a mapping's entries, `result` being what it has collected. -/
def normalizeEntries (result : List (String × Json)) :
    List (PyKey × PyValue) → Except Failure (List (String × Json))
  | [] => .ok result
  | (.other, _) :: _ => .error (.cyrano "CANONICAL_KEY" "JSON object keys must be strings")
  | (.str key, item) :: rest =>
    if result.any fun member => member.1 = P.nfc key then
      .error (.cyrano "CANONICAL_COLLISION" "normalized key collision")
    else
      match normalize item with
      | .error e => .error e
      | .ok v => normalizeEntries (result ++ [(P.nfc key, v)]) rest

end

end

section

variable {P : Primitives}

theorem normalize_dict (entries : PyMapping) :
    normalize P (.dict entries) = (normalizeEntries P [] entries).map .obj := by
  rw [normalize]

/-- An integer has a normal form within 53 bits. -/
theorem normalize_int_eq_ok {n : ℤ} {v : Json} :
    normalize P (.int n) = .ok v ↔ n.natAbs ≤ 2 ^ 53 - 1 ∧ v = .int n := by
  rw [normalize]
  split <;> simp_all [eq_comm]

@[simp] theorem normalize_str (s : String) :
    normalize P (.str s) = .ok (.str (normalizeText P s)) := by
  rw [normalize]

@[simp] theorem normalizeEntries_nil (result : List (String × Json)) :
    normalizeEntries P result [] = .ok result := by
  rw [normalizeEntries]

/-- An entry under a new ASCII key adds one member. -/
theorem normalizeEntries_cons {result : List (String × Json)} {key : String} {item : PyValue}
    {rest : PyMapping} (hascii : ∀ c ∈ key.toList, c.val < 128)
    (hfresh : key ∉ result.map Prod.fst) :
    normalizeEntries P result ((.str key, item) :: rest) =
      (normalize P item).bind fun v => normalizeEntries P (result ++ [(key, v)]) rest := by
  have hany : (result.any fun member => member.1 = key) = false := by
    simpa using fun a b hmem heq => hfresh (List.mem_map.mpr ⟨(a, b), hmem, heq⟩)
  rw [normalizeEntries, P.nfc_ascii key hascii, hany]
  rcases normalize P item with e | v <;> rfl

/-- A list has a normal form exactly when its items have one. -/
theorem normalizeItems_isOk {items : List PyValue} :
    (∃ vs, normalizeItems P items = .ok vs) ↔ ∀ item ∈ items, ∃ v, normalize P item = .ok v := by
  induction items with
  | nil => simp [normalizeItems]
  | cons item items ih =>
    rw [List.forall_mem_cons, ← ih, normalizeItems]
    rcases normalize P item with e | v
    · simp
    · rcases normalizeItems P items with e | vs <;> simp [Except.map]

theorem normalize_list_isOk {items : List PyValue} :
    (∃ v, normalize P (.list items) = .ok v) ↔ ∀ item ∈ items, ∃ v, normalize P item = .ok v := by
  rw [← normalizeItems_isOk, normalize]
  rcases normalizeItems P items with e | vs <;> simp [Except.map]

/-- The keys are ASCII. -/
def asciiKeys (keys : List String) : Bool := keys.all fun key => key.toList.all fun c => c.val < 128

theorem ascii_of_mem {keys : List String} (hascii : asciiKeys keys = true) {key : String}
    (hkey : key ∈ keys) : ∀ c ∈ key.toList, c.val < 128 := by
  have hall := List.all_eq_true.mp hascii key hkey
  simpa only [List.all_eq_true, decide_eq_true_eq] using hall

/-- The entries of a mapping have a normal form exactly when the keys are strings whose normal forms
are new and different and the values have one. -/
theorem normalizeEntries_isOk_iff {entries : PyMapping} {result : List (String × Json)}
    (hresult : (result.map Prod.fst).Nodup) :
    (∃ members, normalizeEntries P result entries = .ok members) ↔
      (∃ texts : List String, entries.map Prod.fst = texts.map .str ∧
        (result.map Prod.fst ++ texts.map P.nfc).Nodup) ∧
      ∀ entry ∈ entries, ∃ v, normalize P entry.2 = .ok v := by
  induction entries generalizing result with
  | nil =>
    refine iff_of_true ⟨result, normalizeEntries_nil result⟩ ⟨⟨[], rfl, ?_⟩, by simp⟩
    rwa [List.map_nil, List.append_nil]
  | cons entry entries ih =>
    obtain ⟨key | _, item⟩ := entry
    · have hcons (Q : List String → Prop) :
          (∃ texts : List String, (PyKey.str key :: entries.map Prod.fst) = texts.map .str ∧
            Q texts) ↔ ∃ texts : List String, entries.map Prod.fst = texts.map .str ∧
              Q (key :: texts) := by
        constructor
        · rintro ⟨_ | ⟨text, texts⟩, heq, h⟩
          · cases heq
          · rw [List.map_cons, List.cons.injEq, PyKey.str.injEq] at heq
            obtain ⟨rfl, heq⟩ := heq
            exact ⟨texts, heq, h⟩
        · rintro ⟨texts, heq, h⟩
          exact ⟨key :: texts, by rw [heq, List.map_cons], h⟩
      rw [List.map_cons, hcons, List.forall_mem_cons, normalizeEntries]
      split
      next hcollision =>
        obtain ⟨member, hmember, heq⟩ := List.any_eq_true.mp hcollision
        refine iff_of_false (by simp) ?_
        rintro ⟨⟨texts, -, hnodup⟩, -⟩
        refine (List.nodup_append.mp hnodup).2.2 _ (List.mem_map_of_mem hmember) (P.nfc key)
          List.mem_cons_self (of_decide_eq_true heq)
      next hfresh =>
        rcases normalize P item with e | v
        · simp
        · have hnew : P.nfc key ∉ result.map Prod.fst := by
            rintro hmem
            obtain ⟨member, hmember, heq⟩ := List.mem_map.mp hmem
            exact hfresh (List.any_eq_true.mpr ⟨member, hmember, decide_eq_true heq⟩)
          have hrest : ((result ++ [(P.nfc key, v)]).map Prod.fst).Nodup := by
            rw [List.map_append, List.map_cons, List.map_nil]
            refine List.nodup_append.mpr ⟨hresult, List.nodup_singleton _, fun a ha b hb => ?_⟩
            obtain rfl : b = P.nfc key := List.mem_singleton.mp hb
            exact fun heq => hnew (heq ▸ ha)
          dsimp only
          rw [ih hrest]
          simp
    · refine iff_of_false (by simp [normalizeEntries]) ?_
      rintro ⟨⟨_ | ⟨text, texts⟩, heq, -⟩, -⟩ <;> cases heq

/-- A record has a normal form exactly when its fields have one. -/
theorem normalize_record_isOk {keys : List String} (hascii : asciiKeys keys = true)
    (fields : List (String × PyValue)) (hnodup : (fields.map Prod.fst).Nodup)
    (hkeys : fields.map Prod.fst ⊆ keys) :
    (∃ v, normalize P (.dict (fields.map fun field => (.str field.1, field.2))) = .ok v) ↔
      ∀ field ∈ fields, ∃ v, normalize P field.2 = .ok v := by
  have hnfc : (fields.map Prod.fst).map P.nfc = fields.map Prod.fst :=
    (List.map_congr_left fun key hkey =>
      P.nfc_ascii key (ascii_of_mem hascii (hkeys hkey))).trans (List.map_id _)
  have hentries : (∃ members, normalizeEntries P [] (fields.map fun field =>
      (.str field.1, field.2)) = .ok members) ↔
      ∀ field ∈ fields, ∃ v, normalize P field.2 = .ok v := by
    rw [normalizeEntries_isOk_iff (by simp), List.forall_mem_map]
    refine and_iff_right ⟨fields.map Prod.fst, ?_, ?_⟩
    · rw [List.map_map, List.map_map]
      rfl
    · rw [hnfc]
      exact hnodup
  rw [normalize_dict, ← hentries]
  rcases normalizeEntries P [] _ with e | members <;> simp [Except.map]

end

/-! ### Printing -/

/-- One character of a JSON string, `ensure_ascii=False`. -/
def escapeChar (c : Char) : List Char :=
  if c = '"' then ['\\', '"']
  else if c = '\\' then ['\\', '\\']
  else if c = '\n' then ['\\', 'n']
  else if c = '\r' then ['\\', 'r']
  else if c = '\t' then ['\\', 't']
  else if c.toNat = 8 then ['\\', 'b']
  else if c.toNat = 12 then ['\\', 'f']
  else if c.toNat < 32 then
    ['\\', 'u', '0', '0', Nat.digitChar (c.toNat / 16), Nat.digitChar (c.toNat % 16)]
  else [c]

/-- A JSON string with its quotes. -/
def quote (s : String) : List Char := '"' :: (s.toList.flatMap escapeChar ++ ['"'])

/-- `"key":value`. -/
def renderMember (member : String × List Char) : List Char :=
  quote member.1 ++ ':' :: member.2

/-- The members of an object in key order. -/
def sortMembers (members : List (String × List Char)) : List (String × List Char) :=
  members.insertionSort fun a b => a.1 ≤ b.1

mutual

/-- `json.dumps(value, ensure_ascii=False, sort_keys=True, separators=(",", ":"))`. -/
def dumps : Json → List Char
  | .null => "null".toList
  | .bool true => "true".toList
  | .bool false => "false".toList
  | .int n => n.repr.toList
  | .str s => quote s
  | .arr items => '[' :: (List.intercalate [','] (dumpsItems items) ++ [']'])
  | .obj members =>
    '{' :: (List.intercalate [','] ((sortMembers (dumpsMembers members)).map renderMember)
      ++ ['}'])

/-- The printed items of an array. -/
def dumpsItems : List Json → List (List Char)
  | [] => []
  | item :: items => dumps item :: dumpsItems items

/-- The members of an object with their values printed. -/
def dumpsMembers : List (String × Json) → List (String × List Char)
  | [] => []
  | (key, value) :: members => (key, dumps value) :: dumpsMembers members

end

theorem dumpsItems_eq_map (items : List Json) : dumpsItems items = items.map dumps := by
  induction items with
  | nil => rfl
  | cons item items ih => rw [dumpsItems, ih, List.map_cons]

theorem dumpsMembers_eq_map (members : List (String × Json)) :
    dumpsMembers members = members.map fun member => (member.1, dumps member.2) := by
  induction members with
  | nil => rfl
  | cons member members ih => rw [dumpsMembers, ih, List.map_cons]

/-- `raw_digest`. -/
def rawDigest (data : ByteArray) : String := "sha256:" ++ Lib.Sha256.hexdigest data

section

variable (P : Primitives)

/-- `canonical_bytes`. -/
def canonicalBytes (value : PyValue) : Except Failure ByteArray :=
  (normalize P value).map fun v => (String.ofList (dumps v)).toByteArray

/-- The bytes under a document's digest: its canonical bytes behind the version tag. -/
def taggedBytes (value : PyValue) : Except Failure ByteArray :=
  (canonicalBytes P value).map fun data => "CYRANO-C14N-1\x00".toByteArray ++ data

/-- `digest`: the version-qualified SHA-256 digest of the canonical bytes. -/
def digest (value : PyValue) : Except Failure String := (taggedBytes P value).map rawDigest

theorem canonicalBytes_isOk {value : PyValue} :
    (∃ data, canonicalBytes P value = .ok data) ↔ ∃ v, normalize P value = .ok v := by
  rcases h : normalize P value with e | v <;> simp [canonicalBytes, h, Except.map]

/-- A document has a digest exactly when it can be normalised. -/
theorem digest_isOk {value : PyValue} :
    (∃ d, digest P value = .ok d) ↔ ∃ v, normalize P value = .ok v := by
  rcases h : normalize P value with e | v <;>
    simp [digest, taggedBytes, canonicalBytes, h, Except.map]

/-- Among these documents, those of one digest have the same bytes. -/
def CollisionFree (values : Set PyValue) : Prop :=
  Set.InjOn rawDigest {data | ∃ value ∈ values, taggedBytes P value = .ok data}

end

/-! ### Digests determine canonical bytes -/

section

variable {P : Primitives}

/-- A single document collides with nothing. -/
theorem collisionFree_of_subsingleton {values : Set PyValue} (h : values.Subsingleton) :
    CollisionFree P values := by
  rintro _ ⟨v, hv, hdata⟩ _ ⟨w, hw, hdata'⟩ -
  rw [h hv hw, hdata'] at hdata
  exact (Except.ok.inj hdata).symm

/-- Documents of one digest have the same canonical bytes. -/
theorem canonicalBytes_of_digest {values : Set PyValue} (hP : CollisionFree P values)
    {v w : PyValue} (hmv : v ∈ values) (hmw : w ∈ values) {d : String}
    (hv : digest P v = .ok d) (hw : digest P w = .ok d) :
    ∃ data, canonicalBytes P v = .ok data ∧ canonicalBytes P w = .ok data := by
  rcases hcv : canonicalBytes P v with e | a
  · simp [digest, taggedBytes, hcv, Except.map] at hv
  rcases hcw : canonicalBytes P w with e | b
  · simp [digest, taggedBytes, hcw, Except.map] at hw
  simp only [digest, taggedBytes, hcv, hcw, Except.map, Except.ok.injEq] at hv hw
  have htag : "CYRANO-C14N-1\x00".toByteArray ++ a = "CYRANO-C14N-1\x00".toByteArray ++ b :=
    hP ⟨v, hmv, by simp [taggedBytes, hcv, Except.map]⟩
      ⟨w, hmw, by simp [taggedBytes, hcw, Except.map]⟩ (hv.trans hw.symm)
  exact ⟨a, rfl, by rw [(ByteArray.append_right_inj _).mp htag]⟩

/-- Canonical bytes determine the printed text. -/
theorem dumps_eq_of_canonicalBytes {v w : PyValue} {data : ByteArray}
    (hv : canonicalBytes P v = .ok data) (hw : canonicalBytes P w = .ok data) :
    ∃ j k, normalize P v = .ok j ∧ normalize P w = .ok k ∧ dumps j = dumps k := by
  rcases hnv : normalize P v with e | j <;> simp only [canonicalBytes, hnv, Except.map] at hv
  · simp at hv
  rcases hnw : normalize P w with e | k <;> simp only [canonicalBytes, hnw, Except.map] at hw
  · simp at hw
  refine ⟨j, k, rfl, rfl, ?_⟩
  have h : (String.ofList (dumps j)).toByteArray = (String.ofList (dumps k)).toByteArray := by
    simpa using hv.trans hw.symm
  exact String.ofList_injective (String.toByteArray_inj.mp h)

end

end CyranoAgent
