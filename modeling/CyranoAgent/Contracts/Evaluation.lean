import CyranoAgent.Contracts.Canonical

/-!
# Evaluating a digest

`digest` passes from bytes to text and back, which costs the kernel far more than the hash does.
`digest_ascii` computes the digest of a document of ASCII text from lists of characters: its
texts are spelled out once (`spell`), and are normalised and printed in one pass (`printed`).
-/

namespace CyranoAgent

open Lib

/-- The characters of a text, read off its bytes when these are ASCII. -/
def spell (s : String) : List Char :=
  let chars := s.toByteArray.data.toList.map fun b => Char.ofNat b.toNat
  if String.ofList chars = s then chars else s.toList

theorem spell_eq (s : String) : spell s = s.toList := by
  unfold spell
  dsimp only
  split_ifs with hascii
  · rw [← String.toList_ofList (l := List.map _ _), hascii]
  · rfl

/-- A JSON string with its quotes, the text with LF line ends. -/
def printedText (s : String) : List Char :=
  '"' :: ((crlfToLf (spell s)).flatMap escapeChar ++ ['"'])

/-- Printing commutes with the normalisation of ASCII text. -/
theorem printedText_eq (s : String) : printedText s = quote (normalizeText .ascii s) := by
  have htext : (normalizeText .ascii s).toList = crlfToLf (spell s) := by
    rw [normalizeText, spell_eq]
    exact String.toList_ofList
  rw [printedText, quote, htext]

mutual

/-- `normalize`, then `dumps`. -/
def printed : PyValue → Except Failure (List Char)
  | .none => .ok "null".toList
  | .bool true => .ok "true".toList
  | .bool false => .ok "false".toList
  | .int n =>
    if n.natAbs > 2 ^ 53 - 1 then
      .error (.cyrano "CANONICAL_RANGE" "integer exceeds interoperable range")
    else .ok n.repr.toList
  | .str s => .ok (printedText s)
  | .list items =>
    (printedItems items).map fun items => '[' :: (List.intercalate [','] items ++ [']'])
  | .dict entries => (printedEntries [] entries).map fun members =>
    '{' :: (List.intercalate [','] ((sortMembers members).map renderMember) ++ ['}'])
  | .other =>
    .error (.cyrano "CANONICAL_TYPE" "use decimal strings, not float or custom objects")

/-- The printed items of a list. -/
def printedItems : List PyValue → Except Failure (List (List Char))
  | [] => .ok []
  | item :: items =>
    match printed item with
    | .error e => .error e
    | .ok cs => (printedItems items).map (cs :: ·)

/-- The printed members of a mapping, `result` being what has been collected. -/
def printedEntries (result : List (String × List Char)) :
    List (PyKey × PyValue) → Except Failure (List (String × List Char))
  | [] => .ok result
  | (.other, _) :: _ => .error (.cyrano "CANONICAL_KEY" "JSON object keys must be strings")
  | (.str key, item) :: rest =>
    if result.any fun member => member.1 = key then
      .error (.cyrano "CANONICAL_COLLISION" "normalized key collision")
    else
      match printed item with
      | .error e => .error e
      | .ok cs => printedEntries (result ++ [(key, cs)]) rest

end

mutual

/-- **One pass prints what normalising and printing do.** -/
theorem printed_eq : ∀ value, printed value = (normalize .ascii value).map dumps
  | .none => by rw [printed, normalize, Except.map, dumps]
  | .bool true => by rw [printed, normalize, Except.map, dumps]
  | .bool false => by rw [printed, normalize, Except.map, dumps]
  | .int n => by
    rw [printed, normalize]
    split_ifs
    · rfl
    · rw [Except.map, dumps]
  | .str s => by rw [printed, normalize, Except.map, dumps, printedText_eq]
  | .list items => by
    rw [printed, normalize, printedItems_eq]
    rcases normalizeItems .ascii items with e | items'
    · rfl
    · simp only [Except.map, dumps]
  | .dict entries => by
    have hentries := printedEntries_eq entries []
    rw [dumpsMembers] at hentries
    rw [printed, normalize, hentries]
    rcases normalizeEntries .ascii [] entries with e | members
    · rfl
    · simp only [Except.map, dumps]
  | .other => by rw [printed, normalize, Except.map]

theorem printedItems_eq : ∀ items, printedItems items = (normalizeItems .ascii items).map dumpsItems
  | [] => by rw [printedItems, normalizeItems, Except.map, dumpsItems]
  | item :: items => by
    rw [printedItems, normalizeItems, printed_eq item, printedItems_eq items]
    rcases normalize .ascii item with e | v
    · rfl
    · rcases normalizeItems .ascii items with e | items'
      · rfl
      · simp only [Except.map, dumpsItems]

theorem printedEntries_eq : ∀ entries result, printedEntries (dumpsMembers result) entries =
    (normalizeEntries .ascii result entries).map dumpsMembers
  | [], result => by rw [printedEntries, normalizeEntries, Except.map]
  | (.other, _) :: _, result => by rw [printedEntries, normalizeEntries, Except.map]
  | (.str key, item) :: rest, result => by
    have hany : ((dumpsMembers result).any fun member => member.1 = key) =
        result.any fun member => member.1 = Primitives.ascii.nfc key := by
      rw [dumpsMembers_eq_map, List.any_map]
      rfl
    rw [printedEntries, normalizeEntries, hany, printed_eq item]
    split_ifs
    · rfl
    rcases normalize .ascii item with e | v
    · rfl
    · have hmembers : dumpsMembers result ++ [(key, dumps v)] =
          dumpsMembers (result ++ [(Primitives.ascii.nfc key, v)]) := by
        rw [dumpsMembers_eq_map, dumpsMembers_eq_map, List.map_append]
        rfl
      have hrest := printedEntries_eq rest (result ++ [(Primitives.ascii.nfc key, v)])
      rw [← hmembers] at hrest
      exact hrest

end

/-- **The digest of a document of ASCII text**, without its bytes being put into a string. -/
theorem digest_ascii (value : PyValue) :
    digest .ascii value = (printed value).map fun cs =>
      "sha256:" ++ String.ofList (Sha256.digits ("CYRANO-C14N-1\x00".toByteArray.data.toList ++
        cs.flatMap String.utf8EncodeChar)) := by
  rw [digest, taggedBytes, canonicalBytes, printed_eq]
  rcases normalize .ascii value with e | v
  · rfl
  · simp [Except.map, rawDigest, Sha256.hexdigest_eq, List.utf8Encode]

end CyranoAgent
