import CyranoAgent.Contracts.Sameness

/-!
# Reading JSON text

`jsonLoads` is `json.loads`: whitespace between the parts, escapes and surrogate pairs in strings,
the constants and the numbers of the language, and the last of two members under one key. A lone
surrogate is no character of a `String`, and a float is the `PyValue` that is none of the others.

**What the canonical printer writes is read back** (`jsonLoads_plain`): a string ends at its quote,
a number before a comma or a bracket, and a list at its bracket.
-/

namespace CyranoAgent

/-! ### Scanning -/

/-- Whitespace between the parts of a text. -/
def isJsonSpace (c : Char) : Bool := c = ' ' || c = '\t' || c = '\n' || c = '\r'

/-- The text behind whitespace. -/
def skipSpace (s : List Char) : List Char := s.dropWhile isJsonSpace

/-- The value of a hexadecimal digit. -/
def hexDigit (c : Char) : Option ℕ :=
  if c.isDigit then some (c.toNat - 48)
  else if 'a' ≤ c ∧ c ≤ 'f' then some (c.toNat - 87)
  else if 'A' ≤ c ∧ c ≤ 'F' then some (c.toNat - 55)
  else none

/-- Four hexadecimal digits. -/
def readHex4 : List Char → Option (ℕ × List Char)
  | a :: b :: c :: d :: rest => do
    let high := (← hexDigit a) * 16 + (← hexDigit b)
    return ((high * 16 + (← hexDigit c)) * 16 + (← hexDigit d), rest)
  | _ => none

/-- The character behind `\u`: one code unit, or a surrogate pair. -/
def readUnicode (s : List Char) : Option (Char × List Char) := do
  let (high, rest) ← readHex4 s
  if high.isValidChar then return (Char.ofNat high, rest)
  match rest with
  | '\\' :: 'u' :: rest =>
    let (low, rest) ← readHex4 rest
    if high < 0xdc00 ∧ 0xdc00 ≤ low ∧ low < 0xe000 then
      return (Char.ofNat (0x10000 + (high - 0xd800) * 1024 + (low - 0xdc00)), rest)
    none
  | _ => none

/-- One character of a string, or what is escaped. -/
def readChar : List Char → Option (Char × List Char)
  | '\\' :: '"' :: rest => some ('"', rest)
  | '\\' :: '\\' :: rest => some ('\\', rest)
  | '\\' :: '/' :: rest => some ('/', rest)
  | '\\' :: 'b' :: rest => some (Char.ofNat 8, rest)
  | '\\' :: 'f' :: rest => some (Char.ofNat 12, rest)
  | '\\' :: 'n' :: rest => some ('\n', rest)
  | '\\' :: 'r' :: rest => some ('\r', rest)
  | '\\' :: 't' :: rest => some ('\t', rest)
  | '\\' :: 'u' :: rest => readUnicode rest
  | '\\' :: _ => none
  | c :: rest => if c.toNat < 32 then none else some (c, rest)
  | [] => none

/-- The characters of a string up to its closing quote, at most `fuel` steps. -/
def readChars : ℕ → List Char → Option (List Char × List Char)
  | 0, _ => none
  | fuel + 1, s =>
    if s.head? = some '"' then some ([], s.tail)
    else do
      let (c, rest) ← readChar s
      let (chars, rest) ← readChars fuel rest
      return (c :: chars, rest)

/-- The string behind an opening quote. -/
def readString (s : List Char) : Option (String × List Char) :=
  (readChars s.length s).map fun (chars, rest) => (String.ofList chars, rest)

/-- The text behind a fraction. -/
def skipFraction : List Char → List Char
  | '.' :: c :: rest => if c.isDigit then rest.dropWhile Char.isDigit else '.' :: c :: rest
  | s => s

/-- The text behind an exponent. -/
def skipExponent (s : List Char) : List Char :=
  match s with
  | e :: rest =>
    if e = 'e' ∨ e = 'E' then
      let digits := match rest with
        | '+' :: digits => digits
        | '-' :: digits => digits
        | digits => digits
      if digits.head?.any Char.isDigit then digits.dropWhile Char.isDigit else s
    else s
  | [] => s

/-- The digits of a natural number, without leading zeros, and the text behind them. -/
def spanDigits : List Char → List Char × List Char
  | '0' :: rest => (['0'], rest)
  | s => (s.takeWhile Char.isDigit, s.dropWhile Char.isDigit)

/-- An unsigned number with its sign. -/
def readUnsigned (negative : Bool) (s : List Char) : Option (PyValue × List Char) :=
  let (digits, rest) := spanDigits s
  if digits = [] then none
  else if skipExponent (skipFraction rest) ≠ rest then
    some (.other, skipExponent (skipFraction rest))
  else if 4300 < digits.length then none
  else
    let n : ℤ := Nat.ofDigitChars 10 digits 0
    some (.int (if negative then -n else n), rest)

/-- A number. -/
def readNumber : List Char → Option (PyValue × List Char)
  | '-' :: rest => readUnsigned true rest
  | s => readUnsigned false s

/-- The constants. -/
def jsonConstants : List (List Char × PyValue) :=
  [("null".toList, .none), ("true".toList, .bool true), ("false".toList, .bool false),
    ("NaN".toList, .other), ("Infinity".toList, .other), ("-Infinity".toList, .other)]

/-- A constant. -/
def readConstant (s : List Char) : Option (PyValue × List Char) :=
  jsonConstants.findSome? fun entry =>
    if entry.1.isPrefixOf s then some (entry.2, s.drop entry.1.length) else none

/-! ### Parsing -/

/-- `dict(pairs)`: a later value under a key takes the place of the earlier. -/
def dictOf (pairs : List (String × PyValue)) : PyMapping :=
  pairs.foldl (fun mapping entry =>
    if mapping.any fun old => old.1 = .str entry.1 then
      mapping.map fun old => if old.1 = .str entry.1 then (old.1, entry.2) else old
    else mapping ++ [(.str entry.1, entry.2)]) []

/-- What `read` reads, separated by commas up to the closing bracket. -/
def readSeparated {α : Type} (close : Char) (read : List Char → Option (α × List Char)) :
    ℕ → List Char → Option (List α × List Char)
  | 0, _ => none
  | fuel + 1, s => do
    let (item, rest) ← read s
    match skipSpace rest with
    | c :: rest =>
      if c = ',' then
        let (items, rest) ← readSeparated close read fuel (skipSpace rest)
        return (item :: items, rest)
      else if c = close then return ([item], rest)
      else none
    | [] => none

/-- What `read` reads, separated by commas up to the closing bracket, if anything. -/
def readBracketed {α : Type} (close : Char) (read : List Char → Option (α × List Char))
    (s : List Char) : Option (List α × List Char) :=
  match skipSpace s with
  | c :: rest =>
    if c = close then some ([], rest) else readSeparated close read (c :: rest).length (c :: rest)
  | [] => none

section

variable (read : List Char → Option (PyValue × List Char))

/-- A key, a colon and a value. -/
def readMember : List Char → Option ((String × PyValue) × List Char)
  | '"' :: rest => do
    let (key, rest) ← readString rest
    match skipSpace rest with
    | ':' :: rest =>
      let (value, rest) ← read (skipSpace rest)
      return ((key, value), rest)
    | _ => none
  | _ => none

/-- A value, `read` reading the values within. -/
def readWith : List Char → Option (PyValue × List Char)
  | '"' :: rest => (readString rest).map fun (s, rest) => (.str s, rest)
  | '[' :: rest => (readBracketed ']' read rest).map fun (items, rest) => (.list items, rest)
  | '{' :: rest =>
    (readBracketed '}' (readMember read) rest).map fun (pairs, rest) => (.dict (dictOf pairs), rest)
  | s => (readConstant s).or (readNumber s)

end

/-- A value nested at most `fuel` deep. -/
def readValue : ℕ → List Char → Option (PyValue × List Char)
  | 0 => fun _ => none
  | fuel + 1 => readWith (readValue fuel)

/-- `json.loads` of a text. -/
def jsonLoads (text : String) : Option PyValue :=
  match readValue text.toList.length (skipSpace text.toList) with
  | some (v, rest) => if skipSpace rest = [] then some v else none
  | none => none

/-- `json.loads` of bytes in UTF-8. -/
def jsonLoadsBytes (data : ByteArray) : Option PyValue := (String.fromUTF8? data).bind jsonLoads

/-! ### Strings -/

theorem readChar_of_ne {c : Char} (hc : c ≠ '\\') (hlt : ¬c.toNat < 32) (s : List Char) :
    readChar (c :: s) = some (c, s) := by
  rw [readChar, if_neg hlt]
  all_goals first | exact hc | exact fun _ heq => absurd heq hc

/-- A character is read back as it is written. -/
theorem readChar_escapeChar (c : Char) (s : List Char) :
    readChar (escapeChar c ++ s) = some (c, s) := by
  by_cases hc : Special c
  · obtain ⟨n, hn, rfl⟩ := hc
    interval_cases n <;> rfl
  · rw [escapeChar_of_not_special hc]
    have hne : c ≠ '\\' := fun heq => hc (heq ▸ special_backslash)
    refine readChar_of_ne hne (fun hlt => hc ?_) s
    exact ⟨c.toNat, by omega, by rw [specialChar, if_pos hlt, Char.ofNat_toNat]⟩

theorem readChars_escaped {chars s : List Char} {fuel : ℕ} (hfuel : chars.length < fuel) :
    readChars fuel (chars.flatMap escapeChar ++ '"' :: s) = some (chars, s) := by
  obtain ⟨fuel, rfl⟩ : ∃ n, fuel = n + 1 := ⟨fuel - 1, by omega⟩
  induction chars generalizing fuel with
  | nil => simp [readChars]
  | cons c chars ih =>
    have hhead : (escapeChar c ++ (chars.flatMap escapeChar ++ '"' :: s)).head? ≠ some '"' :=
      fun hhead => by
        obtain ⟨tail, htail⟩ := List.head?_eq_some_iff.mp hhead
        exact escapeChar_append_ne c _ tail htail
    obtain ⟨fuel, rfl⟩ : ∃ n, fuel = n + 1 := ⟨fuel - 1, by simp at hfuel; omega⟩
    rw [List.flatMap_cons, List.append_assoc, readChars, if_neg hhead, readChar_escapeChar]
    simp [ih fuel (by simpa using hfuel)]

theorem length_le_flatMap_escapeChar (chars : List Char) :
    chars.length ≤ (chars.flatMap escapeChar).length := by
  induction chars with
  | nil => simp
  | cons c chars ih =>
    have hne : escapeChar c ≠ [] := fun hnil => by
      have hread := readChar_escapeChar c []
      rw [hnil] at hread
      cases hread
    have hpos := List.length_pos_iff.mpr hne
    rw [List.flatMap_cons, List.length_append, List.length_cons]
    omega

/-- **A string is read back.** -/
theorem readString_quote (k : String) (s : List Char) :
    readString (k.toList.flatMap escapeChar ++ '"' :: s) = some (k, s) := by
  have hlength := length_le_flatMap_escapeChar k.toList
  rw [readString, readChars_escaped]
  · simp
  · rw [List.length_append, List.length_cons]
    omega

/-! ### Numbers -/

/-- A number with more than one digit does not start with a zero. -/
theorem toDigits_eq_cons_zero {n : ℕ} {rest : List Char} (h : Nat.toDigits 10 n = '0' :: rest) :
    rest = [] := by
  induction n using Nat.strong_induction_on generalizing rest with
  | _ n ih =>
    rw [Nat.toDigits_eq_if (by decide)] at h
    split at h
    · exact (List.cons.inj h).2.symm
    · next hle =>
      -- the digits before the last are those of a smaller number
      rcases htail : Nat.toDigits 10 (n / 10) with _ | ⟨c, tail⟩
      · exact absurd htail Nat.toDigits_ne_nil
      · rw [htail, List.cons_append] at h
        obtain ⟨rfl, -⟩ := List.cons.inj h
        have hnil : tail = [] := ih (n / 10) (by omega) htail
        rw [hnil] at htail
        have hzero : n / 10 = 0 := by
          rw [← Nat.ofDigitChars_ten_toDigits (n := n / 10), htail]
          rfl
        omega

/-- Nothing that starts like this continues a value. -/
def Closes (s : List Char) : Prop := ∀ c ∈ s.head?, c = ',' ∨ c = ']' ∨ c = '}'

theorem Closes.isDigit {s : List Char} (hs : Closes s) : ∀ c ∈ s.head?, c.isDigit = false := by
  intro c hc
  rcases hs c hc with rfl | rfl | rfl <;> rfl

theorem Closes.skip {s : List Char} (hs : Closes s) : skipExponent (skipFraction s) = s := by
  rcases s with _ | ⟨c, s⟩
  · rfl
  · rcases hs c rfl with rfl | rfl | rfl <;> rfl

theorem spanDigits_toDigits (n : ℕ) {s : List Char} (hs : ∀ c ∈ s.head?, c.isDigit = false) :
    spanDigits (Nat.toDigits 10 n ++ s) = (Nat.toDigits 10 n, s) := by
  have hall : ∀ c ∈ Nat.toDigits 10 n, c.isDigit = true := fun c hc =>
    Nat.isDigit_of_mem_toDigits (by decide) (by decide) hc
  have htake : s.takeWhile Char.isDigit = [] ∧ s.dropWhile Char.isDigit = s := by
    rcases s with _ | ⟨c, s⟩
    · exact ⟨rfl, rfl⟩
    · simp [hs c rfl]
  obtain ⟨c, rest, hdigits, hdigit⟩ := exists_digits n
  by_cases hzero : c = '0'
  · subst hzero
    rw [hdigits, toDigits_eq_cons_zero hdigits]
    rfl
  · have hspan : spanDigits (c :: (rest ++ s)) = ((c :: (rest ++ s)).takeWhile Char.isDigit,
        (c :: (rest ++ s)).dropWhile Char.isDigit) := by
      rw [spanDigits]
      exact fun _ heq => hzero (List.cons.inj heq).1
    rw [hdigits, List.cons_append, hspan, ← List.cons_append, ← hdigits,
      List.takeWhile_append_of_pos hall, List.dropWhile_append_of_pos hall, htake.1, htake.2,
      List.append_nil]

theorem readUnsigned_toDigits (negative : Bool) {n : ℕ} (hn : n ≤ 2 ^ 53 - 1) {s : List Char}
    (hs : Closes s) :
    readUnsigned negative (Nat.toDigits 10 n ++ s) =
      some (.int (if negative then -(n : ℤ) else n), s) := by
  have hlength : (Nat.toDigits 10 n).length ≤ 16 :=
    (Nat.length_toDigits_le_iff (by decide) (by decide)).mpr (by omega)
  rw [readUnsigned, spanDigits_toDigits n hs.isDigit]
  simp only [if_neg Nat.toDigits_ne_nil, hs.skip, ne_eq, not_true_eq_false, if_false,
    if_neg (show ¬4300 < (Nat.toDigits 10 n).length by omega), Nat.ofDigitChars_ten_toDigits]

/-- **An integer is read back.** -/
theorem readNumber_repr {n : ℤ} (hn : n.natAbs ≤ 2 ^ 53 - 1) {s : List Char} (hs : Closes s) :
    readNumber (n.repr.toList ++ s) = some (.int n, s) := by
  rw [Int.repr_eq_if]
  split
  · next hle =>
    have hread := readUnsigned_toDigits false (n := n.toNat) (by omega) hs
    obtain ⟨c, rest, hdigits, hdigit⟩ := exists_digits n.toNat
    rw [Nat.toList_repr]
    rw [hdigits] at hread ⊢
    rw [List.cons_append] at hread ⊢
    rw [readNumber, hread]
    · simp [hle]
    · intro rest' heq
      rw [(List.cons.inj heq).1] at hdigit
      cases hdigit
  · next hlt =>
    have hread := readUnsigned_toDigits true (n := (-n).toNat) (by omega) hs
    have htext : ("-" ++ (-n).toNat.repr).toList ++ s =
        '-' :: (Nat.toDigits 10 (-n).toNat ++ s) := by
      rw [String.toList_append, Nat.toList_repr]
      rfl
    rw [htext, readNumber, hread]
    simp
    omega

/-! ### Lists -/

theorem skipSpace_cons {c : Char} (hc : isJsonSpace c = false) (s : List Char) :
    skipSpace (c :: s) = c :: s := by
  simp [skipSpace, hc]

theorem length_le_separated (close : Char) (texts : List (List Char)) (s : List Char) :
    texts.length ≤ (separated close texts s).length := by
  induction texts with
  | nil => simp
  | cons x rest ih =>
    rw [separated_cons]
    cases rest with
    | nil =>
      simp
      omega
    | cons y rest =>
      simp only [reduceCtorEq, if_false, List.length_append, List.length_cons] at ih ⊢
      omega

theorem length_lt_separated {α : Type} (close : Char) (text : α → List Char) {xs : List α} {x : α}
    (hx : x ∈ xs) (s : List Char) : (text x).length < (separated close (xs.map text) s).length := by
  induction xs with
  | nil => cases hx
  | cons y xs ih =>
    rw [List.map_cons, separated_cons, List.length_append]
    rcases List.mem_cons.mp hx with rfl | hx
    · split <;> simp
    · have hlength := ih hx
      rw [if_neg (List.ne_nil_of_mem (List.mem_map_of_mem hx)), List.length_cons]
      omega

section

variable {α β : Type} {close : Char} {text : α → List Char} {val : α → β}
  {read : List Char → Option (β × List Char)}

/-- A closing bracket, with nothing to skip before it or before a comma. -/
theorem skipSpace_close (hclose : close = ']' ∨ close = '}') (s : List Char) :
    skipSpace (close :: s) = close :: s ∧ Closes (close :: s) ∧ close ≠ ',' := by
  rcases hclose with rfl | rfl
  · exact ⟨skipSpace_cons rfl s, fun c hc => .inr (.inl (Option.mem_some.mp hc).symm), by decide⟩
  · exact ⟨skipSpace_cons rfl s, fun c hc => .inr (.inr (Option.mem_some.mp hc).symm), by decide⟩

/-- **A separated list is read back**, if its items are. -/
theorem readSeparated_separated (hclose : close = ']' ∨ close = '}') {xs : List α} (hne : xs ≠ [])
    (hread : ∀ x ∈ xs, ∀ s, Closes s → read (text x ++ s) = some (val x, s))
    (hstart : ∀ x, ∃ c rest, text x = c :: rest ∧ isJsonSpace c = false) {fuel : ℕ}
    (hfuel : xs.length ≤ fuel) (s : List Char) :
    readSeparated close read fuel (separated close (xs.map text) s) = some (xs.map val, s) := by
  obtain ⟨hskip, hcloses, hcomma⟩ := skipSpace_close hclose s
  induction xs generalizing fuel with
  | nil => exact absurd rfl hne
  | cons x xs ih =>
    rw [List.forall_mem_cons] at hread
    obtain ⟨fuel, rfl⟩ : ∃ n, fuel = n + 1 := ⟨fuel - 1, by simp at hfuel; omega⟩
    rw [List.map_cons, separated_cons, readSeparated]
    cases xs with
    | nil =>
      rw [List.map_nil, if_pos rfl, hread.1 _ hcloses]
      simp [hskip, hcomma]
    | cons y ys =>
      obtain ⟨c, rest, htext, hspace⟩ := hstart y
      have hnext : skipSpace (separated close ((y :: ys).map text) s) =
          separated close ((y :: ys).map text) s := by
        rw [List.map_cons, separated_cons, htext]
        exact skipSpace_cons hspace _
      have hrest : readSeparated close read fuel (separated close ((y :: ys).map text) s) =
          some ((y :: ys).map val, s) := ih (by simp) hread.2 (by simpa using hfuel)
      rw [if_neg (by simp), hread.1 _ fun c hc => .inl (Option.mem_some.mp hc).symm]
      generalize separated close ((y :: ys).map text) s = tail at hnext hrest ⊢
      simp [skipSpace_cons, isJsonSpace, hnext, hrest]

theorem readBracketed_separated (text : α → List Char) (val : α → β)
    (read : List Char → Option (β × List Char)) (hclose : close = ']' ∨ close = '}') {xs : List α}
    (hread : ∀ x ∈ xs, ∀ s, Closes s → read (text x ++ s) = some (val x, s))
    (hstart : ∀ x, ∃ c rest, text x = c :: rest ∧ isJsonSpace c = false ∧ c ≠ close)
    (s : List Char) :
    readBracketed close read (separated close (xs.map text) s) = some (xs.map val, s) := by
  cases xs with
  | nil =>
    rw [List.map_nil, separated, readBracketed, (skipSpace_close hclose s).1]
    simp
  | cons x xs =>
    have hseparated := readSeparated_separated hclose (List.cons_ne_nil x xs) hread
      (fun x => (hstart x).imp fun c h => h.imp fun rest h => ⟨h.1, h.2.1⟩)
      (length_le_separated close ((x :: xs).map text) s |>.trans' (by simp)) s
    obtain ⟨c, rest, htext, hspace, hne⟩ := hstart x
    have htexts : separated close ((x :: xs).map text) s = c :: (rest ++
        if xs.map text = [] then close :: s else ',' :: separated close (xs.map text) s) := by
      rw [List.map_cons, separated_cons, htext, List.cons_append]
    rw [htexts] at hseparated ⊢
    simp only [readBracketed, skipSpace_cons hspace, if_neg hne]
    exact hseparated

end

/-! ### Values -/

mutual

/-- The Python value of a JSON value. -/
def Json.toPy : Json → PyValue
  | .null => .none
  | .bool b => .bool b
  | .int n => .int n
  | .str s => .str s
  | .arr items => .list (Json.toPyItems items)
  | .obj members => .dict (Json.toPyMembers members)

/-- The Python values of the items of an array. -/
def Json.toPyItems : List Json → List PyValue
  | [] => []
  | v :: items => Json.toPy v :: Json.toPyItems items

/-- The entries of an object. -/
def Json.toPyMembers : List (String × Json) → PyMapping
  | [] => []
  | (key, v) :: members => (.str key, Json.toPy v) :: Json.toPyMembers members

end

theorem Json.toPyItems_eq_map (items : List Json) : toPyItems items = items.map toPy := by
  induction items with
  | nil => rfl
  | cons v items ih => rw [toPyItems, ih, List.map_cons]

theorem Json.toPyMembers_eq_map (members : List (String × Json)) :
    toPyMembers members = members.map fun member => (.str member.1, member.2.toPy) := by
  induction members with
  | nil => rfl
  | cons member members ih => rw [toPyMembers, ih, List.map_cons]

/-- Pairs under different keys are the entries of their dictionary. -/
theorem dictOf_eq {pairs : List (String × PyValue)} (hnodup : (pairs.map Prod.fst).Nodup) :
    dictOf pairs = pairs.map fun pair => (.str pair.1, pair.2) := by
  induction pairs using List.reverseRecOn with
  | nil => rfl
  | append_singleton pairs pair ih =>
    rw [List.map_append, List.nodup_append] at hnodup
    have hfresh : pair.1 ∉ pairs.map Prod.fst := fun hmem =>
      hnodup.2.2 _ hmem pair.1 (by simp) rfl
    rw [dictOf, List.foldl_append, List.map_append, ← ih hnodup.1]
    change (if (dictOf pairs).any _ = true then _ else dictOf pairs ++ _) = _
    rw [if_neg]
    · rfl
    · rw [ih hnodup.1]
      simpa using fun b hmem => hfresh (List.mem_map.mpr ⟨(pair.1, b), hmem, rfl⟩)

/-- A value starts with no space and with no closing bracket. -/
theorem exists_plain_start (v : Json) :
    ∃ c rest, plain v = c :: rest ∧ isJsonSpace c = false ∧ c ≠ ']' ∧ c ≠ '}' := by
  obtain ⟨c, rest, hplain, hlead⟩ := exists_plain v
  refine ⟨c, rest, hplain, ?_⟩
  have hdigit (h : c.isDigit = true) : isJsonSpace c = false ∧ c ≠ ']' ∧ c ≠ '}' := by
    refine ⟨?_, fun heq => ?_, fun heq => ?_⟩
    · by_contra hspace
      simp only [isJsonSpace, Bool.or_eq_true, decide_eq_true_eq, Bool.not_eq_false] at hspace
      rcases hspace with ((rfl | rfl) | rfl) | rfl <;> cases h
    · rw [heq] at h
      cases h
    · rw [heq] at h
      cases h
  cases v with
  | bool b => cases b <;> rw [show c = _ from hlead] <;> decide
  | int n =>
    rcases hlead with rfl | h
    · decide
    · exact hdigit h
  | _ =>
    rw [show c = _ from hlead]
    decide

/-- No constant is a number. -/
theorem readConstant_repr (n : ℤ) (s : List Char) : readConstant (n.repr.toList ++ s) = none := by
  have hconstant {c : Char} {rest : List Char} (h : c.isDigit = true) :
      readConstant (c :: rest) = none ∧ readConstant ('-' :: c :: rest) = none := by
    have hne (d : Char) (hd : d.isDigit = false) : d ≠ c := fun heq => by
      rw [heq, h] at hd
      cases hd
    simp [readConstant, jsonConstants, hne]
  rw [Int.repr_eq_if]
  split
  · obtain ⟨c, rest, hdigits, hdigit⟩ := exists_digits n.toNat
    rw [Nat.toList_repr, hdigits]
    exact (hconstant hdigit).1
  · obtain ⟨c, rest, hdigits, hdigit⟩ := exists_digits (-n).toNat
    rw [String.toList_append, Nat.toList_repr, hdigits]
    exact (hconstant hdigit).2

theorem readMember_renderMember {read : List Char → Option (PyValue × List Char)} {key : String}
    {v : Json} {value : PyValue} {s : List Char} (h : read (plain v ++ s) = some (value, s)) :
    readMember read (renderMember (key, plain v) ++ s) = some ((key, value), s) := by
  have htext : renderMember (key, plain v) ++ s =
      '"' :: (key.toList.flatMap escapeChar ++ '"' :: ':' :: (plain v ++ s)) := by
    simp [renderMember, quote]
  obtain ⟨c, rest, hplain, hspace, -⟩ := exists_plain_start v
  have hskip : skipSpace (plain v ++ s) = plain v ++ s := by
    rw [hplain, List.cons_append, skipSpace_cons hspace]
  rw [htext, readMember, readString_quote]
  simp [skipSpace_cons, isJsonSpace, hskip, h]

mutual

/-- **A normal value is read back** from its text, before anything that does not continue it. -/
theorem readValue_plain {P : Primitives} : (v : Json) → v.Normal P → ∀ fuel s,
    (plain v).length ≤ fuel → Closes s → readValue fuel (plain v ++ s) = some (v.toPy, s)
  | .null => fun _ fuel s hfuel _ => by
    obtain ⟨fuel, rfl⟩ : ∃ n, fuel = n + 1 := ⟨fuel - 1, by simp [plain] at hfuel; omega⟩
    rfl
  | .bool b => fun _ fuel s hfuel _ => by
    obtain ⟨fuel, rfl⟩ : ∃ n, fuel = n + 1 :=
      ⟨fuel - 1, by cases b <;> simp [plain] at hfuel <;> omega⟩
    cases b <;> rfl
  | .int n => fun hv fuel s hfuel hs => by
    obtain ⟨c, rest, hplain, hlead⟩ := exists_plain (.int n)
    obtain ⟨fuel, rfl⟩ : ∃ n, fuel = n + 1 :=
      ⟨fuel - 1, by rw [hplain, List.length_cons] at hfuel; omega⟩
    have hnumber := readNumber_repr ((Json.normal_leaf rfl).mp hv) hs
    have hconstant := readConstant_repr n s
    rw [show n.repr.toList = c :: rest from hplain] at hnumber hconstant
    rw [hplain]
    have hread : readWith (readValue fuel) (c :: (rest ++ s)) =
        (readConstant (c :: (rest ++ s))).or (readNumber (c :: (rest ++ s))) := by
      rw [readWith]
      all_goals
        intro _ heq
        rw [(List.cons.inj heq).1] at hlead
        rcases hlead with h | h <;> cases h
    change readWith (readValue fuel) (c :: (rest ++ s)) = _
    rw [hread, show readConstant (c :: (rest ++ s)) = none from hconstant, Option.none_or]
    exact hnumber
  | .str a => fun _ fuel s hfuel _ => by
    obtain ⟨fuel, rfl⟩ : ∃ n, fuel = n + 1 :=
      ⟨fuel - 1, by rw [plain, quote, List.length_cons] at hfuel; omega⟩
    have htext : plain (.str a) ++ s = '"' :: (a.toList.flatMap escapeChar ++ '"' :: s) := by
      simp [plain, quote]
    rw [htext, readValue, readWith, readString_quote]
    rfl
  | .arr items => fun hv fuel s hfuel hs => by
    have htext (s : List Char) :
        plain (.arr items) ++ s = '[' :: separated ']' (items.map plain) s := by
      simp [plain, plainItems_eq_map, separated_eq]
    rw [← List.append_nil (plain _), htext, List.length_cons] at hfuel
    obtain ⟨fuel, rfl⟩ : ∃ n, fuel = n + 1 := ⟨fuel - 1, by omega⟩
    have hitems := readValue_items items (Json.normal_arr.mp hv)
    have hread := readBracketed_separated plain Json.toPy (readValue fuel) (.inl rfl)
      (fun v hv s hs => hitems v hv fuel s (by
        have hlength := length_lt_separated ']' plain hv []
        omega) hs)
      (fun v => (exists_plain_start v).imp fun c h => h.imp fun rest h => ⟨h.1, h.2.1, h.2.2.1⟩) s
    rw [htext, readValue, readWith, hread, Json.toPy, Json.toPyItems_eq_map]
    rfl
  | .obj members => fun hv fuel s hfuel hs => by
    let text (member : String × Json) := renderMember (member.1, plain member.2)
    have htext (s : List Char) :
        plain (.obj members) ++ s = '{' :: separated '}' (members.map text) s := by
      simp [plain, plainMembers_eq_map, separated_eq, Function.comp_def, text]
    rw [← List.append_nil (plain _), htext, List.length_cons] at hfuel
    obtain ⟨fuel, rfl⟩ : ∃ n, fuel = n + 1 := ⟨fuel - 1, by omega⟩
    obtain ⟨hnodup, hmembers⟩ := Json.normal_obj.mp hv
    have hvalues := readValue_members members fun member hmember => (hmembers member hmember).2
    have hread := readBracketed_separated text (fun member => (member.1, member.2.toPy))
      (readMember (readValue fuel)) (.inr rfl) (fun member hmember s hs => by
        refine readMember_renderMember (hvalues member hmember fuel s ?_ hs)
        have hlength := length_lt_separated '}' text hmember []
        simp only [text, renderMember, List.length_append, List.length_cons] at hlength hfuel
        omega)
      (fun member => ⟨'"', _, rfl, rfl, by decide⟩) s
    have hpairs : dictOf (members.map fun member => (member.1, member.2.toPy)) =
        members.map fun member => (.str member.1, member.2.toPy) := by
      rw [dictOf_eq (by simpa [Function.comp_def] using hnodup), List.map_map]
      rfl
    rw [htext, readValue, readWith, hread, Json.toPy, Json.toPyMembers_eq_map, ← hpairs]
    rfl

theorem readValue_items {P : Primitives} : (items : List Json) → (∀ v ∈ items, v.Normal P) →
    ∀ v ∈ items, ∀ fuel s, (plain v).length ≤ fuel → Closes s →
      readValue fuel (plain v ++ s) = some (v.toPy, s)
  | [], _ => by simp
  | v :: items, h => by
    rw [List.forall_mem_cons] at h
    exact List.forall_mem_cons.mpr ⟨readValue_plain v h.1, readValue_items items h.2⟩

theorem readValue_members {P : Primitives} : (members : List (String × Json)) →
    (∀ member ∈ members, member.2.Normal P) → ∀ member ∈ members, ∀ fuel s,
      (plain member.2).length ≤ fuel → Closes s →
        readValue fuel (plain member.2 ++ s) = some (member.2.toPy, s)
  | [], _ => by simp
  | (_, v) :: members, h => by
    rw [List.forall_mem_cons] at h
    exact List.forall_mem_cons.mpr ⟨readValue_plain v h.1, readValue_members members h.2⟩

end

/-- **The text of a normal value is read back as the value.** -/
theorem jsonLoads_plain {P : Primitives} {v : Json} (hv : v.Normal P) :
    jsonLoads (String.ofList (plain v)) = some v.toPy := by
  obtain ⟨c, rest, hplain, hspace, -⟩ := exists_plain_start v
  have hskip : skipSpace (plain v) = plain v := by rw [hplain, skipSpace_cons hspace]
  have hread := readValue_plain v hv (plain v).length [] le_rfl (by simp [Closes])
  rw [List.append_nil] at hread
  rw [jsonLoads, String.toList_ofList, hskip, hread]
  rfl

theorem jsonLoadsBytes_toByteArray (text : String) :
    jsonLoadsBytes text.toByteArray = jsonLoads text := by
  rw [jsonLoadsBytes, String.fromUTF8?, dif_pos text.isValidUTF8]
  rfl

end CyranoAgent
