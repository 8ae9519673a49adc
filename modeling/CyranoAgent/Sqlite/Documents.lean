import CyranoAgent.Sqlite.Repository

/-!
# The documents a command hashes

A command's request, its event and its response are identified by the digests of small JSON
documents. Their normal forms are computed here once, down to the payload; so is the printed
text of a request, from which a request's payload can be read back
(`canonicalBytes_payload_eq`).
-/

namespace CyranoAgent

namespace Repository

variable {P : Primitives}

/-! ### Normal forms -/

/-- The keys of the documents. -/
def documentKeys : List String :=
  ["actor", "command", "payload", "expected", "stream", "key", "revision"]

theorem ascii_documentKeys : asciiKeys documentKeys = true := by decide

/-- A member of a document, under a new key. -/
theorem normalizeEntries_key {result : List (String × Json)} {key : String} {item : PyValue}
    {rest : PyMapping} (hkey : key ∈ documentKeys) (hfresh : key ∉ result.map Prod.fst) :
    normalizeEntries P result ((.str key, item) :: rest) =
      (normalize P item).bind fun v => normalizeEntries P (result ++ [(key, v)]) rest :=
  normalizeEntries_cons (ascii_of_mem ascii_documentKeys hkey) hfresh

theorem normalize_requestValue (c : Command) :
    normalize P (requestValue c) =
      (normalize P (.dict c.payload)).bind fun payload =>
        (normalize P (.int c.expectedRevision)).map fun expected =>
          .obj [("actor", .str (normalizeText P c.actor)),
            ("command", .str (normalizeText P c.command)), ("payload", payload),
            ("expected", expected)] := by
  rw [requestValue, normalize_dict]
  simp (disch := first | decide | simp) only [normalizeEntries_key, normalize_str, Except.bind]
  rcases normalize P (.dict c.payload) with e | payload
  · rfl
  · rcases normalize P (.int c.expectedRevision) with e | expected <;> rfl

theorem normalize_eventValue (c : Command) :
    normalize P (eventValue c) = (normalize P (.dict c.payload)).map fun payload =>
      .obj [("stream", .str (normalizeText P c.streamId)), ("payload", payload),
        ("key", .str (normalizeText P c.idempotencyKey))] := by
  rw [eventValue, normalize_dict]
  simp (disch := first | decide | simp) only [normalizeEntries_key, normalize_str, Except.bind]
  rcases normalize P (.dict c.payload) with e | payload <;> rfl

theorem normalize_responseValue (revision : ℕ) :
    normalize P (responseValue revision) =
      (normalize P (.int revision)).map fun n => .obj [("revision", n)] := by
  rw [responseValue, normalize_dict]
  simp (disch := first | decide | simp) only [normalizeEntries_key, Except.bind]
  rcases normalize P (.int revision) with e | n <;> rfl

/-- A request has a digest when its payload has a normal form and its revision is in range. -/
theorem digest_requestValue_isOk {c : Command} :
    (∃ d, digest P (requestValue c) = .ok d) ↔
      (∃ payload, normalize P (.dict c.payload) = .ok payload) ∧
        c.expectedRevision.natAbs ≤ 2 ^ 53 - 1 := by
  rw [digest_isOk, normalize_requestValue]
  rcases normalize P (.dict c.payload) with e | payload
  · simp [Except.bind]
  · rcases hn : normalize P (.int c.expectedRevision) with e | n
    · have hrange : ¬c.expectedRevision.natAbs ≤ 2 ^ 53 - 1 := fun hle => by
        simp [normalize_int_eq_ok.mpr ⟨hle, rfl⟩] at hn
      simpa [Except.bind, Except.map] using hrange
    · simpa [Except.bind, Except.map] using (normalize_int_eq_ok.mp hn).1

theorem digest_eventValue_isOk {c : Command} :
    (∃ d, digest P (eventValue c) = .ok d) ↔
      ∃ payload, normalize P (.dict c.payload) = .ok payload := by
  rw [digest_isOk, normalize_eventValue]
  rcases normalize P (.dict c.payload) with e | payload <;> simp [Except.map]

theorem canonicalBytes_responseValue_isOk {revision : ℕ} :
    (∃ body, canonicalBytes P (responseValue revision) = .ok body) ↔
      revision ≤ 2 ^ 53 - 1 := by
  rw [canonicalBytes_isOk, normalize_responseValue]
  rcases hn : normalize P (.int revision) with e | n
  · have hrange : ¬(revision : ℤ).natAbs ≤ 2 ^ 53 - 1 := fun hle => by
      simp [normalize_int_eq_ok.mpr ⟨hle, rfl⟩] at hn
    simpa [Except.map] using hrange
  · simpa [Except.map] using (normalize_int_eq_ok.mp hn).1

/-! ### The text of a request -/

/-- An integer's text has no comma. -/
theorem comma_notMem_repr (n : ℤ) : ',' ∉ n.repr.toList := by
  have hnat (m : ℕ) : ',' ∉ m.repr.toList := by
    intro hmem
    rw [Nat.repr, String.toList_ofList] at hmem
    have hdigit : Char.isDigit ',' := Nat.isDigit_of_mem_toDigits (by decide) (by decide) hmem
    exact absurd hdigit (by decide)
  cases n with
  | ofNat m => exact hnat m
  | negSucc m => simpa [Int.repr, String.toList_append] using hnat (m + 1)

/-- The text of a request document: its members in key order. -/
theorem dumps_requestValue (actor command payload : Json) (expected : ℤ) :
    dumps (.obj [("actor", actor), ("command", command), ("payload", payload),
        ("expected", .int expected)]) =
      "\x7b\"actor\":".toList ++ dumps actor ++ ",\"command\":".toList ++ dumps command ++
        ",\"expected\":".toList ++ expected.repr.toList ++ ",\"payload\":".toList ++
        dumps payload ++ ['}'] := by
  have hsort : sortMembers (dumpsMembers [("actor", actor), ("command", command),
      ("payload", payload), ("expected", .int expected)]) =
      [("actor", dumps actor), ("command", dumps command), ("expected", expected.repr.toList),
        ("payload", dumps payload)] := by
    simp [dumpsMembers, sortMembers, List.insertionSort, List.orderedInsert, dumps]
  rw [dumps, hsort]
  simp [renderMember, quote, escapeChar, List.intercalate]

/-- Two texts cut at their first `a` are equal part by part. -/
theorem append_cons_inj {α : Type} {a : α} {x x' y y' : List α} (hx : a ∉ x) (hx' : a ∉ x')
    (heq : x ++ a :: y = x' ++ a :: y') : x = x' ∧ y = y' := by
  induction x generalizing x' with
  | nil =>
    cases x' with
    | nil => simpa using heq
    | cons b x' => exact absurd (by simp [(List.cons.inj heq).1]) hx'
  | cons b x ih =>
    cases x' with
    | nil => exact absurd (by simp [(List.cons.inj heq).1]) hx
    | cons b' x' =>
      simp only [List.cons_append, List.cons.injEq, List.mem_cons, not_or] at heq hx hx'
      obtain ⟨rfl, rfl⟩ := ih hx.2 hx'.2 heq.2
      exact ⟨by rw [heq.1], rfl⟩

/-- Request documents with the same bytes, of one actor and one command, have payloads with
the same bytes. -/
theorem canonicalBytes_payload_eq {c c' : Command} {data : ByteArray}
    (hactor : c'.actor = c.actor) (hcommand : c'.command = c.command)
    (hc : canonicalBytes P (requestValue c) = .ok data)
    (hc' : canonicalBytes P (requestValue c') = .ok data) :
    canonicalBytes P (.dict c'.payload) = canonicalBytes P (.dict c.payload) := by
  obtain ⟨j', j, hj', hj, hdumps⟩ := dumps_eq_of_canonicalBytes hc' hc
  rw [normalize_requestValue] at hj hj'
  rcases hp : normalize P (.dict c.payload) with e | p
  · simp [hp, Except.bind] at hj
  rcases hp' : normalize P (.dict c'.payload) with e | p'
  · simp [hp', Except.bind] at hj'
  rcases hn : normalize P (.int c.expectedRevision) with e | n
  · simp [hp, hn, Except.bind, Except.map] at hj
  rcases hn' : normalize P (.int c'.expectedRevision) with e | n'
  · simp [hp', hn', Except.bind, Except.map] at hj'
  obtain ⟨-, rfl⟩ := normalize_int_eq_ok.mp hn
  obtain ⟨-, rfl⟩ := normalize_int_eq_ok.mp hn'
  simp only [hp, hn, hp', hn', Except.bind, Except.map, Except.ok.injEq] at hj hj'
  rw [← hj, ← hj', dumps_requestValue, dumps_requestValue, hactor, hcommand] at hdumps
  simp only [List.append_assoc, List.append_cancel_left_eq] at hdumps
  have htail := (append_cons_inj (comma_notMem_repr _) (comma_notMem_repr _) hdumps).2
  have hpayload : dumps p' = dumps p := by simpa using htail
  simp [canonicalBytes, hp, hp', Except.map, hpayload]

end Repository

end CyranoAgent
