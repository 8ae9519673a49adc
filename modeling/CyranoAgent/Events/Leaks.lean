import CyranoAgent.Events.Secrets
import CyranoAgent.Sqlite.Observations

/-!
# What a recorded event shows of a secret

`record_event` stores the canonical bytes of the redacted payload, with the fields the call sets
itself: the event's type, and a mark when something was redacted. These hold no secret, so the bytes
do exactly when the other fields of the payload leak one (`secretFree_iff`).
-/

namespace CyranoAgent

open Lib Lib.Action Pattern

/-- No secret pattern matches in the text of these bytes. -/
def SecretFree (W : WordChars) (data : ByteArray) : Prop :=
  ∀ text : String, text.toByteArray = data → ¬HoldsSecret W text.toList

namespace DomainSink

section

variable (P : Primitives) (W : WordChars) (reprText : String → String)

/-- The bytes of an event's payload as `record_event` stores it. -/
def storedBytes (call : EventCall) : Except Failure ByteArray := do
  let clean ← admitted W reprText call
  canonicalBytes P (.dict (observation call clean "trusted").payload)

/-- Something in the payload is redacted. -/
def redacts (payload : PayloadMapping) : Bool :=
  match redactEntries W 0 payload with
  | .ok (_, found) => found
  | .error _ => false

/-- The field is not one that the call sets itself. -/
def keeps (payload : PayloadMapping) (key : PyKey) : Bool :=
  key ≠ .str "event_type" ∧ ¬(key = .str "redaction" ∧ redacts W payload = true)

/-- The fields of the payload that are stored. -/
def keptFields (payload : PayloadMapping) : PayloadMapping :=
  payload.filter fun entry => keeps W payload entry.1

end

variable {P : Primitives} {W : WordChars} {reprText : String → String} {call : EventCall}

/-! ### The fields a call sets -/

/-- A text without the marks of any secret. -/
def lacksMarks (x : List Char) : Bool := secretMarks.all fun marks => !marks.all x.contains

theorem not_holdsSecret_of_lacksMarks {x : List Char} (hx : lacksMarks x = true) :
    ¬HoldsSecret W x := by
  intro h
  obtain ⟨marks, hmem, hsub⟩ := h.exists_marks
  have hall := List.all_eq_true.mp hx marks hmem
  have hcontains : marks.all x.contains = true :=
    List.all_eq_true.mpr fun c hc => by simpa using hsub hc
  rw [hcontains] at hall
  cases hall

/-- A member with neither marks of a secret nor a keyword in its key holds none. -/
theorem not_holdsSecret_renderMember {key : String} {value : List Char}
    (hkeyword : Secret.keyword.search (quote key) = false)
    (hkey : lacksMarks (quote key) = true) (hvalue : lacksMarks value = true) :
    ¬HoldsSecret W (renderMember (key, value)) := by
  rw [renderMember, holdsSecret_colon_iff]
  rintro (h | h | ⟨hend, -⟩)
  · exact not_holdsSecret_of_lacksMarks hkey h
  · exact not_holdsSecret_of_lacksMarks hvalue h
  · rw [search_eq_true_iff.mpr (found_keyword_of_endsIn hend)] at hkeyword
    cases hkeyword

/-- The event types of the catalogue have no marks, and are ASCII text without line ends. -/
theorem plain_eventCatalogue :
    (eventCatalogue.all fun entry => lacksMarks (quote entry.1) &&
      (decide (crlfToLf entry.1.toList = entry.1.toList) &&
        entry.1.toList.all fun c => c.val < 128)) = true ∧
      (["event_type", "redaction"].all fun key =>
        !Secret.keyword.search (quote key) && lacksMarks (quote key)) = true ∧
      lacksMarks (quote "applied") = true ∧
      crlfToLf "applied".toList = "applied".toList ∧
      asciiKeys ["event_type", "redaction", "applied"] = true := by
  decide

/-- A key that the call sets, before a value without marks, holds no secret. -/
theorem not_holdsSecret_of_set {key value : String} (hkey : key ∈ ["event_type", "redaction"])
    (hvalue : lacksMarks (quote value) = true) :
    ¬HoldsSecret W (renderMember (key, quote value)) := by
  have hplain := List.all_eq_true.mp plain_eventCatalogue.2.1 key hkey
  rw [Bool.and_eq_true, Bool.not_eq_true'] at hplain
  exact not_holdsSecret_renderMember hplain.1 hplain.2 hvalue

/-- An event type of the catalogue has no marks, and is in normal form. -/
theorem plain_eventType {eventType : String} {spec : EventTypeSpec}
    (h : (eventType, spec) ∈ eventCatalogue) :
    lacksMarks (quote eventType) = true ∧ normalizeText P eventType = eventType := by
  have hplain := List.all_eq_true.mp plain_eventCatalogue.1 (eventType, spec) h
  obtain ⟨hmarks, hrest⟩ := (Bool.and_eq_true _ _).mp hplain
  obtain ⟨hlf, hascii⟩ := (Bool.and_eq_true _ _).mp hrest
  have hlf' : crlfToLf eventType.toList = eventType.toList := of_decide_eq_true hlf
  refine ⟨hmarks, ?_⟩
  rw [normalizeText, hlf', String.ofList_toList]
  exact P.nfc_ascii _ (by simpa using hascii)

theorem mem_set_iff {mapping : PyMapping} {key : String} {value : PyValue}
    {entry : PyKey × PyValue} :
    entry ∈ mapping.set key value ↔
      entry = (.str key, value) ∨ entry ∈ mapping ∧ entry.1 ≠ .str key := by
  rw [PyMapping.set]
  split
  · next hany =>
    obtain ⟨old, hold, hkey⟩ := List.any_eq_true.mp hany
    have hkey : old.1 = .str key := of_decide_eq_true hkey
    rw [List.mem_map]
    constructor
    · rintro ⟨entry', hentry', rfl⟩
      split
      · next heq => exact .inl (by rw [heq])
      · next hne => exact .inr ⟨hentry', hne⟩
    · rintro (rfl | ⟨hentry, hne⟩)
      · exact ⟨old, hold, by rw [if_pos hkey, hkey]⟩
      · exact ⟨entry, hentry, if_neg hne⟩
  · next hnone =>
    rw [List.mem_append, List.mem_singleton]
    constructor
    · rintro (hentry | rfl)
      · refine .inr ⟨hentry, fun hkey => hnone ?_⟩
        exact List.any_eq_true.mpr ⟨entry, hentry, by simpa using hkey⟩
      · exact .inl rfl
    · rintro (rfl | ⟨hentry, -⟩)
      · exact .inr rfl
      · exact .inl hentry

/-! ### What an admitted call stores -/

/-- **What admits a call**: its type is in the catalogue, and its payload can be redacted. -/
theorem admit_eq_ok {clean : PyMapping} (h : admitted W reprText call = .ok clean) :
    (∃ spec, (call.eventType, spec) ∈ eventCatalogue) ∧
      ∃ out found, redactEntries W 0 call.payload = .ok (out, found) ∧
        clean = if found then out.set "redaction" (.str "applied") else out := by
  rw [admitted] at h
  rcases hspec : authorizeEvent reprText call.eventType call.producer with e | spec <;>
    rw [hspec] at h
  · cases h
  rcases hcheck : checkTypedPayload reprText call.eventType call.payload with e | u
  · simp only [bind, Except.bind, hcheck, reduceCtorEq] at h
  rcases hredact : redactEntries W 0 call.payload with e | ⟨out, found⟩
  · simp only [bind, Except.bind, hcheck, hredact, reduceCtorEq] at h
  simp only [bind, Except.bind, hcheck, hredact, pure, Except.pure, Except.ok.injEq] at h
  refine ⟨?_, out, found, rfl, h.symm⟩
  rw [authorizeEvent, specFor] at hspec
  split at hspec
  · cases hspec
  · next registered hlookup =>
    obtain ⟨l₁, l₂, hcatalogue, -⟩ := List.lookup_eq_some_iff.mp hlookup
    exact ⟨registered, by rw [hcatalogue]; simp⟩

/-- An entry of a stored mapping, as it is printed, holds a secret. -/
def EntryHolds (P : Primitives) (W : WordChars) (entry : PyKey × PyValue) : Prop :=
  ∃ key j, entry.1 = .str key ∧ normalize P entry.2 = .ok j ∧
    HoldsSecret W (renderMember (P.nfc key, dumps j))

/-- A list has an element with a property where a list related to it has one. -/
theorem exists_mem_iff_of_forall₂ {α β : Type} {R : α → β → Prop} {p : α → Prop} {q : β → Prop}
    {xs : List α} {ys : List β} (h : List.Forall₂ R xs ys)
    (hiff : ∀ x ∈ xs, ∀ y ∈ ys, R x y → (p x ↔ q y)) : (∃ x ∈ xs, p x) ↔ ∃ y ∈ ys, q y := by
  induction h with
  | nil => simp
  | @cons x y xs ys hxy _ ih =>
    rw [List.exists_mem_cons_iff, List.exists_mem_cons_iff,
      hiff x List.mem_cons_self y List.mem_cons_self hxy,
      ih fun x hx y hy => hiff x (List.mem_cons_of_mem _ hx) y (List.mem_cons_of_mem _ hy)]

theorem exists_related {α β : Type} {R : α → β → Prop} {xs : List α} {ys : List β}
    (h : List.Forall₂ R xs ys) {x : α} (hx : x ∈ xs) : ∃ y ∈ ys, R x y := by
  induction h with
  | nil => exact absurd hx List.not_mem_nil
  | @cons x' y xs ys hxy _ ih =>
    rcases List.mem_cons.mp hx with rfl | hx
    · exact ⟨y, List.mem_cons_self, hxy⟩
    · obtain ⟨y', hy', hrelated⟩ := ih hx
      exact ⟨y', List.mem_cons_of_mem _ hy', hrelated⟩

/-- A document holds a secret where one of its entries does. -/
theorem holdsSecret_dict_iff {mapping : PyMapping} {members : List (String × Json)}
    (h : normalizeEntries P [] mapping = .ok members) :
    HoldsSecret W (dumps (.obj members)) ↔ ∃ entry ∈ mapping, EntryHolds P W entry := by
  obtain ⟨new, hnew, hmembers⟩ := normalizeEntries_spec h
  rw [List.nil_append] at hnew
  subst hnew
  rw [holdsSecret_obj_iff]
  refine (exists_mem_iff_of_forall₂ hmembers ?_).symm
  rintro entry - member - ⟨key, hkey, hmember, hvalue⟩
  constructor
  · rintro ⟨key', j, hkey', hj, hholds⟩
    rw [hkey, PyKey.str.injEq] at hkey'
    rw [hvalue, Except.ok.injEq] at hj
    rwa [hmember, hkey', hj]
  · intro hholds
    exact ⟨key, member.2, hkey, hvalue, by rwa [← hmember]⟩

theorem leaksEntry_iff_exists {entries : PayloadMapping} :
    LeaksEntry P W entries ↔ ∃ entry ∈ entries, LeaksEntry P W [entry] := by
  induction entries with
  | nil => simp [LeaksEntry]
  | cons entry entries ih =>
    obtain ⟨key | _, value⟩ := entry
    · simp only [List.exists_mem_cons_iff, LeaksEntry, or_false, ← ih]
    · simp only [List.exists_mem_cons_iff, LeaksEntry, false_or, ← ih]

/-- What the call sets does not count. -/
theorem not_entryHolds_set {spec : EventTypeSpec} (h : (call.eventType, spec) ∈ eventCatalogue) :
    ¬EntryHolds P W (.str "event_type", .str call.eventType) ∧
      ¬EntryHolds P W (.str "redaction", .str "applied") := by
  obtain ⟨-, -, hmarks, hlf, hkeys⟩ := plain_eventCatalogue
  have happlied : normalizeText P "applied" = "applied" := by
    rw [normalizeText, hlf, String.ofList_toList]
    exact P.nfc_ascii _ (ascii_of_mem hkeys (by simp))
  have hset (key value : String) (hkey : key ∈ ["event_type", "redaction"])
      (hvalue : normalizeText P value = value) (hno : lacksMarks (quote value) = true) :
      ¬EntryHolds P W (.str key, .str value) := by
    rintro ⟨key', j, hkey', hj, hholds⟩
    obtain rfl := PyKey.str.inj hkey'
    rw [normalize_str, hvalue, Except.ok.injEq] at hj
    have hascii := ascii_of_mem hkeys (List.mem_append_left ["applied"] hkey)
    rw [← hj, P.nfc_ascii key hascii, dumps] at hholds
    exact not_holdsSecret_of_set hkey hno hholds
  obtain ⟨htype, hnormal⟩ := plain_eventType (P := P) h
  exact ⟨hset "event_type" call.eventType (by simp) hnormal htype,
    hset "redaction" "applied" (by simp) happlied hmarks⟩

/-- **The text of a stored event holds a secret where a kept field of its payload leaks one.** -/
theorem holdsSecret_stored_iff {clean : PyMapping}
    (hadmitted : admitted W reprText call = .ok clean) {j : Json}
    (hj : normalize P (.dict (clean.set "event_type" (.str call.eventType))) = .ok j) :
    HoldsSecret W (dumps j) ↔ LeaksEntry P W (keptFields W call.payload) := by
  obtain ⟨⟨spec, hspec⟩, out, found, hredact, hclean⟩ := admit_eq_ok hadmitted
  have hredacts : redacts W call.payload = found := by rw [redacts, hredact]
  obtain ⟨hnotType, hnotMark⟩ := not_entryHolds_set (P := P) (W := W) hspec
  generalize hstored : clean.set "event_type" (.str call.eventType) = stored at hj
  -- the kept fields of what was redacted are stored, and what the call sets
  have hmem (entry : PyKey × PyValue) : entry ∈ stored ↔
      entry = (.str "event_type", .str call.eventType) ∨
        (found = true ∧ entry = (.str "redaction", .str "applied")) ∨
        (entry ∈ out ∧ keeps W call.payload entry.1 = true) := by
    rw [← hstored, mem_set_iff, hclean]
    rcases found with _ | _
    · simp only [Bool.false_eq_true, if_false, keeps, hredacts]
      simp
    · simp only [if_true, mem_set_iff, keeps, hredacts]
      simp only [ne_eq, true_and, and_true, Bool.decide_and, Bool.and_eq_true, decide_eq_true_eq]
      constructor
      · rintro (h | ⟨rfl | h, hne⟩)
        · exact .inl h
        · exact .inr (.inl rfl)
        · exact .inr (.inr ⟨h.1, hne, h.2⟩)
      · rintro (h | rfl | ⟨h, hne, hne'⟩)
        · exact .inl h
        · exact .inr ⟨.inl rfl, by simp⟩
        · exact .inr ⟨.inr ⟨h, hne'⟩, hne⟩
  rw [normalize_dict] at hj
  rcases hmembers : normalizeEntries P [] stored with e | members <;>
    simp only [hmembers, Except.map, Except.ok.injEq, reduceCtorEq] at hj
  rw [← hj, holdsSecret_dict_iff hmembers, leaksEntry_iff_exists]
  have hleft : (∃ entry ∈ stored, EntryHolds P W entry) ↔
      ∃ cleaned ∈ out, keeps W call.payload cleaned.1 = true ∧ EntryHolds P W cleaned := by
    constructor
    · rintro ⟨entry, hentry, hholds⟩
      rcases (hmem entry).mp hentry with rfl | ⟨-, rfl⟩ | ⟨hout, hkeep⟩
      · exact absurd hholds hnotType
      · exact absurd hholds hnotMark
      · exact ⟨entry, hout, hkeep, hholds⟩
    · rintro ⟨cleaned, hout, hkeep, hholds⟩
      exact ⟨cleaned, (hmem cleaned).mpr (.inr (.inr ⟨hout, hkeep⟩)), hholds⟩
  have hright : (∃ entry ∈ keptFields W call.payload, LeaksEntry P W [entry]) ↔
      ∃ entry ∈ call.payload, keeps W call.payload entry.1 = true ∧ LeaksEntry P W [entry] := by
    simp only [keptFields, List.mem_filter, and_assoc]
  rw [hleft, hright]
  refine (exists_mem_iff_of_forall₂ (redactEntries_spec hredact) ?_).symm
  rintro entry - cleaned hcleaned ⟨⟨key, hkey⟩, hsame, hit, hvalue⟩
  rw [hsame]
  refine and_congr_right fun hkeep => ?_
  obtain ⟨new, -, hrelated⟩ := normalizeEntries_spec hmembers
  obtain ⟨member, -, _, -, -, hj⟩ := exists_related hrelated
    ((hmem cleaned).mpr (.inr (.inr ⟨hcleaned, by rwa [hsame]⟩)))
  have hone := leaksEntry_iff [entry] [(P.nfc key, member.2)]
    (.cons ⟨key, hkey, rfl, _, _, hit, hvalue, hj⟩ .nil)
  rw [← hone]
  constructor
  · rintro ⟨_, hin, hholds⟩
    obtain rfl := List.mem_singleton.mp hin
    exact ⟨key, member.2, hsame.trans hkey, hj, hholds⟩
  · rintro ⟨key', j', hkey', hj', hholds⟩
    rw [hsame, hkey, PyKey.str.injEq] at hkey'
    rw [hj, Except.ok.injEq] at hj'
    exact ⟨_, List.mem_singleton.mpr rfl, by rwa [hkey', hj']⟩

/-! ### Recorded events -/

theorem storedBytes_eq_ok {data : ByteArray} :
    storedBytes P W reprText call = .ok data ↔
      ∃ clean, admitted W reprText call = .ok clean ∧
        canonicalBytes P (.dict (clean.set "event_type" (.str call.eventType))) = .ok data := by
  rw [storedBytes]
  rcases admitted W reprText call with e | clean <;> simp [bind, Except.bind, observation]

/-- The event a call was recorded as has the digest of these bytes. -/
def StoredUnder (L : Ledger) (call : EventCall) (data : ByteArray) : Prop :=
  ∃ ev ∈ L.events, ev.producer = call.producer ∧ ev.producerSeq = call.producerSeq ∧
    ev.payloadDigest = rawDigest data

/-- An event that `record_event` returns is in the ledger, under its bytes. -/
theorem storedUnder_of_recordEvent {L L' : Ledger} {n : ℕ}
    (h : (recordEvent P W reprText call).run L = (.ok n, L')) :
    ∃ data, storedBytes P W reprText call = .ok data ∧ StoredUnder L' call data := by
  obtain ⟨clean, hadmitted, hwrite⟩ := recordEvent_eq_ok.mp h
  rcases write_eq_ok.mp hwrite with ⟨⟨-, -, data, old, hdata, hold, hdigest, -⟩, rfl⟩ |
    ⟨eventId, data, hrec, -, rfl⟩
  · obtain ⟨hmem, hproducer, hseq⟩ := sameObservation_of_observed? hold
    exact ⟨data, storedBytes_eq_ok.mpr ⟨clean, hadmitted, hdata⟩, old, hmem, hproducer, hseq,
      hdigest⟩
  · exact ⟨data, storedBytes_eq_ok.mpr ⟨clean, hadmitted, hrec.bytes_payload⟩, _,
      List.mem_concat_self, rfl, rfl, rfl⟩

/-- **When a recorded event shows no secret**: exactly when no kept field of its payload leaks one
as it is stored. Some key or redacted string holds one, or a key that ends in a secret's name stands
before a value that begins with a token. -/
theorem secretFree_iff {L L' : Ledger} {n : ℕ}
    (h : (recordEvent P W reprText call).run L = (.ok n, L')) :
    ∃ data, storedBytes P W reprText call = .ok data ∧ StoredUnder L' call data ∧
      (SecretFree W data ↔ ¬LeaksEntry P W (keptFields W call.payload)) := by
  obtain ⟨data, hbytes, hstored⟩ := storedUnder_of_recordEvent h
  refine ⟨data, hbytes, hstored, ?_⟩
  obtain ⟨clean, hadmitted, hdata⟩ := storedBytes_eq_ok.mp hbytes
  rcases hj : normalize P (.dict (clean.set "event_type" (.str call.eventType))) with e | j <;>
    simp only [canonicalBytes, hj, Except.map, Except.ok.injEq, reduceCtorEq] at hdata
  rw [← holdsSecret_stored_iff hadmitted hj]
  constructor
  · intro hfree hholds
    refine hfree _ hdata ?_
    rwa [String.toList_ofList]
  · rintro hno text htext hholds
    rw [← hdata, String.toByteArray_inj] at htext
    rw [htext, String.toList_ofList] at hholds
    exact hno hholds

/-- The start of a run with a token under the key `token`. -/
def startWithToken : EventCall :=
  ⟨acmeScope, "s", "domain_service", 1, "work.started",
    [(.str "run_id", .str "r"), (.str "token", .str "abcdefgh12345678")]⟩

/-- The text that is stored of it. -/
def tokenText : String :=
  "\x7b\"event_type\":\"work.started\",\"run_id\":\"r\"," ++ "\"token\":\"abcdefgh12345678\"\x7d"

theorem recordEvent_startWithToken :
    ((recordEvent .ascii .ascii id startWithToken).run acmeLedger).1 = .ok 1 ∧
      storedBytes .ascii .ascii id startWithToken = .ok tokenText.toByteArray ∧
      (Secret.named .ascii).search tokenText.toList = true := by
  decide +kernel

/-- The name of a secret is none by itself. -/
example : (Secret.named .ascii).search "token".toList = false := by decide +kernel

/-- An event of a run without secrets in it is free of them as its payload is. -/
theorem secretFree_iff_startRun :
    let call : EventCall :=
      ⟨acmeScope, "s", "domain_service", 1, "work.started", [(.str "run_id", .str "r")]⟩
    ∃ data, storedBytes .ascii .ascii id call = .ok data ∧
      StoredUnder ((recordEvent .ascii .ascii id call).run acmeLedger).2 call data ∧
      (SecretFree .ascii data ↔ ¬LeaksEntry .ascii .ascii (keptFields .ascii call.payload)) := by
  intro call
  have hreply : ((recordEvent .ascii .ascii id call).run acmeLedger).1 = .ok 1 := by decide +kernel
  exact secretFree_iff (Prod.ext hreply rfl)

/-- **A secret can be stored**: the value of the key `token` is none by itself, and the text has
both. -/
theorem token_stored :
    ¬∀ (P : Primitives) (W : WordChars) (reprText : String → String) (call : EventCall)
      (L L' : Ledger) (n : ℕ) (data : ByteArray),
      (recordEvent P W reprText call).run L = (.ok n, L') →
      storedBytes P W reprText call = .ok data → SecretFree W data := by
  intro hclaim
  obtain ⟨hreply, hbytes, hsearch⟩ := recordEvent_startWithToken
  exact hclaim .ascii .ascii id startWithToken acmeLedger _ 1 _ (Prod.ext hreply rfl) hbytes
    tokenText rfl ⟨Secret.named .ascii, by simp [Secret.patterns], search_eq_true_iff.mp hsearch⟩

end DomainSink

end CyranoAgent
