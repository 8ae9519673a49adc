import CyranoAgent.Contracts.Printing
import CyranoAgent.Events.DomainSink

/-!
# Secrets in stored text

What is stored is text, so a secret pattern may match where no single value of the payload does:
in a key, across a key and its value, or in a string as it is printed. No pattern has a brace, a
bracket or a comma in it, and only the last one a colon, between a name and its value. So a stored
document holds a secret exactly when one of its keys or strings does as it is printed, or a key
that ends in a name stands before a value that begins with a token (`leaks_iff`).
-/

namespace CyranoAgent

open Lib Pattern

/-- Some secret pattern matches in the text. -/
def HoldsSecret (W : WordChars) (text : List Char) : Prop :=
  ∃ q ∈ Secret.patterns W, q.Found text

variable {W : WordChars} {c c' : Char} {x y : List Char}

/-! ### The patterns -/

theorem local_of_mem_patterns {q : Pattern Char} (hq : q ∈ Secret.patterns W) :
    q.Local W.isWord := by
  simp only [Secret.patterns, List.mem_cons, List.not_mem_nil, or_false] at hq
  rcases hq with rfl | rfl | rfl | rfl
  · exact local_of_plain rfl rfl
  · exact local_of_plain rfl rfl
  · exact local_of_plain rfl rfl
  · exact (local_boundary rfl rfl).seq rfl

/-- The characters JSON puts between values. -/
def Structural (c : Char) : Prop := c ∈ ['{', '}', '[', ']', ',']

/-- No pattern has a structural character in it. -/
theorem uses_structural {q : Pattern Char} (hq : q ∈ Secret.patterns W) (hc : Structural c) :
    q.uses c = false := by
  simp only [Secret.patterns, Structural, List.mem_cons, List.not_mem_nil, or_false] at hq hc
  rcases hq with rfl | rfl | rfl | rfl <;> rcases hc with rfl | rfl | rfl | rfl | rfl <;> rfl

/-- A structural character is part of no word. -/
theorem isWord_structural (hc : Structural c) : W.isWord c = false := by
  simp only [Structural, List.mem_cons, List.not_mem_nil, or_false] at hc
  rcases hc with rfl | rfl | rfl | rfl | rfl <;> rw [W.isWord_ascii _ (by decide)] <;> rfl

theorem holdsSecret_brackets_iff (hc : Structural c) (hc' : Structural c') :
    HoldsSecret W (c :: (x ++ [c'])) ↔ HoldsSecret W x := by
  refine exists_congr fun q => and_congr_right fun hq => ?_
  exact found_brackets_iff (local_of_mem_patterns hq) (isWord_structural hc) (isWord_structural hc')
    (uses_structural hq hc) (uses_structural hq hc')

theorem holdsSecret_intercalate_iff {parts : List (List Char)} :
    HoldsSecret W (List.intercalate [','] parts) ↔ ∃ part ∈ parts, HoldsSecret W part := by
  have hcomma : Structural ',' := by simp [Structural]
  constructor
  · rintro ⟨q, hq, hfound⟩
    obtain ⟨part, hpart, hfound⟩ := (found_intercalate_iff (local_of_mem_patterns hq)
      (isWord_structural hcomma) (uses_structural hq hcomma)).mp hfound
    exact ⟨part, hpart, q, hq, hfound⟩
  · rintro ⟨part, hpart, q, hq, hfound⟩
    exact ⟨q, hq, (found_intercalate_iff (local_of_mem_patterns hq)
      (isWord_structural hcomma) (uses_structural hq hcomma)).mpr ⟨part, hpart, hfound⟩⟩

/-- **At a colon a name may meet its value**; every other secret is before it or behind it. -/
theorem holdsSecret_colon_iff :
    HoldsSecret W (x ++ ':' :: y) ↔ HoldsSecret W x ∨ HoldsSecret W y ∨
      (Secret.name W).EndsIn x ∧ Secret.value.StartsWith y := by
  have hword : W.isWord ':' = false := by rw [W.isWord_ascii _ (by decide)]; rfl
  have hapi : Secret.apiKey.Found (x ++ ':' :: y) ↔ Secret.apiKey.Found x ∨ Secret.apiKey.Found y :=
    found_append_cons_iff (local_of_plain rfl rfl) hword rfl
  have haccess : Secret.accessKey.Found (x ++ ':' :: y) ↔
      Secret.accessKey.Found x ∨ Secret.accessKey.Found y :=
    found_append_cons_iff (local_of_plain rfl rfl) hword rfl
  have hprivate : Secret.privateKey.Found (x ++ ':' :: y) ↔
      Secret.privateKey.Found x ∨ Secret.privateKey.Found y :=
    found_append_cons_iff (local_of_plain rfl rfl) hword rfl
  have hnamed : (Secret.named W).Found (x ++ ':' :: y) ↔
      (Secret.named W).Found x ∨ (Secret.named W).Found y ∨
        (Secret.name W).EndsIn x ∧ Secret.value.StartsWith y := by
    have hname : (Secret.name W).Local W.isWord := local_boundary rfl rfl
    rw [Secret.named]
    exact found_pair_iff hname rfl rfl hword rfl rfl
  simp only [HoldsSecret, Secret.patterns, List.exists_mem_cons_iff, List.not_mem_nil, false_and,
    exists_false, or_false, hapi, haccess, hprivate, hnamed]
  exact Iff.of_eq (by ac_rfl)

/-- Characters a secret cannot do without, one list for each kind of secret and delimiter. -/
def secretMarks : List (List Char) :=
  ["sk-".toList, "AKIA".toList, "-----BEGIN ".toList, [':'], ['=']]

/-- A text with a secret in it has the characters of one of them. -/
theorem HoldsSecret.exists_marks (h : HoldsSecret W x) : ∃ marks ∈ secretMarks, marks ⊆ x := by
  obtain ⟨q, hq, pre, m, post, rfl, hm⟩ := h
  suffices hmarks : ∃ marks ∈ secretMarks, marks ⊆ m by
    obtain ⟨marks, hmem, hsub⟩ := hmarks
    exact ⟨marks, hmem, fun c hc => by simp [hsub hc]⟩
  have hliteral {s : List Char} {prev : Option Char} {m rest : List Char}
      (h : (literal (fun c d => decide (c = d)) s).Matches prev m rest) : m = s := by
    induction s generalizing prev m with
    | nil => exact h
    | cons c s ih =>
      obtain ⟨_, m₂, rfl, ⟨d, hd, rfl⟩, hrest⟩ := h
      rw [ih hrest, of_decide_eq_true hd]
      rfl
  simp only [Secret.patterns, List.mem_cons, List.not_mem_nil, or_false] at hq
  rcases hq with rfl | rfl | rfl | rfl
  · obtain ⟨m₁, m₂, rfl, hexact, -⟩ := hm
    exact ⟨_, .head _, by rw [hliteral hexact]; exact List.subset_append_left _ _⟩
  · obtain ⟨m₁, m₂, rfl, hexact, -⟩ := hm
    exact ⟨_, .tail _ (.head _), by rw [hliteral hexact]; exact List.subset_append_left _ _⟩
  · obtain ⟨m₁, m₂, rfl, hexact, -⟩ := hm
    exact ⟨_, .tail _ (.tail _ (.head _)), by
      rw [hliteral hexact]; exact List.subset_append_left _ _⟩
  · obtain ⟨m₁, m₂, rfl, -, m₃, m₄, rfl, ⟨d, hd, rfl⟩, -⟩ := hm
    refine ⟨[d], ?_, by simp⟩
    simp only [Secret.isDelimiter, Bool.or_eq_true, decide_eq_true_eq] at hd
    rcases hd with rfl | rfl <;> simp [secretMarks]

/-- A text that ends in the name of a secret has a keyword in it. -/
theorem found_keyword_of_endsIn (h : (Secret.name W).EndsIn x) : Secret.keyword.Found x := by
  obtain ⟨pre, m, rfl, m₁, _, rfl, ⟨rfl, -⟩, m₂, m₃, rfl, hkeyword, -⟩ := h
  exact ⟨pre, m₂, m₃, rfl, hkeyword.of_plain rfl⟩

/-- What starts with the value of a secret starts with a gap or a token. -/
theorem startsWith_value_cons (h : Secret.value.StartsWith (c :: x)) :
    Secret.isGap c = true ∨ Secret.isToken c = true := by
  obtain ⟨m, post, hx, m₁, m₂, rfl, hgap, n₁, n₂, rfl, ⟨d, hd, rfl⟩, -⟩ := h
  cases m₁ with
  | nil =>
    obtain ⟨rfl, -⟩ := List.cons.inj hx
    exact .inr hd
  | cons c' m₁ =>
    obtain ⟨rfl, -⟩ := List.cons.inj hx
    exact .inl (hgap c List.mem_cons_self)

/-! ### Printed values -/

theorem mem_toList_repr {n : ℤ} (hc : c ∈ n.repr.toList) : c = '-' ∨ c.isDigit = true := by
  have hdigit {m : ℕ} (hc : c ∈ Nat.toDigits 10 m) : c.isDigit = true :=
    Nat.isDigit_of_mem_toDigits (by decide) (by decide) hc
  rw [Int.repr_eq_if] at hc
  split at hc
  · rw [Nat.toList_repr] at hc
    exact .inr (hdigit hc)
  · rw [String.toList_append, Nat.toList_repr] at hc
    rcases List.mem_append.mp hc with hc | hc
    · exact .inl (by simpa using hc)
    · exact .inr (hdigit hc)

/-- A number holds no secret. -/
theorem not_holdsSecret_int (n : ℤ) : ¬HoldsSecret W n.repr.toList := by
  intro h
  obtain ⟨marks, hmarks, hsub⟩ := h.exists_marks
  have hno {c : Char} (hc : c ∈ marks) (hdash : c ≠ '-') (hdigit : c.isDigit = false) : False := by
    rcases mem_toList_repr (hsub hc) with heq | hdigit'
    · exact hdash heq
    · rw [hdigit] at hdigit'
      cases hdigit'
  simp only [secretMarks, List.mem_cons, List.not_mem_nil, or_false] at hmarks
  rcases hmarks with rfl | rfl | rfl | rfl | rfl
  · exact hno (c := 's') (by simp) (by decide) (by decide)
  · exact hno (c := 'A') (by simp) (by decide) (by decide)
  · exact hno (c := 'B') (by simp) (by decide) (by decide)
  · exact hno (c := ':') (by simp) (by decide) (by decide)
  · exact hno (c := '=') (by simp) (by decide) (by decide)

theorem holdsSecret_arr_iff {items : List Json} :
    HoldsSecret W (dumps (.arr items)) ↔ ∃ item ∈ items, HoldsSecret W (dumps item) := by
  rw [dumps, holdsSecret_brackets_iff (by simp [Structural]) (by simp [Structural]),
    holdsSecret_intercalate_iff, dumpsItems_eq_map]
  simp

/-- **An object holds a secret where one of its members does.** -/
theorem holdsSecret_obj_iff {members : List (String × Json)} :
    HoldsSecret W (dumps (.obj members)) ↔
      ∃ member ∈ members, HoldsSecret W (renderMember (member.1, dumps member.2)) := by
  rw [dumps, holdsSecret_brackets_iff (by simp [Structural]) (by simp [Structural]),
    holdsSecret_intercalate_iff, dumpsMembers_eq_map]
  have hperm := List.perm_insertionSort (fun a b : String × List Char => a.1 ≤ b.1)
    (members.map fun member => (member.1, dumps member.2))
  constructor
  · rintro ⟨text, htext, h⟩
    obtain ⟨printed, hprinted, rfl⟩ := List.mem_map.mp htext
    obtain ⟨member, hmember, rfl⟩ := List.mem_map.mp (hperm.mem_iff.mp hprinted)
    exact ⟨member, hmember, h⟩
  · rintro ⟨member, hmember, h⟩
    exact ⟨_, List.mem_map_of_mem (hperm.mem_iff.mpr (List.mem_map_of_mem hmember)), h⟩

/-! ### Payloads -/

section

variable (P : Primitives) (W : WordChars)

/-- A string value as it is stored: redacted, in normal form, and printed. -/
def storedText (s : String) : List Char := quote (normalizeText P (redactText W s).1)

/-- The value as it is stored starts with that of a secret: after gaps, eight token characters. -/
def Payload.BeginsToken : Payload → Prop
  | .str s => Secret.value.StartsWith (storedText P W s)
  | .int n => Secret.value.StartsWith n.repr.toList
  | _ => False

mutual

/-- Somewhere in the value, a string or a key holds a secret as it is stored, or a key ends in a
secret's name and stands before a value that begins with a token. -/
def Payload.Leaks : Payload → Prop
  | .str s => HoldsSecret W (storedText P W s)
  | .list items => LeaksItem items
  | .dict entries => LeaksEntry entries
  | _ => False

/-- One of the items leaks. -/
def LeaksItem : List Payload → Prop
  | [] => False
  | item :: items => item.Leaks ∨ LeaksItem items

/-- One of the entries leaks. -/
def LeaksEntry : List (PyKey × Payload) → Prop
  | [] => False
  | (.other, _) :: rest => LeaksEntry rest
  | (.str key, value) :: rest =>
    (HoldsSecret W (quote (P.nfc key)) ∨ value.Leaks ∨
      (Secret.name W).EndsIn (quote (P.nfc key)) ∧ value.BeginsToken P W) ∨ LeaksEntry rest

end

/-- The value is stored as this one: redacted at some depth, and normalised. -/
def StoredAs (v : Payload) (j : Json) : Prop :=
  ∃ depth cleaned hit, redactPayload W depth v = .ok (cleaned, hit) ∧ normalize P cleaned = .ok j

/-- The entry is stored as this member. -/
def MemberStored (entry : PyKey × Payload) (member : String × Json) : Prop :=
  ∃ key, entry.1 = .str key ∧ member.1 = P.nfc key ∧ StoredAs P W entry.2 member.2

end

variable {P : Primitives}

theorem storedAs_str {s : String} {j : Json} (h : StoredAs P W (.str s) j) :
    dumps j = storedText P W s := by
  obtain ⟨depth, cleaned, hit, hredact, hnorm⟩ := h
  rw [redactPayload] at hredact
  split at hredact
  · cases hredact
  · cases hredact
    rw [normalize_str, Except.ok.injEq] at hnorm
    rw [← hnorm]
    rfl

theorem storedAs_int {n : ℤ} {j : Json} (h : StoredAs P W (.int n) j) : j = .int n := by
  obtain ⟨depth, cleaned, hit, hredact, hnorm⟩ := h
  rw [redactPayload] at hredact
  split at hredact
  · cases hredact
  · cases hredact
    exact (normalize_int_eq_ok.mp hnorm).2

theorem redactItems_spec {depth : ℕ} {items : List Payload} {out : List PyValue} {hit : Bool}
    (h : redactItems W depth items = .ok (out, hit)) :
    List.Forall₂ (fun item cleaned => ∃ hit, redactPayload W (depth + 1) item = .ok (cleaned, hit))
      items out := by
  induction items generalizing out hit with
  | nil =>
    rw [redactItems] at h
    cases h
    exact .nil
  | cons item items ih =>
    rw [redactItems] at h
    rcases hitem : redactPayload W (depth + 1) item with e | ⟨cleaned, found⟩ <;> rw [hitem] at h
    · cases h
    rcases hrest : redactItems W depth items with e | ⟨rest, found'⟩ <;> rw [hrest] at h
    · cases h
    cases h
    exact .cons ⟨found, hitem⟩ (ih hrest)

theorem redactEntries_spec {depth : ℕ} {entries : PayloadMapping} {out : PyMapping} {hit : Bool}
    (h : redactEntries W depth entries = .ok (out, hit)) :
    List.Forall₂ (fun entry cleaned => (∃ key, entry.1 = .str key) ∧ cleaned.1 = entry.1 ∧
      ∃ hit, redactPayload W (depth + 1) entry.2 = .ok (cleaned.2, hit)) entries out := by
  induction entries generalizing out hit with
  | nil =>
    rw [redactEntries] at h
    cases h
    exact .nil
  | cons entry entries ih =>
    obtain ⟨key | _, value⟩ := entry <;> rw [redactEntries] at h
    · rcases hvalue : redactPayload W (depth + 1) value with e | ⟨cleaned, found⟩ <;>
        rw [hvalue] at h
      · cases h
      rcases hrest : redactEntries W depth entries with e | ⟨rest, found'⟩ <;> rw [hrest] at h
      · cases h
      cases h
      exact .cons ⟨⟨key, rfl⟩, rfl, found, hvalue⟩ (ih hrest)
    · cases h

/-- The members of a normalised mapping are its entries, normalised. -/
theorem normalizeEntries_spec {result members : List (String × Json)} {entries : PyMapping}
    (h : normalizeEntries P result entries = .ok members) :
    ∃ new, members = result ++ new ∧ List.Forall₂ (fun entry member =>
      ∃ key, entry.1 = PyKey.str key ∧ member.1 = P.nfc key ∧
        normalize P entry.2 = .ok member.2) entries new := by
  induction entries generalizing result with
  | nil =>
    rw [normalizeEntries_nil] at h
    cases h
    exact ⟨[], by simp, .nil⟩
  | cons entry entries ih =>
    obtain ⟨key | _, value⟩ := entry <;> rw [normalizeEntries] at h
    · split at h
      · cases h
      rcases hvalue : normalize P value with e | v <;> rw [hvalue] at h
      · cases h
      obtain ⟨new, rfl, hnew⟩ := ih h
      exact ⟨(P.nfc key, v) :: new, by simp, .cons ⟨key, rfl, rfl, hvalue⟩ hnew⟩
    · cases h

/-- Lists related item by item to a third list are related through it. -/
theorem forall₂_through {α β γ : Type} {R : α → β → Prop} {S : β → γ → Prop} {T : α → γ → Prop}
    {xs : List α} {ys : List β} {zs : List γ} (hR : List.Forall₂ R xs ys)
    (hS : List.Forall₂ S ys zs) (h : ∀ x y z, R x y → S y z → T x z) : List.Forall₂ T xs zs := by
  induction hR generalizing zs with
  | nil =>
    cases hS
    exact .nil
  | cons hxy _ ih =>
    cases hS with
    | cons hyz hrest => exact .cons (h _ _ _ hxy hyz) (ih hrest)

theorem storedAs_list {items : List Payload} {j : Json} (h : StoredAs P W (.list items) j) :
    ∃ js, j = .arr js ∧ List.Forall₂ (StoredAs P W) items js := by
  obtain ⟨depth, cleaned, hit, hredact, hnorm⟩ := h
  rw [redactPayload] at hredact
  split at hredact
  · cases hredact
  rcases hitems : redactItems W depth items with e | ⟨out, found⟩ <;>
    simp only [hitems, Except.map, Except.ok.injEq, Prod.mk.injEq, reduceCtorEq] at hredact
  obtain ⟨rfl, -⟩ := hredact
  rw [normalize] at hnorm
  rcases hout : normalizeItems P out with e | js <;>
    simp only [hout, Except.map, Except.ok.injEq, reduceCtorEq] at hnorm
  refine ⟨js, hnorm.symm,
    forall₂_through (redactItems_spec hitems) (normalizeItems_eq_ok.mp hout) ?_⟩
  rintro item out' j' ⟨hit', hitem⟩ hj'
  exact ⟨_, _, hit', hitem, hj'⟩

/-- What a mapping is stored as, from the entries redacted. -/
theorem memberStored_of_redacted {depth : ℕ} {entries : PayloadMapping} {out : PyMapping}
    {hit : Bool} {members : List (String × Json)}
    (hredact : redactEntries W depth entries = .ok (out, hit))
    (hnorm : normalizeEntries P [] out = .ok members) :
    List.Forall₂ (MemberStored P W) entries members := by
  obtain ⟨new, hnew, hmembers⟩ := normalizeEntries_spec hnorm
  rw [List.nil_append] at hnew
  subst hnew
  refine forall₂_through (redactEntries_spec hredact) hmembers ?_
  rintro entry cleaned member ⟨-, hkey, hit', hvalue⟩ ⟨key, hcleaned, hmember, hj⟩
  exact ⟨key, hkey.symm.trans hcleaned, hmember, _, _, hit', hvalue, hj⟩

theorem storedAs_dict {entries : PayloadMapping} {j : Json} (h : StoredAs P W (.dict entries) j) :
    ∃ members, j = .obj members ∧ List.Forall₂ (MemberStored P W) entries members := by
  obtain ⟨depth, cleaned, hit, hredact, hnorm⟩ := h
  rw [redactPayload] at hredact
  split at hredact
  · cases hredact
  rcases hentries : redactEntries W depth entries with e | ⟨out, found⟩ <;>
    simp only [hentries, Except.map, Except.ok.injEq, Prod.mk.injEq, reduceCtorEq] at hredact
  obtain ⟨rfl, -⟩ := hredact
  rw [normalize_dict] at hnorm
  rcases hout : normalizeEntries P [] out with e | members <;>
    simp only [hout, Except.map, Except.ok.injEq, reduceCtorEq] at hnorm
  exact ⟨members, hnorm.symm, memberStored_of_redacted hentries hout⟩

/-- What is stored of the other values. -/
theorem storedAs_constant {v : Payload} {j : Json} (h : StoredAs P W v j)
    (hstr : ∀ s, v ≠ .str s) (hint : ∀ n, v ≠ .int n) (hlist : ∀ items, v ≠ .list items)
    (hdict : ∀ entries, v ≠ .dict entries) : j = .null ∨ ∃ b, j = .bool b := by
  obtain ⟨depth, cleaned, hit, hredact, hnorm⟩ := h
  rw [redactPayload.eq_def] at hredact
  split at hredact
  · cases hredact
  cases v with
  | str s => exact absurd rfl (hstr s)
  | int n => exact absurd rfl (hint n)
  | list items => exact absurd rfl (hlist items)
  | dict entries => exact absurd rfl (hdict entries)
  | other type => cases hredact
  | none | float | bool b =>
    cases hredact
    rw [normalize] at hnorm
    cases hnorm
    try simp

/-! ### Where a stored document holds a secret -/

theorem not_holdsSecret_constant {j : Json} (hj : j = .null ∨ ∃ b, j = .bool b) :
    ¬HoldsSecret W (dumps j) ∧ ¬Secret.value.StartsWith (dumps j) := by
  have htext : dumps j ∈ ["null".toList, "true".toList, "false".toList] := by
    rcases hj with rfl | ⟨_ | _, rfl⟩ <;> simp [dumps]
  simp only [List.mem_cons, List.not_mem_nil, or_false] at htext
  rcases htext with h | h | h <;> rw [h]
  all_goals
    refine ⟨fun h => ?_, by decide⟩
    obtain ⟨marks, hmarks, hsub⟩ := h.exists_marks
    revert marks
    decide

/-- A stored value begins with a token where the payload's does. -/
theorem startsWith_value_iff {v : Payload} {j : Json} (h : StoredAs P W v j) :
    Secret.value.StartsWith (dumps j) ↔ v.BeginsToken P W := by
  cases v with
  | str s => rw [storedAs_str h, Payload.BeginsToken]
  | int n =>
    obtain rfl := storedAs_int h
    rw [dumps, Payload.BeginsToken]
  | list items =>
    obtain ⟨js, rfl, -⟩ := storedAs_list h
    refine iff_of_false (fun hstart => ?_) id
    rcases startsWith_value_cons hstart with h | h <;> exact absurd h (by decide)
  | dict entries =>
    obtain ⟨members, rfl, -⟩ := storedAs_dict h
    refine iff_of_false (fun hstart => ?_) id
    rcases startsWith_value_cons hstart with h | h <;> exact absurd h (by decide)
  | none | bool | float | other =>
    have hconstant := storedAs_constant h (by simp) (by simp) (by simp) (by simp)
    exact iff_of_false (not_holdsSecret_constant (W := W) hconstant).2 id

mutual

/-- **A stored value holds a secret where the payload leaks one.** -/
theorem leaks_iff : (v : Payload) → ∀ j, StoredAs P W v j →
    (HoldsSecret W (dumps j) ↔ v.Leaks P W)
  | .str s, j, h => by rw [storedAs_str h, Payload.Leaks]
  | .int n, j, h => by
    obtain rfl := storedAs_int h
    simp only [Payload.Leaks, iff_false]
    exact not_holdsSecret_int n
  | .list items, j, h => by
    obtain ⟨js, rfl, hjs⟩ := storedAs_list h
    rw [holdsSecret_arr_iff, Payload.Leaks]
    exact leaksItem_iff items js hjs
  | .dict entries, j, h => by
    obtain ⟨members, rfl, hmembers⟩ := storedAs_dict h
    rw [holdsSecret_obj_iff, Payload.Leaks]
    exact leaksEntry_iff entries members hmembers
  | .none, j, h | .bool _, j, h | .float, j, h | .other _, j, h => by
    have hconstant := storedAs_constant h (by simp) (by simp) (by simp) (by simp)
    simp only [Payload.Leaks, iff_false]
    exact (not_holdsSecret_constant hconstant).1

theorem leaksItem_iff : (items : List Payload) → ∀ js, List.Forall₂ (StoredAs P W) items js →
    ((∃ j ∈ js, HoldsSecret W (dumps j)) ↔ LeaksItem P W items)
  | [], _, .nil => by simp [LeaksItem]
  | item :: items, _, .cons hitem hitems => by
    rw [List.exists_mem_cons_iff, LeaksItem, leaks_iff item _ hitem, leaksItem_iff items _ hitems]

theorem leaksEntry_iff : (entries : PayloadMapping) → ∀ members,
    List.Forall₂ (MemberStored P W) entries members →
    ((∃ member ∈ members, HoldsSecret W (renderMember (member.1, dumps member.2))) ↔
      LeaksEntry P W entries)
  | [], _, .nil => by simp [LeaksEntry]
  | (_, value) :: entries, _, .cons hentry hentries => by
    obtain ⟨key, rfl, hkey, hvalue⟩ := hentry
    rw [List.exists_mem_cons_iff, LeaksEntry, leaksEntry_iff entries _ hentries, renderMember,
      holdsSecret_colon_iff, leaks_iff value _ hvalue, startsWith_value_iff hvalue, hkey]

end

end CyranoAgent
