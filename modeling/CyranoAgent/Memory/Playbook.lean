import CyranoAgent.Backends.Files
import CyranoAgent.Contracts.Types
import CyranoAgent.Lib.Dict
import CyranoAgent.Lib.Outcome
import CyranoAgent.Lib.Run

/-!
# Playbook deltas

`apply_delta` checks one proposed change of a playbook and returns the changed entries, or raises. A
revision or a budget that is no `int` stands as `none`. `Revises` says what an accepted change may
do, and `playbook_law` that every history of changes, accepted or rejected, keeps to it.
-/

namespace CyranoAgent

open Lib

namespace Memory

/-- `PlaybookEntry`. -/
structure PlaybookEntry where
  entryId : String
  revision : ℤ
  scope : String
  text : String
  evidence : List String
  isProtected : Bool := false
  deprecated : Bool := false
  deriving DecidableEq

/-- The operations of a delta, and any other text in their place. -/
inductive DeltaOperation
  | add | refine | deprecate | other
  deriving DecidableEq

/-- `EntryDelta`. -/
structure EntryDelta where
  operation : DeltaOperation
  entryId : String
  expectedRevision : Option ℤ
  scope : String
  text : String
  evidence : List String

/-- The arguments of `apply_delta` besides the entries. -/
structure DeltaCall where
  delta : EntryDelta
  expectedRelease : String
  actualRelease : String
  permittedScope : String
  knownEvidence : List String
  maxChars : Option ℤ

/-! ### One change -/

/-- `DeltaError`. -/
def deltaError (code : String) : Failure := .python "DeltaError" code

/-- `text.strip()`. -/
def strip (text : String) : String :=
  String.ofList ((text.toList.dropWhile (· ∈ Backends.whitespace)).rdropWhile
    (· ∈ Backends.whitespace))

/-- The entry that a delta makes of the one it names. -/
def revisedEntry (old : Option PlaybookEntry) (c : DeltaCall) : Except Failure PlaybookEntry :=
  match c.delta.operation, old with
  | .add, old => do
    rejectIf (old ≠ none ∨ c.delta.expectedRevision ≠ some 0) (deltaError "ENTRY_EXISTS")
    rejectIf (strip c.delta.text = "") (deltaError "EMPTY_ENTRY")
    return { entryId := c.delta.entryId, revision := 1, scope := c.delta.scope,
             text := c.delta.text, evidence := c.delta.evidence }
  | .refine, some old => do
    rejectIf (c.delta.expectedRevision ≠ some old.revision) (deltaError "STALE_ENTRY")
    rejectIf (old.scope ≠ c.permittedScope ∨ old.isProtected)
      (deltaError "PROTECTED_OR_FOREIGN_ENTRY")
    rejectIf (old.deprecated = true) (deltaError "DEPRECATED_ENTRY")
    rejectIf (strip c.delta.text = "") (deltaError "EMPTY_ENTRY")
    return { old with
      revision := old.revision + 1, text := c.delta.text
      evidence := (old.evidence ++ c.delta.evidence).eraseDups, deprecated := false }
  | .deprecate, some old => do
    rejectIf (c.delta.expectedRevision ≠ some old.revision) (deltaError "STALE_ENTRY")
    rejectIf (old.scope ≠ c.permittedScope ∨ old.isProtected)
      (deltaError "PROTECTED_OR_FOREIGN_ENTRY")
    rejectIf (old.deprecated = true) (deltaError "DEPRECATED_ENTRY")
    return { old with
      revision := old.revision + 1
      evidence := (old.evidence ++ c.delta.evidence).eraseDups, deprecated := true }
  | .refine, none | .deprecate, none => .error (deltaError "STALE_ENTRY")
  | .other, _ => .error (deltaError "UNKNOWN_DELTA")

/-- `tuple(current[key] for key in sorted(current))`. -/
def sortedValues (current : Dict String PlaybookEntry) : List PlaybookEntry :=
  (current.keys.insertionSort (· ≤ ·)).filterMap current.get?

/-- The entries that are not deprecated. -/
def visible (entries : List PlaybookEntry) : List PlaybookEntry :=
  entries.filter fun entry => entry.deprecated = false

/-- How long the visible texts are together. -/
def visibleLength (entries : List PlaybookEntry) : ℕ :=
  ((visible entries).map fun entry => entry.text.length).sum

/-- `apply_delta`. -/
def applyDelta (entries : List PlaybookEntry) (c : DeltaCall) :
    Except Failure (List PlaybookEntry) := do
  rejectIf (c.actualRelease = "" ∨ c.expectedRelease ≠ c.actualRelease) (deltaError "STALE_RELEASE")
  rejectIf ((∀ n ∈ c.maxChars, n < 1) ∨ c.delta.scope ≠ c.permittedScope)
    (deltaError "SCOPE_OR_BUDGET")
  rejectIf (c.delta.expectedRevision = none) (deltaError "INVALID_REVISION")
  rejectIf (∃ entry ∈ entries, entry.scope ≠ c.permittedScope) (deltaError "FOREIGN_BASE_ENTRY")
  rejectIf (c.delta.entryId = "" ∨ c.delta.evidence = []) (deltaError "UNGROUNDED_DELTA")
  rejectIf (∃ ref ∈ c.delta.evidence, ref ∉ c.knownEvidence) (deltaError "UNKNOWN_EVIDENCE")
  let current := Dict.ofList (entries.map fun entry => (entry.entryId, entry))
  rejectIf (current.entries.length ≠ entries.length) (deltaError "DUPLICATE_ENTRY")
  let new ← revisedEntry (current.get? c.delta.entryId) c
  let result := sortedValues (current.set c.delta.entryId new)
  rejectIf (¬((visible result).map fun entry => strip entry.text).Nodup)
    (deltaError "DUPLICATE_CONTENT")
  rejectIf (∀ n ∈ c.maxChars, n < visibleLength result) (deltaError "CAPACITY_EXCEEDED")
  return result

/-! ### What a change does -/

/-- What an accepted change may do. -/
structure Revises (before : List PlaybookEntry) (c : DeltaCall) (after : List PlaybookEntry) :
    Prop where
  /-- The ids are in order, and different. -/
  sorted : (after.map (·.entryId)).Pairwise (· < ·)
  texts : ((visible after).map fun entry => strip entry.text).Nodup
  capacity : ∃ n, c.maxChars = some n ∧ visibleLength after ≤ n
  others : ∀ entry, entry.entryId ≠ c.delta.entryId → (entry ∈ after ↔ entry ∈ before)
  kept : ∀ entry ∈ before, entry.isProtected = true ∨ entry.deprecated = true → entry ∈ after
  revision : ∃ new ∈ after, new.entryId = c.delta.entryId ∧
    (∀ old ∈ before, old.entryId = c.delta.entryId → new.revision = old.revision + 1) ∧
    ((∀ old ∈ before, old.entryId ≠ c.delta.entryId) → new.revision = 1)
  evidence : ∀ old ∈ before, ∃ new ∈ after, new.entryId = old.entryId ∧
    old.evidence ⊆ new.evidence
  grounded : ∀ new ∈ after, ∀ ref ∈ new.evidence, ref ∈ c.knownEvidence ∨
    ∃ old ∈ before, old.entryId = new.entryId ∧ ref ∈ old.evidence

section

variable {entries result before after : List PlaybookEntry} {old : Option PlaybookEntry}
  {new entry : PlaybookEntry} {c : DeltaCall} {d : Dict String PlaybookEntry} {key : String}

/-- **The entry that a delta makes**: a new one at revision 1, or the old one, neither protected nor
deprecated, at the next revision and with more evidence. -/
theorem revisedEntry_spec (hold : ∀ o, old = some o → o.entryId = c.delta.entryId)
    (h : revisedEntry old c = .ok new) :
    new.entryId = c.delta.entryId ∧ (old = none → new.revision = 1) ∧
    (∀ o, old = some o → o.isProtected = false ∧ o.deprecated = false ∧
      new.revision = o.revision + 1 ∧ o.evidence ⊆ new.evidence) ∧
    ∀ ref ∈ new.evidence, ref ∈ c.delta.evidence ∨ ∃ o, old = some o ∧ ref ∈ o.evidence := by
  have hnext : ∀ {o : PlaybookEntry} {text : String} {deprecated : Bool}, old = some o →
      ¬(o.scope ≠ c.permittedScope ∨ o.isProtected) → ¬o.deprecated = true →
      new = { o with
        revision := o.revision + 1, text, deprecated
        evidence := (o.evidence ++ c.delta.evidence).eraseDups } →
      new.entryId = c.delta.entryId ∧ (old = none → new.revision = 1) ∧
      (∀ o, old = some o → o.isProtected = false ∧ o.deprecated = false ∧
        new.revision = o.revision + 1 ∧ o.evidence ⊆ new.evidence) ∧
      ∀ ref ∈ new.evidence, ref ∈ c.delta.evidence ∨ ∃ o, old = some o ∧ ref ∈ o.evidence := by
    rintro o text deprecated rfl hopen hlive rfl
    refine ⟨hold o rfl, fun h => (nomatch h), ?_, fun ref href => ?_⟩
    · rintro o' ho'
      obtain rfl := Option.some.inj ho'
      refine ⟨?_, Bool.eq_false_iff.mpr hlive, rfl, fun ref href => ?_⟩
      · exact Bool.eq_false_iff.mpr fun hprotected => hopen (.inr hprotected)
      · exact List.mem_eraseDups.mpr (List.mem_append_left _ href)
    · rw [List.mem_eraseDups, List.mem_append] at href
      exact href.symm.imp_right fun href => ⟨o, rfl, href⟩
  match hoperation : c.delta.operation with
  | .add =>
    simp only [revisedEntry, hoperation, except_bind_eq_ok, rejectIf_eq_ok, not_or, not_not] at h
    obtain ⟨-, ⟨rfl, -⟩, -, -, hnew⟩ := h
    obtain rfl := Except.ok.inj hnew
    exact ⟨rfl, fun _ => rfl, fun o ho => (nomatch ho), fun ref href => .inl href⟩
  | .other => simp [revisedEntry, hoperation] at h
  | .refine =>
    cases old with
    | none => simp [revisedEntry, hoperation] at h
    | some o =>
      simp only [revisedEntry, hoperation, except_bind_eq_ok, rejectIf_eq_ok] at h
      obtain ⟨-, -, -, hopen, -, hlive, -, -, hnew⟩ := h
      exact hnext rfl hopen hlive (Except.ok.inj hnew).symm
  | .deprecate =>
    cases old with
    | none => simp [revisedEntry, hoperation] at h
    | some o =>
      simp only [revisedEntry, hoperation, except_bind_eq_ok, rejectIf_eq_ok] at h
      obtain ⟨-, -, -, hopen, -, hlive, hnew⟩ := h
      exact hnext rfl hopen hlive (Except.ok.inj hnew).symm

/-- A dictionary in which every entry stands under its id. -/
def ById (d : Dict String PlaybookEntry) : Prop :=
  ∀ key entry, d.get? key = some entry → entry.entryId = key

theorem mem_sortedValues : entry ∈ sortedValues d ↔ ∃ key, d.get? key = some entry := by
  rw [sortedValues, List.mem_filterMap]
  constructor
  · rintro ⟨key, -, hget⟩
    exact ⟨key, hget⟩
  · rintro ⟨key, hget⟩
    have hkey : key ∈ d.keys := Dict.mem_keys_iff.mpr ⟨entry, hget⟩
    exact ⟨key, (List.perm_insertionSort _ _).mem_iff.mpr hkey, hget⟩

/-- The values that are sorted by their key are sorted by their id. -/
theorem sortedValues_sorted (hd : ById d) :
    ((sortedValues d).map (·.entryId)).Pairwise (· < ·) := by
  have hids : (sortedValues d).map (·.entryId) = d.keys.insertionSort (· ≤ ·) := by
    have hself : ∀ key ∈ d.keys.insertionSort (· ≤ ·),
        ((d.get? key).map (·.entryId)) = some key := by
      intro key hkey
      rw [(List.perm_insertionSort _ _).mem_iff, Dict.mem_keys_iff] at hkey
      obtain ⟨entry, hget⟩ := hkey
      rw [hget, Option.map_some, hd key entry hget]
    rw [sortedValues, List.map_filterMap, List.filterMap_congr hself, List.filterMap_some]
  have hsorted : (d.keys.insertionSort (· ≤ ·)).Pairwise (· ≤ ·) :=
    List.pairwise_insertionSort _ _
  have hnodup : (d.keys.insertionSort (· ≤ ·)).Nodup :=
    (List.perm_insertionSort _ _).nodup_iff.mpr d.nodup_keys
  rw [hids]
  exact hsorted.imp₂ (fun _ _ => lt_of_le_of_ne) hnodup

/-- Of entries with different ids, the dictionary has each under its id. -/
theorem get?_current
    (hlength : (Dict.ofList (before.map fun e => (e.entryId, e))).entries.length = before.length) :
    (Dict.ofList (before.map fun e => (e.entryId, e))).get? key = some entry ↔
      entry ∈ before ∧ entry.entryId = key := by
  have hnodup : ((before.map fun e => (e.entryId, e)).map Prod.fst).Nodup :=
    Dict.nodup_of_length_ofList (by rw [hlength, List.length_map])
  rw [Dict.get?_eq_some_iff, Dict.entries_ofList hnodup, List.mem_map]
  constructor
  · rintro ⟨entry, hentry, heq⟩
    obtain ⟨rfl, rfl⟩ := Prod.mk.inj heq
    exact ⟨hentry, rfl⟩
  · rintro ⟨hentry, rfl⟩
    exact ⟨entry, hentry, rfl⟩

section

variable (hget : ∀ key entry, d.get? key = some entry ↔ entry ∈ before ∧ entry.entryId = key)
  (hid : new.entryId = key)

include hget hid

theorem ById.set : ById (d.set key new) := by
  intro key' entry hkey'
  rw [Dict.get?_set] at hkey'
  split_ifs at hkey' with heq
  · obtain rfl := Option.some.inj hkey'
    exact hid.trans heq.symm
  · exact ((hget key' entry).mp hkey').2

/-- The entries after a change: the revised one in the place of the one of its id. -/
theorem mem_sortedValues_set :
    entry ∈ sortedValues (d.set key new) ↔
      entry = new ∨ entry ∈ before ∧ entry.entryId ≠ key := by
  rw [mem_sortedValues]
  constructor
  · rintro ⟨key', hkey'⟩
    rw [Dict.get?_set] at hkey'
    split_ifs at hkey' with heq
    · exact .inl (Option.some.inj hkey').symm
    · obtain ⟨hentry, rfl⟩ := (hget key' entry).mp hkey'
      exact .inr ⟨hentry, heq⟩
  · rintro (rfl | ⟨hentry, hne⟩)
    · exact ⟨key, by rw [Dict.get?_set, if_pos rfl]⟩
    · exact ⟨entry.entryId, by rw [Dict.get?_set, if_neg hne, (hget _ _).mpr ⟨hentry, rfl⟩]⟩

end

/-- **What an accepted change does.** -/
theorem applyDelta_spec (h : applyDelta before c = .ok after) : Revises before c after := by
  simp only [applyDelta, except_bind_eq_ok, rejectIf_eq_ok] at h
  obtain ⟨-, -, -, -, -, -, -, -, -, -, -, hknown, -, hlength, new, hnew, -, htexts, -,
    hcapacity, hafter⟩ := h
  obtain rfl := Except.ok.inj hafter
  have hget := fun key entry => @get?_current before entry key (not_not.mp hlength)
  generalize Dict.ofList (before.map fun e => (e.entryId, e)) = current at *
  obtain ⟨hid, hfirst, hnext, hgrounded⟩ :=
    revisedEntry_spec (fun o ho => ((hget _ o).mp ho).2) hnew
  have hmem : ∀ {entry}, entry ∈ sortedValues (current.set c.delta.entryId new) ↔
      entry = new ∨ entry ∈ before ∧ entry.entryId ≠ c.delta.entryId :=
    mem_sortedValues_set hget hid
  -- an entry of before is the one that the delta revises, or stays
  have hcases : ∀ old ∈ before, old.entryId = c.delta.entryId ∧
      current.get? c.delta.entryId = some old ∨ old.entryId ≠ c.delta.entryId := fun old hold =>
    (em (old.entryId = c.delta.entryId)).imp_left fun heq => ⟨heq, (hget _ _).mpr ⟨hold, heq⟩⟩
  refine ⟨sortedValues_sorted (ById.set hget hid), not_not.mp htexts, ?_, ?_, ?_, ?_, ?_, ?_⟩
  · simp only [not_forall, not_lt] at hcapacity
    obtain ⟨n, hn, hle⟩ := hcapacity
    exact ⟨n, hn, hle⟩
  · intro entry hne
    rw [hmem]
    constructor
    · rintro (rfl | ⟨hentry, -⟩)
      · exact absurd hid hne
      · exact hentry
    · exact fun hentry => .inr ⟨hentry, hne⟩
  · intro entry hentry hclosed
    obtain ⟨heq, hold⟩ | hne := hcases entry hentry
    · obtain ⟨hopen, hlive, -⟩ := hnext entry hold
      simp [hopen, hlive] at hclosed
    · exact hmem.mpr (.inr ⟨hentry, hne⟩)
  · refine ⟨new, hmem.mpr (.inl rfl), hid, fun old hold heq => ?_, fun hnone => ?_⟩
    · exact (hnext old ((hget _ _).mpr ⟨hold, heq⟩)).2.2.1
    · refine hfirst (Option.eq_none_iff_forall_ne_some.mpr fun o ho => ?_)
      obtain ⟨hmem, heq⟩ := (hget _ _).mp ho
      exact hnone o hmem heq
  · intro old hold
    obtain ⟨heq, hold'⟩ | hne := hcases old hold
    · exact ⟨new, hmem.mpr (.inl rfl), hid.trans heq.symm, (hnext old hold').2.2.2⟩
    · exact ⟨old, hmem.mpr (.inr ⟨hold, hne⟩), rfl, List.Subset.refl _⟩
  · intro entry hentry ref href
    obtain rfl | ⟨hentry, -⟩ := hmem.mp hentry
    · obtain hknown' | ⟨o, ho, href⟩ := hgrounded ref href
      · exact .inl (by_contra fun hno => hknown ⟨ref, hknown', hno⟩)
      · exact .inr ⟨o, ((hget _ _).mp ho).1, ((hget _ _).mp ho).2.trans hid.symm, href⟩
    · exact .inr ⟨entry, hentry, rfl, href⟩

end

/-! ### Histories of changes -/

/-- A change proposed to a playbook: a rejected one leaves it as it is. -/
def editPlaybook (c : DeltaCall) (entries : List PlaybookEntry) :
    Except Failure (List PlaybookEntry) × List PlaybookEntry :=
  match applyDelta entries c with
  | .ok result => (.ok result, result)
  | .error failure => (.error failure, entries)

section

variable {base entries s : List PlaybookEntry} {c : DeltaCall}
  {h : List (Entry (List PlaybookEntry) DeltaCall (Except Failure (List PlaybookEntry)))}

/-- What a playbook keeps of an entry: a newer one of the same id, with the evidence of the old one,
and the old one itself if it is protected or deprecated. -/
def Retains (s : List PlaybookEntry) (entry : PlaybookEntry) : Prop :=
  (entry.isProtected = true ∨ entry.deprecated = true → entry ∈ s) ∧
    ∃ new ∈ s, new.entryId = entry.entryId ∧ entry.revision ≤ new.revision ∧
      entry.evidence ⊆ new.evidence

/-- An accepted change retains what its base retains. -/
theorem Revises.retains {before after : List PlaybookEntry} {entry : PlaybookEntry}
    (hrevises : Revises before c after) (h : Retains before entry) : Retains after entry := by
  obtain ⟨hkept, old, hold, hid, hrevision, hevidence⟩ := h
  refine ⟨fun hclosed => hrevises.kept entry (hkept hclosed) hclosed, ?_⟩
  by_cases hnamed : old.entryId = c.delta.entryId
  · obtain ⟨new, hnew, hnewId, hnext, -⟩ := hrevises.revision
    obtain ⟨new', hnew', hnewId', hgrows⟩ := hrevises.evidence old hold
    have hids : (after.map (·.entryId)).Nodup := hrevises.sorted.imp ne_of_lt
    obtain rfl : new' = new := List.inj_on_of_nodup_map hids hnew' hnew
      (hnewId'.trans (hnamed.trans hnewId.symm))
    refine ⟨new', hnew, hnewId'.trans hid, ?_,
      List.Subset.trans hevidence hgrows⟩
    rw [hnext old hold hnamed]
    exact hrevision.trans (Int.le_add_one le_rfl)
  · exact ⟨old, (hrevises.others old hnamed).mpr hold, hid, hrevision, hevidence⟩

/-- What an entry of a history says of the change it records. -/
def Edited (e : Entry (List PlaybookEntry) DeltaCall (Except Failure (List PlaybookEntry))) :
    Prop :=
  match e.reply with
  | .ok result => e.after = result ∧ Revises e.before e.op result
  | .error _ => e.after = e.before

theorem edited_perform (entries : List PlaybookEntry) (c : DeltaCall) :
    Edited (Entry.perform editPlaybook entries c) := by
  rw [Edited, Entry.perform, editPlaybook]
  cases happly : applyDelta entries c with
  | ok result => exact ⟨rfl, applyDelta_spec happly⟩
  | error failure => rfl

theorem retains_editPlaybook {entry : PlaybookEntry} (h : Retains entries entry) :
    Retains (editPlaybook c entries).2 entry := by
  rw [editPlaybook]
  cases happly : applyDelta entries c with
  | ok result => exact (applyDelta_spec happly).retains h
  | error failure => exact h

/-- **Changes of a playbook.** Whatever the entries are at first, in every history of proposed
changes an accepted one gives the playbook that it replies and does no more than `Revises` lets it,
and a rejected one changes nothing; and what was there before any of them is retained to the
end. -/
theorem playbook_law (hr : Run editPlaybook base h s) :
    (∀ e ∈ h, Edited e) ∧ ∀ e ∈ h, ∀ entry ∈ e.before, Retains s entry := by
  refine ⟨fun e he => ?_, fun e he entry hentry => ?_⟩
  · rw [hr.eq_perform he]
    exact edited_perform _ _
  · obtain ⟨h₁, h₂, rfl⟩ := List.append_of_mem he
    have hretains : Retains e.before entry :=
      ⟨fun _ => hentry, entry, hentry, rfl, le_rfl, List.Subset.refl _⟩
    exact hr.onFrom.inv_state (I := fun s => Retains s entry) hretains fun _ _ =>
      retains_editPlaybook

end

/-- A playbook of one protected entry. -/
def house : List PlaybookEntry :=
  [{ entryId := "house", revision := 3, scope := "s", text := "Run the tests.", evidence := ["e0"],
     isProtected := true }]

/-- A change of that playbook, with two references known. -/
def houseCall (operation : DeltaOperation) (entryId : String) (revision : ℤ) (text : String)
    (evidence : List String) : DeltaCall :=
  { delta := ⟨operation, entryId, some revision, "s", text, evidence⟩
    expectedRelease := "r1", actualRelease := "r1", permittedScope := "s"
    knownEvidence := ["e1", "e2"], maxChars := some 40 }

/-- An entry is added, repeats the text of another in vain, is refined and deprecated, and cannot
be refined again; nor can the protected one. -/
def houseCalls : List DeltaCall :=
  [houseCall .add "a" 0 "Pin versions." ["e1"],
   houseCall .refine "a" 1 " Run the tests. " ["e1"],
   houseCall .refine "a" 1 "Pin all versions." ["e1", "e2"],
   houseCall .deprecate "a" 2 "" ["e2"],
   houseCall .refine "a" 3 "Pin some." ["e1"],
   houseCall .refine "house" 3 "Skip the tests." ["e1"]]

theorem playbook_law_house :
    (exec editPlaybook house houseCalls).2 =
      { entryId := "a", revision := 3, scope := "s", text := "Pin all versions.",
        evidence := ["e1", "e2"], deprecated := true } :: house ∧
    (∀ e ∈ (exec editPlaybook house houseCalls).1, Edited e) ∧
    ∀ e ∈ (exec editPlaybook house houseCalls).1, ∀ entry ∈ e.before,
      Retains (exec editPlaybook house houseCalls).2 entry :=
  ⟨by decide, playbook_law (run_exec editPlaybook house houseCalls)⟩

end Memory

end CyranoAgent
