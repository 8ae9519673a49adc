import CyranoAgent.Contracts.FixedPoint
import CyranoAgent.Events.Recovery
import CyranoAgent.Events.Timeline
import CyranoAgent.Sqlite.Artifacts

/-!
# What a recovery leaves

`recoverOrphans` records a terminal event of every attempt of a stream that was started and has
none (`mem_orphanAttemptIds_iff`), and reads the stream again the next time. The event ends the
attempt only if it is read back as one of this attempt (`recovers_iff`): the id must be one that the
canonical form leaves alone, and no other scope may have stored the same payload before, since a
body is stored once and read by its first scope only.
-/

namespace CyranoAgent

open Lib Lib.Action
open Query (EventRow Ending allRows eventRow decodePayload)

/-! ### Which attempts are orphans -/

section

variable {B : Builtins} {rows : List EventRow} {row : EventRow} {k : String}

/-- The row is about the attempt. -/
def About (B : Builtins) (k : String) (row : EventRow) : Prop :=
  attemptKey? B row.payload = some k

instance (B : Builtins) (k : String) : DecidablePred (About B k) := fun _ =>
  inferInstanceAs (Decidable (_ = _))

/-- A row of this kind ends an attempt. -/
def IsTerminal (kind : String) : Prop := kind = "model.finished" ∨ kind = "model.failed"

instance : DecidablePred IsTerminal := fun _ => inferInstanceAs (Decidable (_ ∨ _))

/-- **An orphan**: an attempt that was started and has no terminal event. -/
structure Orphan (B : Builtins) (rows : List EventRow) (k : String) : Prop where
  started : ∃ row ∈ rows, row.kind = "model.attempt_started" ∧ About B k row
  unended : ∀ row ∈ rows, IsTerminal row.kind → ¬About B k row

namespace Pairing

variable (p : Pairing)

/-- One row names its attempt. -/
theorem mem_order_step : k ∈ (p.step B row).order ↔ k ∈ p.order ∨ About B k row := by
  rw [Pairing.step, About]
  rcases attemptKey? B row.payload with _ | key
  · simp
  have horder : k ∈ (if key ∈ p.order then p.order else p.order ++ [key]) ↔
      k ∈ p.order ∨ some key = some k := by
    rw [Option.some.injEq]
    split
    · next hmem => exact ⟨.inl, fun h => h.elim id fun heq => heq ▸ hmem⟩
    · rw [List.mem_append, List.mem_singleton, eq_comm]
  dsimp only
  split
  · exact horder
  · split <;> exact horder

theorem nodup_order_step (hp : p.order.Nodup) : (p.step B row).order.Nodup := by
  rw [Pairing.step]
  rcases attemptKey? B row.payload with _ | key
  · exact hp
  have horder : (if key ∈ p.order then p.order else p.order ++ [key]).Nodup := by
    split
    · exact hp
    · next hmem =>
      refine List.nodup_append.mpr ⟨hp, List.nodup_singleton _, fun a ha b hb heq => hmem ?_⟩
      exact List.mem_singleton.mp hb ▸ heq ▸ ha
  dsimp only
  split
  · exact horder
  · split <;> exact horder

/-- One row starts its attempt, if it is a start. -/
theorem isSome_started_step : ((p.step B row).started k).isSome = true ↔
    (p.started k).isSome = true ∨ (row.kind = "model.attempt_started" ∧ About B k row) := by
  rw [Pairing.step, About]
  rcases attemptKey? B row.payload with _ | key
  · simp
  dsimp only
  split
  · next hstart =>
    dsimp only
    rw [Option.some.injEq, and_iff_right hstart, Function.update_apply]
    split
    · next heq => simp [heq]
    · next hne => simp [Ne.symm hne]
  · next hstart => split <;> simp [hstart]

/-- One row ends its attempt, if it is an end. -/
theorem isSome_finished_step : ((p.step B row).finished k).isSome = true ↔
    (p.finished k).isSome = true ∨ (IsTerminal row.kind ∧ About B k row) := by
  rw [Pairing.step, About]
  rcases attemptKey? B row.payload with _ | key
  · simp
  dsimp only
  split
  · next hstart => simp [IsTerminal, hstart]
  · split
    · next hend =>
      dsimp only
      rw [Option.some.injEq, and_iff_right (show IsTerminal row.kind from hend),
        Function.update_apply]
      split
      · next heq => simp [heq]
      · next hne => simp [Ne.symm hne]
    · next hend => simp [show ¬IsTerminal row.kind from hend]

end Pairing

/-- What the pairing of rows holds. -/
theorem pairing_spec (B : Builtins) (rows : List EventRow) :
    (pairing B rows).order.Nodup ∧ ∀ k,
      (k ∈ (pairing B rows).order ↔ ∃ row ∈ rows, About B k row) ∧
      (((pairing B rows).started k).isSome = true ↔
        ∃ row ∈ rows, row.kind = "model.attempt_started" ∧ About B k row) ∧
      (((pairing B rows).finished k).isSome = true ↔
        ∃ row ∈ rows, IsTerminal row.kind ∧ About B k row) := by
  induction rows using List.reverseRecOn with
  | nil => simp [pairing]
  | append_singleton rows row ih =>
    have hstep : pairing B (rows ++ [row]) = (pairing B rows).step B row := by
      rw [pairing, List.foldl_append]
      rfl
    obtain ⟨hnodup, hspec⟩ := ih
    rw [hstep]
    refine ⟨Pairing.nodup_order_step _ hnodup, fun k => ?_⟩
    obtain ⟨horder, hstarted, hfinished⟩ := hspec k
    simp only [Pairing.mem_order_step, Pairing.isSome_started_step, Pairing.isSome_finished_step,
      horder, hstarted, hfinished, List.mem_append, List.mem_singleton, or_and_right, exists_or,
      exists_eq_left, and_self]

/-- **The orphans that `reconcile_attempts` reports** are those of the rows. -/
theorem mem_orphanAttemptIds_iff :
    k ∈ (reconcileAttempts B rows).orphanAttemptIds ↔ Orphan B rows k := by
  obtain ⟨-, hspec⟩ := pairing_spec B rows
  obtain ⟨horder, hstarted, hfinished⟩ := hspec k
  rw [mem_orphanAttemptIds, horder, hstarted, ← Option.not_isSome_iff_eq_none, hfinished]
  constructor
  · rintro ⟨-, hstart, hend⟩
    exact ⟨hstart, fun row hrow hterminal habout => hend ⟨row, hrow, hterminal, habout⟩⟩
  · rintro ⟨⟨row, hrow, hstart, habout⟩, hend⟩
    exact ⟨⟨row, hrow, habout⟩, ⟨row, hrow, hstart, habout⟩,
      fun ⟨row', hrow', hterminal, habout'⟩ => hend row' hrow' hterminal habout'⟩

theorem nodup_orphanAttemptIds : (reconcileAttempts B rows).orphanAttemptIds.Nodup :=
  (pairing_spec B rows).1.filter _

end

/-! ### The id in a payload -/

section

variable {P : Primitives} {W : WordChars} {k : String}

/-- Redaction keeps the entries of a mapping under their keys. -/
theorem mem_redactEntries {depth : ℕ} {entries : PayloadMapping} {out : PyMapping × Bool}
    (h : redactEntries W depth entries = .ok out) {key text : String}
    (hmem : (.str key, .str text) ∈ entries) : (.str key, .str (redactText W text).1) ∈ out.1 := by
  induction entries generalizing out with
  | nil => exact absurd hmem List.not_mem_nil
  | cons entry rest ih =>
    obtain ⟨_ | key', item⟩ := entry
    rotate_left
    · rw [redactEntries] at h
      cases h
    rw [redactEntries] at h
    rcases hitem : redactPayload W (depth + 1) item with e | ⟨cleaned, hit⟩
    · simp [hitem] at h
    rcases hrest : redactEntries W depth rest with e | ⟨out', found⟩
    · simp [hitem, hrest] at h
    rw [hitem, hrest] at h
    obtain rfl := Except.ok.inj h
    rcases List.mem_cons.mp hmem with heq | hmem
    · obtain ⟨hkey, rfl⟩ := Prod.mk.inj heq
      rw [redactPayload] at hitem
      split at hitem
      · cases hitem
      · obtain ⟨rfl, -⟩ := Prod.mk.inj (Except.ok.inj hitem)
        rw [hkey]
        exact List.mem_cons_self
    · exact List.mem_cons_of_mem _ (ih hrest hmem)

/-- Another key of a mapping keeps its value. -/
theorem PyMapping.mem_set {mapping : PyMapping} {key key' : String} {value value' : PyValue}
    (hne : key ≠ key') (hmem : (.str key, value) ∈ mapping) :
    (.str key, value) ∈ PyMapping.set mapping key' value' := by
  rw [PyMapping.set]
  split
  · refine List.mem_map.mpr ⟨_, hmem, if_neg fun heq => hne ?_⟩
    exact PyKey.str.inj heq
  · exact List.mem_append_left _ hmem

/-- An id is written as it is redacted. -/
theorem mem_admitted {reprText : String → String} {call : EventCall} {clean : PyMapping}
    (h : DomainSink.admitted W reprText call = .ok clean)
    (hmem : (.str "attempt_id", .str k) ∈ call.payload) :
    (.str "attempt_id", .str (redactText W k).1) ∈ clean := by
  rw [DomainSink.admitted] at h
  obtain ⟨_, -, h⟩ := except_bind_eq_ok.mp h
  obtain ⟨_, -, h⟩ := except_bind_eq_ok.mp h
  obtain ⟨⟨out, redacted⟩, hout, h⟩ := except_bind_eq_ok.mp h
  have hkept := mem_redactEntries hout hmem
  obtain rfl := Except.ok.inj h
  split
  · exact PyMapping.mem_set (by decide) hkept
  · exact hkept

/-- The members of a normalised mapping are its entries, normalised. -/
theorem mem_normalizeEntries {entries : PyMapping} {result members : List (String × Json)}
    (h : normalizeEntries P result entries = .ok members) :
    (∀ member ∈ result, member ∈ members) ∧ ∀ key value, (.str key, value) ∈ entries →
      ∃ v, normalize P value = .ok v ∧ (P.nfc key, v) ∈ members := by
  induction entries generalizing result with
  | nil =>
    rw [normalizeEntries] at h
    obtain rfl := Except.ok.inj h
    exact ⟨fun _ => id, fun _ _ hmem => absurd hmem List.not_mem_nil⟩
  | cons entry rest ih =>
    obtain ⟨_ | key, item⟩ := entry
    rotate_left
    · rw [normalizeEntries] at h
      cases h
    rw [normalizeEntries] at h
    split at h
    · cases h
    rcases hitem : normalize P item with e | v
    · simp [hitem] at h
    rw [hitem] at h
    obtain ⟨hkept, hrest⟩ := ih h
    refine ⟨fun member hmember => hkept _ (List.mem_append_left _ hmember), ?_⟩
    intro key' value hmem
    rcases List.mem_cons.mp hmem with heq | hmem
    · obtain ⟨hkey, rfl⟩ := Prod.mk.inj heq
      obtain rfl := PyKey.str.inj hkey
      exact ⟨v, hitem, hkept _ List.mem_concat_self⟩
    · exact hrest key' value hmem

/-- **Canonical bytes are read back** with the values of their mapping, normalised. -/
theorem loads_canonicalBytes {entries : PyMapping} {body : ByteArray} {key text : String}
    (h : canonicalBytes P (.dict entries) = .ok body) (hkey : ∀ c ∈ key.toList, c.val < 128)
    (hmem : (.str key, .str text) ∈ entries) :
    ∃ mapping, jsonLoadsBytes body = some (.dict mapping) ∧
      PyMapping.get? mapping key = some (.str (normalizeText P text)) := by
  obtain ⟨v, hv⟩ := (canonicalBytes_isOk P).mp ⟨body, h⟩
  rw [canonicalBytes, hv] at h
  obtain rfl := Except.ok.inj h
  have hnormal := (normal_of_normalize _ v hv).sorted
  rw [jsonLoadsBytes_toByteArray, dumps_eq_plain, jsonLoads_plain hnormal]
  rw [normalize_dict] at hv
  rcases hmembers : normalizeEntries P [] entries with e | members
  · rw [hmembers] at hv
    cases hv
  rw [hmembers] at hv
  obtain rfl := Except.ok.inj hv
  obtain ⟨v, hv, hmem⟩ := (mem_normalizeEntries hmembers).2 key _ hmem
  rw [normalize_str] at hv
  obtain rfl := Except.ok.inj hv
  rw [P.nfc_ascii key hkey] at hmem
  rw [Json.sorted_obj] at hnormal ⊢
  refine ⟨_, rfl, ?_⟩
  have hsorted : (key, Json.str (normalizeText P text)) ∈
      ((members.map fun member => (member.1, member.2.sorted)).insertionSort
        fun a b => a.1 ≤ b.1) :=
    (List.mem_insertionSort _).mpr (List.mem_map.mpr ⟨_, hmem, rfl⟩)
  rw [Json.toPyMembers_eq_map, PyMapping.get?, List.find?_map]
  have hfind := Rows.find?_key (Json.normal_obj.mp hnormal).1 hsorted
  simp only [Function.comp_def, PyKey.str.injEq, hfind, Option.map_some, Json.toPy]

end

/-! ### What a recovery writes -/

namespace DomainSink

section

variable (B : Builtins) (P : Primitives) (W : WordChars) (reprText : String → String)
  (scopeId streamId : String) (remoteCheck : String → Except Failure (Option PyMapping))

/-- The event that is recorded of an attempt, by its receipt. -/
def terminalCall (seq : ℤ) (k : String) (receipt : Option PyMapping) : EventCall :=
  match completed? receipt with
  | some receipt => finishedCall B scopeId streamId seq k receipt
  | none => unknownCall scopeId streamId seq k

/-- The payload that is stored of the terminal event of an attempt. -/
def terminalBody (k : String) : Except Failure ByteArray := do
  let receipt ← remoteCheck k
  let call := terminalCall B scopeId streamId 0 k receipt
  let clean ← admitted W reprText call
  canonicalBytes P (.dict (clean.set "event_type" (.str call.eventType)))

/-- **What a recovery leaves**: after the events there were, one terminal event of each attempt,
with its payload, which is stored for the scope if its digest was not there before. -/
structure Recovered (L L' : Ledger) (ks : List String) (bodies : List ByteArray) : Prop where
  ordered : L'.OrderedLog
  stored : List.Forall₂
    (fun k body => terminalBody B P W reprText scopeId streamId remoteCheck k = .ok body) ks bodies
  events : ∃ new, L'.events = L.events ++ new ∧ List.Forall₂ (fun k ev =>
    ev.streamId = streamId ∧ IsTerminal ev.kind ∧ ∃ body,
      terminalBody B P W reprText scopeId streamId remoteCheck k = .ok body ∧
        ev.payloadDigest = rawDigest body) ks new
  blobs : ∀ digest, L'.eventBlobs.find? (fun row => row.rawDigest = digest) =
    (L.eventBlobs.find? fun row => row.rawDigest = digest).or
      ((bodies.find? fun body => rawDigest body = digest).map fun body =>
        blobRow (scopeId, body))

end

variable {B : Builtins} {P : Primitives} {W : WordChars} {reprText : String → String}
  {scopeId streamId : String} {remoteCheck : String → Except Failure (Option PyMapping)}
  {L L' : Ledger} {seq : ℤ} {k : String} {ks : List String} {bodies : List ByteArray}
  {report : RecoveryReport}

/-- The producer sequences of the observer are below this one. -/
def Below (L : Ledger) (seq : ℤ) : Prop :=
  ∀ ev ∈ L.events, ev.producer = "native_observer" → ev.producerSeq < seq

theorem below_nextProducerSeq (L : Ledger) : Below L (nextProducerSeq L "native_observer") := by
  intro ev hev hproducer
  have hmem : ev.producerSeq ∈
      (L.events.filter fun ev => ev.producer = "native_observer").map (·.producerSeq) :=
    List.mem_map.mpr ⟨ev, List.mem_filter.mpr ⟨hev, by simpa using hproducer⟩, rfl⟩
  rw [nextProducerSeq]
  rcases hmax : ((L.events.filter fun ev => ev.producer = "native_observer").map
      (·.producerSeq)).max? with _ | last
  · rw [List.max?_eq_none_iff] at hmax
    exact absurd hmem (hmax ▸ List.not_mem_nil)
  · have hle := (List.max?_eq_some_iff.mp hmax).2 _ hmem
    rw [hmax]
    exact Int.lt_add_one_of_le hle

/-- An event under a new producer sequence is an observation that was not there. -/
theorem recordEvent_fresh {call : EventCall} {n : ℕ}
    (h : (recordEvent P W reprText call).run L = (.ok n, L'))
    (hfresh : L.observed? call.producer call.producerSeq = none) :
    ∃ clean eventId body, admitted W reprText call = .ok clean ∧
      canonicalBytes P (.dict (clean.set "event_type" (.str call.eventType))) = .ok body ∧
      Repository.Recorded P L (observation call clean "trusted") eventId body ∧
      L' = L.observe (observation call clean "trusted") eventId body := by
  obtain ⟨clean, hclean, hwrite⟩ := recordEvent_eq_ok.mp h
  rcases write_eq_ok.mp hwrite with ⟨hrepeats, -⟩ | ⟨eventId, body, hrecorded, -, rfl⟩
  · obtain ⟨-, -, _, old, -, hold, -⟩ := hrepeats
    exact absurd (hold.symm.trans hfresh) (by simp)
  · exact ⟨clean, eventId, body, hclean, hrecorded.bytes_payload, hrecorded, rfl⟩

/-- One attempt: its terminal event is recorded. -/
theorem recoverOne_spec {finished : Bool} (hseq : Below L seq)
    (h : (recoverOne B P W reprText scopeId streamId remoteCheck seq k).run L =
      (.ok finished, L')) :
    ∃ o eventId body, o.scopeId = scopeId ∧ o.streamId = streamId ∧
      o.producer = "native_observer" ∧ o.producerSeq = seq ∧ IsTerminal o.kind ∧
      terminalBody B P W reprText scopeId streamId remoteCheck k = .ok body ∧
      Repository.Recorded P L o eventId body ∧ L' = L.observe o eventId body := by
  rw [recoverOne, bind_eq_ok] at h
  obtain ⟨receipt, mid, hlift, h⟩ := h
  obtain ⟨hreceipt, rfl⟩ := lift_eq_ok.mp hlift
  obtain ⟨n, hrecord⟩ : ∃ n, (recordEvent P W reprText
      (terminalCall B scopeId streamId seq k receipt)).run L = (.ok n, L') := by
    rw [terminalCall]
    rcases hcompleted : completed? receipt with _ | receipt <;> rw [hcompleted] at h <;>
    · obtain ⟨n, mid, hrecord, h⟩ := bind_eq_ok.mp h
      rw [run_pure] at h
      obtain ⟨-, rfl⟩ := Prod.mk.inj h
      exact ⟨n, hrecord⟩
  have hcall : (terminalCall B scopeId streamId seq k receipt).producer = "native_observer" ∧
      (terminalCall B scopeId streamId seq k receipt).producerSeq = seq ∧
      IsTerminal (terminalCall B scopeId streamId seq k receipt).eventType ∧
      (terminalCall B scopeId streamId seq k receipt).scopeId = scopeId ∧
      (terminalCall B scopeId streamId seq k receipt).streamId = streamId := by
    rw [terminalCall]
    rcases completed? receipt with _ | receipt
    · exact ⟨rfl, rfl, .inr rfl, rfl, rfl⟩
    · exact ⟨rfl, rfl, .inl rfl, rfl, rfl⟩
  obtain ⟨hproducer, hproducerSeq, hterminal, hscope, hstream⟩ := hcall
  obtain ⟨clean, eventId, body, hclean, hbody, hrecorded, rfl⟩ := recordEvent_fresh hrecord (by
    rw [Ledger.observed?_eq_none, hproducer, hproducerSeq]
    exact fun ev hev hsame heq => (hseq ev hev hsame).ne heq)
  refine ⟨_, eventId, body, hscope, hstream, hproducer, hproducerSeq, hterminal, ?_, hrecorded, rfl⟩
  -- neither the checks nor the payload depend on the producer sequence
  have hsame : admitted W reprText (terminalCall B scopeId streamId 0 k receipt) =
        admitted W reprText (terminalCall B scopeId streamId seq k receipt) ∧
      (terminalCall B scopeId streamId 0 k receipt).eventType =
        (terminalCall B scopeId streamId seq k receipt).eventType := by
    rw [terminalCall, terminalCall]
    rcases completed? receipt with _ | receipt <;> exact ⟨rfl, rfl⟩
  rw [terminalBody, hreceipt]
  change (admitted W reprText (terminalCall B scopeId streamId 0 k receipt) >>= _) = _
  rw [hsame.1, hclean]
  change canonicalBytes P (.dict (clean.set "event_type" (.str _))) = _
  rw [hsame.2, hbody]

/-- **The loop of a recovery** leaves a terminal event of each attempt it is given. -/
theorem recovered_of_recoverEach (hL : L.OrderedLog) (hseq : Below L seq)
    (h : (recoverEach B P W reprText scopeId streamId remoteCheck seq ks).run L =
      (.ok report, L')) :
    ∃ bodies, Recovered B P W reprText scopeId streamId remoteCheck L L' ks bodies := by
  induction ks generalizing seq L report with
  | nil =>
    obtain ⟨-, rfl⟩ : report = ⟨[], []⟩ ∧ L' = L := by
      simpa [recoverEach, eq_comm] using h
    exact ⟨[], hL, .nil, ⟨[], by simp⟩, fun digest => by simp⟩
  | cons k ks ih =>
    rw [recoverEach, bind_eq_ok] at h
    obtain ⟨finished, mid, hone, h⟩ := h
    obtain ⟨report', last, heach, h⟩ := bind_eq_ok.mp h
    rw [run_pure] at h
    obtain ⟨-, rfl⟩ := Prod.mk.inj h
    obtain ⟨o, eventId, body, hscope, hstream, hproducer, hproducerSeq, hterminal, hbody,
      hrecorded, rfl⟩ := recoverOne_spec hseq hone
    have hordered : (L.observe o eventId body).OrderedLog :=
      hL.append rfl rfl hrecorded.fresh_event hrecorded.fresh_seq
    have hbelow : Below (L.observe o eventId body) (seq + 1) := by
      intro ev hev hsame
      rcases List.mem_append.mp hev with hev | hev
      · exact (hseq ev hev hsame).trans (Int.lt_succ seq)
      · rw [List.mem_singleton.mp hev]
        change o.producerSeq < seq + 1
        rw [hproducerSeq]
        exact Int.lt_succ seq
    obtain ⟨bodies, hrest⟩ := ih hordered hbelow heach
    obtain ⟨new, hnew, hforall⟩ := hrest.events
    refine ⟨body :: bodies, hrest.ordered, .cons hbody hrest.stored, ?_, fun digest => ?_⟩
    · refine ⟨_, hnew.trans (List.append_assoc _ _ _), .cons ?_ hforall⟩
      exact ⟨hstream, hterminal, body, hbody, rfl⟩
    · rw [hrest.blobs digest]
      change ((Rows.insertOrIgnore _ _ L.eventBlobs).find? _).or _ = _
      rw [Rows.find?_insertOrIgnore, Option.or_assoc, List.find?_cons]
      by_cases hdigest : rawDigest body = digest
      · simp [hdigest, hscope, blobRow]
      · simp [hdigest]

/-- **What a recovery leaves** of the orphans it read. -/
theorem recovered_of_recoverOrphans {query : String → String → List EventRow × Ending}
    {rows : List EventRow} (hL : L.OrderedLog) (hrows : collect (query scopeId streamId) = .ok rows)
    (h : (recoverOrphans B P W reprText query scopeId streamId remoteCheck).run L =
      (.ok report, L')) :
    ∃ bodies, Recovered B P W reprText scopeId streamId remoteCheck L L'
      (reconcileAttempts B rows).orphanAttemptIds bodies := by
  rw [recoverOrphans, bind_eq_ok] at h
  obtain ⟨rows', mid, hlift, h⟩ := h
  obtain ⟨hread, rfl⟩ := lift_eq_ok.mp hlift
  obtain rfl := Except.ok.inj (hread.symm.trans hrows)
  obtain ⟨M, mid, hget, h⟩ := bind_eq_ok.mp h
  obtain ⟨rfl, rfl⟩ : M = L ∧ mid = L := by simpa [eq_comm] using hget
  exact recovered_of_recoverEach hL (below_nextProducerSeq _) h

/-! ### Reading the stream again -/

section

variable (B : Builtins) (P : Primitives) (W : WordChars) (reprText : String → String)
  (scopeId streamId : String) (remoteCheck : String → Except Failure (Option PyMapping))

/-- The attempt whose event the terminal event of an attempt is read as. -/
def readBack (L' : Ledger) (k : String) : Option String :=
  match terminalBody B P W reprText scopeId streamId remoteCheck k with
  | .ok body => attemptKey? B (decodePayload P L' scopeId (rawDigest body))
  | .error _ => none

end

/-- The digest of a body is in the table already, and its row is of another scope. -/
def StoredElsewhere (L : Ledger) (scopeId : String) (body : ByteArray) : Prop :=
  ∃ row, L.eventBlobs.find? (fun row => row.rawDigest = rawDigest body) = some row ∧
    row.scopeId ≠ scopeId

/-- Terminal events are read as the events of the attempts they are read back as. -/
theorem map_attemptKey?_eq (L' : Ledger) {events : List Event}
    (h : List.Forall₂ (fun k ev => ev.streamId = streamId ∧ IsTerminal ev.kind ∧ ∃ body,
      terminalBody B P W reprText scopeId streamId remoteCheck k = .ok body ∧
        ev.payloadDigest = rawDigest body) ks events) :
    (∀ ev ∈ events, ev.streamId = streamId ∧ IsTerminal ev.kind) ∧
      events.map (fun ev => attemptKey? B (decodePayload P L' scopeId ev.payloadDigest)) =
        ks.map (readBack B P W reprText scopeId streamId remoteCheck L') := by
  induction h with
  | nil => exact ⟨fun _ hev => absurd hev List.not_mem_nil, rfl⟩
  | cons hone _ ih =>
    obtain ⟨hstream, hterminal, body, hbody, hdigest⟩ := hone
    refine ⟨List.forall_mem_cons.mpr ⟨⟨hstream, hterminal⟩, ih.1⟩, ?_⟩
    rw [List.map_cons, List.map_cons, ih.2, readBack, hbody, hdigest]

/-- A body that was stored is read as before. -/
theorem Recovered.decodePayload_eq
    (hrec : Recovered B P W reprText scopeId streamId remoteCheck L L' ks bodies)
    {digest : String} (h : ∃ row,
      L.eventBlobs.find? (fun row => row.rawDigest = digest) = some row) :
    decodePayload P L' scopeId digest = decodePayload P L scopeId digest := by
  obtain ⟨row, hrow⟩ := h
  rw [decodePayload, decodePayload, Repository.readArtifact, Repository.readArtifact,
    hrec.blobs digest, hrow, Option.some_or]

/-- **The rows of the stream after a recovery**: those there were, and terminal rows, which are read
as the events of some attempts. -/
theorem Recovered.allRows_eq
    (hrec : Recovered B P W reprText scopeId streamId remoteCheck L L' ks bodies)
    (hL : L.OrderedLog) (hstored : ∀ ev ∈ L.events, ∃ row,
      L.eventBlobs.find? (fun row => row.rawDigest = ev.payloadDigest) = some row) :
    ∃ new, allRows P L' scopeId streamId = allRows P L scopeId streamId ++ new ∧
      (∀ row ∈ new, IsTerminal row.kind) ∧
      new.map (fun row => attemptKey? B row.payload) =
        ks.map (readBack B P W reprText scopeId streamId remoteCheck L') := by
  obtain ⟨events, hevents, hforall⟩ := hrec.events
  obtain ⟨hnew, hkeys⟩ := map_attemptKey?_eq L' hforall
  have hall : L'.eventsOf streamId = L.eventsOf streamId ++ events := by
    have hself : (events.filter fun ev => ev.streamId = streamId) = events :=
      List.filter_eq_self.mpr fun ev hev => by simpa using (hnew ev hev).1
    rw [Ledger.eventsOf, Ledger.eventsOf, hevents, List.filter_append, hself]
  refine ⟨events.map (eventRow P L' scopeId), ?_, ?_, ?_⟩
  · rw [allRows, allRows, Query.commitOrder_eq hrec.ordered, Query.commitOrder_eq hL, hall,
      List.map_append]
    refine congrArg (· ++ _) (List.map_congr_left fun ev hev => ?_)
    have hpayload := hrec.decodePayload_eq (hstored ev (Ledger.mem_eventsOf.mp hev).1)
    rw [eventRow, eventRow, hpayload]
  · intro row hrow
    obtain ⟨ev, hev, rfl⟩ := List.mem_map.mp hrow
    exact (hnew ev hev).2
  · rw [List.map_map, ← hkeys]
    rfl

/-- The payload of a terminal event is read back with the id of its attempt. -/
theorem loads_terminalBody {body : ByteArray}
    (h : terminalBody B P W reprText scopeId streamId remoteCheck k = .ok body) :
    ∃ mapping, jsonLoadsBytes body = some (.dict mapping) ∧
      PyMapping.get? mapping "attempt_id" = some (.str (normalizeText P (redactText W k).1)) := by
  rw [terminalBody] at h
  obtain ⟨receipt, -, h⟩ := except_bind_eq_ok.mp h
  obtain ⟨clean, hclean, h⟩ := except_bind_eq_ok.mp h
  refine loads_canonicalBytes h (by simp) (PyMapping.mem_set (by decide) ?_)
  refine mem_admitted hclean ?_
  rw [terminalCall]
  rcases completed? receipt with _ | receipt <;> exact List.mem_cons_self

/-- **What the terminal event of an attempt is read as**: nothing, if another scope has stored its
payload, and else the attempt whose id is the canonical form of this one's. -/
theorem Recovered.readBack_eq
    (hrec : Recovered B P W reprText scopeId streamId remoteCheck L L' ks bodies)
    (hloads : P.loads = jsonLoadsBytes) {body : ByteArray}
    (hbody : terminalBody B P W reprText scopeId streamId remoteCheck k = .ok body)
    (hmem : body ∈ bodies)
    (hold : ∀ row ∈ L.eventBlobs, row.rawDigest = rawDigest body → row.body = body)
    (hnew : ∀ body' ∈ bodies, rawDigest body' = rawDigest body → body' = body)
    (hredact : (redactText W k).1 = k) (hne : normalizeText P k ≠ "") :
    (StoredElsewhere L scopeId body →
        readBack B P W reprText scopeId streamId remoteCheck L' k = none) ∧
      (¬StoredElsewhere L scopeId body →
        readBack B P W reprText scopeId streamId remoteCheck L' k =
          some (normalizeText P k)) := by
  obtain ⟨mapping, hmapping, hid⟩ := loads_terminalBody hbody
  rw [hredact] at hid
  have hread (h : Repository.readArtifact L' scopeId (rawDigest body) = some body) :
      readBack B P W reprText scopeId streamId remoteCheck L' k = some (normalizeText P k) := by
    simp only [readBack, hbody, decodePayload, h, hloads, hmapping, Option.getD_some, attemptKey?,
      PyMapping.getD, hid, PyValue.truth, B.text_str, decide_eq_true hne, if_true]
  have hblob := hrec.blobs (rawDigest body)
  rcases hrow : L.eventBlobs.find? fun row => row.rawDigest = rawDigest body with _ | row
  · -- the body is one of those the recovery stores, and no other has its digest
    rw [hrow, Option.none_or] at hblob
    obtain ⟨body', hbody'⟩ := Option.isSome_iff_exists.mp (List.find?_isSome.mpr
      (⟨body, hmem, decide_eq_true rfl⟩ :
        ∃ b ∈ bodies, decide (rawDigest b = rawDigest body) = true))
    obtain rfl := hnew body' (List.mem_of_find?_eq_some hbody')
      (by simpa using List.find?_some hbody')
    refine ⟨?_, fun _ => hread ?_⟩
    · rintro ⟨row, hfound, -⟩
      rw [hrow] at hfound
      cases hfound
    · rw [Repository.readArtifact, hblob, hbody']
      simp [blobRow]
  · rw [hrow, Option.some_or] at hblob
    have hsame := hold row (List.mem_of_find?_eq_some hrow) (by simpa using List.find?_some hrow)
    refine ⟨?_, fun hnot => hread ?_⟩
    · rintro ⟨row', hfound, hscope⟩
      obtain rfl := Option.some.inj (hrow.symm.trans hfound)
      have hnone : Repository.readArtifact L' scopeId (rawDigest body) = none := by
        rw [Repository.readArtifact, hblob]
        exact if_neg hscope
      simp only [readBack, hbody, decodePayload, hnone]
      rfl
    · have hscope : row.scopeId = scopeId := by
        by_contra hne
        exact hnot ⟨row, hrow, hne⟩
      rw [Repository.readArtifact, hblob]
      simp [hscope, hsame]

end DomainSink

/-! ### Every orphan is ended once -/

/-- **What a recovery is to do** to the rows of a stream: every orphan gets one terminal event, no
other attempt any event, and no orphan is left. -/
structure Ended (B : Builtins) (rows rows' : List EventRow) : Prop where
  gained : ∀ k, Orphan B rows k →
    (rows'.filter fun row => IsTerminal row.kind ∧ About B k row).length = 1
  others : ∀ k, ¬Orphan B rows k → rows'.filter (About B k) = rows.filter (About B k)
  resolved : (reconcileAttempts B rows').orphanAttemptIds = []

section

variable {B : Builtins} {rows new : List EventRow} {ks : List String} {k : String}

/-- The new rows about an attempt are counted by their ids. -/
theorem length_filter_about (new : List EventRow) (k : String) :
    (new.filter (About B k)).length =
      (new.map fun row => attemptKey? B row.payload).count (some k) := by
  rw [← List.countP_eq_length_filter, List.count, List.countP_map]
  refine List.countP_congr fun row _ => ?_
  rw [decide_eq_true_eq, Function.comp_apply, beq_iff_eq, About]

/-- The terminal rows of an orphan are among the new rows. -/
theorem Orphan.filter_append (hk : Orphan B rows k) (hnew : ∀ row ∈ new, IsTerminal row.kind) :
    ((rows ++ new).filter fun row => IsTerminal row.kind ∧ About B k row) =
      new.filter (About B k) := by
  have hold : (rows.filter fun row => IsTerminal row.kind ∧ About B k row) = [] := by
    rw [List.filter_eq_nil_iff]
    intro row hrow
    simpa using hk.unended row hrow
  rw [List.filter_append, hold, List.nil_append]
  exact List.filter_congr fun row hrow => by simp [hnew row hrow]

/-- If every orphan is ended once, the ids of the new rows are those of the orphans. -/
theorem Ended.count_eq (h : Ended B rows (rows ++ new)) (hnew : ∀ row ∈ new, IsTerminal row.kind)
    (hnodup : ks.Nodup) (hks : ∀ k, k ∈ ks ↔ Orphan B rows k) (k : String) :
    (new.map fun row => attemptKey? B row.payload).count (some k) = ks.count k := by
  rw [← length_filter_about]
  by_cases hk : Orphan B rows k
  · have hone := h.gained k hk
    rw [hk.filter_append hnew] at hone
    rw [hone, List.count_eq_one_of_mem hnodup ((hks k).mpr hk)]
  · have hnone := h.others k hk
    rw [List.filter_append, List.append_right_eq_self] at hnone
    rw [hnone, List.length_nil, List.count_eq_zero.mpr fun hmem => hk ((hks k).mp hmem)]

/-- New terminal rows, one of each orphan, end every orphan once. -/
theorem ended_of_map_eq (hnew : ∀ row ∈ new, IsTerminal row.kind) (hnodup : ks.Nodup)
    (hks : ∀ k, k ∈ ks ↔ Orphan B rows k)
    (hkeys : (new.map fun row => attemptKey? B row.payload) = ks.map some) :
    Ended B rows (rows ++ new) := by
  have hcount (k : String) : (new.filter (About B k)).length = ks.count k := by
    rw [length_filter_about, hkeys, List.count_map_of_injective _ _ (Option.some_injective _)]
  have hgained (k : String) (hk : Orphan B rows k) :
      ((rows ++ new).filter fun row => IsTerminal row.kind ∧ About B k row).length = 1 := by
    rw [hk.filter_append hnew, hcount, List.count_eq_one_of_mem hnodup ((hks k).mpr hk)]
  refine ⟨hgained, fun k hk => ?_, ?_⟩
  · rw [List.filter_append, List.append_right_eq_self, ← List.length_eq_zero_iff, hcount,
      List.count_eq_zero]
    exact fun hmem => hk ((hks k).mp hmem)
  · refine List.eq_nil_iff_forall_not_mem.mpr fun k hk => ?_
    have horphan := mem_orphanAttemptIds_iff.mp hk
    obtain ⟨row, hrow, hstart, habout⟩ := horphan.started
    -- no new row is a start, so the attempt was an orphan before
    have hbefore : Orphan B rows k := by
      refine ⟨⟨row, ?_, hstart, habout⟩, fun row' hrow' =>
        horphan.unended row' (List.mem_append_left _ hrow')⟩
      refine (List.mem_append.mp hrow).resolve_right fun hmem => ?_
      rcases hnew row hmem with hkind | hkind <;> rw [hstart] at hkind <;>
        exact absurd hkind (by decide)
    obtain ⟨ended, hended⟩ := List.exists_mem_of_length_pos
      (Nat.lt_of_lt_of_eq Nat.zero_lt_one (hgained k hbefore).symm)
    obtain ⟨hmem, hterminal⟩ := List.mem_filter.mp hended
    have hterminal := of_decide_eq_true hterminal
    exact horphan.unended ended hmem hterminal.1 hterminal.2

end

/-- **Ids that are normalised to themselves**: if normalising some ids gives the same ids again,
every one of them is left as it is. -/
theorem normalizeText_eq_of_perm {P : Primitives} (hP : NfcLaws P) {ks : List String}
    (h : (ks.map (normalizeText P)).Perm ks) : ∀ k ∈ ks, normalizeText P k = k := by
  have hcount (k : String) :
      (normalizeText P k).toList.count '\r' = (crlfToLf k.toList).count '\r' :=
    (hP.line_ends (crlfToLf k.toList)).2
  have hle (k : String) : (normalizeText P k).toList.count '\r' ≤ k.toList.count '\r' :=
    (hcount k).trans_le (count_crlfToLf k.toList).1
  have hsum := (h.map fun k => k.toList.count '\r').sum_eq
  rw [List.map_map] at hsum
  intro k hk
  -- a line end that was replaced would be missing
  have hcrlf : ¬['\r', '\n'] <:+: k.toList := fun hin => by
    refine hsum.not_lt (List.sum_lt_sum _ _ (fun q _ => hle q) ⟨k, hk, ?_⟩)
    exact (hcount k).trans_lt ((count_crlfToLf k.toList).2 hin)
  obtain ⟨q, -, hq⟩ := List.mem_map.mp (h.symm.subset hk)
  rw [normalizeText, crlfToLf_eq_self hcrlf, String.ofList_toList, ← hq, normalizeText, hP.idem]

/-! ### When a recovery ends every orphan -/

/-- Every event of a history has its body stored. -/
theorem exists_blob {P : Primitives} {h : List CallEntry} {L : Ledger} (hr : History P h L)
    {ev : Event} (hev : ev ∈ L.events) :
    ∃ row, L.eventBlobs.find? (fun row => row.rawDigest = ev.payloadDigest) = some row := by
  obtain ⟨scopeId, body, ⟨e, he, -, hstored⟩, hdigest, -⟩ := History.recordedAs hr hev
  have hmem : (scopeId, body) ∈ stored P h := List.mem_filterMap.mpr ⟨e, he, hstored⟩
  obtain ⟨record, hrecord⟩ := Option.isSome_iff_exists.mp (List.find?_isSome.mpr
    (⟨_, hmem, decide_eq_true hdigest.symm⟩ :
      ∃ record ∈ stored P h, decide (rawDigest record.2 = ev.payloadDigest) = true))
  exact ⟨blobRow record, by rw [History.eventBlobs_find? hr, hrecord, Option.map_some]⟩

/-- The id of an attempt is not empty, where no value that counts has an empty text. -/
theorem Orphan.ne_empty {B : Builtins} {rows : List EventRow} {k : String}
    (htext : ∀ v : PyValue, v.truth B = true → B.text v ≠ "") (hk : Orphan B rows k) : k ≠ "" := by
  obtain ⟨row, -, -, habout⟩ := hk.started
  unfold About attemptKey? at habout
  split at habout
  · dsimp only at habout
    split at habout
    · next htruth =>
      rw [← Option.some.inj habout]
      exact htext _ htruth
    · cases habout
  · cases habout

theorem normalizeText_ne_empty {P : Primitives} (hP : NfcLaws P) {s : String} (hs : s ≠ "") :
    normalizeText P s ≠ "" := by
  have hne : crlfToLf s.toList ≠ [] := by
    have hlist : s.toList ≠ [] := fun hnil => hs (String.toList_eq_nil_iff.mp hnil)
    generalize s.toList = l at hlist
    fun_cases crlfToLf l with
    | case1 => exact List.cons_ne_nil _ _
    | case2 => exact List.cons_ne_nil _ _
    | case3 => exact absurd rfl hlist
  intro hempty
  refine hP.ne_nil _ hne ?_
  rw [show P.nfc _ = "" from hempty]
  rfl

namespace DomainSink

section

variable (B : Builtins) (P : Primitives) (W : WordChars) (reprText : String → String)
  (scopeId streamId : String) (remoteCheck : String → Except Failure (Option PyMapping))

/-- Every row of a stream, as `iter_events` is to yield it. -/
def wholeStream (L : Ledger) (scopeId streamId : String) : List EventRow × Ending :=
  (allRows P L scopeId streamId, .returned)

/-- The terminal payloads of some attempts have no digest in common with another stored body, nor
with one another. -/
def BodiesApart (L : Ledger) (ks : List String) : Prop :=
  ∀ k ∈ ks, ∀ body, terminalBody B P W reprText scopeId streamId remoteCheck k = .ok body →
    (∀ row ∈ L.eventBlobs, row.rawDigest = rawDigest body → row.body = body) ∧
    ∀ k' ∈ ks, ∀ body', terminalBody B P W reprText scopeId streamId remoteCheck k' = .ok body' →
      rawDigest body' = rawDigest body → body' = body

end

variable {B : Builtins} {P : Primitives} {W : WordChars} {reprText : String → String}
  {scopeId streamId : String} {remoteCheck : String → Except Failure (Option PyMapping)}
  {L L' : Ledger} {h : List CallEntry} {report : RecoveryReport}

/-- With no orphan there is nothing to write. -/
theorem recoverOrphans_of_nil {query : String → String → List EventRow × Ending}
    {rows : List EventRow} (hrows : collect (query scopeId streamId) = .ok rows)
    (hnil : (reconcileAttempts B rows).orphanAttemptIds = []) :
    (recoverOrphans B P W reprText query scopeId streamId remoteCheck).run L =
      (.ok ⟨[], []⟩, L) := by
  simp [recoverOrphans, hrows, hnil, recoverEach]

/-- **When a recovery ends every orphan once**, leaves none, and has nothing to do the next time:
every orphan has an id that the canonical form leaves alone, and a terminal payload that no other
scope has stored. -/
theorem recovers_iff (hr : History P h L) (hP : NfcLaws P) (hloads : P.loads = jsonLoadsBytes)
    (htext : ∀ v : PyValue, v.truth B = true → B.text v ≠ "")
    (hredact : ∀ k, Orphan B (allRows P L scopeId streamId) k → (redactText W k).1 = k)
    (hsha : BodiesApart B P W reprText scopeId streamId remoteCheck L
      (reconcileAttempts B (allRows P L scopeId streamId)).orphanAttemptIds)
    (hrun : (recoverOrphans B P W reprText (wholeStream P L) scopeId streamId remoteCheck).run L =
      (.ok report, L')) :
    (Ended B (allRows P L scopeId streamId) (allRows P L' scopeId streamId) ∧
        ∀ remoteCheck', ((recoverOrphans B P W reprText (wholeStream P L') scopeId streamId
          remoteCheck').run L').2 = L') ↔
      ∀ k, Orphan B (allRows P L scopeId streamId) k → normalizeText P k = k ∧
        ∀ body, terminalBody B P W reprText scopeId streamId remoteCheck k = .ok body →
          ¬StoredElsewhere L scopeId body := by
  have hL := hr.wellFormed.toOrderedLog
  have hks (k : String) :
      k ∈ (reconcileAttempts B (allRows P L scopeId streamId)).orphanAttemptIds ↔
        Orphan B (allRows P L scopeId streamId) k := mem_orphanAttemptIds_iff
  have hnodup : (reconcileAttempts B (allRows P L scopeId streamId)).orphanAttemptIds.Nodup :=
    nodup_orphanAttemptIds
  obtain ⟨bodies, hrec⟩ := recovered_of_recoverOrphans hL rfl hrun
  obtain ⟨new, hrows, hterminal, hkeys⟩ := hrec.allRows_eq hL fun ev hev => exists_blob hr hev
  generalize (reconcileAttempts B (allRows P L scopeId streamId)).orphanAttemptIds = ks at *
  -- what the event of an orphan is read as
  have hread (k : String) (hk : k ∈ ks) : ∃ body,
      terminalBody B P W reprText scopeId streamId remoteCheck k = .ok body ∧
      (StoredElsewhere L scopeId body →
        readBack B P W reprText scopeId streamId remoteCheck L' k = none) ∧
      (¬StoredElsewhere L scopeId body →
        readBack B P W reprText scopeId streamId remoteCheck L' k = some (normalizeText P k)) := by
    obtain ⟨body, hmem, hbody⟩ := exists_of_mem_left hrec.stored hk
    obtain ⟨hold, hnew⟩ := hsha k hk body hbody
    refine ⟨body, hbody, hrec.readBack_eq hloads hbody hmem hold (fun body' hbody' => ?_)
      (hredact k ((hks k).mp hk)) (normalizeText_ne_empty hP (((hks k).mp hk).ne_empty htext))⟩
    obtain ⟨k', hk', hstored⟩ := exists_of_mem_right hrec.stored hbody'
    exact hnew k' hk' body' hstored
  rw [hrows]
  constructor
  · rintro ⟨hended, -⟩ k hk
    -- the events are read as those of the orphans, so each is read as that of some attempt
    have hperm : (ks.filterMap (readBack B P W reprText scopeId streamId remoteCheck L')).Perm
        ks := by
      refine List.perm_iff_count.mpr fun k => ?_
      rw [List.count_filterMap, ← hended.count_eq hterminal hnodup hks k, hkeys, List.count,
        List.countP_map]
      rfl
    have hsome := List.filterMap_length_eq_length.mp hperm.length_eq
    have hnot (k : String) (hk : k ∈ ks) (body : ByteArray)
        (hbody : terminalBody B P W reprText scopeId streamId remoteCheck k = .ok body) :
        ¬StoredElsewhere L scopeId body := fun helsewhere => by
      obtain ⟨body', hbody', hnone, -⟩ := hread k hk
      obtain rfl := Except.ok.inj (hbody.symm.trans hbody')
      have hread := hsome k hk
      rw [hnone helsewhere] at hread
      cases hread
    have hmap : ks.filterMap (readBack B P W reprText scopeId streamId remoteCheck L') =
        ks.map (normalizeText P) := by
      refine List.filterMap_eq_map_iff_forall_eq_some.mpr fun k hk => ?_
      obtain ⟨body, hbody, -, hread⟩ := hread k hk
      exact hread (hnot k hk body hbody)
    rw [hmap] at hperm
    exact ⟨normalizeText_eq_of_perm hP hperm k ((hks k).mpr hk), hnot k ((hks k).mpr hk)⟩
  · intro hall
    have hended : Ended B (allRows P L scopeId streamId) (allRows P L scopeId streamId ++ new) := by
      refine ended_of_map_eq hterminal hnodup hks (hkeys.trans (List.map_congr_left fun k hk => ?_))
      obtain ⟨body, hbody, -, hread⟩ := hread k hk
      obtain ⟨hsame, hnot⟩ := hall k ((hks k).mp hk)
      rw [hread (hnot body hbody), hsame]
    refine ⟨hended, fun remoteCheck' => ?_⟩
    have hresolved := hended.resolved
    rw [← hrows] at hresolved
    rw [recoverOrphans_of_nil rfl hresolved]

/-! ### Two runs -/

/-- ASCII text, and JSON that is read. -/
def readingPrimitives : Primitives := { Primitives.ascii with loads := jsonLoadsBytes }

/-- The texts of strings are they themselves. -/
def stringBuiltins : Builtins where
  text
    | .str s => s
    | _ => "object"
  text_str s := Eq.refl s
  otherTruth := true

/-- The start of an attempt `a1` on a stream. -/
def startOf (scopeId streamId : String) : Observation :=
  ⟨scopeId, streamId, "native_observer", 2,
    [(.str "attempt_id", .str "a1"), (.str "logical_request_id", .str streamId),
      (.str "is_retry", .bool false), (.str "event_type", .str "model.attempt_started")],
    "model.attempt_started", "trusted"⟩

/-- The end of an attempt `a1` of an unknown outcome, as a recovery writes it. -/
def endOf (scopeId streamId : String) : Observation :=
  ⟨scopeId, streamId, "native_observer", 1,
    [(.str "attempt_id", .str "a1"), (.str "logical_request_id", .str ""),
      (.str "error_class", .str "unknown_outcome"), (.str "recovered", .bool true),
      (.str "schema_family", .str "model"), (.str "event_type", .str "model.failed")],
    "model.failed", "trusted"⟩

/-- `ada` has an attempt `a1` that was recovered, and `bob` starts an attempt of this id. -/
def sharedCalls : List Call :=
  [.registerScope "acme" "ada" "lab", .createStream acmeScope "s" "task",
    .recordObservation (endOf acmeScope "s"), .registerScope "acme" "bob" "lab",
    .createStream bobScope "b" "task", .recordObservation (startOf bobScope "b")]

/-- The digest of the payload of the end. -/
def endDigest : String := "sha256:7f90f9222146922bde8cf5e2129e28de6bc15b61aec49b6320a4270e6c74a8d0"

/-- The digest of the payload of the start. -/
def startDigest : String :=
  "sha256:043ee3ae9584fdc0040a656fbe959fc8623859408deb24b3a600378ff5130309"

/-- The payload of the end. -/
def endText : String :=
  "\x7b\"attempt_id\":\"a1\",\"error_class\":\"unknown_outcome\",\"event_type\":" ++
    "\"model.failed\",\"logical_request_id\":\"\",\"recovered\":true," ++
    "\"schema_family\":\"model\"\x7d"

/-- The payload of the start. -/
def startText : String :=
  "\x7b\"attempt_id\":\"a1\",\"event_type\":\"model.attempt_started\",\"is_retry\":false," ++
    "\"logical_request_id\":\"b\"\x7d"

/-- What these calls leave. -/
def sharedLedger : Ledger :=
  { scopes := [⟨acmeScope, "acme", "ada", "lab", 0⟩, ⟨bobScope, "acme", "bob", "lab", 0⟩]
    streams := [⟨"s", acmeScope, 0, "task", "open"⟩, ⟨"b", bobScope, 0, "task", "open"⟩]
    artifacts := [⟨endDigest, acmeScope, "blobs/7f90f922", "application/json", 144, "internal",
        "derived", 0⟩,
      ⟨startDigest, bobScope, "blobs/043ee3ae", "application/json", 98, "internal", "derived", 0⟩]
    eventBlobs := [⟨endDigest, acmeScope, endText.toByteArray⟩,
      ⟨startDigest, bobScope, startText.toByteArray⟩]
    events := [Ledger.empty.nextEvent
        "sha256:173120e6e94a98400273d0f9bb5bea134b1f7bfcab48071cd01514ea0e8db661" "s"
        "native_observer" 1 "model.failed" endDigest "trusted",
      { Ledger.empty.nextEvent
          "sha256:8bb950feacad96dadc4031d40b819292dffe9e7395196a8ae89959d6ead74d49" "b"
          "native_observer" 2 "model.attempt_started" startDigest "trusted" with eventSeq := 2 }]
    nextEventSeq := 3 }

/-- What a recovery of the stream of `bob` leaves, without a receipt. -/
def recoveredLedger : Ledger :=
  { sharedLedger with
    events := sharedLedger.events ++ [sharedLedger.nextEvent
      "sha256:ccdc5033653b88d0422a5f98d172c3f26996edece1e12bf8e948fc1ea963917e" "b"
      "native_observer" 3 "model.failed" endDigest "trusted"]
    nextEventSeq := 4 }

/-- The bytes and the digests of what these calls and the recovery store. -/
theorem stored_shared :
    canonicalBytes readingPrimitives (.dict (endOf acmeScope "s").payload) =
        .ok endText.toByteArray ∧
      rawDigest endText.toByteArray = endDigest ∧
      digest readingPrimitives (Repository.observationValue (endOf acmeScope "s")) =
        .ok "sha256:173120e6e94a98400273d0f9bb5bea134b1f7bfcab48071cd01514ea0e8db661" ∧
      digest readingPrimitives
          (Repository.observationValue { endOf bobScope "b" with producerSeq := 3 }) =
        .ok "sha256:ccdc5033653b88d0422a5f98d172c3f26996edece1e12bf8e948fc1ea963917e" ∧
      canonicalBytes readingPrimitives (.dict (startOf bobScope "b").payload) =
        .ok startText.toByteArray ∧
      rawDigest startText.toByteArray = startDigest ∧
      digest readingPrimitives (Repository.observationValue (startOf bobScope "b")) =
        .ok "sha256:8bb950feacad96dadc4031d40b819292dffe9e7395196a8ae89959d6ead74d49" := by
  refine ⟨?_, ?_, ?_, ?_, ?_, ?_, ?_⟩ <;> decide +kernel

/-- The ledger of a new observation, by the digest of its payload. -/
theorem observe_eq {L : Ledger} {o : Observation} {eventId payloadDigest : String}
    {data : ByteArray} (h : rawDigest data = payloadDigest) :
    L.observe o eventId data =
      { L with
        artifacts := Rows.insertOrIgnore (·.rawDigest) ⟨payloadDigest, o.scopeId,
          "blobs/" ++ String.ofList ((payloadDigest.toList.drop 7).take 8), "application/json",
          data.size, "internal", "derived", 0⟩ L.artifacts
        eventBlobs := Rows.insertOrIgnore (·.rawDigest) ⟨payloadDigest, o.scopeId, data⟩
          L.eventBlobs
        events := L.events ++ [L.nextEvent eventId o.streamId o.producer o.producerSeq o.kind
          payloadDigest o.observationKind]
        nextEventSeq := L.nextEventSeq + 1 } := by
  subst h
  rfl

/-- The ledger once `ada` has a stream. -/
def adaStream : Ledger :=
  { scopes := [⟨acmeScope, "acme", "ada", "lab", 0⟩]
    streams := [⟨"s", acmeScope, 0, "task", "open"⟩] }

/-- The ledger once her attempt has ended. -/
def adaEnded : Ledger :=
  { adaStream with
    artifacts := [⟨endDigest, acmeScope, "blobs/7f90f922", "application/json", 144, "internal",
      "derived", 0⟩]
    eventBlobs := [⟨endDigest, acmeScope, endText.toByteArray⟩]
    events := [Ledger.empty.nextEvent
      "sha256:173120e6e94a98400273d0f9bb5bea134b1f7bfcab48071cd01514ea0e8db661" "s"
      "native_observer" 1 "model.failed" endDigest "trusted"]
    nextEventSeq := 2 }

/-- The ledger once `bob` has a stream too. -/
def bobStream : Ledger :=
  { adaEnded with
    scopes := [⟨acmeScope, "acme", "ada", "lab", 0⟩, ⟨bobScope, "acme", "bob", "lab", 0⟩]
    streams := [⟨"s", acmeScope, 0, "task", "open"⟩, ⟨"b", bobScope, 0, "task", "open"⟩] }

theorem act_recordObservation {o : Observation} {eventId : String} {data : ByteArray}
    (h : Repository.Recorded P L o eventId data) :
    (Call.act P (.recordObservation o) L).2 = L.observe o eventId data :=
  congrArg Prod.snd (map_eq_ok.mpr
    ⟨_, Repository.recordObservation_eq_ok.mpr (.inr ⟨eventId, data, h, rfl, rfl⟩), rfl⟩)

theorem history_sharedLedger : ∃ h, History readingPrimitives h sharedLedger := by
  obtain ⟨hendBytes, hendDigest, hendId, -, hstartBytes, hstartDigest, hstartId⟩ := stored_shared
  have hada : (exec (Call.act readingPrimitives) .empty
      [.registerScope "acme" "ada" "lab", .createStream acmeScope "s" "task"]).2 = adaStream := by
    decide +kernel
  have hended : (Call.act readingPrimitives (.recordObservation (endOf acmeScope "s"))
      adaStream).2 = adaEnded := by
    rw [act_recordObservation ⟨by decide, hendBytes, hendId, by decide, by decide, by decide⟩,
      observe_eq hendDigest]
    rfl
  have hbob : (exec (Call.act readingPrimitives) adaEnded
      [.registerScope "acme" "bob" "lab", .createStream bobScope "b" "task"]).2 = bobStream := by
    decide +kernel
  have hstarted : (Call.act readingPrimitives (.recordObservation (startOf bobScope "b"))
      bobStream).2 = sharedLedger := by
    rw [act_recordObservation ⟨by decide, hstartBytes, hstartId, by decide, by decide, by decide⟩,
      observe_eq hstartDigest]
    rfl
  have hrun := run_exec (Call.act readingPrimitives) .empty sharedCalls
  have hend : (exec (Call.act readingPrimitives) .empty sharedCalls).2 = sharedLedger := by
    simp only [exec] at hada hbob
    simp only [sharedCalls, exec, hada, hended, hbob, hstarted]
  rw [hend] at hrun
  exact ⟨_, hrun⟩

/-- The attempt of `bob` is an orphan before the recovery, and after it. -/
theorem orphans_sharedLedger :
    (reconcileAttempts stringBuiltins
        (allRows readingPrimitives sharedLedger bobScope "b")).orphanAttemptIds = ["a1"] ∧
      (reconcileAttempts stringBuiltins
        (allRows readingPrimitives recoveredLedger bobScope "b")).orphanAttemptIds = ["a1"] := by
  refine ⟨?_, ?_⟩ <;> decide +kernel

theorem admitted_unknown : admitted .ascii id (unknownCall bobScope "b" 3 "a1") =
    .ok (endOf bobScope "b").payload.dropLast := rfl

theorem recover_sharedLedger : (recoverOrphans stringBuiltins readingPrimitives .ascii id
    (wholeStream readingPrimitives sharedLedger) bobScope "b" fun _ => .ok none).run sharedLedger =
      (.ok ⟨[], ["a1"]⟩, recoveredLedger) := by
  obtain ⟨hbytes, hdigest, -, hid, -⟩ := stored_shared
  have hrecorded : Repository.Recorded readingPrimitives sharedLedger
      { endOf bobScope "b" with producerSeq := 3 } _ endText.toByteArray :=
    ⟨by decide, hbytes, hid, by decide, by decide, by decide⟩
  have hobserve : recoveredLedger = sharedLedger.observe
      { endOf bobScope "b" with producerSeq := 3 }
      "sha256:ccdc5033653b88d0422a5f98d172c3f26996edece1e12bf8e948fc1ea963917e"
      endText.toByteArray := by
    rw [observe_eq hdigest]
    rfl
  have hrecord : (recordEvent readingPrimitives .ascii id
      (unknownCall bobScope "b" 3 "a1")).run sharedLedger = (.ok 3, recoveredLedger) :=
    recordEvent_eq_ok.mpr ⟨_, admitted_unknown,
      write_eq_ok.mpr (.inr ⟨_, endText.toByteArray, hrecorded, rfl, hobserve⟩)⟩
  have hseq : nextProducerSeq sharedLedger "native_observer" = 3 := by decide
  simp [recoverOrphans, collect, wholeStream, orphans_sharedLedger.1, recoverEach, recoverOne,
    completed?, hrecord, hseq]

theorem nfcLaws_reading : NfcLaws readingPrimitives where
  idem := nfcLaws_ascii.idem
  line_end := nfcLaws_ascii.line_end
  no_line_end := nfcLaws_ascii.no_line_end
  ne_nil := nfcLaws_ascii.ne_nil

theorem stringBuiltins_text (v : PyValue) (h : v.truth stringBuiltins = true) :
    stringBuiltins.text v ≠ "" := by
  cases v with
  | str s =>
    have hs : s ≠ "" := by simpa [PyValue.truth] using h
    exact hs
  | _ => exact (by decide : "object" ≠ "")

/-- The end of the attempt of `bob` has the payload of the end of that of `ada`, and no other. -/
theorem bodiesApart_sharedLedger : BodiesApart stringBuiltins readingPrimitives .ascii id bobScope
    "b" (fun _ => .ok none) sharedLedger ["a1"] := by
  have hbody : terminalBody stringBuiltins readingPrimitives .ascii id bobScope "b"
      (fun _ => .ok none) "a1" = .ok endText.toByteArray := stored_shared.1
  have hdigest : rawDigest endText.toByteArray = endDigest := stored_shared.2.1
  rintro k hk body hk'
  obtain rfl := List.mem_singleton.mp hk
  obtain rfl := Except.ok.inj (hbody.symm.trans hk')
  refine ⟨fun row hrow hsame => ?_, fun k' hk' body' hbody' _ => ?_⟩
  · rcases List.mem_pair.mp hrow with rfl | rfl
    · rfl
    · rw [hdigest] at hsame
      exact absurd hsame (by decide)
  · obtain rfl := List.mem_singleton.mp hk'
    exact Except.ok.inj (hbody'.symm.trans hbody)

/-- The recovery of the stream of `bob`. -/
theorem recovers_iff_shared :
    (Ended stringBuiltins (allRows readingPrimitives sharedLedger bobScope "b")
          (allRows readingPrimitives recoveredLedger bobScope "b") ∧
        ∀ remoteCheck', ((recoverOrphans stringBuiltins readingPrimitives .ascii id
          (wholeStream readingPrimitives recoveredLedger) bobScope "b"
          remoteCheck').run recoveredLedger).2 = recoveredLedger) ↔
      ∀ k, Orphan stringBuiltins (allRows readingPrimitives sharedLedger bobScope "b") k →
        normalizeText readingPrimitives k = k ∧
        ∀ body, terminalBody stringBuiltins readingPrimitives .ascii id bobScope "b"
          (fun _ => .ok none) k = .ok body → ¬StoredElsewhere sharedLedger bobScope body := by
  obtain ⟨h, hr⟩ := history_sharedLedger
  refine recovers_iff hr nfcLaws_reading rfl stringBuiltins_text (fun k hk => ?_) ?_
    recover_sharedLedger
  · have hmem := mem_orphanAttemptIds_iff.mpr hk
    rw [orphans_sharedLedger.1, List.mem_singleton] at hmem
    rw [hmem]
    decide
  · rw [orphans_sharedLedger.1]
    exact bodiesApart_sharedLedger

/-- **An orphan that stays one**: the terminal event of an attempt of `bob` has the payload that
`ada` has stored, so it is not read as an event of the attempt. -/
theorem not_recovers : ∃ h, History readingPrimitives h sharedLedger ∧
    (recoverOrphans stringBuiltins readingPrimitives .ascii id
      (wholeStream readingPrimitives sharedLedger) bobScope "b" fun _ => .ok none).run
        sharedLedger = (.ok ⟨[], ["a1"]⟩, recoveredLedger) ∧
    (redactText .ascii "a1").1 = "a1" ∧
    (reconcileAttempts stringBuiltins
      (allRows readingPrimitives recoveredLedger bobScope "b")).orphanAttemptIds = ["a1"] := by
  obtain ⟨h, hr⟩ := history_sharedLedger
  exact ⟨h, hr, recover_sharedLedger, by decide, orphans_sharedLedger.2⟩

/-- Neither id is redacted more than the other. -/
example : (redactText .ascii "a1").2 = (redactText .ascii "b1").2 := by decide +kernel

end DomainSink

end CyranoAgent
