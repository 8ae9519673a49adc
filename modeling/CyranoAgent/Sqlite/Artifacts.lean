import CyranoAgent.Sqlite.Commands

/-!
# Stored bodies and the scope that may read them

A body is stored once, under its digest, with the scope that stored it first; `read_artifact`
gives it to that scope only. Another scope whose event has the same bytes cannot read them:
`ownBody_readable_iff` says that a scope reads the body of its event exactly when it was the
first to record these bytes.

`stored` lists what a history recorded, and `History.eventBlobs_find?` says that the row of a
digest is the first record of it. The rest is about digests that do not collide.
-/

namespace CyranoAgent

open Lib Lib.Action Repository

/-- The scope and the bytes that a call records: the response of a command that commits, the
payload of an observation that is new. -/
def stored? (P : Primitives) (e : CallEntry) : Option (String × ByteArray) :=
  match e.op, e.reply with
  | .executeCommand c, .ok (.receipt r) =>
    if r.idempotentReplay then none
    else (canonicalBytes P (responseValue r.revision)).toOption.map (c.scopeId, ·)
  | .recordObservation o, .ok (.eventSeq n) =>
    if n = e.before.nextEventSeq then
      (canonicalBytes P (.dict o.payload)).toOption.map (o.scopeId, ·)
    else none
  | _, _ => none

/-- What a history recorded, oldest first. -/
def stored (P : Primitives) (h : List CallEntry) : List (String × ByteArray) :=
  h.filterMap (stored? P)

/-- The call that inserted the event recorded these bytes, for this scope. -/
def RecordedAs (P : Primitives) (h : List CallEntry) (ev : Event) (scopeId : String)
    (body : ByteArray) : Prop :=
  ∃ e ∈ h, Creates e ev ∧ stored? P e = some (scopeId, body)

/-- The scope was the first to record these bytes. -/
def FirstToRecord (P : Primitives) (h : List CallEntry) (scopeId : String)
    (body : ByteArray) : Prop :=
  (stored P h).find? (fun record => record.2 = body) = some (scopeId, body)

instance (P : Primitives) (h : List CallEntry) (scopeId : String) (body : ByteArray) :
    Decidable (FirstToRecord P h scopeId body) := inferInstanceAs (Decidable (_ = _))

/-- Different bytes that a history recorded have different digests. -/
def BodiesDistinct (P : Primitives) (h : List CallEntry) : Prop :=
  Set.InjOn rawDigest {body | ∃ record ∈ stored P h, record.2 = body}

variable {P : Primitives} {L L' : Ledger} {h : List CallEntry} {e : CallEntry}

/-! ### What a call stores -/

/-- The row of a recorded body. -/
def blobRow (record : String × ByteArray) : BlobRow := ⟨rawDigest record.2, record.1, record.2⟩

theorem stored?_commit {c : Command} {requestDigest eventId : String} {body : ByteArray}
    (hacc : Accepted P L c requestDigest eventId body) :
    stored? P ⟨L, .executeCommand c, .ok (.receipt ⟨L.revision c.streamId + 1, eventId, false⟩),
      L'⟩ = some (c.scopeId, body) := by
  simp [stored?, hacc.bytes_response, Except.toOption]

theorem stored?_observe {o : Observation} {eventId : String} {data : ByteArray}
    (hrec : Recorded P L o eventId data) :
    stored? P ⟨L, .recordObservation o, .ok (.eventSeq L.nextEventSeq), L'⟩ =
      some (o.scopeId, data) := by
  simp [stored?, hrec.bytes_payload, Except.toOption]

/-- **A call stores exactly what it records.** -/
theorem Effect.eventBlobs_eq (hL : e.before.WellFormed)
    (h : Effect P e.before e.op e.reply e.after) :
    e.after.eventBlobs = match stored? P e with
      | some record => Rows.insertOrIgnore (·.rawDigest) (blobRow record) e.before.eventBlobs
      | none => e.before.eventBlobs := by
  obtain ⟨L, call, reply, L'⟩ := e
  dsimp only at h hL ⊢
  cases h with
  | committed c requestDigest eventId body hacc =>
    rw [stored?_commit hacc]
    rfl
  | observed o eventId data hrec =>
    rw [stored?_observe hrec]
    rfl
  | repeated o n hrep =>
    obtain ⟨-, -, data, old, -, -, -, ev, hev, rfl⟩ := hrep
    have hold : ev.eventSeq ≠ L.nextEventSeq :=
      (hL.next_event_seq ev (List.mem_of_find?_eq_some hev)).ne
    simp [stored?, hold]
  | replayed => simp [stored?]
  | refused call err => cases call <;> rfl
  | moved call reply _ _ _ hout => cases call <;> first | rfl | exact hout.elim
  | _ => rfl

/-- An event that is there after a call was there before, on a stream of the same scopes, or
the call inserted it with the bytes it recorded. -/
theorem Effect.event_cases (hL : e.before.WellFormed)
    (h : Effect P e.before e.op e.reply e.after) {ev : Event} (hev : ev ∈ e.after.events) :
    (ev ∈ e.before.events ∧
        ∀ scopeId, e.before.Owns scopeId ev.streamId → e.after.Owns scopeId ev.streamId) ∨
      ∃ scopeId body, Creates e ev ∧ stored? P e = some (scopeId, body) ∧
        ev.payloadDigest = rawDigest body ∧ e.after.Owns scopeId ev.streamId := by
  obtain ⟨L, call, reply, L'⟩ := e
  dsimp only at h hL hev ⊢
  -- the number of an appended row is not in the table yet
  have hnew {ev : Event} (hseq : ev.eventSeq = L.nextEventSeq) : ev ∉ L.events := fun hmem =>
    (hL.next_event_seq ev hmem).ne hseq
  cases h with
  | committed c requestDigest eventId body hacc =>
    rcases List.mem_append.mp hev with hold | hlast
    · exact .inl ⟨hold, fun _ => Ledger.owns_commit.mpr⟩
    · obtain rfl := List.mem_singleton.mp hlast
      exact .inr ⟨c.scopeId, body, ⟨hev, hnew rfl⟩, stored?_commit hacc, rfl,
        Ledger.owns_commit.mpr hacc.owns⟩
  | observed o eventId data hrec =>
    rcases List.mem_append.mp hev with hold | hlast
    · exact .inl ⟨hold, fun _ => id⟩
    · obtain rfl := List.mem_singleton.mp hlast
      exact .inr ⟨o.scopeId, data, ⟨hev, hnew rfl⟩, stored?_observe hrec, rfl, hrec.owns⟩
  | created scopeId streamId entityType _ hfresh =>
    refine .inl ⟨hev, ?_⟩
    rintro scope ⟨row, hrow, rfl⟩
    have hne : ev.streamId ≠ streamId := by
      rintro heq
      rw [heq, hfresh] at hrow
      cases hrow
    exact ⟨row, by rw [Ledger.stream?_createStream hfresh, if_neg hne, hrow], rfl⟩
  | deleted streamId deletedAt =>
    obtain ⟨hold, hs⟩ := Rows.mem_delete.mp hev
    exact .inl ⟨hold, fun _ howns =>
      Ledger.owns_deleteStream.mpr ⟨of_decide_eq_false hs, howns⟩⟩
  | _ => exact .inl ⟨hev, fun _ => id⟩

/-! ### Histories -/

namespace History

theorem stored_snoc (h : List CallEntry) (e : CallEntry) :
    stored P (h ++ [e]) = stored P h ++ (stored? P e).toList := by
  rw [stored, List.filterMap_append, stored]
  cases hstored : stored? P e <;> simp [hstored]

/-- **The row of a digest is the first record of it.** -/
theorem eventBlobs_find? (hr : History P h L) (digest : String) :
    L.eventBlobs.find? (fun row => row.rawDigest = digest) =
      ((stored P h).find? fun record => rawDigest record.2 = digest).map blobRow := by
  refine hr.inv (I := fun h L => L.eventBlobs.find? (fun row => row.rawDigest = digest) =
    ((stored P h).find? fun record => rawDigest record.2 = digest).map blobRow) rfl ?_
  intro h L call hr ih
  have hwf := wellFormed hr
  have hblobs := Effect.eventBlobs_eq (e := Entry.perform (Call.act P) L call) hwf
    (Call.effect_act hwf.job_ids call)
  rw [Entry.perform_after, Entry.perform_before] at hblobs
  rw [hblobs, stored_snoc, List.find?_append]
  rcases stored? P (Entry.perform (Call.act P) L call) with _ | record
  · simpa using ih
  · simp only [Rows.find?_insertOrIgnore, ih]
    by_cases hdigest : rawDigest record.2 = digest
    · cases (stored P h).find? fun record => rawDigest record.2 = digest <;>
        simp [hdigest, blobRow]
    · simp [hdigest, blobRow]

/-- Every event was recorded, for a scope that owns its stream, with the bytes of its digest. -/
theorem recordedAs (hr : History P h L) {ev : Event} (hev : ev ∈ L.events) :
    ∃ scopeId body, RecordedAs P h ev scopeId body ∧ ev.payloadDigest = rawDigest body ∧
      L.Owns scopeId ev.streamId := by
  revert ev
  refine hr.inv (I := fun h L => ∀ {ev}, ev ∈ L.events → ∃ scopeId body,
    RecordedAs P h ev scopeId body ∧ ev.payloadDigest = rawDigest body ∧
      L.Owns scopeId ev.streamId) (by simp [Ledger.empty]) ?_
  intro h L call hr ih ev hev
  have hwf := wellFormed hr
  rcases Effect.event_cases (e := Entry.perform (Call.act P) L call) hwf
    (Call.effect_act hwf.job_ids call) hev with
    ⟨hold, howns⟩ | ⟨scopeId, body, hcreates, hstored, hdigest, howns⟩
  · obtain ⟨scopeId, body, ⟨d, hd, hrec⟩, hdigest, hown⟩ := ih hold
    exact ⟨scopeId, body, ⟨d, List.mem_append_left _ hd, hrec⟩, hdigest, howns _ hown⟩
  · exact ⟨scopeId, body, ⟨_, List.mem_concat_self, hcreates, hstored⟩, hdigest, howns⟩

end History

/-- **When a scope can read the body of its event**: the event's bytes were recorded, and they
can be read exactly when the scope was the first to record them. -/
theorem ownBody_readable_iff (hr : History P h L) (hsha : BodiesDistinct P h) {ev : Event}
    (hev : ev ∈ L.events) {scopeId : String} (howns : L.Owns scopeId ev.streamId) :
    ∃ body, RecordedAs P h ev scopeId body ∧
      (readArtifact L scopeId ev.payloadDigest = some body ↔ FirstToRecord P h scopeId body) := by
  obtain ⟨scopeId', body, hrec, hdigest, hown⟩ := History.recordedAs hr hev
  obtain rfl := hown.unique howns
  refine ⟨body, hrec, ?_⟩
  have hmem : (scopeId', body) ∈ stored P h := by
    obtain ⟨d, hd, -, hstored⟩ := hrec
    exact List.mem_filterMap.mpr ⟨d, hd, hstored⟩
  -- among what was recorded, the bytes and their digest select the same records
  have hselect : (stored P h).find? (fun record => rawDigest record.2 = rawDigest body) =
      (stored P h).find? fun record => record.2 = body := by
    refine List.find?_congr fun record hrecord => ?_
    have hiff : rawDigest record.2 = rawDigest body ↔ record.2 = body :=
      ⟨fun heq => hsha ⟨record, hrecord, rfl⟩ ⟨_, hmem, rfl⟩ heq, fun heq => by rw [heq]⟩
    simp [hiff]
  rw [readArtifact, History.eventBlobs_find? hr, hdigest, hselect, FirstToRecord]
  obtain ⟨⟨first, body'⟩, hfirst⟩ : ∃ record,
      (stored P h).find? (fun record => record.2 = body) = some record :=
    Option.isSome_iff_exists.mp (List.find?_isSome.mpr ⟨_, hmem, by simp⟩)
  obtain rfl : body' = body := by simpa using List.find?_some hfirst
  rw [hfirst]
  by_cases hscope : first = scopeId'
  · simp [blobRow, hscope]
  · simp [blobRow, hscope]

/-- The same bytes, recorded any number of times, are distinct from no others. -/
theorem bodiesDistinct_of_forall {body : ByteArray}
    (hsame : ∀ record ∈ stored P h, record.2 = body) : BodiesDistinct P h := by
  rintro _ ⟨record, hrecord, rfl⟩ _ ⟨record', hrecord', rfl⟩ -
  rw [hsame record hrecord, hsame record' hrecord']

/-- The event of `ada`'s first command. -/
def adaEvent : Event :=
  acmeLedger.nextEvent adaEventId "s" "cli" (acmeLedger.commandSeq (adaPlans 0)) "plan"
    (rawDigest adaResponse) "control"

/-- The first response of all can be read. -/
theorem ownBody_readable_iff_ada :
    ∃ body, RecordedAs .ascii (acmeHistory ++ [callOf acmeLedger (adaPlans 0)]) adaEvent acmeScope
        body ∧
      (readArtifact adaLedger acmeScope adaEvent.payloadDigest = some body ↔
        FirstToRecord .ascii (acmeHistory ++ [callOf acmeLedger (adaPlans 0)]) acmeScope body) :=
  ownBody_readable_iff history_ada
    (bodiesDistinct_of_forall (show ∀ record ∈ stored .ascii
      (acmeHistory ++ [callOf acmeLedger (adaPlans 0)]), record.2 = adaResponse by decide))
    List.mem_concat_self (by decide)

/-- The scope of tenant `acme`, user `bob`, workspace `lab`. -/
def bobScope : String := "sha256:3f6304bac69824d8bde4e251089476828903d2a976a89662fd70ddc6c4053716"

/-- After `ada`'s first command, `bob` makes his, in a scope and on a stream of his own. -/
def bobFollows : List Call :=
  [.registerScope "acme" "bob" "lab", .createStream bobScope "b" "task",
    .executeCommand { adaPlans 0 with scopeId := bobScope, actor := "bob", streamId := "b" }]

/-- **A scope cannot read its own response** when another scope was answered the same before. -/
theorem response_unreadable :
    ¬∀ (P : Primitives) (h : List CallEntry) (L : Ledger) (ev : Event) (scopeId : String),
      History P h L → BodiesDistinct P h → ev ∈ L.events → L.Owns scopeId ev.streamId →
      ∃ body, RecordedAs P h ev scopeId body ∧
        readArtifact L scopeId ev.payloadDigest = some body := by
  intro hclaim
  have hrun := history_ada.append (run_exec (Call.act .ascii) adaLedger bobFollows)
  obtain ⟨hsame, ev, hev, howns, hnone⟩ :
      (∀ record ∈ stored .ascii ((acmeHistory ++ [callOf acmeLedger (adaPlans 0)]) ++
          (exec (Call.act .ascii) adaLedger bobFollows).1), record.2 = adaResponse) ∧
        ∃ ev ∈ (exec (Call.act .ascii) adaLedger bobFollows).2.events,
          (exec (Call.act .ascii) adaLedger bobFollows).2.Owns bobScope ev.streamId ∧
            readArtifact (exec (Call.act .ascii) adaLedger bobFollows).2 bobScope
              ev.payloadDigest = none := by
    decide +kernel
  obtain ⟨body, -, hbody⟩ := hclaim .ascii _ _ ev bobScope hrun (bodiesDistinct_of_forall hsame)
    hev howns
  rw [hnone] at hbody
  cases hbody

end CyranoAgent
