import CyranoAgent.Sqlite.Commands

/-!
# Candidates and their reviews

`enqueue_review` requests the review of a candidate by a command whose idempotency key is made of
the candidate's id, and returns the id that the job of a fresh request gets. A request that comes up
a second time is coalesced with the first; the id it returns is of the stream it names, and no job
has it if the first request was on another stream of the scope (`namesJob_iff`).
-/

namespace CyranoAgent

open Lib Lib.Action Repository

namespace Improvement

/-- What `enqueue_review` reads of a `Candidate`. -/
structure Candidate where
  candidateId : String
  deriving DecidableEq, Repr

/-- `MAX_META_DEPTH`. -/
def maxMetaDepth : ℤ := 0

/-- The idempotency key of a review request. -/
def reviewKey (candidate : Candidate) : String := "review:" ++ candidate.candidateId

/-- The payload of a review request. -/
def reviewPayload (candidate : Candidate) : PyMapping :=
  [(.str "candidate_id", .str candidate.candidateId), (.str "kind", .str "candidate_review")]

/-- The value whose digest is the id of the job. -/
def jobValue (streamId : String) (candidate : Candidate) : PyValue :=
  .dict [(.str "stream", .str streamId), (.str "payload", .dict (reviewPayload candidate)),
    (.str "key", .str (reviewKey candidate))]

/-- The command of a review request. -/
def reviewCommand (scopeId streamId : String) (candidate : Candidate) (revision : ℕ) : Command :=
  { scopeId, actor := "learning", command := "enqueue_review"
    idempotencyKey := reviewKey candidate, payload := reviewPayload candidate, streamId
    expectedRevision := revision, enqueue := true, producer := "learning", producerSeq := none }

/-- The arguments of `enqueue_review`. -/
structure ReviewRequest where
  scopeId : String
  streamId : String
  candidate : Candidate
  metaDepth : ℤ := 0

section

variable (P : Primitives)

/-- `enqueue_review`: the id of the job. A conflict under the key is taken for a repeat. -/
def enqueueReview (r : ReviewRequest) : Op String := do
  raiseIf (r.metaDepth > maxMetaDepth)
    (.cyrano "META_DEPTH_EXCEEDED" "learning recursion is not permitted")
  let revision ← readScopedEntity r.scopeId r.streamId
  let jobId ← lift (digest P (jobValue r.streamId r.candidate))
  tryCatch (do
      let _ ← executeCommand P (reviewCommand r.scopeId r.streamId r.candidate revision)
      pure ())
    fun e =>
      match e with
      | .cyrano "IDEMPOTENCY_CONFLICT" _ => pure ()
      | e => throw e
  return jobId

/-- Perform a call of `enqueue_review`. -/
def ReviewRequest.act (r : ReviewRequest) (L : Ledger) : Except Failure String × Ledger :=
  (enqueueReview P r).run L

end

/-- One call of a history. -/
abbrev ReviewEntry := Entry Ledger ReviewRequest (Except Failure String)

variable {P : Primitives} {L L' L₀ : Ledger} {h h₁ : List ReviewEntry} {e : ReviewEntry}

/-! ### What a call does -/

/-- The failure is not the one that is taken for a repeat. -/
def NotConflict (e : Failure) : Prop := ∀ message, e ≠ .cyrano "IDEMPOTENCY_CONFLICT" message

theorem notConflict_of_code {code message : String} (h : code ≠ "IDEMPOTENCY_CONFLICT") :
    NotConflict (.cyrano code message) := by
  rintro _ ⟨⟩
  exact h rfl

theorem notConflict_python (type text : String) : NotConflict (.python type text) := nofun

mutual

/-- What has no normal form is no conflict. -/
theorem notConflict_normalize : (v : PyValue) → ∀ e, normalize P v = .error e → NotConflict e
  | .none, _, h => by simp [normalize] at h
  | .bool _, _, h => by simp [normalize] at h
  | .str _, _, h => by simp at h
  | .int n, e, h => by
    rw [normalize] at h
    split_ifs at h
    cases h
    exact notConflict_of_code (by decide)
  | .list items, e, h => by
    rw [normalize] at h
    rcases hitems : normalizeItems P items with e' | vs
    · rw [hitems] at h
      cases h
      exact notConflict_items items _ hitems
    · rw [hitems] at h
      cases h
  | .dict entries, e, h => by
    rw [normalize] at h
    rcases hentries : normalizeEntries P [] entries with e' | members
    · rw [hentries] at h
      cases h
      exact notConflict_entries entries [] _ hentries
    · rw [hentries] at h
      cases h
  | .other, e, h => by
    rw [normalize] at h
    cases h
    exact notConflict_of_code (by decide)

theorem notConflict_items : (items : List PyValue) → ∀ e, normalizeItems P items = .error e →
    NotConflict e
  | [], _, h => by simp [normalizeItems] at h
  | item :: items, e, h => by
    rw [normalizeItems] at h
    rcases hitem : normalize P item with e' | v
    · rw [hitem] at h
      cases h
      exact notConflict_normalize item _ hitem
    · rw [hitem] at h
      rcases hitems : normalizeItems P items with e' | vs
      · rw [hitems] at h
        cases h
        exact notConflict_items items _ hitems
      · rw [hitems] at h
        cases h

theorem notConflict_entries : (entries : List (PyKey × PyValue)) → ∀ result e,
    normalizeEntries P result entries = .error e → NotConflict e
  | [], _, _, h => by simp at h
  | (.other, _) :: _, _, _, h => by
    rw [normalizeEntries] at h
    cases h
    exact notConflict_of_code (by decide)
  | (.str key, item) :: rest, result, e, h => by
    rw [normalizeEntries] at h
    split_ifs at h with hcollision
    · cases h
      exact notConflict_of_code (by decide)
    · rcases hitem : normalize P item with e' | v
      · rw [hitem] at h
        cases h
        exact notConflict_normalize item _ hitem
      · rw [hitem] at h
        exact notConflict_entries rest _ e h

end

theorem notConflict_digest (v : PyValue) : ∀ e, digest P v = .error e → NotConflict e := by
  intro e h
  rcases hv : normalize P v with e' | j
  · obtain rfl : e' = e := by simpa [digest, taggedBytes, canonicalBytes, hv, Except.map] using h
    exact notConflict_normalize v e' hv
  · simp [digest, taggedBytes, canonicalBytes, hv, Except.map] at h

theorem notConflict_canonicalBytes (v : PyValue) :
    ∀ e, canonicalBytes P v = .error e → NotConflict e := by
  intro e h
  rcases hv : normalize P v with e' | j
  · obtain rfl : e' = e := by simpa [canonicalBytes, hv, Except.map] using h
    exact notConflict_normalize v e' hv
  · simp [canonicalBytes, hv, Except.map] at h

/-- The writes of a command raise no conflict. -/
theorem raisesOnly_commitCommand (c : Command) (requestDigest : String) (revision : ℕ)
    (producerSeq : ℤ) :
    RaisesOnly NotConflict (commitCommand P c requestDigest revision producerSeq) := by
  have hunique (columns : String) : NotConflict (Failure.unique columns) :=
    notConflict_python _ _
  have hartifact (body : ByteArray) : RaisesOnly NotConflict (artifact c.scopeId body) :=
    (raisesOnly_modify _).bind fun _ => raisesOnly_pure _
  have hevent (eventId digest : String) (position : ℕ) : RaisesOnly NotConflict
      (insertEvent eventId c.streamId position c.producer producerSeq c.command digest
        "control") := by
    refine (raisesOnly_raiseIf (notConflict_python _ _)).bind fun _ => ?_
    refine raisesOnly_get.bind fun L => ?_
    refine (raisesOnly_raiseIf (hunique _)).bind fun _ => ?_
    refine (raisesOnly_raiseIf (hunique _)).bind fun _ => ?_
    exact (raisesOnly_raiseIf (hunique _)).bind fun _ => raisesOnly_modify _
  have hrequest (row : RequestRow) : RaisesOnly NotConflict (insertRequest row) :=
    raisesOnly_get.bind fun L => (raisesOnly_raiseIf (hunique _)).bind fun _ => raisesOnly_modify _
  have hjob (eventId digest : String) :
      RaisesOnly NotConflict (insertJob eventId c.scopeId digest) :=
    raisesOnly_get.bind fun L => (raisesOnly_raiseIf (hunique _)).bind fun _ => raisesOnly_modify _
  refine (raisesOnly_lift (notConflict_digest _)).bind fun eventId => ?_
  refine raisesOnly_get.bind fun L => ?_
  refine (raisesOnly_lift (notConflict_canonicalBytes _)).bind fun response => ?_
  refine (hartifact response).bind fun digest => (hevent eventId digest _).bind fun _ => ?_
  refine (raisesOnly_modify _).bind fun _ => (hrequest _).bind fun _ => ?_
  refine RaisesOnly.ite ?_ (raisesOnly_pure _)
  exact (hjob eventId digest).bind fun _ => raisesOnly_pure _

theorem atomic_executeCommand (c : Command) : Atomic (executeCommand P c) :=
  Atomic.bind (readOnly_raiseIf _ _) fun _ => Atomic.bind (readOnly_lift _) fun _ =>
    atomic_transaction _

/-- Under an unused key the transaction of a command raises no conflict. -/
theorem notConflict_executeCommandIn {c : Command} {requestDigest : String} {e : Failure}
    (hunused : L.request? c.scopeId c.actor c.command c.idempotencyKey = none)
    (hrun : ((executeCommandIn P c requestDigest).run L).1 = .error e) : NotConflict e := by
  rw [executeCommandIn] at hrun
  rcases hscope : (requireScope c.scopeId c.streamId).run L with ⟨e' | u, L'⟩
  · rw [run_bind_error hscope] at hrun
    obtain rfl := Except.error.inj hrun
    exact raisesOnly_get.bind (fun _ => raisesOnly_raiseIf (notConflict_of_code (by decide))) _ _ _
      hscope
  rw [run_bind_ok hscope] at hrun
  obtain ⟨-, rfl⟩ := requireScope_eq_ok.mp hscope
  rw [run_bind_ok (run_get L), hunused] at hrun
  dsimp only at hrun
  rw [run_raiseIf_bind] at hrun
  split_ifs at hrun with hstale
  · obtain rfl := Except.error.inj hrun
    exact notConflict_of_code (by decide)
  · exact raisesOnly_commitCommand c requestDigest _ _ L _ e (Prod.ext hrun rfl)

/-- **A conflict under a key** is raised only where the key has a request, and changes nothing. -/
theorem requestOf?_of_conflict {c : Command} {message : String}
    (hrun : (executeCommand P c).run L = (.error (.cyrano "IDEMPOTENCY_CONFLICT" message), L')) :
    L' = L ∧ L.requestOf? c ≠ none := by
  refine ⟨atomic_executeCommand c hrun, fun hunused => ?_⟩
  rw [executeCommand, run_raiseIf_bind] at hrun
  split_ifs at hrun with happroved
  · have hcode := Except.error.inj (Prod.mk.inj hrun).1
    exact notConflict_of_code (by decide) _ hcode
  rcases hdigest : digest P (requestValue c) with e | requestDigest
  · rw [hdigest, run_bind_error (run_lift_error e L)] at hrun
    exact notConflict_digest _ _ hdigest message (Except.error.inj (Prod.mk.inj hrun).1)
  rw [hdigest, run_bind_ok (run_lift_ok requestDigest L), run_transaction] at hrun
  rcases hin : (executeCommandIn P c requestDigest).run L with ⟨e | r, L''⟩
  · rw [hin] at hrun
    exact notConflict_executeCommandIn hunused (congrArg Prod.fst hin) message
      (Except.error.inj (Prod.mk.inj hrun).1)
  · rw [hin] at hrun
    cases (Prod.mk.inj hrun).1

/-- The command of a call, at the revision that it reads. -/
def ReviewRequest.command (r : ReviewRequest) (L : Ledger) : Command :=
  reviewCommand r.scopeId r.streamId r.candidate (L.revision r.streamId)

/-- A repeat leaves the ledger alone. -/
def Repeats (P : Primitives) (r : ReviewRequest) (L : Ledger) (jobId : String) : Prop :=
  r.act P L = (.ok jobId, L) ∧ L.requestOf? (r.command L) ≠ none

/-- A fresh request commits its command, and the job is its own. -/
def Commits (P : Primitives) (r : ReviewRequest) (L : Ledger) (jobId : String) : Prop :=
  ∃ requestDigest body, Accepted P L (r.command L) requestDigest jobId body ∧
    r.act P L = (.ok jobId, L.commit (r.command L) requestDigest jobId body)

/-- **A call fails and changes nothing, or returns the id made of its stream and candidate**, as a
repeat or as a fresh request. -/
theorem act_cases (r : ReviewRequest) (L : Ledger) :
    (∃ failure, r.act P L = (.error failure, L)) ∨
      ∃ jobId, digest P (jobValue r.streamId r.candidate) = .ok jobId ∧
        (Repeats P r L jobId ∨ Commits P r L jobId) := by
  have hact : r.act P L = (enqueueReview P r).run L := rfl
  rw [enqueueReview, run_raiseIf_bind] at hact
  split_ifs at hact with hdepth
  · exact .inl ⟨_, hact⟩
  rcases hread : (readScopedEntity r.scopeId r.streamId).run L with ⟨failure | revision, L'⟩
  · rw [run_bind_error hread] at hact
    have hsame : ReadOnly (readScopedEntity r.scopeId r.streamId) :=
      ReadOnly.bind (ReadOnly.bind readOnly_get fun _ => readOnly_raiseIf _ _) fun _ =>
        ReadOnly.bind readOnly_get fun _ => readOnly_pure _
    obtain rfl : L' = L := (congrArg Prod.snd hread).symm.trans (hsame L)
    exact .inl ⟨_, hact⟩
  rw [run_bind_ok hread] at hact
  obtain ⟨-, rfl, rfl⟩ := readScopedEntity_eq_ok.mp hread
  rcases hjob : digest P (jobValue r.streamId r.candidate) with failure | jobId
  · rw [hjob, run_bind_error (run_lift_error failure L)] at hact
    exact .inl ⟨_, hact⟩
  rw [hjob, run_bind_ok (run_lift_ok jobId L)] at hact
  rcases hcommand : (executeCommand P (r.command L)).run L with ⟨failure | receipt, L'⟩
  · have hfails : ((executeCommand P (r.command L)) >>= fun _ => (pure () : Op Unit)).run L =
        (.error failure, L') := run_bind_error hcommand
    obtain rfl := atomic_executeCommand _ hcommand
    by_cases hconflict : ∃ message, failure = .cyrano "IDEMPOTENCY_CONFLICT" message
    · obtain ⟨message, rfl⟩ := hconflict
      refine .inr ⟨jobId, rfl, .inl ⟨hact.trans ?_, (requestOf?_of_conflict hcommand).2⟩⟩
      exact run_bind_ok (run_tryCatch_error hfails)
    · refine .inl ⟨failure, hact.trans (run_bind_error ((run_tryCatch_error hfails).trans ?_))⟩
      match failure, hconflict with
      | .cyrano code message, hconflict =>
        by_cases hcode : code = "IDEMPOTENCY_CONFLICT"
        · exact absurd ⟨message, by rw [hcode]⟩ hconflict
        · split
          · next heq => exact absurd (Failure.cyrano.inj heq).1 hcode
          · rfl
      | .python type text, _ => rfl
  · have hreturns : (executeCommand P (r.command L) >>= fun _ => (pure () : Op Unit)).run L =
        (.ok (), L') := run_bind_ok hcommand
    have hok : r.act P L = (.ok jobId, L') := hact.trans (run_bind_ok (run_tryCatch_ok hreturns))
    refine .inr ⟨jobId, rfl, ?_⟩
    obtain ⟨-, ⟨⟨-, old, hold, -⟩, -, rfl⟩ | ⟨requestDigest, eventId, body, hacc, -, rfl⟩⟩ :=
      executeCommand_eq_ok.mp hcommand
    · refine .inl ⟨hok, ?_⟩
      rw [Ledger.requestOf?, hold]
      exact Option.some_ne_none _
    · have hid : digest P (jobValue r.streamId r.candidate) = .ok eventId := hacc.digest_event
      obtain rfl := Except.ok.inj (hjob.symm.trans hid)
      exact .inr ⟨requestDigest, body, hacc, hok⟩

/-! ### Requests and the jobs they put into the outbox -/

/-- The call returns the id of a job that it puts into the outbox. -/
def Enqueues (e : ReviewEntry) (job : Job) : Prop :=
  e.reply = .ok job.jobId ∧ job ∉ e.before.outbox ∧ job ∈ e.after.outbox

/-- The two calls ask for the review of one candidate in one scope. -/
def SameReview (e' e : ReviewEntry) : Prop :=
  e'.op.scopeId = e.op.scopeId ∧ e'.op.candidate = e.op.candidate

/-- The id names a job that is in the outbox after the call, that a call for the same review put
there, and whose event is on the stream of the call. -/
def NamesJob (h : List ReviewEntry) (e : ReviewEntry) (jobId : String) : Prop :=
  ∃ e' ∈ h ++ [e], ∃ job ∈ e.after.outbox, SameReview e' e ∧ Enqueues e' job ∧ job.jobId = jobId ∧
    ∃ ev ∈ e.after.events, ev.eventId = job.eventId ∧ ev.streamId = e.op.streamId

/-- The review of a candidate has been requested in a scope. -/
def Requested (L : Ledger) (scopeId : String) (candidate : Candidate) : Prop :=
  L.request? scopeId "learning" "enqueue_review" (reviewKey candidate) ≠ none

theorem reviewKey_inj {candidate candidate' : Candidate} :
    reviewKey candidate = reviewKey candidate' ↔ candidate = candidate' := by
  cases candidate
  cases candidate'
  simp [reviewKey, String.append_right_inj]

theorem requested_iff {scopeId : String} {candidate : Candidate} :
    Requested L scopeId candidate ↔ ∃ row ∈ L.requests, row.scopeId = scopeId ∧
      row.actor = "learning" ∧ row.command = "enqueue_review" ∧
      row.idempotencyKey = reviewKey candidate := by
  simp [Requested, Ledger.request?]

/-- A committed request is the only one that its commit adds. -/
theorem requested_commit {r : ReviewRequest} {requestDigest eventId scopeId : String}
    {body : ByteArray} {candidate : Candidate} :
    Requested (L.commit (r.command L) requestDigest eventId body) scopeId candidate ↔
      Requested L scopeId candidate ∨ r.scopeId = scopeId ∧ r.candidate = candidate := by
  rw [requested_iff, requested_iff, ← reviewKey_inj]
  have hrows : (L.commit (r.command L) requestDigest eventId body).requests =
      L.requests ++ [⟨r.scopeId, "learning", "enqueue_review", reviewKey r.candidate,
        requestDigest, rawDigest body⟩] := rfl
  simp [hrows, or_and_right, exists_or]

/-- A call that commits its request enqueues a job. -/
theorem Commits.enqueues {r : ReviewRequest} {jobId : String} (hcommits : Commits P r L jobId) :
    ∃ job, job.jobId = jobId ∧ Enqueues (Entry.perform (ReviewRequest.act P) L r) job := by
  obtain ⟨requestDigest, body, hacc, hact⟩ := hcommits
  refine ⟨Ledger.newJob jobId r.scopeId (rawDigest body), rfl, ?_, fun hjob => ?_, ?_⟩
  · rw [Entry.perform_reply, hact]
    rfl
  · exact List.find?_eq_none.mp (hacc.fresh_job rfl) _ hjob (decide_eq_true rfl)
  · rw [Entry.perform_after, hact]
    exact Ledger.mem_outbox_commit.mpr (.inr ⟨rfl, rfl⟩)

/-- What the calls of a history have left in the ledger: each job they enqueued is there, with its
event and its request, and each request comes from the one stream whose call enqueued its job. -/
structure Booked (P : Primitives) (h : List ReviewEntry) (L : Ledger) : Prop where
  wellFormed : L.WellFormed
  kept : ∀ e ∈ h, ∀ job, Enqueues e job → job ∈ L.outbox ∧
    Requested L e.op.scopeId e.op.candidate ∧
    ∃ ev ∈ L.events, ev.eventId = job.eventId ∧ ev.streamId = e.op.streamId
  origin : ∀ scopeId candidate, Requested L scopeId candidate →
    ∃ e ∈ h, ∃ job, e.op.scopeId = scopeId ∧ e.op.candidate = candidate ∧ Enqueues e job ∧
      digest P (jobValue e.op.streamId e.op.candidate) = .ok job.jobId
  oneStream : ∀ e ∈ h, ∀ e' ∈ h, ∀ job job', Enqueues e job → Enqueues e' job' →
    SameReview e e' → e.op.streamId = e'.op.streamId

/-- A call that enqueues nothing and leaves the ledger alone changes no booking. -/
theorem Booked.snoc_same {r : ReviewRequest} (hb : Booked P h L) (hact : (r.act P L).2 = L) :
    Booked P (h ++ [Entry.perform (ReviewRequest.act P) L r]) (r.act P L).2 := by
  have hno : ∀ job, ¬Enqueues (Entry.perform (ReviewRequest.act P) L r) job := by
    rintro job ⟨-, hnew, hjob⟩
    rw [Entry.perform_after, hact] at hjob
    exact hnew hjob
  have hold : ∀ e ∈ h ++ [Entry.perform (ReviewRequest.act P) L r], ∀ job, Enqueues e job →
      e ∈ h := by
    intro e he job henq
    rcases List.mem_append.mp he with he | he
    · exact he
    · obtain rfl := List.mem_singleton.mp he
      exact absurd henq (hno job)
  rw [hact]
  refine ⟨hb.wellFormed, fun e he job henq => hb.kept e (hold e he job henq) job henq, ?_, ?_⟩
  · intro scopeId candidate hreq
    obtain ⟨e, he, hrest⟩ := hb.origin scopeId candidate hreq
    exact ⟨e, List.mem_append_left _ he, hrest⟩
  · intro e he e' he' job job' henq henq'
    exact hb.oneStream e (hold e he job henq) e' (hold e' he' job' henq') job job' henq henq'

/-- A call that commits books its job. -/
theorem Booked.snoc_commits {r : ReviewRequest} {jobId : String} (hb : Booked P h L)
    (hdigest : digest P (jobValue r.streamId r.candidate) = .ok jobId)
    (hcommits : Commits P r L jobId) :
    Booked P (h ++ [Entry.perform (ReviewRequest.act P) L r]) (r.act P L).2 := by
  obtain ⟨requestDigest, body, hacc, hact⟩ := hcommits
  set e := Entry.perform (ReviewRequest.act P) L r with he
  set L' := L.commit (r.command L) requestDigest jobId body with hL'
  have hafter : (r.act P L).2 = L' := congrArg Prod.snd hact
  have hrequested (scopeId : String) (candidate : Candidate) : Requested L' scopeId candidate ↔
      Requested L scopeId candidate ∨ r.scopeId = scopeId ∧ r.candidate = candidate :=
    requested_commit
  have hwas : ¬Requested L r.scopeId r.candidate := not_not.mpr hacc.unused
  -- the job of this call is the new one, on the stream of this call
  have hown : ∀ job, Enqueues e job → job ∈ L'.outbox ∧
      ∃ ev ∈ L'.events, ev.eventId = job.eventId ∧ ev.streamId = r.streamId := by
    rintro job ⟨-, hnew, hjob⟩
    rw [he, Entry.perform_after, hafter] at hjob
    refine ⟨hjob, ?_⟩
    rcases Ledger.mem_outbox_commit.mp hjob with hjob | ⟨-, rfl⟩
    · exact absurd hjob hnew
    · exact ⟨_, List.mem_concat_self, rfl, rfl⟩
  obtain ⟨job₀, hid₀, henq⟩ := Commits.enqueues ⟨requestDigest, body, hacc, hact⟩
  have hsplit : ∀ e' ∈ h ++ [e], e' ∈ h ∨ e' = e := by simp
  rw [hafter]
  refine ⟨hb.wellFormed.commit hacc, ?_, ?_, ?_⟩
  · intro e' he' job henq'
    rcases hsplit e' he' with hold | rfl
    · obtain ⟨hjob, hreq, ev, hev, hrest⟩ := hb.kept e' hold job henq'
      exact ⟨Ledger.mem_outbox_commit.mpr (.inl hjob), (hrequested _ _).mpr (.inl hreq), ev,
        List.mem_append_left _ hev, hrest⟩
    · obtain ⟨hjob, hev⟩ := hown job henq'
      exact ⟨hjob, (hrequested _ _).mpr (.inr ⟨rfl, rfl⟩), hev⟩
  · intro scopeId candidate hreq
    rcases (hrequested scopeId candidate).mp hreq with hold | ⟨rfl, rfl⟩
    · obtain ⟨e', he', hrest⟩ := hb.origin scopeId candidate hold
      exact ⟨e', List.mem_append_left _ he', hrest⟩
    · exact ⟨e, List.mem_concat_self, job₀, rfl, rfl, henq, hid₀ ▸ hdigest⟩
  · -- no call before this one enqueued the same review
    have hfirst : ∀ e' ∈ h, ∀ job, Enqueues e' job → ¬SameReview e' e := by
      rintro e' he' job henq' ⟨hscope, hcandidate⟩
      obtain ⟨-, hreq, -⟩ := hb.kept e' he' job henq'
      rw [hscope, hcandidate] at hreq
      exact hwas hreq
    intro e' he' e'' he'' job job' henq' henq'' hsame
    rcases hsplit e' he' with hold | rfl <;> rcases hsplit e'' he'' with hold' | rfl
    · exact hb.oneStream e' hold e'' hold' job job' henq' henq'' hsame
    · exact absurd hsame (hfirst e' hold job henq')
    · exact absurd ⟨hsame.1.symm, hsame.2.symm⟩ (hfirst e'' hold' job' henq'')
    · rfl

/-- **The books stay right**, call by call. -/
theorem Booked.snoc (hb : Booked P h L) (r : ReviewRequest) :
    Booked P (h ++ [Entry.perform (ReviewRequest.act P) L r]) (r.act P L).2 := by
  obtain ⟨failure, hact⟩ | ⟨jobId, hdigest, ⟨hact, -⟩ | hcommits⟩ := act_cases (P := P) r L
  · exact hb.snoc_same (congrArg Prod.snd hact)
  · exact hb.snoc_same (congrArg Prod.snd hact)
  · exact hb.snoc_commits hdigest hcommits

/-- A well-formed ledger without a review request is booked by the empty history. -/
theorem booked_nil (hL : L.WellFormed)
    (hnew : ∀ scopeId candidate, ¬Requested L scopeId candidate) : Booked P [] L where
  wellFormed := hL
  kept := by simp
  origin scopeId candidate hreq := absurd hreq (hnew scopeId candidate)
  oneStream := by simp

/-- Along every run the books are right. -/
theorem booked_of_run (hL : L₀.WellFormed)
    (hnew : ∀ scopeId candidate, ¬Requested L₀ scopeId candidate)
    (hr : Run (ReviewRequest.act P) L₀ h L) : Booked P h L :=
  hr.inv (booked_nil hL hnew) fun _ _ r _ hb => hb.snoc r

/-! ### When the returned id names a job -/

/-- **When the id that a call returns names a job**, in every run of review requests: when the
review, if it was enqueued before, was enqueued on the stream of the call. -/
theorem namesJob_iff {jobId : String} (hL : L₀.WellFormed)
    (hnew : ∀ scopeId candidate, ¬Requested L₀ scopeId candidate)
    (hr : Run (ReviewRequest.act P) L₀ (h ++ [e]) L) (hreply : e.reply = .ok jobId) :
    NamesJob h e jobId ↔
      ∀ e' ∈ h, ∀ job, Enqueues e' job → SameReview e' e → e'.op.streamId = e.op.streamId := by
  obtain ⟨hbefore, he, -⟩ := hr.split
  have hb : Booked P h e.before := booked_of_run hL hnew hbefore
  have hb' : Booked P (h ++ [e]) e.after := booked_of_run hL hnew hr.upTo
  constructor
  · rintro ⟨e₁, he₁, job₁, -, hsame₁, henq₁, -, ev, hev, hid, hstream⟩ e₂ he₂ job₂ henq₂ hsame₂
    obtain ⟨-, -, ev₁, hev₁, hid₁, hstream₁⟩ := hb'.kept e₁ he₁ job₁ henq₁
    obtain rfl := Rows.eq_of_key_eq hb'.wellFormed.event_ids hev hev₁ (hid.trans hid₁.symm)
    have hstreams := hb'.oneStream e₁ he₁ e₂ (List.mem_append_left _ he₂) job₁ job₂ henq₁ henq₂
      ⟨hsame₁.1.trans hsame₂.1.symm, hsame₁.2.trans hsame₂.2.symm⟩
    rw [← hstreams, ← hstream₁, hstream]
  · intro hstreams
    have hreply' : (e.op.act P e.before).1 = .ok jobId := by
      rw [← hreply, he]
      rfl
    have hafter : e.after = (e.op.act P e.before).2 := congrArg Entry.after he
    obtain ⟨failure, hact⟩ | ⟨jobId', hdigest, ⟨hact, hreq⟩ | hcommits⟩ :=
      act_cases (P := P) e.op e.before
    · rw [hact] at hreply'
      cases hreply'
    · -- a repeat returns the digest of its stream, which is the stream of the original
      rw [hact] at hreply' hafter
      obtain rfl := Except.ok.inj hreply'
      obtain ⟨e', he', job, hscope, hcandidate, henq, hdigest'⟩ :=
        hb.origin e.op.scopeId e.op.candidate hreq
      have hstream := hstreams e' he' job henq ⟨hscope, hcandidate⟩
      rw [hstream, hcandidate, hdigest] at hdigest'
      obtain ⟨hjob, -, ev, hev, hid, hon⟩ := hb.kept e' he' job henq
      refine ⟨e', List.mem_append_left _ he', job, hafter ▸ hjob, ⟨hscope, hcandidate⟩, henq,
        (Except.ok.inj hdigest').symm, ev, hafter ▸ hev, hid, hon.trans hstream⟩
    · obtain ⟨job, -, henq⟩ := hcommits.enqueues
      rw [← he] at henq
      have hid : job.jobId = jobId := Except.ok.inj (henq.1.symm.trans hreply)
      obtain ⟨hjob, -, hev⟩ := hb'.kept e List.mem_concat_self job henq
      exact ⟨e, List.mem_concat_self, job, hjob, ⟨rfl, rfl⟩, henq, hid, hev⟩

/-- A request for the review of candidate `c` on a stream. -/
def acmeReview (streamId : String) : ReviewRequest :=
  { scopeId := acmeScope, streamId, candidate := ⟨"c"⟩ }

/-- The call of a request in a ledger. -/
def reviewOf (L : Ledger) (streamId : String) : ReviewEntry :=
  Entry.perform (ReviewRequest.act .ascii) L (acmeReview streamId)

/-- The ledger after the first request, on stream `s`. -/
def reviewedLedger : Ledger := (reviewOf acmeLedger "s").after

/-- The id of its job. -/
def acmeJob : String :=
  "sha256:f7241ccb82bb0f699c3141a19f15865d5ac3703254376a95ea495f67647537a6"

/-- The id that a second request gets on stream `t`. -/
def acmeLostJob : String :=
  "sha256:fad91cbc1780b18e8e599c1b9ac341daa31134447d35afa148567ee1664f9430"

theorem not_requested_acme (scopeId : String) (candidate : Candidate) :
    ¬Requested acmeLedger scopeId candidate := fun hreq => hreq rfl

theorem run_reviewOf (streamId : String) :
    Run (ReviewRequest.act .ascii) acmeLedger ([reviewOf acmeLedger "s"] ++
      [reviewOf reviewedLedger streamId]) (reviewOf reviewedLedger streamId).after :=
  (Run.nil.snoc _).snoc _

/-- A second request on the stream of the first returns the first one's job. -/
theorem namesJob_iff_repeat :
    NamesJob [reviewOf acmeLedger "s"] (reviewOf reviewedLedger "s") acmeJob := by
  have hreply : (reviewOf reviewedLedger "s").reply = .ok acmeJob := by decide +kernel
  refine (namesJob_iff history_acme.wellFormed not_requested_acme (run_reviewOf "s") hreply).mpr ?_
  intro e' he' _ _ _
  obtain rfl := List.mem_singleton.mp he'
  rfl

/-- On either stream it is the same candidate. -/
example : (acmeReview "t").candidate = (acmeReview "s").candidate := by decide +kernel

/-- **A repeat on another stream names no job**: it returns the digest made of its own stream. -/
theorem not_namesJob :
    ¬∀ (P : Primitives) (L₀ L : Ledger) (h : List ReviewEntry) (e : ReviewEntry) (jobId : String),
      L₀.WellFormed → (∀ scopeId candidate, ¬Requested L₀ scopeId candidate) →
      Run (ReviewRequest.act P) L₀ (h ++ [e]) L → e.reply = .ok jobId → NamesJob h e jobId := by
  intro hclaim
  obtain ⟨hreply, hlost⟩ : (reviewOf reviewedLedger "t").reply = .ok acmeLostJob ∧
      ∀ job ∈ (reviewOf reviewedLedger "t").after.outbox, job.jobId ≠ acmeLostJob := by
    decide +kernel
  obtain ⟨_, _, job, hjob, _, _, hid, _⟩ := hclaim .ascii _ _ _ _ _ history_acme.wellFormed
    not_requested_acme (run_reviewOf "t") hreply
  exact hlost job hjob hid

end Improvement

end CyranoAgent
