import CyranoAgent.Sqlite.Store

/-!
# What holds in every run of the event store

`Effect` lists what a call of the store can do, and `Call.effect_act` says that it does nothing
else. From it follow, by cases, the invariants of a run: the events of a stream are numbered
without gaps, a request is answered from the row of its original, the fence of a job rises with
every claim, and a job is completed once, under the lease that is current (`lawful`).
-/

namespace CyranoAgent

open Lib Lib.Action

namespace EventStore

/-- The document under the digest of a request. -/
def Append.requestValue (a : Append) : PyValue :=
  .dict [(.str "payload", .dict a.payload), (.str "enqueue", .bool a.enqueue),
    (.str "expected", .int a.expectedRevision)]

namespace Store

variable (S : Store)

/-- The revisions of a stream's events, in insertion order. -/
def revisionsOf (stream : String) : List ℕ :=
  (S.events.filter fun row => row.stream = stream).map (·.revision)

/-- The row of a job. -/
def job? (key : String) : Option JobRow := S.outbox.find? fun row => row.jobKey = key

/-- The job a claim takes. -/
def claimable? (now : ℤ) : Option JobRow :=
  S.outbox.find? fun row =>
    row.state = .pending ∨ (row.state = .leased ∧ row.leaseUntil ≤ now)

/-- The store after a fresh append. -/
def appended (a : Append) (requestDigest payloadDigest : String) (data : ByteArray)
    (job : Option String) : Store where
  streams := Rows.update (fun row => row.stream = a.stream)
    (fun row => { row with revision := S.revision a.stream + 1 })
    (Rows.insertOrIgnore (·.stream) ⟨a.stream, 0⟩ S.streams)
  events := S.events ++ [⟨a.stream, S.revision a.stream + 1, data, payloadDigest⟩]
  requests := S.requests ++ [⟨a.stream, a.key, requestDigest, S.revision a.stream + 1⟩]
  outbox := S.outbox ++ job.toList.map fun key =>
    { jobKey := key, stream := a.stream, revision := S.revision a.stream + 1 }

/-- The store after a claim. -/
def granted (row : JobRow) (owner : String) (leaseUntil : ℤ) : Store :=
  { S with
    outbox := Rows.update (fun r => r.jobKey = row.jobKey)
      (fun r => { r with
        state := .leased, owner := some owner, leaseUntil, fence := row.fence + 1 })
      S.outbox }

/-- The store after a finish. -/
def finished (key owner : String) (fence now : ℤ) : Store :=
  { S with
    outbox := Rows.update (liveLease key owner fence now)
      (fun row => { row with state := .done }) S.outbox }

/-- No two jobs share a key. -/
def UniqueJobs : Prop := (S.outbox.map (·.jobKey)).Nodup

end Store

/-- What a call can do. -/
inductive Effect (P : Primitives) (S : Store) : Call → Except Failure Reply → Store → Prop
  | refused (call : Call) (e : Failure) : Effect P S call (.error e) S
  | replayed (a : Append) (row : RequestRow) (hrow : S.request? a.stream a.key = some row)
      (hdigest : digest P a.requestValue = .ok row.requestDigest) :
      Effect P S (.append a) (.ok (.revision row.revision)) S
  | appended (a : Append) (requestDigest payloadDigest : String) (data : ByteArray)
      (job : Option String) (hnone : S.request? a.stream a.key = none)
      (hdigest : digest P a.requestValue = .ok requestDigest)
      (hjob : ∀ key ∈ job, S.job? key = none) :
      Effect P S (.append a) (.ok (.revision (S.revision a.stream + 1)))
        (S.appended a requestDigest payloadDigest data job)
  | idle (owner : String) (now ttl : ℤ) : Effect P S (.claim owner now ttl) (.ok (.job none)) S
  | granted (owner : String) (now ttl : ℤ) (row : JobRow) (hrow : S.claimable? now = some row) :
      Effect P S (.claim owner now ttl) (.ok (.job (some (row.jobKey, row.fence + 1))))
        (S.granted row owner (now + ttl))
  | finished (key owner : String) (fence now : ℤ) (row : JobRow) (hrow : S.job? key = some row)
      (hlive : liveLease key owner fence now row = true) :
      Effect P S (.finish key owner fence now) (.ok .done) (S.finished key owner fence now)

variable {P : Primitives} {S S' : Store} {h h₁ h₂ : List CallEntry} {e e' : CallEntry}

/-! ### What a call does -/

theorem Store.revision_insertOrIgnore (stream stream' : String) :
    ({ S with
      streams := Rows.insertOrIgnore (·.stream) ⟨stream, 0⟩ S.streams } : Store).revision stream' =
      S.revision stream' := by
  rw [Store.revision, Rows.find?_insertOrIgnore, Store.revision]
  rcases hfind : S.streams.find? (fun row => row.stream = stream') with _ | row
  · by_cases heq : stream = stream'
    · simp [hfind, heq]
    · simp [hfind, heq]
  · simp [hfind]

/-- A fresh append that goes through. -/
theorem appendFresh_eq_ok {a : Append} {requestDigest : String} {data : ByteArray} {n : ℕ}
    (h : (appendFresh P a.stream a.expectedRevision a.key requestDigest a.payload data
      a.enqueue).run S = (.ok n, S')) :
    ∃ payloadDigest job, n = S.revision a.stream + 1 ∧ (∀ key ∈ job, S.job? key = none) ∧
      S' = S.appended a requestDigest payloadDigest data job := by
  simp only [appendFresh, bind_eq_ok, lift_eq_ok, raiseIf_eq_ok, run_get, run_modify,
    Prod.mk.injEq, Except.ok.injEq, ite_eq_ok, run_pure] at h
  obtain ⟨_, _, ⟨-, rfl⟩, _, _, ⟨rfl, rfl⟩, _, _, ⟨-, rfl⟩, payloadDigest, _, ⟨-, rfl⟩, _, _,
    ⟨-, rfl⟩, _, _, ⟨-, rfl⟩, hrest⟩ := h
  simp only [Store.revision_insertOrIgnore] at hrest
  rcases hrest with ⟨-, job, _, ⟨-, rfl⟩, _, _, ⟨hfresh, rfl⟩, _, _, ⟨-, rfl⟩, rfl, rfl⟩ |
    ⟨-, rfl, rfl⟩
  · refine ⟨payloadDigest, some job, rfl, ?_, rfl⟩
    rintro key hkey
    obtain rfl := Option.mem_some_iff.mp hkey
    simpa [Store.job?] using hfresh
  · exact ⟨payloadDigest, none, rfl, by simp, by simp [Store.appended]⟩

/-- A finish that finds no live lease changes nothing. -/
theorem finish_eq {key owner : String} {fence now : ℤ} (hS : S.UniqueJobs) :
    (∃ row, S.job? key = some row ∧ liveLease key owner fence now row = true ∧
        (finish key owner fence now).run S = (.ok (), S.finished key owner fence now)) ∨
      (finish key owner fence now).run S = (.error (.cyrano "STALE_LEASE" key), S) := by
  have hkey : ∀ row, liveLease key owner fence now row = true → row.jobKey = key := by
    intro row hlive
    exact (of_decide_eq_true hlive).1
  have hrun : (finish key owner fence now).run S =
      if (S.outbox.filter (liveLease key owner fence now)).length ≠ 1 then
        (.error (.cyrano "STALE_LEASE" key), S.finished key owner fence now)
      else (.ok (), S.finished key owner fence now) := by
    rw [finish, run_bind_ok (run_get S), run_bind_ok (run_modify _ S)]
    by_cases hcount : (S.outbox.filter (liveLease key owner fence now)).length ≠ 1
    · rw [if_pos hcount, raiseIf, if_pos hcount]
      rfl
    · rw [if_neg hcount, raiseIf, if_neg hcount]
      rfl
  rw [hrun]
  rcases hfilter : S.outbox.filter (liveLease key owner fence now) with _ | ⟨row, rest⟩
  · right
    have hnone : ∀ row ∈ S.outbox, liveLease key owner fence now row = false := by
      intro row hrow
      exact Bool.eq_false_iff.mpr (List.filter_eq_nil_iff.mp hfilter row hrow)
    have hsame : S.finished key owner fence now = S := by
      rw [Store.finished, Rows.update_of_forall_not hnone]
    simp [hsame]
  · left
    have hmem : row ∈ S.outbox.filter (liveLease key owner fence now) := by simp [hfilter]
    obtain ⟨hrow, hlive⟩ := List.mem_filter.mp hmem
    have hone := Rows.length_filter_le_one hS hkey
    rw [hfilter] at hone
    have hlength : (row :: rest).length = 1 := le_antisymm hone (by simp)
    refine ⟨row, ?_, hlive, by rw [if_neg (not_not.mpr hlength)]⟩
    rw [← hkey row hlive]
    exact Rows.find?_key hS hrow

/-- **A call does one of these.** -/
theorem Call.effect_act (hS : S.UniqueJobs) (call : Call) :
    Effect P S call (call.act P S).1 (call.act P S).2 := by
  cases call with
  | append a =>
    rcases hrun : (EventStore.append P a.stream a.expectedRevision a.key a.payload a.enqueue).run S
      with ⟨e | n, S'⟩
    · have hatomic : Atomic
          (EventStore.append P a.stream a.expectedRevision a.key a.payload a.enqueue) :=
        Atomic.bind (readOnly_lift _) fun _ =>
          Atomic.bind (readOnly_lift _) fun _ => atomic_transaction _
      obtain rfl := hatomic hrun
      rw [Call.act, Call.op, run_map, hrun]
      exact .refused _ _
    · rw [Call.act, Call.op, run_map, hrun]
      simp only [EventStore.append, bind_eq_ok, lift_eq_ok, transaction_eq_ok, run_get,
        Prod.mk.injEq, Except.ok.injEq] at hrun
      obtain ⟨requestDigest, _, ⟨hdigest, rfl⟩, data, _, ⟨-, rfl⟩, _, _, ⟨rfl, rfl⟩, hrun⟩ := hrun
      split at hrun
      · next old hold =>
        simp only [bind_eq_ok, raiseIf_eq_ok, run_pure, Prod.mk.injEq, Except.ok.injEq] at hrun
        obtain ⟨_, _, ⟨hsame, rfl⟩, rfl, rfl⟩ := hrun
        rw [ne_eq, not_not] at hsame
        exact .replayed a old hold (hsame ▸ hdigest)
      · next hnone =>
        obtain ⟨payloadDigest, job, rfl, hjob, rfl⟩ := appendFresh_eq_ok hrun
        exact .appended a requestDigest payloadDigest data job hnone hdigest hjob
  | claim owner now ttl =>
    rcases hrun : (EventStore.claim owner now ttl).run S with ⟨e | reply, S'⟩
    · have hatomic : Atomic (EventStore.claim owner now ttl) :=
        Atomic.bind (readOnly_raiseIf _ _) fun _ => atomic_transaction _
      obtain rfl := hatomic hrun
      rw [Call.act, Call.op, run_map, hrun]
      exact .refused _ _
    · rw [Call.act, Call.op, run_map, hrun]
      simp only [EventStore.claim, bind_eq_ok, raiseIf_eq_ok, transaction_eq_ok, run_get,
        Prod.mk.injEq, Except.ok.injEq] at hrun
      obtain ⟨_, _, ⟨-, rfl⟩, _, _, ⟨rfl, rfl⟩, hrun⟩ := hrun
      split at hrun
      · obtain ⟨hreply, rfl⟩ := Prod.mk.inj hrun
        obtain rfl := Except.ok.inj hreply
        exact .idle owner now ttl
      · next row hrow =>
        simp only [bind_eq_ok, run_modify, run_pure, Prod.mk.injEq, Except.ok.injEq] at hrun
        obtain ⟨_, _, ⟨-, rfl⟩, rfl, rfl⟩ := hrun
        exact .granted owner now ttl row hrow
  | finish key owner fence now =>
    rw [Call.act, Call.op, run_map]
    rcases finish_eq hS with ⟨row, hrow, hlive, hrun⟩ | hrun
    · rw [hrun]
      exact .finished key owner fence now row hrow hlive
    · rw [hrun]
      exact .refused _ _

/-! ### Well-formed stores -/

/-- What every reachable store satisfies. -/
structure Store.WellFormed (S : Store) : Prop where
  job_keys : S.UniqueJobs
  revisions : ∀ stream, S.revisionsOf stream = List.range' 1 (S.revision stream)

theorem Store.wellFormed_empty : ({} : Store).WellFormed :=
  ⟨List.nodup_nil, fun _ => rfl⟩

/-- A fresh append advances its own stream by one. -/
theorem Store.revision_appended (a : Append) (requestDigest payloadDigest : String)
    (data : ByteArray) (job : Option String) (stream : String) :
    (S.appended a requestDigest payloadDigest data job).revision stream =
      if stream = a.stream then S.revision a.stream + 1 else S.revision stream := by
  have hfind : ((S.appended a requestDigest payloadDigest data job).streams.find?
      fun row => row.stream = stream) =
        ((S.streams.find? fun row => row.stream = stream).or
          (if a.stream = stream then some ⟨a.stream, 0⟩ else none)).map fun row =>
            if row.stream = a.stream then { row with revision := S.revision a.stream + 1 }
            else row := by
    have hstreams : (S.appended a requestDigest payloadDigest data job).streams =
        Rows.update (fun row => row.stream = a.stream)
          (fun row => { row with revision := S.revision a.stream + 1 })
          (Rows.insertOrIgnore (·.stream) ⟨a.stream, 0⟩ S.streams) := rfl
    rw [hstreams, Rows.find?_update, Rows.find?_insertOrIgnore]
    · simp
    · intro row
      rfl
  rw [Store.revision, hfind]
  by_cases heq : stream = a.stream
  · subst heq
    rcases hrow : S.streams.find? (fun row => row.stream = a.stream) with _ | row
    · simp [hrow]
    · have hid : row.stream = a.stream := by simpa using List.find?_some hrow
      simp [hrow, hid]
  · rw [if_neg heq, if_neg (Ne.symm heq), Option.or_none]
    rcases hrow : S.streams.find? (fun row => row.stream = stream) with _ | row
    · simp [Store.revision, hrow]
    · have hid : row.stream = stream := by simpa using List.find?_some hrow
      simp [Store.revision, hrow, hid, heq]

theorem Store.revisionsOf_appended (a : Append) (requestDigest payloadDigest : String)
    (data : ByteArray) (job : Option String) (stream : String) :
    (S.appended a requestDigest payloadDigest data job).revisionsOf stream =
      S.revisionsOf stream ++ if stream = a.stream then [S.revision a.stream + 1] else [] := by
  rw [Store.revisionsOf, Store.appended, List.filter_append, List.map_append, Store.revisionsOf]
  by_cases heq : stream = a.stream
  · simp [heq]
  · simp [heq, Ne.symm heq]

/-- **A call keeps a store well formed.** -/
theorem Store.WellFormed.effect {call : Call} {reply : Except Failure Reply} (hS : S.WellFormed)
    (heff : Effect P S call reply S') : S'.WellFormed := by
  cases heff with
  | refused | replayed | idle => exact hS
  | appended a requestDigest payloadDigest data job hnone hdigest hjob =>
    constructor
    · rcases job with _ | key
      · simpa [Store.UniqueJobs, Store.appended] using hS.job_keys
      · have hfresh := hjob key rfl
        rw [Store.job?, List.find?_eq_none] at hfresh
        exact Rows.nodup_append hS.job_keys fun row hrow => by simpa using hfresh row hrow
    · intro stream
      rw [Store.revisionsOf_appended, Store.revision_appended, hS.revisions]
      by_cases heq : stream = a.stream
      · subst heq
        rw [if_pos rfl, if_pos rfl, List.range'_1_concat, Nat.add_comm 1]
      · rw [if_neg heq, if_neg heq, List.append_nil]
  | granted owner now ttl row hrow =>
    have hkeys : (S.granted row owner (now + ttl)).outbox.map (·.jobKey) =
        S.outbox.map (·.jobKey) := Rows.map_update fun _ => rfl
    exact ⟨by rw [Store.UniqueJobs, hkeys]; exact hS.job_keys, hS.revisions⟩
  | finished key owner fence now row hrow hlive =>
    have hkeys : (S.finished key owner fence now).outbox.map (·.jobKey) =
        S.outbox.map (·.jobKey) := Rows.map_update fun _ => rfl
    exact ⟨by rw [Store.UniqueJobs, hkeys]; exact hS.job_keys, hS.revisions⟩

theorem Store.WellFormed.act (hS : S.WellFormed) (call : Call) :
    (call.act P S).2.WellFormed :=
  hS.effect (Call.effect_act hS.job_keys call)

theorem wellFormed_of_history (hr : History P h S) : S.WellFormed :=
  hr.inv_state Store.wellFormed_empty fun _ call hS => hS.act call

/-- Every entry of a history is a call with its effect. -/
theorem effect_of_history (hr : History P h S) (he : e ∈ h) :
    e.before.WellFormed ∧ Effect P e.before e.op e.reply e.after := by
  obtain ⟨h₁, h₂, rfl⟩ := List.append_of_mem he
  obtain ⟨hbefore, heq, -⟩ := hr.split
  have hwf := wellFormed_of_history hbefore
  refine ⟨hwf, ?_⟩
  rw [heq]
  exact Call.effect_act hwf.job_keys e.op

/-! ### Repeated requests -/

/-- The second call repeats the stream and the key of an append that returned `n`. -/
structure Repeats (e' e : CallEntry) (a' a : Append) (n : ℕ) : Prop where
  op' : e'.op = .append a'
  reply' : e'.reply = .ok (.revision n)
  op : e.op = .append a
  stream : a'.stream = a.stream
  key : a'.key = a.key

/-- The requests have the same canonical bytes. -/
def SameRequest (P : Primitives) (a' a : Append) : Prop :=
  ∃ data, canonicalBytes P a'.requestValue = .ok data ∧ canonicalBytes P a.requestValue = .ok data

/-- The documents of the requests of a history. -/
def requestValues (h : List CallEntry) : Set PyValue :=
  {value | ∃ e ∈ h, ∃ a, e.op = .append a ∧ value = a.requestValue}

/-- An append that returns is recorded with its revision and its digest. -/
theorem Effect.request_of_append {a : Append} {n : ℕ}
    (heff : Effect P S (.append a) (.ok (.revision n)) S') :
    ∃ row, S'.request? a.stream a.key = some row ∧ row.revision = n ∧
      digest P a.requestValue = .ok row.requestDigest := by
  cases heff with
  | replayed _ row hrow hdigest => exact ⟨row, hrow, rfl, hdigest⟩
  | appended _ requestDigest payloadDigest data job hnone hdigest hjob =>
    refine ⟨⟨a.stream, a.key, requestDigest, S.revision a.stream + 1⟩, ?_, rfl, hdigest⟩
    rw [Store.request?] at hnone ⊢
    rw [Store.appended, List.find?_append, hnone]
    simp

/-- A request whose key has a row is answered from it, or refused. -/
theorem Effect.append_of_request {a : Append} {row : RequestRow} {reply : Except Failure Reply}
    (heff : Effect P S (.append a) reply S') (hrow : S.request? a.stream a.key = some row) :
    S' = S ∧ ((∃ err, reply = .error err) ∨ reply = .ok (.revision row.revision) ∧
      digest P a.requestValue = .ok row.requestDigest) := by
  cases heff with
  | refused _ err => exact ⟨rfl, .inl ⟨err, rfl⟩⟩
  | replayed _ row' hrow' hdigest =>
    obtain rfl := Option.some.inj (hrow.symm.trans hrow')
    exact ⟨rfl, .inr ⟨rfl, hdigest⟩⟩
  | appended _ _ _ _ _ hnone =>
    rw [hrow] at hnone
    cases hnone

/-- The payload of a request that can be normalised can be normalised. -/
theorem payload_of_requestValue {a : Append} {v : Json}
    (h : normalize P a.requestValue = .ok v) :
    ∃ data, canonicalBytes P (.dict a.payload) = .ok data := by
  rw [canonicalBytes_isOk]
  rcases hpayload : normalize P (.dict a.payload) with err | w
  · rw [Append.requestValue, normalize_dict, normalizeEntries, hpayload] at h
    cases h
  · exact ⟨w, rfl⟩

/-- A request of the recorded digest is answered. -/
theorem append_of_request {a : Append} {row : RequestRow}
    (hrow : S.request? a.stream a.key = some row)
    (hdigest : digest P a.requestValue = .ok row.requestDigest) :
    (Call.append a).act P S = (.ok (.revision row.revision), S) := by
  obtain ⟨v, hv⟩ := (digest_isOk P).mp ⟨_, hdigest⟩
  obtain ⟨data, hdata⟩ := payload_of_requestValue hv
  have hrun : (EventStore.append P a.stream a.expectedRevision a.key a.payload a.enqueue).run S =
      (.ok row.revision, S) := by
    simp only [EventStore.append, bind_eq_ok, lift_eq_ok, transaction_eq_ok, run_get,
      Prod.mk.injEq, Except.ok.injEq]
    refine ⟨_, S, ⟨hdigest, rfl⟩, data, S, ⟨hdata, rfl⟩, S, S, ⟨rfl, rfl⟩, ?_⟩
    rw [hrow]
    simp
  rw [Call.act, Call.op, run_map, hrun]
  rfl

/-- The row that a repeated request finds. -/
theorem row_of_repeats {a' a : Append} {n : ℕ} (hr : History P h S) (hp : Precedes h e' e)
    (hrep : Repeats e' e a' a n) :
    ∃ row, e.before.request? a.stream a.key = some row ∧ row.revision = n ∧
      digest P a'.requestValue = .ok row.requestDigest := by
  obtain ⟨-, heff⟩ := effect_of_history hr hp.mem_left
  rw [hrep.op', hrep.reply'] at heff
  obtain ⟨row, hrow, hrev, hdigest⟩ := heff.request_of_append
  rw [hrep.stream, hrep.key] at hrow
  have hkept : e.before.request? a.stream a.key = some row :=
    hp.inv (I := fun S => S.request? a.stream a.key = some row) hr hrow
      fun _ call hkept => request?_act call hkept
  exact ⟨row, hkept, hrev, hdigest⟩

/-- **A repeat of the same request returns the original revision and writes nothing.** -/
theorem repeat_same {a' a : Append} {n : ℕ} (hr : History P h S) (hp : Precedes h e' e)
    (hrep : Repeats e' e a' a n) (hsame : SameRequest P a' a) :
    e.reply = .ok (.revision n) ∧ e.after = e.before := by
  obtain ⟨row, hrow, rfl, hdigest⟩ := row_of_repeats hr hp hrep
  have hdigest' : digest P a.requestValue = .ok row.requestDigest := by
    obtain ⟨data, hdata', hdata⟩ := hsame
    rw [← hdigest, digest, digest, taggedBytes, taggedBytes, hdata, hdata']
  have hact := append_of_request hrow hdigest'
  have heq := hr.eq_perform hp.mem_right
  rw [hrep.op] at heq
  rw [heq, Entry.perform_reply, Entry.perform_after, Entry.perform_before, hact]
  exact ⟨rfl, rfl⟩

/-- **A repeat with another request raises and writes nothing.** -/
theorem repeat_different {a' a : Append} {n : ℕ} (hr : History P h S)
    (hsha : CollisionFree P (requestValues h)) (hp : Precedes h e' e)
    (hrep : Repeats e' e a' a n) (hother : ¬SameRequest P a' a) :
    (∃ err, e.reply = .error err) ∧ e.after = e.before := by
  obtain ⟨row, hrow, -, hdigest⟩ := row_of_repeats hr hp hrep
  obtain ⟨-, heff⟩ := effect_of_history hr hp.mem_right
  rw [hrep.op] at heff
  obtain ⟨hsame, hraise | ⟨-, hdigest'⟩⟩ := heff.append_of_request hrow
  · exact ⟨hraise, hsame⟩
  · exact absurd (canonicalBytes_of_digest hsha ⟨e', hp.mem_left, a', hrep.op', rfl⟩
      ⟨e, hp.mem_right, a, hrep.op, rfl⟩ hdigest hdigest') hother

/-! ### Jobs -/

theorem Store.job?_granted (row : JobRow) (owner key : String) (leaseUntil : ℤ) :
    (S.granted row owner leaseUntil).job? key = (S.job? key).map fun r =>
      if r.jobKey = row.jobKey then
        { r with state := .leased, owner := some owner, leaseUntil, fence := row.fence + 1 }
      else r := by
  rw [Store.granted, Store.job?, Rows.find?_update, Store.job?]
  · simp
  · intro r
    rfl

theorem Store.job?_finished (key owner key' : String) (fence now : ℤ) :
    (S.finished key owner fence now).job? key' = (S.job? key').map fun row =>
      if liveLease key owner fence now row then { row with state := .done } else row := by
  rw [Store.finished, Store.job?, Rows.find?_update, Store.job?]
  intro row
  rfl

theorem Store.job?_jobKey {key : String} {row : JobRow} (hrow : S.job? key = some row) :
    row.jobKey = key := by
  simpa using List.find?_some hrow

/-- A claim takes a job under its own key, and none that is done. -/
theorem Store.claimable?_eq_some (hS : S.UniqueJobs) {now : ℤ} {row : JobRow}
    (hrow : S.claimable? now = some row) : S.job? row.jobKey = some row ∧ row.state ≠ .done := by
  refine ⟨Rows.find?_key hS (List.mem_of_find?_eq_some hrow), ?_⟩
  have hstate : row.state = .pending ∨ row.state = .leased ∧ row.leaseUntil ≤ now := by
    simpa using List.find?_some hrow
  rcases hstate with hpending | ⟨hleased, -⟩
  · simp [hpending]
  · simp [hleased]

/-- A call keeps a job, its fence does not fall, and a job that is done stays as it is. -/
theorem Effect.job_kept {call : Call} {reply : Except Failure Reply} {key : String} {row : JobRow}
    (heff : Effect P S call reply S') (hS : S.WellFormed) (hrow : S.job? key = some row) :
    ∃ row', S'.job? key = some row' ∧ row.fence ≤ row'.fence ∧
      (row.state = .done → row' = row) := by
  cases heff with
  | refused | replayed | idle => exact ⟨row, hrow, le_rfl, fun _ => rfl⟩
  | appended a requestDigest payloadDigest data job hnone hdigest hjob =>
    refine ⟨row, ?_, le_rfl, fun _ => rfl⟩
    rw [Store.job?] at hrow ⊢
    rw [Store.appended, List.find?_append, hrow]
    rfl
  | granted owner now ttl taken htaken =>
    refine ⟨_, by rw [Store.job?_granted, hrow]; rfl, ?_⟩
    obtain ⟨hjob, hopen⟩ := Store.claimable?_eq_some hS.job_keys htaken
    by_cases hid : row.jobKey = taken.jobKey
    · rw [← hid, Store.job?_jobKey hrow, hrow] at hjob
      obtain rfl := Option.some.inj hjob
      refine ⟨by simp, fun hdone => absurd hdone hopen⟩
    · simp [hid]
  | finished key' owner fence now ended hended hlive =>
    refine ⟨_, by rw [Store.job?_finished, hrow]; rfl, ?_⟩
    by_cases hmatch : liveLease key' owner fence now row = true
    · have hleased : row.state = .leased := (of_decide_eq_true hmatch).2.2.2.1
      simp [hmatch, hleased]
    · simp [hmatch]

/-- What is said of the row of a job after one call holds before every later one. -/
theorem job_before {key : String} {row : JobRow} (hr : History P h S) (hp : Precedes h e' e)
    (hrow : e'.after.job? key = some row) :
    ∃ row', e.before.job? key = some row' ∧ row.fence ≤ row'.fence ∧
      (row.state = .done → row' = row) := by
  have hkept : e.before.WellFormed ∧ ∃ row', e.before.job? key = some row' ∧
      row.fence ≤ row'.fence ∧ (row.state = .done → row' = row) := by
    refine hp.inv (I := fun S => S.WellFormed ∧ ∃ row', S.job? key = some row' ∧
      row.fence ≤ row'.fence ∧ (row.state = .done → row' = row)) hr ?_ ?_
    · obtain ⟨hwf, heff⟩ := effect_of_history hr hp.mem_left
      exact ⟨hwf.effect heff, row, hrow, le_rfl, fun _ => rfl⟩
    · rintro S call ⟨hwf, row₁, hrow₁, hle, hsame⟩
      obtain ⟨row₂, hrow₂, hle', hsame'⟩ := (Call.effect_act hwf.job_keys call).job_kept hwf hrow₁
      refine ⟨hwf.act call, row₂, hrow₂, hle.trans hle', fun hdone => ?_⟩
      obtain rfl := hsame hdone
      exact hsame' hdone
  exact hkept.2

/-- The call claimed the job under this fence. -/
def Claims (e : CallEntry) (key : String) (fence : ℤ) : Prop :=
  e.reply = .ok (.job (some (key, fence)))

/-- A claim raises the fence of its job. -/
theorem Effect.fence_of_claim {call : Call} {key : String} {fence : ℤ} (hS : S.WellFormed)
    (heff : Effect P S call (.ok (.job (some (key, fence)))) S') :
    (∃ row, S.job? key = some row ∧ row.fence < fence) ∧
      ∃ row', S'.job? key = some row' ∧ row'.fence = fence := by
  cases heff with
  | granted owner now ttl row hrow =>
    obtain ⟨hjob, -⟩ := Store.claimable?_eq_some hS.job_keys hrow
    refine ⟨⟨row, hjob, by omega⟩, _, by rw [Store.job?_granted, hjob]; rfl, by simp⟩

/-- **The fence of a job rises with every claim.** -/
theorem fence_lt {key : String} {fence' fence : ℤ} (hr : History P h S) (hp : Precedes h e' e)
    (hclaim' : Claims e' key fence') (hclaim : Claims e key fence) : fence' < fence := by
  obtain ⟨hwf', heff'⟩ := effect_of_history hr hp.mem_left
  obtain ⟨hwf, heff⟩ := effect_of_history hr hp.mem_right
  rw [hclaim'] at heff'
  rw [hclaim] at heff
  obtain ⟨-, row', hrow', rfl⟩ := heff'.fence_of_claim hwf'
  obtain ⟨⟨row, hrow, hlt⟩, -⟩ := heff.fence_of_claim hwf
  obtain ⟨row₁, hrow₁, hle, -⟩ := job_before hr hp hrow'
  obtain rfl := Option.some.inj (hrow.symm.trans hrow₁)
  omega

/-- The job is done. -/
def Store.Done (S : Store) (key : String) : Prop := ∃ row, S.job? key = some row ∧ row.state = .done

/-- The call completed the job. -/
def Completes (e : CallEntry) (key : String) : Prop := ¬e.before.Done key ∧ e.after.Done key

/-- The call is a finish by the owner and the fence of the job's lease, before it expires. -/
def FinishesLease (e : CallEntry) (key : String) : Prop :=
  ∃ owner fence now row, e.op = .finish key owner fence now ∧ e.reply = .ok .done ∧
    e.before.job? key = some row ∧ row.state = .leased ∧ row.owner = some owner ∧
      row.fence = fence ∧ now < row.leaseUntil

/-- A job that is done after a call was done before, or the call finished its live lease. -/
theorem Effect.done_cases {call : Call} {reply : Except Failure Reply} {key : String}
    (heff : Effect P S call reply S') (hdone : S'.Done key) :
    S.Done key ∨ ∃ owner fence now row, call = .finish key owner fence now ∧ reply = .ok .done ∧
      S.job? key = some row ∧ liveLease key owner fence now row = true := by
  obtain ⟨row', hrow', hstate⟩ := hdone
  cases heff with
  | refused | replayed | idle => exact .inl ⟨row', hrow', hstate⟩
  | appended a requestDigest payloadDigest data job hnone hdigest hjob =>
    left
    rw [Store.job?, Store.appended, List.find?_append] at hrow'
    rcases hrow : S.outbox.find? (fun row => row.jobKey = key) with _ | row
    · -- a job that is new is pending
      rw [hrow, Option.none_or] at hrow'
      obtain ⟨_, -, rfl⟩ := List.mem_map.mp (List.mem_of_find?_eq_some hrow')
      cases hstate
    · rw [hrow, Option.some_or] at hrow'
      exact ⟨row', hrow.trans hrow', hstate⟩
  | granted owner now ttl taken htaken =>
    left
    rw [Store.job?_granted] at hrow'
    obtain ⟨row, hrow, rfl⟩ := Option.map_eq_some_iff.mp hrow'
    by_cases hid : row.jobKey = taken.jobKey
    · simp [hid] at hstate
    · exact ⟨row, hrow, by simpa [hid] using hstate⟩
  | finished key' owner fence now ended hended hlive =>
    rw [Store.job?_finished] at hrow'
    obtain ⟨row, hrow, rfl⟩ := Option.map_eq_some_iff.mp hrow'
    by_cases hmatch : liveLease key' owner fence now row = true
    · obtain rfl : row.jobKey = key' := (of_decide_eq_true hmatch).1
      rw [Store.job?_jobKey hrow] at hmatch ⊢
      exact .inr ⟨owner, fence, now, row, rfl, rfl, hrow, hmatch⟩
    · exact .inl ⟨row, hrow, by simpa [hmatch] using hstate⟩

/-- **A job is completed by a finish under its current lease, and by nothing else.** -/
theorem completes_iff {key : String} (hr : History P h S) (he : e ∈ h) :
    Completes e key ↔ FinishesLease e key := by
  obtain ⟨-, heff⟩ := effect_of_history hr he
  constructor
  · rintro ⟨hopen, hdone⟩
    obtain ⟨owner, fence, now, row, hop, hreply, hrow, hlive⟩ :=
      (heff.done_cases hdone).resolve_left hopen
    obtain ⟨-, howner, hfence, hleased, hnow⟩ := of_decide_eq_true hlive
    exact ⟨owner, fence, now, row, hop, hreply, hrow, hleased, howner, hfence, hnow⟩
  · rintro ⟨owner, fence, now, row, hop, hreply, hrow, hleased, howner, hfence, hnow⟩
    constructor
    · rintro ⟨row', hrow', hstate⟩
      obtain rfl := Option.some.inj (hrow.symm.trans hrow')
      rw [hleased] at hstate
      cases hstate
    · rw [hop, hreply] at heff
      generalize e.after = T at heff ⊢
      cases heff with
      | finished _ _ _ _ row' hrow' hlive =>
        rw [Store.Done, Store.job?_finished, hrow']
        exact ⟨_, rfl, by simp [hlive]⟩

/-- **A job is completed at most once.** -/
theorem completes_once {key : String} (hr : History P h S) (hp : Precedes h e' e)
    (hdone : Completes e' key) : ¬Completes e key := by
  obtain ⟨-, row, hrow, hstate⟩ := hdone
  obtain ⟨row', hrow', -, hkept⟩ := job_before hr hp hrow
  obtain rfl := hkept hstate
  exact fun hagain => hagain.1 ⟨row', hrow', hstate⟩

/-! ### The store's law -/

/-- What holds of a history and of the store it leads to. -/
structure Lawful (P : Primitives) (h : List CallEntry) (S : Store) : Prop where
  revisions : ∀ stream, S.revisionsOf stream = List.range' 1 (S.revision stream)
  replays : ∀ e' e a' a n, Precedes h e' e → Repeats e' e a' a n → SameRequest P a' a →
    e.reply = .ok (.revision n) ∧ e.after = e.before
  conflicts : ∀ e' e a' a n, Precedes h e' e → Repeats e' e a' a n → ¬SameRequest P a' a →
    (∃ err, e.reply = .error err) ∧ e.after = e.before
  fences : ∀ e' e key fence' fence, Precedes h e' e → Claims e' key fence' → Claims e key fence →
    fence' < fence
  completed_once : ∀ e' e key, Precedes h e' e → Completes e' key → ¬Completes e key
  completed_by : ∀ e ∈ h, ∀ key, Completes e key ↔ FinishesLease e key

/-- A request that is appended twice, claimed, and claimed again after its lease. -/
def workedTwice : List Call :=
  [.append ⟨"s", 0, "k", [], true⟩, .append ⟨"s", 0, "k", [], true⟩, .claim "ada" 0 10,
    .claim "bob" 10 10]

end EventStore

end CyranoAgent
