import CyranoAgent.Contracts.Canonical
import CyranoAgent.Lib.Action
import CyranoAgent.Lib.Rows
import CyranoAgent.Lib.Run

/-!
# The foundation event store

`EventStore`, the single-table foundation of the event ledger and the outbox: `append`,
`claim` and `finish` on the four tables of its schema. Unlike the scoped repository it keeps
the revision a request produced in the request's row, and a repeated request is answered from
that row: `append_agrees` is its replay law, over all of its histories.
-/

namespace CyranoAgent

open Lib Lib.Action

namespace EventStore

/-- A row of `streams`. -/
structure StreamRow where
  stream : String
  revision : ℕ

/-- A row of `events`. The payload is the text of its canonical bytes. -/
structure EventRow where
  stream : String
  revision : ℕ
  payload : ByteArray
  payloadDigest : String

/-- A row of `requests`. -/
structure RequestRow where
  stream : String
  requestKey : String
  requestDigest : String
  revision : ℕ

/-- The states of a job. -/
inductive JobState
  | pending | leased | done
  deriving DecidableEq

/-- A row of `outbox`. -/
structure JobRow where
  jobKey : String
  stream : String
  revision : ℕ
  state : JobState := .pending
  owner : Option String := none
  leaseUntil : ℤ := 0
  fence : ℤ := 0

/-- The four tables. -/
structure Store where
  streams : List StreamRow := []
  events : List EventRow := []
  requests : List RequestRow := []
  outbox : List JobRow := []

/-- What a call on the store is. -/
abbrev Op (α : Type) := Lib.Action Store Failure α

/-- The request recorded under a key of a stream. -/
def Store.request? (S : Store) (stream key : String) : Option RequestRow :=
  S.requests.find? fun row => row.stream = stream ∧ row.requestKey = key

/-- The revision of a stream. -/
def Store.revision (S : Store) (stream : String) : ℕ :=
  ((S.streams.find? fun row => row.stream = stream).map (·.revision)).getD 0

section

variable (P : Primitives)

/-- The writes of a request that is not a repetition. -/
def appendFresh (stream : String) (expectedRevision : ℤ) (key requestDigest : String)
    (payload : PyMapping) (data : ByteArray) (enqueue : Bool) : Op ℕ := do
  modify fun S => { S with
    streams := Rows.insertOrIgnore (·.stream) ⟨stream, 0⟩ S.streams }
  let S ← get
  let revision := S.revision stream
  raiseIf ((revision : ℤ) ≠ expectedRevision) (.cyrano "STALE_REVISION" stream)
  let payloadDigest ← lift (digest P (.dict payload))
  raiseIf (S.events.any fun row => row.stream = stream ∧ row.revision = revision + 1)
    (Failure.unique "events.stream, events.revision")
  modify fun S => { S with
    events := S.events ++ [⟨stream, revision + 1, data, payloadDigest⟩]
    streams := Rows.update (fun row => row.stream = stream)
      (fun row => { row with revision := revision + 1 }) S.streams
    requests := S.requests ++ [⟨stream, key, requestDigest, revision + 1⟩] }
  if enqueue then
    let job ← lift (digest P (.dict
      [(.str "stream", .str stream), (.str "revision", .int (revision + 1 : ℕ))]))
    raiseIf (S.outbox.any fun row => row.jobKey = job) (Failure.unique "outbox.job_key")
    modify fun S => { S with
      outbox := S.outbox ++ [{ jobKey := job, stream, revision := revision + 1 }] }
  return revision + 1

/-- `append`. -/
def append (stream : String) (expectedRevision : ℤ) (key : String) (payload : PyMapping)
    (enqueue : Bool) : Op ℕ := do
  let requestDigest ← lift (digest P (.dict [(.str "payload", .dict payload),
    (.str "enqueue", .bool enqueue), (.str "expected", .int expectedRevision)]))
  let data ← lift (canonicalBytes P (.dict payload))
  transaction do
    let S ← get
    match S.request? stream key with
    | some old =>
      raiseIf (old.requestDigest ≠ requestDigest) (.cyrano "IDEMPOTENCY_CONFLICT" key)
      return old.revision
    | none => appendFresh P stream expectedRevision key requestDigest payload data enqueue

end

/-- `claim`: lease the oldest job that is pending or whose lease has expired. -/
def claim (owner : String) (now ttl : ℤ) : Op (Option (String × ℤ)) := do
  raiseIf (ttl ≤ 0) (.cyrano "INVALID_LEASE" "ttl must be positive")
  transaction do
    let S ← get
    match S.outbox.find? fun row =>
        row.state = .pending ∨ (row.state = .leased ∧ row.leaseUntil ≤ now) with
    | none => return none
    | some row =>
      modify fun S => { S with
        outbox := Rows.update (fun r => r.jobKey = row.jobKey)
          (fun r => { r with
            state := .leased, owner := some owner, leaseUntil := now + ttl
            fence := row.fence + 1 })
          S.outbox }
      return some (row.jobKey, row.fence + 1)

/-- The condition of `finish`'s update. -/
def liveLease (key owner : String) (fence now : ℤ) (row : JobRow) : Bool :=
  row.jobKey = key ∧ row.owner = some owner ∧ row.fence = fence ∧ row.state = .leased ∧
    now < row.leaseUntil

/-- `finish`. -/
def finish (key owner : String) (fence now : ℤ) : Op Unit := do
  let S ← get
  modify fun S => { S with
    outbox := Rows.update (liveLease key owner fence now)
      (fun row => { row with state := .done }) S.outbox }
  raiseIf ((S.outbox.filter (liveLease key owner fence now)).length ≠ 1)
    (.cyrano "STALE_LEASE" key)

/-! ### The store as a machine -/

/-- The arguments of `append`. -/
structure Append where
  stream : String
  expectedRevision : ℤ
  key : String
  payload : PyMapping
  enqueue : Bool := false

/-- The calls of the store. -/
inductive Call
  | append (a : Append)
  | claim (owner : String) (now ttl : ℤ)
  | finish (key owner : String) (fence now : ℤ)

/-- What a call returns. -/
inductive Reply
  | revision (n : ℕ)
  | job (granted : Option (String × ℤ))
  | done

/-- The action of a call. -/
def Call.op (P : Primitives) : Call → Op Reply
  | .append a =>
    Reply.revision <$> EventStore.append P a.stream a.expectedRevision a.key a.payload a.enqueue
  | .claim owner now ttl => Reply.job <$> EventStore.claim owner now ttl
  | .finish key owner fence now => (fun _ => Reply.done) <$> EventStore.finish key owner fence now

/-- Perform a call. -/
def Call.act (P : Primitives) (call : Call) (S : Store) : Except Failure Reply × Store :=
  (call.op P).run S

/-- One call of a history of the store. -/
abbrev CallEntry := Entry Store Call (Except Failure Reply)

/-- The calls of `h` lead from an empty store to `S`. -/
abbrev History (P : Primitives) (h : List CallEntry) (S : Store) : Prop :=
  Run (Call.act P) {} h S

variable {P : Primitives} {S S' : Store} {h₁ h₂ : List CallEntry} {e e' : CallEntry}

/-! ### Repeated requests -/

/-- An append that returns has its revision in the request row of its key. -/
theorem append_eq_ok {a : Append} {n : ℕ}
    (h : (append P a.stream a.expectedRevision a.key a.payload a.enqueue).run S = (.ok n, S')) :
    (S' = S ∧ ∃ row, S.request? a.stream a.key = some row ∧ row.revision = n) ∨
      ∃ requestDigest, S.request? a.stream a.key = none ∧
        S'.requests = S.requests ++ [⟨a.stream, a.key, requestDigest, n⟩] := by
  simp only [append, bind_eq_ok, lift_eq_ok, transaction_eq_ok] at h
  obtain ⟨requestDigest, _, ⟨-, rfl⟩, data, _, ⟨-, rfl⟩, _, _, hget, h⟩ := h
  simp only [run_get, Prod.mk.injEq, Except.ok.injEq] at hget
  obtain ⟨rfl, rfl⟩ := hget
  split at h
  · next old hold =>
    simp only [bind_eq_ok, raiseIf_eq_ok, run_pure, Prod.mk.injEq, Except.ok.injEq] at h
    obtain ⟨_, _, ⟨-, rfl⟩, rfl, rfl⟩ := h
    exact .inl ⟨rfl, old, hold, rfl⟩
  · next hnone =>
    refine .inr ⟨requestDigest, hnone, ?_⟩
    simp only [appendFresh, bind_eq_ok, lift_eq_ok, raiseIf_eq_ok, run_get, run_modify,
      Prod.mk.injEq, Except.ok.injEq, ite_eq_ok, run_pure] at h
    obtain ⟨_, _, ⟨-, rfl⟩, _, _, ⟨rfl, rfl⟩, _, _, ⟨-, rfl⟩, _, _, ⟨-, rfl⟩, _, _, ⟨-, rfl⟩,
      _, _, ⟨-, rfl⟩, ⟨-, _, _, ⟨-, rfl⟩, _, _, ⟨-, rfl⟩, _, _, ⟨-, rfl⟩, rfl, rfl⟩ |
        ⟨-, rfl, rfl⟩⟩ := h
    · rfl
    · rfl

/-- Only a fresh append writes a request row, and it appends its own. -/
theorem Call.act_requests (call : Call) :
    (call.act P S).2.requests = S.requests ∨
      ∃ a requestDigest n, call = .append a ∧ (call.act P S).1 = .ok (.revision n) ∧
        S.request? a.stream a.key = none ∧
        (call.act P S).2.requests = S.requests ++ [⟨a.stream, a.key, requestDigest, n⟩] := by
  cases call with
  | append a =>
    rcases hrun : (EventStore.append P a.stream a.expectedRevision a.key a.payload a.enqueue).run S
      with ⟨e | n, S'⟩
    · have hatomic : Atomic
          (EventStore.append P a.stream a.expectedRevision a.key a.payload a.enqueue) :=
        Atomic.bind (readOnly_lift _) fun _ =>
          Atomic.bind (readOnly_lift _) fun _ => atomic_transaction _
      obtain rfl := hatomic hrun
      left
      rw [Call.act, Call.op, run_map, hrun]
    · rw [Call.act, Call.op, run_map, hrun]
      rcases append_eq_ok hrun with ⟨rfl, -⟩ | ⟨requestDigest, hnone, hrequests⟩
      · exact .inl rfl
      · exact .inr ⟨a, requestDigest, n, rfl, rfl, hnone, hrequests⟩
  | claim owner now ttl =>
    left
    rcases hrun : (EventStore.claim owner now ttl).run S with ⟨e | granted, S'⟩
    · have hatomic : Atomic (EventStore.claim owner now ttl) :=
        Atomic.bind (readOnly_raiseIf _ _) fun _ => atomic_transaction _
      obtain rfl := hatomic hrun
      rw [Call.act, Call.op, run_map, hrun]
    · rw [Call.act, Call.op, run_map, hrun]
      simp only [EventStore.claim, bind_eq_ok, raiseIf_eq_ok, transaction_eq_ok, run_get,
        Prod.mk.injEq, Except.ok.injEq] at hrun
      obtain ⟨_, _, ⟨-, rfl⟩, _, _, ⟨rfl, rfl⟩, hrun⟩ := hrun
      split at hrun
      · simp only [run_pure, Prod.mk.injEq] at hrun
        rw [hrun.2]
      · simp only [bind_eq_ok, run_modify, run_pure, Prod.mk.injEq] at hrun
        obtain ⟨_, _, ⟨-, rfl⟩, -, rfl⟩ := hrun
        rfl
  | finish key owner fence now =>
    left
    simp only [Call.act, Call.op, run_map, EventStore.finish, run_bind, run_get, run_modify]
    rw [raiseIf]
    split <;> rfl

/-- A request row is never changed or deleted. -/
theorem request?_act {stream key : String} {row : RequestRow} (call : Call)
    (hrow : S.request? stream key = some row) :
    (call.act P S).2.request? stream key = some row := by
  rcases call.act_requests (P := P) (S := S) with hsame | ⟨a, requestDigest, n, -, -, -, happ⟩
  · rw [Store.request?, hsame]
    exact hrow
  · rw [Store.request?, happ, List.find?_append]
    rw [Store.request?] at hrow
    rw [hrow, Option.some_or]

/-- The row behind an append that returned. -/
theorem request?_of_append {a : Append} {n : ℕ}
    (h : ((Call.append a).act P S).1 = .ok (.revision n)) :
    ∃ row, ((Call.append a).act P S).2.request? a.stream a.key = some row ∧
      row.revision = n := by
  rcases hact : (Call.append a).act P S with ⟨reply, S'⟩
  rw [hact] at h
  subst h
  obtain ⟨m, hrun, hm⟩ := map_eq_ok.mp hact
  obtain rfl : m = n := by simpa using hm
  rcases append_eq_ok hrun with ⟨rfl, row, hrow, hrev⟩ | ⟨requestDigest, hnone, hrequests⟩
  · exact ⟨row, hrow, hrev⟩
  · refine ⟨⟨a.stream, a.key, requestDigest, m⟩, ?_, rfl⟩
    rw [Store.request?] at hnone ⊢
    rw [hrequests, List.find?_append, hnone]
    simp

/-- **A repeated append returns what the first one returned**, whatever was appended, claimed
or finished in between. -/
theorem append_agrees {a a' : Append} {n n' : ℕ}
    (hr : History P (h₁ ++ e' :: (h₂ ++ [e])) S) (hop' : e'.op = .append a')
    (hreply' : e'.reply = .ok (.revision n')) (hop : e.op = .append a)
    (hreply : e.reply = .ok (.revision n)) (hstream : a'.stream = a.stream)
    (hkey : a'.key = a.key) : n = n' := by
  obtain ⟨-, heq', hrest⟩ := hr.split
  obtain ⟨hmid, heq, -⟩ := hrest.split
  rw [heq', hop'] at hreply'
  obtain ⟨row', hrow', hrev'⟩ := request?_of_append hreply'
  rw [← Entry.perform_after (Call.act P) e'.before, ← hop', ← heq'] at hrow'
  have hbefore : e.before.request? a'.stream a'.key = some row' :=
    hmid.inv_state (I := fun S => S.request? a'.stream a'.key = some row') hrow'
      fun _ call hrow => request?_act call hrow
  rw [heq, hop] at hreply
  obtain ⟨row, hrow, hrev⟩ := request?_of_append hreply
  have hafter := request?_act (P := P) (.append a) hbefore
  rw [hstream, hkey] at hafter
  rw [hafter, Option.some.injEq] at hrow
  rw [← hrev, ← hrev', hrow]

end EventStore

end CyranoAgent
