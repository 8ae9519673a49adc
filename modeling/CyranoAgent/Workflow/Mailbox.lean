import Mathlib.Data.List.MinMax
import Mathlib.Data.String.Basic
import CyranoAgent.Lib.Run
import CyranoAgent.Sqlite.Repository

/-!
# The mailbox

`send` and `consume` of `TeamCoordinator`. All scopes share one table: `consume` takes the message
with the smallest id that waits for a stream and recipient, whatever scope sent it, and raises when
it is a foreign one. `delivers_iff` says when a scope's messages still arrive one by one in the
order in which it sent them: exactly when at each of its calls the earliest that waits has the
smallest id.

The table is the list of its rows in insertion order, so a scope's rows stand in sending order.
-/

namespace CyranoAgent

open Lib Lib.Action

/-- Where a message goes: the scope that sends and consumes it, the stream and the recipient. -/
structure Address where
  scopeId : String
  streamId : String
  recipient : String
  deriving DecidableEq, Repr

/-- A row of `mailbox`. -/
structure MailboxRow where
  messageId : String
  address : Address
  sender : String
  generation : ℤ
  payloadDigest : String
  expiresAt : ℤ
  consumed : Bool
  deriving DecidableEq, Repr

/-- `MailboxMessage`. -/
structure MailboxMessage where
  messageId : String
  sender : String
  payloadDigest : String
  deriving DecidableEq, Repr

/-- The message of a row. -/
def MailboxRow.message (row : MailboxRow) : MailboxMessage :=
  ⟨row.messageId, row.sender, row.payloadDigest⟩

/-- The table `mailbox`. -/
abbrev Mailbox := List MailboxRow

/-- An operation on the mailbox. -/
abbrev MailOp (α : Type) := Action Mailbox Failure α

namespace Mailbox

/-- The message that waits for a stream and recipient under the smallest id. -/
def next? (M : Mailbox) (streamId recipient : String) : Option MailboxRow :=
  (M.filter fun row => row.address.streamId = streamId ∧ row.address.recipient = recipient ∧
    row.consumed = false).argmin (·.messageId)

/-- `UPDATE mailbox SET consumed=1`. -/
def consumeId (M : Mailbox) (messageId : String) : Mailbox :=
  Rows.update (fun row => row.messageId = messageId ∧ row.consumed = false)
    (fun row => { row with consumed := true }) M

/-- Bind an integer parameter of a statement. -/
def bindInt (n : ℤ) : MailOp Unit := raiseIf (¬Repository.Bindable n) Failure.overflow

/-- `INSERT INTO mailbox` of a message that is not consumed. -/
def insert (row : MailboxRow) : MailOp Unit := do
  bindInt row.generation
  bindInt row.expiresAt
  let M ← get
  raiseIf (M.any fun row' => row'.messageId = row.messageId)
    (Failure.unique "mailbox.message_id")
  modify fun M => M ++ [row]

/-- `send`. -/
def send (scopeId streamId messageId sender recipient payloadDigest : String)
    (generation expiresAt : ℤ) : MailOp MailboxMessage := do
  transaction do
    tryCatch
      (insert ⟨messageId, ⟨scopeId, streamId, recipient⟩, sender, generation, payloadDigest,
        expiresAt, false⟩)
      fun error => throw (.cyrano "IDEMPOTENCY_CONFLICT" error.text)
  return ⟨messageId, sender, payloadDigest⟩

/-- The transaction of `consume`: the row it took, if any waited. -/
def consumeIn (scopeId streamId recipient : String) : MailOp (Option MailboxRow) :=
  transaction do
    match (← get).next? streamId recipient with
    | none => return none
    | some row => do
      raiseIf (row.address.scopeId ≠ scopeId) (.cyrano "ACL_DENIED" "message scope does not match")
      modify fun M => M.consumeId row.messageId
      return some row

/-- `consume`. An expired message is consumed before its error is raised. -/
def consume (scopeId streamId recipient : String) (now : ℤ) : MailOp (Option MailboxMessage) := do
  match ← consumeIn scopeId streamId recipient with
  | none => return none
  | some row => do
    raiseIf (row.expiresAt < now) (.cyrano "MESSAGE_EXPIRED" row.messageId)
    return some row.message

/-! ### The mailbox as a machine -/

/-- The calls of any number of coordinators, each with its scope. -/
inductive MailCall
  | send (address : Address) (messageId sender payloadDigest : String) (generation expiresAt : ℤ)
  | consume (address : Address) (now : ℤ)

/-- What a call returns. -/
inductive MailReply
  | sent (message : MailboxMessage)
  | taken (message? : Option MailboxMessage)
  deriving DecidableEq, Repr

/-- Perform a call. -/
def MailCall.act (call : MailCall) (M : Mailbox) : Except Failure MailReply × Mailbox :=
  match call with
  | .send address messageId sender payloadDigest generation expiresAt =>
    (MailReply.sent <$> Mailbox.send address.scopeId address.streamId messageId sender
      address.recipient payloadDigest generation expiresAt).run M
  | .consume address now =>
    (MailReply.taken <$> Mailbox.consume address.scopeId address.streamId address.recipient
      now).run M

/-- One call of a history of the mailbox. -/
abbrev MailEntry := Entry Mailbox MailCall (Except Failure MailReply)

/-- The answer to the call that takes a message: the message, or that it has expired. -/
def answer (row : MailboxRow) (now : ℤ) : Except Failure MailReply :=
  if row.expiresAt < now then .error (.cyrano "MESSAGE_EXPIRED" row.messageId)
  else .ok (.taken (some row.message))

/-- What a call does, with its reply. -/
inductive MailMoves (M : Mailbox) : MailCall → Except Failure MailReply → Mailbox → Prop
  | sent {row : MailboxRow} : (∀ row' ∈ M, row'.messageId ≠ row.messageId) →
      row.consumed = false →
      MailMoves M (.send row.address row.messageId row.sender row.payloadDigest row.generation
        row.expiresAt) (.ok (.sent row.message)) (M ++ [row])
  | refused {address : Address} {messageId sender payloadDigest text : String}
      {generation expiresAt : ℤ} :
      MailMoves M (.send address messageId sender payloadDigest generation expiresAt)
        (.error (.cyrano "IDEMPOTENCY_CONFLICT" text)) M
  | empty {address : Address} {now : ℤ} : M.next? address.streamId address.recipient = none →
      MailMoves M (.consume address now) (.ok (.taken none)) M
  | denied {address : Address} {now : ℤ} {row : MailboxRow} :
      M.next? address.streamId address.recipient = some row → row.address ≠ address →
      MailMoves M (.consume address now)
        (.error (.cyrano "ACL_DENIED" "message scope does not match")) M
  | took {now : ℤ} {row : MailboxRow} :
      M.next? row.address.streamId row.address.recipient = some row →
      MailMoves M (.consume row.address now) (answer row now) (M.consumeId row.messageId)

section

variable {M M' : Mailbox} {row : MailboxRow} {streamId recipient : String}

/-! ### One call -/

/-- A message that is next waits in the table. -/
theorem mem_of_next? (h : M.next? streamId recipient = some row) :
    row ∈ M ∧ row.address.streamId = streamId ∧ row.address.recipient = recipient ∧
      row.consumed = false := by
  have hmem := List.mem_filter.mp (List.argmin_mem h)
  exact ⟨hmem.1, of_decide_eq_true hmem.2⟩

@[simp] theorem bindInt_eq_ok {n : ℤ} {u : Unit} :
    (bindInt n).run M = (.ok u, M') ↔ Repository.Bindable n ∧ M = M' := by
  simp [bindInt]

/-- A message is inserted under a fresh id. -/
theorem insert_eq_ok {u : Unit} (h : (insert row).run M = (.ok u, M')) :
    (∀ row' ∈ M, row'.messageId ≠ row.messageId) ∧ M' = M ++ [row] := by
  simp only [insert, bind_eq_ok, bindInt_eq_ok, run_get, raiseIf_eq_ok, run_modify, Prod.mk.injEq,
    Except.ok.injEq, true_and] at h
  obtain ⟨_, _, ⟨-, rfl⟩, _, _, ⟨-, rfl⟩, _, _, ⟨rfl, rfl⟩, _, _, ⟨hfresh, rfl⟩, rfl⟩ := h
  exact ⟨by simpa using hfresh, rfl⟩

theorem send_moves (row : MailboxRow) (hwaits : row.consumed = false) :
    let c := MailCall.send row.address row.messageId row.sender row.payloadDigest row.generation
      row.expiresAt
    MailMoves M c (c.act M).1 (c.act M).2 := by
  intro c
  have hrow : (⟨row.messageId, ⟨row.address.scopeId, row.address.streamId, row.address.recipient⟩,
      row.sender, row.generation, row.payloadDigest, row.expiresAt, false⟩ : MailboxRow) = row := by
    rw [← hwaits]
  rcases hinsert : (insert row).run M with ⟨failure | u, M'⟩
  · have hact : c.act M = (.error (.cyrano "IDEMPOTENCY_CONFLICT" failure.text), M) := by
      rw [MailCall.act, run_map, send, hrow, run_bind, run_transaction, run_tryCatch_error hinsert]
      rfl
    rw [hact]
    exact .refused
  · obtain ⟨hfresh, rfl⟩ := insert_eq_ok hinsert
    have hact : c.act M = (.ok (.sent row.message), M ++ [row]) := by
      rw [MailCall.act, run_map, send, hrow, run_bind, run_transaction, run_tryCatch_ok hinsert]
      rfl
    rw [hact]
    exact .sent hfresh hwaits

theorem consume_moves (address : Address) (now : ℤ) :
    MailMoves M (.consume address now) ((MailCall.consume address now).act M).1
      ((MailCall.consume address now).act M).2 := by
  rw [MailCall.act, run_map, consume, run_bind, consumeIn, run_transaction, run_bind_ok (run_get M)]
  cases hnext : M.next? address.streamId address.recipient with
  | none => exact .empty hnext
  | some row =>
    obtain ⟨-, hs, hr, -⟩ := mem_of_next? hnext
    dsimp only
    rw [run_raiseIf_bind]
    by_cases hscope : row.address.scopeId = address.scopeId
    · obtain rfl : row.address = address := by
        cases haddress : row.address
        cases address
        simp_all
      rw [if_neg (not_not.mpr hscope), run_bind_ok (run_modify _ M)]
      simp only [run_pure, run_raiseIf_bind]
      have htook : MailMoves M (.consume row.address now) (answer row now)
        (M.consumeId row.messageId) := .took hnext
      rw [answer] at htook
      split
      · rwa [if_pos ‹_›] at htook
      · rwa [if_neg ‹_›] at htook
    · rw [if_pos hscope]
      exact .denied hnext fun heq => hscope (congrArg Address.scopeId heq)

/-- **What a call does**, whether it returns or raises. -/
theorem act_moves (c : MailCall) : MailMoves M c (c.act M).1 (c.act M).2 := by
  cases c with
  | send address messageId sender payloadDigest generation expiresAt =>
    exact send_moves ⟨messageId, address, sender, generation, payloadDigest, expiresAt, false⟩ rfl
  | consume address now => exact consume_moves address now

end

/-! ### What a history sent and took -/

/-- The message that an entry sent to an address. -/
def sent? (a : Address) (e : MailEntry) : Option String :=
  match e.op, e.reply with
  | .send address messageId _ _ _ _, .ok _ => if address = a then some messageId else none
  | _, _ => none

/-- The message that an entry took at an address: returned, or reported as expired. -/
def taken? (a : Address) (e : MailEntry) : Option String :=
  match e.op, e.reply with
  | .consume address _, .ok (.taken (some message)) =>
    if address = a then some message.messageId else none
  | .consume address _, .error (.cyrano code messageId) =>
    if address = a ∧ code = "MESSAGE_EXPIRED" then some messageId else none
  | _, _ => none

/-- The messages sent to an address, in sending order. -/
def sentIds (a : Address) (h : List MailEntry) : List String := h.filterMap (sent? a)

/-- The messages taken at an address, in the order of the calls. -/
def takenIds (a : Address) (h : List MailEntry) : List String := h.filterMap (taken? a)

/-- The messages that wait at an address, in sending order. -/
def waiting (M : Mailbox) (a : Address) : List MailboxRow :=
  M.filter fun row => row.address = a ∧ row.consumed = false

/-- What the table records of a history. -/
structure Recorded (h : List MailEntry) (M : Mailbox) : Prop where
  /-- Ids are unique. -/
  unique : (M.map (·.messageId)).Nodup
  /-- The rows of an address are what was sent to it. -/
  sent : ∀ a, (M.filter fun row => row.address = a).map (·.messageId) = sentIds a h
  /-- Every row is as it was sent. -/
  source : ∀ row ∈ M, ∃ e ∈ h, e.op = .send row.address row.messageId row.sender row.payloadDigest
    row.generation row.expiresAt ∧ e.reply = .ok (.sent row.message)
  /-- What was taken is consumed. -/
  taken : ∀ a, ∀ id ∈ takenIds a h,
    ∃ row ∈ M, row.address = a ∧ row.messageId = id ∧ row.consumed = true
  /-- Nothing is taken twice. -/
  once : ∀ a, (takenIds a h).Nodup

section

variable {M M' : Mailbox} {row row' : MailboxRow} {a : Address} {h : List MailEntry}
  {e : MailEntry}

theorem sentIds_snoc : sentIds a (h ++ [e]) = sentIds a h ++ (sent? a e).toList := by
  rw [sentIds, List.filterMap_append, ← sentIds]
  cases hsent : sent? a e <;> simp [hsent]

theorem takenIds_snoc : takenIds a (h ++ [e]) = takenIds a h ++ (taken? a e).toList := by
  rw [takenIds, List.filterMap_append, ← takenIds]
  cases htaken : taken? a e <;> simp [htaken]

/-- An answer takes the message of its row. -/
theorem taken?_answer {now : ℤ} (hop : e.op = .consume row.address now)
    (hreply : e.reply = answer row now) :
    taken? a e = if row.address = a then some row.messageId else none := by
  rw [taken?, hop, hreply, answer]
  by_cases hexpired : row.expiresAt < now <;> simp [hexpired, MailboxRow.message]

theorem mem_consumeId {messageId : String} : row' ∈ M.consumeId messageId ↔
    ∃ row ∈ M, row' =
      if row.messageId = messageId then { row with consumed := true } else row := by
  have hset : ∀ row : MailboxRow,
      (if decide (row.messageId = messageId ∧ row.consumed = false) = true then
        { row with consumed := true } else row) =
      if row.messageId = messageId then { row with consumed := true } else row := by
    intro row
    by_cases hid : row.messageId = messageId
    · cases hconsumed : row.consumed
      · rw [if_pos (decide_eq_true ⟨hid, rfl⟩), if_pos hid]
      · rw [if_neg (by simp), if_pos hid, ← hconsumed]
    · rw [if_neg (by simp [hid]), if_neg hid]
  rw [consumeId, Rows.mem_update]
  refine exists_congr fun row => and_congr_right fun _ => ?_
  rw [hset row]
  exact eq_comm

/-- Consuming keeps everything but the flag. -/
theorem map_consumeId {κ : Type} (messageId : String) {f : MailboxRow → κ}
    (hf : ∀ row, f { row with consumed := true } = f row) :
    (M.consumeId messageId).map f = M.map f := Rows.map_update hf

/-- Rows with one id are one row. -/
theorem Recorded.eq_of_id (hM : Recorded h M) (hrow : row ∈ M) (hrow' : row' ∈ M)
    (hid : row.messageId = row'.messageId) : row = row' :=
  Rows.eq_of_key_eq hM.unique hrow hrow' hid

theorem recorded_nil : Recorded [] [] :=
  ⟨List.nodup_nil, fun _ => rfl, by simp, by simp [takenIds], by simp [takenIds]⟩

/-- A call that neither sends nor takes leaves the record. -/
theorem Recorded.still (hM : Recorded h M) (hsent : ∀ a, sent? a e = none)
    (htaken : ∀ a, taken? a e = none) : Recorded (h ++ [e]) M := by
  refine ⟨hM.unique, fun a => ?_, fun row hrow => ?_, fun a id hid => ?_, fun a => ?_⟩
  · simpa [sentIds_snoc, hsent a] using hM.sent a
  · obtain ⟨e', he', hsource⟩ := hM.source row hrow
    exact ⟨e', List.mem_append_left _ he', hsource⟩
  · exact hM.taken a id (by simpa [takenIds_snoc, htaken a] using hid)
  · simpa [takenIds_snoc, htaken a] using hM.once a

/-- A message that was sent is recorded. -/
theorem Recorded.sending (hM : Recorded h M) (hfresh : ∀ row' ∈ M, row'.messageId ≠ row.messageId)
    (hop : e.op = .send row.address row.messageId row.sender row.payloadDigest row.generation
      row.expiresAt) (hreply : e.reply = .ok (.sent row.message)) :
    Recorded (h ++ [e]) (M ++ [row]) := by
  have htaken : ∀ a, taken? a e = none := by
    intro a
    rw [taken?, hop, hreply]
  refine ⟨Rows.nodup_append hM.unique hfresh, fun a => ?_, fun row' hrow' => ?_,
    fun a id hid => ?_, fun a => ?_⟩
  · rw [List.filter_append, List.map_append, hM.sent a, sentIds_snoc, sent?, hop, hreply]
    by_cases haddress : row.address = a <;> simp [haddress]
  · rcases List.mem_append.mp hrow' with hrow' | hrow'
    · obtain ⟨e', he', hsource⟩ := hM.source row' hrow'
      exact ⟨e', List.mem_append_left _ he', hsource⟩
    · obtain rfl := List.mem_singleton.mp hrow'
      exact ⟨e, by simp, hop, hreply⟩
  · rw [takenIds_snoc, htaken a, Option.toList_none, List.append_nil] at hid
    obtain ⟨row', hrow', hconsumed⟩ := hM.taken a id hid
    exact ⟨row', List.mem_append_left _ hrow', hconsumed⟩
  · simpa [takenIds_snoc, htaken a] using hM.once a

/-- A message that was taken is recorded. -/
theorem Recorded.took (hM : Recorded h M) (hrow : row ∈ M) (hwaits : row.consumed = false)
    {now : ℤ} (hop : e.op = .consume row.address now) (hreply : e.reply = answer row now) :
    Recorded (h ++ [e]) (M.consumeId row.messageId) := by
  have hsent : ∀ a, sent? a e = none := by
    intro a
    rw [sent?, hop]
  refine ⟨?_, fun a => ?_, fun row' hrow' => ?_, fun a id hid => ?_, fun a => ?_⟩
  · rw [map_consumeId _ fun _ => rfl]
    exact hM.unique
  · have hfilter : ((M.consumeId row.messageId).filter fun row => row.address = a) =
        Mailbox.consumeId (M.filter fun row => row.address = a) row.messageId := by
      rw [consumeId, consumeId, Rows.update, Rows.update, List.filter_map]
      congr 1
      refine List.filter_congr fun row' _ => ?_
      simp only [Function.comp_apply]
      split <;> rfl
    rw [hfilter, map_consumeId _ fun _ => rfl, hM.sent a, sentIds_snoc, hsent a, Option.toList_none,
      List.append_nil]
  · obtain ⟨row'', hrow'', rfl⟩ := mem_consumeId.mp hrow'
    obtain ⟨e', he', hsource⟩ := hM.source row'' hrow''
    refine ⟨e', List.mem_append_left _ he', ?_⟩
    split <;> exact hsource
  · rw [takenIds_snoc, taken?_answer hop hreply] at hid
    rcases List.mem_append.mp hid with hid | hid
    · obtain ⟨row', hrow', haddress, hid', hconsumed⟩ := hM.taken a id hid
      refine ⟨_, mem_consumeId.mpr ⟨row', hrow', rfl⟩, ?_⟩
      split
      · exact ⟨haddress, hid', rfl⟩
      · exact ⟨haddress, hid', hconsumed⟩
    · split at hid
      · obtain rfl : id = row.messageId := by simpa using hid
        exact ⟨_, mem_consumeId.mpr ⟨row, hrow, rfl⟩, by simp [*]⟩
      · simp at hid
  · rw [takenIds_snoc, taken?_answer hop hreply]
    split
    · refine List.nodup_append.mpr ⟨hM.once a, by simp, ?_⟩
      rintro id hid _ hid' rfl
      obtain rfl : id = row.messageId := by simpa using hid'
      obtain ⟨row', hrow', -, hid', hconsumed⟩ := hM.taken a _ hid
      rw [hM.eq_of_id hrow' hrow hid', hwaits] at hconsumed
      exact absurd hconsumed (by simp)
    · simpa using hM.once a

/-- **The table records every history.** -/
theorem recorded_of_run (hr : Run MailCall.act [] h M) : Recorded h M := by
  refine hr.inv (I := Recorded) recorded_nil ?_
  intro h M c hr hM
  have hmoves := act_moves (M := M) c
  generalize hreply : (c.act M).1 = reply at hmoves
  generalize hafter : (c.act M).2 = M' at hmoves
  have hreply' : (Entry.perform MailCall.act M c).reply = reply := hreply
  cases hmoves with
  | sent hfresh _ => exact hM.sending hfresh rfl hreply'
  | refused | empty | denied =>
    refine hM.still (fun a => ?_) fun a => ?_
    · simp [sent?, hreply]
    · simp [taken?, hreply]
  | took hnext =>
    obtain ⟨hrow, -, -, hwaits⟩ := mem_of_next? hnext
    exact hM.took hrow hwaits rfl hreply'

/-! ### What waits -/

theorem waiting_append (hwaits : row.consumed = false) :
    waiting (M ++ [row]) a = waiting M a ++ if row.address = a then [row] else [] := by
  rw [waiting, List.filter_append, ← waiting]
  by_cases haddress : row.address = a <;> simp [haddress, hwaits]

theorem waiting_consumeId {messageId : String} :
    waiting (M.consumeId messageId) a =
      (waiting M a).filter fun row => row.messageId ≠ messageId := by
  induction M with
  | nil => rfl
  | cons row M ih =>
    have hcons : Mailbox.consumeId (row :: M) messageId =
        (if decide (row.messageId = messageId ∧ row.consumed = false) = true then
          { row with consumed := true } else row) :: Mailbox.consumeId M messageId := rfl
    rw [hcons, waiting, waiting, List.filter_cons, List.filter_cons, ← waiting, ih, waiting]
    by_cases hid : row.messageId = messageId
    · cases hconsumed : row.consumed <;> by_cases haddress : row.address = a <;>
        simp [hid, hconsumed, haddress]
    · cases hconsumed : row.consumed <;> by_cases haddress : row.address = a <;>
        simp [hid, hconsumed, haddress]

theorem mem_waiting : row ∈ waiting M a ↔ row ∈ M ∧ row.address = a ∧ row.consumed = false := by
  simp [waiting]

/-- What is taken at one address waits at no other. -/
theorem Recorded.waiting_of_ne (hM : Recorded h M) (hrow : row ∈ M) (hne : row.address ≠ a) :
    waiting (M.consumeId row.messageId) a = waiting M a := by
  rw [waiting_consumeId, List.filter_eq_self]
  intro row' hrow'
  obtain ⟨hmem, haddress, -⟩ := mem_waiting.mp hrow'
  refine decide_eq_true fun hid => hne ?_
  rw [hM.eq_of_id hrow hmem hid.symm, haddress]

/-- Taking the first that waits leaves the others. -/
theorem Recorded.waiting_of_head (hM : Recorded h M) {rest : List MailboxRow}
    (hwaiting : waiting M a = row :: rest) : waiting (M.consumeId row.messageId) a = rest := by
  have hids : ((waiting M a).map (·.messageId)).Nodup :=
    hM.unique.sublist (List.filter_sublist.map _)
  rw [hwaiting, List.map_cons, List.nodup_cons] at hids
  rw [waiting_consumeId, hwaiting, List.filter_cons_of_neg (by simp), List.filter_eq_self]
  intro row' hrow'
  refine decide_eq_true fun hid => hids.1 ?_
  rw [← hid]
  exact List.mem_map_of_mem hrow'

/-! ### Delivery -/

/-- The entry is a `consume` at an address. -/
def consumesAt (a : Address) (e : MailEntry) : Bool :=
  match e.op with
  | .consume address _ => address = a
  | .send .. => false

/-- What the mailbox promises the scope of an address over a history. -/
structure Delivers (a : Address) (h : List MailEntry) : Prop where
  /-- At every point its calls have taken what was sent first, in sending order. -/
  inOrder : ∀ h₁ h₂, h = h₁ ++ h₂ → takenIds a h₁ <+: sentIds a h₁
  /-- Every call takes a message while one waits. -/
  progress : ∀ h₁ e h₂ now, h = h₁ ++ e :: h₂ → e.op = .consume a now →
    (takenIds a h₁).length < (sentIds a h₁).length →
      (takenIds a (h₁ ++ [e])).length = (takenIds a h₁).length + 1
  /-- As many calls as messages are open take them all. -/
  finitely : ∀ h₁ h₂ h₃, h = h₁ ++ h₂ ++ h₃ →
    (sentIds a h₁).length ≤ (takenIds a h₁).length + h₂.countP (consumesAt a) →
      sentIds a h₁ <+: takenIds a (h₁ ++ h₂)
  /-- No message is taken twice. -/
  once : (takenIds a h).Nodup
  /-- No call at another address takes a message of this one. -/
  own : ∀ a', a' ≠ a → ∀ id ∈ takenIds a' h, id ∉ sentIds a h
  /-- A message that is taken is returned as it was sent, unless it has expired by then. -/
  answers : ∀ e ∈ h, ∀ now, e.op = .consume a now → ∀ id, taken? a e = some id →
    ∃ e' ∈ h, ∃ sender payloadDigest generation expiresAt,
      e'.op = .send a id sender payloadDigest generation expiresAt ∧
        e'.reply = .ok (.sent ⟨id, sender, payloadDigest⟩) ∧
        e.reply = if expiresAt < now then .error (.cyrano "MESSAGE_EXPIRED" id)
          else .ok (.taken (some ⟨id, sender, payloadDigest⟩))

/-- Whenever a scope consumes while one of its messages waits, the earliest of them has the smallest
id of all that wait for the stream and recipient. -/
def InTurn (a : Address) (h : List MailEntry) : Prop :=
  ∀ e ∈ h, ∀ now, e.op = .consume a now → ∀ row, (waiting e.before a).head? = some row →
    e.before.next? a.streamId a.recipient = some row

/-- One call in turn: what was sent is what was taken, and then what waits. -/
theorem sent_eq_act {c : MailCall} (hM : Recorded h M)
    (hturn : InTurn a (h ++ [Entry.perform MailCall.act M c]))
    (hsent : sentIds a h = takenIds a h ++ (waiting M a).map (·.messageId)) :
    sentIds a (h ++ [Entry.perform MailCall.act M c]) =
      takenIds a (h ++ [Entry.perform MailCall.act M c]) ++
        (waiting (c.act M).2 a).map (·.messageId) := by
  have hcall := hturn _ (List.mem_append_right _ (List.mem_singleton_self _))
  have hmoves := act_moves (M := M) c
  generalize he : Entry.perform MailCall.act M c = e at hcall
  have hreply : e.reply = (c.act M).1 := by rw [← he]; rfl
  have hop : e.op = c := by rw [← he]; rfl
  have hbefore : e.before = M := by rw [← he]; rfl
  rw [← hreply] at hmoves
  generalize (c.act M).2 = M' at hmoves
  rw [sentIds_snoc, takenIds_snoc, hsent, List.append_assoc, List.append_assoc]
  congr 1
  generalize hreply' : e.reply = reply at hmoves
  cases hmoves with
  | @sent row hfresh hwaits =>
    rw [sent?, taken?, hop, hreply', waiting_append hwaits]
    by_cases haddress : row.address = a <;> simp [haddress]
  | refused => simp [sent?, taken?, hop, hreply']
  | empty => simp [sent?, taken?, hop, hreply']
  | denied => simp [sent?, taken?, hop, hreply']
  | @took now row hnext =>
    obtain ⟨hrow, -, -, hwaits⟩ := mem_of_next? hnext
    rw [taken?_answer hop hreply', sent?, hop]
    by_cases haddress : row.address = a
    · subst haddress
      obtain ⟨first, rest, hwaiting⟩ : ∃ first rest, waiting M row.address = first :: rest := by
        refine List.exists_cons_of_ne_nil fun hnil => ?_
        have hmem : row ∈ waiting M row.address := mem_waiting.mpr ⟨hrow, rfl, hwaits⟩
        rw [hnil] at hmem
        exact absurd hmem (by simp)
      have hfirst := hcall now hop first (by rw [hbefore, hwaiting]; rfl)
      rw [hbefore, hnext] at hfirst
      obtain rfl : row = first := Option.some.inj hfirst
      rw [hM.waiting_of_head hwaiting, hwaiting]
      simp
    · rw [hM.waiting_of_ne hrow haddress, if_neg haddress]
      simp

/-- **In turn, what was sent is what was taken, and then what waits.** -/
theorem sent_eq_of_run (hr : Run MailCall.act [] h M) (hturn : InTurn a h) :
    sentIds a h = takenIds a h ++ (waiting M a).map (·.messageId) := by
  revert hturn
  refine hr.inv (I := fun h M => InTurn a h →
    sentIds a h = takenIds a h ++ (waiting M a).map (·.messageId)) (fun _ => rfl) ?_
  intro h M c hr ih hturn
  refine sent_eq_act (recorded_of_run hr) hturn (ih fun e he => ?_)
  exact hturn e (List.mem_append_left _ he)

/-- A call takes the message that is next, when it is for its address. -/
theorem taken?_of_next? {now : ℤ} (hop : e.op = .consume a now)
    (hperform : e = Entry.perform MailCall.act e.before e.op)
    (hnext : e.before.next? a.streamId a.recipient = some row) :
    taken? a e = if row.address = a then some row.messageId else none := by
  have hmoves := act_moves (M := e.before) e.op
  have hreply : e.reply = (e.op.act e.before).1 := congrArg Entry.reply hperform
  rw [← hreply, hop] at hmoves
  generalize hreply' : e.reply = reply at hmoves
  generalize ((MailCall.consume a now).act e.before).2 = M' at hmoves
  cases hmoves with
  | empty hnone =>
    rw [hnone] at hnext
    exact absurd hnext (by simp)
  | @denied _ _ row' hnext' hne =>
    obtain rfl : row' = row := Option.some.inj (hnext'.symm.trans hnext)
    simp [taken?, hop, hreply', hne]
  | @took _ row' hnext' =>
    obtain rfl : row' = row := Option.some.inj (hnext'.symm.trans hnext)
    exact taken?_answer hop hreply'

/-- A call takes nothing when nothing is next. -/
theorem taken?_of_next?_none {now : ℤ} (hop : e.op = .consume a now)
    (hperform : e = Entry.perform MailCall.act e.before e.op)
    (hnone : e.before.next? a.streamId a.recipient = none) : taken? a e = none := by
  have hmoves := act_moves (M := e.before) e.op
  have hreply : e.reply = (e.op.act e.before).1 := congrArg Entry.reply hperform
  rw [← hreply, hop] at hmoves
  generalize hreply' : e.reply = reply at hmoves
  generalize ((MailCall.consume a now).act e.before).2 = M' at hmoves
  cases hmoves with
  | empty => simp [taken?, hop, hreply']
  | denied hnext | took hnext =>
    rw [hnone] at hnext
    exact absurd hnext (by simp)

/-- In turn, a call takes a message while one waits. -/
theorem progress_of_run {h₁ h₂ : List MailEntry} {now : ℤ}
    (hr : Run MailCall.act [] (h₁ ++ e :: h₂) M) (hturn : InTurn a (h₁ ++ e :: h₂))
    (hop : e.op = .consume a now) (hopen : (takenIds a h₁).length < (sentIds a h₁).length) :
    (takenIds a (h₁ ++ [e])).length = (takenIds a h₁).length + 1 := by
  obtain ⟨hbefore, hperform, -⟩ := hr.split
  have hsent := sent_eq_of_run hbefore fun e' he' => hturn e' (List.mem_append_left _ he')
  rw [hsent, List.length_append, List.length_map] at hopen
  obtain ⟨row, rest, hwaiting⟩ : ∃ row rest, waiting e.before a = row :: rest :=
    List.exists_cons_of_ne_nil fun hnil => by simp [hnil] at hopen
  have hnext := hturn e (by simp) now hop row (by rw [hwaiting]; rfl)
  have haddress : row.address = a := by
    have hmem : row ∈ waiting e.before a := by simp [hwaiting]
    exact (mem_waiting.mp hmem).2.1
  rw [takenIds_snoc, taken?_of_next? hop hperform hnext, if_pos haddress]
  simp

/-- What is sent is not sent back. -/
theorem sentIds_append (h₁ h₂ : List MailEntry) :
    sentIds a (h₁ ++ h₂) = sentIds a h₁ ++ sentIds a h₂ := List.filterMap_append

/-- **Finitely many calls are enough**: calls that make progress, in order, take what was sent
before them. -/
theorem finitely_of_progress
    (hinOrder : ∀ h₁ h₂, h = h₁ ++ h₂ → takenIds a h₁ <+: sentIds a h₁)
    (hprogress : ∀ h₁ e h₂ now, h = h₁ ++ e :: h₂ → e.op = .consume a now →
      (takenIds a h₁).length < (sentIds a h₁).length →
        (takenIds a (h₁ ++ [e])).length = (takenIds a h₁).length + 1)
    {h₁ h₂ h₃ : List MailEntry} (heq : h = h₁ ++ h₂ ++ h₃)
    (hmany : (sentIds a h₁).length ≤ (takenIds a h₁).length + h₂.countP (consumesAt a)) :
    sentIds a h₁ <+: takenIds a (h₁ ++ h₂) := by
  have hcount : ∀ h₂ h₃, h = h₁ ++ h₂ ++ h₃ →
      min (sentIds a h₁).length ((takenIds a h₁).length + h₂.countP (consumesAt a)) ≤
        (takenIds a (h₁ ++ h₂)).length := by
    intro h₂
    induction h₂ using List.reverseRecOn with
    | nil =>
      intro h₃ _
      rw [List.countP_nil, List.append_nil]
      omega
    | append_singleton h₂ e ih =>
      intro h₃ heq
      have hearlier := ih (e :: h₃) (by simp [heq])
      have hstep := hprogress (h₁ ++ h₂) e h₃
      have hgrows : (takenIds a (h₁ ++ h₂)).length ≤ (takenIds a (h₁ ++ h₂ ++ [e])).length := by
        rw [takenIds_snoc, List.length_append]
        omega
      have hsent : (sentIds a h₁).length ≤ (sentIds a (h₁ ++ h₂)).length := by
        rw [sentIds_append, List.length_append]
        omega
      rw [← List.append_assoc, List.countP_append, List.countP_singleton]
      cases hop : e.op with
      | send =>
        have hnot : consumesAt a e = false := by simp [consumesAt, hop]
        rw [hnot]
        simp only [Bool.false_eq_true, if_false]
        omega
      | consume address now =>
        by_cases haddress : address = a
        · subst haddress
          have hat : consumesAt address e = true := by simp [consumesAt, hop]
          have hnext := hstep now (by simp [heq]) hop
          rw [hat, if_pos rfl]
          omega
        · have hnot : consumesAt a e = false := by simp [consumesAt, hop, haddress]
          rw [hnot]
          simp only [Bool.false_eq_true, if_false]
          omega
  have hlength := hcount h₂ h₃ heq
  have hlonger : sentIds a h₁ <+: sentIds a (h₁ ++ h₂) := by
    rw [sentIds_append]
    exact List.prefix_append _ _
  exact List.prefix_of_prefix_length_le hlonger (hinOrder (h₁ ++ h₂) h₃ heq) (by omega)

/-- **Calls that make progress, in order, come in turn.** -/
theorem inTurn_of_progress (hr : Run MailCall.act [] h M)
    (hinOrder : ∀ h₁ h₂, h = h₁ ++ h₂ → takenIds a h₁ <+: sentIds a h₁)
    (hprogress : ∀ h₁ e h₂ now, h = h₁ ++ e :: h₂ → e.op = .consume a now →
      (takenIds a h₁).length < (sentIds a h₁).length →
        (takenIds a (h₁ ++ [e])).length = (takenIds a h₁).length + 1) : InTurn a h := by
  revert hinOrder hprogress
  refine hr.inv (I := fun h M => (∀ h₁ h₂, h = h₁ ++ h₂ → takenIds a h₁ <+: sentIds a h₁) →
    (∀ h₁ e h₂ now, h = h₁ ++ e :: h₂ → e.op = .consume a now →
      (takenIds a h₁).length < (sentIds a h₁).length →
        (takenIds a (h₁ ++ [e])).length = (takenIds a h₁).length + 1) → InTurn a h)
    (fun _ _ e he => by simp at he) ?_
  intro h M c hr ih hinOrder hprogress
  have hearlier : InTurn a h := by
    refine ih (fun h₁ h₂ heq => hinOrder h₁ (h₂ ++ [_]) (by rw [heq, List.append_assoc])) ?_
    intro h₁ e h₂ now heq
    exact hprogress h₁ e (h₂ ++ [Entry.perform MailCall.act M c]) now (by simp [heq])
  intro e he now hop row hrow
  rcases List.mem_append.mp he with he | he
  · exact hearlier e he now hop row hrow
  obtain rfl := List.mem_singleton.mp he
  have hM := recorded_of_run hr
  obtain ⟨rest, hwaiting⟩ := List.head?_eq_some_iff.mp hrow
  rw [Entry.perform_before] at hwaiting
  have hsent := sent_eq_of_run hr hearlier
  rw [hwaiting, List.map_cons] at hsent
  have hopen : (takenIds a h).length < (sentIds a h).length := by
    rw [hsent, List.length_append, List.length_cons]
    omega
  have hgrows := hprogress h _ [] now rfl hop hopen
  have horder := hinOrder (h ++ [Entry.perform MailCall.act M c]) [] (by simp)
  rw [takenIds_snoc] at hgrows horder
  have hcall : c = .consume a now := hop
  have hunsent : sent? a (Entry.perform MailCall.act M c) = none := by simp [sent?, hcall]
  rw [sentIds_snoc, hunsent, hsent, Option.toList_none, List.append_nil] at horder
  cases hnext : M.next? a.streamId a.recipient with
  | none =>
    rw [taken?_of_next?_none hop rfl hnext] at hgrows
    simp at hgrows
  | some next =>
    have htaken := taken?_of_next? (e := Entry.perform MailCall.act M c) hop rfl hnext
    rw [htaken] at hgrows horder
    by_cases haddress : next.address = a
    · rw [if_pos haddress] at horder
      have hid : next.messageId = row.messageId := by simpa using horder
      have hmem : row ∈ waiting M a := by simp [hwaiting]
      rw [Entry.perform_before, hnext,
        hM.eq_of_id (mem_of_next? hnext).1 (mem_waiting.mp hmem).1 hid]
    · rw [if_neg haddress] at hgrows
      simp at hgrows

/-- What was taken anywhere was sent to its address only. -/
theorem Recorded.own (hM : Recorded h M) {a' : Address} (hne : a' ≠ a) {id : String}
    (hid : id ∈ takenIds a' h) : id ∉ sentIds a h := by
  intro hsent
  rw [← hM.sent a] at hsent
  obtain ⟨row, hrow, rfl⟩ := List.mem_map.mp hsent
  obtain ⟨hmem, haddress⟩ := List.mem_filter.mp hrow
  obtain ⟨row', hmem', haddress', hid', -⟩ := hM.taken a' _ hid
  obtain rfl := hM.eq_of_id hmem' hmem hid'
  exact hne (haddress'.symm.trans (of_decide_eq_true haddress))

/-- A call that takes a message answers with it as it was sent, unless it has expired. -/
theorem answers_of_run (hr : Run MailCall.act [] h M) (he : e ∈ h) {now : ℤ}
    (hop : e.op = .consume a now) {id : String} (htaken : taken? a e = some id) :
    ∃ e' ∈ h, ∃ sender payloadDigest generation expiresAt,
      e'.op = .send a id sender payloadDigest generation expiresAt ∧
        e'.reply = .ok (.sent ⟨id, sender, payloadDigest⟩) ∧
        e.reply = if expiresAt < now then .error (.cyrano "MESSAGE_EXPIRED" id)
          else .ok (.taken (some ⟨id, sender, payloadDigest⟩)) := by
  obtain ⟨h₁, h₂, rfl⟩ := List.append_of_mem he
  obtain ⟨hbefore, hperform, -⟩ := hr.split
  have hmoves := act_moves (M := e.before) e.op
  have hreply : e.reply = (e.op.act e.before).1 := congrArg Entry.reply hperform
  rw [← hreply, hop] at hmoves
  generalize hreply' : e.reply = reply at hmoves
  generalize ((MailCall.consume a now).act e.before).2 = M' at hmoves
  cases hmoves with
  | empty => simp [taken?, hop, hreply'] at htaken
  | denied => simp [taken?, hop, hreply'] at htaken
  | @took _ row hnext =>
    obtain rfl : row.messageId = id := by simpa [taken?_answer hop hreply'] using htaken
    obtain ⟨e', he', hsend, hsent⟩ :=
      (recorded_of_run hbefore).source row (mem_of_next? hnext).1
    exact ⟨e', List.mem_append_left _ he', _, _, _, _, hsend, hsent, rfl⟩

end

/-! ### A mix of senders -/

/-- The addresses of two scopes with one recipient. -/
def adaBox : Address := ⟨"ada", "s", "worker"⟩

@[inherit_doc adaBox]
def bobBox : Address := ⟨"bob", "s", "worker"⟩

/-- Both scopes send, and one of them consumes `n` times. -/
def mixedCalls (n : ℕ) : List MailCall :=
  .send bobBox "m1" "x" "d" 0 100 :: .send adaBox "m2" "x" "d" 0 100 ::
    List.replicate n (.consume adaBox 1)

/-- The mailbox after the two messages. -/
def mixedMailbox : Mailbox := (exec MailCall.act [] (mixedCalls 0)).2

/-- The foreign message stays in front of the own one. -/
theorem act_mixedMailbox : (MailCall.consume adaBox 1).act mixedMailbox =
    (.error (.cyrano "ACL_DENIED" "message scope does not match"), mixedMailbox) := by
  decide

theorem ids_replicate (n : ℕ) :
    let h := (exec MailCall.act mixedMailbox (List.replicate n (.consume adaBox 1))).1
    sentIds adaBox h = [] ∧ takenIds adaBox h = [] := by
  induction n with
  | zero => exact ⟨rfl, rfl⟩
  | succ n ih =>
    rw [List.replicate_succ, exec, act_mixedMailbox]
    obtain ⟨hsent, htaken⟩ := ih
    refine ⟨?_, ?_⟩
    · rw [sentIds, List.filterMap_cons_none rfl]
      exact hsent
    · rw [takenIds, List.filterMap_cons_none]
      · exact htaken
      · rw [taken?, Entry.perform_reply, act_mixedMailbox]
        rfl

end Mailbox

end CyranoAgent
