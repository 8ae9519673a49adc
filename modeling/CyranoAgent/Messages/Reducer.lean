import CyranoAgent.Contracts.Canonical
import CyranoAgent.Lib.Slots

/-!
# The reducer of the messages channel

`_messages_delta_reducer` applies a batch of writes to the messages of a thread: a message takes the
place of the one with its id or comes last, a `RemoveMessage` takes one away, and the sentinel
`REMOVE_ALL_MESSAGES` all of them. A checkpoint replays the writes of a thread in batches of its own
choice, so the result must not depend on where they are cut: `reduce_batches`. It rests on
`reducer_eq_foldl`, that the reducer with its index is the loop that goes through the messages for
every write.

Messages are taken as they are after `convert_to_messages`, and the sentinel, a constant of
langgraph, is a parameter.
-/

namespace CyranoAgent

open Lib

namespace Messages

/-- The types of messages. -/
inductive MessageType
  | human | ai | system | tool | remove
  deriving DecidableEq, Repr

/-- A tool call of an `AIMessage`; `isInvalid` is its type `invalid_tool_call`. -/
structure ToolCall where
  id : Option String
  name : Option String
  isInvalid : Bool := false
  deriving DecidableEq, Repr

/-- `AnyMessage`. -/
structure AnyMessage where
  id : Option String := none
  type : MessageType
  content : PyValue := .str ""
  name : Option String := none
  toolCalls : List ToolCall := []
  invalidToolCalls : List ToolCall := []
  toolCallId : Option String := none
  status : String := ""

/-- The ids of messages, in their order. -/
def ids (messages : List AnyMessage) : List String := Keyed.keys AnyMessage.id messages

section

variable (removeAll : String)

/-- The sentinel that removes all messages. -/
def isRemoveAll (m : AnyMessage) : Bool := m.type = .remove ∧ m.id = some removeAll

/-- The place of the last sentinel. -/
def removeAllIdx (msgs : List AnyMessage) : Option ℕ :=
  msgs.zipIdx.foldl (fun idx m => if isRemoveAll removeAll m.1 then some m.2 else idx) none

/-- A message of the state is noted in the index. -/
def seed (S : Slots String AnyMessage) (m : AnyMessage) : Slots String AnyMessage :=
  match m.id with
  | none => S.push m
  | some mid => S.pushAt mid m

/-- One write. -/
def write (S : Slots String AnyMessage) (msg : AnyMessage) : Slots String AnyMessage :=
  match msg.id with
  | none => S.push msg
  | some mid => if msg.type = .remove then S.remove mid else S.upsert mid msg

/-- `_messages_delta_reducer`. -/
def messagesDeltaReducer (state : List AnyMessage) (writes : List (List AnyMessage)) :
    List AnyMessage :=
  let msgs := writes.flatten
  let (state, msgs) := match removeAllIdx removeAll msgs with
    | some idx => ([], msgs.drop (idx + 1))
    | none => (state, msgs)
  (msgs.foldl write (state.foldl seed {})).items

/-! ### The plain loop -/

/-- One write, by going through the messages. -/
def apply (messages : List AnyMessage) (msg : AnyMessage) : List AnyMessage :=
  if isRemoveAll removeAll msg then []
  else match msg.id with
    | none => messages ++ [msg]
    | some mid =>
      if msg.type = .remove then Keyed.remove AnyMessage.id mid messages
      else Keyed.upsert AnyMessage.id mid msg messages

end

variable {removeAll : String} {state msgs : List AnyMessage} {S : Slots String AnyMessage}

/-- The last sentinel has none behind it. -/
theorem removeAllIdx_cases (msgs : List AnyMessage) :
    (removeAllIdx removeAll msgs = none ∧ ∀ m ∈ msgs, isRemoveAll removeAll m = false) ∨
      ∃ before m after, msgs = before ++ m :: after ∧
        removeAllIdx removeAll msgs = some before.length ∧ isRemoveAll removeAll m = true ∧
        ∀ m ∈ after, isRemoveAll removeAll m = false := by
  induction msgs using List.reverseRecOn with
  | nil => exact .inl ⟨rfl, by simp⟩
  | append_singleton msgs m ih =>
    have hsnoc : removeAllIdx removeAll (msgs ++ [m]) =
        if isRemoveAll removeAll m then some msgs.length else removeAllIdx removeAll msgs := by
      simp [removeAllIdx, List.zipIdx_append]
    rw [hsnoc]
    by_cases hm : isRemoveAll removeAll m = true
    · exact .inr ⟨msgs, m, [], rfl, if_pos hm, hm, by simp⟩
    · rw [if_neg hm]
      rw [Bool.not_eq_true] at hm
      rcases ih with ⟨hnone, hall⟩ | ⟨before, m', after, rfl, hidx, hm', hafter⟩
      · refine .inl ⟨hnone, ?_⟩
        rw [List.forall_mem_append]
        exact ⟨hall, by simpa using hm⟩
      · refine .inr ⟨before, m', after ++ [m], by simp, hidx, hm', ?_⟩
        rw [List.forall_mem_append]
        exact ⟨hafter, by simpa using hm⟩

/-- Messages with different ids are all noted. -/
theorem foldl_seed (hids : (ids state).Nodup) :
    (state.foldl seed {}).Indexed AnyMessage.id ∧ (state.foldl seed {}).items = state := by
  induction state using List.reverseRecOn with
  | nil => exact ⟨Slots.indexed_empty, rfl⟩
  | append_singleton state m ih =>
    rw [ids, Keyed.keys, List.filterMap_append, List.nodup_append] at hids
    obtain ⟨hS, hitems⟩ := ih hids.1
    rw [List.foldl_append, List.foldl_cons, List.foldl_nil, seed]
    cases hid : m.id with
    | none => exact ⟨hS.push hid, by rw [Slots.items_push, hitems]⟩
    | some mid =>
      refine ⟨hS.pushAt hid ?_, by rw [Slots.items_pushAt, hitems]⟩
      refine Option.eq_none_iff_forall_ne_some.mpr fun i hi => ?_
      have hmem := hS.mem_keys.mpr ⟨i, hi⟩
      rw [hitems] at hmem
      exact hids.2.2 mid hmem mid (by simp [hid]) rfl

/-- **One write through the index is one write through the messages.** -/
theorem write_spec (hS : S.Indexed AnyMessage.id) {msg : AnyMessage}
    (hmsg : isRemoveAll removeAll msg = false) :
    (write S msg).Indexed AnyMessage.id ∧ (write S msg).items = apply removeAll S.items msg := by
  rw [write, apply, if_neg (by simp [hmsg])]
  cases hid : msg.id with
  | none => exact ⟨hS.push hid, Slots.items_push⟩
  | some mid =>
    dsimp only
    split_ifs
    · exact ⟨hS.remove, hS.items_remove⟩
    · exact ⟨hS.upsert hid, hS.items_upsert⟩

theorem foldl_write (hS : S.Indexed AnyMessage.id)
    (hmsgs : ∀ m ∈ msgs, isRemoveAll removeAll m = false) :
    (msgs.foldl write S).items = msgs.foldl (apply removeAll) S.items := by
  induction msgs generalizing S with
  | nil => rfl
  | cons m msgs ih =>
    rw [List.forall_mem_cons] at hmsgs
    obtain ⟨hS', hitems⟩ := write_spec hS hmsgs.1
    rw [List.foldl_cons, List.foldl_cons, ih hS' hmsgs.2, hitems]

/-- A write keeps ids unique. -/
theorem nodup_ids_apply (hids : (ids state).Nodup) (msg : AnyMessage) :
    (ids (apply removeAll state msg)).Nodup := by
  rw [apply]
  by_cases hall : isRemoveAll removeAll msg = true
  · simp [hall, ids, Keyed.keys]
  · rw [if_neg hall]
    cases hid : msg.id with
    | none => exact Keyed.nodup_keys_append hid hids
    | some mid =>
      dsimp only
      split_ifs
      · exact Keyed.nodup_keys_remove hids
      · exact Keyed.nodup_keys_upsert hid hids

theorem nodup_ids_foldl (hids : (ids state).Nodup) (msgs : List AnyMessage) :
    (ids (msgs.foldl (apply removeAll) state)).Nodup := by
  induction msgs generalizing state with
  | nil => exact hids
  | cons m msgs ih => exact ih (nodup_ids_apply hids m)

/-- **The reducer is the plain loop** over the writes of its batch, on messages with different
ids. -/
theorem reducer_eq_foldl (hids : (ids state).Nodup) (writes : List (List AnyMessage)) :
    messagesDeltaReducer removeAll state writes =
      writes.flatten.foldl (apply removeAll) state := by
  rw [messagesDeltaReducer]
  rcases @removeAllIdx_cases removeAll writes.flatten with
    ⟨hnone, hall⟩ | ⟨before, m, after, hflat, hidx, hm, hafter⟩
  · obtain ⟨hS, hitems⟩ := foldl_seed hids
    simp only [hnone, foldl_write hS hall, hitems]
  · have hdrop : (before ++ m :: after).drop (before.length + 1) = after := by simp
    have hall : apply removeAll (before.foldl (apply removeAll) state) m = [] := if_pos hm
    simp only [hidx]
    rw [hflat, hdrop, List.foldl_append, List.foldl_cons, hall]
    exact foldl_write Slots.indexed_empty hafter

/-- **Where a batch is cut makes no difference**: reducing batch after batch gives what one batch of
all their writes gives, and ids stay unique. -/
theorem reduce_batches (hids : (ids state).Nodup) (batches : List (List (List AnyMessage))) :
    batches.foldl (messagesDeltaReducer removeAll) state =
        messagesDeltaReducer removeAll state batches.flatten ∧
      (ids (messagesDeltaReducer removeAll state batches.flatten)).Nodup := by
  have hfold : batches.foldl (messagesDeltaReducer removeAll) state =
      batches.flatten.flatten.foldl (apply removeAll) state := by
    induction batches generalizing state with
    | nil => rfl
    | cons batch batches ih =>
      have hids' := @nodup_ids_foldl removeAll state hids batch.flatten
      rw [List.foldl_cons, reducer_eq_foldl hids, ih hids', List.flatten_cons, List.flatten_append,
        List.foldl_append]
  rw [hfold, reducer_eq_foldl hids]
  exact ⟨rfl, nodup_ids_foldl hids _⟩

/-- Three messages, two of them written again and one removed, in two batches. -/
theorem reduce_batches_cut :
    let state : List AnyMessage := [{ id := "a", type := .human }, { id := "b", type := .ai },
      { type := .system }]
    let batches : List (List (List AnyMessage)) :=
      [[[{ id := "b", type := .tool }, { id := "c", type := .human }]],
        [[{ id := "a", type := .remove }], [{ id := "c", type := .ai }]]]
    batches.foldl (messagesDeltaReducer "__remove_all__") state =
        messagesDeltaReducer "__remove_all__" state batches.flatten ∧
      (ids (messagesDeltaReducer "__remove_all__" state batches.flatten)).Nodup :=
  reduce_batches (by decide) _

/-- The cut does make a difference when two messages share an id: the removal takes the later one,
and the write that follows finds the other in a second batch only. -/
example :
    let state : List AnyMessage := [{ id := "a", type := .human }, { id := "a", type := .ai }]
    let first : List (List AnyMessage) := [[{ id := "a", type := .remove }]]
    let second : List (List AnyMessage) := [[{ id := "a", type := .tool }]]
    [first, second].foldl (messagesDeltaReducer "__remove_all__") state =
        [{ id := "a", type := .tool }] ∧
      messagesDeltaReducer "__remove_all__" state (first ++ second) =
        [{ id := "a", type := .human }, { id := "a", type := .tool }] := ⟨rfl, rfl⟩

end Messages

end CyranoAgent
