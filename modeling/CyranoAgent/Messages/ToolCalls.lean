import Mathlib.Data.List.Forall2
import CyranoAgent.Messages.Reducer

/-!
# Tool calls without an answer

`PatchToolCallsMiddleware.before_agent` puts a `ToolMessage` behind every message of the model whose
tool calls were never answered, and rewrites the whole channel. `patched_settled` follows the update
through the reducer: the thread is then as it was, with an answer behind every such call, no call is
without one, and the middleware has nothing more to do.
-/

namespace CyranoAgent

open Lib

namespace Messages

/-- The tool calls of a message, the valid ones first. -/
def calls (msg : AnyMessage) : List ToolCall :=
  if msg.type = .ai then msg.toolCalls ++ msg.invalidToolCalls else []

/-- The ids of the calls that a `ToolMessage` answers. -/
def answeredIds (messages : List AnyMessage) : List (Option String) :=
  (messages.filter fun msg => msg.type = .tool).map (·.toolCallId)

/-- A call that has an id and no answer. -/
def isDangling (answered : List (Option String)) (call : ToolCall) : Bool :=
  call.id ≠ none ∧ call.id ∉ answered

/-- The answer that is put in for a call. -/
def placeholder (call : ToolCall) : AnyMessage :=
  let name := if call.name.getD "" = "" then "unknown" else call.name.getD ""
  { type := .tool
    content := .str <| "Tool call " ++ name ++ " with id " ++ call.id.getD "" ++
      if call.isInvalid then " could not be executed - arguments were malformed or truncated."
      else " did not complete - no result was recorded. It may have been cancelled or interrupted."
    name := name
    toolCallId := call.id
    status := "error" }

/-- The answers that are put behind a message. -/
def placeholders (answered : List (Option String)) (msg : AnyMessage) : List AnyMessage :=
  ((calls msg).filter (isDangling answered)).map placeholder

/-- The messages with the missing answers. -/
def patchedMessages (messages : List AnyMessage) : List AnyMessage :=
  messages.flatMap fun msg => msg :: placeholders (answeredIds messages) msg

/-- The sentinel of an update. -/
def removeAllMessage (removeAll : String) : AnyMessage := { id := removeAll, type := .remove }

/-- `before_agent`: the messages of its update. -/
def beforeAgent (removeAll : String) (messages : List AnyMessage) : Option (List AnyMessage) :=
  if messages = [] then none
  else if ¬∃ msg ∈ messages, ∃ call ∈ calls msg, isDangling (answeredIds messages) call then none
  else some (removeAllMessage removeAll :: patchedMessages messages)

/-! ### What the patch adds -/

variable {removeAll : String} {state stamped : List AnyMessage} {msg : AnyMessage}
  {call : ToolCall}

/-- A message but for its id. -/
def anonymous (msg : AnyMessage) : AnyMessage := { msg with id := none }

theorem calls_anonymous (msg : AnyMessage) : calls (anonymous msg) = calls msg := rfl

theorem type_anonymous (msg : AnyMessage) : (anonymous msg).type = msg.type := rfl

/-- The messages but for their ids have the same answers. -/
theorem answeredIds_map_anonymous (messages : List AnyMessage) :
    answeredIds (messages.map anonymous) = answeredIds messages := by
  rw [answeredIds, List.filter_map, List.map_map]
  rfl

theorem mem_patchedMessages : msg ∈ patchedMessages state ↔
    msg ∈ state ∨ ∃ m ∈ state, ∃ call ∈ calls m, isDangling (answeredIds state) call = true ∧
      placeholder call = msg := by
  rw [patchedMessages, List.mem_flatMap]
  simp only [List.mem_cons, placeholders, List.mem_map, List.mem_filter]
  constructor
  · rintro ⟨m, hm, rfl | ⟨call, ⟨hcall, hdangling⟩, rfl⟩⟩
    · exact .inl hm
    · exact .inr ⟨m, hm, call, hcall, hdangling, rfl⟩
  · rintro (hm | ⟨m, hm, call, hcall, hdangling, rfl⟩)
    · exact ⟨msg, hm, .inl rfl⟩
    · exact ⟨m, hm, .inr ⟨call, ⟨hcall, hdangling⟩, rfl⟩⟩

/-- A placeholder makes no calls. -/
theorem calls_placeholder (call : ToolCall) : calls (placeholder call) = [] :=
  if_neg (by simp [placeholder])

/-- **Every call is answered after the patch.** -/
theorem answered_patched (hmsg : msg ∈ patchedMessages state) (hcall : call ∈ calls msg) :
    isDangling (answeredIds (patchedMessages state)) call = false := by
  have hold : msg ∈ state := by
    rcases mem_patchedMessages.mp hmsg with hold | ⟨m, -, call', -, -, rfl⟩
    · exact hold
    · rw [calls_placeholder] at hcall
      cases hcall
  have hanswered {m : AnyMessage} (hm : m ∈ patchedMessages state) (htype : m.type = .tool) :
      m.toolCallId ∈ answeredIds (patchedMessages state) :=
    List.mem_map_of_mem (List.mem_filter.mpr ⟨hm, decide_eq_true htype⟩)
  rw [← Bool.not_eq_true, isDangling, decide_eq_true_eq, not_and, not_not]
  intro hid
  by_cases hdangling : isDangling (answeredIds state) call = true
  · exact hanswered (m := placeholder call)
      (mem_patchedMessages.mpr (.inr ⟨msg, hold, call, hcall, hdangling, rfl⟩)) rfl
  · rw [isDangling, decide_eq_true_eq, not_and, not_not] at hdangling
    obtain ⟨m, hm, htool⟩ := List.mem_map.mp (hdangling hid)
    obtain ⟨hm, htype⟩ := List.mem_filter.mp hm
    rw [← htool]
    exact hanswered (mem_patchedMessages.mpr (.inl hm)) (of_decide_eq_true htype)

theorem beforeAgent_eq_none (h : ∀ msg ∈ state, ∀ call ∈ calls msg,
    isDangling (answeredIds state) call = false) : beforeAgent removeAll state = none := by
  rw [beforeAgent]
  by_cases hempty : state = []
  · exact if_pos hempty
  · rw [if_neg hempty, if_pos]
    rintro ⟨msg, hmsg, call, hcall, hdangling⟩
    rw [h msg hmsg call hcall] at hdangling
    cases hdangling

/-! ### The update, reduced -/

/-- Messages of different ids, none of them a removal, are appended one after the other. -/
theorem foldl_apply_eq {msgs : List AnyMessage} (hids : (ids msgs).Nodup)
    (hplain : ∀ m ∈ msgs, m.type ≠ .remove) : msgs.foldl (apply removeAll) [] = msgs := by
  induction msgs using List.reverseRecOn with
  | nil => rfl
  | append_singleton msgs m ih =>
    rw [List.forall_mem_append] at hplain
    rw [ids, Keyed.keys, List.filterMap_append, List.nodup_append] at hids
    have htype := hplain.2 m (List.mem_singleton.mpr rfl)
    rw [List.foldl_append, ih hids.1 hplain.1, List.foldl_cons, List.foldl_nil, apply,
      if_neg (by simp [isRemoveAll, htype])]
    cases hid : m.id with
    | none => rfl
    | some mid =>
      have hnew : mid ∉ Keyed.keys AnyMessage.id msgs := fun hmem =>
        hids.2.2 mid hmem mid (by simp [hid]) rfl
      simp only [if_neg htype, Keyed.upsert, if_neg hnew]

/-- The items stand, in their order, among what is put behind each. -/
theorem sublist_flatMap {α : Type} (f : α → List α) (l : List α) :
    l.Sublist (l.flatMap fun a => a :: f a) := by
  induction l with
  | nil => exact .slnil
  | cons a l ih =>
    rw [List.flatMap_cons, List.cons_append]
    exact (ih.trans (List.sublist_append_right _ _)).cons_cons a

/-- **What the patch leaves behind.** Whatever ids the missing answers are given, the thread is
then the old one with an answer behind every call that had none, no call is without one, and the
middleware finds nothing more to do. -/
theorem patched_settled {patched : List AnyMessage} (hstate : (ids state).Nodup)
    (hplain : ∀ m ∈ state, m.type ≠ .remove)
    (hupdate : beforeAgent removeAll state = some (removeAllMessage removeAll :: patched))
    (hstamped : stamped.map anonymous = patched.map anonymous) (hids : (ids stamped).Nodup) :
    messagesDeltaReducer removeAll state [removeAllMessage removeAll :: stamped] = stamped ∧
      (state.map anonymous).Sublist (stamped.map anonymous) ∧
      (∀ msg ∈ stamped, ∀ call ∈ calls msg, isDangling (answeredIds stamped) call = false) ∧
      beforeAgent removeAll stamped = none := by
  obtain rfl : patched = patchedMessages state := by
    rw [beforeAgent] at hupdate
    split_ifs at hupdate
    simpa using hupdate.symm
  have hsame {m : AnyMessage} (hm : m ∈ stamped) :
      ∃ m' ∈ patchedMessages state, anonymous m' = anonymous m := by
    have hmem : anonymous m ∈ (patchedMessages state).map anonymous :=
      hstamped ▸ List.mem_map_of_mem hm
    simpa using hmem
  have hanswers : answeredIds stamped = answeredIds (patchedMessages state) := by
    rw [← answeredIds_map_anonymous, hstamped, answeredIds_map_anonymous]
  have hsettled : ∀ msg ∈ stamped, ∀ call ∈ calls msg,
      isDangling (answeredIds stamped) call = false := by
    intro msg hmsg call hcall
    obtain ⟨m', hm', heq⟩ := hsame hmsg
    have hcalls : calls m' = calls msg := by
      rw [← calls_anonymous, heq, calls_anonymous]
    rw [hanswers]
    exact answered_patched hm' (hcalls ▸ hcall)
  refine ⟨?_, ?_, hsettled, beforeAgent_eq_none hsettled⟩
  · have hreset : apply removeAll state (removeAllMessage removeAll) = [] :=
      if_pos (by simp [isRemoveAll, removeAllMessage])
    rw [reducer_eq_foldl hstate, List.flatten_singleton, List.foldl_cons, hreset]
    refine foldl_apply_eq hids fun m hm => ?_
    obtain ⟨m', hm', heq⟩ := hsame hm
    have htype : m'.type = m.type := by
      rw [← type_anonymous, heq, type_anonymous]
    rw [← htype]
    rcases mem_patchedMessages.mp hm' with hold | ⟨-, -, call, -, -, rfl⟩
    · exact hplain m' hold
    · simp [placeholder]
  · rw [hstamped, patchedMessages]
    refine List.Sublist.map _ ?_
    exact sublist_flatMap _ state

/-- A model asks for two tools, one of which never answers. -/
theorem patched_settled_once :
    let state : List AnyMessage := [
      { id := "a", type := .ai, toolCalls := [⟨"1", "ls", false⟩, ⟨"2", "write", false⟩] },
      { id := "b", type := .tool, toolCallId := "1" }]
    let stamped := (patchedMessages state).map fun m => { m with id := m.id.or m.toolCallId }
    messagesDeltaReducer "__remove_all__" state [removeAllMessage "__remove_all__" :: stamped] =
        stamped ∧
      (state.map anonymous).Sublist (stamped.map anonymous) ∧
      (∀ msg ∈ stamped, ∀ call ∈ calls msg, isDangling (answeredIds stamped) call = false) ∧
      beforeAgent "__remove_all__" stamped = none :=
  patched_settled (by decide) (by decide) rfl rfl (by decide)

end Messages

end CyranoAgent
