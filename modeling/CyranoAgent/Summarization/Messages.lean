import CyranoAgent.Contracts.Canonical

/-!
# Messages and summarization events

What the summarization middleware knows of a conversation: its messages, which only grow, and the
last summarization event, which replaces the messages before its cutoff by a summary.
`applyEventToMessages` is the view of the model, and `computeStateCutoff` translates a place in that
view to one in the messages.
-/

namespace CyranoAgent

namespace Summarization

/-- The kinds of message that the middleware tells apart. -/
inductive MessageKind
  | human
  | ai
  | other
  deriving DecidableEq

/-- `ToolCall`. -/
structure ToolCall where
  name : String
  args : List (String × PyValue)
  id : Option String := none

/-- A message, in the fields that the middleware reads or sets; `lcSource` is that of its
`additional_kwargs`. -/
structure Message where
  kind : MessageKind
  contentBlocks : List PyValue
  toolCalls : List ToolCall := []
  toolCallId : Option String := none
  lcSource : Option String := none

/-- The content block of a text. -/
def textBlock (text : String) : PyValue :=
  .dict [(.str "type", .str "text"), (.str "text", .str text)]

/-- `_is_summary_message`. -/
def isSummaryMessage (msg : Message) : Bool :=
  msg.kind = .human ∧ msg.lcSource = some "summarization"

/-- `_filter_summary_messages`. -/
def filterSummaryMessages (messages : List Message) : List Message :=
  messages.filter fun msg => !isSummaryMessage msg

/-- `_build_new_messages_with_path`: the summary message. -/
def buildNewMessageWithPath (summary : String) (filePath : Option String) : Message where
  kind := .human
  contentBlocks := [textBlock (match filePath with
    | some path =>
      "You are in the middle of a conversation that has been summarized.\n\n" ++
        "The full conversation history has been saved to " ++ path ++
        " should you need to refer back to it for details.\n\n" ++
        "A condensed summary follows:\n\n<summary>\n" ++ summary ++ "\n</summary>"
    | none => "Here is a summary of the conversation to date:\n\n" ++ summary)]
  lcSource := some "summarization"

/-- `SummarizationEvent`; a key that is missing is `none`. -/
structure SummarizationEvent where
  cutoffIndex : Option ℤ
  summaryMessage : Option Message
  filePath : Option String

/-- `items[:stop]`. -/
def sliceTo {α : Type} (items : List α) (stop : ℤ) : List α :=
  if 0 ≤ stop then items.take stop.toNat else items.take (items.length + stop).toNat

/-- `items[start:]`. -/
def sliceFrom {α : Type} (items : List α) (start : ℤ) : List α :=
  if 0 ≤ start then items.drop start.toNat else items.drop (items.length + start).toNat

/-- `_apply_event_to_messages`. -/
def applyEventToMessages (messages : List Message) :
    Option SummarizationEvent → List Message
  | none => messages
  | some event =>
    match event.summaryMessage, event.cutoffIndex with
    | some summary, some cutoff =>
      if (messages.length : ℤ) < cutoff then [summary] else summary :: sliceFrom messages cutoff
    | _, _ => messages

/-- `_compute_state_cutoff`. -/
def computeStateCutoff (event : Option SummarizationEvent) (effectiveCutoff : ℤ) : ℤ :=
  match event with
  | none => effectiveCutoff
  | some event =>
    match event.cutoffIndex with
    | none => effectiveCutoff
    | some prior => prior + effectiveCutoff - 1

/-- The state of a conversation: what the graph keeps, and the texts of the backend's files. -/
structure Conversation where
  messages : List Message := []
  event : Option SummarizationEvent := none
  sessionId : Option String := none
  files : String → Option String := fun _ => none

namespace Conversation

variable {s : Conversation}

/-- `_get_effective_messages`. -/
def effectiveMessages (s : Conversation) : List Message := applyEventToMessages s.messages s.event

/-- The summary that stands before the messages of the view. -/
def summary (s : Conversation) : List Message := (s.event.bind (·.summaryMessage)).toList

/-- The number of messages that the view leaves out. -/
def cutoff (s : Conversation) : ℤ := (s.event.bind (·.cutoffIndex)).getD 0

/-- The last event has all its keys, and a cutoff within the messages. -/
structure WellFormed (s : Conversation) : Prop where
  complete : ∀ event ∈ s.event, event.cutoffIndex.isSome ∧ event.summaryMessage.isSome
  nonneg : 0 ≤ s.cutoff
  le_length : s.cutoff ≤ s.messages.length

theorem wellFormed_of_none (h : s.event = none) : s.WellFormed := by
  refine ⟨by simp [h], ?_, ?_⟩ <;> simp [cutoff, h]

/-- **The view** is the summary and the messages from the cutoff on. -/
theorem WellFormed.effectiveMessages_eq (h : s.WellFormed) :
    s.effectiveMessages = s.summary ++ s.messages.drop s.cutoff.toNat := by
  rw [effectiveMessages, summary]
  rcases hevent : s.event with _ | ⟨_ | index, _ | msg, path⟩
  · simp [applyEventToMessages, Conversation.cutoff, hevent]
  · simpa using h.complete _ hevent
  · simpa using h.complete _ hevent
  · simpa using h.complete _ hevent
  · have hcutoff : s.cutoff = index := by simp [Conversation.cutoff, hevent]
    have hnonneg := h.nonneg
    have hle := h.le_length
    rw [hcutoff] at hnonneg hle ⊢
    simp [applyEventToMessages, sliceFrom, hnonneg, not_lt.mpr hle]

end Conversation

end Summarization

end CyranoAgent
