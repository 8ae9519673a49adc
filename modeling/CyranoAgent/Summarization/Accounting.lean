import CyranoAgent.Summarization.Middleware

/-!
# Chained summarizations keep every message accounted for

The cutoff of an event counts messages of the view, where the last summary stands for what is left
out, and the event stores a count of messages. `act_cases` says what a call does to the two, and
`Emits.effectiveMessages_eq` what the next view is. Over a run the cutoffs never decrease, and the
messages are those of the summarized parts followed by those of the view (`accounted`).
-/

namespace CyranoAgent

open Lib

namespace Summarization

/-- The cutoff of a call in the view. -/
def Call.cutoff : Call → ℤ
  | .append _ => 0
  | .modelCall c => c.cutoff
  | .compact c => c.cutoff

/-- A call leaves an event: its cutoff translated, with a summary. -/
structure Emits (call : Call) (s : Conversation) (event : SummarizationEvent)
    (s' : Conversation) : Prop where
  cutoffIndex : event.cutoffIndex = some (computeStateCutoff s.event call.cutoff)
  summary : event.summaryMessage.isSome
  kept : s'.event = some event
  grown : s.messages <+: s'.messages

section

variable {H : Helper} {S : Settings} {call : Call} {s s' s₀ : Conversation}
  {event : SummarizationEvent} {h : List CallEntry} {e : CallEntry}

/-- **What a call does**: it leaves an event, or keeps the last one; the messages grow. -/
theorem act_cases (H : Helper) (S : Settings) (call : Call) (s : Conversation) :
    (∃ event, (call.act H S s).1 = some event ∧ Emits call s event (call.act H S s).2) ∨
      ((call.act H S s).1 = none ∧ (call.act H S s).2.event = s.event ∧
        s.messages <+: (call.act H S s).2.messages) := by
  cases call with
  | append messages => exact .inr ⟨rfl, rfl, List.prefix_append _ _⟩
  | modelCall c =>
    rw [Call.act, wrapModelCall]
    dsimp only
    split
    next => exact .inr ⟨rfl, rfl, List.prefix_rfl⟩
    next =>
      split
      next => exact .inr ⟨rfl, rfl, List.prefix_rfl⟩
      next => exact .inl ⟨_, rfl, rfl, rfl, rfl, List.prefix_rfl⟩
  | compact c =>
    rw [Call.act, runCompact]
    dsimp only
    split
    next => exact .inr ⟨rfl, rfl, List.prefix_append _ _⟩
    next =>
      split
      next => exact .inr ⟨rfl, rfl, List.prefix_append _ _⟩
      next => exact .inl ⟨_, rfl, rfl, rfl, rfl, List.prefix_append _ _⟩

/-! ### One event -/

/-- The stored cutoff of the next event: what the view leaves out, and what it evicts of the
messages. -/
theorem computeStateCutoff_eq (hs : s.WellFormed) (k : ℤ) :
    computeStateCutoff s.event k = s.cutoff + k - s.summary.length := by
  rw [Conversation.cutoff, Conversation.summary]
  rcases hevent : s.event with _ | ⟨_ | index, _ | msg, path⟩
  · simp [computeStateCutoff]
  · simpa using hs.complete _ hevent
  · simpa using hs.complete _ hevent
  · simpa using hs.complete _ hevent
  · simp [computeStateCutoff]

/-- The summary is at most one message. -/
theorem length_summary_le (s : Conversation) : s.summary.length ≤ 1 := by
  rw [Conversation.summary]
  rcases s.event.bind (·.summaryMessage) with _ | msg <;> simp

/-- The messages that an event evicts from the view, without the last summary. -/
def evictedMessages (s : Conversation) (k : ℤ) : List Message :=
  (s.effectiveMessages.take k.toNat).drop s.summary.length

/-- **The translation of a cutoff**: the messages before the next stored cutoff are those before the
last one and those that are evicted. -/
theorem take_computeStateCutoff (hs : s.WellFormed) {k : ℤ} (hk : 1 ≤ k)
    (hle : k ≤ s.effectiveMessages.length) :
    s.cutoff ≤ computeStateCutoff s.event k ∧
      computeStateCutoff s.event k ≤ s.messages.length ∧
      s.messages.take (computeStateCutoff s.event k).toNat =
        s.messages.take s.cutoff.toNat ++ evictedMessages s k ∧
      s.effectiveMessages.drop k.toNat =
        s.messages.drop (computeStateCutoff s.event k).toNat := by
  have hlength := length_summary_le s
  have hnonneg := hs.nonneg
  have hbound := hs.le_length
  rw [hs.effectiveMessages_eq, List.length_append, List.length_drop] at hle
  rw [computeStateCutoff_eq hs, evictedMessages, hs.effectiveMessages_eq]
  -- `j` of the `k` messages that leave the view are messages of the conversation
  obtain ⟨j, hj⟩ : ∃ j : ℕ, k.toNat = s.summary.length + j :=
    ⟨k.toNat - s.summary.length, by omega⟩
  obtain ⟨c, hc⟩ : ∃ c : ℕ, s.cutoff = c := ⟨s.cutoff.toNat, by omega⟩
  have hnext : (s.cutoff + k - s.summary.length).toNat = c + j := by omega
  rw [hnext, hj, hc, Int.toNat_natCast, List.take_length_add_append, List.drop_left,
    List.drop_length_add_append, List.drop_drop, List.take_add]
  exact ⟨by omega, by omega, rfl, rfl⟩

/-- The stored cutoff is that of the event. -/
theorem Emits.cutoff_eq (h : Emits call s event s') :
    s'.cutoff = computeStateCutoff s.event call.cutoff := by
  rw [Conversation.cutoff, h.kept, Option.bind_some, h.cutoffIndex, Option.getD_some]

/-- Without a new event the stored cutoff stays. -/
theorem cutoff_eq_of_event_eq (h : s'.event = s.event) : s'.cutoff = s.cutoff := by
  rw [Conversation.cutoff, h, Conversation.cutoff]

/-- An event within the view keeps the state in order. -/
theorem Emits.wellFormed (h : Emits call s event s') (hs : s.WellFormed) (hk : 1 ≤ call.cutoff)
    (hle : call.cutoff ≤ s.effectiveMessages.length) : s'.WellFormed := by
  obtain ⟨hmono, hbound, -, -⟩ := take_computeStateCutoff hs hk hle
  have hgrown : s.messages.length ≤ s'.messages.length := h.grown.length_le
  refine ⟨fun event' hevent' => ?_, ?_, ?_⟩
  · rw [h.kept] at hevent'
    cases hevent'
    exact ⟨by simp [h.cutoffIndex], h.summary⟩
  · rw [h.cutoff_eq]
    exact hs.nonneg.trans hmono
  · rw [h.cutoff_eq]
    omega

/-! ### Runs -/

/-- The messages that an entry of a history evicts. -/
def evictedBy (e : CallEntry) : List Message :=
  match e.reply with
  | some _ => evictedMessages e.before e.op.cutoff
  | none => []

/-- Events are computed within the view: their cutoffs are between 1 and its length. -/
def WithinView (h : List CallEntry) : Prop :=
  ∀ e ∈ h, e.reply.isSome → 1 ≤ e.op.cutoff ∧ e.op.cutoff ≤ e.before.effectiveMessages.length

/-- Every message of a run is accounted for: the stored cutoffs never decrease or exceed the
messages, the view after an event is its summary, what it kept of the view before and what was
appended since, and the messages are those that were evicted, in order, and those in the view. -/
structure Accounted (h : List CallEntry) (s : Conversation) : Prop where
  monotone : ∀ e ∈ h, e.before.cutoff ≤ e.after.cutoff
  bounded : ∀ e ∈ h, e.after.cutoff ≤ e.after.messages.length
  view : ∀ h₁ e h₂ event, h = h₁ ++ e :: h₂ → e.reply = some event →
    (∀ e' ∈ h₂, e'.reply = none) → ∃ summary, event.summaryMessage = some summary ∧
      s.effectiveMessages = summary :: (e.before.effectiveMessages.drop e.op.cutoff.toNat ++
        s.messages.drop e.before.messages.length)
  parted : ∃ tail, s.messages = h.flatMap evictedBy ++ tail ∧
    s.effectiveMessages = s.summary ++ tail

/-- What every run keeps: the messages before the stored cutoff are those that were evicted. -/
structure Parted (h : List CallEntry) (s : Conversation) : Prop extends s.WellFormed where
  take_eq : s.messages.take s.cutoff.toNat = h.flatMap evictedBy

theorem parted_nil (h : s.event = none) : Parted [] s :=
  ⟨Conversation.wellFormed_of_none h, by simp [Conversation.cutoff, h]⟩

/-- A call that leaves no event keeps the state in order. -/
theorem Parted.keep (hs : Parted h s) (hevent : s'.event = s.event)
    (hgrown : s.messages <+: s'.messages) (hevicted : evictedBy e = []) :
    Parted (h ++ [e]) s' := by
  have hcutoff := cutoff_eq_of_event_eq hevent
  have hbound := hs.le_length
  have hnonneg := hs.nonneg
  have hlength : s.messages.length ≤ s'.messages.length := hgrown.length_le
  refine ⟨⟨fun event h => hs.complete event (hevent ▸ h), hcutoff ▸ hs.nonneg, ?_⟩, ?_⟩
  · rw [hcutoff]
    omega
  · obtain ⟨new, hnew⟩ := hgrown
    rw [hcutoff, List.flatMap_append, List.flatMap_singleton, hevicted, List.append_nil,
      ← hs.take_eq, ← hnew, List.take_append_of_le_length (by omega)]

/-- **A call keeps the messages parted.** -/
theorem Parted.step (hs : Parted h s) (he : e = Entry.perform (Call.act H S) s call)
    (hwithin : e.reply.isSome → 1 ≤ call.cutoff ∧ call.cutoff ≤ s.effectiveMessages.length) :
    Parted (h ++ [e]) (call.act H S s).2 := by
  subst he
  rcases act_cases H S call s with ⟨event, hreply, hemits⟩ | ⟨hreply, hevent, hgrown⟩
  · obtain ⟨hk, hle⟩ := hwithin (by simp [hreply])
    obtain ⟨-, hbound, htake, -⟩ := take_computeStateCutoff hs.toWellFormed hk hle
    refine ⟨hemits.wellFormed hs.toWellFormed hk hle, ?_⟩
    obtain ⟨new, hnew⟩ := hemits.grown
    rw [hemits.cutoff_eq, List.flatMap_append, List.flatMap_singleton, ← hs.take_eq, ← hnew,
      List.take_append_of_le_length (by omega), htake]
    simp [evictedBy, hreply]
  · exact hs.keep hevent hgrown (by simp [evictedBy, hreply])

/-- A run within the view parts the messages all the way. -/
theorem Parted.of_run (hrun : Run (Call.act H S) s₀ h s) (hstart : s₀.event = none)
    (hwithin : WithinView h) : Parted h s := by
  induction hrun with
  | nil => exact parted_nil hstart
  | @snoc h s call hrun ih =>
    have hs := ih fun e he => hwithin e (List.mem_append_left _ he)
    exact hs.step rfl (hwithin _ (by simp))

/-- Without events the last one stays, and the messages grow. -/
theorem event_eq_of_run (hrun : Run (Call.act H S) s₀ h s) (hnone : ∀ e ∈ h, e.reply = none) :
    s.event = s₀.event ∧ s₀.messages <+: s.messages := by
  induction hrun with
  | nil => exact ⟨rfl, List.prefix_rfl⟩
  | @snoc h s call hrun ih =>
    obtain ⟨hevent, hgrown⟩ := ih fun e he => hnone e (List.mem_append_left _ he)
    have hreply : (call.act H S s).1 = none :=
      hnone (Entry.perform (Call.act H S) s call) (List.mem_append_right _ List.mem_cons_self)
    rcases act_cases H S call s with ⟨event, hsome, -⟩ | ⟨-, hkept, hnext⟩
    · cases hreply.symm.trans hsome
    · exact ⟨hkept.trans hevent, hgrown.trans hnext⟩

/-- The cutoffs around a call, and that it stays within the messages. -/
theorem cutoff_le_of_call (hs : s.WellFormed) (he : e = Entry.perform (Call.act H S) s call)
    (hwithin : e.reply.isSome → 1 ≤ call.cutoff ∧ call.cutoff ≤ s.effectiveMessages.length) :
    e.before.cutoff ≤ e.after.cutoff ∧ e.after.cutoff ≤ e.after.messages.length := by
  subst he
  rw [Entry.perform_before, Entry.perform_after]
  rcases act_cases H S call s with ⟨event, hreply, hemits⟩ | ⟨hreply, hevent, hgrown⟩
  · obtain ⟨hk, hle⟩ := hwithin (by simp [hreply])
    refine ⟨?_, (hemits.wellFormed hs hk hle).le_length⟩
    rw [hemits.cutoff_eq]
    exact (take_computeStateCutoff hs hk hle).1
  · have hbound := hs.le_length
    have hlength := hgrown.length_le
    rw [cutoff_eq_of_event_eq hevent]
    exact ⟨le_rfl, by omega⟩

/-- **Chained summarizations keep every message accounted for**, from a conversation without an
event and with events within the view. -/
theorem accounted (hrun : Run (Call.act H S) s₀ h s) (hstart : s₀.event = none)
    (hwithin : WithinView h) : Accounted h s := by
  have hbefore {h₁ h₂ : List CallEntry} {e : CallEntry} (hsplit : h = h₁ ++ e :: h₂) :
      e.before.WellFormed := by
    subst hsplit
    exact (Parted.of_run hrun.split.1 hstart fun e' he' =>
      hwithin e' (List.mem_append_left _ he')).toWellFormed
  have hcutoffs (e : CallEntry) (he : e ∈ h) :
      e.before.cutoff ≤ e.after.cutoff ∧ e.after.cutoff ≤ e.after.messages.length := by
    obtain ⟨h₁, h₂, hsplit⟩ := List.append_of_mem he
    exact cutoff_le_of_call (hbefore hsplit) (hrun.eq_perform he) (hwithin e he)
  have hs := Parted.of_run hrun hstart hwithin
  refine ⟨fun e he => (hcutoffs e he).1, fun e he => (hcutoffs e he).2, ?_, ?_⟩
  · intro h₁ e h₂ event hsplit hreply hnone
    have he : e ∈ h := by simp [hsplit]
    obtain ⟨hk, hle⟩ := hwithin e he (by simp [hreply])
    obtain ⟨-, hbound, -, hdrop⟩ := take_computeStateCutoff (hbefore hsplit) hk hle
    have hperform := hrun.eq_perform he
    have hsome : (e.op.act H S e.before).1 = some event := by
      rw [← hreply]
      exact (congrArg Entry.reply hperform).symm
    rcases act_cases H S e.op e.before with ⟨event', hreply', hemits⟩ | ⟨hreply', -, -⟩
    swap
    · cases hreply'.symm.trans hsome
    obtain rfl : event = event' := Option.some.inj (hsome.symm.trans hreply')
    obtain ⟨summary, hsummary⟩ := Option.isSome_iff_exists.mp hemits.summary
    -- the event is the last one, so its summary and its cutoff make the view
    have hafter : e.after = (e.op.act H S e.before).2 := congrArg Entry.after hperform
    rw [← hafter] at hemits
    subst hsplit
    obtain ⟨hevent, hgrown⟩ := event_eq_of_run hrun.split.2.2 hnone
    rw [hemits.kept] at hevent
    have hview := hs.effectiveMessages_eq
    rw [Conversation.summary, Conversation.cutoff, hevent, Option.bind_some, Option.bind_some,
      hsummary, hemits.cutoffIndex, Option.getD_some, Option.toList_some,
      List.singleton_append] at hview
    obtain ⟨new, hnew⟩ := hemits.grown.trans hgrown
    refine ⟨summary, hsummary, ?_⟩
    rw [hview, hdrop, ← hnew, List.drop_append_of_le_length (by omega), List.drop_left]
  · refine ⟨s.messages.drop s.cutoff.toNat, ?_, hs.effectiveMessages_eq⟩
    rw [← hs.take_eq, List.take_append_drop]

end

/-- The texts of a message. -/
def plainText (msg : Message) : String :=
  String.join (msg.contentBlocks.map fun block => match block with
    | .dict entries => blockText entries "text"
    | _ => "")

/-- A helper that prints the texts of messages, a line each. -/
def plainHelper : Helper where
  partitionMessages messages cutoff := (sliceTo messages cutoff, sliceFrom messages cutoff)
  getBufferString messages :=
    String.ofList (['\n'].intercalate (messages.map fun msg => (plainText msg).toList))
  decodeDataUrl _ := none

/-- A message of a user. -/
def userMessage (text : String) : Message := { kind := .human, contentBlocks := [textBlock text] }

/-- Two summarizations, with messages before and between. -/
def twoSummarizations : List Call :=
  [.append [userMessage "a", userMessage "b", userMessage "c"],
    .modelCall ⟨none, true, 2, fun _ => true, "0", "t", ⟨true, .done⟩, some "s"⟩,
    .append [userMessage "d"],
    .compact ⟨"call", true, 2, "0", "t", ⟨true, .done⟩, .ok "s"⟩]

theorem accounted_twoSummarizations :
    Accounted (exec (Call.act plainHelper {}) {} twoSummarizations).1
      (exec (Call.act plainHelper {}) {} twoSummarizations).2 :=
  accounted (run_exec _ _ _) rfl (by unfold WithinView; decide)

end Summarization

end CyranoAgent
