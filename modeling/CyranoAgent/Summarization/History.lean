import CyranoAgent.Lib.Occurrences
import CyranoAgent.Summarization.Accounting

/-!
# The offloaded history

A history file is appended to by a download, a concatenation and a write, and messages are rewritten
before they are printed. `offloadToBackend_files` says what happens to the files when a history that
is there was read, and `offload_messages` when the messages are printed as they stand in the
conversation. Runs of such calls keep the history complete (`historyComplete`); a download that
fails before a write that succeeds loses it (`offloadToBackend_unread`, `not_historyComplete`).
-/

namespace CyranoAgent

open Lib

namespace Summarization

/-- What the middleware relies on: messages are partitioned by slices, and printed one by one. -/
structure Helper.Lawful (H : Helper) (render : Message → String) : Prop where
  partition : ∀ messages cutoff, (H.partitionMessages messages cutoff).1 = sliceTo messages cutoff
  buffer : ∀ messages, (H.getBufferString messages).toList =
    ['\n'].intercalate (messages.map fun msg => (render msg).toList)

/-- What a call offloads. -/
structure Offload where
  hex : String
  timestamp : String
  transfer : Transfer
  messages : List Message

/-- The offload of a call, if it comes to one. -/
def Call.offload (H : Helper) (S : Settings) (call : Call) (s : Conversation) : Option Offload :=
  match call with
  | .append _ => none
  | .modelCall c =>
    if ¬ c.shouldSummarize ∨ c.cutoff ≤ 0 then none
    else some ⟨c.hex, c.timestamp, c.transfer, offloadInlineMedia H S c.uploads
      (H.partitionMessages (truncateArgs S c.truncation s.effectiveMessages) c.cutoff).1⟩
  | .compact c =>
    if ¬ c.eligible ∨ c.cutoff = 0 then none
    else match c.summary with
      | .error _ => none
      | .ok _ =>
        some ⟨c.hex, c.timestamp, c.transfer, (H.partitionMessages s.effectiveMessages c.cutoff).1⟩

/-- The file that an offload appends to. -/
def Offload.path (S : Settings) (o : Offload) (s : Conversation) : String :=
  historyPath S (getSessionId o.hex s)

/-- The messages of an entry that the history should have: those evicted by an event with a path, as
they stand in the conversation, without the summary. -/
def historyMessages (e : CallEntry) : List Message :=
  match e.reply with
  | some event =>
    if event.filePath.isSome then
      filterSummaryMessages (sliceTo e.before.effectiveMessages e.op.cutoff)
    else []
  | none => []

/-- The history is complete: whenever an event has a path, the file there has what was evicted by
events with a path so far, in order. -/
def HistoryComplete (render : Message → String) (h : List CallEntry) : Prop :=
  ∀ h₁ e h₂ event path, h = h₁ ++ e :: h₂ → e.reply = some event → event.filePath = some path →
    ∃ text, e.after.files path = some text ∧
      InOrder (((h₁ ++ [e]).flatMap historyMessages).map fun msg => (render msg).toList)
        text.toList

/-- A history that is there is read before the file is changed. -/
def ReadsHistory (H : Helper) (S : Settings) (e : CallEntry) : Prop :=
  ∀ o ∈ e.op.offload H S e.before, (e.before.files (o.path S e.before)).getD "" ≠ "" →
    o.transfer.update.applied = true → o.transfer.download = true

/-- A message has an argument that is cut when the message is old. -/
def HasLongArgs (S : Settings) (msg : Message) : Prop :=
  msg.kind = .ai ∧ ∃ call ∈ msg.toolCalls, call.name ∈ ["write_file", "edit_file"] ∧
    ∃ arg ∈ call.args, ∃ value, arg.2 = .str value ∧ S.maxArgLength < value.length

/-- A model call that leaves an event with a path evicts no message that it rewrites: one that is
old and has long arguments, or one with inline media. -/
def KeepsMessages (S : Settings) (e : CallEntry) : Prop :=
  ∀ c event, e.op = .modelCall c → e.reply = some event → event.filePath.isSome →
    ∀ (i : ℕ) msg, (sliceTo e.before.effectiveMessages c.cutoff)[i]? = some msg →
    (∀ cutoff ∈ c.truncation, cutoff < e.before.effectiveMessages.length → (i : ℤ) < cutoff →
      ¬ HasLongArgs S msg) ∧
    ∀ block ∈ msg.contentBlocks, extractDataUrl block = none

section

variable {H : Helper} {S : Settings} {render : Message → String} {call : Call}
  {s s' s₀ : Conversation} {o : Offload} {event : SummarizationEvent} {h : List CallEntry}
  {e : CallEntry} {messages : List Message} {msg : Message}

/-! ### What is printed -/

/-- A message without long arguments is not rewritten. -/
theorem truncateMessage_eq (h : ¬ HasLongArgs S msg) : truncateMessage S msg = msg := by
  rw [truncateMessage]
  split
  next hkind =>
    have hcall : ∀ call ∈ msg.toolCalls,
        (if call.name ∈ ["write_file", "edit_file"] then truncateToolCall S call else call) =
          call := by
      intro call hcall
      split
      next hname =>
        have harg : ∀ arg ∈ call.args, truncateArg S arg = arg := by
          intro arg harg
          rw [truncateArg]
          split
          next value hvalue =>
            exact if_neg fun hlong => h ⟨hkind, call, hcall, hname, arg, harg, value, hvalue, hlong⟩
          next => rfl
        rw [truncateToolCall, List.map_congr_left harg, List.map_id']
      next => rfl
    rw [List.map_congr_left hcall, List.map_id']
  next => rfl

/-- Slices of messages that are rewritten place by place. -/
theorem sliceTo_mapIdx_eq {f : ℕ → Message → Message} {stop : ℤ}
    (h : ∀ i msg, (sliceTo messages stop)[i]? = some msg → f i msg = msg) :
    sliceTo (messages.mapIdx f) stop = sliceTo messages stop := by
  have htake (n : ℕ) (hn : sliceTo messages stop = messages.take n) :
      (messages.mapIdx f).take n = messages.take n := by
    refine List.ext_getElem? fun i => ?_
    rw [hn] at h
    rw [List.getElem?_take, List.getElem?_take]
    split
    next hi =>
      rw [List.getElem?_mapIdx]
      rcases hmsg : messages[i]? with _ | msg
      · rfl
      · rw [Option.map_some, h i msg (by rw [List.getElem?_take_of_lt hi, hmsg])]
    next => rfl
  rw [sliceTo, List.length_mapIdx]
  split
  next hstop =>
    rw [htake _ (if_pos hstop), sliceTo, if_pos hstop]
  next hstop =>
    rw [htake _ (if_neg hstop), sliceTo, if_neg hstop]

/-- Messages without inline media are not rewritten. -/
theorem offloadInlineMedia_eq {uploads : String → Bool}
    (h : ∀ msg ∈ messages, ∀ block ∈ msg.contentBlocks, extractDataUrl block = none) :
    offloadInlineMedia H S uploads messages = messages := by
  refine if_pos (List.flatMap_eq_nil_iff.mpr fun msg hmsg => ?_)
  exact List.filterMap_eq_nil_iff.mpr (h msg hmsg)

/-- **What is printed** of messages that are not rewritten is what is evicted. -/
theorem offload_messages (hH : H.Lawful render) (hkeeps : KeepsMessages S e)
    (hreply : e.reply = some event) (hpath : event.filePath.isSome)
    (ho : e.op.offload H S e.before = some o) :
    o.messages = sliceTo e.before.effectiveMessages e.op.cutoff := by
  cases hop : e.op with
  | append messages =>
    rw [hop] at ho
    cases ho
  | modelCall c =>
    rw [hop, Call.offload] at ho
    split at ho
    next => cases ho
    next =>
      cases ho
      have hmessages := hkeeps c event hop hreply hpath
      have htruncated : sliceTo (truncateArgs S c.truncation e.before.effectiveMessages) c.cutoff =
          sliceTo e.before.effectiveMessages c.cutoff := by
        rcases hcutoff : c.truncation with _ | cutoff
        · rfl
        · rw [truncateArgs]
          split
          next => rfl
          next hlong =>
            refine sliceTo_mapIdx_eq fun i msg hmsg => ?_
            split
            next hi =>
              exact truncateMessage_eq ((hmessages i msg hmsg).1 cutoff hcutoff (by omega) hi)
            next => rfl
      rw [hH.partition, htruncated, Call.cutoff]
      refine offloadInlineMedia_eq fun msg hmsg => ?_
      obtain ⟨i, hi⟩ := List.mem_iff_getElem?.mp hmsg
      exact (hmessages i msg hi).2
  | compact c =>
    rw [hop, Call.offload] at ho
    split at ho
    next => cases ho
    next =>
      split at ho
      next => cases ho
      next =>
        cases ho
        exact hH.partition _ _

theorem historySection_eq (timestamp : String) : historySection H timestamp messages =
    "## Summarized at " ++ timestamp ++ "\n\n" ++
      H.getBufferString (filterSummaryMessages messages) ++ "\n\n" := by
  with_unfolding_all rfl

/-- The section of an offload has the messages in order. -/
theorem inOrder_historySection (hH : H.Lawful render) (timestamp : String) :
    InOrder ((filterSummaryMessages messages).map fun msg => (render msg).toList)
      (historySection H timestamp messages).toList := by
  have hprinted := inOrder_intercalate ['\n']
    ((filterSummaryMessages messages).map fun msg => (render msg).toList)
  rw [historySection_eq, String.toList_append, String.toList_append, hH.buffer]
  exact (hprinted.prepend _).extend _

/-! ### What happens to the files -/

/-- A text that is replaced as a whole. -/
theorem replaceFirst_self {old new : List Char} (h : old ≠ []) :
    replaceFirst old new old = new := by
  cases old with
  | nil => exact absurd rfl h
  | cons c old =>
    rw [replaceFirst, if_pos List.prefix_rfl, List.drop_length, List.append_nil]

/-- **An offload appends** its section to a history that was read. -/
theorem offloadToBackend_files {timestamp sessionId : String} {transfer : Transfer}
    {files : String → Option String}
    (hread : (files (historyPath S sessionId)).getD "" ≠ "" → transfer.update.applied = true →
      transfer.download = true) :
    (offloadToBackend H S timestamp transfer messages sessionId files).2 =
      if transfer.update.applied then
        Function.update files (historyPath S sessionId)
          (some ((files (historyPath S sessionId)).getD "" ++ historySection H timestamp messages))
      else files := by
  have hupdated (happlied : transfer.update.applied = true) :
      (if (if transfer.download then (files (historyPath S sessionId)).getD "" else "") ≠ "" then
          editFile (historyPath S sessionId)
            (if transfer.download then (files (historyPath S sessionId)).getD "" else "")
            ((if transfer.download then (files (historyPath S sessionId)).getD "" else "") ++
              historySection H timestamp messages) files
        else writeFile (historyPath S sessionId)
          ((if transfer.download then (files (historyPath S sessionId)).getD "" else "") ++
            historySection H timestamp messages) files) =
      Function.update files (historyPath S sessionId) (some
        ((files (historyPath S sessionId)).getD "" ++ historySection H timestamp messages)) := by
    by_cases hthere : (files (historyPath S sessionId)).getD "" = ""
    · rw [hthere, ite_self, if_neg (not_not.mpr rfl), writeFile]
    · rw [if_pos (hread hthere happlied), if_pos hthere, editFile]
      rcases hfile : files (historyPath S sessionId) with _ | content
      · simp [hfile] at hthere
      · rw [hfile, Option.getD_some] at hthere
        rw [Option.getD_some, Option.map_some, replaceFirst_self (by simpa using hthere),
          String.ofList_toList]
  rw [offloadToBackend]
  rcases hupdate : transfer.update with _ | ⟨_ | _⟩
  · exact hupdated (by rw [hupdate]; rfl)
  · rfl
  · exact hupdated (by rw [hupdate]; rfl)

/-- **An offload that reads nothing** leaves its section alone in the file, and reports the path. -/
theorem offloadToBackend_unread {timestamp sessionId : String} {files : String → Option String} :
    (offloadToBackend H S timestamp ⟨false, .done⟩ messages sessionId files).1 =
        some (historyPath S sessionId) ∧
      (offloadToBackend H S timestamp ⟨false, .done⟩ messages sessionId files).2
        (historyPath S sessionId) = some ("" ++ historySection H timestamp messages) :=
  ⟨rfl, Function.update_self _ _ _⟩

/-- The path of an offload that is reported. -/
theorem offloadToBackend_path {timestamp sessionId path : String} {transfer : Transfer}
    {files : String → Option String}
    (h : (offloadToBackend H S timestamp transfer messages sessionId files).1 = some path) :
    path = historyPath S sessionId ∧ transfer.update.applied = true := by
  rw [offloadToBackend] at h
  rcases hupdate : transfer.update with _ | applied <;> rw [hupdate] at h <;> cases h
  exact ⟨rfl, rfl⟩

/-- A session id, fresh or not, is a text. -/
theorem getSessionId_ne_empty (hex : String) (s : Conversation) : getSessionId hex s ≠ "" := by
  have hfresh : "session_" ++ hex ≠ "" := fun h => by simpa using congrArg String.toList h
  rw [getSessionId]
  split
  next existing _ =>
    split
    next hne => exact hne
    next => exact hfresh
  next => exact hfresh

theorem getSessionId_of_some {hex id : String} (h : s.sessionId = some id) (hne : id ≠ "") :
    getSessionId hex s = id := by
  rw [getSessionId, h]
  exact if_pos hne

/-- **What a call does to the session and the files**: without an offload nothing; an offload
changes the files, and the event that comes of it has its path and keeps the session. -/
theorem offload_act (H : Helper) (S : Settings) (call : Call) (s : Conversation) :
    (call.offload H S s = none ∧ (call.act H S s).1 = none ∧
        (call.act H S s).2.files = s.files ∧ (call.act H S s).2.sessionId = s.sessionId) ∨
      ∃ o, call.offload H S s = some o ∧
        (call.act H S s).2.files = (offloadToBackend H S o.timestamp o.transfer o.messages
          (getSessionId o.hex s) s.files).2 ∧
        (((call.act H S s).1 = none ∧ (call.act H S s).2.sessionId = s.sessionId) ∨
          ∃ event, (call.act H S s).1 = some event ∧
            event.filePath = (offloadToBackend H S o.timestamp o.transfer o.messages
              (getSessionId o.hex s) s.files).1 ∧
            (call.act H S s).2.sessionId = some (getSessionId o.hex s)) := by
  cases call with
  | append messages => exact .inl ⟨rfl, rfl, rfl, rfl⟩
  | modelCall c =>
    rw [Call.act, wrapModelCall, Call.offload]
    dsimp only
    split
    next => exact .inl ⟨rfl, rfl, rfl, rfl⟩
    next =>
      refine .inr ⟨_, rfl, ?_⟩
      split
      next => exact ⟨rfl, .inl ⟨rfl, rfl⟩⟩
      next => exact ⟨rfl, .inr ⟨_, rfl, rfl, rfl⟩⟩
  | compact c =>
    rw [Call.act, runCompact, Call.offload]
    dsimp only
    split
    next => exact .inl ⟨rfl, rfl, rfl, rfl⟩
    next =>
      rcases c.summary with text | summary
      · exact .inl ⟨rfl, rfl, rfl, rfl⟩
      · exact .inr ⟨_, rfl, rfl, .inr ⟨_, rfl, rfl, rfl⟩⟩

/-! ### Runs -/

/-- The renderings that the history should have. -/
def printed (render : Message → String) (h : List CallEntry) : List (List Char) :=
  (h.flatMap historyMessages).map fun msg => (render msg).toList

theorem printed_append (render : Message → String) (h : List CallEntry) (e : CallEntry) :
    printed render (h ++ [e]) = printed render h ++ printed render [e] := by
  rw [printed, List.flatMap_append, List.map_append, printed, printed]

/-- What every run keeps: the history file of the session has what the history should have. -/
def Saved (render : Message → String) (S : Settings) (h : List CallEntry) (s : Conversation) :
    Prop :=
  ∀ hex, InOrder (printed render h) ((s.files (historyPath S (getSessionId hex s))).getD "").toList

/-- An entry without an event with a path adds nothing. -/
theorem printed_eq_nil (h : ∀ event, e.reply = some event → event.filePath = none) :
    printed render [e] = [] := by
  rw [printed, List.flatMap_singleton, historyMessages]
  split
  next event hreply =>
    rw [h event hreply]
    rfl
  next => rfl

/-- What an offload under `ReadsHistory` does to the files. -/
theorem ReadsHistory.files_eq (hread : ReadsHistory H S (Entry.perform (Call.act H S) s call))
    (ho : call.offload H S s = some o) :
    (offloadToBackend H S o.timestamp o.transfer o.messages (getSessionId o.hex s) s.files).2 =
      if o.transfer.update.applied then
        Function.update s.files (o.path S s)
          (some ((s.files (o.path S s)).getD "" ++ historySection H o.timestamp o.messages))
      else s.files :=
  offloadToBackend_files (hread o ho)

/-- An offload under `ReadsHistory` keeps what is in a file. -/
theorem inOrder_of_offload {parts : List (List Char)} {path : String}
    (hread : ReadsHistory H S (Entry.perform (Call.act H S) s call))
    (ho : call.offload H S s = some o) (h : InOrder parts ((s.files path).getD "").toList) :
    InOrder parts (((offloadToBackend H S o.timestamp o.transfer o.messages
      (getSessionId o.hex s) s.files).2 path).getD "").toList := by
  rw [hread.files_eq ho]
  split
  next =>
    rw [Function.update_apply]
    split
    next heq =>
      rw [Option.getD_some, String.toList_append, ← heq]
      exact h.extend _
    next => exact h
  next => exact h

/-- **An event with a path**: the file there has what the history should have, and it is the history
file of the session from then on. -/
theorem Saved.of_event (hs : Saved render S h s) (hH : H.Lawful render)
    (he : e = Entry.perform (Call.act H S) s call) (hread : ReadsHistory H S e)
    (hkeeps : KeepsMessages S e) {path : String} (hreply : e.reply = some event)
    (hpath : event.filePath = some path) :
    (∀ hex, historyPath S (getSessionId hex e.after) = path) ∧
      ∃ text, e.after.files path = some text ∧
        InOrder (printed render (h ++ [e])) text.toList := by
  subst he
  rcases offload_act H S call s with ⟨-, hnone, -, -⟩ | ⟨o, ho, hfiles, hnone | ⟨event', hevent⟩⟩
  · cases hreply.symm.trans hnone
  · cases hreply.symm.trans hnone.1
  · obtain ⟨hsome, hfile, hsession⟩ := hevent
    obtain rfl : event = event' := Option.some.inj (hreply.symm.trans hsome)
    obtain ⟨rfl, happlied⟩ := offloadToBackend_path (hfile.symm.trans hpath)
    have hmessages := offload_messages hH hkeeps hreply (by simp [hpath]) ho
    rw [hread.files_eq ho, if_pos happlied] at hfiles
    refine ⟨fun hex => ?_, _, (congrFun hfiles _).trans (Function.update_self _ _ _), ?_⟩
    · exact congrArg _ (getSessionId_of_some hsession (getSessionId_ne_empty o.hex s))
    · rw [printed_append, String.toList_append]
      refine (hs o.hex).append ?_
      rw [printed, List.flatMap_singleton, historyMessages, hreply]
      dsimp only
      rw [hpath, Option.isSome_some, if_pos rfl, hmessages]
      exact inOrder_historySection hH o.timestamp

/-- **A call keeps the history saved.** -/
theorem Saved.step (hs : Saved render S h s) (hH : H.Lawful render)
    (he : e = Entry.perform (Call.act H S) s call) (hread : ReadsHistory H S e)
    (hkeeps : KeepsMessages S e) : Saved render S (h ++ [e]) (call.act H S s).2 := by
  by_cases hevent : ∃ event path, e.reply = some event ∧ event.filePath = some path
  · obtain ⟨event, path, hreply, hpath⟩ := hevent
    obtain ⟨hsession, text, htext, hsaved⟩ := hs.of_event hH he hread hkeeps hreply hpath
    subst he
    intro hex
    rw [Entry.perform_after] at hsession htext
    rw [hsession, htext, Option.getD_some]
    exact hsaved
  · have hnil : printed render [e] = [] := printed_eq_nil fun event hreply =>
      Option.eq_none_iff_forall_not_mem.mpr fun path hpath => hevent ⟨event, path, hreply, hpath⟩
    subst he
    intro hex
    rw [printed_append, hnil, List.append_nil]
    rcases offload_act H S call s with ⟨-, -, hfiles, hsession⟩ | ⟨o, ho, hfiles, hsession⟩
    · rw [hfiles, getSessionId, hsession]
      exact hs hex
    · rw [hfiles]
      refine inOrder_of_offload hread ho ?_
      rcases hsession with ⟨-, hsession⟩ | ⟨event, -, -, hsession⟩
      · rw [getSessionId, hsession]
        exact hs hex
      · rw [getSessionId_of_some hsession (getSessionId_ne_empty o.hex s)]
        exact hs o.hex

/-- A run that reads its histories and keeps its messages saves the history all the way. -/
theorem Saved.of_run (hH : H.Lawful render) (hrun : Run (Call.act H S) s₀ h s)
    (hread : ∀ e ∈ h, ReadsHistory H S e) (hkeeps : ∀ e ∈ h, KeepsMessages S e) :
    Saved render S h s := by
  induction hrun with
  | nil => exact fun hex => inOrder_nil _
  | @snoc h s call hrun ih =>
    have hs := ih (fun e he => hread e (List.mem_append_left _ he))
      fun e he => hkeeps e (List.mem_append_left _ he)
    exact hs.step hH rfl (hread _ (by simp)) (hkeeps _ (by simp))

/-- **The offloaded history is complete** in runs that read the histories they append to and evict
no message that they rewrite. -/
theorem historyComplete (hH : H.Lawful render) (hrun : Run (Call.act H S) s₀ h s)
    (hread : ∀ e ∈ h, ReadsHistory H S e) (hkeeps : ∀ e ∈ h, KeepsMessages S e) :
    HistoryComplete render h := by
  intro h₁ e h₂ event path hsplit hreply hpath
  subst hsplit
  obtain ⟨hbefore, he, -⟩ := hrun.split
  have hs := Saved.of_run hH hbefore (fun e he => hread e (List.mem_append_left _ he))
    fun e he => hkeeps e (List.mem_append_left _ he)
  exact (hs.of_event hH he (hread e (by simp)) (hkeeps e (by simp)) hreply hpath).2

end

theorem plainHelper_lawful : plainHelper.Lawful plainText where
  partition _ _ := rfl
  buffer _ := String.toList_ofList

theorem historyComplete_twoSummarizations :
    HistoryComplete plainText (exec (Call.act plainHelper {}) {} twoSummarizations).1 := by
  refine historyComplete plainHelper_lawful (run_exec _ _ _) ?_ ?_
  · intro e he o ho _ _
    have hop : e.op ∈ twoSummarizations := by
      rw [← map_op_exec (Call.act plainHelper {}) {} twoSummarizations]
      exact List.mem_map_of_mem he
    simp only [twoSummarizations, List.mem_cons, List.not_mem_nil, or_false] at hop
    rcases hop with hop | hop | hop | hop <;> rw [hop] at ho <;> cases ho <;> rfl
  · intro e he c event hop _ _ i msg hmsg
    simp only [twoSummarizations, exec, List.mem_cons, List.not_mem_nil, or_false] at he
    rcases he with rfl | rfl | rfl | rfl <;> cases hop
    have hmem : msg ∈ [userMessage "a", userMessage "b"] := List.mem_of_getElem? hmsg
    refine ⟨fun cutoff hcutoff => (by cases hcutoff), fun block hblock => ?_⟩
    simp only [List.mem_cons, List.not_mem_nil, or_false] at hmem
    rcases hmem with rfl | rfl <;> obtain rfl := List.mem_singleton.mp hblock <;> rfl

/-- Two summarizations, the second of which downloads nothing and writes. -/
def lostHistory : List Call :=
  [.append [userMessage "x", userMessage "y"],
    .compact ⟨"1", true, 1, "0", "t", ⟨true, .done⟩, .ok "s"⟩,
    .compact ⟨"2", true, 2, "0", "t", ⟨false, .done⟩, .ok "s"⟩]

theorem not_historyComplete :
    ¬ ∀ (H : Helper) (S : Settings) (render : Message → String) (s₀ s : Conversation)
      (h : List CallEntry), H.Lawful render → Run (Call.act H S) s₀ h s →
      HistoryComplete render h := by
  intro hall
  have hcomplete := hall plainHelper {} plainText {} _ _ plainHelper_lawful
    (run_exec _ _ lostHistory)
  let before := exec (Call.act plainHelper {}) {} (lostHistory.take 2)
  obtain ⟨text, htext, hprinted⟩ := hcomplete before.1
    (Entry.perform (Call.act plainHelper {}) before.2 (lostHistory.getLast (List.cons_ne_nil _ _)))
    [] _ _ rfl rfl rfl
  have hsection := Option.some.inj (htext.symm.trans offloadToBackend_unread.2)
  -- the first message should be there, and the section of the second offload is alone
  have hfirst : ['x'] <:+: text.toList :=
    hprinted.infix_of_mem (List.mem_of_getElem? (i := 0) rfl)
  have hmem : 'x' ∈ text.toList := hfirst.subset List.mem_cons_self
  rw [hsection, String.toList_append, historySection_eq, String.toList_append,
    String.toList_append, plainHelper_lawful.buffer] at hmem
  revert hmem
  decide

end Summarization

end CyranoAgent
