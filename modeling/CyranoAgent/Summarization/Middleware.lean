import CyranoAgent.Lib.Dict
import CyranoAgent.Lib.Run
import CyranoAgent.Summarization.Messages

/-!
# The summarization middleware

`wrapModelCall` summarizes on its own, before a model call, and `runCompact` when the model asks for
it. Both evict the messages of the view before a cutoff, append them to the history file of the
session and leave an event; the first has rewritten long arguments and inline media by then. The
cutoff, whether it is time, and the text of the summary are LangChain's and the model's, and each
operation of the backend may fail on its own: they are the arguments of a call.
-/

namespace CyranoAgent

open Lib

namespace Summarization

/-- What the middleware takes from LangChain, and the decoder of `data:` URLs: the bytes, the
extension and the media type. -/
structure Helper where
  partitionMessages : List Message → ℤ → List Message × List Message
  getBufferString : List Message → String
  decodeDataUrl : String → Option (ByteArray × String × String)

/-- The settings of the middleware. -/
structure Settings where
  historyPathPrefix : String := "/conversation_history"
  maxArgLength : ℤ := 2000
  truncationText : String := "...(argument truncated)"

section

variable (H : Helper) (S : Settings)

/-! ### Long arguments -/

/-- What `_truncate_tool_call` does with an argument. -/
def truncateArg (arg : String × PyValue) : String × PyValue :=
  match arg.2 with
  | .str value =>
    if S.maxArgLength < value.length then
      (arg.1, .str (String.ofList (value.toList.take 20) ++ S.truncationText))
    else arg
  | _ => arg

/-- `_truncate_tool_call`. -/
def truncateToolCall (call : ToolCall) : ToolCall :=
  { call with args := call.args.map (truncateArg S) }

/-- What `_truncate_args` does with an old message. -/
def truncateMessage (msg : Message) : Message :=
  if msg.kind = .ai then
    { msg with toolCalls := msg.toolCalls.map fun call =>
        if call.name ∈ ["write_file", "edit_file"] then truncateToolCall S call else call }
  else msg

/-- `_truncate_args`: unless nothing triggers it, the messages before the index that the settings
and the token counts give are old. -/
def truncateArgs (truncation : Option ℤ) (messages : List Message) : List Message :=
  match truncation with
  | none => messages
  | some cutoff =>
    if messages.length ≤ cutoff then messages
    else messages.mapIdx fun i msg => if i < cutoff then truncateMessage S msg else msg

/-! ### Inline media -/

/-- The text under a key of a content block. -/
def blockText (block : PyMapping) (key : String) : String :=
  match PyMapping.get? block key with
  | some (.str text) => text
  | _ => ""

/-- `_is_data_url`. -/
def isDataUrl (url : String) : Bool := "data:".toList.isPrefixOf url.toList

/-- `_extract_data_url`. -/
def extractDataUrl : PyValue → Option String
  | .dict block =>
    if blockText block "base64" ≠ "" then
      let mime := if blockText block "mime_type" = "" then "application/octet-stream"
        else blockText block "mime_type"
      some ("data:" ++ mime ++ ";base64," ++ blockText block "base64")
    else if isDataUrl (blockText block "url") then some (blockText block "url")
    else match PyMapping.get? block "image_url" with
      | some (.dict inner) =>
        if isDataUrl (blockText inner "url") then some (blockText inner "url") else none
      | _ => none
  | _ => none

/-- `_OFFLOAD_FAILED_PLACEHOLDER`. -/
def offloadFailedPlaceholder : String := "<image error=\"failed_to_offload\" />"

/-- `_media_reference_block`. -/
def mediaReferenceBlock (path mime : String) : PyValue :=
  let major := String.ofList (mime.toList.takeWhile (· ≠ '/'))
  if major ∈ ["image", "audio", "video"] then
    .dict [(.str "type", .str major), (.str "url", .str path)]
  else textBlock ("<file url=\"" ++ path ++ "\" />")

/-- `sha256(raw).hexdigest()[:16]`. -/
def mediaKey (raw : ByteArray) : String :=
  String.ofList ((Lib.Sha256.hexdigest raw).toList.take 16)

/-- The first pass over the media: the paths of what is uploaded, by the hash of the bytes. -/
def uploadMedia (uploads : String → Bool) :
    List String → Dict String String → List String → Dict String String
  | [], pathMap, _ => pathMap
  | dataUrl :: dataUrls, pathMap, failedKeys =>
    match H.decodeDataUrl dataUrl with
    | none => uploadMedia uploads dataUrls pathMap failedKeys
    | some (raw, ext, _) =>
      if mediaKey raw ∈ pathMap.keys ∨ mediaKey raw ∈ failedKeys then
        uploadMedia uploads dataUrls pathMap failedKeys
      else
        let path := S.historyPathPrefix ++ "/media/" ++ mediaKey raw ++ "." ++ ext
        if uploads path then
          uploadMedia uploads dataUrls (pathMap.set (mediaKey raw) path) failedKeys
        else uploadMedia uploads dataUrls pathMap (mediaKey raw :: failedKeys)

/-- What `_rewrite_data_url_blocks` does with a block. -/
def rewriteBlock (pathMap : Dict String String) (block : PyValue) : PyValue :=
  match extractDataUrl block with
  | none => block
  | some dataUrl =>
    match H.decodeDataUrl dataUrl with
    | none => textBlock offloadFailedPlaceholder
    | some (raw, _, mime) =>
      match pathMap.get? (mediaKey raw) with
      | none => textBlock offloadFailedPlaceholder
      | some path => mediaReferenceBlock path mime

/-- The inline media of messages. -/
def dataUrls (messages : List Message) : List String :=
  messages.flatMap fun msg => msg.contentBlocks.filterMap extractDataUrl

/-- `_offload_inline_media`, without the count of failed blocks. -/
def offloadInlineMedia (uploads : String → Bool) (messages : List Message) : List Message :=
  if dataUrls messages = [] then messages
  else
    let pathMap := uploadMedia H S uploads (dataUrls messages) ∅ []
    messages.map fun msg =>
      { msg with contentBlocks := msg.contentBlocks.map (rewriteBlock H pathMap) }

/-! ### The history file -/

/-- How the update of a file ends. One that fails may have been applied. -/
inductive Update
  | done
  | failed (applied : Bool)

/-- Whether the file is changed. -/
def Update.applied : Update → Bool
  | .done => true
  | .failed applied => applied

/-- How the backend answers an offload: whether the download returns the content, and how the edit
or the write ends. -/
structure Transfer where
  download : Bool
  update : Update

/-- The text with the first `old` in it replaced. -/
def replaceFirst (old new : List Char) : List Char → List Char
  | [] => if old = [] then new else []
  | c :: text =>
    if old <+: c :: text then new ++ (c :: text).drop old.length else c :: replaceFirst old new text

/-- `backend.edit(path, old, new)`. -/
def editFile (path old new : String) (files : String → Option String) : String → Option String :=
  Function.update files path ((files path).map fun content =>
    String.ofList (replaceFirst old.toList new.toList content.toList))

/-- `backend.write(path, content)`. -/
def writeFile (path content : String) (files : String → Option String) : String → Option String :=
  Function.update files path (some content)

/-- `_get_history_path`. -/
def historyPath (sessionId : String) : String := S.historyPathPrefix ++ "/" ++ sessionId ++ ".md"

/-- The section of an offload. -/
def historySection (timestamp : String) (messages : List Message) : String :=
  "## Summarized at " ++ timestamp ++ "\n\n" ++
    H.getBufferString (filterSummaryMessages messages) ++ "\n\n"

/-- `_offload_to_backend`: the path of the history unless that fails, and the files. -/
def offloadToBackend (timestamp : String) (transfer : Transfer) (messages : List Message)
    (sessionId : String) (files : String → Option String) :
    Option String × (String → Option String) :=
  let path := historyPath S sessionId
  let existingContent := if transfer.download then (files path).getD "" else ""
  let combinedContent := existingContent ++ historySection H timestamp messages
  let updated :=
    if existingContent ≠ "" then editFile path existingContent combinedContent files
    else writeFile path combinedContent files
  match transfer.update with
  | .done => (some path, updated)
  | .failed applied => (none, if applied then updated else files)

/-! ### The calls -/

/-- `_get_session_id`, `hex` being a fresh id. -/
def getSessionId (hex : String) (s : Conversation) : String :=
  match s.sessionId with
  | some existing => if existing ≠ "" then existing else "session_" ++ hex
  | none => "session_" ++ hex

/-- What decides a model call: the index for `truncateArgs`, whether it is time to summarize, the
cutoff, how uploads and the backend answer, and the summary unless it or the model raises. -/
structure ModelCall where
  truncation : Option ℤ
  shouldSummarize : Bool
  cutoff : ℤ
  uploads : String → Bool
  hex : String
  timestamp : String
  transfer : Transfer
  summary : Option String

/-- `wrap_model_call`: the event and the conversation. The answer of the model is appended later. -/
def wrapModelCall (c : ModelCall) (s : Conversation) :
    Option SummarizationEvent × Conversation :=
  let truncatedMessages := truncateArgs S c.truncation s.effectiveMessages
  if ¬ c.shouldSummarize ∨ c.cutoff ≤ 0 then (none, s)
  else
    let messagesToSummarize := (H.partitionMessages truncatedMessages c.cutoff).1
    let offloadedMediaMessages := offloadInlineMedia H S c.uploads messagesToSummarize
    let sessionId := getSessionId c.hex s
    let (filePath, files) :=
      offloadToBackend H S c.timestamp c.transfer offloadedMediaMessages sessionId s.files
    match c.summary with
    | none => (none, { s with files })
    | some summary =>
      let event : SummarizationEvent :=
        { cutoffIndex := some (computeStateCutoff s.event c.cutoff)
          summaryMessage := some (buildNewMessageWithPath summary filePath), filePath }
      (some event, { s with event := some event, sessionId := some sessionId, files })

/-- What decides a call of the compact tool: the summary, or the text of what raised. -/
structure CompactCall where
  toolCallId : String
  eligible : Bool
  cutoff : ℤ
  hex : String
  timestamp : String
  transfer : Transfer
  summary : Except String String

/-- The answer of the tool. -/
def toolMessage (content toolCallId : String) : Message where
  kind := .other
  contentBlocks := [textBlock content]
  toolCallId := some toolCallId

/-- `_run_compact`. -/
def runCompact (c : CompactCall) (s : Conversation) : Option SummarizationEvent × Conversation :=
  if ¬ c.eligible ∨ c.cutoff = 0 then
    (none, { s with messages := s.messages ++ [toolMessage
      "Nothing to compact yet — conversation is within the token budget." c.toolCallId] })
  else
    let toSummarize := (H.partitionMessages s.effectiveMessages c.cutoff).1
    match c.summary with
    | .error text =>
      (none, { s with messages := s.messages ++ [toolMessage
        ("Compaction failed: an error occurred while generating the summary (" ++ text ++
          "). The conversation has not been compacted — no messages were summarized or removed.")
        c.toolCallId] })
    | .ok summary =>
      let sessionId := getSessionId c.hex s
      let (filePath, files) :=
        offloadToBackend H S c.timestamp c.transfer toSummarize sessionId s.files
      let event : SummarizationEvent :=
        { cutoffIndex := some (computeStateCutoff s.event c.cutoff)
          summaryMessage := some (buildNewMessageWithPath summary filePath), filePath }
      (some event,
        { messages := s.messages ++ [toolMessage ("Conversation compacted. Summarized " ++
            toString toSummarize.length ++ " messages into a concise summary.") c.toolCallId]
          event := some event, sessionId := some sessionId, files })

end

/-- What happens to a conversation. -/
inductive Call
  | append (messages : List Message)
  | modelCall (c : ModelCall)
  | compact (c : CompactCall)

/-- Perform a call, which may leave an event. -/
def Call.act (H : Helper) (S : Settings) (call : Call) (s : Conversation) :
    Option SummarizationEvent × Conversation :=
  match call with
  | .append messages => (none, { s with messages := s.messages ++ messages })
  | .modelCall c => wrapModelCall H S c s
  | .compact c => runCompact H S c s

/-- One call of a history. -/
abbrev CallEntry := Entry Conversation Call (Option SummarizationEvent)

end Summarization

end CyranoAgent
