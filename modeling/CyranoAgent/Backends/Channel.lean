import CyranoAgent.Backends.Reading
import CyranoAgent.Backends.Replacement
import CyranoAgent.Lib.Patch
import CyranoAgent.Lib.Simulation

/-!
# The files of the agent's state

The `files` channel of the agent's state merges updates: `_file_data_reducer` one, and
`_file_data_delta_reducer` those of a step in one pass, which comes to the same
(`fileDataDeltaReducer_spec`). A `StateBackend` sends its writes to the channel and reads what they
make of it, before they are committed.

What it is for is said by `Registers`: a file for each path. However the calls are cut into steps,
the backend replies as the registers do and keeps what they keep (`stateBackend_spec`). Bytes that
were uploaded are downloaded again exactly when they are text in UTF-8 (`downloadFiles_spec`).
-/

namespace CyranoAgent

namespace Backends

open Lib

/-! ### Reducers -/

/-- An update of the channel: the file of a path, or `None` where it is deleted. -/
abbrev FilesUpdate := Dict Text (Option FileData)

/-- `_file_data_reducer`. -/
def fileDataReducer (left : Option (Dict Text FileData)) (right : FilesUpdate) :
    Dict Text FileData :=
  match left with
  | none =>
    Dict.ofList (right.entries.filterMap fun entry => entry.2.map fun file => (entry.1, file))
  | some left => left.patch right

/-- `_file_data_delta_reducer`. -/
def fileDataDeltaReducer (left : Option (Dict Text FileData)) (values : List FilesUpdate) :
    Dict Text FileData :=
  (left.getD ∅).patchAll values

/-! ### The channel -/

/-- The channel inside a step: the files that are committed, and the writes that are pending. -/
structure FilesChannel where
  committed : Option (Dict Text FileData) := none
  writes : List FilesUpdate := []

/-- `_read_files`: a fresh read, with the pending writes applied. -/
def FilesChannel.readFiles (channel : FilesChannel) : Dict Text FileData :=
  fileDataDeltaReducer channel.committed channel.writes

/-- `_send_files_update`. -/
def FilesChannel.sendFilesUpdate (channel : FilesChannel) (update : FilesUpdate) : FilesChannel :=
  { channel with writes := channel.writes ++ [update] }

/-- The end of a step, where the writes are committed. -/
def FilesChannel.commit (channel : FilesChannel) : FilesChannel where
  committed := some channel.readFiles

/-! ### File data -/

/-- New file data, at a time. -/
def createFileData (content : Text) (now : String) : FileData where
  content := .text content
  encoding := some "utf-8"
  createdAt := some now
  modifiedAt := some now

/-- File data with new content, the time of its creation carried through. -/
def updateFileData (fileData : FileData) (content : Text) (now : String) : FileData where
  content := .text content
  encoding := some (fileData.encoding.getD "utf-8")
  createdAt := fileData.createdAt
  modifiedAt := some now

/-- `_EXTENSION_TO_FILE_TYPE`. -/
def extensionToFileType : List (String × String) :=
  [(".png", "image"), (".jpeg", "image"), (".jpg", "image"), (".webp", "image"), (".gif", "image"),
    (".heic", "image"), (".heif", "image"), (".mp4", "video"), (".mpeg", "video"),
    (".mov", "video"), (".avi", "video"), (".flv", "video"), (".mpg", "video"), (".webm", "video"),
    (".wmv", "video"), (".3gpp", "video"), (".wav", "audio"), (".mp3", "audio"), (".aiff", "audio"),
    (".aac", "audio"), (".ogg", "audio"), (".flac", "audio"), (".pdf", "file"), (".ppt", "file"),
    (".pptx", "file")]

/-- What the backend calls of the standard library: the suffix of a path in lower case,
`base64.b64encode` and `base64.standard_b64decode`. -/
structure StandardLibrary where
  suffix : Text → String
  b64encode : ByteArray → Text
  standardB64decode : Text → Except String ByteArray

/-- The type of a file by its extension. -/
def getFileType (std : StandardLibrary) (path : Text) : String :=
  (extensionToFileType.lookup (std.suffix path)).getD "text"

/-- The type of a file for reads, with the video containers among the binary ones. -/
def getBackendReadFileType (std : StandardLibrary) (path : Text) : String :=
  if std.suffix path = ".mkv" then "video" else getFileType std path

/-! ### Calls -/

/-- The answer of `write`. -/
structure WriteResult where
  error : Option String := none
  path : Option Text := none

/-- The answer of `edit`. -/
structure EditResult where
  error : Option String := none
  path : Option Text := none
  occurrences : Option ℕ := none

/-- The answer of `delete`. -/
structure DeleteResult where
  error : Option String := none
  path : Option Text := none

/-- The answer for one file that is uploaded. -/
structure FileUploadResponse where
  path : Text
  error : Option String := none

/-- The answer for one file that is downloaded. -/
structure FileDownloadResponse where
  path : Text
  content : Option ByteArray := none
  error : Option String := none

/-- A file to upload, and what the clock says when its turn comes. -/
structure Upload where
  path : Text
  content : ByteArray
  now : String

namespace FilesChannel

variable (std : StandardLibrary) (channel : FilesChannel)

/-- `StateBackend.read`. -/
def read (filePath : Text) (offset limit : ℤ) : ReadResult :=
  match channel.readFiles.get? filePath with
  | none => .plain (some s!"File '{String.ofList filePath}' not found") none
  | some fileData =>
    if getBackendReadFileType std filePath ≠ "text" then
      .plain none (some (copyFileDataWithContent fileData (fileDataToString fileData)))
    else sliceReadResponse fileData offset limit

/-- `StateBackend.write`. -/
def write (filePath content : Text) (now : String) : WriteResult × FilesChannel :=
  let newFileData := match channel.readFiles.get? filePath with
    | some existing => updateFileData existing content now
    | none => createFileData content now
  ({ path := some filePath },
    channel.sendFilesUpdate (Dict.ofList [(filePath, some newFileData)]))

/-- `StateBackend.edit`. -/
def edit (filePath old new : Text) (replaceAll : Bool) (now : String) :
    EditResult × FilesChannel :=
  match channel.readFiles.get? filePath with
  | none => ({ error := some s!"Error: File '{String.ofList filePath}' not found" }, channel)
  | some fileData =>
    match performStringReplacement (fileDataToString fileData) old new replaceAll with
    | .error reason => ({ error := some reason }, channel)
    | .ok (newContent, occurrences) =>
      ({ path := some filePath, occurrences := some occurrences },
        channel.sendFilesUpdate
          (Dict.ofList [(filePath, some (updateFileData fileData newContent now))]))

/-- `StateBackend.delete`. -/
def delete (filePath : Text) : DeleteResult × FilesChannel :=
  let base := rstripSlash filePath
  let toDelete := channel.readFiles.keys.filter fun key => key = base ∨ base ++ ['/'] <+: key
  if toDelete = [] then
    ({ error := some s!"Error: File '{String.ofList filePath}' not found" }, channel)
  else
    ({ path := some filePath },
      channel.sendFilesUpdate (Dict.ofList (toDelete.map fun key => (key, none))))

/-- The text that is stored for bytes: what they spell in UTF-8, or else in base 64. -/
def storedText (content : ByteArray) : Text :=
  match String.fromUTF8? content with
  | some text => text.toList
  | none => std.b64encode content

/-- The file data of an upload, given what is stored at its path before. -/
def storedFile (previous : Option FileData) (upload : Upload) : FileData :=
  match previous with
  | some previous => updateFileData previous (storedText std upload.content) upload.now
  | none => createFileData (storedText std upload.content) upload.now

/-- `StateBackend.upload_files`. -/
def uploadFiles (files : List Upload) : List FileUploadResponse × FilesChannel :=
  let existing := channel.readFiles
  let update := Dict.ofList <| files.map fun upload =>
    (upload.path, some (storedFile std (existing.get? upload.path) upload))
  (files.map fun upload => { path := upload.path },
    if update.entries = [] then channel else channel.sendFilesUpdate update)

/-- The answer to a download of what is stored at a path. -/
def downloadFile (path : Text) : Option FileData → Except String FileDownloadResponse
  | none => .ok { path, error := some "file_not_found" }
  | some fileData =>
    if fileData.encoding.getD "utf-8" = "utf-8" then
      .ok { path, content := some (String.ofList (fileDataToString fileData)).toByteArray }
    else do
      let content ← std.standardB64decode (fileDataToString fileData)
      return { path, content := some content }

/-- `StateBackend.download_files`. -/
def downloadFiles (paths : List Text) : Except String (List FileDownloadResponse) :=
  paths.mapM fun path => downloadFile std path (channel.readFiles.get? path)

end FilesChannel

/-- What is called on the backend. A step of the graph ends with `commit`. -/
inductive FileCall where
  | read (filePath : Text) (offset limit : ℤ)
  | write (filePath content : Text) (now : String)
  | edit (filePath old new : Text) (replaceAll : Bool) (now : String)
  | delete (filePath : Text)
  | uploadFiles (files : List Upload)
  | downloadFiles (paths : List Text)
  | commit

/-- What a call returns. -/
inductive FileReply where
  | read (result : ReadResult)
  | write (result : WriteResult)
  | edit (result : EditResult)
  | delete (result : DeleteResult)
  | uploadFiles (responses : List FileUploadResponse)
  | downloadFiles (outcome : Except String (List FileDownloadResponse))
  | done

/-- A call, with the channel behind it. -/
def FilesChannel.call (std : StandardLibrary) : FileCall → FilesChannel → FileReply × FilesChannel
  | .read filePath offset limit, channel =>
    (.read (channel.read std filePath offset limit), channel)
  | .write filePath content now, channel => (channel.write filePath content now).map .write id
  | .edit filePath old new replaceAll now, channel =>
    (channel.edit filePath old new replaceAll now).map .edit id
  | .delete filePath, channel => (channel.delete filePath).map .delete id
  | .uploadFiles files, channel => (channel.uploadFiles std files).map .uploadFiles id
  | .downloadFiles paths, channel => (.downloadFiles (channel.downloadFiles std paths), channel)
  | .commit, channel => (.done, channel.commit)

/-! ### What the backend is for -/

/-- A file for each path, or none. -/
abbrev Registers := Text → Option FileData

namespace Registers

variable (std : StandardLibrary) (regs : Registers)

/-- A path is deleted with another one: it is that path, or below it. -/
def Under (filePath path : Text) : Prop :=
  path = rstripSlash filePath ∨ rstripSlash filePath ++ ['/'] <+: path

instance (filePath path : Text) : Decidable (Under filePath path) :=
  inferInstanceAs (Decidable (_ ∨ _))

/-- The registers with a file put at a path. -/
def put (path : Text) (fileData : FileData) : Registers :=
  fun other => if other = path then some fileData else regs other

/-- The last of the uploads to a path. -/
def lastUpload (files : List Upload) (path : Text) : Option Upload :=
  (files.filter fun upload => upload.path = path).getLast?

open Classical in
/-- What a call replies and stores: each path on its own, with nothing pending. -/
noncomputable def call : FileCall → Registers → FileReply × Registers
  | .read filePath offset limit, regs =>
    (.read <| (regs filePath).elim
      (.plain (some s!"File '{String.ofList filePath}' not found") none)
      fun fileData =>
        if getBackendReadFileType std filePath ≠ "text" then
          .plain none (some (copyFileDataWithContent fileData (fileDataToString fileData)))
        else sliceReadResponse fileData offset limit, regs)
  | .write filePath content now, regs =>
    (.write { path := some filePath }, regs.put filePath <|
      (regs filePath).elim (createFileData content now) (updateFileData · content now))
  | .edit filePath old new replaceAll now, regs =>
    match regs filePath with
    | none =>
      (.edit { error := some s!"Error: File '{String.ofList filePath}' not found" }, regs)
    | some fileData =>
      match performStringReplacement (fileDataToString fileData) old new replaceAll with
      | .error reason => (.edit { error := some reason }, regs)
      | .ok (newContent, occurrences) =>
        (.edit { path := some filePath, occurrences := some occurrences },
          regs.put filePath (updateFileData fileData newContent now))
  | .delete filePath, regs =>
    if ∃ path, Under filePath path ∧ regs path ≠ none then
      (.delete { path := some filePath }, fun path =>
        if Under filePath path then none else regs path)
    else
      (.delete { error := some s!"Error: File '{String.ofList filePath}' not found" }, regs)
  | .uploadFiles files, regs =>
    (.uploadFiles (files.map fun upload => { path := upload.path }), fun path =>
      (lastUpload files path).elim (regs path) fun upload =>
        some (FilesChannel.storedFile std (regs path) upload))
  | .downloadFiles paths, regs =>
    (.downloadFiles (paths.mapM fun path => FilesChannel.downloadFile std path (regs path)), regs)
  | .commit, regs => (.done, regs)

end Registers

/-! ### Where steps are cut -/

section

variable {left : Option (Dict Text FileData)} {values : List FilesUpdate}

/-- An update of no files keeps what it sets. -/
theorem fileDataReducer_eq (right : FilesUpdate) :
    fileDataReducer left right = (left.getD ∅).patch right := by
  cases left with
  | some left => rfl
  | none =>
    refine Dict.ext ?_
    rw [Option.getD_none, Dict.patch_empty, fileDataReducer]
    refine Dict.entries_ofList (List.Nodup.sublist ?_ right.nodup)
    generalize right.entries = entries
    induction entries with
    | nil => simp
    | cons entry entries ih =>
      obtain ⟨key, value⟩ := entry
      cases value with
      | none => simpa using ih.cons key
      | some file => simpa using ih.cons_cons key

/-- **The reducer of a step is the plain one, update by update.** Where the updates are cut into
steps makes no difference, and what a path has in the end is what the last update that mentions it
says. -/
theorem fileDataDeltaReducer_spec (left : Option (Dict Text FileData))
    (steps : List (List FilesUpdate)) :
    let files :=
      (steps.foldl (fun files values => some (fileDataDeltaReducer files values)) left).getD ∅
    files = fileDataDeltaReducer left steps.flatten ∧
      files = (steps.flatten.foldl (fun files right => some (fileDataReducer files right))
        left).getD ∅ ∧
      ∀ path, files.get? path =
        ((steps.flatten.filterMap fun right => right.get? path).getLast?).getD
          ((left.getD ∅).get? path) := by
  have hsteps : ∀ left : Option (Dict Text FileData), (steps.foldl (fun files values =>
      some (fileDataDeltaReducer files values)) left).getD ∅ =
        fileDataDeltaReducer left steps.flatten := by
    intro left
    induction steps generalizing left with
    | nil => rfl
    | cons values steps ih =>
      rw [List.foldl_cons, ih, List.flatten_cons, fileDataDeltaReducer, fileDataDeltaReducer,
        fileDataDeltaReducer, Option.getD_some, Dict.patchAll_append]
  have hplain : ∀ (updates : List FilesUpdate) (left : Option (Dict Text FileData)),
      fileDataDeltaReducer left updates =
        (updates.foldl (fun files right => some (fileDataReducer files right)) left).getD ∅ := by
    intro updates
    induction updates with
    | nil => exact fun left => rfl
    | cons right updates ih =>
      intro left
      rw [List.foldl_cons, ← ih, fileDataReducer_eq]
      rfl
  refine ⟨hsteps left, (hsteps left).trans (hplain _ _), fun path => ?_⟩
  rw [hsteps, fileDataDeltaReducer, Dict.get?_patchAll]

end

/-! ### The backend is its registers -/

section

variable {std : StandardLibrary} {channel : FilesChannel}

namespace FilesChannel

/-- The registers that a channel stands for. -/
def registers (channel : FilesChannel) : Registers := channel.readFiles.get?

/-- A write is read before it is committed. -/
theorem readFiles_sendFilesUpdate (update : FilesUpdate) :
    (channel.sendFilesUpdate update).readFiles = channel.readFiles.patch update := by
  rw [readFiles, fileDataDeltaReducer, sendFilesUpdate, Dict.patchAll_append]
  rfl

theorem registers_sendFilesUpdate (update : FilesUpdate) :
    (channel.sendFilesUpdate update).registers = fun path =>
      (update.get? path).getD (channel.registers path) := by
  funext path
  rw [registers, readFiles_sendFilesUpdate, Dict.get?_patch]
  rfl

/-- A write of one file. -/
theorem registers_sendFile (path : Text) (fileData : FileData) :
    (channel.sendFilesUpdate (Dict.ofList [(path, some fileData)])).registers =
      channel.registers.put path fileData := by
  funext other
  simp only [registers_sendFilesUpdate, Dict.get?_ofList, Registers.put]
  by_cases hpath : path = other
  · simp [hpath]
  · simp [hpath, Ne.symm hpath]

/-- A commit changes nothing that is read. -/
theorem registers_commit : channel.commit.registers = channel.registers := rfl

/-! #### One call at a time -/

theorem read_spec (filePath : Text) (offset limit : ℤ) :
    (FileReply.read (channel.read std filePath offset limit), channel.registers) =
      Registers.call std (.read filePath offset limit) channel.registers := by
  rw [Registers.call, registers, read]
  cases channel.readFiles.get? filePath <;> rfl

theorem write_spec (filePath content : Text) (now : String) :
    (channel.write filePath content now).map .write registers =
      Registers.call std (.write filePath content now) channel.registers := by
  refine Prod.ext rfl ((registers_sendFile _ _).trans ?_)
  rw [Registers.call, registers]
  cases channel.readFiles.get? filePath <;> rfl

theorem edit_spec (filePath old new : Text) (replaceAll : Bool) (now : String) :
    (channel.edit filePath old new replaceAll now).map .edit registers =
      Registers.call std (.edit filePath old new replaceAll now) channel.registers := by
  rw [Registers.call, registers, edit]
  cases channel.readFiles.get? filePath with
  | none => rfl
  | some fileData =>
    cases hedit : performStringReplacement (fileDataToString fileData) old new replaceAll with
    | error reason => simp [hedit]; rfl
    | ok edited => simp [hedit, registers_sendFile]; rfl

/-- The files to delete are those that are stored at the path or below it. -/
theorem mem_toDelete_iff (filePath path : Text) :
    path ∈ channel.readFiles.keys.filter (fun key => key = rstripSlash filePath ∨
        rstripSlash filePath ++ ['/'] <+: key) ↔
      Registers.Under filePath path ∧ channel.registers path ≠ none := by
  rw [List.mem_filter, and_comm, decide_eq_true_eq, registers, Ne, Dict.get?_eq_none_iff, not_not]
  rfl

/-- What is at the path or below it is gone, and nothing else. -/
theorem registers_delete (filePath : Text) :
    (channel.delete filePath).2.registers = fun path =>
      if Registers.Under filePath path then none else channel.registers path := by
  have hmem := fun path => @mem_toDelete_iff channel filePath path
  rw [delete]
  generalize channel.readFiles.keys.filter (fun key => key = rstripSlash filePath ∨
    rstripSlash filePath ++ ['/'] <+: key) = toDelete at hmem
  have hgone : ∀ path, Registers.Under filePath path → path ∉ toDelete →
      channel.registers path = none := fun path hunder hpath =>
    by_contra fun hstored => hpath ((hmem path).mpr ⟨hunder, hstored⟩)
  by_cases hnone : toDelete = []
  · rw [if_pos hnone]
    funext path
    split_ifs with hunder
    · exact hgone path hunder (by simp [hnone])
    · rfl
  · rw [if_neg hnone]
    funext path
    simp only [registers_sendFilesUpdate, Dict.get?_ofList_map]
    by_cases hpath : path ∈ toDelete
    · rw [if_pos hpath, if_pos ((hmem path).mp hpath).1, Option.getD_some]
    · rw [if_neg hpath, Option.getD_none]
      split_ifs with hunder
      · exact hgone path hunder hpath
      · rfl

theorem delete_spec (filePath : Text) :
    (channel.delete filePath).map .delete registers =
      Registers.call std (.delete filePath) channel.registers := by
  have hmem := fun path => @mem_toDelete_iff channel filePath path
  have hstate := @registers_delete channel filePath
  rw [Registers.call]
  rw [delete] at hstate ⊢
  generalize channel.readFiles.keys.filter (fun key => key = rstripSlash filePath ∨
    rstripSlash filePath ++ ['/'] <+: key) = toDelete at hmem hstate
  by_cases hnone : toDelete = []
  · have hno : ¬ ∃ path, Registers.Under filePath path ∧ channel.registers path ≠ none := by
      rintro ⟨path, hpath⟩
      rw [← hmem, hnone] at hpath
      exact List.not_mem_nil hpath
    rw [if_pos hnone, if_neg hno]
    rfl
  · obtain ⟨key, hkey⟩ := List.exists_mem_of_ne_nil toDelete hnone
    rw [if_neg hnone] at hstate
    rw [if_neg hnone, if_pos ⟨key, (hmem key).mp hkey⟩]
    exact Prod.ext rfl hstate

/-- The last of the uploads to a path is what the update holds for it. -/
theorem get?_update (files : List Upload) (path : Text) :
    (Dict.ofList (files.map fun upload =>
      (upload.path, some (storedFile std (channel.registers upload.path) upload)))).get? path =
      (Registers.lastUpload files path).map fun upload =>
        some (storedFile std (channel.registers path) upload) := by
  rw [Dict.get?_ofList, ← List.map_reverse, List.find?_map, Registers.lastUpload,
    List.getLast?_filter, Option.map_map]
  refine Option.map_congr fun upload hlast => ?_
  have hpath := List.find?_some hlast
  obtain rfl : upload.path = path := of_decide_eq_true hpath
  rfl

theorem uploadFiles_spec (files : List Upload) :
    (channel.uploadFiles std files).map .uploadFiles registers =
      Registers.call std (.uploadFiles files) channel.registers := by
  rw [Registers.call, uploadFiles]
  refine Prod.ext rfl ?_
  dsimp only [Prod.map]
  have hupdate := @get?_update std channel files
  rw [registers] at hupdate
  generalize Dict.ofList (files.map fun upload =>
    (upload.path, some (storedFile std (channel.readFiles.get? upload.path) upload))) = update
    at hupdate
  have hsend : (if update.entries = [] then channel else channel.sendFilesUpdate update).registers =
      fun path => (update.get? path).getD (channel.registers path) := by
    split_ifs with hnone
    · funext path
      rw [show update = ∅ from Dict.ext hnone]
      rfl
    · exact registers_sendFilesUpdate update
  rw [hsend]
  funext path
  rw [hupdate]
  cases Registers.lastUpload files path <;> rfl

/-- **Every call replies as the registers do**, and leaves what they keep. -/
theorem call_spec (call : FileCall) :
    (channel.call std call).map id registers = Registers.call std call channel.registers := by
  cases call with
  | read filePath offset limit => exact read_spec filePath offset limit
  | write filePath content now => exact write_spec filePath content now
  | edit filePath old new replaceAll now => exact edit_spec filePath old new replaceAll now
  | delete filePath => exact delete_spec filePath
  | uploadFiles files => exact uploadFiles_spec files
  | downloadFiles paths => rfl
  | commit => rfl

end FilesChannel

/-- A call that is not the end of a step. -/
def FileCall.touches : FileCall → Bool
  | .commit => false
  | _ => true

/-- **The backend is a file for each path**: whatever its channel holds, it answers every sequence
of calls as the registers do that it stands for, and it stands for theirs in the end. Where the
steps end changes no answer and no file. -/
theorem stateBackend_spec (std : StandardLibrary) (channel : FilesChannel) (calls : List FileCall) :
    let run := exec (FilesChannel.call std) channel calls
    let unbroken := exec (FilesChannel.call std) channel (calls.filter FileCall.touches)
    run.1.map (·.reply) =
        (exec (Registers.call std) channel.registers calls).1.map (·.reply) ∧
      run.2.registers = (exec (Registers.call std) channel.registers calls).2 ∧
      (run.1.filter (·.op.touches)).map (·.reply) = unbroken.1.map (·.reply) ∧
      run.2.registers = unbroken.2.registers := by
  intro run unbroken
  have hsim : Simulation (FilesChannel.call std) (Registers.call std)
      fun channel regs => channel.registers = regs := by
    rintro call channel regs rfl
    have hcall := @FilesChannel.call_spec std channel call
    exact ⟨congrArg Prod.fst hcall, congrArg Prod.snd hcall⟩
  have hstutter : ∀ call channel regs, FileCall.touches call = false →
      FilesChannel.registers channel = regs →
        (FilesChannel.call std call channel).2.registers = regs := by
    rintro call channel regs hcommit rfl
    cases call with
    | commit => exact FilesChannel.registers_commit
    | _ => simp [FileCall.touches] at hcommit
  obtain ⟨hreplies, hend⟩ := hsim.exec rfl calls
  obtain ⟨hskipped, hskippedEnd⟩ := hsim.exec_filter hstutter rfl calls
  obtain ⟨hunbroken, hunbrokenEnd⟩ := hsim.exec rfl (calls.filter FileCall.touches)
  exact ⟨hreplies, hend, hskipped.trans hunbroken.symm, hskippedEnd.trans hunbrokenEnd.symm⟩

/-- Every file is kept under UTF-8. -/
def Registers.Encoded (regs : Registers) : Prop :=
  ∀ path, ∀ fileData ∈ regs path, fileData.encoding.getD "utf-8" = "utf-8"

/-! ### Bytes that are uploaded -/

theorem Registers.Encoded.put {regs : Registers} (henc : regs.Encoded) {path : Text}
    {fileData : FileData} (hfile : fileData.encoding.getD "utf-8" = "utf-8") :
    (regs.put path fileData).Encoded := by
  intro other stored hstored
  rw [Registers.put] at hstored
  split_ifs at hstored
  · obtain rfl := Option.mem_some_iff.mp hstored
    exact hfile
  · exact henc other stored hstored

/-- New content is kept under the encoding of what is there. -/
theorem Registers.Encoded.elim {regs : Registers} (henc : regs.Encoded) (path content : Text)
    (now : String) : ((regs path).elim (createFileData content now)
      (updateFileData · content now)).encoding.getD "utf-8" = "utf-8" := by
  cases hstored : regs path with
  | none => rfl
  | some fileData => exact henc path fileData hstored

/-- **Nothing is ever kept under another encoding**: what is not text in UTF-8 is kept as base 64,
but not marked so. -/
theorem Registers.Encoded.call {regs : Registers} (henc : regs.Encoded) (call : FileCall) :
    (Registers.call std call regs).2.Encoded := by
  cases call with
  | read | downloadFiles | commit => exact henc
  | write filePath content now => exact henc.put (henc.elim filePath content now)
  | edit filePath old new replaceAll now =>
    rw [Registers.call]
    cases hstored : regs filePath with
    | none => exact henc
    | some fileData =>
      dsimp only
      split
      · exact henc
      · exact henc.put (henc filePath fileData hstored)
  | delete filePath =>
    rw [Registers.call]
    split_ifs
    · intro path fileData hstored
      dsimp only at hstored
      split_ifs at hstored
      · simp at hstored
      · exact henc path fileData hstored
    · exact henc
  | uploadFiles files =>
    intro path fileData hstored
    simp only [Registers.call] at hstored
    cases hlast : lastUpload files path with
    | none =>
      rw [hlast] at hstored
      exact henc path fileData hstored
    | some upload =>
      rw [hlast] at hstored
      obtain rfl := Option.mem_some_iff.mp hstored
      cases hprevious : regs path with
      | none => rfl
      | some previous => exact henc path previous hprevious

theorem FilesChannel.fileDataToString_storedFile (previous : Option FileData) (upload : Upload) :
    fileDataToString (storedFile std previous upload) = storedText std upload.content := by
  cases previous <;> rfl

/-- What is stored for bytes spells them exactly when they are valid UTF-8. -/
theorem toByteArray_storedText (content : ByteArray) :
    (String.ofList (FilesChannel.storedText std content)).toByteArray = content ↔
      content.IsValidUTF8 := by
  constructor
  · intro hsame
    rw [← hsame]
    exact String.isValidUTF8 _
  · intro hvalid
    rw [FilesChannel.storedText, String.fromUTF8?, dif_pos hvalid]
    dsimp only
    rw [String.ofList_toList]
    rfl

/-- The answer to a download of a file that is kept under UTF-8. -/
theorem FilesChannel.exists_response (path : Text) (stored : Option FileData)
    (henc : ∀ fileData ∈ stored, fileData.encoding.getD "utf-8" = "utf-8") :
    ∃ response, downloadFile std path stored = .ok response ∧ response.path = path ∧
      ∀ fileData ∈ stored, response.error = none ∧
        response.content = some (String.ofList (fileDataToString fileData)).toByteArray := by
  cases stored with
  | none => exact ⟨_, rfl, rfl, by simp⟩
  | some fileData =>
    rw [downloadFile, if_pos (henc fileData rfl)]
    refine ⟨_, rfl, rfl, ?_⟩
    rintro other ⟨⟩
    exact ⟨rfl, rfl⟩

/-- **Uploads that are not text come back changed.** In every run from no files, a download answers
for each path that is asked for, and the decoder is never called. For the path of an upload it
returns what was uploaded exactly when that is valid UTF-8. -/
theorem downloadFiles_spec (std : StandardLibrary) (calls : List FileCall) (files : List Upload)
    (paths : List Text) :
    let channel := ((exec (FilesChannel.call std) {} calls).2.uploadFiles std files).2
    ∃ responses, channel.downloadFiles std paths = .ok responses ∧
      responses.map (·.path) = paths ∧
      ∀ response ∈ responses, ∀ upload ∈ Registers.lastUpload files response.path,
        response.error = none ∧
          (response.content = some upload.content ↔ upload.content.IsValidUTF8) := by
  intro channel
  have hstart : (FilesChannel.registers {}).Encoded := by
    intro path fileData hstored
    exact absurd hstored (Option.not_mem_none _)
  have hreached : (exec (FilesChannel.call std) {} calls).2.registers.Encoded := by
    refine (run_exec (FilesChannel.call std) {} calls).inv_state
      (I := fun channel => channel.registers.Encoded) hstart fun channel call henc => ?_
    have hregs : (FilesChannel.call std call channel).2.registers =
        (Registers.call std call channel.registers).2 := congrArg Prod.snd (channel.call_spec call)
    rw [hregs]
    exact henc.call call
  have hregs : channel.registers = (Registers.call std (.uploadFiles files)
      (exec (FilesChannel.call std) {} calls).2.registers).2 :=
    congrArg Prod.snd (FilesChannel.uploadFiles_spec files)
  have henc : channel.registers.Encoded := by
    rw [hregs]
    exact hreached.call (.uploadFiles files)
  choose response hresponse using fun path =>
    @FilesChannel.exists_response std path (channel.registers path) (henc path)
  have hanswers : (fun path => FilesChannel.downloadFile std path (channel.registers path)) =
      fun path => pure (response path) := funext fun path => (hresponse path).1
  refine ⟨paths.map response, ?_, ?_, ?_⟩
  · have hall := congrArg (fun answer => paths.mapM answer) hanswers
    exact hall.trans List.mapM_pure
  · rw [List.map_map]
    exact (List.map_congr_left fun path _ => (hresponse path).2.1).trans (List.map_id paths)
  · intro answer hanswer upload hlast
    obtain ⟨path, -, rfl⟩ := List.mem_map.mp hanswer
    rw [(hresponse path).2.1] at hlast
    have hstored : channel.registers path = some (FilesChannel.storedFile std
        ((exec (FilesChannel.call std) {} calls).2.registers path) upload) := by
      simp only [hregs, Registers.call, Option.mem_def.mp hlast, Option.elim_some]
    obtain ⟨herror, hcontent⟩ := (hresponse path).2.2 _ hstored
    refine ⟨herror, ?_⟩
    rw [hcontent, Option.some_inj, FilesChannel.fileDataToString_storedFile,
      toByteArray_storedText]

end

end Backends

end CyranoAgent
