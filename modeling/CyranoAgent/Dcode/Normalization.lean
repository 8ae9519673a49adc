import CyranoAgent.Contracts.Canonical
import CyranoAgent.Lib.Action
import CyranoAgent.Lib.Dict
import CyranoAgent.Lib.Run

/-!
# Normalization of tool calls

A `ProtocolNormalizer` assembles the fragments of the arguments of tool calls, and returns a call
with its final fragment. Results are recorded by call, and `finalize` writes a synthetic result for
each call without one.

Runs interleave all of these. `dispatchLaw_iff` says in which of them calls are dispatched as they
should be, and `oneOutcome_iff` which of those that end with a `finalize` leave each call one
outcome. What `json.loads` makes of a text is a parameter.
-/

namespace CyranoAgent

open Lib Lib.Action

namespace Dcode

/-- `ToolCall`. -/
structure ToolCall where
  callId : String
  name : String
  arguments : PyMapping

/-- `_Pending`, as far as fragments and results concern it. -/
structure Pending where
  name : String
  chunks : List ByteArray := []
  cancelled : Bool := false
  completed : Bool := false
  result : PyValue := .none
  hasResult : Bool := false

/-- What a `ProtocolNormalizer` changes. -/
structure ProtocolNormalizer where
  pending : Dict String Pending := ∅
  orphans : List (String × PyValue) := []
  synthetic : List (String × PyValue) := []

/-- The limits of a `ProtocolNormalizer`. -/
structure NormalizerLimits where
  maxArgsBytes : ℤ := 262144
  maxCalls : ℤ := 512

/-- An action on a normalizer. -/
abbrev NormalizerOp (α : Type) := Action ProtocolNormalizer Failure α

/-- What the fragments of a call add up to, in bytes. -/
def totalSize (chunks : List ByteArray) : ℤ := ((chunks.map (·.size)).sum : ℕ)

/-- `b"".join(chunks)`. -/
def joined (chunks : List ByteArray) : ByteArray := chunks.foldl (· ++ ·) .empty

section

variable (loads : String → Except Failure PyValue) (reprText : String → String)
  (limits : NormalizerLimits)

/-- The arguments of a call, of all its bytes. An exception of `json.loads` other than a
`JSONDecodeError` is not caught. -/
def decodeArguments (callId : String) (raw : ByteArray) : Except Failure PyMapping :=
  match String.fromUTF8? raw with
  | none => .error (.cyrano "INCOMPLETE_TOOL_CALL"
      ("arguments for " ++ reprText callId ++ " never formed valid JSON"))
  | some text =>
    match loads (if text = "" then "\x7b\x7d" else text) with
    | .ok (.dict arguments) => .ok arguments
    | .ok _ => .error (.cyrano "INCOMPLETE_TOOL_CALL"
        ("arguments for " ++ reprText callId ++ " are not an object"))
    | .error (.python "JSONDecodeError" _) => .error (.cyrano "INCOMPLETE_TOOL_CALL"
        ("arguments for " ++ reprText callId ++ " never formed valid JSON"))
    | .error e => .error e

/-- What `feed` does to an open call. -/
def feedSlot (callId name : String) (slot : Pending) (chunk : ByteArray) (final : Bool) :
    NormalizerOp (Option ToolCall) := do
  let slot := { slot with chunks := slot.chunks ++ [chunk] }
  modify fun N => { N with pending := N.pending.set callId slot }
  raiseIf (limits.maxArgsBytes < totalSize slot.chunks) (.cyrano "TOOL_ARGUMENT_LIMIT"
    ("arguments for " ++ reprText callId ++ " exceed " ++ toString limits.maxArgsBytes))
  if final = false then return none
  else
    modify fun N => { N with pending := N.pending.set callId { slot with completed := true } }
    let arguments ← lift (decodeArguments loads reprText callId (joined slot.chunks))
    return some { callId, name, arguments }

/-- `feed`. -/
def feed (callId name : String) (chunk : ByteArray) (final : Bool) :
    NormalizerOp (Option ToolCall) := do
  let N ← get
  match N.pending.get? callId with
  | none => do
    raiseIf (limits.maxCalls ≤ N.pending.keys.length) (.cyrano "TOOL_ARGUMENT_LIMIT"
      ("more than " ++ toString limits.maxCalls ++ " open calls"))
    feedSlot loads reprText limits callId name { name } chunk final
  | some slot => do
    raiseIf (slot.name ≠ name) (.cyrano "CALL_ID_COLLISION"
      ("call id " ++ reprText callId ++ " reused for " ++ reprText name))
    raiseIf (slot.completed = true) (.cyrano "CALL_ID_COLLISION"
      ("call id " ++ reprText callId ++ " already completed"))
    feedSlot loads reprText limits callId name slot chunk final

/-- `record_result`. -/
def recordResult (callId : String) (payload : PyValue) : NormalizerOp String := do
  let N ← get
  match N.pending.get? callId with
  | none => do
    modify fun N => { N with orphans := N.orphans ++ [(callId, payload)] }
    throw (.cyrano "INPUT_INVALID" ("result for unknown call " ++ reprText callId))
  | some slot =>
    if slot.cancelled = true then return "stale"
    else
      modify fun N => { N with
        pending := N.pending.set callId { slot with result := payload, hasResult := true } }
      return "ok"

/-- The synthetic result of a call. -/
def observationMissing : PyValue := .dict [(.str "status", .str "observation_missing")]

/-- The loop of `finalize`. -/
def finalizeCalls : List (String × Pending) → NormalizerOp Unit
  | [] => pure ()
  | (callId, slot) :: rest => do
    raiseIf (slot.completed = false) (.cyrano "INCOMPLETE_TOOL_CALL"
      ("call " ++ reprText callId ++ " ended without a final fragment"))
    if slot.hasResult = false then
      modify fun N => { N with synthetic := N.synthetic ++ [(callId, observationMissing)] }
    finalizeCalls rest

/-- `finalize`. -/
def finalize : NormalizerOp (List ToolCall) := do
  let N ← get
  finalizeCalls reprText N.pending.entries
  return N.pending.entries.map fun entry => ⟨entry.1, entry.2.name, []⟩

/-- `cancel`. -/
def cancel (callId : String) : NormalizerOp Unit := do
  let N ← get
  match N.pending.get? callId with
  | none => throw (.cyrano "INPUT_INVALID" ("cancel for unknown call " ++ reprText callId))
  | some slot =>
    modify fun N => { N with pending := N.pending.set callId { slot with cancelled := true } }

/-- The calls of a normalizer. -/
inductive NormalizerCall
  | feed (callId name : String) (chunk : ByteArray) (final : Bool)
  | cancel (callId : String)
  | recordResult (callId : String) (payload : PyValue)
  | finalize

/-- What a call returns. -/
inductive NormalizerReply
  | fed (call : Option ToolCall)
  | cancelled
  | recorded (status : String)
  | finalized (calls : List ToolCall)

/-- One call. -/
def NormalizerCall.perform (call : NormalizerCall) (N : ProtocolNormalizer) :
    Except Failure NormalizerReply × ProtocolNormalizer :=
  match call with
  | .feed callId name chunk final =>
    (NormalizerReply.fed <$> Dcode.feed loads reprText limits callId name chunk final).run N
  | .cancel callId => ((fun _ => .cancelled) <$> Dcode.cancel reprText callId).run N
  | .recordResult callId payload =>
    (NormalizerReply.recorded <$> Dcode.recordResult reprText callId payload).run N
  | .finalize => (NormalizerReply.finalized <$> Dcode.finalize reprText).run N

end

/-! ### What a call does -/

namespace ProtocolNormalizer

/-- The fragments of a call so far. -/
def chunksOf (N : ProtocolNormalizer) (callId : String) : List ByteArray :=
  ((N.pending.get? callId).map (·.chunks)).getD []

/-- The call has had its final fragment. -/
def Completed (N : ProtocolNormalizer) (callId : String) : Prop :=
  ∃ slot ∈ N.pending.get? callId, slot.completed = true

/-- The call is cancelled. -/
def Cancelled (N : ProtocolNormalizer) (callId : String) : Prop :=
  ∃ slot ∈ N.pending.get? callId, slot.cancelled = true

/-- The normalizer takes a fragment: it has room for a new call, or the call is open under this
name. -/
structure Takes (limits : NormalizerLimits) (N : ProtocolNormalizer) (callId name : String) :
    Prop where
  room : N.pending.get? callId = none → (N.pending.keys.length : ℤ) < limits.maxCalls
  isOpen : ∀ slot ∈ N.pending.get? callId, slot.name = name ∧ slot.completed = false

instance (limits : NormalizerLimits) (N : ProtocolNormalizer) (callId name : String) :
    Decidable (N.Takes limits callId name) :=
  decidable_of_iff ((N.pending.get? callId = none → (N.pending.keys.length : ℤ) < limits.maxCalls) ∧
    ∀ slot ∈ N.pending.get? callId, slot.name = name ∧ slot.completed = false)
    ⟨fun h => ⟨h.1, h.2⟩, fun h => ⟨h.1, h.2⟩⟩

end ProtocolNormalizer

/-- With a final fragment, the fragments are within the limit and decode to arguments. -/
structure Assembles (loads : String → Except Failure PyValue) (reprText : String → String)
    (limits : NormalizerLimits) (callId : String) (chunks : List ByteArray)
    (arguments : PyMapping) : Prop where
  size : totalSize chunks ≤ limits.maxArgsBytes
  decoded : decodeArguments loads reprText callId (joined chunks) = .ok arguments

/-- A slot after a fragment. -/
structure Fed (slot : Pending) (chunk : ByteArray) (slot' : Pending) : Prop where
  name : slot'.name = slot.name
  chunks : slot'.chunks = slot.chunks ++ [chunk]
  cancelled : slot'.cancelled = slot.cancelled
  completed : slot.completed = true → slot'.completed = true

/-- A slot after a cancellation or a result. -/
structure Marked (slot slot' : Pending) : Prop where
  name : slot'.name = slot.name
  chunks : slot'.chunks = slot.chunks
  completed : slot'.completed = slot.completed
  cancelled : slot.cancelled = true → slot'.cancelled = true

/-- The synthetic results that a `finalize` adds: it stops at the first incomplete call. -/
def missingOf (entries : List (String × Pending)) : List (String × PyValue) :=
  ((entries.takeWhile (·.2.completed)).filter fun entry => entry.2.hasResult = false).map
    fun entry => (entry.1, observationMissing)

section

variable {loads : String → Except Failure PyValue} {reprText : String → String}
  {limits : NormalizerLimits} {N N' : ProtocolNormalizer} {callId name key : String}
  {chunk : ByteArray} {final : Bool} {slot : Pending} {call : NormalizerCall} {toolCall : ToolCall}
  {outcome : Except Failure (Option ToolCall)}

/-- What a fragment does to an open call. -/
theorem feedSlot_spec
    (h : (feedSlot loads reprText limits callId name slot chunk final).run N = (outcome, N')) :
    (∃ slot', Fed slot chunk slot' ∧ (∀ key, N'.pending.get? key =
      if key = callId then some slot' else N.pending.get? key) ∧
        ∀ toolCall, outcome = .ok (some toolCall) → slot'.completed = true) ∧
      ∀ toolCall, outcome = .ok (some toolCall) ↔ final = true ∧ toolCall.callId = callId ∧
        toolCall.name = name ∧ Assembles loads reprText limits callId (slot.chunks ++ [chunk])
          toolCall.arguments := by
  let slot₁ : Pending := { slot with chunks := slot.chunks ++ [chunk] }
  rw [feedSlot, run_bind_ok (run_modify _ N), run_raiseIf_bind] at h
  by_cases hsize : limits.maxArgsBytes < totalSize (slot.chunks ++ [chunk])
  · rw [if_pos hsize] at h
    obtain ⟨rfl, rfl⟩ := Prod.mk.inj h
    refine ⟨⟨slot₁, ⟨rfl, rfl, rfl, fun h => h⟩, fun key => Dict.get?_set, by simp⟩, ?_⟩
    intro toolCall
    exact iff_of_false (by simp) fun hcall => absurd hcall.2.2.2.size (not_le.mpr hsize)
  rw [if_neg hsize] at h
  cases final with
  | false =>
    obtain ⟨rfl, rfl⟩ := Prod.mk.inj h
    refine ⟨⟨slot₁, ⟨rfl, rfl, rfl, fun h => h⟩, fun key => Dict.get?_set, by simp⟩, ?_⟩
    exact fun toolCall => iff_of_false (by simp) (by simp)
  | true =>
    let slot₂ : Pending := { slot₁ with completed := true }
    rw [if_neg (by simp), run_bind_ok (run_modify _ _)] at h
    have hget : ∀ key, ((N.pending.set callId slot₁).set callId slot₂).get? key =
        if key = callId then some slot₂ else N.pending.get? key := by
      intro key
      rw [Dict.get?_set, Dict.get?_set]
      split_ifs <;> rfl
    have hfed : Fed slot chunk slot₂ := ⟨rfl, rfl, rfl, fun _ => rfl⟩
    rcases hdecode : decodeArguments loads reprText callId (joined (slot.chunks ++ [chunk])) with
      e | arguments
    · rw [hdecode, run_bind_error (run_lift_error e _)] at h
      obtain ⟨rfl, rfl⟩ := Prod.mk.inj h
      refine ⟨⟨slot₂, hfed, hget, fun _ _ => rfl⟩, fun toolCall => iff_of_false (by simp) ?_⟩
      rintro ⟨-, -, -, -, hdecoded⟩
      rw [hdecode] at hdecoded
      cases hdecoded
    · rw [hdecode, run_bind_ok (run_lift_ok arguments _)] at h
      obtain ⟨rfl, rfl⟩ := Prod.mk.inj h
      refine ⟨⟨slot₂, hfed, hget, fun _ _ => rfl⟩, fun toolCall => ?_⟩
      rw [Except.ok.injEq, Option.some.injEq]
      constructor
      · rintro rfl
        exact ⟨rfl, rfl, rfl, not_lt.mp hsize, hdecode⟩
      · rintro ⟨-, rfl, rfl, -, hdecoded⟩
        rw [hdecode, Except.ok.injEq] at hdecoded
        rw [hdecoded]

variable (loads reprText chunk final) in
/-- A fragment that is not taken changes nothing. -/
theorem run_feed_of_not (h : ¬N.Takes limits callId name) :
    ∃ e, (feed loads reprText limits callId name chunk final).run N = (.error e, N) := by
  rw [feed, run_bind_ok (run_get N)]
  rcases hget : N.pending.get? callId with _ | slot
  · dsimp only
    have hfull : limits.maxCalls ≤ N.pending.keys.length := by
      by_contra hroom
      exact h ⟨fun _ => not_le.mp hroom, by simp [hget]⟩
    exact ⟨_, by rw [run_raiseIf_bind, if_pos hfull]⟩
  · dsimp only
    by_cases hname : slot.name = name
    · have hcompleted : slot.completed = true := by
        by_contra hopen
        refine h ⟨by simp [hget], fun slot' hslot' => ?_⟩
        obtain rfl := Option.some.inj (hget.symm.trans hslot')
        exact ⟨hname, Bool.eq_false_iff.mpr hopen⟩
      exact ⟨_, by rw [run_raiseIf_skip (not_not.mpr hname), run_raiseIf_bind, if_pos hcompleted]⟩
    · exact ⟨_, by rw [run_raiseIf_bind, if_pos hname]⟩

/-- A fragment that is taken goes to the slot of its call. -/
theorem run_feed_of_takes (h : N.Takes limits callId name) :
    (feed loads reprText limits callId name chunk final).run N =
      (feedSlot loads reprText limits callId name ((N.pending.get? callId).getD { name }) chunk
        final).run N := by
  rw [feed, run_bind_ok (run_get N)]
  rcases hget : N.pending.get? callId with _ | slot
  · exact run_raiseIf_skip (not_le.mpr (h.room hget))
  · obtain ⟨hname, hopen⟩ := h.isOpen slot hget
    dsimp only
    rw [run_raiseIf_skip (not_not.mpr hname), run_raiseIf_skip (by simp [hopen])]
    rfl

variable (reprText) in
theorem run_finalizeCalls (entries : List (String × Pending)) (N : ProtocolNormalizer) :
    ((finalizeCalls reprText entries).run N).2 =
      { N with synthetic := N.synthetic ++ missingOf entries } ∧
    (((finalizeCalls reprText entries).run N).1 = .ok () ↔
      ∀ entry ∈ entries, entry.2.completed = true) := by
  induction entries generalizing N with
  | nil => simp [finalizeCalls, missingOf]
  | cons entry rest ih =>
    obtain ⟨callId, slot⟩ := entry
    rw [finalizeCalls, run_raiseIf_bind]
    cases hcompleted : slot.completed with
    | false => simp [missingOf, hcompleted]
    | true =>
      cases hresult : slot.hasResult with
      | false =>
        obtain ⟨hstate, hreply⟩ := ih { N with
          synthetic := N.synthetic ++ [(callId, observationMissing)] }
        rw [if_neg (by simp), if_pos rfl, run_bind_ok (run_modify _ N)]
        refine ⟨hstate.trans ?_, hreply.trans (by simp [hcompleted])⟩
        simp [missingOf, hcompleted, hresult]
      | true =>
        obtain ⟨hstate, hreply⟩ := ih N
        rw [if_neg (by simp), if_neg (by simp)]
        refine ⟨hstate.trans ?_, hreply.trans (by simp [hcompleted])⟩
        simp [missingOf, hcompleted, hresult]

variable (loads reprText limits) in
/-- **What a call does to the slots**: a fragment that is taken feeds one, a cancellation or a
result marks one, and otherwise they stay. -/
theorem perform_cases (call : NormalizerCall) (N : ProtocolNormalizer) :
    ((∀ key, (call.perform loads reprText limits N).2.pending.get? key = N.pending.get? key) ∧
        ∀ callId name chunk final, call = .feed callId name chunk final →
          ¬N.Takes limits callId name) ∨
      (∃ callId slot slot', N.pending.get? callId = some slot ∧ Marked slot slot' ∧
        (∀ key, (call.perform loads reprText limits N).2.pending.get? key =
          if key = callId then some slot' else N.pending.get? key) ∧
        (slot'.cancelled = true → slot.cancelled = true ∨ call = .cancel callId) ∧
        ∀ callId name chunk final, call ≠ .feed callId name chunk final) ∨
      ∃ callId name chunk final slot', call = .feed callId name chunk final ∧
        N.Takes limits callId name ∧
        Fed ((N.pending.get? callId).getD { name }) chunk slot' ∧
        ∀ key, (call.perform loads reprText limits N).2.pending.get? key =
          if key = callId then some slot' else N.pending.get? key := by
  cases call with
  | feed callId name chunk final =>
    by_cases htakes : N.Takes limits callId name
    · right
      right
      rcases hrun : (feedSlot loads reprText limits callId name
        ((N.pending.get? callId).getD { name }) chunk final).run N with ⟨outcome, N'⟩
      obtain ⟨⟨slot', hfed, hget, -⟩, -⟩ := feedSlot_spec hrun
      refine ⟨callId, name, chunk, final, slot', rfl, htakes, hfed, ?_⟩
      rw [NormalizerCall.perform, run_map, run_feed_of_takes htakes, hrun]
      exact hget
    · left
      obtain ⟨e, hrun⟩ := run_feed_of_not loads reprText chunk final htakes
      rw [NormalizerCall.perform, run_map, hrun]
      refine ⟨fun _ => rfl, ?_⟩
      rintro _ _ _ _ ⟨⟩
      exact htakes
  | cancel callId =>
    rw [NormalizerCall.perform, run_map, cancel, run_bind_ok (run_get N)]
    rcases hget : N.pending.get? callId with _ | slot
    · exact .inl ⟨fun _ => rfl, by simp⟩
    · exact .inr (.inl ⟨callId, slot, { slot with cancelled := true }, hget,
        ⟨rfl, rfl, rfl, fun _ => rfl⟩, fun key => Dict.get?_set, fun _ => .inr rfl, by simp⟩)
  | recordResult callId payload =>
    rw [NormalizerCall.perform, run_map, recordResult, run_bind_ok (run_get N)]
    rcases hget : N.pending.get? callId with _ | slot
    · exact .inl ⟨fun _ => rfl, by simp⟩
    · dsimp only
      rw [run_ite]
      split_ifs
      · exact .inl ⟨fun _ => rfl, by simp⟩
      · exact .inr (.inl ⟨callId, slot, { slot with result := payload, hasResult := true }, hget,
          ⟨rfl, rfl, rfl, fun h => h⟩, fun key => Dict.get?_set, .inl, by simp⟩)
  | finalize =>
    left
    rw [NormalizerCall.perform, run_map, finalize, run_bind_ok (run_get N)]
    refine ⟨fun key => ?_, by simp⟩
    have hkeeps : ((finalizeCalls reprText N.pending.entries >>= fun _ =>
        pure (N.pending.entries.map fun entry =>
          (⟨entry.1, entry.2.name, []⟩ : ToolCall))).run N).2.pending = N.pending := by
      refine (keeps_run_bind (f := (·.pending)) (fun _ => (readOnly_pure _).keeps) N).trans ?_
      rw [(run_finalizeCalls _ _ N).1]
    exact congrArg (·.get? key) hkeeps

end

/-! ### Runs -/

/-- A step of a run. -/
abbrev NormalizerEntry := Entry ProtocolNormalizer NormalizerCall (Except Failure NormalizerReply)

/-- The fragment of a call that a step takes. -/
def fragmentOf (limits : NormalizerLimits) (key : String) (e : NormalizerEntry) :
    Option ByteArray :=
  match e.op with
  | .feed callId name chunk _ =>
    if callId = key ∧ e.before.Takes limits callId name then some chunk else none
  | _ => none

/-- The fragments of a call in a history. -/
def fragmentsOf (limits : NormalizerLimits) (key : String) (h : List NormalizerEntry) :
    List ByteArray :=
  h.filterMap (fragmentOf limits key)

section

variable {loads : String → Except Failure PyValue} {reprText : String → String}
  {limits : NormalizerLimits} {N : ProtocolNormalizer} {key : String} {call : NormalizerCall}
  {toolCall : ToolCall} {h : List NormalizerEntry}

theorem chunks_getD (N : ProtocolNormalizer) (callId name : String) :
    ((N.pending.get? callId).getD { name }).chunks = N.chunksOf callId := by
  rw [ProtocolNormalizer.chunksOf]
  rcases N.pending.get? callId with _ | slot <;> rfl

/-- **When a step returns a call**: when it feeds a final fragment that is taken, and all fragments
assemble. -/
theorem perform_eq_call_iff :
    (call.perform loads reprText limits N).1 = .ok (.fed (some toolCall)) ↔
      ∃ chunk, call = .feed toolCall.callId toolCall.name chunk true ∧
        N.Takes limits toolCall.callId toolCall.name ∧
          Assembles loads reprText limits toolCall.callId
            (N.chunksOf toolCall.callId ++ [chunk]) toolCall.arguments := by
  cases call with
  | feed callId name chunk final =>
    rw [NormalizerCall.perform, run_map]
    by_cases htakes : N.Takes limits callId name
    · rw [run_feed_of_takes htakes]
      rcases hrun : (feedSlot loads reprText limits callId name
        ((N.pending.get? callId).getD { name }) chunk final).run N with ⟨outcome, N'⟩
      obtain ⟨-, hcall⟩ := feedSlot_spec hrun
      rw [chunks_getD] at hcall
      simp only [except_map_eq_ok, NormalizerReply.fed.injEq, exists_eq_right, hcall]
      constructor
      · rintro ⟨rfl, rfl, rfl, hassembles⟩
        exact ⟨chunk, rfl, htakes, hassembles⟩
      · rintro ⟨chunk', heq, -, hassembles⟩
        obtain ⟨rfl, rfl, rfl, rfl⟩ := NormalizerCall.feed.inj heq
        exact ⟨rfl, rfl, rfl, hassembles⟩
    · obtain ⟨e, hrun⟩ := run_feed_of_not loads reprText chunk final htakes
      rw [hrun]
      refine iff_of_false (by simp [Except.map]) ?_
      rintro ⟨chunk', heq, htakes', -⟩
      obtain ⟨rfl, rfl, -, -⟩ := NormalizerCall.feed.inj heq
      exact htakes htakes'
  | cancel callId =>
    rw [NormalizerCall.perform, run_map]
    exact iff_of_false (by simp [except_map_eq_ok]) (by simp)
  | recordResult callId payload =>
    rw [NormalizerCall.perform, run_map]
    exact iff_of_false (by simp [except_map_eq_ok]) (by simp)
  | finalize =>
    rw [NormalizerCall.perform, run_map]
    exact iff_of_false (by simp [except_map_eq_ok]) (by simp)

theorem fragmentOf_of_not {e : NormalizerEntry}
    (h : ∀ callId name chunk final, e.op = .feed callId name chunk final →
      ¬e.before.Takes limits callId name) : fragmentOf limits key e = none := by
  rw [fragmentOf]
  split
  · next callId name chunk final hop =>
    exact if_neg fun htakes => h callId name chunk final hop htakes.2
  · rfl

/-- A step adds its fragment. -/
theorem chunksOf_perform (key : String) (call : NormalizerCall) (N : ProtocolNormalizer) :
    (call.perform loads reprText limits N).2.chunksOf key = N.chunksOf key ++
      (fragmentOf limits key (Entry.perform (NormalizerCall.perform loads reprText limits)
        N call)).toList := by
  rcases perform_cases loads reprText limits call N with
    ⟨hsame, hnot⟩ | ⟨callId, slot, slot', hget, hmarked, hafter, -, hnot⟩ |
    ⟨callId, name, chunk, final, slot', rfl, htakes, hfed, hafter⟩
  · rw [fragmentOf_of_not hnot, ProtocolNormalizer.chunksOf, hsame]
    simp [ProtocolNormalizer.chunksOf]
  · rw [fragmentOf_of_not fun _ _ _ _ hop => absurd hop (hnot _ _ _ _),
      ProtocolNormalizer.chunksOf, hafter]
    split_ifs with hkey
    · subst hkey
      simp [ProtocolNormalizer.chunksOf, hget, hmarked.chunks]
    · simp [ProtocolNormalizer.chunksOf]
  · rw [ProtocolNormalizer.chunksOf, hafter]
    by_cases hkey : key = callId
    · subst hkey
      have hchunks := hfed.chunks
      rw [chunks_getD] at hchunks
      simp [fragmentOf, htakes, hchunks]
    · simp [fragmentOf, hkey, Ne.symm hkey, ProtocolNormalizer.chunksOf]

/-- What fragments and marks keep of a slot, a step keeps. -/
theorem exists_slot_perform {p : Pending → Prop} (call : NormalizerCall)
    (hmarked : ∀ slot slot', Marked slot slot' → p slot → p slot')
    (hfed : ∀ slot chunk slot', Fed slot chunk slot' → p slot → p slot')
    (h : ∃ slot ∈ N.pending.get? key, p slot) :
    ∃ slot ∈ (call.perform loads reprText limits N).2.pending.get? key, p slot := by
  obtain ⟨slot₀, hslot, hp⟩ := h
  rw [Option.mem_def] at hslot
  rcases perform_cases loads reprText limits call N with
    ⟨hsame, -⟩ | ⟨callId, slot, slot', hget, hmark, hafter, -⟩ |
    ⟨callId, name, chunk, final, slot', rfl, htakes, hfeed, hafter⟩
  · exact ⟨slot₀, (hsame key).trans hslot, hp⟩
  · by_cases hkey : key = callId
    · subst hkey
      obtain rfl := Option.some.inj (hget.symm.trans hslot)
      exact ⟨slot', (hafter _).trans (if_pos rfl), hmarked _ _ hmark hp⟩
    · exact ⟨slot₀, (hafter key).trans ((if_neg hkey).trans hslot), hp⟩
  · by_cases hkey : key = callId
    · subst hkey
      rw [hslot] at hfeed
      exact ⟨slot', (hafter _).trans (if_pos rfl), hfed _ _ _ hfeed hp⟩
    · exact ⟨slot₀, (hafter key).trans ((if_neg hkey).trans hslot), hp⟩

/-- A completed call stays so. -/
theorem completed_perform (call : NormalizerCall) (h : N.Completed key) :
    (call.perform loads reprText limits N).2.Completed key :=
  exists_slot_perform call (fun _ _ hmark hp => hmark.completed.trans hp)
    (fun _ _ _ hfeed => hfeed.completed) h

/-- A cancelled call stays so. -/
theorem cancelled_perform (call : NormalizerCall) (h : N.Cancelled key) :
    (call.perform loads reprText limits N).2.Cancelled key :=
  exists_slot_perform call (fun _ _ hmark => hmark.cancelled)
    (fun _ _ _ hfeed hp => hfeed.cancelled.trans hp) h

/-- A call that is opened keeps its place. -/
theorem exists_pending_perform (call : NormalizerCall)
    (h : ∃ slot, N.pending.get? key = some slot) :
    ∃ slot, (call.perform loads reprText limits N).2.pending.get? key = some slot := by
  obtain ⟨slot, hslot⟩ := h
  obtain ⟨slot', hslot', -⟩ := exists_slot_perform (p := fun _ => True) call
    (fun _ _ _ h => h) (fun _ _ _ _ h => h) ⟨slot, hslot, trivial⟩
  exact ⟨slot', hslot'⟩

theorem perform_cancel {slot : Pending} (hget : N.pending.get? key = some slot) :
    ((NormalizerCall.cancel key).perform loads reprText limits N) = (.ok .cancelled,
      { N with pending := N.pending.set key { slot with cancelled := true } }) := by
  rw [NormalizerCall.perform, run_map, cancel, run_bind_ok (run_get N), hget]
  rfl

/-- What is cancelled successfully is cancelled. -/
theorem cancelled_of_cancel {reply : NormalizerReply}
    (h : ((NormalizerCall.cancel key).perform loads reprText limits N).1 = .ok reply) :
    ((NormalizerCall.cancel key).perform loads reprText limits N).2.Cancelled key := by
  rcases hget : N.pending.get? key with _ | slot
  · rw [NormalizerCall.perform, run_map, cancel, run_bind_ok (run_get N), hget] at h
    cases h
  · rw [perform_cancel hget]
    exact ⟨{ slot with cancelled := true }, Dict.get?_set_self, rfl⟩

/-- Only a cancellation cancels. -/
theorem eq_cancel_of_cancelled (call : NormalizerCall) (hbefore : ¬N.Cancelled key)
    (hafter : (call.perform loads reprText limits N).2.Cancelled key) :
    call = .cancel key ∧ ∃ reply, (call.perform loads reprText limits N).1 = .ok reply := by
  obtain ⟨slot₁, hslot₁, hcancelled⟩ := hafter
  rw [Option.mem_def] at hslot₁
  rcases perform_cases loads reprText limits call N with
    ⟨hsame, -⟩ | ⟨callId, slot, slot', hget, -, hset, honly, -⟩ |
    ⟨callId, name, chunk, final, slot', rfl, htakes, hfeed, hset⟩
  · exact absurd ⟨slot₁, (hsame key).symm.trans hslot₁, hcancelled⟩ hbefore
  · rw [hset] at hslot₁
    split_ifs at hslot₁ with hkey
    · subst hkey
      obtain rfl := Option.some.inj hslot₁
      rcases honly hcancelled with hslot | rfl
      · exact absurd ⟨slot, hget, hslot⟩ hbefore
      · exact ⟨rfl, _, congrArg Prod.fst (perform_cancel hget)⟩
    · exact absurd ⟨slot₁, hslot₁, hcancelled⟩ hbefore
  · rw [hset] at hslot₁
    split_ifs at hslot₁ with hkey
    · subst hkey
      obtain rfl := Option.some.inj hslot₁
      rw [hfeed.cancelled] at hcancelled
      rcases hget : N.pending.get? key with _ | slot
      · rw [hget] at hcancelled
        cases hcancelled
      · rw [hget] at hcancelled
        exact absurd ⟨slot, hget, hcancelled⟩ hbefore
    · exact absurd ⟨slot₁, hslot₁, hcancelled⟩ hbefore

/-- A step that returns a call completes it. -/
theorem completed_of_call
    (h : (call.perform loads reprText limits N).1 = .ok (.fed (some toolCall))) :
    (call.perform loads reprText limits N).2.Completed toolCall.callId := by
  obtain ⟨chunk, rfl, htakes, -⟩ := perform_eq_call_iff.mp h
  rcases hrun : (feedSlot loads reprText limits toolCall.callId toolCall.name
    ((N.pending.get? toolCall.callId).getD { name := toolCall.name }) chunk true).run N with
    ⟨outcome, N'⟩
  obtain ⟨⟨slot', -, hafter, hcompleted⟩, -⟩ := feedSlot_spec hrun
  rw [NormalizerCall.perform, run_map, run_feed_of_takes htakes, hrun] at h ⊢
  obtain ⟨_, houtcome, hfed⟩ := except_map_eq_ok.mp h
  obtain rfl := NormalizerReply.fed.inj hfed
  exact ⟨slot', (hafter _).trans (if_pos rfl), hcompleted _ houtcome⟩

/-- A completed call takes no fragment. -/
theorem ProtocolNormalizer.Completed.not_takes {name : String} (h : N.Completed key) :
    ¬N.Takes limits key name := by
  obtain ⟨slot, hslot, hcompleted⟩ := h
  intro htakes
  rw [(htakes.isOpen slot hslot).2] at hcompleted
  cases hcompleted

/-- The slot of a call holds the fragments of its history. -/
theorem chunksOf_run
    (hr : Run (NormalizerCall.perform loads reprText limits) {} h N) (key : String) :
    N.chunksOf key = fragmentsOf limits key h := by
  refine hr.inv (I := fun h N => N.chunksOf key = fragmentsOf limits key h) rfl ?_
  intro h N call _ ih
  rw [chunksOf_perform, ih, fragmentsOf, fragmentsOf, List.filterMap_append]
  congr 1

/-- A call is opened only with room for it. -/
theorem room_of_run (hr : Run (NormalizerCall.perform loads reprText limits) {} h N)
    (hopened : ∃ slot, N.pending.get? key = some slot) : 0 < limits.maxCalls := by
  obtain ⟨h₁, e, h₂, rfl, hbefore, hafter⟩ := hr.exists_turn
    (I := fun N => ∃ slot, N.pending.get? key = some slot) (by simp) hopened
  obtain ⟨-, hperform, -⟩ := hr.split
  rw [hperform] at hafter
  obtain ⟨slot₁, hslot₁⟩ := hafter
  rcases perform_cases loads reprText limits e.op e.before with
    ⟨hsame, -⟩ | ⟨callId, slot, slot', hget, -, hset, -⟩ |
    ⟨callId, name, chunk, final, slot', hop, htakes, -, hset⟩
  · exact absurd ⟨slot₁, (hsame key).symm.trans hslot₁⟩ hbefore
  · by_cases hkey : key = callId
    · exact absurd ⟨slot, hkey ▸ hget⟩ hbefore
    · exact absurd ⟨slot₁, ((hset key).trans (if_neg hkey)).symm.trans hslot₁⟩ hbefore
  · by_cases hkey : key = callId
    · subst hkey
      have hnone : e.before.pending.get? key = none :=
        Option.eq_none_iff_forall_ne_some.mpr fun slot hslot => hbefore ⟨slot, hslot⟩
      exact lt_of_le_of_lt (Int.natCast_nonneg _) (htakes.room hnone)
    · exact absurd ⟨slot₁, ((hset key).trans (if_neg hkey)).symm.trans hslot₁⟩ hbefore

end

/-! ### Dispatch -/

/-- A call is dispatched as it should be, after the history before it and with the one from it on:
with the final fragment, with the arguments that all its fragments decode to within the limit, as
one fragment would be, only once, and not after it was cancelled. -/
structure DispatchedWell (loads : String → Except Failure PyValue) (reprText : String → String)
    (limits : NormalizerLimits) (before : List NormalizerEntry) (e : NormalizerEntry)
    (after : List NormalizerEntry) (toolCall : ToolCall) : Prop where
  final : ∃ chunk, e.op = .feed toolCall.callId toolCall.name chunk true
  assembled : Assembles loads reprText limits toolCall.callId
    (fragmentsOf limits toolCall.callId (before ++ [e])) toolCall.arguments
  unfragmented : ((feed loads reprText limits toolCall.callId toolCall.name
    (joined (fragmentsOf limits toolCall.callId (before ++ [e]))) true).run {}).1 =
      .ok (some toolCall)
  once : ∀ e' ∈ after, ∀ toolCall', e'.reply = .ok (.fed (some toolCall')) →
    toolCall'.callId ≠ toolCall.callId
  live : ∀ e' ∈ before, e'.op = .cancel toolCall.callId → ∀ reply, e'.reply ≠ .ok reply

/-- Each call that a history returns is dispatched as it should be. -/
def DispatchLaw (loads : String → Except Failure PyValue) (reprText : String → String)
    (limits : NormalizerLimits) (h : List NormalizerEntry) : Prop :=
  ∀ before e after, h = before ++ e :: after → ∀ toolCall,
    e.reply = .ok (.fed (some toolCall)) →
      DispatchedWell loads reprText limits before e after toolCall

/-- The step feeds no cancelled call a final fragment that is taken, and with which its fragments
assemble. -/
def FeedsLive (loads : String → Except Failure PyValue) (reprText : String → String)
    (limits : NormalizerLimits) (e : NormalizerEntry) : Prop :=
  ∀ callId name chunk, e.op = .feed callId name chunk true → e.before.Cancelled callId →
    e.before.Takes limits callId name → ∀ arguments,
      ¬Assembles loads reprText limits callId (e.before.chunksOf callId ++ [chunk]) arguments

section

variable {loads : String → Except Failure PyValue} {reprText : String → String}
  {limits : NormalizerLimits} {N : ProtocolNormalizer} {h : List NormalizerEntry}
  {before after : List NormalizerEntry} {e : NormalizerEntry} {toolCall : ToolCall}

theorem joined_append (chunks : List ByteArray) (chunk : ByteArray) :
    joined (chunks ++ [chunk]) = joined chunks ++ chunk := by
  simp [joined]

theorem size_joined (chunks : List ByteArray) : ((joined chunks).size : ℤ) = totalSize chunks := by
  induction chunks using List.reverseRecOn with
  | nil => rfl
  | append_singleton chunks chunk ih =>
    rw [joined_append, ByteArray.size_append, Nat.cast_add, ih]
    simp [totalSize]

theorem joined_singleton (chunk : ByteArray) : joined [chunk] = chunk := by
  simp [joined]

/-- **One fragment does what all do.** -/
theorem feed_joined (hroom : 0 < limits.maxCalls) {chunks : List ByteArray}
    (h : Assembles loads reprText limits toolCall.callId chunks toolCall.arguments) :
    ((feed loads reprText limits toolCall.callId toolCall.name (joined chunks) true).run {}).1 =
      .ok (some toolCall) := by
  have htakes : ProtocolNormalizer.Takes limits {} toolCall.callId toolCall.name :=
    ⟨fun _ => hroom, by simp⟩
  rw [run_feed_of_takes htakes]
  rcases hrun : (feedSlot loads reprText limits toolCall.callId toolCall.name
    (((∅ : Dict String Pending).get? toolCall.callId).getD { name := toolCall.name })
    (joined chunks) true).run {} with ⟨outcome, N'⟩
  refine ((feedSlot_spec hrun).2 toolCall).mpr ⟨rfl, rfl, rfl, ?_, ?_⟩
  · change totalSize ([] ++ [joined chunks]) ≤ limits.maxArgsBytes
    rw [List.nil_append, ← size_joined, joined_singleton, size_joined]
    exact h.size
  · change decodeArguments loads reprText toolCall.callId (joined ([] ++ [joined chunks])) = _
    rw [List.nil_append, joined_singleton]
    exact h.decoded

/-- **In which runs calls are dispatched as they should be**: in those where no final fragment
completes a cancelled call. -/
theorem dispatchLaw_iff (hr : Run (NormalizerCall.perform loads reprText limits) {} h N) :
    DispatchLaw loads reprText limits h ↔ ∀ e ∈ h, FeedsLive loads reprText limits e := by
  constructor
  · intro hlaw e he callId name chunk hop hcancelled htakes arguments hassembles
    obtain ⟨before, after, rfl⟩ := List.append_of_mem he
    obtain ⟨hbefore, hperform, -⟩ := hr.split
    have hreply : e.reply = .ok (.fed (some ⟨callId, name, arguments⟩)) := by
      rw [hperform]
      exact perform_eq_call_iff.mpr ⟨chunk, hop, htakes, hassembles⟩
    have hlive := (hlaw before e after rfl _ hreply).live
    obtain ⟨h₁, e', h₂, rfl, hnot, hnow⟩ := hbefore.exists_turn
      (I := fun N => N.Cancelled callId) (by simp [ProtocolNormalizer.Cancelled]) hcancelled
    obtain ⟨-, hperform', -⟩ := hbefore.split
    rw [hperform'] at hnow
    obtain ⟨hop', reply, hok⟩ := eq_cancel_of_cancelled e'.op hnot hnow
    refine hlive e' (by simp) hop' reply ?_
    rw [hperform']
    exact hok
  · rintro hlive before e after rfl toolCall hreply
    obtain ⟨hbefore, hperform, hafter⟩ := hr.split
    have hcall := hreply
    rw [hperform] at hcall
    obtain ⟨chunk, hop, htakes, hassembles⟩ := perform_eq_call_iff.mp hcall
    have hfragments : fragmentsOf limits toolCall.callId (before ++ [e]) =
        e.before.chunksOf toolCall.callId ++ [chunk] := by
      rw [chunksOf_run hbefore, fragmentsOf, fragmentsOf, List.filterMap_append]
      simp [fragmentOf, hop, htakes]
    have hdone := completed_of_call hcall
    have hafterState : e.after = (e.op.perform loads reprText limits e.before).2 :=
      congrArg Entry.after hperform
    refine ⟨⟨chunk, hop⟩, hfragments ▸ hassembles, ?_, ?_, ?_⟩
    · refine feed_joined ?_ (hfragments ▸ hassembles)
      rw [← hafterState] at hdone
      obtain ⟨slot, hslot, -⟩ := hdone
      exact room_of_run hr.upTo ⟨slot, hslot⟩
    · intro e' he' toolCall' hreply' hsame
      obtain ⟨h₁, h₂, rfl⟩ := List.append_of_mem he'
      obtain ⟨hbetween, hperform', -⟩ := hafter.split
      rw [hperform'] at hreply'
      obtain ⟨chunk', hop', htakes', -⟩ := perform_eq_call_iff.mp hreply'
      rw [hsame] at htakes'
      have hstill : e'.before.Completed toolCall.callId := by
        refine hbetween.inv_state (I := fun N => N.Completed toolCall.callId) ?_ ?_
        · rw [hafterState]
          exact hdone
        · exact fun N call => completed_perform call
      exact hstill.not_takes htakes'
    · intro e' he' hop' reply hok
      obtain ⟨h₁, h₂, rfl⟩ := List.append_of_mem he'
      obtain ⟨-, hperform', hrest⟩ := hbefore.split
      have hafterState' : e'.after = (e'.op.perform loads reprText limits e'.before).2 :=
        congrArg Entry.after hperform'
      have hcancelled : e'.after.Cancelled toolCall.callId := by
        rw [hperform', Entry.perform_reply, hop'] at hok
        rw [hafterState', hop']
        exact cancelled_of_cancel hok
      refine hlive e (by simp) _ _ chunk hop ?_ htakes _ hassembles
      exact hrest.inv_state (I := fun N => N.Cancelled toolCall.callId) hcancelled
        fun N call => cancelled_perform call

end

/-! ### A final fragment after a cancellation -/

/-- What is decoded here: an empty object. -/
def loadsObject (text : String) : Except Failure PyValue :=
  if text = "\x7b\x7d" then .ok (.dict []) else .error (.python "JSONDecodeError" "")

/-- A call is cancelled between its two fragments, which are empty. -/
def cancelledMidway : List NormalizerCall :=
  [.feed "c1" "ls" .empty false, .cancel "c1", .feed "c1" "ls" .empty true]

/-- The steps of this run. -/
def cancelledMidwaySteps : List NormalizerEntry :=
  (exec (NormalizerCall.perform loadsObject id {}) {} cancelledMidway).1

theorem run_cancelledMidway : ∃ N,
    Run (NormalizerCall.perform loadsObject id {}) {} cancelledMidwaySteps N :=
  ⟨_, run_exec (NormalizerCall.perform loadsObject id {}) {} cancelledMidway⟩

/-- Whether calls are dispatched as they should be in this run is decided by what it feeds. -/
theorem dispatchLaw_iff_cancelledMidway :
    DispatchLaw loadsObject id {} cancelledMidwaySteps ↔
      ∀ e ∈ cancelledMidwaySteps, FeedsLive loadsObject id {} e := by
  obtain ⟨N, hr⟩ := run_cancelledMidway
  exact dispatchLaw_iff hr

/-- **A call that has been cancelled is dispatched.** -/
theorem not_dispatchLaw : ¬∀ (loads : String → Except Failure PyValue)
    (reprText : String → String) (limits : NormalizerLimits) (h : List NormalizerEntry)
    (N : ProtocolNormalizer), Run (NormalizerCall.perform loads reprText limits) {} h N →
      DispatchLaw loads reprText limits h := by
  intro hclaim
  obtain ⟨N, hr⟩ := run_cancelledMidway
  have hlaw := hclaim _ _ _ _ _ hr
  have hwell := hlaw (cancelledMidwaySteps.take 2) _ [] rfl ⟨"c1", "ls", []⟩ rfl
  exact hwell.live _ (List.mem_cons_of_mem _ List.mem_cons_self) rfl _ rfl

/-! ### Outcomes -/

/-- Each call has one outcome: a recorded result, or one synthetic result. -/
def OneOutcome (N : ProtocolNormalizer) : Prop :=
  ∀ callId slot, N.pending.get? callId = some slot →
    (slot.hasResult = true ∧ N.synthetic.filter (·.1 = callId) = []) ∨
      (slot.hasResult = false ∧
        N.synthetic.filter (·.1 = callId) = [(callId, observationMissing)])

/-- A `finalize` finds a result for each call that is opened before the first incomplete one. -/
def FindsResults (e : NormalizerEntry) : Prop :=
  e.op = .finalize → ∀ entry ∈ e.before.pending.entries.takeWhile (·.2.completed),
    entry.2.hasResult = true

/-- The synthetic results that a step adds. -/
def addedBy (e : NormalizerEntry) : List (String × PyValue) :=
  match e.op with
  | .finalize => missingOf e.before.pending.entries
  | _ => []

section

variable {loads : String → Except Failure PyValue} {reprText : String → String}
  {limits : NormalizerLimits} {N : ProtocolNormalizer} {h : List NormalizerEntry}
  {e : NormalizerEntry} {key : String} {value : PyValue}

theorem missingOf_eq_nil_iff {entries : List (String × Pending)} :
    missingOf entries = [] ↔
      ∀ entry ∈ entries.takeWhile (·.2.completed), entry.2.hasResult = true := by
  simp [missingOf, List.filter_eq_nil_iff]

theorem addedBy_eq_nil_iff : addedBy e = [] ↔ FindsResults e := by
  rw [addedBy, FindsResults]
  split
  · next hop => simp [hop, missingOf_eq_nil_iff]
  · next hop => exact iff_of_true rfl fun heq => absurd heq hop

/-- What a step adds is about calls that are open. -/
theorem exists_pending_of_mem_addedBy (h : (key, value) ∈ addedBy e) :
    ∃ slot, e.before.pending.get? key = some slot := by
  rw [addedBy] at h
  split at h
  · obtain ⟨⟨callId, slot⟩, hmem, heq⟩ := List.mem_map.mp h
    obtain ⟨rfl, -⟩ := Prod.mk.inj heq
    have hentry := List.takeWhile_subset _ (List.mem_filter.mp hmem).1
    exact ⟨slot, Dict.get?_eq_some_iff.mpr hentry⟩
  · cases h

variable (loads reprText limits) in
theorem run_finalize (N : ProtocolNormalizer) :
    (NormalizerCall.finalize.perform loads reprText limits N).2 =
      { N with synthetic := N.synthetic ++ missingOf N.pending.entries } ∧
    ((∃ reply, (NormalizerCall.finalize.perform loads reprText limits N).1 = .ok reply) ↔
      ∀ entry ∈ N.pending.entries, entry.2.completed = true) := by
  obtain ⟨hstate, hreply⟩ := run_finalizeCalls reprText N.pending.entries N
  rw [NormalizerCall.perform, run_map, finalize, run_bind_ok (run_get N), run_bind]
  rcases hrun : (finalizeCalls reprText N.pending.entries).run N with ⟨_ | _, N'⟩
  · rw [hrun] at hstate hreply
    exact ⟨hstate, (iff_of_false (by simp [Except.map]) (by simp)).trans hreply⟩
  · rw [hrun] at hstate hreply
    exact ⟨hstate, (iff_of_true ⟨_, rfl⟩ rfl).trans hreply⟩

theorem keeps_feed (callId name : String) (chunk : ByteArray) (final : Bool) :
    Keeps (·.synthetic) (feed loads reprText limits callId name chunk final) := by
  have hslot : ∀ slot : Pending,
      Keeps (·.synthetic) (feedSlot loads reprText limits callId name slot chunk final) := by
    intro slot
    refine Keeps.bind (keeps_modify fun _ => rfl) fun _ => ?_
    refine Keeps.bind (readOnly_raiseIf _ _).keeps fun _ => ?_
    split
    · exact (readOnly_pure _).keeps
    · refine Keeps.bind (keeps_modify fun _ => rfl) fun _ => ?_
      exact Keeps.bind (readOnly_lift _).keeps fun _ => (readOnly_pure _).keeps
  refine readOnly_get.keeps.bind fun N => ?_
  split
  · exact Keeps.bind (readOnly_raiseIf _ _).keeps fun _ => hslot _
  · refine Keeps.bind (readOnly_raiseIf _ _).keeps fun _ => ?_
    exact Keeps.bind (readOnly_raiseIf _ _).keeps fun _ => hslot _

/-- A step adds its synthetic results. -/
theorem synthetic_perform (call : NormalizerCall) (N : ProtocolNormalizer) :
    (call.perform loads reprText limits N).2.synthetic = N.synthetic ++
      addedBy (Entry.perform (NormalizerCall.perform loads reprText limits) N call) := by
  cases call with
  | feed callId name chunk final =>
    exact ((keeps_feed callId name chunk final).map N).trans (List.append_nil _).symm
  | cancel callId =>
    have hkeeps : Keeps (·.synthetic) (cancel reprText callId) := by
      refine readOnly_get.keeps.bind fun N => ?_
      split
      · exact (readOnly_throw _).keeps
      · exact keeps_modify fun _ => rfl
    exact (hkeeps.map N).trans (List.append_nil _).symm
  | recordResult callId payload =>
    have hkeeps : Keeps (·.synthetic) (recordResult reprText callId payload) := by
      refine readOnly_get.keeps.bind fun N => ?_
      split
      · refine Keeps.bind (keeps_modify fun _ => rfl) fun _ => (readOnly_throw _).keeps
      · split
        · exact (readOnly_pure _).keeps
        · refine Keeps.bind (keeps_modify fun _ => rfl) fun _ => (readOnly_pure _).keeps
    exact (hkeeps.map N).trans (List.append_nil _).symm
  | finalize => exact congrArg (·.synthetic) (run_finalize _ _ _ N).1

/-- The synthetic results are those that the steps have added. -/
theorem synthetic_run (hr : Run (NormalizerCall.perform loads reprText limits) {} h N) :
    N.synthetic = h.flatMap addedBy := by
  refine hr.inv (I := fun h N => N.synthetic = h.flatMap addedBy) rfl ?_
  intro h N call _ ih
  rw [synthetic_perform, ih, List.flatMap_append, List.flatMap_singleton]

/-- What a `finalize` that goes through adds about a call. -/
theorem filter_missingOf {pending : Dict String Pending} {slot : Pending}
    (hall : ∀ entry ∈ pending.entries, entry.2.completed = true)
    (hget : pending.get? key = some slot) :
    (missingOf pending.entries).filter (·.1 = key) =
      if slot.hasResult = true then [] else [(key, observationMissing)] := by
  have htake : pending.entries.takeWhile (·.2.completed) = pending.entries :=
    List.takeWhile_eq_self_iff.mpr hall
  have hswap : (pending.entries.filter fun entry => entry.2.hasResult = false).filter
      (fun entry => entry.1 = key) =
        (pending.entries.filter (fun entry => entry.1 = key)).filter
          fun entry => entry.2.hasResult = false := by
    rw [List.filter_filter, List.filter_filter]
    exact List.filter_congr fun entry _ => Bool.and_comm _ _
  rw [missingOf, htake, List.filter_map]
  simp only [Function.comp_def]
  rw [hswap, Dict.filter_entries hget]
  cases hresult : slot.hasResult <;> simp [hresult]

/-- **When a `finalize` leaves each call one outcome**: when every earlier one found a result for
each call that is opened before the first incomplete one. -/
theorem oneOutcome_iff {reply : NormalizerReply}
    (hr : Run (NormalizerCall.perform loads reprText limits) {} (h ++ [e]) N)
    (hop : e.op = .finalize) (hok : e.reply = .ok reply) :
    OneOutcome N ↔ ∀ e' ∈ h, FindsResults e' := by
  obtain ⟨hbefore, hperform, hlast⟩ := hr.split
  obtain rfl : N = e.after := hlast.eq_of_nil
  have hafter : e.after = (e.op.perform loads reprText limits e.before).2 :=
    congrArg Entry.after hperform
  rw [hperform, Entry.perform_reply, hop] at hok
  obtain ⟨hstate, hcompleted⟩ := run_finalize loads reprText limits e.before
  have hall := hcompleted.mp ⟨reply, hok⟩
  rw [hop, hstate] at hafter
  have hearlier : e.before.synthetic = h.flatMap addedBy := synthetic_run hbefore
  have hsplit : ∀ key slot, e.before.pending.get? key = some slot →
      e.after.synthetic.filter (·.1 = key) = (h.flatMap addedBy).filter (·.1 = key) ++
        if slot.hasResult = true then [] else [(key, observationMissing)] := by
    intro key slot hget
    rw [hafter, ← hearlier, ← filter_missingOf hall hget]
    exact List.filter_append _ _
  have hpending : e.after.pending = e.before.pending := by rw [hafter]
  simp only [← addedBy_eq_nil_iff]
  constructor
  · intro hone e' he'
    refine List.eq_nil_iff_forall_not_mem.mpr fun ⟨key, value⟩ hmem => ?_
    -- the call of an earlier synthetic result is open to the end
    obtain ⟨slot', hslot'⟩ := exists_pending_of_mem_addedBy hmem
    obtain ⟨slot, hget⟩ : ∃ slot, e.before.pending.get? key = some slot := by
      obtain ⟨h₁, h₂, rfl⟩ := List.append_of_mem he'
      exact hbefore.onFrom.inv_state (I := fun N => ∃ slot, N.pending.get? key = some slot)
        ⟨slot', hslot'⟩ fun N call => exists_pending_perform call
    have hnonempty : (h.flatMap addedBy).filter (·.1 = key) ≠ [] :=
      List.ne_nil_of_mem (List.mem_filter.mpr
        ⟨List.mem_flatMap.mpr ⟨e', he', hmem⟩, decide_eq_true rfl⟩)
    rcases hone key slot (hpending ▸ hget) with ⟨-, hnone⟩ | ⟨hresult, hsingle⟩
    · rw [hsplit key slot hget, List.append_eq_nil_iff] at hnone
      exact hnonempty hnone.1
    · rw [hsplit key slot hget, hresult, if_neg (by simp)] at hsingle
      have hlength := congrArg List.length hsingle
      simp only [List.length_append, List.length_cons, List.length_nil] at hlength
      exact hnonempty (List.eq_nil_of_length_eq_zero (by omega))
  · intro hnone key slot hget
    rw [hpending] at hget
    have hempty : h.flatMap addedBy = [] := List.flatMap_eq_nil_iff.mpr hnone
    rw [hsplit key slot hget, hempty]
    cases hresult : slot.hasResult <;> simp

end

/-! ### A result after a `finalize` -/

/-- A stream is closed while a result is missing, and once more when it has come. -/
def closedTwice : List NormalizerCall :=
  [.feed "c1" "ls" .empty true, .finalize, .recordResult "c1" (.str "done")]

/-- The steps up to the last `finalize`. -/
def closedTwiceSteps : List NormalizerEntry :=
  (exec (NormalizerCall.perform loadsObject id {}) {} closedTwice).1

/-- The last `finalize`. -/
def lastFinalize : NormalizerEntry :=
  Entry.perform (NormalizerCall.perform loadsObject id {})
    (exec (NormalizerCall.perform loadsObject id {}) {} closedTwice).2 .finalize

theorem run_closedTwice : Run (NormalizerCall.perform loadsObject id {}) {}
    (closedTwiceSteps ++ [lastFinalize]) lastFinalize.after :=
  Run.snoc NormalizerCall.finalize
    (run_exec (NormalizerCall.perform loadsObject id {}) {} closedTwice)

/-- Whether each call has one outcome here is decided by the first `finalize`. -/
theorem oneOutcome_iff_closedTwice :
    OneOutcome lastFinalize.after ↔ ∀ e ∈ closedTwiceSteps, FindsResults e :=
  oneOutcome_iff run_closedTwice rfl rfl

/-- **A call ends with two outcomes**: its result, and the synthetic one of the first `finalize`. -/
theorem not_oneOutcome : ¬∀ (loads : String → Except Failure PyValue)
    (reprText : String → String) (limits : NormalizerLimits) (h : List NormalizerEntry)
    (e : NormalizerEntry) (reply : NormalizerReply) (N : ProtocolNormalizer),
    Run (NormalizerCall.perform loads reprText limits) {} (h ++ [e]) N → e.op = .finalize →
      e.reply = .ok reply → OneOutcome N := by
  intro hclaim
  have hone := hclaim _ _ _ _ _ (.finalized [⟨"c1", "ls", []⟩]) _ run_closedTwice rfl rfl
  rcases hone "c1" _ rfl with ⟨-, hnone⟩ | ⟨hresult, -⟩
  · exact absurd (congrArg List.length hnone) (by decide)
  · exact absurd hresult (by decide)

end Dcode

end CyranoAgent
