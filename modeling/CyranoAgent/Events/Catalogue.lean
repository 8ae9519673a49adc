import CyranoAgent.Lib.Pattern
import CyranoAgent.Planning.Review
import CyranoAgent.Planning.Subject

/-!
# The event catalogue

Every event type has a schema family, the producers that may commit it, and the fields its payload
must have. `authorizeEvent` and `checkTypedPayload` hold a call to its type; `redactPayload` masks
what looks like a secret in the string values of a payload, never in its keys.

The tables of Unicode word characters come from the standard library and are `WordChars`. A float
passes the redaction and has no canonical encoding, so it is the `PyValue` that has none.
-/

namespace CyranoAgent

open Lib Planning

/-! ### Event types -/

/-- `EventTypeSpec`. -/
structure EventTypeSpec where
  family : String
  trustedProducers : List String
  requiredFields : List String
  sensitivity : String := "internal"

/-- `EVENT_CATALOGUE`. -/
def eventCatalogue : List (String × EventTypeSpec) :=
  [("model.attempt_started",
      ⟨"model", ["native_observer"], ["attempt_id", "logical_request_id", "is_retry"], "internal"⟩),
    ("model.finished",
      ⟨"model", ["native_observer"], ["attempt_id", "logical_request_id"], "internal"⟩),
    ("model.failed",
      ⟨"model", ["native_observer"], ["attempt_id", "logical_request_id", "error_class"],
        "internal"⟩),
    ("model.self_report", ⟨"report", [], [], "untrusted"⟩),
    ("tool.requested", ⟨"tool", ["tool_observer"], ["tool_call_id"], "internal"⟩),
    ("tool.denied", ⟨"tool", ["tool_observer"], ["tool_call_id", "decision_id"], "internal"⟩),
    ("tool.started", ⟨"tool", ["tool_observer"], ["tool_call_id"], "internal"⟩),
    ("tool.finished", ⟨"tool", ["tool_observer"], ["tool_call_id"], "internal"⟩),
    ("tool.failed", ⟨"tool", ["tool_observer"], ["tool_call_id", "error_class"], "internal"⟩),
    ("tool.unknown", ⟨"tool", ["tool_observer"], ["tool_call_id"], "internal"⟩),
    ("approval.granted", ⟨"approval", ["approval_broker"], ["approval_id"], "internal"⟩),
    ("approval.revoked", ⟨"approval", ["approval_broker"], ["approval_id"], "internal"⟩),
    ("file.changed", ⟨"change", ["action_broker"], ["path", "post_digest"], "internal"⟩),
    ("test.finished", ⟨"verify", ["runner"], ["run_id", "outcome"], "internal"⟩),
    ("memory.queried", ⟨"memory", ["memory_service"], ["query_id"], "internal"⟩),
    ("memory.selected",
      ⟨"memory", ["memory_service", "context_binder"], ["memory_id"], "internal"⟩),
    ("memory.injected", ⟨"memory", ["context_binder"], ["memory_id"], "internal"⟩),
    ("memory.referenced", ⟨"memory", ["application_checker"], ["memory_id"], "internal"⟩),
    ("memory.applied",
      ⟨"memory", ["application_checker"], ["memory_id", "application_id"], "internal"⟩),
    ("memory.error", ⟨"memory", ["memory_service", "context_binder"], ["error_code"], "internal"⟩),
    ("learning.proposed", ⟨"learning", ["learning_worker"], ["candidate_id"], "internal"⟩),
    ("learning.evaluated", ⟨"learning", ["learning_worker"], ["candidate_id"], "internal"⟩),
    ("release.promoted", ⟨"release", ["release_service"], ["release_digest"], "internal"⟩),
    ("release.rolled_back", ⟨"release", ["release_service"], ["release_digest"], "internal"⟩),
    ("work.started", ⟨"work", ["domain_service"], ["run_id"], "internal"⟩),
    ("work.completed", ⟨"work", ["domain_service"], ["run_id"], "internal"⟩),
    ("work.failed", ⟨"work", ["domain_service"], ["run_id"], "internal"⟩),
    ("work.cancelled", ⟨"work", ["domain_service"], ["run_id"], "internal"⟩),
    ("telemetry.gap",
      ⟨"telemetry", ["native_observer", "tool_observer", "domain_sink"], ["reason"], "internal"⟩)]

/-- The Python values `redact_payload` tells apart; a tuple is a `list`, and `other` has the name
of its type. -/
inductive Payload
  | none
  | bool (b : Bool)
  | int (n : ℤ)
  | float
  | str (s : String)
  | list (items : List Payload)
  | dict (entries : List (PyKey × Payload))
  | other (type : String)

/-- The payload of a call, a mapping in insertion order. -/
abbrev PayloadMapping := List (PyKey × Payload)

/-- `payload.get(key)` where it is a string. -/
def textField (payload : PayloadMapping) (key : String) : Option String :=
  match (payload.find? fun entry => entry.1 = .str key).map Prod.snd with
  | some (.str s) => some s
  | _ => none

section

variable (reprText : String → String)

/-- `spec_for`. -/
def specFor (eventType : String) : Except Failure EventTypeSpec :=
  match eventCatalogue.lookup eventType with
  | none => .error (.cyrano "UNKNOWN_EVENT_TYPE" ("unregistered event " ++ reprText eventType))
  | some spec => .ok spec

/-- `authorize_event`. -/
def authorizeEvent (eventType producer : String) : Except Failure EventTypeSpec := do
  let spec ← specFor reprText eventType
  if producer ∉ spec.trustedProducers then
    throw (.cyrano "EVENT_PRODUCER_DENIED"
      (reprText producer ++ " may not commit " ++ reprText eventType))
  return spec

/-- `payload_family`. -/
def payloadFamily (payload : PayloadMapping) : Option String := textField payload "schema_family"

/-- `check_typed_payload`. -/
def checkTypedPayload (eventType : String) (payload : PayloadMapping) : Except Failure Unit := do
  let spec ← specFor reprText eventType
  match payloadFamily payload with
  | some family =>
    if family ≠ spec.family then
      throw (.cyrano "EVENT_PAYLOAD_FAMILY_MISMATCH"
        (reprText eventType ++ " payload declares " ++ reprText family))
  | none => pure ()
  let missing := spec.requiredFields.filter fun field =>
    payload.all fun entry => entry.1 ≠ .str field
  if missing ≠ [] then
    throw (.cyrano "EVENT_PAYLOAD_INVALID"
      (reprText eventType ++ " missing " ++ reprStrings reprText (sortedStrings missing)))

end

/-! ### Secret patterns -/

/-- The characters of words, `\w`. Of those beyond ASCII nothing is used. -/
structure WordChars where
  isWord : Char → Bool
  isWord_ascii : ∀ c : Char, c.val < 128 → isWord c = (c.isAlphanum || c = '_')

/-- Words of ASCII characters. -/
def WordChars.ascii : WordChars := ⟨fun c => c.isAlphanum || c = '_', fun _ _ => rfl⟩

/-- `\s`. -/
def isSpace (c : Char) : Bool :=
  c.toNat ∈ [9, 10, 11, 12, 13, 28, 29, 30, 31, 32, 133, 160, 5760, 8192, 8193, 8194, 8195, 8196,
    8197, 8198, 8199, 8200, 8201, 8202, 8232, 8233, 8239, 8287, 12288]

/-- The letter `re.IGNORECASE` takes a character for: beyond ASCII, the dotted and the dotless I,
the long S and the Kelvin sign are letters. -/
def foldCase (c : Char) : Char :=
  if c.toNat = 0x130 ∨ c.toNat = 0x131 then 'i'
  else if c.toNat = 0x17f then 's'
  else if c.toNat = 0x212a then 'k'
  else c.toLower

namespace Secret

open Pattern

/-- A text as it stands. -/
def exactly (s : String) : Pattern Char := literal (fun c d => c = d) s.toList

/-- A text in lower or upper case. -/
def anyCase (s : String) : Pattern Char := literal (fun c d => c = foldCase d) s.toList

/-- `[\s'\"]`. -/
def isGap (c : Char) : Bool := isSpace c || c = '\'' || c = '"'

/-- `[A-Za-z0-9_\-]` in any case. -/
def isToken (c : Char) : Bool := (foldCase c).isAlphanum || c = '_' || c = '-'

/-- `sk-[A-Za-z0-9]{8,}`. -/
def apiKey : Pattern Char := seq (exactly "sk-") (atLeast Char.isAlphanum 8)

/-- `AKIA[0-9A-Z]{8,}`. -/
def accessKey : Pattern Char := seq (exactly "AKIA") (atLeast (fun c => c.isDigit || c.isUpper) 8)

/-- `-----BEGIN [A-Z ]*PRIVATE KEY-----`. -/
def privateKey : Pattern Char :=
  seq (exactly "-----BEGIN ")
    (seq (many fun c => c.isUpper || c = ' ') (exactly "PRIVATE KEY-----"))

/-- `api[_-]?key|secret|token|password` in any case. -/
def keyword : Pattern Char :=
  alt (seq (anyCase "api") (seq (alt (one fun c => c = '_' || c = '-') empty) (anyCase "key")))
    (alt (anyCase "secret") (alt (anyCase "token") (anyCase "password")))

/-- `\b(api[_-]?key|secret|token|password)[\s'\"]*` in any case. -/
def name (W : WordChars) : Pattern Char := seq (boundary W.isWord) (seq keyword (many isGap))

/-- `[:=]`. -/
def isDelimiter (c : Char) : Bool := c = ':' || c = '='

/-- `[\s'\"]*[A-Za-z0-9_\-]{8,}` in any case. -/
def value : Pattern Char := seq (many isGap) (atLeast isToken 8)

/-- A name and its value with a delimiter in between. -/
def named (W : WordChars) : Pattern Char := seq (name W) (seq (one isDelimiter) value)

/-- `_SECRET_PATTERNS`. -/
def patterns (W : WordChars) : List (Pattern Char) := [apiKey, accessKey, privateKey, named W]

end Secret

/-! ### Redaction -/

section

variable (W : WordChars)

/-- The loop of `redact_text` over the patterns. -/
def redactWith : List (Pattern Char) → List Char → Bool → List Char × Bool
  | [], out, found => (out, found)
  | pattern :: patterns, out, found =>
    if pattern.search out then redactWith patterns (pattern.sub "[redacted]".toList out) true
    else redactWith patterns out found

/-- `redact_text`. -/
def redactText (text : String) : String × Bool :=
  let (out, found) := redactWith (Secret.patterns W) text.toList false
  (String.ofList out, found)

mutual

/-- `redact_payload`. -/
def redactPayload (depth : ℕ) (value : Payload) : Except Failure (PyValue × Bool) :=
  if depth > 16 then .error (.cyrano "PAYLOAD_QUARANTINED" "payload too deep")
  else
    match value with
    | .str s => .ok (.str (redactText W s).1, (redactText W s).2)
    | .dict entries => (redactEntries depth entries).map fun out => (.dict out.1, out.2)
    | .list items => (redactItems depth items).map fun out => (.list out.1, out.2)
    | .int n => .ok (.int n, false)
    | .float => .ok (.other, false)
    | .bool b => .ok (.bool b, false)
    | .none => .ok (.none, false)
    | .other type => .error (.cyrano "PAYLOAD_QUARANTINED" ("unclassifiable " ++ type))

/-- The loop of `redact_payload` over the entries of a mapping. -/
def redactEntries (depth : ℕ) : List (PyKey × Payload) → Except Failure (PyMapping × Bool)
  | [] => .ok ([], false)
  | (.other, _) :: _ => .error (.cyrano "PAYLOAD_QUARANTINED" "non-string payload key")
  | (.str key, item) :: rest =>
    match redactPayload (depth + 1) item with
    | .error e => .error e
    | .ok (cleaned, hit) =>
      match redactEntries depth rest with
      | .error e => .error e
      | .ok (out, found) => .ok ((.str key, cleaned) :: out, hit || found)

/-- The loop of `redact_payload` over the items of a list. -/
def redactItems (depth : ℕ) : List Payload → Except Failure (List PyValue × Bool)
  | [] => .ok ([], false)
  | item :: rest =>
    match redactPayload (depth + 1) item with
    | .error e => .error e
    | .ok (cleaned, hit) =>
      match redactItems depth rest with
      | .error e => .error e
      | .ok (items, found) => .ok (cleaned :: items, hit || found)

end

end

end CyranoAgent
