import CyranoAgent.Contracts.Canonical
import CyranoAgent.Kernel.Actions

/-!
# Permits and the action broker

A permit is verified against its signature, its revocation, its expiry, its purpose and its subject,
in this order. The broker decides on a tool call: it looks at the mode, the actor, the tool and the
permit before it evaluates the grants at the path. Whether a signature fits a body is a parameter.
-/

namespace CyranoAgent

open Lib

namespace Kernel

/-- `SignedPermit`. -/
structure SignedPermit where
  permitId : String
  subjectDigest : String
  shownDigest : String
  userEventId : String
  scopeId : String
  purpose : String
  audience : String
  nonce : String
  issuedAt : ℤ
  expiresAt : ℤ
  signature : String

/-- The fields of `_permit_body`. -/
def SignedPermit.fields (permit : SignedPermit) : PyValue := .dict [
  (.str "permit_id", .str permit.permitId), (.str "subject_digest", .str permit.subjectDigest),
  (.str "shown_digest", .str permit.shownDigest), (.str "user_event_id", .str permit.userEventId),
  (.str "scope_id", .str permit.scopeId), (.str "purpose", .str permit.purpose),
  (.str "audience", .str permit.audience), (.str "nonce", .str permit.nonce),
  (.str "issued_at", .int permit.issuedAt), (.str "expires_at", .int permit.expiresAt)]

/-- What a permit is verified against, apart from the clock and the revocations. -/
structure TrustRoot where
  /-- `verify(bytes.fromhex(signature), body)` returns. -/
  verifies : String → ByteArray → Bool

section

variable (P : Primitives) (trustRoot : TrustRoot)

/-- `verify_permit`. -/
def verifyPermit (permit : SignedPermit) (purpose subjectDigest : String) (now : ℤ)
    (revoked : String → Bool) : Except Failure Unit := do
  let body ← canonicalBytes P permit.fields
  if ¬trustRoot.verifies permit.signature body then
    .error (.cyrano "INVALID_SIGNATURE" permit.permitId)
  else if revoked permit.permitId then .error (.cyrano "PERMIT_REVOKED" permit.permitId)
  else if permit.expiresAt ≤ now then .error (.cyrano "PERMIT_EXPIRED" permit.permitId)
  else if permit.purpose ≠ purpose then
    .error (.cyrano "WRONG_APPROVAL_ACTION" (permit.purpose ++ " used as " ++ purpose))
  else if permit.subjectDigest ≠ subjectDigest then
    .error (.cyrano "SUBJECT_MISMATCH" permit.subjectDigest)
  else return ()

/-- `MODES`. -/
def brokerModes : List String := ["manual", "auto", "headless", "acp", "resume"]

/-- `ActionBroker`, as far as it decides. -/
structure ActionBroker where
  tools : List String
  grants : List Grant

/-- What a broker is asked. -/
structure BrokerRequest where
  tool : String
  action : String
  path : String
  permit : Option SignedPermit
  subjectDigest : String
  now : ℤ
  revoked : String → Bool
  mode : String := "manual"
  actor : Option String := none
  authenticatedActor : Option String := none
  preexisting : Bool := false
  recipeApproved : Bool := true
  headlessPolicy : Bool := true

/-- `decide`. Only what `verify_permit` raises is caught. -/
def ActionBroker.decide (broker : ActionBroker) (request : BrokerRequest) :
    Except Failure Decision :=
  if request.mode ∉ brokerModes then .ok ⟨false, "UNSUPPORTED_MODE", request.mode⟩
  else if request.actor.isSome ∧ request.actor ≠ request.authenticatedActor then
    .ok ⟨false, "ACL_DENIED", request.actor.getD ""⟩
  else if request.tool ∉ broker.tools then .ok ⟨false, "UNKNOWN_TOOL", request.tool⟩
  else if request.tool = "execute_recipe" ∧ ¬request.recipeApproved then
    .ok ⟨false, "UNVERIFIED_RECIPE", request.tool⟩
  else match request.permit with
  | none => .ok ⟨false, "APPROVAL_REQUIRED", request.path⟩
  | some permit =>
    match verifyPermit P trustRoot permit "execute" request.subjectDigest request.now
        request.revoked with
    | .error (.cyrano code message) => .ok ⟨false, code, (Failure.cyrano code message).text⟩
    | .error e => .error e
    | .ok () =>
      if ¬request.headlessPolicy ∧ request.mode = "headless" then
        .ok ⟨false, "BLOCKED", request.mode⟩
      else evaluate request.action request.path broker.grants request.preexisting

end

end Kernel

end CyranoAgent
