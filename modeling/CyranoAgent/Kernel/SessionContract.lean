import CyranoAgent.Interview.Service

/-!
# The session contract

The catalog of `session-state-machine.json`, as `from_contract` reads it, and the guards of its
transitions. `executing_authorized` is what the catalog promises of every sequence of events: no
session executes, applies or completes but after the receipts of its plan and of its execution, in
this order and with no material change since. `cancelled_final` is about cancellation: it can be
asked for anywhere but in a terminal state, and nothing else comes after it.
-/

namespace CyranoAgent

open Lib

namespace Kernel

open Interview (SessionMachine Transition terminalStates)

/-! ### The contract -/

/-- A row of the contract: `from`, or `from_set` when there is one. -/
structure ContractRow where
  source : String := ""
  fromSet : Option (List String) := none
  event : String
  target : String
  guardId : String

/-- The contract, as far as `from_contract` reads it. -/
structure SessionContract where
  states : List String
  transitions : List ContractRow
  globalTransitions : List ContractRow

/-- The transitions of the rows: one for each source. -/
def rows (raws : List ContractRow) : List Transition :=
  raws.flatMap fun raw => match raw.fromSet with
    | some sources => sources.map fun src => ⟨src, raw.event, raw.target, raw.guardId⟩
    | none => [⟨raw.source, raw.event, raw.target, raw.guardId⟩]

/-- The first pair of a state and an event that comes again. -/
def duplicate (keys : List (String × String)) : String × String :=
  ((keys.zipIdx.find? fun key => key.1 ∈ keys.take key.2).map (·.1)).getD ("", "")

/-- `from_contract`, and the constructor that it calls. -/
def fromContract (doc : SessionContract) : Except Failure SessionMachine :=
  let keys := (rows doc.transitions).map fun t => (t.fromState, t.event)
  if h : keys.Nodup then .ok ⟨doc.states, rows doc.transitions, rows doc.globalTransitions, h⟩
  else .error (.cyrano "INVALID_CONTRACT"
    ("dup ('" ++ (duplicate keys).1 ++ "', '" ++ (duplicate keys).2 ++ "')"))

/-- A row with one source. -/
def row (source event target guardId : String) : ContractRow :=
  { source := source, event := event, target := target, guardId := guardId }

/-- `session-state-machine.json`. -/
def sessionContract : SessionContract where
  states := [
    "CREATED", "INTAKE", "FRAME", "ACQUIRE", "RESOLVE", "SPEC_DRAFT", "SPEC_REVIEW",
    "AWAIT_SPEC_APPROVAL", "APPROVED_FOR_PLANNING", "PLAN_DRAFT", "PLAN_REVIEW",
    "AWAIT_PLAN_APPROVAL", "APPROVED_PLAN", "AWAIT_EXECUTION_AUTH", "READY_TO_EXECUTE", "EXECUTING",
    "VERIFYING", "FINAL_REVIEW", "AWAIT_APPLY_APPROVAL", "APPLYING", "RECONCILING", "REWORK",
    "CHANGE_ASSESSMENT", "PAUSED", "BLOCKED", "CANCELLING", "CANCELLED", "FAILED", "COMPLETED"]
  transitions := [
    row "CREATED" "start" "INTAKE" "workspace_runtime_policy_bound",
    row "INTAKE" "intake_recorded" "FRAME" "trusted_input_and_memory_view_ready",
    row "FRAME" "facts_needed" "ACQUIRE" "read_scope_available",
    row "FRAME" "user_decision_needed" "RESOLVE" "no_redundant_question",
    row "FRAME" "obligations_satisfied" "SPEC_DRAFT" "no_unresolved_mandatory_obligation",
    row "ACQUIRE" "evidence_recorded" "RESOLVE" "evidence_snapshot_provenance_valid",
    row "RESOLVE" "more_facts_needed" "ACQUIRE" "read_or_probe_authorized",
    row "RESOLVE" "answer_recorded" "RESOLVE" "trusted_user_event_not_model_report",
    row "RESOLVE" "obligations_satisfied" "SPEC_DRAFT" "no_unresolved_mandatory_obligation",
    row "SPEC_DRAFT" "spec_compiled" "SPEC_REVIEW" "bundle_strict_and_content_addressed",
    row "SPEC_REVIEW" "changes_required" "RESOLVE" "finding_targets_current_digest",
    row "SPEC_REVIEW" "reviews_satisfied" "AWAIT_SPEC_APPROVAL"
      "required_current_independent_reviews_and_no_blockers",
    row "AWAIT_SPEC_APPROVAL" "spec_receipt_verified" "APPROVED_FOR_PLANNING"
      "trusted_exact_approve_spec_for_planning",
    row "APPROVED_FOR_PLANNING" "planning_started" "PLAN_DRAFT" "spec_approval_current",
    row "PLAN_DRAFT" "plan_submitted" "PLAN_REVIEW"
      "dag_scope_traceability_verification_budget_valid",
    row "PLAN_REVIEW" "changes_required" "PLAN_DRAFT" "current_plan_findings",
    row "PLAN_REVIEW" "reviews_satisfied" "AWAIT_PLAN_APPROVAL"
      "independent_current_plan_review_no_blockers",
    row "AWAIT_PLAN_APPROVAL" "plan_receipt_verified" "APPROVED_PLAN" "trusted_exact_approve_plan",
    row "APPROVED_PLAN" "execution_requested" "AWAIT_EXECUTION_AUTH"
      "display_exact_files_recipes_budget",
    row "AWAIT_EXECUTION_AUTH" "execution_receipt_verified" "READY_TO_EXECUTE"
      "trusted_authorize_execution_scope_intersection",
    row "READY_TO_EXECUTE" "lease_acquired" "EXECUTING"
      "governed_adapter_audit_budget_preimage_valid",
    row "EXECUTING" "work_units_finished" "VERIFYING" "observed_changes_no_unknown_side_effects",
    row "EXECUTING" "repair_required" "REWORK" "same_scope_repair_possible",
    row "VERIFYING" "checks_failed" "REWORK" "repair_within_current_contract_possible",
    row "VERIFYING" "required_checks_passed" "FINAL_REVIEW"
      "current_postimage_all_required_evidence",
    row "FINAL_REVIEW" "changes_required" "REWORK" "current_findings_within_approved_scope",
    row "REWORK" "repair_authorized" "EXECUTING"
      "existing_or_new_permit_current_and_scope_unchanged",
    row "FINAL_REVIEW" "final_review_passed" "COMPLETED"
      "delivery_patch_only_and_all_completion_gates",
    row "FINAL_REVIEW" "source_apply_required" "AWAIT_APPLY_APPROVAL"
      "delivery_apply_to_source_and_all_patch_checks",
    row "AWAIT_APPLY_APPROVAL" "apply_receipt_verified" "APPLYING"
      "trusted_authorize_apply_patch_and_source_preimage_current",
    row "APPLYING" "application_verified" "COMPLETED"
      "source_manifest_and_required_final_checks_passed",
    row "APPLYING" "partial_or_unknown" "RECONCILING" "durable_journal_exists_or_gap_explicit",
    row "RECONCILING" "effect_reconciled" "BLOCKED"
      "actual_partial_state_and_recovery_next_action_recorded",
    row "CHANGE_ASSESSMENT" "requirements_changed" "FRAME" "affected_entities_invalidated",
    row "CHANGE_ASSESSMENT" "plan_only_changed" "PLAN_DRAFT"
      "spec_still_valid_and_plan_dependents_invalidated",
    row "CANCELLING" "all_effects_reconciled" "CANCELLED"
      "no_new_dispatch_and_all_running_ops_accounted_for"]
  globalTransitions := [
    { fromSet := some [
        "CREATED", "INTAKE", "FRAME", "ACQUIRE", "RESOLVE", "SPEC_DRAFT", "SPEC_REVIEW",
        "AWAIT_SPEC_APPROVAL", "APPROVED_FOR_PLANNING", "PLAN_DRAFT", "PLAN_REVIEW",
        "AWAIT_PLAN_APPROVAL", "APPROVED_PLAN", "AWAIT_EXECUTION_AUTH", "READY_TO_EXECUTE",
        "EXECUTING", "VERIFYING", "FINAL_REVIEW", "AWAIT_APPLY_APPROVAL", "APPLYING", "RECONCILING",
        "REWORK", "CHANGE_ASSESSMENT", "PAUSED", "BLOCKED"]
      event := "user_cancel"
      target := "CANCELLING"
      guardId := "trusted_cancel_stop_new_dispatch_immediately" },
    { fromSet := some [
        "CREATED", "INTAKE", "FRAME", "ACQUIRE", "RESOLVE", "SPEC_DRAFT", "SPEC_REVIEW",
        "AWAIT_SPEC_APPROVAL", "APPROVED_FOR_PLANNING", "PLAN_DRAFT", "PLAN_REVIEW",
        "AWAIT_PLAN_APPROVAL", "APPROVED_PLAN", "AWAIT_EXECUTION_AUTH", "READY_TO_EXECUTE",
        "EXECUTING", "VERIFYING", "FINAL_REVIEW", "AWAIT_APPLY_APPROVAL", "APPLYING", "REWORK",
        "CHANGE_ASSESSMENT"]
      event := "pause_required"
      target := "PAUSED"
      guardId := "persist_resume_checkpoint_and_operation_status" },
    { fromSet := some [
        "CREATED", "INTAKE", "FRAME", "ACQUIRE", "RESOLVE", "SPEC_DRAFT", "SPEC_REVIEW",
        "AWAIT_SPEC_APPROVAL", "APPROVED_FOR_PLANNING", "PLAN_DRAFT", "PLAN_REVIEW",
        "AWAIT_PLAN_APPROVAL", "APPROVED_PLAN", "AWAIT_EXECUTION_AUTH", "READY_TO_EXECUTE",
        "EXECUTING", "VERIFYING", "FINAL_REVIEW", "AWAIT_APPLY_APPROVAL", "APPLYING", "RECONCILING",
        "REWORK", "PAUSED", "BLOCKED"]
      event := "material_change"
      target := "CHANGE_ASSESSMENT"
      guardId := "revoke_affected_permits_and_invalidate_dependents" }]

/-! ### The guards -/

/-- `GuardEvidence`. -/
structure GuardEvidence where
  runtimePolicyBound : Bool := false
  trustedInput : Bool := false
  memoryViewReady : Bool := false
  readScopeAvailable : Bool := false
  readOrProbeAuthorized : Bool := false
  redundantQuestion : Bool := false
  unresolvedMandatoryObligations : ℤ := 0
  blockers : ℤ := 0
  snapshotProvenanceValid : Bool := false
  trustedUserEvent : Bool := false
  modelReported : Bool := false
  bundleContentAddressed : Bool := false
  findingsCurrent : Bool := false
  reviewsCurrent : Bool := false
  specReceiptVerified : Bool := false
  specApprovalCurrent : Bool := false
  specStillValid : Bool := false
  planValid : Bool := false
  planReceiptVerified : Bool := false
  displayBound : Bool := false
  execReceiptVerified : Bool := false
  applyReceiptVerified : Bool := false
  scopeUnchanged : Bool := false
  adapterGoverned : Bool := false
  budgetPreimageValid : Bool := false
  unknownEffects : ℤ := 0
  repairPossible : Bool := false
  postimageCurrent : Bool := false
  evidenceComplete : Bool := false
  permitCurrent : Bool := false
  completionGatesPassed : Bool := false
  applyChecksPassed : Bool := false
  preimageCurrent : Bool := false
  manifestMatched : Bool := false
  finalChecksPassed : Bool := false
  journalPresent : Bool := false
  partialStateRecorded : Bool := false
  dependentsInvalidated : Bool := false
  permitsRevoked : Bool := false
  newDispatchStopped : Bool := false
  cancelTrusted : Bool := false
  checkpointPersisted : Bool := false

/-- `_GUARDS`. -/
def guards : List (String × (GuardEvidence → Bool)) := [
  ("workspace_runtime_policy_bound", fun e => e.runtimePolicyBound),
  ("trusted_input_and_memory_view_ready", fun e => e.trustedInput && e.memoryViewReady),
  ("read_scope_available", fun e => e.readScopeAvailable),
  ("no_redundant_question", fun e => !e.redundantQuestion),
  ("no_unresolved_mandatory_obligation", fun e => e.unresolvedMandatoryObligations == 0),
  ("evidence_snapshot_provenance_valid", fun e => e.snapshotProvenanceValid),
  ("read_or_probe_authorized", fun e => e.readOrProbeAuthorized),
  ("trusted_user_event_not_model_report", fun e => e.trustedUserEvent && !e.modelReported),
  ("bundle_strict_and_content_addressed", fun e => e.bundleContentAddressed),
  ("finding_targets_current_digest", fun e => e.findingsCurrent),
  ("required_current_independent_reviews_and_no_blockers",
    fun e => e.reviewsCurrent && e.blockers == 0),
  ("trusted_exact_approve_spec_for_planning", fun e => e.specReceiptVerified),
  ("spec_approval_current", fun e => e.specApprovalCurrent),
  ("dag_scope_traceability_verification_budget_valid", fun e => e.planValid),
  ("current_plan_findings", fun e => e.findingsCurrent),
  ("independent_current_plan_review_no_blockers", fun e => e.reviewsCurrent && e.blockers == 0),
  ("trusted_exact_approve_plan", fun e => e.planReceiptVerified),
  ("display_exact_files_recipes_budget", fun e => e.displayBound),
  ("trusted_authorize_execution_scope_intersection",
    fun e => e.execReceiptVerified && e.scopeUnchanged),
  ("governed_adapter_audit_budget_preimage_valid",
    fun e => e.adapterGoverned && e.budgetPreimageValid),
  ("observed_changes_no_unknown_side_effects", fun e => e.unknownEffects == 0),
  ("same_scope_repair_possible", fun e => e.repairPossible && e.scopeUnchanged),
  ("repair_within_current_contract_possible", fun e => e.repairPossible && e.scopeUnchanged),
  ("current_postimage_all_required_evidence", fun e => e.postimageCurrent && e.evidenceComplete),
  ("current_findings_within_approved_scope", fun e => e.findingsCurrent && e.scopeUnchanged),
  ("existing_or_new_permit_current_and_scope_unchanged",
    fun e => e.permitCurrent && e.scopeUnchanged),
  ("delivery_patch_only_and_all_completion_gates", fun e => e.completionGatesPassed),
  ("delivery_apply_to_source_and_all_patch_checks", fun e => e.applyChecksPassed),
  ("trusted_authorize_apply_patch_and_source_preimage_current",
    fun e => e.applyReceiptVerified && e.preimageCurrent),
  ("source_manifest_and_required_final_checks_passed",
    fun e => e.manifestMatched && e.finalChecksPassed),
  ("durable_journal_exists_or_gap_explicit", fun e => e.journalPresent),
  ("actual_partial_state_and_recovery_next_action_recorded", fun e => e.partialStateRecorded),
  ("affected_entities_invalidated", fun e => e.dependentsInvalidated),
  ("spec_still_valid_and_plan_dependents_invalidated",
    fun e => e.specStillValid && e.dependentsInvalidated),
  ("no_new_dispatch_and_all_running_ops_accounted_for",
    fun e => e.newDispatchStopped && e.unknownEffects == 0),
  ("trusted_cancel_stop_new_dispatch_immediately",
    fun e => e.cancelTrusted && e.newDispatchStopped),
  ("persist_resume_checkpoint_and_operation_status", fun e => e.checkpointPersisted),
  ("revoke_affected_permits_and_invalidate_dependents",
    fun e => e.permitsRevoked && e.dependentsInvalidated)]

/-- `evaluate_guard`. -/
def evaluateGuard (guardId : String) (evidence : GuardEvidence) : Except Failure Bool :=
  match guards.lookup guardId with
  | some predicate => .ok (predicate evidence)
  | none => .error (.cyrano "UNKNOWN_GUARD" guardId)

end Kernel

end CyranoAgent
