import CyranoAgent.Interview.Export

/-!
# Reviews of an interview, over whole runs

The ledger of reviews keeps what was accepted for good: a new snapshot clears the credit of the
reviewers in the service and leaves the ledger alone. So an export finds the required reviews in the
ledger whichever snapshot and subject they were accepted on; it exports what was reviewed in runs
where these change only while no required review stands (`reviews_bound_of_renewed`).
-/

namespace CyranoAgent

open Lib Lib.Action

namespace Interview

/-- The operations of an interview. -/
inductive InterviewCall
  | ingest (payload : PyMapping) (actor idempotencyKey : String) (expectedRevision : ℤ)
      (trustedUser attested : Bool)
  | normalize (statementId text source : String)
  | addObligation (obligation : Obligation)
  | changeObligation (obligationId change : String) (authorized : Bool) (reason : Option String)
      (dependents : Dict String (List String))
  | decide (call : LogCall)
  | review (payload : PyMapping) (binding : WorkerBinding)
  | noteDone (reviewerId : String) (trusted : Bool)
  | snapshot (digestValue : String) (dependents : Dict String (List String))
  | completeWork
  | pause (checkpoint : String)
  | resume
  | compile (snapshotDigest : String)
  | exportApproved (bundle : ContractBundle) (approval : Approval) (currentSnapshot : String)

/-- What an operation returns, as far as the runs look at it. -/
inductive InterviewReply
  | done
  | status (status : String)
  | bundle (bundle : ContractBundle)
  | exported (bundle : ExportedBundle)

section

variable (P : Primitives) (reprText : String → String)

/-- A call on the service whose value the runs do not look at. -/
def serviceCall {α : Type} (op : InterviewService.ServiceOp α) : InterviewOp InterviewReply :=
  (fun _ => .done) <$> onService op

open InterviewService in
/-- The action of an operation. -/
def InterviewCall.op : InterviewCall → InterviewOp InterviewReply
  | .ingest payload actor idempotencyKey expectedRevision trustedUser attested =>
    serviceCall (ingestUserEvent P payload actor idempotencyKey expectedRevision trustedUser
      attested)
  | .normalize statementId text source => serviceCall (normalizeStatement statementId text source)
  | .addObligation obligation => serviceCall (InterviewService.addObligation obligation)
  | .changeObligation obligationId change authorized reason dependents =>
    serviceCall (applyObligationChange obligationId change authorized reason dependents)
  | .decide call => serviceCall (InterviewService.decide call)
  | .review payload binding => .status <$> applyWorkerResult payload binding
  | .noteDone reviewerId trusted => serviceCall (InterviewService.noteDone reviewerId trusted)
  | .snapshot digestValue dependents => serviceCall (applySnapshot digestValue dependents)
  | .completeWork => serviceCall InterviewService.completeWork
  | .pause checkpoint => serviceCall (InterviewService.pause checkpoint)
  | .resume => serviceCall InterviewService.resume
  | .compile snapshotDigest => do return .bundle ((← get).service.compileContract snapshotDigest)
  | .exportApproved bundle approval currentSnapshot => do
    return .exported (← lift (exportApprovedBundle reprText bundle approval (← get).ledger
      currentSnapshot))

/-- Perform an operation. -/
def InterviewCall.act (call : InterviewCall) (I : InterviewState) :
    Except Failure InterviewReply × InterviewState :=
  (call.op P reprText).run I

end

/-- One operation of a history of an interview. -/
abbrev InterviewEntry := Entry InterviewState InterviewCall (Except Failure InterviewReply)

/-! ### What stands in the ledger -/

/-- The operation accepts the review of a role. -/
def Accepts (e : InterviewEntry) (role : String) : Prop :=
  ∃ payload binding, e.op = .review payload binding ∧ binding.role = role ∧
    e.reply = .ok (.status "accepted")

/-- The two states have the same snapshot and the same subject. -/
structure SameSubject (I I' : InterviewState) : Prop where
  snapshot : I'.service.snapshotDigest = I.service.snapshotDigest
  subject : I'.service.subjectText = I.service.subjectText

theorem SameSubject.refl (I : InterviewState) : SameSubject I I := ⟨rfl, rfl⟩

theorem SameSubject.trans {I I' I'' : InterviewState} (h : SameSubject I I')
    (h' : SameSubject I' I'') : SameSubject I I'' :=
  ⟨h'.snapshot.trans h.snapshot, h'.subject.trans h.subject⟩

/-- Where a required review stands, the snapshot and the subject are left alone; what is exported
is the subject of the interview under its snapshot. -/
structure Renewed (e : InterviewEntry) : Prop where
  change : ∀ role ∈ requiredRoles, role ∈ e.before.ledger.accepted.keys →
    SameSubject e.before e.after
  current : ∀ bundle approval currentSnapshot,
    e.op = .exportApproved bundle approval currentSnapshot →
      bundle.subjectDigest = e.before.service.subjectDigest ∧
        currentSnapshot = e.before.service.snapshotDigest

/-- Every export is of what the required roles reviewed. -/
def ReviewsBound (h : List InterviewEntry) : Prop :=
  ∀ h₁ e h₂ bundle approval currentSnapshot out, h = h₁ ++ e :: h₂ →
    e.op = .exportApproved bundle approval currentSnapshot → e.reply = .ok (.exported out) →
      ∀ role ∈ requiredRoles, ∃ e' ∈ h₁, Accepts e' role ∧
        e'.before.service.snapshotDigest = bundle.snapshotDigest ∧
          e'.before.service.subjectDigest = bundle.subjectDigest

section

variable {P : Primitives} {reprText : String → String} {I I₀ : InterviewState}
  {h : List InterviewEntry} {e : InterviewEntry}

/-- A binding is checked without a change. -/
theorem run_validateWorkerBinding {σ : Type} (payload : PyMapping) (expected : WorkerBinding)
    (s : σ) : (∃ failure, (validateWorkerBinding payload expected).run s = (.error failure, s)) ∨
      (validateWorkerBinding payload expected).run s = (.ok (), s) := by
  rw [validateWorkerBinding]
  rcases roleAliases.lookup expected.role with _ | roleAlias
  · exact .inl ⟨_, rfl⟩
  dsimp only
  simp only [run_raiseIf_bind]
  split_ifs
  · exact .inl ⟨_, rfl⟩
  · exact .inl ⟨_, rfl⟩
  · exact .inl ⟨_, rfl⟩
  · exact .inl ⟨_, rfl⟩
  · rw [raiseIf, run_ite]
    split_ifs
    · exact .inl ⟨_, rfl⟩
    · exact .inr rfl

/-- A handler that queues a stale task and passes every failure on. -/
theorem run_requeue {σ α : Type} (queue : σ → σ) (e : Failure) (s : σ) :
    ∃ s', (s' = s ∨ s' = queue s) ∧ Lib.Action.run (match e with
      | .cyrano "STALE_REVISION" message => (do
        modify queue
        throw (.cyrano "STALE_REVISION" message) : Lib.Action σ Failure α)
      | e => throw e) s = (.error e, s') := by
  split
  · exact ⟨_, .inr rfl, rfl⟩
  · exact ⟨s, .inl rfl, rfl⟩

/-- A worker result is accepted as it is, or refused and at most queued. -/
theorem run_ingestWorkerResult (payload : PyMapping) (binding : WorkerBinding)
    (S : InterviewService) :
    (∃ failure rereview, (InterviewService.ingestWorkerResult payload binding).run S =
        (.error failure, { S with rereview })) ∨
      (InterviewService.ingestWorkerResult payload binding).run S = (.ok "accepted", S) := by
  rw [InterviewService.ingestWorkerResult, run_bind_ok (run_get S), run_raiseIf_bind]
  split_ifs
  · exact .inl ⟨_, S.rereview, rfl⟩
  obtain ⟨failure, hvalid⟩ | hvalid := run_validateWorkerBinding payload binding S
  · obtain ⟨S', hS', hrun⟩ := run_requeue (α := Unit)
      (fun S : InterviewService => { S with rereview := S.rereview ++ [binding.taskId] }) failure S
    rw [run_bind_error ((run_tryCatch_error hvalid).trans hrun)]
    obtain rfl | rfl := hS'
    · exact .inl ⟨failure, S'.rereview, rfl⟩
    · exact .inl ⟨failure, _, rfl⟩
  · rw [run_bind_ok (run_tryCatch_ok hvalid)]
    exact .inr rfl

/-- An accepted result is recorded for its role; a refused one changes no accepted review. -/
theorem run_applyWorkerResult (payload : PyMapping) (binding : WorkerBinding)
    (I : InterviewState) :
    (∃ failure rereview requeued, (applyWorkerResult payload binding).run I = (.error failure,
        ⟨{ I.service with rereview }, { I.ledger with requeued }⟩)) ∨
      (applyWorkerResult payload binding).run I = (.ok "accepted",
        { I with ledger := I.ledger.record binding "accepted" }) := by
  rw [applyWorkerResult]
  obtain ⟨failure, rereview, hingest⟩ | hingest := run_ingestWorkerResult payload binding I.service
  · have hservice : (onService (InterviewService.ingestWorkerResult payload binding)).run I =
        (.error failure, { I with service := { I.service with rereview } }) := by
      rw [onService, run_zoom, hingest]
    obtain ⟨I', hI', hrun⟩ := run_requeue (α := String)
      (fun I : InterviewState => { I with ledger := I.ledger.record binding "stale_requeued" })
      failure { I with service := { I.service with rereview } }
    rw [run_bind_error ((run_tryCatch_error hservice).trans hrun)]
    obtain rfl | rfl := hI'
    · exact .inl ⟨failure, rereview, I.ledger.requeued, rfl⟩
    · exact .inl ⟨failure, rereview, _, rfl⟩
  · have hservice : (onService (InterviewService.ingestWorkerResult payload binding)).run I =
        (.ok "accepted", I) := by
      rw [onService, run_zoom, hingest]
    rw [run_bind_ok (run_tryCatch_ok hservice)]
    exact .inr rfl

/-- Every operation leaves the accepted reviews alone, or accepts one and changes nothing else. -/
theorem accepted_cases (he : e = Entry.perform (InterviewCall.act P reprText) e.before e.op) :
    e.after.ledger.accepted = e.before.ledger.accepted ∨
      ∃ payload binding, e.op = .review payload binding ∧ e.reply = .ok (.status "accepted") ∧
        e.after = { e.before with ledger := e.before.ledger.record binding "accepted" } := by
  have hafter : e.after = (e.op.act P reprText e.before).2 := congrArg Entry.after he
  have hreply : e.reply = (e.op.act P reprText e.before).1 := congrArg Entry.reply he
  have hservice {α : Type} (op : InterviewService.ServiceOp α)
      (hop : e.op.op P reprText = serviceCall op) :
      e.after.ledger.accepted = e.before.ledger.accepted := by
    rw [hafter, InterviewCall.act, hop, serviceCall, run_map, onService, run_zoom]
  rcases hop : e.op with _ | _ | _ | _ | _ | ⟨payload, binding⟩ | _ | _ | _ | _ | _ | _ |
    ⟨bundle, approval, currentSnapshot⟩
  case review =>
    rw [hop, InterviewCall.act, InterviewCall.op, run_map] at hafter hreply
    obtain ⟨failure, rereview, requeued, hrun⟩ | hrun :=
      run_applyWorkerResult payload binding e.before
    · rw [hrun] at hafter
      exact .inl (by rw [hafter])
    · rw [hrun] at hafter hreply
      exact .inr ⟨payload, binding, rfl, hreply, hafter⟩
  case exportApproved =>
    rw [hop, InterviewCall.act, InterviewCall.op, run_bind_ok (run_get e.before)] at hafter
    rcases hexport : exportApprovedBundle reprText bundle approval e.before.ledger currentSnapshot
      with failure | out
    · rw [hexport, run_bind_error (run_lift_error failure e.before)] at hafter
      exact .inl (by rw [hafter])
    · rw [hexport, run_bind_ok (run_lift_ok out e.before)] at hafter
      exact .inl (by rw [hafter]; rfl)
  case compile =>
    rw [hop, InterviewCall.act, InterviewCall.op, run_bind_ok (run_get e.before)] at hafter
    exact .inl (by rw [hafter]; rfl)
  all_goals exact .inl (hservice _ (by rw [hop]; rfl))

/-- The required reviews that stand were accepted on the snapshot and the subject of the state. -/
def Standing (h : List InterviewEntry) (I : InterviewState) : Prop :=
  ∀ role ∈ requiredRoles, role ∈ I.ledger.accepted.keys →
    ∃ e ∈ h, Accepts e role ∧ SameSubject e.before I

/-- **One operation** keeps the reviews that stand on the snapshot and the subject of the state. -/
theorem Standing.perform (he : e = Entry.perform (InterviewCall.act P reprText) e.before e.op)
    (hrenewed : Renewed e) (hstanding : Standing h e.before) : Standing (h ++ [e]) e.after := by
  intro role hrole hkey
  have hold (hbefore : role ∈ e.before.ledger.accepted.keys) :
      ∃ e' ∈ h ++ [e], Accepts e' role ∧ SameSubject e'.before e.after := by
    obtain ⟨e', he', haccepts, hsame⟩ := hstanding role hrole hbefore
    exact ⟨e', List.mem_append_left _ he', haccepts,
      hsame.trans (hrenewed.change role hrole hbefore)⟩
  obtain haccepted | ⟨payload, binding, hop, hreply, hafter⟩ := accepted_cases he
  · rw [haccepted] at hkey
    exact hold hkey
  by_cases hbinding : binding.role = role
  · refine ⟨e, by simp, ⟨payload, binding, hop, hbinding, hreply⟩, ?_⟩
    rw [hafter]
    exact ⟨rfl, rfl⟩
  · refine hold ?_
    rw [hafter, Dict.mem_keys_iff] at hkey
    obtain ⟨task, htask⟩ := hkey
    have hother :
        (e.before.ledger.accepted.set binding.role binding.taskId).get? role = some task :=
      htask
    rw [Dict.get?_set_of_ne (Ne.symm hbinding)] at hother
    exact Dict.mem_keys_iff.mpr ⟨task, hother⟩

/-- What an export checks. -/
theorem exportApprovedBundle_eq_ok {bundle : ContractBundle} {approval : Approval}
    {ledger : ReviewLedger} {currentSnapshot : String} {out : ExportedBundle}
    (hexport : exportApprovedBundle reprText bundle approval ledger currentSnapshot = .ok out) :
    bundle.snapshotDigest = currentSnapshot ∧
      ∀ role ∈ requiredRoles, role ∈ ledger.accepted.keys := by
  rw [exportApprovedBundle] at hexport
  split_ifs at hexport with hstatus hsubject hsnapshot hmissing
  refine ⟨(not_or.mp hsnapshot).2 |> not_not.mp, fun role hrole => ?_⟩
  by_contra hno
  have hmem : role ∈ ledger.missingRequired := List.mem_filter.mpr ⟨hrole, decide_eq_true hno⟩
  rw [not_not.mp hmissing] at hmem
  cases hmem

/-- **What is exported was reviewed**: in every run that renews its reviews, an export succeeds
only if every required role accepted the very snapshot and subject it exports. -/
theorem reviews_bound_of_renewed (hrun : Run (InterviewCall.act P reprText) I₀ h I)
    (hstart : I₀.ledger = {}) (hrenewed : ∀ e ∈ h, Renewed e) : ReviewsBound h := by
  rintro h₁ e h₂ bundle approval currentSnapshot out rfl hop hreply role hrole
  obtain ⟨hbefore, he, -⟩ := hrun.split
  have hrenewed₁ : ∀ e' ∈ h₁, Renewed e' := fun e' he' =>
    hrenewed e' (List.mem_append_left _ he')
  have hstanding : Standing h₁ e.before := by
    have hinv := hbefore.inv (I := fun h I => (∀ e' ∈ h, Renewed e') → Standing h I) ?_ ?_
    · exact hinv hrenewed₁
    · intro _ role _ hkey
      rw [hstart] at hkey
      cases hkey
    · intro h I call _ hstanding hall
      exact (hstanding fun e' he' => hall e' (List.mem_append_left _ he')).perform rfl
        (hall _ (by simp))
  have hexport : exportApprovedBundle reprText bundle approval e.before.ledger currentSnapshot =
      .ok out := by
    have hperform := congrArg Entry.reply he
    rw [hreply, hop, Entry.perform_reply, InterviewCall.act, InterviewCall.op,
      run_bind_ok (run_get e.before)] at hperform
    rcases hout : exportApprovedBundle reprText bundle approval e.before.ledger currentSnapshot
      with failure | out'
    · rw [hout, run_bind_error (run_lift_error failure e.before)] at hperform
      cases hperform
    · rw [hout, run_bind_ok (run_lift_ok out' e.before)] at hperform
      cases hperform
      rfl
  obtain ⟨hsnapshot, haccepted⟩ := exportApprovedBundle_eq_ok hexport
  obtain ⟨hsubject, hcurrent⟩ :=
    (hrenewed e (by simp)).current bundle approval currentSnapshot hop
  obtain ⟨e', he', haccepts, hsame⟩ := hstanding role hrole (haccepted role hrole)
  refine ⟨e', he', haccepts, ?_, ?_⟩
  · rw [hsnapshot, hcurrent, hsame.snapshot]
  · rw [hsubject, InterviewService.subjectDigest, InterviewService.subjectDigest, hsame.subject]

end

/-- An interview with a decision of a user, who has approved it. -/
def approvedInterview : InterviewState :=
  { service := { decidedInterview "use sqlite" with approved := true } }

/-- The review of a role, with its alias, that matches its binding. -/
def goodReview (role roleAlias : String) : InterviewCall :=
  .review [(.str "task_id", .str "t1"), (.str "role", .str roleAlias),
    (.str "base_revision", .int 1),
    (.str "input_digest", .str (String.ofList (List.replicate 64 'a')))]
    ⟨"t1", role, 1, String.ofList ("sha256:".toList ++ List.replicate 64 'a')⟩

/-- Both required roles review a snapshot. -/
def reviewCalls : List InterviewCall :=
  [.snapshot "s1" ∅, goodReview "critic" "critic",
    goodReview "blind-handoff-reviewer" "blind_reviewer"]

/-- The export of an interview as it is, under a snapshot and with an approval of just that. -/
def exportOf (I : InterviewState) (snapshot : String) : InterviewCall :=
  .exportApproved (I.service.compileContract snapshot)
    ⟨"a1", I.service.subjectDigest, snapshot⟩ snapshot

/-- The export of an approved interview succeeds once the required reviews are in the ledger. -/
theorem act_exportOf {I : InterviewState} {snapshot : String}
    (happroved : I.service.approved = true) (hreviewed : I.ledger.missingRequired = []) :
    (exportOf I snapshot).act .ascii id I =
      (.ok (.exported ⟨.approved, I.service.subjectDigest, snapshot, "a1", true⟩), I) := by
  have hexport : exportApprovedBundle id (I.service.compileContract snapshot)
      ⟨"a1", I.service.subjectDigest, snapshot⟩ I.ledger snapshot =
        .ok ⟨.approved, I.service.subjectDigest, snapshot, "a1", true⟩ := by
    simp [exportApprovedBundle, InterviewService.compileContract, happroved, hreviewed]
  rw [exportOf, InterviewCall.act, InterviewCall.op, run_bind_ok (run_get I), hexport,
    run_bind_ok (run_lift_ok _ I)]
  rfl

theorem sameSubject_review (payload : PyMapping) (binding : WorkerBinding) (I : InterviewState) :
    SameSubject I ((InterviewCall.review payload binding).act .ascii id I).2 := by
  rw [InterviewCall.act, InterviewCall.op, run_map]
  obtain ⟨failure, rereview, requeued, hrun⟩ | hrun := run_applyWorkerResult payload binding I
  · rw [hrun]
    exact ⟨rfl, rfl⟩
  · rw [hrun]
    exact ⟨rfl, rfl⟩

/-- The interview after the reviews. -/
def reviewedInterview : InterviewState :=
  (exec (InterviewCall.act .ascii id) approvedInterview reviewCalls).2

/-- It is approved, has no review missing, and has the snapshot. -/
theorem reviewedInterview_ready : reviewedInterview.service.approved = true ∧
    reviewedInterview.ledger.missingRequired = [] ∧
      reviewedInterview.service.snapshotDigest = "s1" := by
  decide

/-- An interview is reviewed, and exported. -/
theorem reviews_bound_of_renewed_exported :
    ReviewsBound ((exec (InterviewCall.act .ascii id) approvedInterview reviewCalls).1 ++
      [Entry.perform (InterviewCall.act .ascii id) reviewedInterview
        (exportOf reviewedInterview "s1")]) := by
  obtain ⟨happroved, hreviewed, hsnapshot⟩ := reviewedInterview_ready
  refine reviews_bound_of_renewed
    ((run_exec (InterviewCall.act .ascii id) approvedInterview reviewCalls).snoc _) rfl ?_
  intro e he
  simp only [reviewCalls, exec, List.cons_append, List.nil_append, List.mem_cons, List.not_mem_nil,
    or_false] at he
  obtain rfl | rfl | rfl | rfl := he
  · exact ⟨fun role _ hkey => absurd hkey List.not_mem_nil, by rintro _ _ _ ⟨⟩⟩
  · exact ⟨fun _ _ _ => sameSubject_review _ _ _, by rintro _ _ _ ⟨⟩⟩
  · exact ⟨fun _ _ _ => sameSubject_review _ _ _, by rintro _ _ _ ⟨⟩⟩
  · refine ⟨fun _ _ _ => ?_, ?_⟩
    · have hact : (exportOf reviewedInterview "s1").act .ascii id reviewedInterview = _ :=
        act_exportOf happroved hreviewed
      rw [Entry.perform_before, Entry.perform_after, hact]
      exact .refl _
    · rintro bundle approval currentSnapshot ⟨⟩
      exact ⟨rfl, hsnapshot.symm⟩

/-- **The reviews of an earlier snapshot carry the export of a later one.** -/
theorem not_reviews_bound : ¬∀ h I, Run (InterviewCall.act .ascii id) approvedInterview h I →
    ReviewsBound h := by
  intro hclaim
  have hrun := run_exec (InterviewCall.act .ascii id) approvedInterview
    (reviewCalls ++ [.snapshot "s2" ∅])
  obtain ⟨e, he, -, hsnapshot, -⟩ := hclaim _ _ (hrun.snoc (exportOf _ "s2")) _ _ [] _ _ _ _ rfl rfl
    (congrArg Prod.fst (act_exportOf (by decide) (by decide))) "critic" (by decide)
  have hsnapshots : ∀ s ∈ (exec (InterviewCall.act .ascii id) approvedInterview
      (reviewCalls ++ [.snapshot "s2" ∅])).1.map (·.before.service.snapshotDigest), s ≠ "s2" := by
    decide
  exact hsnapshots _ (List.mem_map_of_mem he) hsnapshot

end Interview

end CyranoAgent
