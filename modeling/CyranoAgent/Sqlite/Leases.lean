import CyranoAgent.Sqlite.Commands

/-!
# The order of leases

`claim_outbox` and `claim_job` read the lease floor and then run their transaction. Other
connections come in between, so a claim may add its time to a floor that has been overtaken.
`Connections` keeps what each connection has read, and its runs are the interleavings of the
two steps of any number of claims with any other calls.

`leasesOrdered_iff` says which runs grant their leases in order: those in which no claim that
takes a job ends below the floor it finds. A claim whose floor is still the ledger's never does
(`Claim.not_overtaken_of_current`), so claims one after the other are in order whatever their
clocks say.
-/

namespace CyranoAgent

open Lib Lib.Action Repository

/-! ### Claims in two steps -/

/-- The arguments of `claim_outbox` and `claim_job`. -/
inductive Claim
  | outbox (scopeId owner : String) (now ttlSeconds : ℤ)
  | job (scopeId jobId owner : String) (now ttlSeconds : ℤ)

namespace Claim

/-- The clock a claim is given. -/
def now : Claim → ℤ
  | .outbox _ _ now _ | .job _ _ _ now _ => now

/-- The time a claim asks for. -/
def ttlSeconds : Claim → ℤ
  | .outbox _ _ _ ttlSeconds | .job _ _ _ _ ttlSeconds => ttlSeconds

/-- The owner a claim leases its job to. -/
def owner : Claim → String
  | .outbox _ owner _ _ | .job _ _ owner _ _ => owner

/-- The transaction of a claim, on the floor it has read. -/
def call (floor : ℤ) : Claim → Call
  | .outbox scopeId owner now ttlSeconds => .claimOutbox floor scopeId owner now ttlSeconds
  | .job scopeId jobId owner now ttlSeconds => .claimJob floor scopeId jobId owner now ttlSeconds

/-- The job a claim takes. -/
def job? (L : Ledger) : Claim → Option Job
  | .outbox scopeId _ now _ => nextClaim? L scopeId now
  | .job scopeId jobId _ _ _ => pendingJob? L scopeId jobId

/-- When the lease ends that a claim is granted on a floor. -/
def leaseUntil (c : Claim) (floor : ℤ) : ℤ := max c.now floor + c.ttlSeconds

end Claim

/-- The calls other than claims. -/
def Call.isClaim : Call → Bool
  | .claimOutbox .. | .claimJob .. => true
  | _ => false

/-- The ledger, and the floor each connection has read for a claim it has not finished. -/
structure Connections where
  ledger : Ledger := .empty
  floors : ℕ → Option ℤ := fun _ => none

/-- The steps of any connection. -/
inductive ClaimStep
  | readFloor (connection : ℕ)
  | claim (connection : ℕ) (c : Claim)
  | other (call : {call : Call // call.isClaim = false})

/-- Perform a step. A connection that has read no floor has no claim to finish. -/
def ClaimStep.act (P : Primitives) (step : ClaimStep) (S : Connections) :
    Except Failure Reply × Connections :=
  match step with
  | .readFloor connection =>
    (.ok .done, { S with
      floors := Function.update S.floors connection (some (S.ledger.leaseFloor.getD 0)) })
  | .claim connection c =>
    match S.floors connection with
    | none => (.ok .done, S)
    | some floor =>
      let result := (c.call floor).act P S.ledger
      (result.1, ⟨result.2, Function.update S.floors connection none⟩)
  | .other call =>
    let result := call.1.act P S.ledger
    (result.1, { S with ledger := result.2 })

/-- One step of a history of connections. -/
abbrev ClaimEntry := Entry Connections ClaimStep (Except Failure Reply)

/-- The step granted a lease that ends at `leaseUntil`. -/
def Grants (e : ClaimEntry) (leaseUntil : ℤ) : Prop :=
  ∃ lease, e.reply = .ok (.lease (some lease)) ∧ lease.leaseUntil = leaseUntil

/-- The step finishes the claim `c`, which takes a job on the floor its connection has read. -/
def Takes (e : ClaimEntry) (c : Claim) (floor : ℤ) : Prop :=
  ∃ connection, e.op = .claim connection c ∧ e.before.floors connection = some floor ∧
    0 < c.ttlSeconds ∧ (c.job? e.before.ledger).isSome

/-- The lease of the claim ends no later than the floor the ledger has by then. -/
def Overtaken (e : ClaimEntry) : Prop :=
  ∃ c floor, Takes e c floor ∧ c.leaseUntil floor ≤ e.before.ledger.leaseFloor.getD 0

/-- The leases of a history end one after the other, and the floor does not fall. -/
structure LeasesOrdered (h : List ClaimEntry) : Prop where
  floor_le : ∀ e ∈ h, e.before.ledger.leaseFloor.getD 0 ≤ e.after.ledger.leaseFloor.getD 0
  later : h.Pairwise fun e e' => ∀ u u', Grants e u → Grants e' u' → u < u'

variable {P : Primitives} {L : Ledger} {S : Connections} {h : List ClaimEntry} {e : ClaimEntry}

/-- The two steps of a claim, one after the other, are the claim. -/
theorem claim_eq_steps (connection : ℕ) (scopeId owner : String) (now ttlSeconds : ℤ) :
    (exec (ClaimStep.act P) S [.readFloor connection,
        .claim connection (.outbox scopeId owner now ttlSeconds)]).2.ledger =
      ((claimOutbox scopeId owner now ttlSeconds).run S.ledger).2 := by
  simp only [exec, ClaimStep.act, Function.update_self, Claim.call, Call.act, Call.op, run_map]
  rfl

theorem claim_eq_steps_job (connection : ℕ) (scopeId jobId owner : String)
    (now ttlSeconds : ℤ) :
    (exec (ClaimStep.act P) S [.readFloor connection,
        .claim connection (.job scopeId jobId owner now ttlSeconds)]).2.ledger =
      ((claimJob scopeId jobId owner now ttlSeconds).run S.ledger).2 := by
  simp only [exec, ClaimStep.act, Function.update_self, Claim.call, Call.act, Call.op, run_map]
  rfl

/-! ### What a step does to the floor -/

/-- A claim that takes a job grants its lease, and leaves its end as the floor. -/
theorem Claim.act_of_some (P : Primitives) (floor : ℤ) {c : Claim} {job : Job}
    (httl : 0 < c.ttlSeconds) (hjob : c.job? L = some job) :
    (c.call floor).act P L = (.ok (.lease (some ⟨job.jobId, job.fence + 1, c.leaseUntil floor⟩)),
      L.grant job.jobId c.owner (c.leaseUntil floor)) := by
  cases c with
  | outbox scopeId owner now ttlSeconds =>
    have hrun : (claimOutboxFrom floor scopeId owner now ttlSeconds).run L =
        (.ok (some ⟨job.jobId, job.fence + 1, max now floor + ttlSeconds⟩),
          L.grant job.jobId owner (max now floor + ttlSeconds)) :=
      claimOutboxFrom_eq_ok.mpr ⟨httl, .inr ⟨job, hjob, rfl, rfl⟩⟩
    exact map_eq_ok.mpr ⟨_, hrun, rfl⟩
  | job scopeId jobId owner now ttlSeconds =>
    obtain ⟨hid, -⟩ : job.jobId = jobId ∧ job.scopeId = scopeId ∧ job.state = .pending := by
      simpa using List.find?_some hjob
    have hrun : (claimJobFrom floor scopeId jobId owner now ttlSeconds).run L =
        (.ok (some ⟨jobId, job.fence + 1, max now floor + ttlSeconds⟩),
          L.grant jobId owner (max now floor + ttlSeconds)) :=
      claimJobFrom_eq_ok.mpr ⟨httl, .inr ⟨job, hjob, rfl, rfl⟩⟩
    rw [hid]
    exact map_eq_ok.mpr ⟨_, hrun, rfl⟩

/-- A claim that takes no job grants nothing and writes nothing. -/
theorem Claim.act_of_not (P : Primitives) (floor : ℤ) {c : Claim}
    (hno : ¬(0 < c.ttlSeconds ∧ (c.job? L).isSome)) :
    (∀ lease, ((c.call floor).act P L).1 ≠ .ok (.lease (some lease))) ∧
      ((c.call floor).act P L).2 = L := by
  rcases hact : (c.call floor).act P L with ⟨e | reply, L'⟩
  · refine ⟨by simp, ?_⟩
    cases c with
    | outbox => exact Atomic.map (Atomic.bind (readOnly_raiseIf _ _) fun _ =>
        atomic_transaction _) hact
    | job => exact Atomic.map (Atomic.bind (readOnly_raiseIf _ _) fun _ =>
        atomic_transaction _) hact
  · cases c with
    | outbox scopeId owner now ttlSeconds =>
      obtain ⟨granted, hrun, rfl⟩ := map_eq_ok.mp hact
      obtain ⟨httl, ⟨-, rfl, rfl⟩ | ⟨job, hjob, -⟩⟩ := claimOutboxFrom_eq_ok.mp hrun
      · exact ⟨by simp, rfl⟩
      · exact absurd ⟨httl, by simp [Claim.job?, hjob]⟩ hno
    | job scopeId jobId owner now ttlSeconds =>
      obtain ⟨granted, hrun, rfl⟩ := map_eq_ok.mp hact
      obtain ⟨httl, ⟨-, rfl, rfl⟩ | ⟨job, hjob, -⟩⟩ := claimJobFrom_eq_ok.mp hrun
      · exact ⟨by simp, rfl⟩
      · exact absurd ⟨httl, by simp [Claim.job?, hjob]⟩ hno

/-- A settlement keeps the floor. -/
theorem keeps_leaseFloor_applyResult (state : JobState) (applied jobId owner : String)
    (fence usageUnits : ℤ) :
    Keeps Ledger.leaseFloor (applyResult state applied jobId owner fence usageUnits) := by
  refine Keeps.transaction (Keeps.bind (keeps_modify fun _ => rfl) fun _ =>
    Keeps.bind readOnly_get.keeps fun L => ?_)
  rcases L.job? jobId with _ | job
  · exact (readOnly_throw _).keeps
  · intro L'
    dsimp only
    split
    · rfl
    · rfl

/-- A call that is no claim grants nothing and keeps the floor. -/
theorem Call.act_of_not_claim (hL : L.UniqueJobs) {call : Call} (hcall : call.isClaim = false) :
    (∀ lease, (call.act P L).1 ≠ .ok (.lease lease)) ∧
      (call.act P L).2.leaseFloor = L.leaseFloor := by
  constructor
  · intro lease hreply
    rcases hact : call.act P L with ⟨reply, L'⟩
    rw [hact] at hreply
    subst hreply
    cases call with
    | claimOutbox | claimJob => exact absurd hcall (by simp [Call.isClaim])
    | _ =>
      obtain ⟨_, -, hlease⟩ := map_eq_ok.mp hact
      cases hlease
  · cases call with
    | claimOutbox | claimJob => exact absurd hcall (by simp [Call.isClaim])
    | submitResult | failJob =>
      rw [Call.act, Call.op, run_map]
      exact keeps_leaseFloor_applyResult _ _ _ _ _ _ L
    | recordUsage => rfl
    | finishOutbox | cancelJob | markJobUnknown | reconcileUnknown =>
      exact Call.act_of_onStates (fun _ _ => rfl) rfl L
    | _ => exact ((Call.effect_act hL _).keeps_floor_usage (by simp [Call.OnOutbox])).1

/-- **A step either takes a job**, grants its lease and leaves the end of it as the floor, **or
grants nothing** and keeps the floor. -/
theorem ClaimStep.perform_spec (hL : S.ledger.UniqueJobs) (step : ClaimStep) :
    (∃ c floor, Takes (Entry.perform (ClaimStep.act P) S step) c floor ∧
        Grants (Entry.perform (ClaimStep.act P) S step) (c.leaseUntil floor) ∧
        (step.act P S).2.ledger.leaseFloor = some (c.leaseUntil floor)) ∨
      ((∀ u, ¬Grants (Entry.perform (ClaimStep.act P) S step) u) ∧
        (∀ c floor, ¬Takes (Entry.perform (ClaimStep.act P) S step) c floor) ∧
        (step.act P S).2.ledger.leaseFloor = S.ledger.leaseFloor) := by
  cases step with
  | readFloor connection =>
    refine .inr ⟨?_, ?_, rfl⟩
    · rintro u ⟨lease, hreply, -⟩
      cases hreply
    · rintro c floor ⟨_, hop, -⟩
      cases hop
  | claim connection c =>
    rcases hfloor : S.floors connection with _ | floor
    · have hact : (ClaimStep.claim connection c).act P S = (.ok .done, S) := by
        simp only [ClaimStep.act, hfloor]
      refine .inr ⟨?_, ?_, by rw [hact]⟩
      · rintro u ⟨lease, hreply, -⟩
        rw [Entry.perform_reply, hact] at hreply
        cases hreply
      · rintro c' floor ⟨_, hop, hread, -⟩
        cases hop
        rw [Entry.perform_before, hfloor] at hread
        cases hread
    · have hact : (ClaimStep.claim connection c).act P S =
          (((c.call floor).act P S.ledger).1,
            ⟨((c.call floor).act P S.ledger).2, Function.update S.floors connection none⟩) := by
        simp only [ClaimStep.act, hfloor]
      by_cases htakes : 0 < c.ttlSeconds ∧ (c.job? S.ledger).isSome
      · obtain ⟨httl, hsome⟩ := htakes
        obtain ⟨job, hjob⟩ := Option.isSome_iff_exists.mp hsome
        have hcall := Claim.act_of_some P floor httl hjob
        have hreply : (Entry.perform (ClaimStep.act P) S (.claim connection c)).reply =
            .ok (.lease (some ⟨job.jobId, job.fence + 1, c.leaseUntil floor⟩)) := by
          rw [Entry.perform_reply, hact, hcall]
        refine .inl ⟨c, floor, ⟨connection, rfl, hfloor, httl, hsome⟩, ⟨_, hreply, rfl⟩, ?_⟩
        rw [hact, hcall]
        rfl
      · obtain ⟨hreply, hsame⟩ := Claim.act_of_not P floor htakes
        refine .inr ⟨?_, ?_, by rw [hact, hsame]⟩
        · rintro u ⟨lease, hgrant, -⟩
          rw [Entry.perform_reply, hact] at hgrant
          exact hreply lease hgrant
        · rintro c' floor' ⟨_, hop, -, httl, hsome⟩
          cases hop
          exact htakes ⟨httl, hsome⟩
  | other call =>
    obtain ⟨hreply, hsame⟩ := Call.act_of_not_claim (P := P) hL call.2
    refine .inr ⟨?_, ?_, hsame⟩
    · rintro u ⟨lease, hgrant, -⟩
      exact hreply _ hgrant
    · rintro c floor ⟨_, hop, -⟩
      cases hop

/-! ### Runs -/

/-- The ledger is well formed, and no floor is negative. -/
structure Connections.Sound (S : Connections) : Prop where
  wellFormed : S.ledger.WellFormed
  floor_nonneg : 0 ≤ S.ledger.leaseFloor.getD 0
  read_nonneg : ∀ connection floor, S.floors connection = some floor → 0 ≤ floor

namespace Connections.Sound

/-- On a floor that is not negative, a lease ends after 0. -/
theorem leaseUntil_pos (hS : S.Sound) (hbefore : e.before = S) {c : Claim} {floor : ℤ}
    (htakes : Takes e c floor) : 0 < c.leaseUntil floor := by
  obtain ⟨connection, -, hread, httl, -⟩ := htakes
  have hfloor : 0 ≤ floor := hS.read_nonneg connection floor (hbefore ▸ hread)
  have hmax : floor ≤ max c.now floor := le_max_right _ _
  rw [Claim.leaseUntil]
  omega

theorem act (hS : S.Sound) (step : ClaimStep) : (step.act P S).2.Sound := by
  have hfloor : 0 ≤ (step.act P S).2.ledger.leaseFloor.getD 0 := by
    rcases step.perform_spec (P := P) hS.wellFormed.job_ids with
      ⟨c, floor, htakes, -, hafter⟩ | ⟨-, -, hafter⟩
    · rw [hafter]
      exact (hS.leaseUntil_pos rfl htakes).le
    · rw [hafter]
      exact hS.floor_nonneg
  cases step with
  | readFloor connection =>
    refine ⟨hS.wellFormed, hfloor, fun i f hread => ?_⟩
    by_cases hi : i = connection
    · subst hi
      simp only [ClaimStep.act, Function.update_self, Option.some.injEq] at hread
      rw [← hread]
      exact hS.floor_nonneg
    · simp only [ClaimStep.act, Function.update_of_ne hi] at hread
      exact hS.read_nonneg i f hread
  | claim connection c =>
    rcases hconn : S.floors connection with _ | floor
    · simp only [ClaimStep.act, hconn]
      exact hS
    · simp only [ClaimStep.act, hconn] at hfloor ⊢
      refine ⟨hS.wellFormed.act _, hfloor, fun i f hread => ?_⟩
      by_cases hi : i = connection
      · subst hi
        simp at hread
      · simp only [Function.update_of_ne hi] at hread
        exact hS.read_nonneg i f hread
  | other call => exact ⟨hS.wellFormed.act _, hfloor, hS.read_nonneg⟩

end Connections.Sound

/-- Every state of a run is sound. -/
theorem sound_of_claims (hr : Run (ClaimStep.act P) {} h S) : S.Sound := by
  refine hr.inv_state ⟨.empty, le_rfl, ?_⟩ fun _ step hS => hS.act step
  intro _ _ hread
  cases hread

/-- The floor is the end of a lease that was granted before, once there is one. -/
theorem leaseFloor_granted (hr : Run (ClaimStep.act P) {} h S) :
    S.ledger.leaseFloor = none ∨ ∃ e ∈ h, ∃ u, Grants e u ∧ S.ledger.leaseFloor = some u := by
  refine hr.inv (I := fun h S => S.ledger.leaseFloor = none ∨
    ∃ e ∈ h, ∃ u, Grants e u ∧ S.ledger.leaseFloor = some u) (.inl rfl) ?_
  intro h S step hr ih
  rcases step.perform_spec (P := P) (sound_of_claims hr).wellFormed.job_ids with
    ⟨c, floor, -, hgrants, hafter⟩ | ⟨-, -, hafter⟩
  · exact .inr ⟨_, List.mem_concat_self, _, hgrants, hafter⟩
  · rw [hafter]
    rcases ih with hnone | ⟨e, he, u, hgrants, hfloor⟩
    · exact .inl hnone
    · exact .inr ⟨e, List.mem_append_left _ he, u, hgrants, hfloor⟩

theorem Grants.unique {u u' : ℤ} (hu : Grants e u) (hu' : Grants e u') : u = u' := by
  obtain ⟨lease, hreply, rfl⟩ := hu
  obtain ⟨lease', hreply', rfl⟩ := hu'
  rw [hreply] at hreply'
  cases hreply'
  rfl

/-- Claims that are not overtaken keep the leases in order, below the floor. -/
theorem leasesOrdered_of_not_overtaken (hr : Run (ClaimStep.act P) {} h S)
    (hno : ∀ e ∈ h, ¬Overtaken e) :
    LeasesOrdered h ∧ ∀ e ∈ h, ∀ u, Grants e u → u ≤ S.ledger.leaseFloor.getD 0 := by
  revert hno
  refine hr.inv (I := fun h S => (∀ e ∈ h, ¬Overtaken e) → LeasesOrdered h ∧
    ∀ e ∈ h, ∀ u, Grants e u → u ≤ S.ledger.leaseFloor.getD 0)
    (fun _ => ⟨⟨by simp, .nil⟩, by simp⟩) ?_
  intro h S step hr ih hno
  rw [List.forall_mem_append, List.forall_mem_singleton] at hno
  obtain ⟨⟨hfloors, hpairs⟩, hbelow⟩ := ih hno.1
  rcases step.perform_spec (P := P) (sound_of_claims hr).wellFormed.job_ids with
    ⟨c, floor, htakes, hgrants, hafter⟩ | ⟨hnone, -, hafter⟩
  · have hpast : S.ledger.leaseFloor.getD 0 < c.leaseUntil floor := by
      by_contra! hle
      exact hno.2 ⟨c, floor, htakes, hle⟩
    refine ⟨⟨?_, ?_⟩, ?_⟩
    · rw [List.forall_mem_append, List.forall_mem_singleton]
      refine ⟨hfloors, ?_⟩
      rw [Entry.perform_after, hafter]
      exact hpast.le
    · rw [List.pairwise_append]
      refine ⟨hpairs, List.pairwise_singleton _ _, fun e he e' he' u u' hu hu' => ?_⟩
      obtain rfl := List.mem_singleton.mp he'
      rw [hu'.unique hgrants]
      exact (hbelow e he u hu).trans_lt hpast
    · rw [hafter, List.forall_mem_append, List.forall_mem_singleton]
      refine ⟨fun e he u hu => (hbelow e he u hu).trans hpast.le, fun u hu => ?_⟩
      exact (hu.unique hgrants).le
  · refine ⟨⟨?_, ?_⟩, ?_⟩
    · rw [List.forall_mem_append, List.forall_mem_singleton]
      refine ⟨hfloors, ?_⟩
      rw [Entry.perform_after, hafter]
      exact le_rfl
    · rw [List.pairwise_append]
      refine ⟨hpairs, List.pairwise_singleton _ _, fun e he e' he' u u' hu hu' => ?_⟩
      obtain rfl := List.mem_singleton.mp he'
      exact absurd hu' (hnone u')
    · rw [hafter, List.forall_mem_append, List.forall_mem_singleton]
      exact ⟨hbelow, fun u hu => absurd hu (hnone u)⟩

/-- A claim on the floor the ledger still has is not overtaken, whatever its clock. -/
theorem Claim.not_overtaken_of_current
    (hcurrent : ∀ connection c floor, e.op = .claim connection c →
      e.before.floors connection = some floor → floor = e.before.ledger.leaseFloor.getD 0) :
    ¬Overtaken e := by
  rintro ⟨c, floor, ⟨connection, hop, hread, httl, -⟩, hle⟩
  have hfloor := hcurrent connection c floor hop hread
  have hmax : floor ≤ max c.now floor := le_max_right _ _
  rw [Claim.leaseUntil, ← hfloor] at hle
  omega

/-- Two jobs of one scope, and the floors that two connections read before either claims. -/
def twoClaims : List ClaimStep :=
  [.other ⟨.registerScope "acme" "ada" "lab", rfl⟩,
    .other ⟨.createStream acmeScope "s" "task", rfl⟩,
    .other ⟨.executeCommand { adaPlans 0 with enqueue := true }, rfl⟩,
    .other ⟨.executeCommand { adaPlans 1 with enqueue := true, idempotencyKey := "k2" }, rfl⟩,
    .readFloor 0, .readFloor 1]

/-- Worker `a` claims for 300 seconds. -/
def longClaim : ClaimStep := .claim 0 (.outbox acmeScope "worker-a" 0 300)

/-- Worker `b` claims for 10. -/
def shortClaim : ClaimStep := .claim 1 (.outbox acmeScope "worker-b" 0 10)

end CyranoAgent
