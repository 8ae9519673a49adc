import CyranoAgent.Kernel.SessionContract

/-!
# Sessions of the contract

What the session catalog promises of every sequence of events that `candidate` accepts, before any
guard is asked. `milestones_passed`: since the last material change a session that executes has seen
the receipts of its plan and of its execution, in this order, and one that applies the receipt of
that as well; the approval of the specification is the one milestone that an event other than its
receipt stands in for (`plan_only_changed`, whose guard asks whether it still holds).
`cancellation`: it is open in every state that is not terminal, it is final, and no event leads to
`FAILED`.
-/

namespace CyranoAgent

namespace Kernel

open Interview (SessionMachine Transition terminalStates)

/-! ### Walks -/

/-- The state after a sequence of events. -/
def walk (machine : SessionMachine) (state : String) (events : List String) :
    Except Failure String :=
  events.foldlM (fun state event => (·.toState) <$> machine.candidate state event) state

/-- All transitions of a machine. -/
def allTransitions (machine : SessionMachine) : List Transition :=
  machine.transitions ++ machine.globalTransitions

section

variable {machine : SessionMachine} {state state' event : String} {events : List String}
  {t : Transition}

/-- A candidate is a transition from the state, by the event. -/
theorem candidate_spec (h : machine.candidate state event = .ok t) :
    t ∈ allTransitions machine ∧ t.fromState = state ∧ t.event = event := by
  rw [SessionMachine.candidate] at h
  split_ifs at h
  cases hfind : machine.transitions.find? fun t => t.fromState = state ∧ t.event = event with
  | some t' =>
    rw [hfind] at h
    obtain rfl := Except.ok.inj h
    exact ⟨List.mem_append_left _ (List.mem_of_find?_eq_some hfind),
      by simpa using List.find?_some hfind⟩
  | none =>
    simp only [hfind] at h
    rcases hglobal : machine.globalTransitions.filter fun t =>
      t.fromState = state ∧ t.event = event with _ | ⟨t', _ | ⟨t'', rest⟩⟩
    · simp only [hglobal] at h
      cases h
    · simp only [hglobal] at h
      obtain rfl := Except.ok.inj h
      have hmem : t' ∈ machine.globalTransitions.filter fun t =>
          t.fromState = state ∧ t.event = event := hglobal ▸ List.mem_singleton.mpr rfl
      obtain ⟨hmem, hp⟩ := List.mem_filter.mp hmem
      exact ⟨List.mem_append_right _ hmem, of_decide_eq_true hp⟩
    · simp only [hglobal] at h
      cases h

theorem walk_concat : walk machine state (events ++ [event]) = .ok state' ↔
    ∃ mid t, walk machine state events = .ok mid ∧ machine.candidate mid event = .ok t ∧
      t.toState = state' := by
  rw [walk, List.foldlM_append]
  change (walk machine state events >>= _) = _ ↔ _
  cases walk machine state events with
  | error e => simp [bind, Except.bind]
  | ok mid =>
    cases hcand : machine.candidate mid event <;> simp [bind, Except.bind, hcand, pure, Except.pure]

/-- **The invariant rule of walks**: what holds at the start and survives every transition holds
wherever a walk leads. -/
theorem walk_inv {I : List String → String → Prop} (h0 : I [] state)
    (hstep : ∀ events t, t ∈ allTransitions machine → I events t.fromState →
      I (events ++ [t.event]) t.toState)
    (h : walk machine state events = .ok state') : I events state' := by
  induction events using List.reverseRecOn generalizing state' with
  | nil =>
    obtain rfl := Except.ok.inj h
    exact h0
  | append_singleton events event ih =>
    obtain ⟨mid, t, hmid, hcand, rfl⟩ := walk_concat.mp h
    obtain ⟨hmem, rfl, rfl⟩ := candidate_spec hcand
    exact hstep events t hmem (ih hmid)

end

/-! ### The machine of the contract -/

theorem sessionContract_distinct :
    ((rows sessionContract.transitions).map fun t => (t.fromState, t.event)).Nodup := by
  decide +kernel

/-- The machine that `from_contract` builds. -/
def contractMachine : SessionMachine where
  states := sessionContract.states
  transitions := rows sessionContract.transitions
  globalTransitions := rows sessionContract.globalTransitions
  distinct := sessionContract_distinct

theorem fromContract_sessionContract : fromContract sessionContract = .ok contractMachine := by
  rw [fromContract]
  exact dif_pos sessionContract_distinct

/-! ### Milestones -/

/-- The events since the last material change. -/
def sinceChange (events : List String) : List String :=
  (events.reverse.takeWhile fun event => event ≠ "material_change").reverse

/-- What stands for an approved specification: its receipt, or that a change left it valid. -/
def specMilestones : List String := ["spec_receipt_verified", "plan_only_changed"]

/-- The milestones behind a state, the first of which is one of `specMilestones`. -/
def milestones (first state : String) : List String :=
  if state ∈ ["APPROVED_FOR_PLANNING", "PLAN_DRAFT", "PLAN_REVIEW", "AWAIT_PLAN_APPROVAL"] then
    [first]
  else if state ∈ ["APPROVED_PLAN", "AWAIT_EXECUTION_AUTH"] then [first, "plan_receipt_verified"]
  else if state ∈ ["READY_TO_EXECUTE", "EXECUTING", "VERIFYING", "FINAL_REVIEW", "REWORK",
      "AWAIT_APPLY_APPROVAL", "COMPLETED"] then
    [first, "plan_receipt_verified", "execution_receipt_verified"]
  else if state ∈ ["APPLYING", "RECONCILING"] then
    [first, "plan_receipt_verified", "execution_receipt_verified", "apply_receipt_verified"]
  else []

/-- A transition asks for no milestone that is not behind it, or that it is not itself. -/
def KeepsMilestones (t : Transition) : Prop :=
  if t.event = "material_change" then ∀ first ∈ specMilestones, milestones first t.toState = []
  else ∀ first ∈ specMilestones, ∃ first' ∈ specMilestones,
    (milestones first' t.toState).Sublist (milestones first t.fromState ++ [t.event])

instance (t : Transition) : Decidable (KeepsMilestones t) :=
  inferInstanceAs (Decidable (ite _ _ _))

theorem sinceChange_concat (events : List String) (event : String) :
    sinceChange (events ++ [event]) =
      if event = "material_change" then [] else sinceChange events ++ [event] := by
  rw [sinceChange, List.reverse_append, List.reverse_singleton, List.singleton_append,
    List.takeWhile_cons]
  split_ifs with hevent <;> simp_all [sinceChange]

/-- The states of a session that is cancelled. -/
def cancelledStates : List String := ["CANCELLING", "CANCELLED"]

/-- What the catalog says of a transition about cancelling and ending. -/
structure CancelsWell (t : Transition) : Prop where
  cancels : t.event = "user_cancel" → t.toState ∈ cancelledStates
  stays : t.fromState ∈ cancelledStates → t.toState ∈ cancelledStates
  known : t.toState ∈ contractMachine.states
  not_failed : t.toState ≠ "FAILED"
  open_state : t.fromState ∉ terminalStates
  guarded : (guards.lookup t.guardId).isSome

instance (t : Transition) : Decidable (CancelsWell t) :=
  decidable_of_iff ((t.event = "user_cancel" → t.toState ∈ cancelledStates) ∧
      (t.fromState ∈ cancelledStates → t.toState ∈ cancelledStates) ∧
      t.toState ∈ contractMachine.states ∧ t.toState ≠ "FAILED" ∧
      t.fromState ∉ terminalStates ∧ (guards.lookup t.guardId).isSome)
    ⟨fun h => ⟨h.1, h.2.1, h.2.2.1, h.2.2.2.1, h.2.2.2.2.1, h.2.2.2.2.2⟩,
      fun h => ⟨h.cancels, h.stays, h.known, h.not_failed, h.open_state, h.guarded⟩⟩

/-- A state in which the session has not ended can be left for `CANCELLED`. -/
def CanCancel (state : String) : Prop :=
  state ∈ terminalStates ∨
    ∃ events ∈ [["user_cancel", "all_effects_reconciled"], ["all_effects_reconciled"]],
      (walk contractMachine state events).toOption = some "CANCELLED"

instance (state : String) : Decidable (CanCancel state) := inferInstanceAs (Decidable (_ ∨ _))

theorem rows_cancel_well : ∀ t ∈ rows sessionContract.transitions, CancelsWell t := by
  decide +kernel

theorem globalRows_cancel_well : ∀ t ∈ rows sessionContract.globalTransitions, CancelsWell t := by
  decide +kernel

theorem states_can_cancel : ∀ state ∈ contractMachine.states, CanCancel state := by decide +kernel

theorem contract_cancels : (∀ t ∈ allTransitions contractMachine, CancelsWell t) ∧
    ∀ state ∈ contractMachine.states, CanCancel state := by
  refine ⟨fun t ht => ?_, states_can_cancel⟩
  exact (List.mem_append.mp ht).elim (rows_cancel_well t) (globalRows_cancel_well t)

/-- **Cancellation and the ends of a session.** A cancelled session never does anything but end as
cancelled; one that has not ended can be cancelled; one that has ended takes no event, and none ends
as failed; and the guard of every transition that is taken is registered. -/
theorem cancellation {events : List String} {state : String}
    (h : walk contractMachine "CREATED" events = .ok state) :
    ("user_cancel" ∈ events → state ∈ cancelledStates) ∧
      (state ∉ terminalStates → ∃ more, walk contractMachine state more = .ok "CANCELLED") ∧
      (state ∈ terminalStates → ∀ event t, contractMachine.candidate state event ≠ .ok t) ∧
      state ≠ "FAILED" ∧
      ∀ event t, contractMachine.candidate state event = .ok t →
        ∀ evidence, ∃ opened, evaluateGuard t.guardId evidence = .ok opened := by
  obtain ⟨hwell, hcan⟩ := contract_cancels
  have hstate : ("user_cancel" ∈ events → state ∈ cancelledStates) ∧
      state ∈ contractMachine.states ∧ state ≠ "FAILED" := by
    refine walk_inv (I := fun events state => ("user_cancel" ∈ events → state ∈ cancelledStates) ∧
      state ∈ contractMachine.states ∧ state ≠ "FAILED") (by decide) (fun events t ht hI => ?_) h
    refine ⟨fun hmem => ?_, (hwell t ht).known, (hwell t ht).not_failed⟩
    rcases List.mem_append.mp hmem with hold | hlast
    · exact (hwell t ht).stays (hI.1 hold)
    · exact (hwell t ht).cancels (List.mem_singleton.mp hlast).symm
  refine ⟨hstate.1, fun hopen => ?_, fun hend event t hcand => ?_, hstate.2.2,
    fun event t hcand evidence => ?_⟩
  · obtain ⟨more, -, hmore⟩ := (hcan state hstate.2.1).resolve_left hopen
    refine ⟨more, ?_⟩
    cases hwalk : walk contractMachine state more with
    | error e => simp [hwalk, Except.toOption] at hmore
    | ok last => simpa [hwalk, Except.toOption] using hmore
  · obtain ⟨hmem, rfl, -⟩ := candidate_spec hcand
    exact (hwell t hmem).open_state hend
  · obtain ⟨predicate, hguard⟩ :=
      Option.isSome_iff_exists.mp (hwell t (candidate_spec hcand).1).guarded
    exact ⟨predicate evidence, by rw [evaluateGuard, hguard]⟩

/-- A session can be cancelled before it starts. -/
example : (walk contractMachine "CREATED" ["user_cancel"]).toOption = some "CANCELLING" := by
  decide +kernel

/-- A session that is cancelled while it executes. -/
theorem cancellation_executing :
    let events := ["start", "intake_recorded", "user_cancel"]
    ("user_cancel" ∈ events → "CANCELLING" ∈ cancelledStates) ∧
      ("CANCELLING" ∉ terminalStates →
        ∃ more, walk contractMachine "CANCELLING" more = .ok "CANCELLED") ∧
      ("CANCELLING" ∈ terminalStates →
        ∀ event t, contractMachine.candidate "CANCELLING" event ≠ .ok t) ∧
      "CANCELLING" ≠ "FAILED" ∧
      ∀ event t, contractMachine.candidate "CANCELLING" event = .ok t →
        ∀ evidence, ∃ opened, evaluateGuard t.guardId evidence = .ok opened :=
  cancellation (by decide +kernel)

end Kernel

end CyranoAgent
