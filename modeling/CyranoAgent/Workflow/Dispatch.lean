import CyranoAgent.Lib.Dict
import CyranoAgent.Workflow.Service

/-!
# The dispatcher

The `Dispatcher` leases the units of a plan to workers: a unit that is ready and permitted, and
whose write paths are free. `act_cases` says what a call can do, and `Leasing` is what every run
keeps of the live leases. A reservation looks at the first ready and permitted unit only, so it can
refuse work that is there: `dispatches_iff` says of which runs the whole specification holds.
-/

namespace CyranoAgent

open Lib Planning

/-- `ExecutionPermit`, with the units it covers. -/
structure UnitPermit extends ExecutionPermit where
  approvedUnits : List String

/-- `_Lease`. -/
structure UnitLease where
  unitId : String
  workerId : String
  fence : ℤ
  writePaths : List String

/-- `Dispatcher`: the live leases by unit, and the last fence. -/
structure Dispatcher where
  leases : Dict String UnitLease := ∅
  fence : ℤ := 0

namespace Dispatcher

/-- The lease and the unit write to a common path. -/
def Overlaps (lease : UnitLease) (unit : WorkUnitSpec) : Prop :=
  ∃ path ∈ lease.writePaths, path ∈ unit.writePaths

instance (lease : UnitLease) (unit : WorkUnitSpec) : Decidable (Overlaps lease unit) :=
  inferInstanceAs (Decidable (∃ path ∈ lease.writePaths, path ∈ unit.writePaths))

/-- The units of the live leases that a unit overlaps with. -/
def overlap (D : Dispatcher) (unit : WorkUnitSpec) : List String :=
  (D.leases.values.filter fun lease => Overlaps lease unit).map (·.unitId)

section

variable (reprText : String → String)

/-- The loop over the units of a plan. -/
def findReady (D : Dispatcher) (permit : UnitPermit) (done failed : List String) :
    List WorkUnitSpec → Except Failure WorkUnitSpec
  | [] => .error (.cyrano "NO_READY_WORK" "no unit is dispatchable")
  | unit :: units =>
    if unit.unitId ∈ done ∨ unit.unitId ∈ D.leases.keys then findReady D permit done failed units
    else if ∃ dep ∈ unit.dependencies, dep ∈ failed then findReady D permit done failed units
    else if ¬ unit.dependencies ⊆ done then findReady D permit done failed units
    else if unit.unitId ∉ permit.approvedUnits then findReady D permit done failed units
    else if D.overlap unit ≠ [] then
      .error (.cyrano "RESOURCE_CONFLICT" (unit.unitId ++ " write-set overlaps " ++
        reprStrings reprText (D.overlap unit)))
    else .ok unit

/-- The dispatcher with a unit leased under the next fence. -/
def lease (D : Dispatcher) (unit : WorkUnitSpec) (workerId : String) : Dispatcher where
  leases := D.leases.set unit.unitId ⟨unit.unitId, workerId, D.fence + 1, unit.writePaths⟩
  fence := D.fence + 1

/-- `reserve_ready_work`. -/
def reserveReadyWork (plan : GovernedWorkPlan) (permit : UnitPermit) (workerId : String)
    (completed failed : Option (List String)) (D : Dispatcher) :
    Except Failure (String × ℤ) × Dispatcher :=
  match findReady reprText D permit (completed.getD []) (failed.getD []) plan.units with
  | .error e => (.error e, D)
  | .ok unit => (.ok (unit.unitId, D.fence + 1), D.lease unit workerId)

end

/-- `release`. -/
def release (unitId workerId : String) (fence : ℤ) (D : Dispatcher) :
    Except Failure Unit × Dispatcher :=
  match D.leases.get? unitId with
  | none => (.error (.cyrano "LEASE_LOST" ("no live lease " ++ unitId)), D)
  | some lease =>
    if lease.workerId ≠ workerId ∨ lease.fence ≠ fence then
      (.error (.cyrano "LEASE_LOST" ("no live lease " ++ unitId)), D)
    else (.ok (), { D with leases := D.leases.erase unitId })

end Dispatcher

/-- The calls on a dispatcher. -/
inductive DispatchCall
  | reserve (plan : GovernedWorkPlan) (permit : UnitPermit) (workerId : String)
      (completed failed : Option (List String))
  | release (unitId workerId : String) (fence : ℤ)

/-- Perform a call: a reservation returns the unit and its fence. -/
def DispatchCall.act (reprText : String → String) (call : DispatchCall) (D : Dispatcher) :
    Except Failure (Option (String × ℤ)) × Dispatcher :=
  match call with
  | .reserve plan permit workerId completed failed =>
    (D.reserveReadyWork reprText plan permit workerId completed failed).map (·.map some) id
  | .release unitId workerId fence => (D.release unitId workerId fence).map (·.map fun _ => none) id

/-- One call of a history of the dispatcher. -/
abbrev DispatchEntry := Entry Dispatcher DispatchCall (Except Failure (Option (String × ℤ)))

namespace Dispatcher

/-! ### What a call does -/

section

variable {reprText : String → String} {D D' : Dispatcher} {permit : UnitPermit}
  {done failed : List String} {unit : WorkUnitSpec} {units : List WorkUnitSpec}

/-- A unit is ready and permitted: neither completed nor leased, its dependencies are completed and
none of them failed, and the permit covers it. -/
def Candidate (D : Dispatcher) (permit : UnitPermit) (done failed : List String)
    (unit : WorkUnitSpec) : Prop :=
  (unit.unitId ∉ done ∧ unit.unitId ∉ D.leases.keys) ∧ (∀ dep ∈ unit.dependencies, dep ∉ failed) ∧
    unit.dependencies ⊆ done ∧ unit.unitId ∈ permit.approvedUnits

instance : DecidablePred (Candidate D permit done failed) := fun unit =>
  inferInstanceAs (Decidable ((unit.unitId ∉ done ∧ unit.unitId ∉ D.leases.keys) ∧
    (∀ dep ∈ unit.dependencies, dep ∉ failed) ∧ unit.dependencies ⊆ done ∧
      unit.unitId ∈ permit.approvedUnits))

/-- A unit writes to no path of a live lease. -/
def Free (D : Dispatcher) (unit : WorkUnitSpec) : Prop :=
  ∀ lease ∈ D.leases.values, ¬ Overlaps lease unit

instance : Decidable (D.Free unit) :=
  inferInstanceAs (Decidable (∀ lease ∈ D.leases.values, ¬ Overlaps lease unit))

theorem overlap_eq_nil_iff : D.overlap unit = [] ↔ D.Free unit := by
  rw [overlap, List.map_eq_nil_iff, List.filter_eq_nil_iff, Free]
  simp

/-- **A reservation looks at the first candidate.** -/
theorem findReady_eq (reprText : String → String) (units : List WorkUnitSpec) :
    findReady reprText D permit done failed units =
      match units.find? fun unit => Candidate D permit done failed unit with
      | none => .error (.cyrano "NO_READY_WORK" "no unit is dispatchable")
      | some unit =>
        if D.overlap unit ≠ [] then
          .error (.cyrano "RESOURCE_CONFLICT" (unit.unitId ++ " write-set overlaps " ++
            reprStrings reprText (D.overlap unit)))
        else .ok unit := by
  induction units with
  | nil => rfl
  | cons unit units ih =>
    rw [List.find?_cons]
    by_cases hcandidate : Candidate D permit done failed unit
    · have ⟨hnew, hsound, hdeps, happroved⟩ := hcandidate
      have hblocked : ¬ ∃ dep ∈ unit.dependencies, dep ∈ failed :=
        fun ⟨dep, hdep, hfailed⟩ => hsound dep hdep hfailed
      rw [decide_eq_true hcandidate, findReady, if_neg (not_or.mpr hnew), if_neg hblocked,
        if_neg (not_not.mpr hdeps), if_neg (not_not.mpr happroved)]
    · rw [decide_eq_false hcandidate, findReady]
      dsimp only
      rw [← ih]
      split
      next => rfl
      next hnew =>
        split
        next => rfl
        next hsound =>
          split
          next => rfl
          next hdeps =>
            rw [if_pos fun happroved => hcandidate ⟨not_or.mp hnew,
              fun dep hdep hfailed => hsound ⟨dep, hdep, hfailed⟩, not_not.mp hdeps, happroved⟩]

/-- What a reservation can do: lease the first candidate when it is free, or raise. -/
theorem reserveReadyWork_cases (reprText : String → String) (plan : GovernedWorkPlan)
    (permit : UnitPermit) (workerId : String) (completed failed : Option (List String))
    (D : Dispatcher) :
    (∃ unit, plan.units.find? (Candidate D permit (completed.getD []) (failed.getD []) ·) =
        some unit ∧ D.Free unit ∧
      D.reserveReadyWork reprText plan permit workerId completed failed =
        (.ok (unit.unitId, D.fence + 1), D.lease unit workerId)) ∨
    (∃ unit message, plan.units.find?
        (Candidate D permit (completed.getD []) (failed.getD []) ·) = some unit ∧ ¬ D.Free unit ∧
      D.reserveReadyWork reprText plan permit workerId completed failed =
        (.error (.cyrano "RESOURCE_CONFLICT" message), D)) ∨
    (plan.units.find? (Candidate D permit (completed.getD []) (failed.getD []) ·) = none ∧
      D.reserveReadyWork reprText plan permit workerId completed failed =
        (.error (.cyrano "NO_READY_WORK" "no unit is dispatchable"), D)) := by
  rw [reserveReadyWork, findReady_eq]
  rcases hfind : plan.units.find? (Candidate D permit (completed.getD []) (failed.getD []) ·) with
    _ | unit
  · exact .inr (.inr ⟨rfl, rfl⟩)
  · dsimp only
    by_cases hfree : D.Free unit
    · rw [if_neg (not_not.mpr (overlap_eq_nil_iff.mpr hfree))]
      exact .inl ⟨unit, rfl, hfree, rfl⟩
    · rw [if_pos (mt overlap_eq_nil_iff.mp hfree)]
      exact .inr (.inl ⟨unit, _, rfl, hfree, rfl⟩)

/-- What a release can do: end the lease of this worker and fence, or raise. -/
theorem release_cases (unitId workerId : String) (fence : ℤ) (D : Dispatcher) :
    (∃ lease, D.leases.get? unitId = some lease ∧ lease.workerId = workerId ∧
        lease.fence = fence ∧
      D.release unitId workerId fence = (.ok (), { D with leases := D.leases.erase unitId })) ∨
    D.release unitId workerId fence =
      (.error (.cyrano "LEASE_LOST" ("no live lease " ++ unitId)), D) := by
  rw [release]
  rcases D.leases.get? unitId with _ | lease
  · exact .inr rfl
  · dsimp only
    split
    next => exact .inr rfl
    next hmatch =>
      obtain ⟨hworker, hfence⟩ := not_or.mp hmatch
      exact .inl ⟨lease, rfl, not_not.mp hworker, not_not.mp hfence, rfl⟩

end

/-! ### Runs -/

/-- A call made this lease: the permit covers the unit, whose dependencies are completed and none of
them failed. -/
def Grants (e : DispatchEntry) (lease : UnitLease) : Prop :=
  ∃ plan permit completed failed,
    e.op = .reserve plan permit lease.workerId completed failed ∧
      e.reply = .ok (some (lease.unitId, lease.fence)) ∧
      ∃ unit ∈ plan.units, unit.unitId = lease.unitId ∧ unit.writePaths = lease.writePaths ∧
        unit.unitId ∈ permit.approvedUnits ∧ unit.dependencies ⊆ completed.getD [] ∧
          ∀ dep ∈ unit.dependencies, dep ∉ failed.getD []

/-- The leases of different units, paths and fences. -/
def Apart (a b : UnitLease) : Prop :=
  a.unitId ≠ b.unitId ∧ a.writePaths.Disjoint b.writePaths ∧ a.fence ≠ b.fence

/-- The fence of a reply. -/
def fenceOf : Except Failure (Option (String × ℤ)) → Option ℤ
  | .ok (some (_, fence)) => some fence
  | _ => none

/-- The fences that a history handed out. -/
def fences (h : List DispatchEntry) : List ℤ := h.filterMap fun e => fenceOf e.reply

/-- A release of this call ends the lease of its worker and fence, if it does anything. -/
def Releases (e : DispatchEntry) : Prop :=
  ∀ unitId workerId fence, e.op = .release unitId workerId fence → e.after = e.before ∨
    ∃ lease, e.before.leases.get? unitId = some lease ∧ lease.workerId = workerId ∧
      lease.fence = fence ∧
      e.after = { e.before with leases := e.before.leases.erase unitId }

/-- A call that raises changes nothing. -/
def Raises (e : DispatchEntry) : Prop := ∀ error, e.reply = .error error → e.after = e.before

/-- A reservation raises a conflict only when every ready and permitted unit of the plan has one. -/
def ConflictsOnly (e : DispatchEntry) : Prop :=
  ∀ plan permit workerId completed failed message,
    e.op = .reserve plan permit workerId completed failed →
    e.reply = .error (.cyrano "RESOURCE_CONFLICT" message) → ∀ unit ∈ plan.units,
      Candidate e.before permit (completed.getD []) (failed.getD []) unit → ¬ e.before.Free unit

/-- The specification of a run of the dispatcher. -/
structure Dispatches (h : List DispatchEntry) (D : Dispatcher) : Prop where
  apart : D.leases.values.Pairwise Apart
  granted : ∀ lease ∈ D.leases.values, ∃ e ∈ h, Grants e lease
  increasing : (fences h).Pairwise (· < ·)
  releases : ∀ e ∈ h, Releases e
  raises : ∀ e ∈ h, Raises e
  conflicts : ∀ e ∈ h, ConflictsOnly e

/-- When some ready and permitted unit is free, the first one of the plan is. -/
def FirstFree (e : DispatchEntry) : Prop :=
  ∀ plan permit workerId completed failed first,
    e.op = .reserve plan permit workerId completed failed →
    plan.units.find? (Candidate e.before permit (completed.getD []) (failed.getD []) ·) =
      some first →
    (∃ unit ∈ plan.units, Candidate e.before permit (completed.getD []) (failed.getD []) unit ∧
      e.before.Free unit) → e.before.Free first

section

variable {reprText : String → String} {D : Dispatcher} {h : List DispatchEntry}
  {e : DispatchEntry}

/-- **When a refusal is justified**: the first candidate is the only one it looks at. -/
theorem conflictsOnly_iff (he : e = Entry.perform (DispatchCall.act reprText) e.before e.op) :
    ConflictsOnly e ↔ FirstFree e := by
  have hreply : e.reply = (e.op.act reprText e.before).1 := congrArg Entry.reply he
  constructor
  · rintro hconflicts plan permit workerId completed failed first hop hfirst
      ⟨unit, hunit, hcandidate, hfree⟩
    by_contra hbusy
    rcases reserveReadyWork_cases reprText plan permit workerId completed failed e.before with
      ⟨other, hother, hotherFree, -⟩ | ⟨-, message, -, -, hrun⟩ | ⟨hnone, -⟩
    · obtain rfl : first = other := Option.some.inj (hfirst.symm.trans hother)
      exact hbusy hotherFree
    · rw [hop, DispatchCall.act, hrun] at hreply
      exact hconflicts plan permit workerId completed failed message hop hreply unit hunit
        hcandidate hfree
    · cases hfirst.symm.trans hnone
  · rintro hfirstFree plan permit workerId completed failed message hop herror unit hunit
      hcandidate hfree
    rw [hop, DispatchCall.act, herror] at hreply
    rcases reserveReadyWork_cases reprText plan permit workerId completed failed e.before with
      ⟨_, -, -, hrun⟩ | ⟨first, _, hfirst, hbusy, -⟩ | ⟨-, hrun⟩
    · rw [hrun] at hreply
      cases hreply
    · exact hbusy (hfirstFree plan permit workerId completed failed first hop hfirst
        ⟨unit, hunit, hcandidate, hfree⟩)
    · rw [hrun] at hreply
      injection hreply with hcode
      injection hcode with hcode
      exact absurd hcode (by decide)

/-- What every run keeps: the leases are under their units, apart, granted and not newer than the
last fence, and so are the fences handed out. -/
structure Leasing (h : List DispatchEntry) (D : Dispatcher) : Prop where
  keyed : ∀ entry ∈ D.leases.entries, entry.2.unitId = entry.1
  apart : D.leases.values.Pairwise Apart
  granted : ∀ lease ∈ D.leases.values, ∃ e ∈ h, Grants e lease
  increasing : (fences h).Pairwise (· < ·)
  issued : ∀ lease ∈ D.leases.values, lease.fence ≤ D.fence
  bounded : ∀ fence ∈ fences h, fence ≤ D.fence

theorem leasing_nil : Leasing [] {} :=
  ⟨nofun, .nil, nofun, .nil, nofun, nofun⟩

theorem fences_concat : fences (h ++ [e]) = fences h ++ (fenceOf e.reply).toList := by
  rw [fences, List.filterMap_append]
  rcases hfence : fenceOf e.reply with _ | fence <;> simp [fences, hfence]

/-- A call that raises keeps the leases. -/
theorem Leasing.raise (hD : Leasing h D) (hreply : fenceOf e.reply = none) :
    Leasing (h ++ [e]) D := by
  have hfences : fences (h ++ [e]) = fences h := by simp [fences_concat, hreply]
  refine ⟨hD.keyed, hD.apart, fun lease hlease => ?_, hfences ▸ hD.increasing, hD.issued,
    hfences ▸ hD.bounded⟩
  obtain ⟨e', he', hgrants⟩ := hD.granted lease hlease
  exact ⟨e', List.mem_append_left _ he', hgrants⟩

/-- Fewer leases are no worse. -/
theorem Leasing.erase (hD : Leasing h D) (unitId : String) :
    Leasing h { D with leases := D.leases.erase unitId } := by
  have hsublist : (D.leases.erase unitId).entries.Sublist D.leases.entries := List.filter_sublist
  have hvalues : (D.leases.erase unitId).values.Sublist D.leases.values := hsublist.map _
  exact ⟨fun entry hentry => hD.keyed entry (hsublist.subset hentry), hD.apart.sublist hvalues,
    fun lease hlease => hD.granted lease (hvalues.subset hlease), hD.increasing,
    fun lease hlease => hD.issued lease (hvalues.subset hlease), hD.bounded⟩

/-- A free candidate is leased apart from the others. -/
theorem Leasing.lease {plan : GovernedWorkPlan} {permit : UnitPermit} {workerId : String}
    {completed failed : Option (List String)} {unit : WorkUnitSpec} (hD : Leasing h D)
    (hop : e.op = .reserve plan permit workerId completed failed)
    (hreply : e.reply = .ok (some (unit.unitId, D.fence + 1))) (hunit : unit ∈ plan.units)
    (hcandidate : Candidate D permit (completed.getD []) (failed.getD []) unit)
    (hfree : D.Free unit) : Leasing (h ++ [e]) (D.lease unit workerId) := by
  obtain ⟨⟨-, hnew⟩, hsound, hdeps, happroved⟩ := hcandidate
  let new : UnitLease := ⟨unit.unitId, workerId, D.fence + 1, unit.writePaths⟩
  have hentries : (D.lease unit workerId).leases.entries =
      D.leases.entries ++ [(unit.unitId, new)] := Dict.entries_set_of_not_mem hnew
  have hvalues : (D.lease unit workerId).leases.values = D.leases.values ++ [new] := by
    rw [Dict.values, hentries, List.map_append]
    rfl
  have hfences : fences (h ++ [e]) = fences h ++ [D.fence + 1] := by
    rw [fences_concat, hreply]
    rfl
  refine ⟨?_, ?_, ?_, ?_, ?_, ?_⟩
  · rw [hentries]
    exact List.forall_mem_append.mpr ⟨hD.keyed, List.forall_mem_singleton.mpr rfl⟩
  · rw [hvalues]
    refine List.pairwise_append.mpr ⟨hD.apart, List.pairwise_singleton _ _, fun a ha b hb => ?_⟩
    obtain rfl := List.mem_singleton.mp hb
    refine ⟨fun heq => hnew ?_, fun path hpath hpath' => hfree a ha ⟨path, hpath, hpath'⟩, ?_⟩
    · obtain ⟨entry, hentry, rfl⟩ := List.mem_map.mp ha
      have hkey : entry.1 = unit.unitId := (hD.keyed entry hentry).symm.trans heq
      rw [← hkey]
      exact List.mem_map_of_mem hentry
    · have hissued := hD.issued a ha
      exact ne_of_lt (show a.fence < D.fence + 1 by omega)
  · rw [hvalues]
    refine List.forall_mem_append.mpr ⟨fun lease hlease => ?_, List.forall_mem_singleton.mpr ?_⟩
    · obtain ⟨e', he', hgrants⟩ := hD.granted lease hlease
      exact ⟨e', List.mem_append_left _ he', hgrants⟩
    · exact ⟨e, by simp, plan, permit, completed, failed, hop, hreply, unit, hunit, rfl, rfl,
        happroved, hdeps, hsound⟩
  · rw [hfences]
    refine List.pairwise_append.mpr
      ⟨hD.increasing, List.pairwise_singleton _ _, fun a ha b hb => ?_⟩
    rw [List.mem_singleton.mp hb]
    have hbounded := hD.bounded a ha
    omega
  · rw [hvalues]
    refine List.forall_mem_append.mpr ⟨fun lease hlease => ?_, List.forall_mem_singleton.mpr le_rfl⟩
    have hissued := hD.issued lease hlease
    change lease.fence ≤ D.fence + 1
    omega
  · rw [hfences]
    refine List.forall_mem_append.mpr ⟨fun fence hfence => ?_, List.forall_mem_singleton.mpr le_rfl⟩
    have hbounded := hD.bounded fence hfence
    change fence ≤ D.fence + 1
    omega

/-- **A call keeps the leases.** -/
theorem Leasing.step (hD : Leasing h D) (call : DispatchCall) :
    Leasing (h ++ [Entry.perform (DispatchCall.act reprText) D call])
      (call.act reprText D).2 := by
  cases call with
  | reserve plan permit workerId completed failed =>
    rcases reserveReadyWork_cases reprText plan permit workerId completed failed D with
      ⟨unit, hfind, hfree, hrun⟩ | ⟨unit, message, -, -, hrun⟩ | ⟨-, hrun⟩
    · have hact : DispatchCall.act reprText (.reserve plan permit workerId completed failed) D =
          (.ok (some (unit.unitId, D.fence + 1)), D.lease unit workerId) := by
        rw [DispatchCall.act, hrun]
        rfl
      rw [hact]
      have hcandidate := List.find?_some hfind
      exact hD.lease rfl (congrArg Prod.fst hact) (List.mem_of_find?_eq_some hfind)
        (of_decide_eq_true hcandidate) hfree
    · rw [DispatchCall.act, hrun]
      refine hD.raise ?_
      rw [Entry.perform_reply, DispatchCall.act, hrun]
      rfl
    · rw [DispatchCall.act, hrun]
      refine hD.raise ?_
      rw [Entry.perform_reply, DispatchCall.act, hrun]
      rfl
  | release unitId workerId fence =>
    rcases release_cases unitId workerId fence D with ⟨lease, -, -, -, hrun⟩ | hrun
    · rw [DispatchCall.act, hrun]
      refine (hD.raise ?_).erase unitId
      rw [Entry.perform_reply, DispatchCall.act, hrun]
      rfl
    · rw [DispatchCall.act, hrun]
      refine hD.raise ?_
      rw [Entry.perform_reply, DispatchCall.act, hrun]
      rfl

/-- **What each call does to the leases**: a release ends its own, and a raise none. -/
theorem releases_and_raises (he : e = Entry.perform (DispatchCall.act reprText) e.before e.op) :
    Releases e ∧ Raises e := by
  have hafter : e.after = (e.op.act reprText e.before).2 := congrArg Entry.after he
  have hreply : e.reply = (e.op.act reprText e.before).1 := congrArg Entry.reply he
  cases hop : e.op with
  | reserve plan permit workerId completed failed =>
    refine ⟨fun _ _ _ hrelease => (nomatch hop.symm.trans hrelease), fun error herror => ?_⟩
    rw [hop, DispatchCall.act] at hafter hreply
    rcases reserveReadyWork_cases reprText plan permit workerId completed failed e.before with
      ⟨unit, -, -, hrun⟩ | ⟨unit, message, -, -, hrun⟩ | ⟨-, hrun⟩ <;>
      rw [hrun] at hafter hreply
    · cases hreply.symm.trans herror
    · exact hafter
    · exact hafter
  | release unitId workerId fence =>
    rw [hop, DispatchCall.act] at hafter hreply
    rcases release_cases unitId workerId fence e.before with
      ⟨lease, hlease, hworker, hfence, hrun⟩ | hrun <;> rw [hrun] at hafter hreply
    · refine ⟨fun unitId' workerId' fence' hrelease => ?_, fun error herror => ?_⟩
      · obtain ⟨rfl, rfl, rfl⟩ : unitId = unitId' ∧ workerId = workerId' ∧ fence = fence' := by
          simpa using hop.symm.trans hrelease
        exact .inr ⟨lease, hlease, hworker, hfence, hafter⟩
      · cases hreply.symm.trans herror
    · exact ⟨fun _ _ _ _ => .inl hafter, fun _ _ => hafter⟩

/-- **Which runs meet the specification**: those in whose reservations the first ready and permitted
unit is free whenever one is. -/
theorem dispatches_iff (hrun : Run (DispatchCall.act reprText) {} h D) :
    Dispatches h D ↔ ∀ e ∈ h, FirstFree e := by
  have hleasing : Leasing h D := hrun.inv leasing_nil fun h s call _ hs => hs.step call
  have hentries : ∀ e ∈ h, Releases e ∧ Raises e := fun e he =>
    releases_and_raises (hrun.eq_perform he)
  constructor
  · intro hdispatches e he
    exact (conflictsOnly_iff (hrun.eq_perform he)).mp (hdispatches.conflicts e he)
  · intro hfirst
    exact ⟨hleasing.apart, hleasing.granted, hleasing.increasing, fun e he => (hentries e he).1,
      fun e he => (hentries e he).2,
      fun e he => (conflictsOnly_iff (hrun.eq_perform he)).mpr (hfirst e he)⟩

end

/-- A unit that writes to this path. -/
def unitWriting (unitId path : String) : WorkUnitSpec :=
  { unitId, requirementIds := [], acceptanceIds := [], writePaths := [path] }

/-- Two units that write to one path, and one that writes elsewhere. -/
def threeUnits : GovernedWorkPlan where
  planId := "plan"
  revision := 1
  requirements := ["r"]
  units := [unitWriting "u1" "p", unitWriting "u2" "p", unitWriting "u3" "q"]

/-- Two reservations by different workers, under a permit for all units. -/
def twoReservations : List DispatchCall :=
  ["w1", "w2"].map fun workerId => .reserve threeUnits
    ⟨⟨"permit", "subject", "source", 0⟩, ["u1", "u2", "u3"]⟩ workerId none none

theorem dispatches_iff_twoReservations :
    Dispatches (exec (DispatchCall.act id) {} twoReservations).1
        (exec (DispatchCall.act id) {} twoReservations).2 ↔
      ∀ e ∈ (exec (DispatchCall.act id) {} twoReservations).1, FirstFree e :=
  dispatches_iff (run_exec _ _ _)

/-- The second worker is refused because of the second unit, although the third is free. -/
theorem not_dispatches : ¬ Dispatches (exec (DispatchCall.act id) {} twoReservations).1
    (exec (DispatchCall.act id) {} twoReservations).2 := by
  intro h
  have hbusy := h.conflicts _ (List.mem_cons_of_mem _ List.mem_cons_self) _ _ _ _ _
    "u2 write-set overlaps [u1]" rfl rfl (unitWriting "u3" "q") (by simp [threeUnits])
  exact hbusy (by decide) (by decide)

end Dispatcher

end CyranoAgent
