import Mathlib.Algebra.BigOperators.Group.List.Basic
import Mathlib.Data.List.Basic
import CyranoAgent.Lib.Run
import CyranoAgent.Sqlite.Repository

/-!
# Scope budgets

The budget operations of `TeamCoordinator`: a cap per scope, reservations before work is done and
settlements after it. A reservation is admitted when it fits the cap beside what is reserved, and
this sum leaves out what was spent. `withinCap_iff` says when the cap still bounds the money:
exactly when every reservation that is admitted also has room beside the spent amount.

Amounts are integers without bound here. SQLite adds in 64 bits, which the sums leave only in tables
that already exceed their cap.
-/

namespace CyranoAgent

open Lib Lib.Action

/-- A row of `scope_budgets`. -/
structure ScopeBudget where
  scopeId : String
  cap : ℤ
  reserved : ℤ
  spent : ℤ
  unknownLiability : ℤ
  deriving DecidableEq, Repr

/-- The row after a settlement: without an observed usage the amount stays as a liability. -/
def ScopeBudget.settled (row : ScopeBudget) (amount : ℤ) : Option ℤ → ScopeBudget
  | none => { row with
      reserved := row.reserved - amount, unknownLiability := row.unknownLiability + amount }
  | some usage => { row with reserved := row.reserved - amount, spent := row.spent + usage }

@[simp] theorem ScopeBudget.settled_scopeId (row : ScopeBudget) (amount : ℤ)
    (usageObserved : Option ℤ) : (row.settled amount usageObserved).scopeId = row.scopeId := by
  cases usageObserved <;> rfl

/-- The table `scope_budgets`. -/
abbrev ScopeBudgets := List ScopeBudget

/-- An operation on the budgets. -/
abbrev BudgetOp (α : Type) := Action ScopeBudgets Failure α

namespace ScopeBudgets

/-- The row of a scope. -/
def row? (S : ScopeBudgets) (scopeId : String) : Option ScopeBudget :=
  S.find? fun row => row.scopeId = scopeId

/-- `UPDATE scope_budgets` for the row of one scope. -/
def update (S : ScopeBudgets) (scopeId : String) (f : ScopeBudget → ScopeBudget) : ScopeBudgets :=
  Rows.update (fun row => row.scopeId = scopeId) f S

/-- Bind an integer parameter of a statement. -/
def bindInt (n : ℤ) : BudgetOp Unit := raiseIf (¬Repository.Bindable n) Failure.overflow

/-- `set_budget`. -/
def setBudget (scopeId : String) (cap : ℤ) : BudgetOp Unit := do
  raiseIf (cap < 0) (.cyrano "INVALID_BUDGET" "negative cap")
  transaction do
    bindInt cap
    modify fun S =>
      match S.row? scopeId with
      | none => S ++ [⟨scopeId, cap, 0, 0, 0⟩]
      | some _ => S.update scopeId fun row => { row with cap }

/-- `reserve_budget`. -/
def reserveBudget (scopeId : String) (amount : ℤ) : BudgetOp Unit := do
  raiseIf (amount ≤ 0) (.cyrano "INVALID_BUDGET" "reservation <= 0")
  transaction do
    match (← get).row? scopeId with
    | none => throw (.cyrano "BUDGET_UNBOUND" "no budget cap set")
    | some row => do
      raiseIf (row.unknownLiability ≠ 0)
        (.cyrano "BUDGET_BLOCKED" "unknown cost liability blocks new reservations")
      raiseIf (row.cap < row.reserved + amount)
        (.cyrano "BUDGET_UNBOUND" "reservation exceeds the cap")
      bindInt amount
      modify fun S => S.update scopeId fun row => { row with reserved := row.reserved + amount }

/-- `settle_budget`. -/
def settleBudget (scopeId : String) (amount : ℤ) (usageObserved : Option ℤ) : BudgetOp Unit :=
  transaction do
    match (← get).row? scopeId with
    | none => throw (.cyrano "BUDGET_UNBOUND" "no budget cap set")
    | some _ => do
      bindInt amount
      -- without an observed usage the statement binds the amount a second time
      bindInt (usageObserved.getD amount)
      modify fun S => S.update scopeId fun row => row.settled amount usageObserved

/-! ### The budgets as a machine -/

/-- The calls of any number of coordinators, each with its scope. -/
inductive BudgetCall
  | setBudget (scopeId : String) (cap : ℤ)
  | reserveBudget (scopeId : String) (amount : ℤ)
  | settleBudget (scopeId : String) (amount : ℤ) (usageObserved : Option ℤ)

/-- Perform a call. -/
def BudgetCall.act (call : BudgetCall) (S : ScopeBudgets) : Except Failure Unit × ScopeBudgets :=
  match call with
  | .setBudget scopeId cap => (ScopeBudgets.setBudget scopeId cap).run S
  | .reserveBudget scopeId amount => (ScopeBudgets.reserveBudget scopeId amount).run S
  | .settleBudget scopeId amount usageObserved =>
    (ScopeBudgets.settleBudget scopeId amount usageObserved).run S

/-- The scope of a call. -/
def BudgetCall.scopeId : BudgetCall → String
  | .setBudget scopeId _ | .reserveBudget scopeId _ | .settleBudget scopeId _ _ => scopeId

/-- One call of a history of the budgets. -/
abbrev BudgetEntry := Entry ScopeBudgets BudgetCall (Except Failure Unit)

/-- `reserve_budget` admits a reservation beside the row of its scope. -/
def Admits (row : ScopeBudget) (amount : ℤ) : Prop :=
  0 < amount ∧ row.unknownLiability = 0 ∧ row.reserved + amount ≤ row.cap ∧
    Repository.Bindable amount

/-- What a call that returns does to the row of its scope. -/
inductive RowMoves : BudgetCall → Option ScopeBudget → Option ScopeBudget → Prop
  | opened {scopeId : String} {cap : ℤ} : 0 ≤ cap →
      RowMoves (.setBudget scopeId cap) none (some ⟨scopeId, cap, 0, 0, 0⟩)
  | recapped {scopeId : String} {cap : ℤ} {row : ScopeBudget} : 0 ≤ cap →
      RowMoves (.setBudget scopeId cap) (some row) (some { row with cap })
  | reserved {scopeId : String} {amount : ℤ} {row : ScopeBudget} : Admits row amount →
      RowMoves (.reserveBudget scopeId amount) (some row)
        (some { row with reserved := row.reserved + amount })
  | settled {scopeId : String} {amount : ℤ} {usageObserved : Option ℤ} {row : ScopeBudget} :
      RowMoves (.settleBudget scopeId amount usageObserved) (some row)
        (some (row.settled amount usageObserved))

section

variable {S S' : ScopeBudgets} {scopeId : String}

/-! ### One call -/

/-- A scope's row after an update of one scope. -/
theorem row?_update {f : ScopeBudget → ScopeBudget} (hf : ∀ row, (f row).scopeId = row.scopeId)
    (scopeId' : String) :
    (S.update scopeId f).row? scopeId' =
      (S.row? scopeId').map fun row => if row.scopeId = scopeId then f row else row := by
  have hkey : ∀ row : ScopeBudget,
      decide ((f row).scopeId = scopeId') = decide (row.scopeId = scopeId') := by
    intro row
    rw [hf row]
  rw [row?, update, Rows.find?_update hkey]
  simp [row?]

theorem scopeId_of_row? {row : ScopeBudget} (h : S.row? scopeId = some row) :
    row.scopeId = scopeId := by
  simpa using List.find?_some h

/-- An update changes the row of its scope. -/
theorem row?_update_self {f : ScopeBudget → ScopeBudget}
    (hf : ∀ row, (f row).scopeId = row.scopeId) {row : ScopeBudget}
    (hrow : S.row? scopeId = some row) : (S.update scopeId f).row? scopeId = some (f row) := by
  rw [row?_update hf, hrow, Option.map_some, if_pos (scopeId_of_row? hrow)]

/-- An update changes no other scope's row. -/
theorem row?_update_of_ne {f : ScopeBudget → ScopeBudget}
    (hf : ∀ row, (f row).scopeId = row.scopeId) {other : String} (hne : scopeId ≠ other) :
    (S.update scopeId f).row? other = S.row? other := by
  rw [row?_update hf]
  cases hrow : S.row? other with
  | none => rfl
  | some row =>
    have hother : row.scopeId ≠ scopeId := by
      rw [scopeId_of_row? hrow]
      exact hne.symm
    rw [Option.map_some, if_neg hother]

/-- A scope's row after a new row. -/
theorem row?_append (row : ScopeBudget) (scopeId' : String) :
    (S ++ [row]).row? scopeId' =
      (S.row? scopeId').or (if row.scopeId = scopeId' then some row else none) := by
  rw [row?, List.find?_append, row?]
  by_cases hscope : row.scopeId = scopeId' <;> simp [hscope]

@[simp] theorem bindInt_eq_ok {n : ℤ} {u : Unit} :
    (bindInt n).run S = (.ok u, S') ↔ Repository.Bindable n ∧ S = S' := by
  simp [bindInt]

/-- When a cap is set, and how. -/
theorem setBudget_eq_ok {cap : ℤ} {u : Unit} :
    (setBudget scopeId cap).run S = (.ok u, S') ↔
      0 ≤ cap ∧ Repository.Bindable cap ∧
        S' = match S.row? scopeId with
          | none => S ++ [⟨scopeId, cap, 0, 0, 0⟩]
          | some _ => S.update scopeId fun row => { row with cap } := by
  simp only [setBudget, bind_eq_ok, raiseIf_eq_ok, transaction_eq_ok, bindInt_eq_ok, run_modify,
    Prod.mk.injEq, true_and, not_lt]
  constructor
  · rintro ⟨_, _, ⟨hcap, rfl⟩, _, _, ⟨hbind, rfl⟩, rfl⟩
    exact ⟨hcap, hbind, rfl⟩
  · rintro ⟨hcap, hbind, rfl⟩
    exact ⟨(), S, ⟨hcap, rfl⟩, (), S, ⟨hbind, rfl⟩, rfl⟩

/-- **When a reservation is made**: exactly when it is admitted beside the row of its scope. -/
theorem reserveBudget_eq_ok {amount : ℤ} {u : Unit} :
    (reserveBudget scopeId amount).run S = (.ok u, S') ↔
      ∃ row, S.row? scopeId = some row ∧ Admits row amount ∧
        S' = S.update scopeId fun row => { row with reserved := row.reserved + amount } := by
  simp only [reserveBudget, bind_eq_ok, raiseIf_eq_ok, transaction_eq_ok, run_get, Prod.mk.injEq,
    Except.ok.injEq, not_le]
  constructor
  · rintro ⟨_, _, ⟨hpos, rfl⟩, _, _, ⟨rfl, rfl⟩, hrun⟩
    cases hrow : S.row? scopeId with
    | none => simp [hrow] at hrun
    | some row =>
      simp only [hrow, bind_eq_ok, raiseIf_eq_ok, not_not, not_lt, bindInt_eq_ok, run_modify,
        Prod.mk.injEq, true_and] at hrun
      obtain ⟨_, _, ⟨hknown, rfl⟩, _, _, ⟨hfits, rfl⟩, _, _, ⟨hbind, rfl⟩, rfl⟩ := hrun
      exact ⟨row, rfl, ⟨hpos, hknown, hfits, hbind⟩, rfl⟩
  · rintro ⟨row, hrow, ⟨hpos, hknown, hfits, hbind⟩, rfl⟩
    refine ⟨(), S, ⟨hpos, rfl⟩, S, S, ⟨rfl, rfl⟩, ?_⟩
    simp only [hrow, bind_eq_ok, raiseIf_eq_ok, not_not, not_lt, bindInt_eq_ok, run_modify,
      Prod.mk.injEq, true_and]
    exact ⟨(), S, ⟨hknown, rfl⟩, (), S, ⟨hfits, rfl⟩, (), S, ⟨hbind, rfl⟩, rfl⟩

/-- A settlement asks for a row only. -/
theorem settleBudget_eq_ok {amount : ℤ} {usageObserved : Option ℤ} {u : Unit}
    (h : (settleBudget scopeId amount usageObserved).run S = (.ok u, S')) :
    (∃ row, S.row? scopeId = some row) ∧
      S' = S.update scopeId fun row => row.settled amount usageObserved := by
  simp only [settleBudget, bind_eq_ok, transaction_eq_ok, run_get, Prod.mk.injEq,
    Except.ok.injEq] at h
  obtain ⟨_, _, ⟨rfl, rfl⟩, hrun⟩ := h
  cases hrow : S.row? scopeId with
  | none => simp [hrow] at hrun
  | some row =>
    simp only [hrow, bind_eq_ok, bindInt_eq_ok, run_modify, Prod.mk.injEq, true_and] at hrun
    obtain ⟨_, _, ⟨-, rfl⟩, _, _, ⟨-, rfl⟩, rfl⟩ := hrun
    exact ⟨⟨row, rfl⟩, rfl⟩

/-- A call that raises changes nothing. -/
theorem act_eq_of_error {c : BudgetCall} {failure : Failure} (h : (c.act S).1 = .error failure) :
    (c.act S).2 = S := by
  have hatomic : Atomic (fun S : ScopeBudgets => c.act S) := by
    cases c with
    | setBudget => exact Atomic.bind (readOnly_raiseIf _ _) fun _ => atomic_transaction _
    | reserveBudget => exact Atomic.bind (readOnly_raiseIf _ _) fun _ => atomic_transaction _
    | settleBudget => exact atomic_transaction _
  exact hatomic (Prod.ext h rfl)

/-- **What a call does**: nothing when it raises, and otherwise one move of its scope's row. -/
theorem act_moves {c : BudgetCall} {u : Unit} (h : (c.act S).1 = .ok u) :
    RowMoves c (S.row? c.scopeId) ((c.act S).2.row? c.scopeId) ∧
      ∀ other, c.scopeId ≠ other → (c.act S).2.row? other = S.row? other := by
  have hrun : c.act S = (.ok u, (c.act S).2) := Prod.ext h rfl
  generalize (c.act S).2 = S' at hrun
  cases c with
  | setBudget scopeId cap =>
    obtain ⟨hcap, -, rfl⟩ := setBudget_eq_ok.mp hrun
    cases hrow : S.row? scopeId with
    | none =>
      simp only [BudgetCall.scopeId, hrow, row?_append, if_true, Option.none_or]
      refine ⟨.opened hcap, fun other hne => ?_⟩
      rw [if_neg hne, Option.or_none]
    | some row =>
      refine ⟨?_, fun other hne => row?_update_of_ne (by intro _; rfl) hne⟩
      rw [BudgetCall.scopeId, row?_update_self (by intro _; rfl) hrow, hrow]
      exact .recapped hcap
  | reserveBudget scopeId amount =>
    obtain ⟨row, hrow, hadmits, rfl⟩ := reserveBudget_eq_ok.mp hrun
    refine ⟨?_, fun other hne => row?_update_of_ne (by intro _; rfl) hne⟩
    rw [BudgetCall.scopeId, row?_update_self (by intro _; rfl) hrow, hrow]
    exact .reserved hadmits
  | settleBudget scopeId amount usageObserved =>
    obtain ⟨⟨row, hrow⟩, rfl⟩ := settleBudget_eq_ok hrun
    refine ⟨?_, fun other hne => row?_update_of_ne (by simp) hne⟩
    rw [BudgetCall.scopeId, row?_update_self (by simp) hrow, hrow]
    exact .settled

end

/-! ### Runs of the budgets -/

/-- The reservations of a scope that are still open after one more entry. -/
def openAfter (scopeId : String) (amounts : List ℤ) (e : BudgetEntry) : List ℤ :=
  match e.op, e.reply with
  | .reserveBudget scopeId' amount, .ok _ =>
    if scopeId' = scopeId then amount :: amounts else amounts
  | .settleBudget scopeId' amount _, .ok _ =>
    if scopeId' = scopeId then amounts.erase amount else amounts
  | _, _ => amounts

/-- The reservations of a scope that a history leaves open: made, and not settled. -/
def openReservations (scopeId : String) (h : List BudgetEntry) : List ℤ :=
  h.foldl (openAfter scopeId) []

/-- The entry sets the cap of a scope. -/
def SetsCap (scopeId : String) (e : BudgetEntry) : Prop :=
  (∃ cap, e.op = .setBudget scopeId cap) ∧ e.reply = .ok ()

/-- How a scope is used: its cap is set once, and every settlement closes an open reservation with
a usage of at most its amount. -/
structure ProperUse (scopeId : String) (h : List BudgetEntry) : Prop where
  capOnce : ∀ e e', Precedes h e e' → SetsCap scopeId e → ¬SetsCap scopeId e'
  closes : ∀ h₁ e h₂, h = h₁ ++ e :: h₂ → ∀ amount usageObserved,
    e.op = .settleBudget scopeId amount usageObserved →
      amount ∈ openReservations scopeId h₁ ∧ ∀ usage ∈ usageObserved, usage ≤ amount

/-- The cap bounds what is reserved, spent and liable, in every state of a history. -/
def WithinCap (scopeId : String) (h : List BudgetEntry) : Prop :=
  ∀ e ∈ h, ∀ row, e.after.row? scopeId = some row →
    0 ≤ row.reserved ∧ row.spent + row.reserved + row.unknownLiability ≤ row.cap

/-- Every reservation that a scope is admitted has room beside what it has spent. -/
def RoomBesideSpent (scopeId : String) (h : List BudgetEntry) : Prop :=
  ∀ e ∈ h, ∀ amount, e.op = .reserveBudget scopeId amount → ∀ row,
    e.before.row? scopeId = some row → Admits row amount →
      row.spent + row.reserved + amount ≤ row.cap

/-- The row of a scope agrees with its history, and its cap bounds it. -/
structure Balanced (scopeId : String) (h : List BudgetEntry) (row : ScopeBudget) : Prop where
  set : ∃ e ∈ h, SetsCap scopeId e
  positive : ∀ amount ∈ openReservations scopeId h, 0 < amount
  reserved_eq : row.reserved = (openReservations scopeId h).sum
  within : row.spent + row.reserved + row.unknownLiability ≤ row.cap

section

variable {S₀ S S' : ScopeBudgets} {scopeId : String} {h h₁ h₂ : List BudgetEntry} {e : BudgetEntry}

theorem openReservations_snoc :
    openReservations scopeId (h ++ [e]) = openAfter scopeId (openReservations scopeId h) e := by
  rw [openReservations, List.foldl_append]
  rfl

theorem ProperUse.upTo (hproper : ProperUse scopeId (h₁ ++ h₂)) : ProperUse scopeId h₁ := by
  refine ⟨fun e e' hp => ?_, fun h₃ e h₄ heq => ?_⟩
  · obtain ⟨h₃, h₄, h₅, rfl⟩ := hp
    exact hproper.capOnce e e' ⟨h₃, h₄, h₅ ++ h₂, by simp⟩
  · exact hproper.closes h₃ e (h₄ ++ h₂) (by simp [heq])

/-- A cap that was set is not set again. -/
theorem ProperUse.not_setsCap (hproper : ProperUse scopeId (h ++ [e]))
    (hset : ∃ e' ∈ h, SetsCap scopeId e') : ¬SetsCap scopeId e := by
  obtain ⟨e', he', hsets⟩ := hset
  obtain ⟨h₃, h₄, rfl⟩ := List.append_of_mem he'
  exact hproper.capOnce e' e ⟨h₃, h₄, [], by simp⟩ hsets

/-- One move of a balanced row, by a call that keeps to the proper use and to the room beside the
spent amount. -/
theorem Balanced.move {row row' : ScopeBudget} (hbalanced : Balanced scopeId h row)
    (hproper : ProperUse scopeId (h ++ [e])) (hroom : RoomBesideSpent scopeId (h ++ [e]))
    (hscope : e.op.scopeId = scopeId) (hok : e.reply = .ok ())
    (hrow : e.before.row? scopeId = some row) (hmoves : RowMoves e.op (some row) (some row')) :
    Balanced scopeId (h ++ [e]) row' := by
  obtain ⟨hset, hpositive, hreserved, hwithin⟩ := hbalanced
  have hset' : ∃ e' ∈ h ++ [e], SetsCap scopeId e' := by
    obtain ⟨e', he', hsets⟩ := hset
    exact ⟨e', List.mem_append_left _ he', hsets⟩
  generalize hop : e.op = op at hmoves
  cases hmoves with
  | @recapped scopeId' cap =>
    obtain rfl : scopeId' = scopeId := by rw [hop] at hscope; exact hscope
    exact absurd ⟨⟨cap, hop⟩, hok⟩ (hproper.not_setsCap hset)
  | @reserved scopeId' amount _ hadmits =>
    obtain rfl : scopeId' = scopeId := by rw [hop] at hscope; exact hscope
    have hopen : openReservations scopeId' (h ++ [e]) =
        amount :: openReservations scopeId' h := by
      simp [openReservations_snoc, openAfter, hop, hok]
    have hfits := hroom e (by simp) amount hop row hrow hadmits
    obtain ⟨hamount, hknown, -⟩ := hadmits
    refine ⟨hset', ?_, ?_, ?_⟩
    · rw [hopen, List.forall_mem_cons]
      exact ⟨hamount, hpositive⟩
    · rw [hopen, List.sum_cons, ← hreserved, add_comm]
    · dsimp only
      omega
  | @settled scopeId' amount usageObserved =>
    obtain rfl : scopeId' = scopeId := by rw [hop] at hscope; exact hscope
    have hopen : openReservations scopeId' (h ++ [e]) =
        (openReservations scopeId' h).erase amount := by
      simp [openReservations_snoc, openAfter, hop, hok]
    obtain ⟨hmem, husage⟩ := hproper.closes h e [] rfl amount usageObserved hop
    have hsum := List.sum_erase hmem
    refine ⟨hset', ?_, ?_, ?_⟩
    · rw [hopen]
      exact fun a ha => hpositive a (List.mem_of_mem_erase ha)
    · rw [hopen]
      cases usageObserved with
      | none => simp only [ScopeBudget.settled]; omega
      | some usage => simp only [ScopeBudget.settled]; omega
    · cases usageObserved with
      | none => simp only [ScopeBudget.settled]; omega
      | some usage =>
        have hle := husage usage rfl
        simp only [ScopeBudget.settled]
        omega

/-- An entry that leaves the scope alone keeps its row balanced. -/
theorem Balanced.still {row : ScopeBudget} (hbalanced : Balanced scopeId h row)
    (hopen : openReservations scopeId (h ++ [e]) = openReservations scopeId h) :
    Balanced scopeId (h ++ [e]) row := by
  obtain ⟨⟨e', he', hsets⟩, hpositive, hreserved, hwithin⟩ := hbalanced
  exact ⟨⟨e', List.mem_append_left _ he', hsets⟩, hopen ▸ hpositive, hopen ▸ hreserved, hwithin⟩

/-- An entry of another scope, or one that raised, leaves the open reservations alone. -/
theorem openReservations_still
    (hother : e.op.scopeId ≠ scopeId ∨ ∃ failure, e.reply = .error failure) :
    openReservations scopeId (h ++ [e]) = openReservations scopeId h := by
  rw [openReservations_snoc, openAfter]
  rcases hother with hne | ⟨failure, hfailed⟩
  · cases hop : e.op <;> rw [hop] at hne <;> cases hreply : e.reply <;>
      simp_all [BudgetCall.scopeId]
  · cases hop : e.op <;> rw [hfailed]

/-- **A scope's row stays balanced** over a run that uses the scope properly and leaves room beside
what it has spent. -/
theorem balanced_of_run (hnew : S₀.row? scopeId = none) (hr : Run BudgetCall.act S₀ h S)
    (hproper : ProperUse scopeId h) (hroom : RoomBesideSpent scopeId h) :
    (S.row? scopeId = none → openReservations scopeId h = []) ∧
      ∀ row, S.row? scopeId = some row → Balanced scopeId h row := by
  revert hproper hroom
  refine hr.inv (I := fun h S => ProperUse scopeId h → RoomBesideSpent scopeId h →
    (S.row? scopeId = none → openReservations scopeId h = []) ∧
      ∀ row, S.row? scopeId = some row → Balanced scopeId h row)
    (fun _ _ => ⟨fun _ => rfl, by simp [hnew]⟩) ?_
  intro h S c hr ih hproper hroom
  obtain ⟨hnone, hsome⟩ := ih hproper.upTo fun e he => hroom e (List.mem_append_left _ he)
  cases hreply : (c.act S).1 with
  | error failure =>
    rw [act_eq_of_error hreply]
    have hopen : openReservations scopeId (h ++ [Entry.perform BudgetCall.act S c]) =
        openReservations scopeId h := openReservations_still (.inr ⟨failure, hreply⟩)
    exact ⟨fun hrow => hopen.trans (hnone hrow), fun row hrow => (hsome row hrow).still hopen⟩
  | ok u =>
    obtain ⟨hmoves, hothers⟩ := act_moves hreply
    by_cases hscope : c.scopeId = scopeId
    · rw [hscope] at hmoves
      cases hrow : S.row? scopeId with
      | none =>
        rw [hrow] at hmoves
        generalize hrow' : (c.act S).2.row? scopeId = row' at hmoves
        have hempty := hnone hrow
        cases hmoves with
        | @opened scopeId' cap hcap =>
          obtain rfl : scopeId' = scopeId := hscope
          have hopen : openReservations scopeId' (h ++
              [Entry.perform BudgetCall.act S (.setBudget scopeId' cap)]) = [] := by
            simpa [openReservations_snoc, openAfter] using hempty
          refine ⟨fun hgone => hopen, fun row hfound => ?_⟩
          obtain rfl : _ = row := Option.some.inj hfound
          refine ⟨⟨_, List.mem_append_right _ (List.mem_singleton_self _), ⟨cap, rfl⟩, hreply⟩,
            ?_, ?_, ?_⟩
          · simp [hopen]
          · simp [hopen]
          · simpa using hcap
      | some row =>
        rw [hrow] at hmoves
        refine ⟨fun hgone => ?_, fun row' hfound => ?_⟩
        · rw [hgone] at hmoves
          cases hmoves
        · rw [hfound] at hmoves
          exact (hsome row hrow).move hproper hroom hscope hreply hrow hmoves
    · have hopen : openReservations scopeId (h ++ [Entry.perform BudgetCall.act S c]) =
          openReservations scopeId h := openReservations_still (.inl hscope)
      rw [hothers scopeId hscope]
      exact ⟨fun hrow => hopen.trans (hnone hrow), fun row hrow => (hsome row hrow).still hopen⟩

/-- **When the cap bounds the money**, over every run in which the scope is used properly: exactly
when every reservation that is admitted has room beside what the scope has spent. -/
theorem withinCap_iff (hnew : S₀.row? scopeId = none) (hr : Run BudgetCall.act S₀ h S)
    (hproper : ProperUse scopeId h) :
    WithinCap scopeId h ↔ RoomBesideSpent scopeId h := by
  constructor
  · intro hwithin e he amount hop row hrow hadmits
    have hperform := hr.eq_perform he
    have hreserved := (reserveBudget_eq_ok (u := ())).mpr ⟨row, hrow, hadmits, rfl⟩
    have hafter : e.after = e.before.update scopeId fun row =>
        { row with reserved := row.reserved + amount } := by
      rw [hperform, Entry.perform_after, Entry.perform_before, hop]
      exact congrArg Prod.snd hreserved
    have hrow' := row?_update_self (f := fun row => { row with reserved := row.reserved + amount })
      (by intro _; rfl) hrow
    rw [← hafter] at hrow'
    obtain ⟨-, hle⟩ := hwithin e he _ hrow'
    obtain ⟨-, hknown, -⟩ := hadmits
    dsimp only at hle
    omega
  · intro hroom e he row hrow
    obtain ⟨h₁, h₂, rfl⟩ := List.append_of_mem he
    rw [List.append_cons] at hproper hroom
    obtain ⟨-, hsome⟩ := balanced_of_run hnew hr.upTo hproper.upTo fun e' he' =>
      hroom e' (List.mem_append_left _ he')
    obtain ⟨-, hpositive, hreserved, hwithin⟩ := hsome row hrow
    refine ⟨?_, hwithin⟩
    rw [hreserved]
    exact List.sum_nonneg fun amount hamount => (hpositive amount hamount).le

end

/-- A cap of ten, reserved and spent, and then reserved once more. -/
def reservedTwice : List BudgetCall :=
  [.setBudget "s" 10, .reserveBudget "s" 10, .settleBudget "s" 10 (some 10),
    .reserveBudget "s" 10]

/-- The history of these calls. -/
abbrev reservedTwiceHistory : List BudgetEntry := (exec BudgetCall.act [] reservedTwice).1

/-- The scope is used properly. -/
theorem properUse_reservedTwice : ProperUse "s" reservedTwiceHistory := by
  refine ⟨?_, ?_⟩
  · rintro e e' ⟨h₁, h₂, h₃, heq⟩ - ⟨⟨cap, hop⟩, -⟩
    have hlater : e' ∈ reservedTwiceHistory.tail := by
      rw [heq]
      cases h₁ <;> simp
    have hops : e'.op ∈ reservedTwice.tail := by
      rw [← map_op_exec BudgetCall.act [] reservedTwice, ← List.map_tail]
      exact List.mem_map_of_mem hlater
    rw [hop] at hops
    simp [reservedTwice] at hops
  · intro h₁ e h₂ heq amount usageObserved hop
    match h₁, heq with
    | [], heq => cases heq; cases hop
    | [_], heq => cases heq; cases hop
    | [_, _], heq =>
      cases heq
      cases hop
      exact ⟨by decide, by simp⟩
    | [_, _, _], heq => cases heq; cases hop
    | _ :: _ :: _ :: _ :: rest, heq =>
      have hlength := congrArg List.length heq
      have hfour : reservedTwiceHistory.length = 4 := rfl
      simp only [hfour, List.length_append, List.length_cons] at hlength
      omega

/-- A scope whose second reservation is not made. -/
theorem withinCap_iff_reservedTwice :
    WithinCap "s" reservedTwiceHistory ↔ RoomBesideSpent "s" reservedTwiceHistory :=
  withinCap_iff rfl (run_exec _ _ _) properUse_reservedTwice

/-- **What was spent is reserved again**: the cap is ten, and ten are spent and ten reserved. -/
theorem spent_again :
    ¬∀ (scopeId : String) (S₀ S : ScopeBudgets) (h : List BudgetEntry),
      S₀.row? scopeId = none → Run BudgetCall.act S₀ h S → ProperUse scopeId h →
      WithinCap scopeId h := by
  intro hclaim
  have hwithin := hclaim "s" [] _ _ rfl (run_exec _ _ reservedTwice) properUse_reservedTwice
  have hover : (10 : ℤ) + 10 + 0 ≤ 10 :=
    (hwithin _ (.tail _ (.tail _ (.tail _ (.head _)))) ⟨"s", 10, 10, 10, 0⟩ (by decide)).2
  exact absurd hover (by decide)

end ScopeBudgets

end CyranoAgent
