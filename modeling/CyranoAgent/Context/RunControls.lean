import CyranoAgent.Contracts.Types
import CyranoAgent.Lib.Action
import CyranoAgent.Lib.Run
import Mathlib.Data.List.DropRight

/-!
# Run controls

`RunControls` counts how often in a row a run met the same error, and how often in a row it changed
nothing. What it answers is a matter of the attempts alone (`controls_spec`): it says `abort` when
the last ones, as many as the budget has, all met one error or all changed nothing, and it accepts
no attempt and no completion behind a cancellation.
-/

namespace CyranoAgent

open Lib Lib.Action

namespace Context

/-- An attempt: the digest of its error, and whether it changed anything. -/
structure Attempt where
  errorDigest : String
  changed : Bool
  deriving DecidableEq, Repr

/-- `RunControls`. -/
structure RunControls where
  maxSame : ℤ := 3
  maxStagnant : ℤ := 2
  same : ℕ := 0
  stagnant : ℕ := 0
  lastError : Option String := none
  cancelled : Bool := false
  deriving DecidableEq, Repr

namespace RunControls

/-- What a call on the controls is. -/
abbrev ControlOp (α : Type) := Action RunControls Failure α

/-- The counts after an attempt. -/
def count (C : RunControls) (a : Attempt) : RunControls :=
  { C with
    same := if C.lastError = some a.errorDigest then C.same + 1 else 1
    lastError := some a.errorDigest
    stagnant := if a.changed then 0 else C.stagnant + 1 }

/-- A count is at its budget. -/
def AtBudget (C : RunControls) : Prop := C.maxSame ≤ C.same ∨ C.maxStagnant ≤ C.stagnant

instance (C : RunControls) : Decidable C.AtBudget := inferInstanceAs (Decidable (_ ∨ _))

/-- `record_attempt`. -/
def recordAttempt (a : Attempt) : ControlOp String := do
  let C ← get
  raiseIf C.cancelled (.cyrano "RUN_CANCELLED" "run already cancelled")
  set (C.count a)
  return if (C.count a).AtBudget then "abort" else "continue"

/-- `cancel`. -/
def cancel : ControlOp String := do
  modify fun C => { C with cancelled := true }
  return "CANCELLED"

/-- `request_complete`. -/
def requestComplete (implemented : Bool) : ControlOp Unit := do
  raiseIf (← get).cancelled (.cyrano "RUN_CANCELLED" "cancelled run")
  raiseIf (¬implemented) (.cyrano "COMPLETE_WITHOUT_EVIDENCE" "no implementation evidence")

end RunControls

/-! ### The controls as a machine -/

/-- A call on the controls. -/
inductive ControlCall
  | recordAttempt (a : Attempt)
  | cancel
  | requestComplete (implemented : Bool)

/-- Performing a call. `none` is what a completion returns. -/
def ControlCall.act (call : ControlCall) (C : RunControls) :
    Except Failure (Option String) × RunControls :=
  match call with
  | .recordAttempt a => (some <$> RunControls.recordAttempt a).run C
  | .cancel => (some <$> RunControls.cancel).run C
  | .requestComplete implemented =>
    ((fun _ => none) <$> RunControls.requestComplete implemented).run C

/-- An entry of a history of the controls. -/
abbrev ControlEntry := Entry RunControls ControlCall (Except Failure (Option String))

/-- The attempt that an entry recorded, if it did. -/
def recorded? (e : ControlEntry) : Option Attempt :=
  match e.op, e.reply with
  | .recordAttempt a, .ok _ => some a
  | _, _ => none

/-- The entry is a cancellation. -/
def Cancels (e : ControlEntry) : Prop := e.op = .cancel

/-- The last `n` attempts all meet a condition. -/
def LastAll (n : ℤ) (p : Attempt → Bool) (attempts : List Attempt) : Prop :=
  n.toNat ≤ attempts.length ∧ ∀ a ∈ attempts.rtake n.toNat, p a

/-! ### The ends of a list -/

theorem le_length_takeWhile_iff {α : Type} {p : α → Bool} {l : List α} {n : ℕ} :
    n ≤ (l.takeWhile p).length ↔ n ≤ l.length ∧ ∀ a ∈ l.take n, p a := by
  induction l generalizing n with
  | nil => simp
  | cons b l ih =>
    cases n with
    | zero => simp
    | succ n =>
      by_cases hb : p b = true
      · simp [hb, ih]
      · simp [hb]

/-- How long the end of a list is that meets a condition. -/
theorem le_length_rtakeWhile_iff {α : Type} {p : α → Bool} {l : List α} {n : ℕ} :
    n ≤ (l.rtakeWhile p).length ↔ n ≤ l.length ∧ ∀ a ∈ l.rtake n, p a := by
  rw [List.rtakeWhile, List.length_reverse, le_length_takeWhile_iff, List.length_reverse,
    List.rtake_eq_reverse_take_reverse]
  simp only [List.mem_reverse]

theorem lastAll_iff {n : ℤ} {p : Attempt → Bool} {attempts : List Attempt} :
    LastAll n p attempts ↔ n ≤ (attempts.rtakeWhile p).length := by
  rw [LastAll, ← le_length_rtakeWhile_iff, Int.toNat_le]

/-! ### Counts -/

section

variable {maxSame maxStagnant : ℤ} {C : RunControls} {attempts : List Attempt}

/-- **The counts are those of the attempts**: of the last ones with the error of the last, and of
the last ones that changed nothing. -/
structure Counts (attempts : List Attempt) (C : RunControls) : Prop where
  lastError : C.lastError = attempts.getLast?.map (·.errorDigest)
  same : ∀ a ∈ attempts.getLast?,
    C.same = (attempts.rtakeWhile fun b => b.errorDigest = a.errorDigest).length
  stagnant : C.stagnant = (attempts.rtakeWhile fun b => !b.changed).length

theorem Counts.nil : Counts [] { maxSame, maxStagnant } where
  lastError := rfl
  same a ha := by simp at ha
  stagnant := by rw [List.rtakeWhile_nil]; rfl

/-- An attempt is counted. -/
theorem Counts.concat (h : Counts attempts C) (a : Attempt) :
    Counts (attempts ++ [a]) (C.count a) where
  lastError := by simp [RunControls.count]
  same b hb := by
    obtain rfl : a = b := by simpa using hb
    rw [List.rtakeWhile_concat_pos _ _ _ (by simp)]
    simp only [RunControls.count, h.lastError, List.length_append, List.length_singleton]
    rcases hlast : attempts.getLast? with _ | b
    · obtain rfl := List.getLast?_eq_none_iff.mp hlast
      simp
    · by_cases hsame : b.errorDigest = a.errorDigest
      · simp [h.same b hlast, hsame]
      · have hnil : (attempts.rtakeWhile fun b => b.errorDigest = a.errorDigest) = [] := by
          rw [List.rtakeWhile_eq_nil_iff]
          intro hne
          rw [List.getLast?_eq_some_getLast hne, Option.some.injEq] at hlast
          simpa [hlast] using hsame
        simp [hsame, hnil]
  stagnant := by
    rw [List.rtakeWhile_concat]
    simp only [RunControls.count, h.stagnant]
    cases a.changed <;> simp

/-- When the budget is spent. -/
theorem Counts.atBudget_iff (h : Counts attempts C) {a : Attempt} (ha : a ∈ attempts.getLast?) :
    C.AtBudget ↔ LastAll C.maxSame (fun b => b.errorDigest = a.errorDigest) attempts ∨
      LastAll C.maxStagnant (fun b => !b.changed) attempts := by
  rw [RunControls.AtBudget, lastAll_iff, lastAll_iff, h.same a ha, h.stagnant]

end

/-! ### What the controls answer -/

section

variable {maxSame maxStagnant : ℤ} {C : RunControls} {h : List ControlEntry}

theorem run_recordAttempt (a : Attempt) :
    (RunControls.recordAttempt a).run C =
      if C.cancelled then (.error (.cyrano "RUN_CANCELLED" "run already cancelled"), C)
      else (.ok (if (C.count a).AtBudget then "abort" else "continue"), C.count a) := by
  rw [RunControls.recordAttempt, run_bind_ok (run_get C), run_raiseIf_bind]
  rfl

theorem run_requestComplete (implemented : Bool) :
    (RunControls.requestComplete implemented).run C =
      (if C.cancelled then .error (.cyrano "RUN_CANCELLED" "cancelled run")
        else if implemented then .ok ()
        else .error (.cyrano "COMPLETE_WITHOUT_EVIDENCE" "no implementation evidence"), C) := by
  rw [RunControls.requestComplete, run_bind_ok (run_get C), run_raiseIf_bind]
  cases C.cancelled <;> cases implemented <;> rfl

/-- What a history leaves. -/
structure Controlled (maxSame maxStagnant : ℤ) (h : List ControlEntry) (C : RunControls) :
    Prop where
  maxSame : C.maxSame = maxSame
  maxStagnant : C.maxStagnant = maxStagnant
  counts : Counts (h.filterMap recorded?) C
  cancelled : C.cancelled = true ↔ ∃ e ∈ h, Cancels e

theorem controlled (hr : Run ControlCall.act { maxSame, maxStagnant } h C) :
    Controlled maxSame maxStagnant h C := by
  refine hr.inv (I := Controlled maxSame maxStagnant) ⟨rfl, rfl, .nil, by simp⟩
    fun h C call _ ih => ?_
  have hquiet (hcall : call ≠ .cancel)
      (hop : recorded? (Entry.perform ControlCall.act C call) = none)
      (hsame : (call.act C).2 = C) :
      Controlled maxSame maxStagnant (h ++ [Entry.perform ControlCall.act C call])
        (call.act C).2 := by
    rw [hsame]
    refine ⟨ih.maxSame, ih.maxStagnant, ?_, ?_⟩
    · simpa [hop] using ih.counts
    · simpa [or_and_right, exists_or, Cancels, hcall] using ih.cancelled
  cases call with
  | recordAttempt a =>
    cases hcancelled : C.cancelled with
    | true =>
      have hact : ControlCall.act (.recordAttempt a) C =
          (.error (.cyrano "RUN_CANCELLED" "run already cancelled"), C) := by
        rw [ControlCall.act, run_map, run_recordAttempt, if_pos hcancelled]
        rfl
      refine hquiet (by simp) ?_ (by rw [hact])
      simp [recorded?, hact]
    | false =>
      have hact : ControlCall.act (.recordAttempt a) C =
          (.ok (some (if (C.count a).AtBudget then "abort" else "continue")), C.count a) := by
        rw [ControlCall.act, run_map, run_recordAttempt, if_neg (by simp [hcancelled])]
        rfl
      have hrecorded : recorded? (Entry.perform ControlCall.act C (.recordAttempt a)) = some a := by
        simp [recorded?, hact]
      rw [hact]
      refine ⟨ih.maxSame, ih.maxStagnant, ?_, ?_⟩
      · simpa [hrecorded] using ih.counts.concat a
      · have hsame : (C.count a).cancelled = C.cancelled := rfl
        simpa [or_and_right, exists_or, Cancels, hsame] using ih.cancelled
  | cancel =>
    refine ⟨ih.maxSame, ih.maxStagnant, ?_, ?_⟩
    · have hsame : (h ++ [Entry.perform ControlCall.act C .cancel]).filterMap recorded? =
          h.filterMap recorded? := by simp [recorded?]
      rw [hsame]
      exact ⟨ih.counts.lastError, ih.counts.same, ih.counts.stagnant⟩
    · refine iff_of_true rfl ⟨_, List.mem_concat_self, rfl⟩
  | requestComplete implemented =>
    refine hquiet (by simp) rfl ?_
    rw [ControlCall.act, run_map, run_requestComplete]

/-- **What the controls answer after any history.** An attempt behind a cancellation is refused;
else the answer is `abort` exactly when the last attempts, this one with them and as many as the
budget of same errors, met its error, or as many as the other budget changed nothing. A completion
is accepted when nothing cancelled the run and it is implemented. -/
theorem controls_spec (hr : Run ControlCall.act { maxSame, maxStagnant } h C) (a : Attempt)
    (implemented : Bool) :
    (((RunControls.recordAttempt a).run C).1 = .error (.cyrano "RUN_CANCELLED"
        "run already cancelled") ↔ ∃ e ∈ h, Cancels e) ∧
      (((RunControls.recordAttempt a).run C).1 = .ok "abort" ↔
        (∀ e ∈ h, ¬Cancels e) ∧
          (LastAll maxSame (fun b => b.errorDigest = a.errorDigest) (h.filterMap recorded? ++ [a]) ∨
            LastAll maxStagnant (fun b => !b.changed) (h.filterMap recorded? ++ [a]))) ∧
      (((RunControls.requestComplete implemented).run C).1 = .ok () ↔
        (∀ e ∈ h, ¬Cancels e) ∧ implemented = true) := by
  obtain ⟨hsame, hstagnant, hcounts, hcancelled⟩ := controlled hr
  have hnot : (∀ e ∈ h, ¬Cancels e) ↔ C.cancelled = false := by
    rw [← Bool.not_eq_true, hcancelled]
    simp
  have hbudget := (hcounts.concat a).atBudget_iff (a := a) (by simp)
  rw [run_recordAttempt, run_requestComplete, ← hcancelled, hnot]
  refine ⟨?_, ?_, ?_⟩
  · cases C.cancelled <;> simp
  · rw [← show (C.count a).maxSame = maxSame from hsame,
      ← show (C.count a).maxStagnant = maxStagnant from hstagnant, ← hbudget]
    cases C.cancelled with
    | true => simp
    | false => by_cases hspent : (C.count a).AtBudget <;> simp [hspent]
  · cases C.cancelled <;> cases implemented <;> simp

/-- The second attempt of the budget for stagnation. -/
theorem controls_spec_stagnant :
    let run := exec ControlCall.act ({} : RunControls)
      [.recordAttempt ⟨"e1", false⟩, .requestComplete false]
    (((RunControls.recordAttempt ⟨"e2", false⟩).run run.2).1 = .error (.cyrano "RUN_CANCELLED"
        "run already cancelled") ↔ ∃ e ∈ run.1, Cancels e) ∧
      (((RunControls.recordAttempt ⟨"e2", false⟩).run run.2).1 = .ok "abort" ↔
        (∀ e ∈ run.1, ¬Cancels e) ∧
          (LastAll 3 (fun b => b.errorDigest = "e2")
              (run.1.filterMap recorded? ++ [⟨"e2", false⟩]) ∨
            LastAll 2 (fun b => !b.changed) (run.1.filterMap recorded? ++ [⟨"e2", false⟩]))) ∧
      (((RunControls.requestComplete true).run run.2).1 = .ok () ↔
        (∀ e ∈ run.1, ¬Cancels e) ∧ true = true) :=
  controls_spec (run_exec _ _ _) ⟨"e2", false⟩ true

end

end Context

end CyranoAgent
