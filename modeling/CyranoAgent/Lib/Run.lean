import Mathlib.Tactic.Common

/-!
# Runs of a deterministic machine, with their history

A machine is a function `act : ι → σ → ο × σ` from an operation and a state to a reply and
the next state. `Run act s₀ h s` says that the operations recorded in the history `h` lead
from `s₀` to `s`; every entry of the history keeps the state before and after its operation,
so a property of a step, and a condition on the state a step starts from, are predicates on
entries.

The rules: `Run.inv` (an invariant of history and state), `Run.part_eq_getLast` (a part of the
state is what was written there last), `Run.split` (a run cut at one of its entries), and
`Run.append`. `exec` runs a list of operations; `run_exec` is what lets a concrete run be
evaluated.
-/

namespace Lib

/-- One step of a run: the state it started from, the operation, its reply, the state it
left. -/
structure Entry (σ ι ο : Type) where
  before : σ
  op : ι
  reply : ο
  after : σ

variable {σ ι ο : Type}

/-- The entry `act` writes when `i` is performed in `s`. -/
def Entry.perform (act : ι → σ → ο × σ) (s : σ) (i : ι) : Entry σ ι ο :=
  ⟨s, i, (act i s).1, (act i s).2⟩

@[simp] theorem Entry.perform_before (act : ι → σ → ο × σ) (s : σ) (i : ι) :
    (Entry.perform act s i).before = s := rfl

@[simp] theorem Entry.perform_op (act : ι → σ → ο × σ) (s : σ) (i : ι) :
    (Entry.perform act s i).op = i := rfl

@[simp] theorem Entry.perform_reply (act : ι → σ → ο × σ) (s : σ) (i : ι) :
    (Entry.perform act s i).reply = (act i s).1 := rfl

@[simp] theorem Entry.perform_after (act : ι → σ → ο × σ) (s : σ) (i : ι) :
    (Entry.perform act s i).after = (act i s).2 := rfl

/-- The runs of `act` from `s₀`: the history, oldest entry first, and the state reached. -/
inductive Run (act : ι → σ → ο × σ) (s₀ : σ) : List (Entry σ ι ο) → σ → Prop
  | nil : Run act s₀ [] s₀
  | snoc {h : List (Entry σ ι ο)} {s : σ} (i : ι) :
      Run act s₀ h s → Run act s₀ (h ++ [Entry.perform act s i]) (act i s).2

namespace Run

variable {act : ι → σ → ο × σ} {s₀ s s' : σ} {h h' h₁ h₂ : List (Entry σ ι ο)}

/-- **The invariant rule**: what holds at the start and survives every step of a run holds
wherever a run leads. The step may use that the state it starts from is reached. -/
theorem inv {I : List (Entry σ ι ο) → σ → Prop} (h0 : I [] s₀)
    (hstep : ∀ h s i, Run act s₀ h s → I h s →
      I (h ++ [Entry.perform act s i]) (act i s).2)
    (hr : Run act s₀ h s) : I h s := by
  induction hr with
  | nil => exact h0
  | snoc i hr ih => exact hstep _ _ i hr ih

/-- The invariant rule for an invariant of the state alone. -/
theorem inv_state {I : σ → Prop} (h0 : I s₀) (hstep : ∀ s i, I s → I (act i s).2)
    (hr : Run act s₀ h s) : I s :=
  hr.inv (I := fun _ s => I s) h0 fun _ s i _ => hstep s i

/-- A run without entries goes nowhere. -/
theorem eq_of_nil (hr : Run act s₀ [] s) : s = s₀ := by
  generalize hh : ([] : List (Entry σ ι ο)) = h at hr
  cases hr with
  | nil => rfl
  | snoc i hr => simp at hh

/-- Runs compose. -/
theorem append (hr : Run act s₀ h s) (hr' : Run act s h' s') : Run act s₀ (h ++ h') s' := by
  induction hr' with
  | nil => simpa using hr
  | snoc i _ ih => rw [← List.append_assoc]; exact ih.snoc i

/-- **A run cut at one of its entries**: a run up to the entry, the entry itself, and a run
on from it. -/
theorem split {e : Entry σ ι ο} (hr : Run act s₀ (h₁ ++ e :: h₂) s) :
    Run act s₀ h₁ e.before ∧ e = Entry.perform act e.before e.op ∧ Run act e.after h₂ s := by
  generalize hh : h₁ ++ e :: h₂ = h at hr
  induction hr generalizing h₂ with
  | nil => simp at hh
  | @snoc h s i hr ih =>
    rcases List.eq_nil_or_concat h₂ with rfl | ⟨h₃, e', rfl⟩
    · obtain ⟨rfl, he⟩ := List.append_inj' hh rfl
      obtain rfl : e = Entry.perform act s i := by simpa using he
      exact ⟨hr, rfl, .nil⟩
    · rw [List.concat_eq_append, ← List.cons_append, ← List.append_assoc] at hh
      obtain ⟨hpre, he⟩ := List.append_inj' hh rfl
      obtain rfl : e' = Entry.perform act s i := by simpa using he
      obtain ⟨hbefore, heq, hafter⟩ := ih hpre
      exact ⟨hbefore, heq, by simpa using hafter.snoc i⟩

/-- A run up to one of its entries, and with it. -/
theorem upTo {e : Entry σ ι ο} (hr : Run act s₀ (h₁ ++ e :: h₂) s) :
    Run act s₀ (h₁ ++ [e]) e.after := by
  obtain ⟨hbefore, heq, -⟩ := hr.split
  have hsnoc := hbefore.snoc e.op
  rw [← heq] at hsnoc
  have hafter : e.after = (act e.op e.before).2 := congrArg Entry.after heq
  rwa [hafter]

/-- A run on from one of its entries. -/
theorem onFrom {e : Entry σ ι ο} (hr : Run act s₀ (h₁ ++ e :: h₂) s) :
    Run act e.before (e :: h₂) s := by
  obtain ⟨-, heq, hrest⟩ := hr.split
  have hstep : Run act e.before [Entry.perform act e.before e.op] (act e.op e.before).2 :=
    Run.nil.snoc e.op
  have hafter : e.after = (act e.op e.before).2 := congrArg Entry.after heq
  rw [← heq, ← hafter] at hstep
  exact hstep.append hrest

/-- The invariant rule, entry by entry: a step may use its place in the history, and that the
invariant held all the way to it. -/
theorem inv_entries {I : σ → Prop} (hr : Run act s₀ h s) (h0 : I s₀)
    (hstep : ∀ h₁ e h₂, h = h₁ ++ e :: h₂ → (∀ e' ∈ h₁, I e'.before) → I e.before → I e.after) :
    I s ∧ ∀ e ∈ h, I e.before ∧ I e.after := by
  induction hr with
  | nil => exact ⟨h0, by simp⟩
  | @snoc h s i hr ih =>
    obtain ⟨hs, hentries⟩ := ih fun h₁ e h₂ heq =>
      hstep h₁ e (h₂ ++ [Entry.perform act s i]) (by simp [heq])
    have hlast := hstep h (Entry.perform act s i) [] rfl (fun e he => (hentries e he).1) hs
    refine ⟨hlast, fun e he => ?_⟩
    rcases List.mem_append.mp he with he | he
    · exact hentries e he
    · obtain rfl := List.mem_singleton.mp he
      exact ⟨hs, hlast⟩

/-- Every entry of a run was performed in the state it records. -/
theorem eq_perform {e : Entry σ ι ο} (hr : Run act s₀ h s) (he : e ∈ h) :
    e = Entry.perform act e.before e.op := by
  obtain ⟨h₁, h₂, rfl⟩ := List.append_of_mem he
  exact hr.split.2.1

/-- **Where a run turns**: if a property fails at its start and holds at its end, some entry finds
it failing and leaves it holding. -/
theorem exists_turn {I : σ → Prop} (hr : Run act s₀ h s) (h0 : ¬I s₀) (hs : I s) :
    ∃ h₁ e h₂, h = h₁ ++ e :: h₂ ∧ ¬I e.before ∧ I e.after := by
  induction hr with
  | nil => exact absurd hs h0
  | @snoc h s i hr ih =>
    by_cases hbefore : I s
    · obtain ⟨h₁, e, h₂, rfl, hno, hyes⟩ := ih hbefore
      exact ⟨h₁, e, h₂ ++ [Entry.perform act s i], by simp, hno, hyes⟩
    · exact ⟨h, Entry.perform act s i, [], rfl, hbefore, hs⟩

/-! ### A part of the state -/

/-- **The last write wins**: a part of the state that every step leaves or replaces is what was
written last. -/
theorem part_eq_getLast {τ : Type} {part : σ → τ} {write : Entry σ ι ο → Option τ}
    (hstep : ∀ s i, part (act i s).2 = (write (Entry.perform act s i)).getD (part s))
    (hr : Run act s₀ h s) : part s = (h.filterMap write).getLast?.getD (part s₀) :=
  hr.inv (I := fun h s => part s = (h.filterMap write).getLast?.getD (part s₀)) rfl
    fun h s i _ hs => by
      rw [hstep, hs, List.filterMap_append, List.getLast?_append]
      cases hwrite : write (Entry.perform act s i) <;> simp [hwrite]

/-- The last write wins, in a part of the state that is missing at first. -/
theorem part_eq_getLast? {τ : Type} {part : σ → Option τ} {write : Entry σ ι ο → Option τ}
    (h0 : part s₀ = none)
    (hstep : ∀ s i, part (act i s).2 = (write (Entry.perform act s i)).or (part s))
    (hr : Run act s₀ h s) : part s = (h.filterMap write).getLast? :=
  hr.inv (I := fun h s => part s = (h.filterMap write).getLast?) h0 fun h s i _ hs => by
    rw [hstep, hs, List.filterMap_append, List.getLast?_append]
    cases hwrite : write (Entry.perform act s i) <;> simp [hwrite]

end Run

/-! ### Order in a history -/

/-- The first entry comes before the second in a history. -/
def Precedes (h : List (Entry σ ι ο)) (e' e : Entry σ ι ο) : Prop :=
  ∃ h₁ h₂ h₃, h = h₁ ++ e' :: (h₂ ++ e :: h₃)

namespace Precedes

variable {act : ι → σ → ο × σ} {s₀ s : σ} {h : List (Entry σ ι ο)} {e' e : Entry σ ι ο}

theorem mem_left (hp : Precedes h e' e) : e' ∈ h := by
  obtain ⟨h₁, h₂, h₃, rfl⟩ := hp
  simp

theorem mem_right (hp : Precedes h e' e) : e ∈ h := by
  obtain ⟨h₁, h₂, h₃, rfl⟩ := hp
  simp

/-- **What one entry leaves and its later steps keep, a later entry starts from.** -/
theorem inv {I : σ → Prop} (hp : Precedes h e' e) (hr : Run act s₀ h s) (h0 : I e'.after)
    (hstep : ∀ s i, I s → I (act i s).2) : I e.before := by
  obtain ⟨h₁, h₂, h₃, rfl⟩ := hp
  obtain ⟨-, -, hrest⟩ := hr.split
  exact hrest.split.1.inv_state h0 hstep

end Precedes

/-! ### Executing a list of operations -/

/-- The history and the final state of performing `ops` in turn. -/
def exec (act : ι → σ → ο × σ) (s : σ) : List ι → List (Entry σ ι ο) × σ
  | [] => ([], s)
  | i :: ops =>
    let rest := exec act (act i s).2 ops
    (Entry.perform act s i :: rest.1, rest.2)

theorem run_exec (act : ι → σ → ο × σ) (s : σ) (ops : List ι) :
    Run act s (exec act s ops).1 (exec act s ops).2 := by
  induction ops generalizing s with
  | nil => exact .nil
  | cons i ops ih => exact (Run.nil.snoc i).append (ih (act i s).2)

/-- The history of an execution records its operations. -/
theorem map_op_exec (act : ι → σ → ο × σ) (s : σ) (ops : List ι) :
    (exec act s ops).1.map (·.op) = ops := by
  induction ops generalizing s with
  | nil => rfl
  | cons i ops ih => simp [exec, ih]

end Lib
